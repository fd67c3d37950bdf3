import OblogProxy.Recovery.GtidManager

/-!
# The last valid line of the checkpoint file

`read_last_valid_gtid_seq` goes backwards through the file, from one newline to the one
before it, until a line gives it a commit version.  A newline at the very beginning of
the file is where it stops, but the line behind that newline is not read.

A crash while a line is appended leaves a piece of it behind the complete lines.  When
further lines are appended, nothing puts a newline between the piece and the first of them.
-/

namespace OblogProxy.Recovery

open Gtid GtidManager GtidSeq Lines Loop List

/-- The part of the file that has not been looked at, and the object. -/
structure LastValidScan where
  fileSize : ℕ
  gtidSeq : GtidSeq

def readLastValidStep (file : Text) (scan : LastValidScan) : Option LastValidScan :=
  if 0 < scan.fileSize ∧ scan.gtidSeq.commitVersionStart = 0 then
    let position := lineStart file scan.fileSize (scan.fileSize - 1)
    let start := if position = 0 then 0 else position + 1
    let content := (file.drop start).takeWhile (· ≠ '\n')
    some ⟨position, scan.gtidSeq.deserialize content⟩
  else none

/-- The positions that the `for` loop looks at. -/
def scannedPositions (file : Text) (fileSize : ℕ) : ℕ → List ℕ
  | 0 => []
  | position + 1 =>
    if file[position + 1]? = some '\n' ∧ position + 1 ≠ fileSize - 1 then [position + 1]
    else (position + 1) :: scannedPositions file fileSize position

/-- The positions that a turn reads at, up to the first character of the line. -/
def positionsRead (file : Text) (fileSize : ℕ) : List ℕ :=
  let position := lineStart file fileSize (fileSize - 1)
  scannedPositions file fileSize (fileSize - 1) ++ [if position = 0 then 0 else position + 1]

def ValidLine (line : Text) : Prop :=
  (split line '#').length = 4 ∧ commitVersion line ≠ 0

instance (line : Text) : Decidable (ValidLine line) :=
  inferInstanceAs (Decidable (_ ∧ _))

/-- The object is the last valid one of the lines, or it has no commit version. -/
def IsLastValid (lines : List Text) (gtidSeq : GtidSeq) : Prop :=
  match (lines.filter fun line => ValidLine line).getLast? with
  | some line => gtidSeq = empty.deserialize line
  | none => gtidSeq.commitVersionStart = 0

/-- The loop ends within the file, every read is inside the file, and the result is the
last valid line. -/
structure ReadsLastValid (file : Text) : Prop where
  ends : (finish (readLastValidStep file) (file.length + 1) ⟨file.length, empty⟩).map
    LastValidScan.gtidSeq = some (readLastValidGtidSeq file)
  inside : ∀ scan, Reaches (readLastValidStep file) ⟨file.length, empty⟩ scan →
    (readLastValidStep file scan).isSome →
      ∀ position ∈ positionsRead file scan.fileSize, position < file.length
  last : IsLastValid (getLines '\n' file) (readLastValidGtidSeq file)

section LineStart

variable {file : Text} {fileSize position start : ℕ}

theorem lineStart_le (file : Text) (fileSize position : ℕ) :
    lineStart file fileSize position ≤ position := by
  induction position with
  | zero => exact Nat.le_refl 0
  | succ position ih =>
    rw [lineStart]
    split_ifs
    · exact Nat.le_refl _
    · exact Nat.le_succ_of_le ih

/-- The newline at the end is not the one that is looked for. -/
theorem lineStart_ne (hstart : lineStart file fileSize position ≠ 0) :
    lineStart file fileSize position ≠ fileSize - 1 := by
  induction position with
  | zero => exact absurd rfl hstart
  | succ position ih =>
    rw [lineStart] at hstart ⊢
    split_ifs at hstart ⊢ with hnewline
    · exact hnewline.2
    · exact ih hstart

theorem lineStart_eq (hle : start ≤ position)
    (hstart : start = 0 ∨ (file[start]? = some '\n' ∧ start ≠ fileSize - 1))
    (hnone : ∀ other, start < other → other ≤ position →
      ¬(file[other]? = some '\n' ∧ other ≠ fileSize - 1)) :
    lineStart file fileSize position = start := by
  induction position with
  | zero => exact (Nat.le_zero.mp hle).symm
  | succ position ih =>
    rw [lineStart]
    rcases Nat.lt_or_eq_of_le hle with hlt | rfl
    · rw [if_neg (hnone _ hlt (Nat.le_refl _))]
      exact ih (by omega) fun other hother hbelow => hnone other hother (by omega)
    · rw [if_pos (hstart.resolve_left (Nat.succ_ne_zero _))]

theorem mem_scannedPositions {other : ℕ} (hother : other ∈ scannedPositions file fileSize position) :
    other ≤ position := by
  induction position with
  | zero => exact absurd hother not_mem_nil
  | succ position ih =>
    rw [scannedPositions] at hother
    split_ifs at hother
    · exact (mem_singleton.mp hother).le
    · rcases mem_cons.mp hother with rfl | hrest
      · exact Nat.le_refl _
      · exact Nat.le_succ_of_le (ih hrest)

theorem positionsRead_lt (hsize : 0 < fileSize) :
    ∀ position ∈ positionsRead file fileSize, position < fileSize := by
  intro position hposition
  rcases mem_append.mp hposition with hscanned | hline
  · have hle := mem_scannedPositions hscanned
    omega
  · rw [mem_singleton.mp hline]
    split_ifs with hzero
    · exact hsize
    · have hle := lineStart_le file fileSize (fileSize - 1)
      have hne := lineStart_ne hzero
      omega

end LineStart

section Loop

variable {file : Text} {scan next : LastValidScan}

theorem readLastValidStep_eq_some (hstep : readLastValidStep file scan = some next) :
    0 < scan.fileSize ∧ next.fileSize < scan.fileSize := by
  rw [readLastValidStep, Option.ite_none_right_eq_some] at hstep
  obtain ⟨⟨hsize, -⟩, hnext⟩ := hstep
  obtain rfl := Option.some.inj hnext
  have hle := lineStart_le file scan.fileSize (scan.fileSize - 1)
  exact ⟨hsize, by dsimp only; omega⟩

/-- The loop ends within as many turns as there are characters. -/
theorem finish_readLastValidStep {turns : ℕ} (hturns : scan.fileSize ≤ turns) :
    (finish (readLastValidStep file) (turns + 1) scan).map LastValidScan.gtidSeq =
      some (readLastValidLoop file turns scan.fileSize scan.gtidSeq) := by
  induction turns generalizing scan with
  | zero =>
    have hdone : readLastValidStep file scan = none := if_neg (by omega)
    rw [finish, hdone]
    rfl
  | succ turns ih =>
    rw [finish, readLastValidLoop]
    by_cases hgoes : 0 < scan.fileSize ∧ scan.gtidSeq.commitVersionStart = 0
    · have hstep : ∃ next, readLastValidStep file scan = some next := ⟨_, if_pos hgoes⟩
      obtain ⟨next, hstep⟩ := hstep
      have hsmaller := (readLastValidStep_eq_some hstep).2
      obtain rfl := Option.some.inj ((if_pos hgoes).symm.trans hstep)
      rw [hstep, if_pos hgoes]
      exact ih (by omega)
    · have hstep : readLastValidStep file scan = none := if_neg hgoes
      rw [hstep, if_neg hgoes]
      rfl

theorem fileSize_le_of_reaches {start : LastValidScan}
    (hreaches : Reaches (readLastValidStep file) start scan) : scan.fileSize ≤ start.fileSize := by
  induction hreaches with
  | refl => exact Nat.le_refl _
  | next _ hstep ih => exact (readLastValidStep_eq_some hstep).2.le.trans ih

end Loop

/-- Behind an empty first line the second one is not read. -/
def seenLines : List Text → List Text
  | [] :: _ :: later => later
  | lines => lines

section Seen

variable {lines : List Text} {line : Text}

theorem not_validLine_nil : ¬ValidLine [] := by
  decide

theorem seenLines_singleton (line : Text) : seenLines [line] = [line] := by
  cases line <;> rfl

theorem seenLines_append (hne : lines ≠ []) (hfirst : lines ≠ [[]]) :
    seenLines (lines ++ [line]) = seenLines lines ++ [line] := by
  match lines with
  | [] => exact absurd rfl hne
  | [[]] => exact absurd rfl hfirst
  | [] :: second :: later => rfl
  | (char :: first) :: later => rfl

theorem filter_seenLines_append (hne : lines ≠ []) (hinvalid : ¬ValidLine line) :
    (seenLines (lines ++ [line])).filter (fun line => ValidLine line) =
      (seenLines lines).filter fun line => ValidLine line := by
  rcases eq_or_ne lines [[]] with rfl | hfirst
  · rfl
  · rw [seenLines_append hne hfirst, filter_append, filter_cons_of_neg (by simpa),
      filter_nil, append_nil]

/-- The object behind a line that is not valid still has no commit version. -/
theorem commitVersionStart_of_not_validLine (hinvalid : ¬ValidLine line) {gtidSeq : GtidSeq}
    (hzero : gtidSeq.commitVersionStart = 0) :
    (gtidSeq.deserialize line).commitVersionStart = 0 := by
  by_cases hfields : (split line '#').length = 4
  · rw [deserialize_of_length hfields]
    by_contra hsome
    exact hinvalid ⟨hfields, hsome⟩
  · rwa [deserialize_of_length_ne hfields]

end Seen

/-- The part of the file that is left: terminated lines, one more line, and perhaps the
newline behind it. -/
structure FrontPart where
  lines : List Text
  line : Text
  trail : Text
  lines_newline : ∀ line ∈ lines, '\n' ∉ line
  line_newline : '\n' ∉ line
  trail_eq : trail = [] ∧ line ≠ [] ∨ trail = ['\n']

namespace FrontPart

variable (part : FrontPart)

def text : Text :=
  terminated '\n' part.lines ++ (part.line ++ part.trail)

/-- What follows in the file ends the line. -/
def Ends (behind : Text) : Prop :=
  part.trail ++ behind = [] ∨ ∃ rest, part.trail ++ behind = '\n' :: rest

theorem length_pos : 0 < part.text.length := by
  rw [text, length_append, length_append]
  rcases part.trail_eq with ⟨-, hne⟩ | htrail
  · have hpositive := length_pos_iff.mpr hne
    omega
  · simp [htrail]

theorem getLines_text : getLines '\n' part.text = part.lines ++ [part.line] := by
  rw [text, getLines_terminated_append part.lines_newline]
  rcases part.trail_eq with ⟨htrail, hne⟩ | htrail
  · rw [htrail, append_nil, getLines_unterminated part.line_newline hne]
  · rw [htrail, getLines_line part.line_newline]
    rfl

theorem length_text : part.text.length =
    (terminated '\n' part.lines).length + (part.line.length + part.trail.length) := by
  rw [text, length_append, length_append]

theorem lineStart_text (behind : Text) :
    lineStart (part.text ++ behind) part.text.length (part.text.length - 1) =
      (terminated '\n' part.lines).length - 1 := by
  have hlength := part.length_text
  have htail : 0 < part.line.length + part.trail.length := by
    rcases part.trail_eq with ⟨-, hne⟩ | htrail
    · exact Nat.add_pos_left (length_pos_iff.mpr hne) _
    · simp [htrail]
  refine lineStart_eq (by omega) ?_ ?_
  · rcases eq_nil_or_concat part.lines with hnil | ⟨front, last, hlines⟩
    · exact Or.inl (by rw [hnil]; rfl)
    · have hterminated : terminated '\n' part.lines =
          (terminated '\n' front ++ last) ++ ['\n'] := by
        simp [hlines]
      have hend := congrArg length hterminated
      rw [length_append, length_singleton] at hend
      refine Or.inr ⟨?_, by omega⟩
      rw [text, hterminated, append_assoc, append_assoc, getElem?_append_right (by simp)]
      simp
  · rintro other hbehind hle ⟨hnewline, hne⟩
    rw [text, append_assoc, getElem?_append_right (by omega), append_assoc] at hnewline
    by_cases hline : other - (terminated '\n' part.lines).length < part.line.length
    · rw [getElem?_append_left hline] at hnewline
      exact part.line_newline (mem_of_getElem? hnewline)
    · rcases part.trail_eq with ⟨htrail, -⟩ | htrail
      · rw [htrail, length_nil] at hlength
        omega
      · rw [htrail, length_singleton] at hlength
        omega

theorem takeWhile_text {behind : Text} (hends : part.Ends behind) :
    ((part.text ++ behind).drop (terminated '\n' part.lines).length).takeWhile (· ≠ '\n') =
      part.line := by
  rw [text, append_assoc, drop_left, append_assoc, takeWhile_append_of_pos]
  · rcases hends with hnil | ⟨rest, hrest⟩
    · simp [hnil]
    · simp [hrest]
  · intro char hchar
    have hne : char ≠ '\n' := fun heq => part.line_newline (heq ▸ hchar)
    simpa using hne

/-- In front of the line stands another part, unless the line is the first one or stands
behind a single newline. -/
theorem exists_before (hlines : 1 < (terminated '\n' part.lines).length) :
    ∃ before : FrontPart, before.lines.length < part.lines.length ∧
      terminated '\n' part.lines = before.text ++ ['\n'] ∧
      (seenLines part.lines).filter (fun line => ValidLine line) =
        (seenLines (before.lines ++ [before.line])).filter fun line => ValidLine line := by
  have hnewline := part.lines_newline
  rcases eq_nil_or_concat part.lines with hnil | ⟨front, last, heq⟩
  · simp [hnil] at hlines
  rw [concat_eq_append] at heq
  rw [heq] at hlines hnewline ⊢
  obtain ⟨hfront, hlast⟩ := forall_mem_append.mp hnewline
  rcases eq_or_ne last [] with rfl | hne
  · -- an empty line is passed over together with its newline
    rcases eq_nil_or_concat front with hnil | ⟨first, next, hnext⟩
    · simp [hnil] at hlines
    rw [concat_eq_append] at hnext
    subst hnext
    obtain ⟨hfirst, hnextLine⟩ := forall_mem_append.mp hfront
    refine ⟨⟨first, next, ['\n'], hfirst, hnextLine next mem_cons_self, Or.inr rfl⟩, ?_, ?_, ?_⟩
    · simp
    · simp [text]
    · exact filter_seenLines_append (by simp) not_validLine_nil
  · refine ⟨⟨front, last, [], hfront, hlast last mem_cons_self, Or.inl ⟨rfl, hne⟩⟩, ?_, ?_, rfl⟩
    · simp
    · simp [text]

theorem lines_of_length_le (hlines : ¬1 < (terminated '\n' part.lines).length) :
    part.lines = [] ∨ part.lines = [[]] := by
  match hmatch : part.lines with
  | [] => exact Or.inl rfl
  | [[]] => exact Or.inr rfl
  | [] :: second :: later => simp [hmatch] at hlines
  | (char :: first) :: later =>
    rw [hmatch] at hlines
    simp at hlines

end FrontPart

section Result

variable {file : Text} {gtidSeq : GtidSeq} {lines : List Text} {line : Text}

theorem isLastValid_append (hvalid : ValidLine line) :
    IsLastValid (lines ++ [line]) (gtidSeq.deserialize line) := by
  rw [IsLastValid, filter_append, filter_cons_of_pos (by simpa using hvalid),
    filter_nil, getLast?_concat]
  exact deserialize_of_length hvalid.1 gtidSeq

theorem isLastValid_singleton (hzero : gtidSeq.commitVersionStart = 0) :
    IsLastValid [line] (gtidSeq.deserialize line) := by
  by_cases hvalid : ValidLine line
  · exact @isLastValid_append gtidSeq [] line hvalid
  · rw [IsLastValid, filter_cons_of_neg (by simpa using hvalid)]
    exact commitVersionStart_of_not_validLine hvalid hzero

theorem readLastValidLoop_of_done {turns fileSize : ℕ}
    (hdone : fileSize = 0 ∨ gtidSeq.commitVersionStart ≠ 0) :
    readLastValidLoop file turns fileSize gtidSeq = gtidSeq := by
  cases turns with
  | zero => rfl
  | succ turns =>
    rw [readLastValidLoop, if_neg]
    rintro ⟨hsize, hzero⟩
    rcases hdone with hempty | hsome
    · omega
    · exact hsome hzero

/-- Every turn reads the line in front of what has been read. -/
theorem isLastValid_readLastValidLoop (part : FrontPart) {behind : Text}
    (hends : part.Ends behind) (hzero : gtidSeq.commitVersionStart = 0) {turns : ℕ}
    (hturns : part.text.length ≤ turns) :
    IsLastValid (seenLines (part.lines ++ [part.line]))
      (readLastValidLoop (part.text ++ behind) turns part.text.length gtidSeq) := by
  induction hcount : part.lines.length using Nat.strong_induction_on
    generalizing part behind gtidSeq turns with
  | h count ih =>
    have hpositive := part.length_pos
    obtain ⟨turns, rfl⟩ : ∃ rest, turns = rest + 1 := ⟨turns - 1, by omega⟩
    rw [readLastValidLoop, if_pos ⟨hpositive, hzero⟩, part.lineStart_text]
    dsimp only
    by_cases hlines : 1 < (terminated '\n' part.lines).length
    · obtain ⟨before, hfewer, htext, hseen⟩ := part.exists_before hlines
      have hne : part.lines ≠ [] := fun hnil => by simp [hnil] at hlines
      have hfirst : part.lines ≠ [[]] := fun hempty => by simp [hempty] at hlines
      rw [if_neg (by omega), Nat.sub_add_cancel (by omega), part.takeWhile_text hends]
      by_cases hvalid : ValidLine part.line
      · have hsome : (gtidSeq.deserialize part.line).commitVersionStart ≠ 0 := by
          rw [deserialize_of_length hvalid.1]
          exact hvalid.2
        rw [readLastValidLoop_of_done (Or.inr hsome), seenLines_append hne hfirst]
        exact isLastValid_append hvalid
      · have hfile : part.text ++ behind =
            before.text ++ ('\n' :: (part.line ++ (part.trail ++ behind))) := by
          simp [FrontPart.text, htext]
        have hsize : (terminated '\n' part.lines).length - 1 = before.text.length := by
          simp [htext]
        have hlength := part.length_text
        rw [IsLastValid, (filter_seenLines_append hne hvalid).trans hseen, ← IsLastValid, hfile,
          hsize]
        refine ih _ (hcount ▸ hfewer) before ?_ (commitVersionStart_of_not_validLine hvalid hzero)
          (by omega) rfl
        rcases before.trail_eq with ⟨htrail, -⟩ | htrail
        · exact Or.inr ⟨_, by rw [htrail]; rfl⟩
        · exact Or.inr ⟨_, by rw [htrail]; rfl⟩
    · rw [if_pos (by omega), readLastValidLoop_of_done (Or.inl (by omega))]
      rcases part.lines_of_length_le hlines with hnone | hempty
      · have hread := part.takeWhile_text hends
        rw [hnone, terminated_nil, length_nil] at hread
        rw [hread, hnone, nil_append, seenLines_singleton]
        exact isLastValid_singleton hzero
      · -- the first line is read once more, not the second one
        have hread : ((part.text ++ behind).drop 0).takeWhile (· ≠ '\n') = [] := by
          simp [FrontPart.text, hempty]
        rw [hread, hempty]
        exact hzero

theorem exists_frontPart (hne : file ≠ []) : ∃ part : FrontPart, part.text = file := by
  obtain ⟨lines, last, rfl, hlines, hlast⟩ := exists_terminated_append '\n' file
  rcases eq_or_ne last [] with rfl | hlastNe
  · rcases eq_nil_or_concat lines with rfl | ⟨front, line, rfl⟩
    · exact absurd rfl hne
    rw [concat_eq_append] at hlines ⊢
    obtain ⟨hfront, hline⟩ := forall_mem_append.mp hlines
    exact ⟨⟨front, line, ['\n'], hfront, hline line mem_cons_self, Or.inr rfl⟩,
      by simp [FrontPart.text]⟩
  · exact ⟨⟨lines, last, [], hlines, hlast, Or.inl ⟨rfl, hlastNe⟩⟩, by simp [FrontPart.text]⟩

/-- All lines but the second one behind an empty one are taken into account. -/
theorem isLastValid_readLastValidGtidSeq (file : Text) :
    IsLastValid (seenLines (getLines '\n' file)) (readLastValidGtidSeq file) := by
  rcases eq_or_ne file [] with rfl | hne
  · rfl
  · obtain ⟨part, rfl⟩ := exists_frontPart hne
    have hends : part.Ends [] := by
      rcases part.trail_eq with ⟨htrail, -⟩ | htrail
      · exact Or.inl (by rw [htrail]; rfl)
      · exact Or.inr ⟨[], by rw [htrail]; rfl⟩
    have hlast := @isLastValid_readLastValidLoop empty part [] hends rfl _
      (Nat.le_refl _)
    rw [append_nil] at hlast
    rw [part.getLines_text]
    exact hlast

/-- The line that is left out matters exactly if it is the last valid one. -/
theorem isLastValid_iff (hseen : IsLastValid (seenLines lines) gtidSeq) :
    IsLastValid lines gtidSeq ↔ ∀ second later, lines = [] :: second :: later →
      ValidLine second → ∃ line ∈ later, ValidLine line := by
  constructor
  · rintro hlast second later rfl hvalid
    by_contra hnone
    have hlater : later.filter (fun line => ValidLine line) = [] :=
      filter_eq_nil_iff.mpr fun line hline => by
        simpa using fun hline' => hnone ⟨line, hline, hline'⟩
    rw [IsLastValid, filter_cons_of_neg (by simpa using not_validLine_nil),
      filter_cons_of_pos (by simpa using hvalid), hlater] at hlast
    rw [seenLines, IsLastValid, hlater] at hseen
    rw [hlast] at hseen
    exact hvalid.2 hseen
  · intro hlater
    match lines, hseen, hlater with
    | [], hseen, _ => exact hseen
    | [[]], hseen, _ => exact hseen
    | (char :: first) :: later, hseen, _ => exact hseen
    | [] :: second :: later, hseen, hlater =>
      have hlast : (([] :: second :: later).filter fun line => ValidLine line).getLast? =
          (later.filter fun line => ValidLine line).getLast? := by
        rw [filter_cons_of_neg (by simpa using not_validLine_nil)]
        by_cases hvalid : ValidLine second
        · obtain ⟨line, hline, hvalidLine⟩ := hlater second later rfl hvalid
          rw [filter_cons_of_pos (by simpa using hvalid), getLast?_cons_of_ne_nil]
          exact ne_nil_of_mem (mem_filter.mpr ⟨hline, by simpa using hvalidLine⟩)
        · rw [filter_cons_of_neg (by simpa using hvalid)]
      rw [IsLastValid, hlast]
      exact hseen

end Result

/-- The backward search is right exactly if the file does not begin with a newline that
is followed by the last valid line. -/
theorem readsLastValid_iff (file : Text) :
    ReadsLastValid file ↔ ∀ second later, getLines '\n' file = [] :: second :: later →
      ValidLine second → ∃ line ∈ later, ValidLine line := by
  rw [← isLastValid_iff (isLastValid_readLastValidGtidSeq file)]
  refine ⟨ReadsLastValid.last, fun hlast => ⟨?_, ?_, hlast⟩⟩
  · exact @finish_readLastValidStep file ⟨file.length, empty⟩ _ (Nat.le_refl _)
  · intro scan hreaches hsome position hposition
    obtain ⟨next, hstep⟩ := Option.isSome_iff_exists.mp hsome
    exact (positionsRead_lt (readLastValidStep_eq_some hstep).1 position hposition).trans_le
      (fileSize_le_of_reaches hreaches)

/-- The only entry stands behind an empty line. -/
theorem not_readsLastValid_emptyFirstLine :
    getLines '\n' "\n100#a#5#1\n".toList = [[], "100#a#5#1".toList] ∧
      ValidLine "100#a#5#1".toList ∧
      (readLastValidGtidSeq "\n100#a#5#1\n".toList).commitVersionStart = 0 ∧
      ¬ReadsLastValid "\n100#a#5#1\n".toList := by
  have hlines : getLines '\n' "\n100#a#5#1\n".toList = [[], "100#a#5#1".toList] := by
    decide +kernel
  have hvalid : ValidLine "100#a#5#1".toList := by
    decide +kernel
  refine ⟨hlines, hvalid, by decide +kernel, fun hreads => ?_⟩
  obtain ⟨line, hline, -⟩ := (isLastValid_iff (isLastValid_readLastValidGtidSeq _)).mp hreads.last
    _ [] hlines hvalid
  exact absurd hline not_mem_nil

def readGtidSeqs : GtidSeq → List Text → List GtidSeq
  | _, [] => []
  | gtidSeq, line :: lines =>
    let gtidSeq := gtidSeq.deserialize line
    gtidSeq :: readGtidSeqs gtidSeq lines

namespace GtidManager

def stored (config : GtidConfig) : GtidManager → List GtidSeq → List GtidSeq
  | _, [] => []
  | manager, gtidSeq :: later =>
    let after := manager.saveGtidSeq config gtidSeq
    if manager.skips gtidSeq then stored config after later
    else gtidSeq :: stored config after later

/-- Look-ups return nothing but these entries, and a start reads all of them. -/
structure Knows (manager : GtidManager) (known : List GtidSeq) : Prop where
  latest : ∀ gtidSeq, manager.getLatestGtidSeq = some gtidSeq → gtidSeq ∈ known
  firstLe : ∀ gtid gtidSeq, manager.getFirstLeGtidSeq gtid = some gtidSeq → gtidSeq ∈ known
  restart : ∀ gtidSeq ∈ known,
    gtidSeq ∈ readGtidSeqs empty (getLines '\n' manager.file)

end GtidManager

/-- Complete lines, and a piece of one more.  The clock has not reached its last
second. -/
structure TornGtidFile where
  complete : List GtidSeq
  interrupted : GtidSeq
  torn : Text
  writable : ∀ gtidSeq ∈ interrupted :: complete, gtidSeq.Writable
  torn_le : torn <+: interrupted.serialize
  clock : ∀ gtidSeq ∈ interrupted :: complete,
    gtidSeq.commitVersionStart < maxCommitVersion

namespace TornGtidFile

variable (file : TornGtidFile) (config : GtidConfig) (now : ℕ)

def text : Text :=
  terminated '\n' (file.complete.map serialize) ++ file.torn

/-- After a start from the file and any further saves, the complete and the later
saved entries are known, and no others. -/
def Harmless : Prop :=
  ∀ later, (∀ gtidSeq ∈ later, gtidSeq.Writable) →
    let started := GtidManager.initGtidSeq config now file.text
    (started.saveAll config later).Knows (file.complete ++ started.stored config later)

end TornGtidFile

namespace GtidManager

variable {config : GtidConfig} {manager : GtidManager} {known : List GtidSeq}

/-- The file and the lines in memory are made of these entries. -/
structure MadeOf (manager : GtidManager) (known : List GtidSeq) : Prop where
  file_eq : manager.file = terminated '\n' (known.map serialize)
  cached : ∀ entry ∈ manager.gtidSeqSet, ∃ gtidSeq ∈ known, entry.2 = gtidSeq.serialize

theorem initLine_lines (lastCheckpoint : ℕ) (lines : List Text) (state : GtidSeq × GtidManager) :
    let loaded := (lines.foldl (initLine config lastCheckpoint) state).2
    loaded.file = state.2.file ∧
      ∀ entry ∈ loaded.gtidSeqSet, entry ∈ state.2.gtidSeqSet ∨ entry.2 ∈ lines := by
  induction lines generalizing state with
  | nil => exact ⟨rfl, fun entry hentry => Or.inl hentry⟩
  | cons line lines ih =>
    obtain ⟨hfile, hset⟩ := ih (initLine config lastCheckpoint state line)
    refine ⟨hfile, ?_⟩
    intro entry hentry
    rcases hset entry hentry with hbefore | hline
    · simp only [initLine] at hbefore
      split_ifs at hbefore
      · rw [mem_append, mem_singleton] at hbefore
        rcases hbefore with hold | rfl
        · exact Or.inl hold
        · exact Or.inr mem_cons_self
      · exact Or.inl hbefore
    · exact Or.inr (mem_cons_of_mem line hline)

theorem file_initGtidSeq (now : ℕ) (file : Text) : (initGtidSeq config now file).file = file :=
  (initLine_lines _ _ _).1

theorem mem_initGtidSeq {now : ℕ} {file : Text} {entry : ℕ × Text}
    (hentry : entry ∈ (initGtidSeq config now file).gtidSeqSet) :
    entry.2 ∈ getLines '\n' file := by
  rcases (initLine_lines _ _ _).2 entry hentry with hnone | hline
  · simp at hnone
  · exact hline

theorem MadeOf.saveGtidSeq (config : GtidConfig) (hmade : manager.MadeOf known)
    {gtidSeq : GtidSeq} (hskips : manager.skips gtidSeq = false) :
    (manager.saveGtidSeq config gtidSeq).MadeOf (known ++ [gtidSeq]) := by
  refine ⟨?_, ?_⟩
  · rw [GtidManager.saveGtidSeq, hskips]
    simp [hmade.file_eq]
  · intro entry hentry
    rcases mem_saveGtidSeq hentry with hold | hnew
    · obtain ⟨old, hknown, heq⟩ := hmade.cached entry hold
      exact ⟨old, mem_append_left _ hknown, heq⟩
    · exact ⟨gtidSeq, by simp, hnew⟩

theorem MadeOf.saveAll (hmade : manager.MadeOf known) (later : List GtidSeq) :
    (manager.saveAll config later).MadeOf (known ++ manager.stored config later) := by
  induction later generalizing manager known with
  | nil => simpa [GtidManager.saveAll, stored] using hmade
  | cons gtidSeq later ih =>
    rw [GtidManager.saveAll, foldl_cons, stored]
    rcases hskips : manager.skips gtidSeq with - | -
    · have hafter := ih (hmade.saveGtidSeq config hskips)
      rwa [append_assoc] at hafter
    · have hsame : manager.saveGtidSeq config gtidSeq = manager := by
        rw [GtidManager.saveGtidSeq, if_pos hskips]
      rw [hsame]
      exact ih hmade

theorem stored_subset (later : List GtidSeq) : manager.stored config later ⊆ later := by
  induction later generalizing manager with
  | nil => exact List.Subset.refl _
  | cons gtidSeq later ih =>
    rw [stored]
    split_ifs
    · exact subset_cons_of_subset gtidSeq ih
    · exact cons_subset_cons gtidSeq ih

end GtidManager

variable {known : List GtidSeq}

section Writable

variable (hwritable : ∀ gtidSeq ∈ known, gtidSeq.Writable)

include hwritable

theorem not_mem_newline : ∀ line ∈ known.map serialize, '\n' ∉ line := by
  intro line hline hchar
  obtain ⟨gtidSeq, hmem, rfl⟩ := mem_map.mp hline
  exact ((hwritable gtidSeq hmem).mem_serialize hchar).1 rfl

/-- Complete lines are read one by one, and the object keeps the last of them. -/
theorem readGtidSeqs_serialize (object : GtidSeq) (lines : List Text) :
    readGtidSeqs object (known.map serialize ++ lines) =
      known ++ readGtidSeqs (known.getLast?.getD object) lines := by
  induction known generalizing object with
  | nil => rfl
  | cons gtidSeq known ih =>
    rw [forall_mem_cons] at hwritable
    rw [map_cons, cons_append, readGtidSeqs, hwritable.1.deserialize_serialize,
      ih hwritable.2, getLast?_cons, cons_append, Option.getD_some]

theorem GtidManager.MadeOf.knows {manager : GtidManager} (hmade : manager.MadeOf known) :
    manager.Knows known := by
  have hcached : ∀ entry ∈ manager.gtidSeqSet, empty.deserialize entry.2 ∈ known := by
    intro entry hentry
    obtain ⟨gtidSeq, hknown, heq⟩ := hmade.cached entry hentry
    rw [heq, (hwritable gtidSeq hknown).deserialize_serialize]
    exact hknown
  refine ⟨?_, ?_, ?_⟩
  · intro gtidSeq hlatest
    obtain ⟨entry, hlast, rfl⟩ := Option.map_eq_some_iff.mp hlatest
    exact hcached entry (mem_of_getLast? hlast)
  · intro gtid gtidSeq hfound
    have hmem := mem_reverse.mp (mem_of_find?_eq_some hfound)
    obtain ⟨entry, hentry, rfl⟩ := mem_map.mp hmem
    exact hcached entry hentry
  · intro gtidSeq hknown
    rw [hmade.file_eq, getLines_terminated (not_mem_newline hwritable)]
    have hread := readGtidSeqs_serialize hwritable empty []
    rw [append_nil] at hread
    rw [hread]
    exact mem_append_left _ hknown

end Writable

/-- A piece of a line ends within the commit version or behind it. -/
theorem torn_cases {gtidSeq : GtidSeq} {torn : Text} (htorn : torn <+: gtidSeq.serialize) :
    torn <+: Nat.toDigits 10 gtidSeq.commitVersionStart ∨
      ∃ rest, torn = Nat.toDigits 10 gtidSeq.commitVersionStart ++ '#' :: rest :=
  (isPrefix_cases htorn).imp_right fun ⟨rest, heq, _⟩ => ⟨rest, heq⟩

/-- A number behind the front of another one is read as a larger number. -/
theorem toUint64_atoll_append {front : Text} (hfront : ∀ char ∈ front, char.isDigit = true)
    (hpos : 0 < readNumber front) {number : ℕ} (hnumber : number < 2 ^ 63 - 1) :
    toUint64 (atoll (front ++ Nat.toDigits 10 number)) ≠ number := by
  have hdigits := validNumber_toDigits number
  have hvalid : ValidNumber (front ++ Nat.toDigits 10 number) :=
    ⟨append_ne_nil_of_right_ne_nil _ hdigits.1, fun char hchar =>
      (mem_append.mp hchar).elim (hfront char) (hdigits.2 char)⟩
  have hlarger : number < readNumber (front ++ Nat.toDigits 10 number) := by
    rw [readNumber_append, readNumber_toDigits]
    have hpow : 0 < 10 ^ (Nat.toDigits 10 number).length := Nat.pos_of_ne_zero (by simp)
    have hmul := Nat.mul_pos hpos hpow
    omega
  rw [atoll_of_validNumber hvalid, toUint64]
  omega

section Torn

variable {gtidSeq fresh : GtidSeq} {torn : Text}

/-- The commit version of a piece of a line is the one of the line, if the piece is
taken at all. -/
theorem commitVersionStart_torn (hwritable : gtidSeq.Writable)
    (htorn : torn <+: gtidSeq.serialize) :
    (empty.deserialize torn).commitVersionStart ≤ gtidSeq.commitVersionStart := by
  have hnul : Char.ofNat 0 ∉ torn := fun hchar =>
    (hwritable.mem_serialize (htorn.subset hchar)).2 rfl
  rcases torn_cases htorn with hdigits | ⟨rest, rfl⟩
  · rw [deserialize_of_count_ne hnul]
    · exact Nat.zero_le _
    · rw [count_eq_zero_of_not_mem]
      · decide
      · exact fun hchar => (fieldChar_toDigits _ _ (hdigits.subset hchar)).1 rfl
  · have hdigits : '#' ∉ Nat.toDigits 10 gtidSeq.commitVersionStart := fun hchar =>
      (fieldChar_toDigits _ _ hchar).1 rfl
    rw [deserialize, split_eq_splitOn '#' (by simp) hnul,
      splitOn_append_cons_self_of_not_mem hdigits]
    split
    · rename_i hsplit
      obtain ⟨rfl, -⟩ := cons.inj hsplit
      exact (toUint64_atoll_toDigits
        (lt_of_le_of_lt hwritable.commitVersion_le (by decide))).le
    · exact Nat.zero_le _

/-- The first line that is appended is not read as it was written. -/
theorem deserialize_torn_append (hwritable : gtidSeq.Writable) (hfresh : fresh.Writable)
    (htorn : torn <+: gtidSeq.serialize) (hne : torn ≠ []) {object : GtidSeq}
    (hobject : object ≠ fresh) : object.deserialize (torn ++ fresh.serialize) ≠ fresh := by
  have hnul : Char.ofNat 0 ∉ torn ++ fresh.serialize := by
    intro hchar
    rcases mem_append.mp hchar with htornChar | hfreshChar
    · exact (hwritable.mem_serialize (htorn.subset htornChar)).2 rfl
    · exact (hfresh.mem_serialize hfreshChar).2 rfl
  rcases torn_cases htorn with hdigits | ⟨rest, rfl⟩
  · have htornDigits : ∀ char ∈ torn, char.isDigit = true := fun char hchar =>
      (validNumber_toDigits _).2 char (hdigits.subset hchar)
    have htornPos := readNumber_pos hwritable.commitVersion_pos hdigits hne
    intro heq
    rw [serialize, ← append_assoc, deserialize, split_fields] at heq
    · refine toUint64_atoll_append htornDigits htornPos ?_
        (congrArg commitVersionStart heq)
      exact lt_of_le_of_lt hfresh.commitVersion_le (by decide)
    · simp only [forall_mem_cons]
      refine ⟨?_, hfresh.xid, fieldChar_toDigits _, fieldChar_toDigits _, by simp⟩
      intro char hchar
      rcases mem_append.mp hchar with htornChar | hfreshChar
      · exact fieldChar_of_isDigit (htornDigits char htornChar)
      · exact fieldChar_toDigits _ char hfreshChar
  · rw [deserialize_of_count_ne hnul]
    · exact hobject
    · simp only [serialize, count_append, count_cons_self]
      omega

end Torn

namespace TornGtidFile

variable {file : TornGtidFile} (config : GtidConfig) (now : ℕ)

theorem complete_writable (file : TornGtidFile) : ∀ gtidSeq ∈ file.complete, gtidSeq.Writable :=
  fun gtidSeq hmem => file.writable gtidSeq (mem_cons_of_mem _ hmem)

theorem interrupted_writable (file : TornGtidFile) : file.interrupted.Writable :=
  file.writable _ mem_cons_self

def lastEntry : GtidSeq := ⟨maxCommitVersion, [], 0, 0⟩

theorem writable_lastEntry : lastEntry.Writable :=
  ⟨⟨le_rfl, by decide, by simp [lastEntry]⟩, by decide, by decide⟩

theorem newline_not_mem_torn (file : TornGtidFile) : '\n' ∉ file.torn := fun hchar =>
  (file.interrupted_writable.mem_serialize (file.torn_le.subset hchar)).1 rfl

theorem getLines_text (hne : file.torn ≠ []) :
    getLines '\n' file.text = file.complete.map serialize ++ [file.torn] := by
  rw [text, getLines_terminated_append (not_mem_newline file.complete_writable),
    getLines_unterminated file.newline_not_mem_torn hne]

theorem commitVersionStart_lt (hne : file.torn ≠ []) {entry : ℕ × Text}
    (hentry : entry ∈ (GtidManager.initGtidSeq config now file.text).gtidSeqSet) :
    (empty.deserialize entry.2).commitVersionStart < maxCommitVersion := by
  have hline := GtidManager.mem_initGtidSeq hentry
  rw [getLines_text hne, mem_append, mem_singleton] at hline
  rcases hline with hcomplete | heq
  · obtain ⟨gtidSeq, hmem, heq⟩ := mem_map.mp hcomplete
    rw [← heq, (file.complete_writable gtidSeq hmem).deserialize_serialize]
    exact file.clock gtidSeq (mem_cons_of_mem _ hmem)
  · rw [heq]
    exact lt_of_le_of_lt (commitVersionStart_torn file.interrupted_writable file.torn_le)
      (file.clock _ mem_cons_self)

theorem not_skips_lastEntry (hne : file.torn ≠ []) :
    (GtidManager.initGtidSeq config now file.text).skips lastEntry = false := by
  have hlatest : (GtidManager.initGtidSeq config now file.text).getLatestGtidSeq.any
      (fun last => lastEntry.commitVersionStart ≤ last.commitVersionStart) = false := by
    rw [GtidManager.getLatestGtidSeq]
    rcases hlast : (GtidManager.initGtidSeq config now file.text).gtidSeqSet.getLast? with
      - | entry
    · rfl
    · have hlt := commitVersionStart_lt config now hne (mem_of_getLast? hlast)
      exact decide_eq_false (Nat.not_le.mpr hlt)
  rw [GtidManager.skips, hlatest, Bool.and_false]

/-- The next line is appended to the torn one, and the next start reads neither. -/
theorem torn_eq_nil_of_harmless (hharmless : file.Harmless config now) : file.torn = [] := by
  by_contra hne
  have hskips := not_skips_lastEntry config now hne
  have hknows := hharmless [lastEntry] (by simpa using writable_lastEntry)
  have hread := hknows.restart lastEntry (by simp [GtidManager.stored, hskips])
  have hfile : ((GtidManager.initGtidSeq config now file.text).saveAll config
      [lastEntry]).file =
        terminated '\n' (file.complete.map serialize ++
          [file.torn ++ lastEntry.serialize]) := by
    rw [GtidManager.saveAll, foldl_cons, foldl_nil, GtidManager.saveGtidSeq, hskips]
    simp [GtidManager.file_initGtidSeq, text]
  have hlines : ∀ line ∈ file.complete.map serialize ++
      [file.torn ++ lastEntry.serialize], '\n' ∉ line := by
    intro line hline
    rcases mem_append.mp hline with hcomplete | hlast
    · exact not_mem_newline file.complete_writable line hcomplete
    · rw [mem_singleton.mp hlast, mem_append, not_or]
      exact ⟨file.newline_not_mem_torn, fun hchar => (writable_lastEntry.mem_serialize hchar).1 rfl⟩
  rw [hfile, getLines_terminated hlines, readGtidSeqs_serialize file.complete_writable,
    mem_append] at hread
  have hother : ∀ gtidSeq ∈ file.complete, gtidSeq ≠ lastEntry := by
    rintro gtidSeq hmem rfl
    exact lt_irrefl _ (file.clock _ (mem_cons_of_mem _ hmem))
  rcases hread with hcomplete | htorn
  · exact hother _ hcomplete rfl
  · refine deserialize_torn_append file.interrupted_writable writable_lastEntry file.torn_le hne ?_
      (mem_singleton.mp htorn).symm
    rcases hlast : file.complete.getLast? with - | gtidSeq
    · decide
    · exact hother gtidSeq (mem_of_getLast? hlast)

theorem harmless_of_torn_eq_nil (htorn : file.torn = []) : file.Harmless config now := by
  intro later hlater started
  have hmade : started.MadeOf file.complete := by
    refine ⟨?_, ?_⟩
    · rw [GtidManager.file_initGtidSeq, text, htorn, append_nil]
    · intro entry hentry
      have hline := GtidManager.mem_initGtidSeq hentry
      rw [text, htorn, append_nil,
        getLines_terminated (not_mem_newline file.complete_writable)] at hline
      obtain ⟨gtidSeq, hmem, heq⟩ := mem_map.mp hline
      exact ⟨gtidSeq, hmem, heq.symm⟩
  refine (hmade.saveAll later).knows ?_
  intro gtidSeq hmem
  rcases mem_append.mp hmem with hcomplete | hstored
  · exact file.complete_writable gtidSeq hcomplete
  · exact hlater gtidSeq (GtidManager.stored_subset later hstored)

/-- A start from the file is harmless exactly if there is no torn line. -/
theorem harmless_iff (file : TornGtidFile) (config : GtidConfig) (now : ℕ) :
    file.Harmless config now ↔ file.torn = [] :=
  ⟨torn_eq_nil_of_harmless config now, harmless_of_torn_eq_nil config now⟩

def sampleTornGtidFile : TornGtidFile where
  complete := [⟨100, ['a'], 5, 1⟩]
  interrupted := ⟨200, ['b'], 6, 1⟩
  torn := ['2']
  writable := by
    simp only [forall_mem_cons]
    exact ⟨⟨⟨by decide +kernel, by norm_num, by simp [GtidSeq.FieldChar]⟩, by decide, by norm_num⟩,
      ⟨⟨by decide +kernel, by norm_num, by simp [GtidSeq.FieldChar]⟩, by decide, by norm_num⟩,
      by simp⟩
  torn_le := by decide
  clock := by decide +kernel

/-- The piece is cached as a line of its own, so the latest checkpoint is one with
nothing in it. -/
theorem not_harmless_sampleTornGtidFile :
    (GtidManager.initGtidSeq {} 300 sampleTornGtidFile.text).getLatestGtidSeq =
        some empty ∧
      ¬sampleTornGtidFile.Harmless {} 300 := by
  have hlatest : (GtidManager.initGtidSeq {} 300 sampleTornGtidFile.text).getLatestGtidSeq =
      some empty := by
    decide +kernel
  refine ⟨hlatest, ?_⟩
  intro hharmless
  have hknown := (hharmless [] (by simp)).latest _ hlatest
  revert hknown
  decide +kernel

end TornGtidFile

end OblogProxy.Recovery
