import OblogProxy.Gtid.GtidSetText
import OblogProxy.Storage.BinlogIndex

/-!
# The first file of a GTID dump

`BinlogDumper::seek_first_binlog_file` walks the index from the newest file to
the oldest and stops at the first one whose previous-gtids set
`is_subset_executed_gtid` takes for executed by the client.  The test only
looks at the first interval of each uuid, compares a half-open interval as if
it were closed and carries its verdict from uuid to uuid and from file to file.
This module states what the test accepts and when the file found is the right one.
-/

namespace OblogProxy.Dump

open Gtid Storage List SortedMap

/-- A file of the index with the previous-gtids set that `seek_events` decodes
from it, or none when the file has no such event. -/
structure IndexedFile where
  index : ℕ
  previousGtids : Option GtidMap

/-- One interval of the file, compared as in the source with the intervals the
client sent. -/
def includedIn (message : GtidMessage) (txnRange : TxnRange) : Bool :=
  message.txnRange.any fun excludeTxn =>
    decide (excludeTxn.1 ≤ txnRange.1) && decide (txnRange.2 ≤ excludeTxn.2)

/-- `is_subset_executed_gtid`: the value it leaves in `is_subset`.  The loop over
the intervals of a uuid ends after the first one in either branch. -/
def isSubsetExecutedGtid (excludeGtid : GtidMap) :
    List (Text × GtidMessage) → Bool → Bool
  | [], isSubset => isSubset
  | gtid :: gtids, _ =>
    match excludeGtid.find gtid.1 with
    | none => isSubsetExecutedGtid excludeGtid gtids false
    | some message =>
      match gtid.2.txnRange with
      | [] => true
      | txnRange :: _ =>
        if includedIn message txnRange then
          isSubsetExecutedGtid excludeGtid gtids true
        else false

/-- The loop over the index records, newest first.  `none` is the early return
on a file without previous gtids. -/
def seekLoop (names : FileNames) (excludeGtid : GtidMap) (relativeFile : Text) :
    List IndexedFile → Bool → Option Text
  | [], _ => some relativeFile
  | record :: older, isSubset =>
    match record.previousGtids with
    | none => none
    | some gtids =>
      if isSubsetExecutedGtid excludeGtid gtids.entries isSubset then
        some (names.fillBinlogFileName record.index)
      else seekLoop names excludeGtid relativeFile older false

/-- `seek_first_binlog_file`: whether it returns `OMS_OK`, and the file the dump
starts with.  `relativeFile` is the file named in the request. -/
def seekFirstBinlogFile (names : FileNames) (excludeGtid : GtidMap) (relativeFile : Text)
    (indexRecords : List IndexedFile) : Bool × Text :=
  let found :=
    if excludeGtid.entries = [] then
      match indexRecords with
      | [] => some relativeFile
      | record :: _ => some (names.fillBinlogFileName record.index)
    else seekLoop names excludeGtid relativeFile indexRecords.reverse true
  match found with
  | none => (false, relativeFile)
  | some file => (file ≠ [], file)

/-- The transactions a client has executed: half-open intervals. -/
def executed (excludeGtid : GtidMap) : Set (Text × ℕ) :=
  {transaction | ∃ message, excludeGtid.find transaction.1 = some message ∧
    ∃ range ∈ message.txnRange, range.1 ≤ transaction.2 ∧ transaction.2 < range.2}

/-- The transactions of a decoded previous-gtids set: closed intervals. -/
def previous (gtids : GtidMap) : Set (Text × ℕ) :=
  {transaction | ∃ message, gtids.find transaction.1 = some message ∧
    transaction.2 ∈ Intervals.members message.txnRange}

def Known (excludeGtid : GtidMap) (gtid : Text × GtidMessage) : Prop :=
  excludeGtid.find gtid.1 ≠ none

/-- The first interval of the uuid lies in an interval of the request whose end
is read as included. -/
def HeadCovered (excludeGtid : GtidMap) (gtid : Text × GtidMessage) : Prop :=
  ∃ message, excludeGtid.find gtid.1 = some message ∧
    ∃ first ∈ gtid.2.txnRange.head?, ∃ range ∈ message.txnRange,
      range.1 ≤ first.1 ∧ first.2 ≤ range.2

/-- The sets that look executed.  Either a known uuid without intervals comes
after known uuids with a covered first interval only, or every known uuid has a
covered first interval and the last uuid of the set is known. -/
def LooksExecuted (excludeGtid : GtidMap) (gtids : List (Text × GtidMessage)) : Prop :=
  (∃ front gtid back, gtids = front ++ gtid :: back ∧ Known excludeGtid gtid ∧
    gtid.2.txnRange = [] ∧
    ∀ earlier ∈ front, Known excludeGtid earlier → HeadCovered excludeGtid earlier) ∨
  ((∀ gtid ∈ gtids, Known excludeGtid gtid → HeadCovered excludeGtid gtid) ∧
    ∃ last ∈ gtids.getLast?, Known excludeGtid last)

theorem looksExecuted_cons (excludeGtid : GtidMap) (gtid : Text × GtidMessage)
    (gtids : List (Text × GtidMessage)) :
    LooksExecuted excludeGtid (gtid :: gtids) ↔
      (Known excludeGtid gtid ∧ gtid.2.txnRange = []) ∨
        ((Known excludeGtid gtid → HeadCovered excludeGtid gtid) ∧
          (LooksExecuted excludeGtid gtids ∨ (gtids = [] ∧ Known excludeGtid gtid))) := by
  constructor
  · rintro (⟨front, found, back, hsplit, hknown, hempty, hfront⟩ | ⟨hcovered, last, hlast, hknown⟩)
    · cases front with
      | nil =>
        obtain ⟨rfl, rfl⟩ := cons.inj hsplit
        exact Or.inl ⟨hknown, hempty⟩
      | cons head front =>
        obtain ⟨rfl, rfl⟩ := cons.inj hsplit
        obtain ⟨hhead, hfront⟩ := forall_mem_cons.mp hfront
        exact Or.inr ⟨hhead, Or.inl (Or.inl ⟨front, found, back, rfl, hknown, hempty, hfront⟩)⟩
    · obtain ⟨hhead, hcovered⟩ := forall_mem_cons.mp hcovered
      refine Or.inr ⟨hhead, ?_⟩
      cases gtids with
      | nil =>
        obtain rfl : gtid = last := by simpa using hlast
        exact Or.inr ⟨rfl, hknown⟩
      | cons next gtids =>
        exact Or.inl (Or.inr ⟨hcovered, last, hlast, hknown⟩)
  · rintro (⟨hknown, hempty⟩ | ⟨hhead, hlooks | ⟨rfl, hknown⟩⟩)
    · exact Or.inl ⟨[], gtid, gtids, rfl, hknown, hempty, by simp⟩
    · rcases hlooks with ⟨front, found, back, rfl, hknown, hempty, hfront⟩ |
        ⟨hcovered, last, hlast, hknown⟩
      · exact Or.inl ⟨gtid :: front, found, back, rfl, hknown, hempty,
          forall_mem_cons.mpr ⟨hhead, hfront⟩⟩
      · refine Or.inr ⟨forall_mem_cons.mpr ⟨hhead, hcovered⟩, last, ?_, hknown⟩
        cases gtids with
        | nil => simp at hlast
        | cons next gtids => rwa [getLast?_cons_cons]
    · exact Or.inr ⟨by simpa using hhead, gtid, by simp, hknown⟩

/-- The verdict of the test.  On a set without uuids it keeps the verdict on the
file before. -/
theorem isSubsetExecutedGtid_iff (excludeGtid : GtidMap) (gtids : List (Text × GtidMessage))
    (isSubset : Bool) :
    isSubsetExecutedGtid excludeGtid gtids isSubset = true ↔
      LooksExecuted excludeGtid gtids ∨ (gtids = [] ∧ isSubset = true) := by
  induction gtids generalizing isSubset with
  | nil => simp [isSubsetExecutedGtid, LooksExecuted]
  | cons gtid gtids ih =>
    have hcovered_iff {message : GtidMessage} (hfind : excludeGtid.find gtid.1 = some message)
        {first : TxnRange} {rest : List TxnRange} (hranges : gtid.2.txnRange = first :: rest) :
        HeadCovered excludeGtid gtid ↔ includedIn message first = true := by
      simp [HeadCovered, hfind, hranges, includedIn]
    rw [isSubsetExecutedGtid, looksExecuted_cons]
    cases hfind : excludeGtid.find gtid.1 with
    | none => simp [ih, Known, hfind]
    | some message =>
      have hknown : Known excludeGtid gtid := by simp [Known, hfind]
      cases hranges : gtid.2.txnRange with
      | nil => simp [hknown]
      | cons first rest =>
        rw [hcovered_iff hfind hranges]
        by_cases hincluded : includedIn message first = true
        · simp [ih, hknown, hincluded]
        · simp [hknown, hincluded]

abbrev DecodedFile := ℕ × GtidMap

def DecodedFile.indexed (file : DecodedFile) : IndexedFile :=
  ⟨file.1, some file.2⟩

/-- The client has executed every transaction of the file's previous-gtids set. -/
def Eligible (excludeGtid : GtidMap) (file : DecodedFile) : Prop :=
  previous file.2 ⊆ executed excludeGtid

def Looks (excludeGtid : GtidMap) (file : DecodedFile) : Prop :=
  LooksExecuted excludeGtid file.2.entries

variable {file : DecodedFile}

theorem eligible_of_entries_eq_nil {excludeGtid : GtidMap} (hempty : file.2.entries = []) :
    Eligible excludeGtid file := by
  rintro transaction ⟨message, hfind, -⟩
  have hentry := (file.2.mem_entries_iff transaction.1 message).mpr hfind
  simp [hempty] at hentry

section Walk

variable {names : FileNames} {excludeGtid : GtidMap} {relativeFile : Text}

variable {isSubset : Bool}

theorem seekLoop_taken (older : List IndexedFile)
    (htaken : Looks excludeGtid file ∨ (file.2.entries = [] ∧ isSubset = true)) :
    seekLoop names excludeGtid relativeFile (file.indexed :: older) isSubset =
      some (names.fillBinlogFileName file.1) := by
  have hverdict := (isSubsetExecutedGtid_iff excludeGtid file.2.entries isSubset).mpr htaken
  rw [seekLoop]
  simp [DecodedFile.indexed, hverdict]

theorem seekLoop_passed (older : List IndexedFile)
    (hpassed : ¬(Looks excludeGtid file ∨ (file.2.entries = [] ∧ isSubset = true))) :
    seekLoop names excludeGtid relativeFile (file.indexed :: older) isSubset =
      seekLoop names excludeGtid relativeFile older false := by
  have hverdict : ¬isSubsetExecutedGtid excludeGtid file.2.entries isSubset = true :=
    fun htrue => hpassed ((isSubsetExecutedGtid_iff excludeGtid _ isSubset).mp htrue)
  rw [seekLoop]
  simp only [DecodedFile.indexed]
  rw [if_neg hverdict]

theorem seekLoop_isSome (files : List DecodedFile) (isSubset : Bool) :
    ∃ file, seekLoop names excludeGtid relativeFile (files.map DecodedFile.indexed) isSubset =
      some file := by
  induction files generalizing isSubset with
  | nil => exact ⟨relativeFile, rfl⟩
  | cons file files ih =>
    rw [map_cons]
    by_cases htaken : Looks excludeGtid file ∨ (file.2.entries = [] ∧ isSubset = true)
    · exact ⟨_, seekLoop_taken _ htaken⟩
    · rw [seekLoop_passed _ htaken]
      exact ih false

theorem not_taken (hlooks : ¬Looks excludeGtid file)
    (hentries : isSubset = true → file.2.entries ≠ []) :
    ¬(Looks excludeGtid file ∨ (file.2.entries = [] ∧ isSubset = true)) := by
  rintro (hfile | ⟨hempty, htrue⟩)
  · exact hlooks hfile
  · exact hentries htrue hempty

/-- Files that do not look executed are passed over; only before the first of
them can an empty set be taken. -/
theorem seekLoop_append_passed (newer : List DecodedFile) (older : List IndexedFile)
    (isSubset : Bool) (hentries : isSubset = true → ∀ file ∈ newer, file.2.entries ≠ [])
    (hnewer : ∀ file ∈ newer, ¬Looks excludeGtid file) :
    seekLoop names excludeGtid relativeFile (newer.map DecodedFile.indexed ++ older) isSubset =
      seekLoop names excludeGtid relativeFile older (newer.isEmpty && isSubset) := by
  induction newer generalizing isSubset with
  | nil => simp
  | cons file newer ih =>
    obtain ⟨hfile, hrest⟩ := forall_mem_cons.mp hnewer
    have hpassed := not_taken hfile fun htrue => hentries htrue file mem_cons_self
    rw [map_cons, cons_append, seekLoop_passed _ hpassed, ih false (by simp) hrest]
    simp

/-- If some file looks executed, the walk ends at one that does. -/
theorem seekLoop_append_taken (newer : List DecodedFile) (older : List IndexedFile)
    (isSubset : Bool) (hentries : isSubset = true → ∀ file ∈ newer, file.2.entries ≠ [])
    (hnewer : ∃ file ∈ newer, Looks excludeGtid file) :
    ∃ file ∈ newer, seekLoop names excludeGtid relativeFile
      (newer.map DecodedFile.indexed ++ older) isSubset =
        some (names.fillBinlogFileName file.1) := by
  induction newer generalizing isSubset with
  | nil => simp at hnewer
  | cons file newer ih =>
    rw [map_cons, cons_append]
    by_cases hlooks : Looks excludeGtid file
    · exact ⟨file, mem_cons_self, seekLoop_taken _ (Or.inl hlooks)⟩
    · have hpassed := not_taken hlooks fun htrue => hentries htrue file mem_cons_self
      have hrest : ∃ file ∈ newer, Looks excludeGtid file := by
        simpa [hlooks] using hnewer
      obtain ⟨found, hmem, hfound⟩ := ih false (by simp) hrest
      refine ⟨found, mem_cons_of_mem _ hmem, ?_⟩
      rw [seekLoop_passed _ hpassed, hfound]

end Walk

theorem exists_last {A : Type*} {P : A → Prop} {values : List A}
    (hexists : ∃ value ∈ values, P value) :
    ∃ front value back, values = front ++ value :: back ∧ P value ∧
      ∀ later ∈ back, ¬P later := by
  induction values with
  | nil => simp at hexists
  | cons head values ih =>
    by_cases hrest : ∃ value ∈ values, P value
    · obtain ⟨front, value, back, rfl, hvalue, hback⟩ := ih hrest
      exact ⟨head :: front, value, back, rfl, hvalue, hback⟩
    · have hnone : ∀ later ∈ values, ¬P later :=
        fun later hlater hp => hrest ⟨later, hlater, hp⟩
      obtain ⟨value, hmem, hvalue⟩ := hexists
      rcases mem_cons.mp hmem with rfl | hmem
      · exact ⟨[], value, values, rfl, hvalue, hnone⟩
      · exact absurd hvalue (hnone value hmem)

section Found

variable (names : FileNames) (excludeGtid : GtidMap) (relativeFile : Text)

/-- What the walk leaves in `_relative_file`. -/
def foundFile (files : List DecodedFile) : Option Text :=
  seekLoop names excludeGtid relativeFile (files.map DecodedFile.indexed).reverse true

variable {names excludeGtid relativeFile}

theorem seekFirstBinlogFile_eq (hexclude : excludeGtid.entries ≠ []) (files : List DecodedFile)
    {file : Text} (hfound : foundFile names excludeGtid relativeFile files = some file) :
    seekFirstBinlogFile names excludeGtid relativeFile (files.map DecodedFile.indexed) =
      (decide (file ≠ []), file) := by
  rw [foundFile] at hfound
  simp only [seekFirstBinlogFile, if_neg hexclude, hfound]

variable {front back : List DecodedFile}

/-- The walk when the files behind `file` are all non-empty and none of them
looks executed. -/
theorem foundFile_split (hentries : ∀ newer ∈ back, newer.2.entries ≠ [])
    (hback : ∀ newer ∈ back, ¬Looks excludeGtid newer) :
    foundFile names excludeGtid relativeFile (front ++ file :: back) =
      seekLoop names excludeGtid relativeFile
        (file.indexed :: (front.reverse.map DecodedFile.indexed ++ [])) back.isEmpty := by
  have hlist : ((front ++ file :: back).map DecodedFile.indexed).reverse =
      back.reverse.map DecodedFile.indexed ++
        (file.indexed :: (front.reverse.map DecodedFile.indexed ++ [])) := by
    simp
  rw [foundFile, hlist, seekLoop_append_passed]
  · simp
  · simpa using hentries
  · simpa using hback

/-- With a newer file that looks executed, the walk ends at a newer file. -/
theorem foundFile_newer (front back : List DecodedFile)
    (hentries : ∀ newer ∈ back, newer.2.entries ≠ [])
    (hback : ∃ newer ∈ back, Looks excludeGtid newer) :
    ∃ newer ∈ back, foundFile names excludeGtid relativeFile (front ++ back) =
      some (names.fillBinlogFileName newer.1) := by
  have hlist : ((front ++ back).map DecodedFile.indexed).reverse =
      back.reverse.map DecodedFile.indexed ++ (front.map DecodedFile.indexed).reverse := by
    simp
  have htaken : ∃ newer ∈ back.reverse, seekLoop names excludeGtid relativeFile
      (back.reverse.map DecodedFile.indexed ++ (front.map DecodedFile.indexed).reverse) true =
        some (names.fillBinlogFileName newer.1) := by
    apply seekLoop_append_taken
    · simpa using hentries
    · simpa using hback
  obtain ⟨newer, hmem, hfound⟩ := htaken
  exact ⟨newer, by simpa using hmem, by rw [foundFile, hlist, hfound]⟩

theorem foundFile_none {files : List DecodedFile} (hentries : ∀ file ∈ files, file.2.entries ≠ [])
    (hlooks : ∀ file ∈ files, ¬Looks excludeGtid file) :
    foundFile names excludeGtid relativeFile files = some relativeFile := by
  have hpassed := @seekLoop_append_passed names excludeGtid relativeFile files.reverse []
    true (by simpa using hentries) (by simpa using hlooks)
  rw [append_nil, map_reverse] at hpassed
  rw [foundFile, hpassed, seekLoop]

/-- The walk at the newest file whose set the client has executed. -/
theorem foundFile_eligible (hindices : ((front ++ file :: back).map Prod.fst).Nodup)
    (hback : ∀ newer ∈ back, ¬Eligible excludeGtid newer) :
    foundFile names excludeGtid relativeFile (front ++ file :: back) =
        some (names.fillBinlogFileName file.1) ↔
      (∀ newer ∈ back, ¬Looks excludeGtid newer) ∧
        (Looks excludeGtid file ∨ (file.2.entries = [] ∧ back = []) ∨
          ((∀ older ∈ front, ¬Looks excludeGtid older) ∧
            relativeFile = names.fillBinlogFileName file.1)) := by
  have hentries : ∀ newer ∈ back, newer.2.entries ≠ [] := fun newer hnewer hempty =>
    hback newer hnewer (eligible_of_entries_eq_nil hempty)
  -- Another file of the index has another name.
  have hname {other : DecodedFile} (hother : other ∈ front ++ back) :
      names.fillBinlogFileName other.1 ≠ names.fillBinlogFileName file.1 := by
    intro heq
    have hindex := names.fillBinlogFileName_injective heq
    rw [map_append, map_cons, nodup_middle, ← map_append] at hindices
    exact (nodup_cons.mp hindices).1 (hindex ▸ mem_map_of_mem hother)
  by_cases hnewer : ∃ newer ∈ back, Looks excludeGtid newer
  · have hsplit : front ++ file :: back = (front ++ [file]) ++ back := by simp
    obtain ⟨newer, hmem, hfound⟩ := foundFile_newer (front ++ [file]) back hentries hnewer
    rw [hsplit, hfound, Option.some_inj]
    refine iff_of_false (hname (mem_append_right _ hmem)) ?_
    rintro ⟨hnone, -⟩
    obtain ⟨looking, hlooking, hlooks⟩ := hnewer
    exact hnone looking hlooking hlooks
  · push Not at hnewer
    rw [foundFile_split hentries hnewer]
    by_cases htaken : Looks excludeGtid file ∨ (file.2.entries = [] ∧ back.isEmpty = true)
    · rw [seekLoop_taken _ htaken]
      rw [List.isEmpty_iff] at htaken
      exact iff_of_true rfl ⟨hnewer, htaken.imp_right Or.inl⟩
    · rw [seekLoop_passed _ htaken]
      rw [List.isEmpty_iff, not_or] at htaken
      by_cases holder : ∃ older ∈ front, Looks excludeGtid older
      · obtain ⟨older, hmem, hfound⟩ := seekLoop_append_taken front.reverse [] false (by simp)
          (by simpa using holder)
        rw [hfound, Option.some_inj]
        refine iff_of_false (hname (mem_append_left _ (mem_reverse.mp hmem))) ?_
        rintro ⟨-, hfile | hempty | ⟨hnone, -⟩⟩
        · exact htaken.1 hfile
        · exact htaken.2 hempty
        · obtain ⟨looking, hlooking, hlooks⟩ := holder
          exact hnone looking hlooking hlooks
      · push Not at holder
        rw [seekLoop_append_passed front.reverse [] false
          (by simp) (by simpa using holder), seekLoop, Option.some_inj]
        constructor
        · intro hrequest
          exact ⟨hnewer, Or.inr (Or.inr ⟨holder, hrequest⟩)⟩
        · rintro ⟨-, hfile | hempty | ⟨-, hrequest⟩⟩
          · exact absurd hfile htaken.1
          · exact absurd hempty htaken.2
          · exact hrequest

/-- The search without a file that the client could start from. -/
theorem seekFirstBinlogFile_fails_iff (hexclude : excludeGtid.entries ≠ [])
    {files : List DecodedFile} (hnone : ∀ file ∈ files, ¬Eligible excludeGtid file) :
    (seekFirstBinlogFile names excludeGtid relativeFile (files.map DecodedFile.indexed)).1 = false ↔
      (∀ file ∈ files, ¬Looks excludeGtid file) ∧ relativeFile = [] := by
  have hentries : ∀ file ∈ files, file.2.entries ≠ [] := fun file hfile hempty =>
    hnone file hfile (eligible_of_entries_eq_nil hempty)
  by_cases hlooks : ∃ file ∈ files, Looks excludeGtid file
  · obtain ⟨file, hmem, hfound⟩ :=
      foundFile_newer [] files hentries hlooks
    rw [seekFirstBinlogFile_eq hexclude files hfound]
    refine iff_of_false (by simp [names.fillBinlogFileName_ne_nil]) ?_
    rintro ⟨hpassed, -⟩
    obtain ⟨looking, hlooking, hlook⟩ := hlooks
    exact hpassed looking hlooking hlook
  · push Not at hlooks
    rw [seekFirstBinlogFile_eq hexclude files
      (foundFile_none hentries hlooks)]
    simpa using fun _ => hlooks

/-- The search at the newest file that the client could start from. -/
theorem seekFirstBinlogFile_eq_iff (hexclude : excludeGtid.entries ≠ [])
    (hindices : ((front ++ file :: back).map Prod.fst).Nodup)
    (hback : ∀ newer ∈ back, ¬Eligible excludeGtid newer) :
    seekFirstBinlogFile names excludeGtid relativeFile
        ((front ++ file :: back).map DecodedFile.indexed) =
        (true, names.fillBinlogFileName file.1) ↔
      (∀ newer ∈ back, ¬Looks excludeGtid newer) ∧
        (Looks excludeGtid file ∨ (file.2.entries = [] ∧ back = []) ∨
          ((∀ older ∈ front, ¬Looks excludeGtid older) ∧
            relativeFile = names.fillBinlogFileName file.1)) := by
  rw [← foundFile_eligible hindices hback]
  obtain ⟨found, hfound⟩ : ∃ found, foundFile names excludeGtid relativeFile
      (front ++ file :: back) = some found := by
    rw [foundFile, ← map_reverse]
    exact seekLoop_isSome _ true
  rw [seekFirstBinlogFile_eq hexclude _ hfound, hfound, Option.some_inj, Prod.mk.injEq]
  constructor
  · rintro ⟨-, rfl⟩
    rfl
  · rintro rfl
    exact ⟨by simp [names.fillBinlogFileName_ne_nil], rfl⟩

end Found

/-- `seek_first_binlog_file` starts the dump at the newest file whose
previous-gtids set the client has executed, and fails exactly without such a
file, just when its test agrees with set inclusion on the files it decides on:
no newer file looks executed, and the file itself looks executed, or is the
newest one with an empty set, or is the one the request happened to name; and
without such a file none looks executed and the request named no file. -/
theorem seekFirstBinlogFile_newest_iff (names : FileNames) (excludeGtid : GtidMap)
    (hexclude : excludeGtid.entries ≠ []) (relativeFile : Text) (files : List DecodedFile)
    (hindices : (files.map Prod.fst).Nodup) :
    ((∀ front file back, files = front ++ file :: back → Eligible excludeGtid file →
        (∀ newer ∈ back, ¬Eligible excludeGtid newer) →
        seekFirstBinlogFile names excludeGtid relativeFile (files.map DecodedFile.indexed) =
          (true, names.fillBinlogFileName file.1)) ∧
      ((seekFirstBinlogFile names excludeGtid relativeFile
          (files.map DecodedFile.indexed)).1 = false ↔
        ∀ file ∈ files, ¬Eligible excludeGtid file)) ↔
    ((∀ front file back, files = front ++ file :: back → Eligible excludeGtid file →
        (∀ newer ∈ back, ¬Eligible excludeGtid newer) →
        (∀ newer ∈ back, ¬Looks excludeGtid newer) ∧
          (Looks excludeGtid file ∨ (file.2.entries = [] ∧ back = []) ∨
            ((∀ older ∈ front, ¬Looks excludeGtid older) ∧
              relativeFile = names.fillBinlogFileName file.1))) ∧
      ((∀ file ∈ files, ¬Eligible excludeGtid file) →
        (∀ file ∈ files, ¬Looks excludeGtid file) ∧ relativeFile = [])) := by
  constructor
  · rintro ⟨hselects, hfails⟩
    refine ⟨fun front file back hsplit hfile hback => ?_, fun hnone => ?_⟩
    · have hselected := hselects front file back hsplit hfile hback
      subst hsplit
      exact (seekFirstBinlogFile_eq_iff hexclude hindices
        hback).mp hselected
    · exact (seekFirstBinlogFile_fails_iff hexclude hnone).mp
        (hfails.mpr hnone)
  · rintro ⟨hselects, hfails⟩
    have hright : ∀ front file back, files = front ++ file :: back → Eligible excludeGtid file →
        (∀ newer ∈ back, ¬Eligible excludeGtid newer) →
        seekFirstBinlogFile names excludeGtid relativeFile (files.map DecodedFile.indexed) =
          (true, names.fillBinlogFileName file.1) := by
      intro front file back hsplit hfile hback
      have hcondition := hselects front file back hsplit hfile hback
      subst hsplit
      exact (seekFirstBinlogFile_eq_iff hexclude hindices
        hback).mpr hcondition
    refine ⟨hright, fun hfalse file hmem hfile => ?_, fun hnone => ?_⟩
    · obtain ⟨front, newest, back, hsplit, hnewest, hback⟩ := exists_last ⟨file, hmem, hfile⟩
      rw [hright front newest back hsplit hnewest hback] at hfalse
      exact Bool.noConfusion hfalse
    · exact (seekFirstBinlogFile_fails_iff hexclude hnone).mpr
        (hfails hnone)

def oneUuid (uuid : Text) (txnRange : List TxnRange) : GtidMap :=
  empty.insert uuid ⟨none, txnRange.length, txnRange⟩

theorem mem_previous_oneUuid {uuid : Text} {txnRange : List TxnRange} {transaction : Text × ℕ} :
    transaction ∈ previous (oneUuid uuid txnRange) ↔
      transaction.1 = uuid ∧ transaction.2 ∈ Intervals.members txnRange := by
  simp only [previous, oneUuid, find_insert, find_empty, Set.mem_ofPred_eq]
  split_ifs with huuid <;> simp [huuid]

theorem mem_executed_oneUuid {uuid : Text} {txnRange : List TxnRange} {transaction : Text × ℕ} :
    transaction ∈ executed (oneUuid uuid txnRange) ↔
      transaction.1 = uuid ∧ ∃ range ∈ txnRange, range.1 ≤ transaction.2 ∧
        transaction.2 < range.2 := by
  simp only [executed, oneUuid, find_insert, find_empty, Set.mem_ofPred_eq]
  split_ifs with huuid <;> simp [huuid]

/-- A client that has executed `1-5` starts at the file behind `1-5`. -/
theorem seekFirstBinlogFile_newest_pair :
    seekFirstBinlogFile ⟨"mysql-bin".toList, 6⟩ (oneUuid "0A".toList [(1, 6)]) []
        ([(1, SortedMap.empty), (2, oneUuid "0A".toList [(1, 5)])].map DecodedFile.indexed) =
      (true, "mysql-bin.000002".toList) := by
  have hsecond : Eligible (oneUuid "0A".toList [(1, 6)]) (2, oneUuid "0A".toList [(1, 5)]) := by
    intro transaction htransaction
    rw [mem_previous_oneUuid] at htransaction
    rw [mem_executed_oneUuid]
    refine ⟨htransaction.1, (1, 6), by simp, ?_⟩
    have hmem : 1 ≤ transaction.2 ∧ transaction.2 ≤ 5 := by simpa using htransaction.2
    exact ⟨hmem.1, Nat.lt_succ_of_le hmem.2⟩
  have hlooks : Looks (oneUuid "0A".toList [(1, 6)]) (2, oneUuid "0A".toList [(1, 5)]) := by
    have hverdict : isSubsetExecutedGtid (oneUuid "0A".toList [(1, 6)])
        (oneUuid "0A".toList [(1, 5)]).entries false = true := by decide
    exact ((isSubsetExecutedGtid_iff _ _ false).mp hverdict).resolve_right (by simp)
  have hright := (seekFirstBinlogFile_newest_iff ⟨"mysql-bin".toList, 6⟩
    (oneUuid "0A".toList [(1, 6)]) (by decide) []
    [(1, SortedMap.empty), (2, oneUuid "0A".toList [(1, 5)])] (by decide)).mpr
  refine (hright ⟨?_, ?_⟩).1 [(1, SortedMap.empty)] _ [] rfl hsecond (by simp)
  · intro front file back hsplit hfile hback
    rcases append_eq_cons_iff.mp hsplit.symm with ⟨-, hrest⟩ | ⟨front, -, hrest⟩
    · obtain ⟨-, rfl⟩ := cons.inj hrest
      exact absurd hsecond (hback _ (by simp))
    · obtain ⟨-, rfl, rfl⟩ : front = [] ∧ file = _ ∧ back = [] := by
        simpa [append_eq_singleton_iff] using hrest.symm
      exact ⟨by simp, Or.inl hlooks⟩
  · intro hnone
    exact absurd hsecond (hnone _ (by simp))

/-- A client that has executed `1-4`, sent as `[1, 5)`, is started at the file
behind `1-5` and never gets transaction 5. -/
theorem seekFirstBinlogFile_skips_five :
    seekFirstBinlogFile ⟨"mysql-bin".toList, 6⟩ (oneUuid "0A".toList [(1, 5)]) []
        ([(1, SortedMap.empty), (2, oneUuid "0A".toList [(1, 5)])].map DecodedFile.indexed) =
      (true, "mysql-bin.000002".toList) ∧
    ("0A".toList, 5) ∈ previous (oneUuid "0A".toList [(1, 5)]) ∧
    ("0A".toList, 5) ∉ executed (oneUuid "0A".toList [(1, 5)]) ∧
    Eligible (oneUuid "0A".toList [(1, 5)]) (1, SortedMap.empty) := by
  refine ⟨by decide, ?_, ?_, eligible_of_entries_eq_nil rfl⟩
  · simp [mem_previous_oneUuid]
  · simp [mem_executed_oneUuid]

end OblogProxy.Dump
