import OblogProxy.Storage.PurgeExpired

/-!
# PURGE BINARY LOGS

The file being written must not be purged, and `is_active` decides by a cached record
which file that is.  The cache is written by `update_index` alone: between `add_index`
and the first update of the new file it still names the file before.
-/

namespace OblogProxy.Storage

open BinlogIndex Gtid BinlogIndexRecord List

/-- The index with the record that `update_index` leaves in memory. -/
structure BinlogIndexManager where
  index : BinlogIndex := []
  memoryIndexRecord : BinlogIndexRecord := {}

namespace BinlogIndexManager

def isActive (manager : BinlogIndexManager) (file : Text) : Bool :=
  manager.memoryIndexRecord.fileName = [] || manager.memoryIndexRecord.fileName = file

def getMemoryIndex (manager : BinlogIndexManager) : BinlogIndexManager :=
  if manager.memoryIndexRecord.fileName = [] then
    { manager with memoryIndexRecord := manager.index.getLatestIndex }
  else manager

/-- Only an update reaches the record in memory. -/
def apply (manager : BinlogIndexManager) : IndexStep → BinlogIndexManager
  | .update record =>
    { index := manager.index.updateIndex record, memoryIndexRecord := record }
  | .add record => { manager with index := manager.index.addIndex record }

end BinlogIndexManager

open BinlogIndexManager

structure IndexPurge where
  kept : BinlogIndex
  purged : List BinlogIndexRecord
  lastGtidSeq : ℕ
deriving DecidableEq

/-- From the oldest line on; the number of the last purged line is remembered. -/
def purgeBinlogBeforeTs (active : Text → Bool) (purgeTs : ℕ) : BinlogIndex → ℕ → IndexPurge
  | [], lastGtidSeq => ⟨[], [], lastGtidSeq⟩
  | line :: newer, lastGtidSeq =>
    if line.checkpoint < purgeTs && !active line.fileName then
      let rest := purgeBinlogBeforeTs active purgeTs newer line.currentMapping.2
      ⟨rest.kept, line :: rest.purged, rest.lastGtidSeq⟩
    else
      let rest := purgeBinlogBeforeTs active purgeTs newer lastGtidSeq
      ⟨line :: rest.kept, rest.purged, rest.lastGtidSeq⟩

/-- From the newest line back, with the lines given and returned newest first; the
first number that is not zero is remembered. -/
def purgeBinlogToFile (active : Text → Bool) (toBinlogIndex : Text) :
    Bool → BinlogIndex → ℕ → Bool × IndexPurge
  | found, [], lastGtidSeq => (found, ⟨[], [], lastGtidSeq⟩)
  | found, line :: older, lastGtidSeq =>
    let found := found || line.fileName = toBinlogIndex
    if found && !active line.fileName then
      let rest := purgeBinlogToFile active toBinlogIndex found older
        (if lastGtidSeq = 0 then line.currentMapping.2 else lastGtidSeq)
      (rest.1, ⟨rest.2.kept, line :: rest.2.purged, rest.2.lastGtidSeq⟩)
    else
      let rest := purgeBinlogToFile active toBinlogIndex found older lastGtidSeq
      (rest.1, ⟨line :: rest.2.kept, rest.2.purged, rest.2.lastGtidSeq⟩)

structure PurgeRequest where
  baseName : Text
  binlogFile : Text
  beforePurgeTs : Text

def PurgeRequest.toBinlogIndex (request : PurgeRequest) : Text :=
  request.baseName ++ request.binlogFile

/-- What `purge_binlog_index` returns and leaves behind; the gtids before
`lastGtidSeq` are forgotten if it is not zero. -/
structure PurgeOutcome where
  succeeded : Bool
  errorMsg : Text := []
  index : BinlogIndex
  purgeBinlogFiles : List Text := []
  lastGtidSeq : ℕ := 0
deriving DecidableEq

/-- The index is rewritten if something is purged and something is left. -/
def BinlogIndexManager.rewritten (manager : BinlogIndexManager) (purge : IndexPurge) :
    PurgeOutcome :=
  { succeeded := true
    index := if purge.purged ≠ [] ∧ purge.kept ≠ [] then purge.kept else manager.index
    purgeBinlogFiles := purge.purged.map fileName
    lastGtidSeq := purge.lastGtidSeq }

def emptyTsError : Text := "The specified cleanup time cannot be empty".toList

def notFoundError (toBinlogIndex : Text) : Text :=
  "Failed to find binlog file ".toList ++ toBinlogIndex

/-- `convertTs` is the local calendar of the server. -/
def BinlogIndexManager.purgeBinlogIndex (convertTs : Text → ℕ) (manager : BinlogIndexManager)
    (request : PurgeRequest) : PurgeOutcome :=
  let indexRecords := fetchIndexVector manager.index
  if request.binlogFile = [] then
    if request.beforePurgeTs = [] then
      { succeeded := false, errorMsg := emptyTsError, index := manager.index }
    else
      manager.rewritten
        (purgeBinlogBeforeTs manager.isActive (convertTs request.beforePurgeTs) indexRecords 0)
  else
    let purge := purgeBinlogToFile manager.isActive request.toBinlogIndex false indexRecords.reverse 0
    if purge.1 then manager.rewritten { purge.2 with kept := purge.2.kept.reverse }
    else
      { succeeded := false
        errorMsg := notFoundError request.toBinlogIndex
        index := manager.index }

/-- The steps of the storage thread, restarts, which forget the record in memory, and
readers that load it.  Checkpoints do not decrease along the index. -/
inductive Reachable : BinlogIndexManager → Prop
  | start : Reachable {}
  | restart {manager : BinlogIndexManager} (hreachable : Reachable manager) :
      Reachable { manager with memoryIndexRecord := {} }
  | load {manager : BinlogIndexManager} (hreachable : Reachable manager) :
      Reachable manager.getMemoryIndex
  | update {manager : BinlogIndexManager} (hreachable : Reachable manager)
      (record : BinlogIndexRecord) (hallowed : (IndexStep.update record).Allowed manager.index)
      (hcheckpoint : ∀ line ∈ manager.index.dropLast, line.checkpoint ≤ record.checkpoint) :
      Reachable (manager.apply (.update record))
  | add {manager : BinlogIndexManager} (hreachable : Reachable manager)
      (record : BinlogIndexRecord) (hallowed : (IndexStep.add record).Allowed manager.index)
      (hnamed : record.fileName ≠ [])
      (hcheckpoint : ∀ line ∈ manager.index, line.checkpoint ≤ record.checkpoint) :
      Reachable (manager.apply (.add record))

structure BinlogIndexManager.Invariant (manager : BinlogIndexManager) : Prop where
  wellFormed : manager.index.WellFormed
  named : ∀ line ∈ manager.index, line.fileName ≠ []
  ordered : manager.index.Pairwise fun older newer => older.checkpoint ≤ newer.checkpoint
  memory : manager.memoryIndexRecord.fileName = [] ∨
    manager.memoryIndexRecord.fileName ∈ manager.index.fileNames

theorem Reachable.invariant {manager : BinlogIndexManager} (hreachable : Reachable manager) :
    manager.Invariant := by
  induction hreachable with
  | start => exact ⟨⟨nodup_nil, nofun⟩, nofun, List.Pairwise.nil, .inl rfl⟩
  | restart hreachable ih => exact ⟨ih.wellFormed, ih.named, ih.ordered, .inl rfl⟩
  | @load manager hreachable ih =>
    rw [getMemoryIndex]
    split_ifs with hempty
    · refine ⟨ih.wellFormed, ih.named, ih.ordered, ?_⟩
      by_cases hne : manager.index = []
      · simp [hne, getLatestIndex]
      · exact .inr (mem_map_of_mem (getLatestIndex_mem hne))
    · exact ih
  | @update manager hreachable record hallowed hcheckpoint ih =>
    have hnames := fileNames_updateIndex hallowed
    have hlast := getLatestIndex_mem hallowed.1
    refine ⟨ih.wellFormed.apply hallowed, ?_, ?_, .inr ?_⟩
    · intro line hline
      rcases mem_append.mp hline with hfront | hrecord
      · exact ih.named line (mem_of_mem_dropLast hfront)
      · rw [mem_singleton.mp hrecord, hallowed.2.1]
        exact ih.named _ hlast
    · refine pairwise_append.mpr ⟨?_, pairwise_singleton _ _, ?_⟩
      · exact ih.ordered.sublist (dropLast_sublist _)
      · intro line hline other hother
        rw [mem_singleton.mp hother]
        exact hcheckpoint line hline
    · change record.fileName ∈ (manager.index.updateIndex record).fileNames
      rw [hnames, hallowed.2.1]
      exact mem_map_of_mem hlast
  | @add manager hreachable record hallowed hnamed hcheckpoint ih =>
    refine ⟨ih.wellFormed.apply hallowed, ?_, ?_, ?_⟩
    · intro line hline
      rcases mem_append.mp hline with hfront | hrecord
      · exact ih.named line hfront
      · rw [mem_singleton.mp hrecord]
        exact hnamed
    · refine pairwise_append.mpr ⟨ih.ordered, pairwise_singleton _ _, ?_⟩
      intro line hline other hother
      rw [mem_singleton.mp hother]
      exact hcheckpoint line hline
    · rcases ih.memory with hempty | hmem
      · exact .inl hempty
      · right
        change manager.memoryIndexRecord.fileName ∈ (manager.index.addIndex record).fileNames
        rw [fileNames_addIndex]
        exact mem_append_left _ hmem

/-- The lines that a request names: those before the time, or those up to the file. -/
def PurgeRequest.requested (request : PurgeRequest) (convertTs : Text → ℕ)
    (index : BinlogIndex) : BinlogIndex :=
  if request.binlogFile = [] then
    if request.beforePurgeTs = [] then []
    else index.filter fun line => line.checkpoint < convertTs request.beforePurgeTs
  else (index.reverse.dropWhile fun line => line.fileName ≠ request.toBinlogIndex).reverse

def newestNumber (lines : List BinlogIndexRecord) (default : ℕ) : ℕ :=
  (lines.getLast?.map fun line => line.currentMapping.2).getD default

/-- The first number that is not zero, in the order of the list. -/
def firstNumber (lines : List BinlogIndexRecord) (lastGtidSeq : ℕ) : ℕ :=
  lines.foldl (fun last line => if last = 0 then line.currentMapping.2 else last) lastGtidSeq

section Loops

variable (active : Text → Bool)

theorem purgeBinlogBeforeTs_eq (purgeTs : ℕ) (index : BinlogIndex) (lastGtidSeq : ℕ) :
    purgeBinlogBeforeTs active purgeTs index lastGtidSeq =
      { kept := index.filter fun line => !(line.checkpoint < purgeTs && !active line.fileName)
        purged := index.filter fun line => line.checkpoint < purgeTs && !active line.fileName
        lastGtidSeq := newestNumber
          (index.filter fun line => line.checkpoint < purgeTs && !active line.fileName)
          lastGtidSeq } := by
  induction index generalizing lastGtidSeq with
  | nil => rfl
  | cons line newer ih =>
    rw [purgeBinlogBeforeTs]
    split_ifs with hpurge
    · rw [ih]
      simp only [filter_cons, hpurge, Bool.not_true, Bool.false_eq_true, if_false, if_true]
      rw [newestNumber, newestNumber, getLast?_cons]
      simp
    · rw [ih]
      simp only [filter_cons, hpurge]
      simp

theorem purgeBinlogToFile_found (toBinlogIndex : Text) (index : BinlogIndex) (lastGtidSeq : ℕ) :
    purgeBinlogToFile active toBinlogIndex true index lastGtidSeq =
      (true, { kept := index.filter fun line => active line.fileName
               purged := index.filter fun line => !active line.fileName
               lastGtidSeq := firstNumber (index.filter fun line => !active line.fileName)
                 lastGtidSeq }) := by
  induction index generalizing lastGtidSeq with
  | nil => rfl
  | cons line older ih =>
    rw [purgeBinlogToFile]
    cases hactive : active line.fileName with
    | false => simp [hactive, ih, firstNumber]
    | true => simp [hactive, ih, firstNumber]

theorem purgeBinlogToFile_eq (toBinlogIndex : Text) (index : BinlogIndex) :
    let newer := index.takeWhile fun line => line.fileName ≠ toBinlogIndex
    let older := index.dropWhile fun line => line.fileName ≠ toBinlogIndex
    purgeBinlogToFile active toBinlogIndex false index 0 =
      (decide (toBinlogIndex ∈ index.fileNames),
        { kept := newer ++ older.filter fun line => active line.fileName
          purged := older.filter fun line => !active line.fileName
          lastGtidSeq := firstNumber (older.filter fun line => !active line.fileName) 0 }) := by
  induction index with
  | nil => rfl
  | cons line older ih =>
    by_cases hfile : line.fileName = toBinlogIndex
    · have hfound : purgeBinlogToFile active toBinlogIndex false (line :: older) 0 =
          purgeBinlogToFile active toBinlogIndex true (line :: older) 0 := by
        simp [purgeBinlogToFile, hfile]
      rw [hfound, purgeBinlogToFile_found]
      simp [hfile, fileNames]
    · have hrest : toBinlogIndex ≠ line.fileName := fun heq => hfile heq.symm
      rw [purgeBinlogToFile]
      simp [hfile, hrest, ih, fileNames]

end Loops

/-- The lines of a request that are not active. -/
def inactiveLines (active : Text → Bool) (requested : BinlogIndex) : BinlogIndex :=
  requested.filter fun line => !active line.fileName

def activeLines (active : Text → Bool) (requested : BinlogIndex) : BinlogIndex :=
  requested.filter fun line => active line.fileName

/-- Of the requested lines, which are the oldest ones, those of inactive files are
purged. -/
structure IndexPurge.Removes (purge : IndexPurge) (active : Text → Bool)
    (index requested : BinlogIndex) : Prop where
  purged_eq : purge.purged = inactiveLines active requested ∨
    purge.purged = (inactiveLines active requested).reverse
  kept_eq : ∃ newer, index = requested ++ newer ∧
    purge.kept = activeLines active requested ++ newer

section Removes

variable {index : BinlogIndex} {active : Text → Bool}

/-- Along increasing checkpoints, the lines before a time come first. -/
theorem exists_newer_of_ordered {index : BinlogIndex} (purgeTs : ℕ)
    (hordered : index.Pairwise fun older newer => older.checkpoint ≤ newer.checkpoint) :
    ∃ newer, index = (index.filter fun line => line.checkpoint < purgeTs) ++ newer ∧
      ∀ line ∈ newer, purgeTs ≤ line.checkpoint := by
  induction index with
  | nil => exact ⟨[], rfl, nofun⟩
  | cons line rest ih =>
    obtain ⟨hline, hrest⟩ := pairwise_cons.mp hordered
    by_cases hbefore : line.checkpoint < purgeTs
    · obtain ⟨newer, heq, hnewer⟩ := ih hrest
      refine ⟨newer, ?_, hnewer⟩
      rw [filter_cons, if_pos (decide_eq_true hbefore), cons_append, ← heq]
    · have hall : ∀ other ∈ line :: rest, purgeTs ≤ other.checkpoint := by
        refine forall_mem_cons.mpr ⟨Nat.le_of_not_lt hbefore, fun other hother => ?_⟩
        exact (Nat.le_of_not_lt hbefore).trans (hline other hother)
      refine ⟨line :: rest, ?_, hall⟩
      rw [filter_eq_nil_iff.mpr, nil_append]
      intro other hother
      simpa using hall other hother

theorem inactiveLines_beforeTs (active : Text → Bool) (purgeTs : ℕ) (index : BinlogIndex) :
    inactiveLines active (index.filter fun line => line.checkpoint < purgeTs) =
      index.filter fun line => line.checkpoint < purgeTs && !active line.fileName := by
  rw [inactiveLines, filter_filter]
  congr 1
  funext line
  exact Bool.and_comm _ _

theorem removes_purgeBinlogBeforeTs (active : Text → Bool) (purgeTs : ℕ)
    (hordered : index.Pairwise fun older newer => older.checkpoint ≤ newer.checkpoint) :
    (purgeBinlogBeforeTs active purgeTs index 0).Removes active index
      (index.filter fun line => line.checkpoint < purgeTs) := by
  obtain ⟨newer, heq, hnewer⟩ := exists_newer_of_ordered purgeTs hordered
  rw [purgeBinlogBeforeTs_eq]
  constructor
  · exact .inl (inactiveLines_beforeTs active purgeTs index).symm
  · refine ⟨newer, heq, ?_⟩
    have hrequested : (index.filter fun line => line.checkpoint < purgeTs).filter
          (fun line => !(line.checkpoint < purgeTs && !active line.fileName)) =
        (index.filter fun line => line.checkpoint < purgeTs).filter
          (fun line => active line.fileName) := by
      refine filter_congr fun line hline => ?_
      simp [of_decide_eq_true (mem_filter.mp hline).2]
    have hlater : newer.filter
        (fun line => !(line.checkpoint < purgeTs && !active line.fileName)) = newer := by
      refine filter_eq_self.mpr fun line hline => ?_
      simp [Nat.not_lt.mpr (hnewer line hline)]
    calc index.filter (fun line => !(line.checkpoint < purgeTs && !active line.fileName))
        = ((index.filter fun line => line.checkpoint < purgeTs) ++ newer).filter
            (fun line => !(line.checkpoint < purgeTs && !active line.fileName)) := by rw [← heq]
      _ = _ := by rw [filter_append, hrequested, hlater, activeLines]

theorem removes_purgeBinlogToFile (active : Text → Bool) (toBinlogIndex : Text)
    (index : BinlogIndex) :
    let purge := (purgeBinlogToFile active toBinlogIndex false index.reverse 0).2
    IndexPurge.Removes { purge with kept := purge.kept.reverse } active index
      (index.reverse.dropWhile fun line => line.fileName ≠ toBinlogIndex).reverse := by
  intro purge
  have hpurge : purge = _ := congrArg Prod.snd (purgeBinlogToFile_eq active toBinlogIndex index.reverse)
  rw [hpurge]
  refine ⟨.inr (by rw [inactiveLines, filter_reverse, reverse_reverse]),
    (index.reverse.takeWhile fun line => line.fileName ≠ toBinlogIndex).reverse, ?_, ?_⟩
  · rw [← reverse_append, takeWhile_append_dropWhile, reverse_reverse]
  · rw [reverse_append, activeLines, filter_reverse]

/-- The file being written stays, the purged lines are the oldest ones, the number of
the newest of them is remembered, and an unknown file purges nothing. -/
structure PurgeOutcome.Sound (outcome : PurgeOutcome) (index : BinlogIndex)
    (request : PurgeRequest) : Prop where
  last_kept : index ≠ [] → index.getLatestIndex.fileName ∉ outcome.purgeBinlogFiles
  oldest : ∃ purged, index = purged ++ outcome.index ∧
    (outcome.purgeBinlogFiles = purged.map fileName ∨
      outcome.purgeBinlogFiles = (purged.map fileName).reverse) ∧
    outcome.lastGtidSeq = newestNumber purged 0
  unknown_file : request.binlogFile ≠ [] → request.toBinlogIndex ∉ index.fileNames →
    outcome.purgeBinlogFiles = [] ∧ outcome.index = index

end Removes

/-- A request does no harm if no requested line is behind that of the file in memory,
and if the newest purged line of a request by file has a number whenever one of them
has. -/
def PurgeRequest.Harmless (request : PurgeRequest) (convertTs : Text → ℕ)
    (manager : BinlogIndexManager) : Prop :=
  let requested := request.requested convertTs manager.index
  (manager.memoryIndexRecord.fileName = [] ∨
      manager.memoryIndexRecord.fileName ∉ fileNames requested.dropLast) ∧
    (request.binlogFile ≠ [] →
      newestNumber (inactiveLines manager.isActive requested) 0 = 0 →
      ∀ line ∈ inactiveLines manager.isActive requested, line.currentMapping.2 = 0)

theorem firstNumber_of_ne {number : ℕ} (hnumber : number ≠ 0) (lines : List BinlogIndexRecord) :
    firstNumber lines number = number := by
  induction lines with
  | nil => rfl
  | cons line lines ih => rw [firstNumber, foldl_cons, if_neg hnumber]; exact ih

theorem firstNumber_eq_zero_iff (lines : List BinlogIndexRecord) :
    firstNumber lines 0 = 0 ↔ ∀ line ∈ lines, line.currentMapping.2 = 0 := by
  induction lines with
  | nil => exact iff_of_true rfl nofun
  | cons line lines ih =>
    have hstep : firstNumber (line :: lines) 0 = firstNumber lines line.currentMapping.2 := rfl
    rw [hstep, forall_mem_cons]
    by_cases hnumber : line.currentMapping.2 = 0
    · rw [hnumber, ih]
      exact (and_iff_right rfl).symm
    · rw [firstNumber_of_ne hnumber]
      exact iff_of_false hnumber fun hall => hnumber hall.1

theorem firstNumber_reverse_eq_iff (lines : List BinlogIndexRecord) :
    firstNumber lines.reverse 0 = newestNumber lines 0 ↔
      (newestNumber lines 0 = 0 → ∀ line ∈ lines, line.currentMapping.2 = 0) := by
  induction lines using reverseRecOn with
  | nil => exact iff_of_true rfl nofun
  | append_singleton lines newest _ =>
    have hnewest : newestNumber (lines ++ [newest]) 0 = newest.currentMapping.2 := by
      simp [newestNumber]
    have hfirst : firstNumber (lines ++ [newest]).reverse 0 =
        firstNumber lines.reverse newest.currentMapping.2 := by
      rw [reverse_append]
      rfl
    rw [hnewest, hfirst]
    by_cases hnumber : newest.currentMapping.2 = 0
    · rw [hnumber, firstNumber_eq_zero_iff]
      simp [hnumber, or_imp, forall_and]
    · rw [firstNumber_of_ne hnumber]
      exact iff_of_true rfl fun hzero => absurd hzero hnumber

section Sound

variable {manager : BinlogIndexManager} {requested newer : BinlogIndex} {purge : IndexPurge}

theorem isActive_of_ne (hmemory : manager.memoryIndexRecord.fileName ≠ []) {file : Text}
    (hfile : file ≠ manager.memoryIndexRecord.fileName) : manager.isActive file = false := by
  simp [isActive, hmemory, hfile.symm]

/-- The active line does not stand before an inactive one. -/
theorem inactive_append_active_iff (hinv : manager.Invariant)
    (hsplit : manager.index = requested ++ newer) :
    inactiveLines manager.isActive requested ++ activeLines manager.isActive requested =
        requested ↔
      manager.memoryIndexRecord.fileName = [] ∨
        manager.memoryIndexRecord.fileName ∉ fileNames requested.dropLast := by
  by_cases hempty : manager.memoryIndexRecord.fileName = []
  · have hall : ∀ file, manager.isActive file = true := fun file => by
      simp [isActive, hempty]
    simp [inactiveLines, activeLines, hall, hempty]
  rw [or_iff_right hempty]
  have hnodup : (fileNames requested).Nodup := by
    have hall := hinv.wellFormed.nodup
    rw [hsplit, fileNames, map_append] at hall
    exact (nodup_append'.mp hall).1
  rcases eq_nil_or_concat requested with rfl | ⟨front, last, rfl⟩
  · simp [inactiveLines, activeLines, fileNames]
  rw [concat_eq_append] at *
  rw [dropLast_concat]
  rw [fileNames, map_append, nodup_append'] at hnodup
  have hdisjoint : ∀ line ∈ front, line.fileName ≠ last.fileName := fun line hline heq =>
    hnodup.2.2 (mem_map_of_mem hline) (by simp [heq])
  constructor
  · intro horder hmem
    obtain ⟨line, hline, hname⟩ := mem_map.mp hmem
    have hactive : line ∈ activeLines manager.isActive front := by
      refine mem_filter.mpr ⟨hline, ?_⟩
      simp [isActive, hname]
    have hlast : manager.isActive last.fileName = false :=
      isActive_of_ne hempty fun heq => hdisjoint line hline (hname.trans heq.symm)
    have hends : (activeLines manager.isActive front).getLast? = some last := by
      have hgetLast := congrArg getLast? horder
      rw [getLast?_concat, activeLines, filter_append] at hgetLast
      rw [← hgetLast, activeLines]
      simp only [hlast, filter_cons, filter_nil, Bool.false_eq_true, if_false, append_nil]
      exact (getLast?_append_of_ne_nil _ (ne_nil_of_mem hactive)).symm
    have hmemLast := mem_of_getLast? hends
    exact absurd (mem_filter.mp hmemLast).2 (by simp [hlast])
  · intro hmem
    have hinactive : ∀ line ∈ front, manager.isActive line.fileName = false := fun line hline =>
      isActive_of_ne hempty fun heq => hmem (heq ▸ mem_map_of_mem hline)
    have hfront : inactiveLines manager.isActive front = front :=
      filter_eq_self.mpr fun line hline => by simp [hinactive line hline]
    have hnone : activeLines manager.isActive front = [] :=
      filter_eq_nil_iff.mpr fun line hline => by simp [hinactive line hline]
    rw [inactiveLines, activeLines] at *
    rw [filter_append, filter_append, hfront, hnone, nil_append, append_assoc]
    cases hactive : manager.isActive last.fileName <;> simp [hactive]

section Removes

variable (hremoves : purge.Removes manager.isActive manager.index requested)

include hremoves

theorem kept_ne_nil (hinv : manager.Invariant) (hne : manager.index ≠ []) : purge.kept ≠ [] := by
  obtain ⟨newer, hsplit, hkept⟩ := hremoves.kept_eq
  have hactive : ∃ line ∈ manager.index, manager.isActive line.fileName = true := by
    rcases hinv.memory with hempty | hmem
    · obtain ⟨line, hline⟩ := exists_mem_of_ne_nil _ hne
      exact ⟨line, hline, by simp [isActive, hempty]⟩
    · obtain ⟨line, hline, hname⟩ := mem_map.mp hmem
      exact ⟨line, hline, by simp [isActive, hname]⟩
  obtain ⟨line, hline, hlineActive⟩ := hactive
  rw [hsplit] at hline
  have hmem : line ∈ purge.kept := by
    rw [hkept]
    rcases mem_append.mp hline with hrequested | hnewer
    · exact mem_append_left _ (mem_filter.mpr ⟨hrequested, hlineActive⟩)
    · exact mem_append_right _ hnewer
  exact ne_nil_of_mem hmem

theorem index_rewritten (hinv : manager.Invariant) :
    (manager.rewritten purge).index = purge.kept := by
  obtain ⟨newer, hsplit, hkept⟩ := hremoves.kept_eq
  change (if purge.purged ≠ [] ∧ purge.kept ≠ [] then purge.kept else manager.index) = purge.kept
  split_ifs with hrewrite
  · rfl
  · have hnone : inactiveLines manager.isActive requested = [] := by
      by_contra hinactive
      have hpurged : purge.purged ≠ [] := by
        rcases hremoves.purged_eq with heq | heq
        · rwa [heq]
        · rwa [heq, Ne, reverse_eq_nil_iff]
      have hne : manager.index ≠ [] := by
        rw [hsplit]
        obtain ⟨line, hline⟩ := exists_mem_of_ne_nil _ hinactive
        exact append_ne_nil_of_left_ne_nil
          (ne_nil_of_mem (mem_of_mem_filter hline)) _
      exact hrewrite ⟨hpurged, kept_ne_nil hremoves hinv hne⟩
    have hall : activeLines manager.isActive requested = requested := by
      refine filter_eq_self.mpr fun line hline => ?_
      simpa using filter_eq_nil_iff.mp hnone line hline
    rw [hkept, hall, hsplit]

theorem mem_purgeBinlogFiles (file : Text) :
    file ∈ (manager.rewritten purge).purgeBinlogFiles ↔
      file ∈ (inactiveLines manager.isActive requested).fileNames := by
  change file ∈ purge.purged.map fileName ↔ _
  rcases hremoves.purged_eq with heq | heq
  · rw [heq, fileNames]
  · rw [heq, map_reverse, mem_reverse, fileNames]

theorem sound_rewritten_iff (hinv : manager.Invariant) {request : PurgeRequest}
    (hfound : request.binlogFile ≠ [] → request.toBinlogIndex ∈ manager.index.fileNames) :
    (manager.rewritten purge).Sound manager.index request ↔
      (manager.memoryIndexRecord.fileName = [] ∨
        manager.memoryIndexRecord.fileName ∉ fileNames requested.dropLast) ∧
      purge.lastGtidSeq = newestNumber (inactiveLines manager.isActive requested) 0 := by
  obtain ⟨newer, hsplit, hkept⟩ := hremoves.kept_eq
  have hindex := index_rewritten hremoves hinv
  rw [← inactive_append_active_iff hinv hsplit]
  constructor
  · rintro ⟨-, ⟨purged, heq, hnames, hnumber⟩, -⟩
    rw [hindex, hkept, ← append_assoc] at heq
    have hrequested : purged ++ activeLines manager.isActive requested = requested :=
      append_cancel_right (heq.symm.trans hsplit)
    have hpurged : ∀ line ∈ purged, manager.isActive line.fileName = false := by
      intro line hline
      have hfile : line.fileName ∈ (manager.rewritten purge).purgeBinlogFiles := by
        rcases hnames with hnames | hnames
        · exact hnames ▸ mem_map_of_mem hline
        · exact hnames ▸ mem_reverse.mpr (mem_map_of_mem hline)
      obtain ⟨other, hother, hname⟩ :=
        mem_map.mp ((mem_purgeBinlogFiles hremoves _).mp hfile)
      simpa [hname] using (mem_filter.mp hother).2
    have hsame : inactiveLines manager.isActive requested = purged := by
      have hself : inactiveLines manager.isActive purged = purged :=
        filter_eq_self.mpr fun line hline => by simp [hpurged line hline]
      have hnone : inactiveLines manager.isActive (activeLines manager.isActive requested) = [] :=
        filter_eq_nil_iff.mpr fun line hline => by simpa using (mem_filter.mp hline).2
      rw [← hrequested, inactiveLines, filter_append]
      rw [inactiveLines] at hself hnone
      rw [hself, hnone, append_nil]
    rw [hsame]
    exact ⟨hrequested, hnumber⟩
  · rintro ⟨horder, hnumber⟩
    have heq : manager.index =
        inactiveLines manager.isActive requested ++ (manager.rewritten purge).index := by
      rw [hindex, hkept, ← append_assoc, horder, hsplit]
    refine ⟨?_, ⟨inactiveLines manager.isActive requested, heq, ?_, hnumber⟩, ?_⟩
    · intro hne hlast
      have hkeptNe := kept_ne_nil hremoves hinv hne
      have hnodup := hinv.wellFormed.nodup
      rw [heq, hindex, fileNames, map_append, nodup_append'] at hnodup
      have hlatest : manager.index.getLatestIndex ∈ purge.kept := by
        rw [heq, hindex, getLatestIndex, getLast?_append_of_ne_nil _ hkeptNe]
        exact getLatestIndex_mem hkeptNe
      exact hnodup.2.2 ((mem_purgeBinlogFiles hremoves _).mp hlast) (mem_map_of_mem hlatest)
    · change purge.purged.map fileName = _ ∨
        purge.purged.map fileName = _
      rcases hremoves.purged_eq with hpurged | hpurged
      · exact .inl (by rw [hpurged])
      · exact .inr (by rw [hpurged, map_reverse])
    · intro hfile hunknown
      exact absurd (hfound hfile) hunknown

end Removes

theorem sound_unchanged (index : BinlogIndex) (request : PurgeRequest) (errorMsg : Text) :
    PurgeOutcome.Sound { succeeded := false, errorMsg, index } index request :=
  ⟨fun _ => not_mem_nil, ⟨[], rfl, .inl rfl, rfl⟩, fun _ _ => ⟨rfl, rfl⟩⟩

end Sound

/-- In a state that the storage thread can reach, PURGE BINARY LOGS does what it should
exactly when the request does no harm. -/
theorem purgeBinlogIndex_sound_iff (convertTs : Text → ℕ) (request : PurgeRequest)
    (manager : BinlogIndexManager) (hreachable : Reachable manager) :
    (manager.purgeBinlogIndex convertTs request).Sound manager.index request ↔
      request.Harmless convertTs manager := by
  have hinv := hreachable.invariant
  have hfetch : fetchIndexVector manager.index = manager.index :=
    filter_eq_self.mpr fun line hline =>
      decide_eq_true (hinv.wellFormed.positive line hline)
  rw [purgeBinlogIndex, PurgeRequest.Harmless, PurgeRequest.requested, hfetch]
  dsimp only
  split_ifs with hfile hts hfound
  · exact iff_of_true (sound_unchanged _ _ _)
      ⟨.inr not_mem_nil, fun hother => absurd hfile hother⟩
  · rw [sound_rewritten_iff (removes_purgeBinlogBeforeTs _ _ hinv.ordered) hinv
      fun hother => absurd hfile hother]
    refine and_congr_right fun _ => iff_of_true ?_ fun hother => absurd hfile hother
    rw [purgeBinlogBeforeTs_eq, inactiveLines_beforeTs]
  · have hpurge := purgeBinlogToFile_eq manager.isActive request.toBinlogIndex manager.index.reverse
    have hknown : request.toBinlogIndex ∈ manager.index.fileNames := by
      rw [hpurge] at hfound
      simpa [fileNames] using hfound
    rw [sound_rewritten_iff (removes_purgeBinlogToFile _ _ _) hinv fun _ => hknown]
    rw [← firstNumber_reverse_eq_iff, imp_iff_right hfile, hpurge, inactiveLines,
      filter_reverse, reverse_reverse]
  · have hpurge := purgeBinlogToFile_eq manager.isActive request.toBinlogIndex manager.index.reverse
    have hunknown : request.toBinlogIndex ∉ manager.index.fileNames := by
      rw [hpurge] at hfound
      simpa [fileNames] using hfound
    have hnone : manager.index.reverse.dropWhile
        (fun line => line.fileName ≠ request.toBinlogIndex) = [] := by
      refine dropWhile_eq_nil_iff.mpr fun line hline => decide_eq_true fun heq => ?_
      exact hunknown (heq ▸ mem_map_of_mem (mem_reverse.mp hline))
    rw [hnone]
    exact iff_of_true (sound_unchanged _ _ _)
      ⟨.inr not_mem_nil, fun _ _ _ hline => absurd hline not_mem_nil⟩

def rotatedManager : BinlogIndexManager :=
  { index := [sampleLine 'a' 1 0 5, sampleLine 'b' 2 0 4]
    memoryIndexRecord := sampleLine 'a' 1 0 5 }

theorem reachable_rotatedManager : Reachable rotatedManager := by
  have hadd : Reachable { index := [sampleLine 'a' 1 0 4] } :=
    Reachable.start.add (sampleLine 'a' 1 0 4) (by decide) (by decide) nofun
  have hupdate : Reachable
      { index := [sampleLine 'a' 1 0 5], memoryIndexRecord := sampleLine 'a' 1 0 5 } :=
    hadd.update (sampleLine 'a' 1 0 5) (by decide) nofun
  exact hupdate.add (sampleLine 'b' 2 0 4) (by decide) (by decide) (by decide)

/-- A request for the first file leaves both. -/
theorem purgeBinlogIndex_sound_first :
    Reachable rotatedManager ∧
      (rotatedManager.purgeBinlogIndex (fun _ => 0) ⟨[], ['a'], []⟩).Sound rotatedManager.index
        ⟨[], ['a'], []⟩ :=
  ⟨reachable_rotatedManager, (purgeBinlogIndex_sound_iff (fun _ => 0) ⟨[], ['a'], []⟩ rotatedManager
    reachable_rotatedManager).mpr ⟨.inr (by decide), fun _ _ => by decide⟩⟩

/-- A request for the file being written removes it from the index, because the record
in memory still names the file before. -/
theorem purgeBinlogIndex_purges_last :
    Reachable rotatedManager ∧
      rotatedManager.purgeBinlogIndex (fun _ => 0) ⟨[], ['b'], []⟩ =
        { succeeded := true
          index := [sampleLine 'a' 1 0 5]
          purgeBinlogFiles := [['b']] } :=
  ⟨reachable_rotatedManager, by decide⟩

end OblogProxy.Storage
