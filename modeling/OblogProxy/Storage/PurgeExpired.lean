import OblogProxy.Storage.BinlogIndex

/-!
# Purging expired files beside the storage thread

`purge_expired_binlog` fetches the index, decides which files are too old or too
many, and rewrites the index with what is left of the fetched lines.  Fetching and
rewriting each take the lock of the index, but the lock is free in between: what the
storage thread writes there is lost.

The time rule goes through the index from the oldest file on, the size rule from the
newest file back, and both skip the line of the current file.  How old a file is is an
unsigned difference, so a file from behind the clock is the oldest of all.
-/

namespace OblogProxy.Storage

open List BinlogIndexRecord BinlogIndex IndexStep

/-- The clock and the two options that expire files; an option that is zero is off. -/
structure ExpireConfig where
  nowSeconds : ℕ
  expireLogsSeconds : ℕ
  expireLogsSize : ℕ

structure PurgeResult where
  kept : BinlogIndex
  purged : List BinlogIndexRecord
deriving DecidableEq

open PurgeResult

/-- `now_s - checkpoint`, as unsigned integers. -/
def age (nowSeconds checkpoint : ℕ) : ℕ :=
  (nowSeconds + 2 ^ 64 - checkpoint) % 2 ^ 64

/-- From the oldest file on, up to the first that has not expired. -/
def purgeByTime (config : ExpireConfig) (current : BinlogIndexRecord) :
    BinlogIndex → PurgeResult
  | [] => ⟨[], []⟩
  | line :: newer =>
    if current.equalTo line then
      let rest := purgeByTime config current newer
      ⟨line :: rest.kept, rest.purged⟩
    else if age config.nowSeconds line.checkpoint < config.expireLogsSeconds then
      ⟨line :: newer, []⟩
    else
      let rest := purgeByTime config current newer
      ⟨rest.kept, line :: rest.purged⟩

/-- From the newest file back: once the sizes reach the limit, older files are
purged.  The lines are given and returned newest first. -/
def purgeBySize (config : ExpireConfig) (current : BinlogIndexRecord) :
    ℕ → BinlogIndex → PurgeResult
  | _, [] => ⟨[], []⟩
  | totalSize, line :: older =>
    if current.equalTo line then
      let rest := purgeBySize config current totalSize older
      ⟨line :: rest.kept, rest.purged⟩
    else if totalSize < config.expireLogsSize then
      let rest := purgeBySize config current ((totalSize + line.position) % 2 ^ 64) older
      ⟨line :: rest.kept, rest.purged⟩
    else
      let rest := purgeBySize config current totalSize older
      ⟨rest.kept, line :: rest.purged⟩

/-- What `purge_expired_binlog` decides about the fetched lines; `current` is its
argument, the line that is never purged. -/
def purgeExpired (config : ExpireConfig) (current : BinlogIndexRecord) (fetched : BinlogIndex) :
    PurgeResult :=
  let byTime :=
    if 0 < config.expireLogsSeconds then purgeByTime config current fetched else ⟨fetched, []⟩
  let bySize :=
    if 0 < config.expireLogsSize then purgeBySize config current 0 byTime.kept.reverse
    else ⟨byTime.kept.reverse, []⟩
  ⟨bySize.kept.reverse, byTime.purged ++ bySize.purged⟩

/-- The lines that have a file number. -/
def fetchIndexVector (index : BinlogIndex) : BinlogIndex :=
  index.filter fun line => 0 < line.index

/-- The index is rewritten only if something is purged. -/
def PurgeResult.rewriteIndexFile (result : PurgeResult) (index : BinlogIndex) : BinlogIndex :=
  if result.purged = [] then index else result.kept

def PurgeResult.purgedFiles (result : PurgeResult) : List Gtid.Text :=
  result.purged.map BinlogIndexRecord.fileName

def PurgeResult.without (result : PurgeResult) (index : BinlogIndex) : BinlogIndex :=
  index.filter fun line => line.fileName ∉ result.purgedFiles

/-- The index when the storage thread takes some steps before the purge fetches, some
between fetching and rewriting, and some behind it. -/
def interleaved (result : PurgeResult) (fetched : BinlogIndex) (between after : List IndexStep) :
    BinlogIndex :=
  applySteps after (result.rewriteIndexFile (applySteps between fetched))

/-- The kept lines are in the order of the index, and every line is kept or purged. -/
structure PurgeResult.Splits (result : PurgeResult) (index : BinlogIndex) : Prop where
  sublist : result.kept.Sublist index
  perm : (result.kept ++ result.purged).Perm index

section Splits

variable {result rest : PurgeResult} {index : BinlogIndex} {line : BinlogIndexRecord}

theorem splits_all (index : BinlogIndex) : PurgeResult.Splits ⟨index, []⟩ index :=
  ⟨List.Sublist.refl _, by simp⟩

theorem PurgeResult.Splits.keep (hsplits : rest.Splits index) (line : BinlogIndexRecord) :
    PurgeResult.Splits ⟨line :: rest.kept, rest.purged⟩ (line :: index) :=
  ⟨hsplits.sublist.cons_cons line, hsplits.perm.cons line⟩

theorem PurgeResult.Splits.purge (hsplits : rest.Splits index) (line : BinlogIndexRecord) :
    PurgeResult.Splits ⟨rest.kept, line :: rest.purged⟩ (line :: index) :=
  ⟨hsplits.sublist.cons line, perm_middle.trans (hsplits.perm.cons line)⟩

section Splits

variable (config : ExpireConfig) (current : BinlogIndexRecord)

theorem splits_purgeByTime (index : BinlogIndex) :
    (purgeByTime config current index).Splits index := by
  induction index with
  | nil => exact splits_all []
  | cons line newer ih =>
    rw [purgeByTime]
    split_ifs
    · exact ih.keep line
    · exact splits_all _
    · exact ih.purge line

theorem splits_purgeBySize (totalSize : ℕ) (index : BinlogIndex) :
    (purgeBySize config current totalSize index).Splits index := by
  induction index generalizing totalSize with
  | nil => exact splits_all []
  | cons line older ih =>
    rw [purgeBySize]
    split_ifs
    · exact (ih _).keep line
    · exact (ih _).keep line
    · exact (ih _).purge line

theorem splits_purgeExpired (fetched : BinlogIndex) :
    (purgeExpired config current fetched).Splits fetched := by
  have htime : PurgeResult.Splits
      (if 0 < config.expireLogsSeconds then purgeByTime config current fetched else ⟨fetched, []⟩)
      fetched := by
    split_ifs
    · exact splits_purgeByTime config current fetched
    · exact splits_all fetched
  set byTime := if 0 < config.expireLogsSeconds then purgeByTime config current fetched
    else ⟨fetched, []⟩ with hbyTime
  have hsize : PurgeResult.Splits
      (if 0 < config.expireLogsSize then purgeBySize config current 0 byTime.kept.reverse
        else ⟨byTime.kept.reverse, []⟩) byTime.kept.reverse := by
    split_ifs
    · exact splits_purgeBySize config current 0 _
    · exact splits_all _
  set bySize := if 0 < config.expireLogsSize then purgeBySize config current 0 byTime.kept.reverse
    else ⟨byTime.kept.reverse, []⟩ with hbySize
  constructor
  · have hkept := hsize.sublist.reverse
    rw [reverse_reverse] at hkept
    exact hkept.trans htime.sublist
  · have hregroup : (bySize.kept.reverse ++ (byTime.purged ++ bySize.purged)).Perm
        (bySize.kept ++ bySize.purged ++ byTime.purged) := by
      rw [append_assoc]
      exact (reverse_perm _).append perm_append_comm
    have hkept : (bySize.kept ++ bySize.purged ++ byTime.purged).Perm
        (byTime.kept ++ byTime.purged) :=
      (hsize.perm.trans (reverse_perm _)).append_right _
    exact hregroup.trans (hkept.trans htime.perm)

end Splits

/-- When every line has its own file, the kept lines are those whose file is not
purged. -/
theorem PurgeResult.Splits.kept_eq (hsplits : result.Splits index)
    (hnodup : index.fileNames.Nodup) : result.kept = result.without index := by
  have hdisjoint : ∀ line ∈ result.kept, line.fileName ∉ result.purgedFiles := by
    have hnames : ((result.kept ++ result.purged).map BinlogIndexRecord.fileName).Perm
        index.fileNames := hsplits.perm.map _
    have hnodupAll := hnames.nodup_iff.mpr hnodup
    rw [map_append, nodup_append'] at hnodupAll
    intro line hline
    exact hnodupAll.2.2 (mem_map_of_mem hline)
  have hkept : result.without result.kept = result.kept :=
    filter_eq_self.mpr fun line hline => decide_eq_true (hdisjoint line hline)
  have hpurged : result.without result.purged = [] := by
    refine filter_eq_nil_iff.mpr fun line hline => ?_
    simpa [purgedFiles] using ⟨line, hline, rfl⟩
  have hlength : (result.without index).length = result.kept.length := by
    have hperm := (hsplits.perm.filter fun line => line.fileName ∉ result.purgedFiles).length_eq
    change _ = (result.without index).length at hperm
    rw [← hperm, filter_append]
    change (result.without result.kept ++ result.without result.purged).length = _
    rw [hkept, hpurged, append_nil]
  have hsublist : (result.without result.kept).Sublist (result.without index) :=
    hsplits.sublist.filter _
  rw [hkept] at hsublist
  exact hsublist.eq_of_length hlength.symm

theorem PurgeResult.Splits.purgedFiles_subset (hsplits : result.Splits index) :
    result.purgedFiles ⊆ index.fileNames := by
  intro file hfile
  obtain ⟨line, hline, rfl⟩ := mem_map.mp hfile
  exact mem_map_of_mem (hsplits.perm.subset (mem_append_right _ hline))

end Splits

section Steps

variable {result : PurgeResult} {index : BinlogIndex} {steps : List IndexStep}

@[simp]
theorem PurgeResult.without_append (result : PurgeResult) (front back : BinlogIndex) :
    result.without (front ++ back) = result.without front ++ result.without back :=
  filter_append ..

theorem PurgeResult.without_singleton {line : BinlogIndexRecord}
    (hkept : line.fileName ∉ result.purgedFiles) : result.without [line] = [line] := by
  simp [without, hkept]

theorem PurgeResult.without_singleton_purged {line : BinlogIndexRecord}
    (hpurged : line.fileName ∈ result.purgedFiles) : result.without [line] = [] := by
  simp [without, hpurged]

section Without

variable (hsubset : result.purgedFiles ⊆ index.fileNames)
  (hlast : index.getLatestIndex.fileName ∉ result.purgedFiles)

include hsubset hlast

/-- While the last file is not purged, taking out the purged files and a step of the
storage thread can be exchanged. -/
theorem without_apply {step : IndexStep} (hallowed : step.Allowed index) :
    step.apply (result.without index) = result.without (step.apply index) ∧
      (step.apply index).getLatestIndex.fileName ∉ result.purgedFiles := by
  cases step with
  | update record =>
    obtain ⟨hne, hname, -⟩ := hallowed
    have hrecord : record.fileName ∉ result.purgedFiles := hname ▸ hlast
    have hwithout : result.without index = result.without index.dropLast ++ [index.getLatestIndex] := by
      conv_lhs => rw [← dropLast_append_getLatestIndex hne]
      rw [without_append, without_singleton hlast]
    refine ⟨?_, by simpa [apply] using hrecord⟩
    rw [apply, apply, hwithout, updateIndex,
      dropLast_concat, updateIndex, without_append,
      without_singleton hrecord]
  | add record =>
    have hrecord : record.fileName ∉ result.purgedFiles := fun hpurged =>
      hallowed.2 (hsubset hpurged)
    refine ⟨?_, by simpa [apply] using hrecord⟩
    rw [apply, apply, addIndex, addIndex,
      without_append, without_singleton hrecord]

theorem without_applySteps (hallowed : AllowedSteps steps index) :
    applySteps steps (result.without index) = result.without (applySteps steps index) := by
  induction steps generalizing index with
  | nil => rfl
  | cons step steps ih =>
    obtain ⟨hstep, hlastStep⟩ := without_apply hsubset hlast hallowed.1
    have hgrown := @fileNames_subset_applySteps index [step] ⟨hallowed.1, trivial⟩
    rw [applySteps_cons, applySteps_cons, hstep]
    exact ih (List.Subset.trans hsubset hgrown) hlastStep hallowed.2

end Without

theorem applySteps_updates (hne : index ≠ []) (hallowed : AllowedSteps steps index)
    (hupdates : ∀ step ∈ steps, step.isUpdate) :
    ∃ line, line.fileName = index.getLatestIndex.fileName ∧
      applySteps steps index = index.dropLast ++ [line] := by
  induction steps generalizing index with
  | nil =>
    exact ⟨index.getLatestIndex, rfl, (dropLast_append_getLatestIndex hne).symm⟩
  | cons step steps ih =>
    obtain ⟨hstep, hrest⟩ := forall_mem_cons.mp hupdates
    cases step with
    | add record => exact absurd hstep Bool.false_ne_true
    | update record =>
      have hnonempty : index.updateIndex record ≠ [] := by simp [updateIndex]
      obtain ⟨line, hname, hline⟩ := ih hnonempty hallowed.2 hrest
      refine ⟨line, ?_, ?_⟩
      · rw [hname, getLatestIndex_updateIndex]
        exact hallowed.1.2.1
      · rw [applySteps_cons, apply, hline, updateIndex, dropLast_concat]

theorem exists_added (hallowed : AllowedSteps steps index)
    (hadds : ¬ ∀ step ∈ steps, step.isUpdate) :
    ∃ line ∈ applySteps steps index, line.fileName ∉ index.fileNames := by
  induction steps generalizing index with
  | nil => exact absurd (by simp) hadds
  | cons step steps ih =>
    cases step with
    | update record =>
      have hrest : ¬ ∀ step ∈ steps, step.isUpdate := fun hrest =>
        hadds (forall_mem_cons.mpr ⟨rfl, hrest⟩)
      obtain ⟨line, hline, hnew⟩ := ih hallowed.2 hrest
      refine ⟨line, hline, ?_⟩
      rw [← fileNames_updateIndex hallowed.1]
      exact hnew
    | add record =>
      have hadded : record.fileName ∈ (index.addIndex record).fileNames := by simp
      have hmem := fileNames_subset_applySteps hallowed.2 hadded
      obtain ⟨line, hline, hname⟩ := mem_map.mp hmem
      exact ⟨line, hline, hname ▸ hallowed.1.2⟩

end Steps

/-- The steps between fetching and rewriting change nothing and the file being written
is kept; or that file is purged, the steps between only update it, and the next step
adds a file; or nothing is purged at all. -/
def PurgeResult.Undisturbed (result : PurgeResult) (fetched : BinlogIndex)
    (between after : List IndexStep) : Prop :=
  result.purged = [] ∨
    (fetched.getLatestIndex.fileName ∉ result.purgedFiles ∧
      applySteps between fetched = fetched) ∨
    (fetched.getLatestIndex.fileName ∈ result.purgedFiles ∧
      (∀ step ∈ between, step.isUpdate) ∧ ∀ record rest, after ≠ .update record :: rest)

section Interleaving

variable {result : PurgeResult} {fetched : BinlogIndex} {between after : List IndexStep}

section Disturbed

variable (hwf : fetched.WellFormed) (hsplits : result.Splits fetched)
  (hbetween : AllowedSteps between fetched)
  (hafter : AllowedSteps after (applySteps between fetched))

include hwf hsplits hbetween hafter

theorem undisturbed_of_keeps
    (hkeeps : ∀ shown, shown <+: after → interleaved result fetched between shown =
      result.without (applySteps (between ++ shown) fetched)) :
    result.Undisturbed fetched between after := by
  by_cases hpurged : result.purged = []
  · exact .inl hpurged
  have hkept := hsplits.kept_eq hwf.nodup
  have hne : fetched ≠ [] := by
    rintro rfl
    exact hpurged (append_eq_nil_iff.mp (perm_nil.mp hsplits.perm)).2
  have hnow := hkeeps [] nil_prefix
  rw [interleaved, rewriteIndexFile, if_neg hpurged, applySteps_nil, append_nil,
    hkept] at hnow
  have hupdates : ∀ step ∈ between, step.isUpdate := by
    by_contra hadds
    obtain ⟨line, hline, hnew⟩ := exists_added hbetween hadds
    have hnotPurged : line.fileName ∉ result.purgedFiles := fun hfile =>
      hnew (hsplits.purgedFiles_subset hfile)
    have hmem : line ∈ result.without fetched := by
      rw [hnow]
      exact mem_filter.mpr ⟨hline, decide_eq_true hnotPurged⟩
    exact hnew (mem_map_of_mem (mem_of_mem_filter hmem))
  obtain ⟨line, hname, hline⟩ := applySteps_updates hne hbetween hupdates
  by_cases hlast : fetched.getLatestIndex.fileName ∈ result.purgedFiles
  · refine .inr (.inr ⟨hlast, hupdates, ?_⟩)
    rintro record rest rfl
    have hname' : record.fileName ∈ result.purgedFiles := by
      rw [hafter.1.2.1, hline, getLatestIndex, getLast?_concat, Option.getD_some, hname]
      exact hlast
    have hnext := hkeeps [.update record] (by simp)
    have hmem : record ∈ result.without (applySteps (between ++ [.update record]) fetched) := by
      rw [← hnext]
      exact mem_append_right _ (mem_singleton_self _)
    exact of_decide_eq_true (mem_filter.mp hmem).2 hname'
  · refine .inr (.inl ⟨hlast, ?_⟩)
    have hlines : result.without fetched.dropLast ++ [fetched.getLatestIndex] =
        result.without fetched.dropLast ++ [line] := by
      rw [hline, without_append, without_singleton (hname ▸ hlast)] at hnow
      rw [← hnow, ← without_singleton hlast, ← without_append,
        dropLast_append_getLatestIndex hne]
    have hsame := singleton_inj.mp (append_cancel_left hlines)
    rw [hline, ← hsame, dropLast_append_getLatestIndex hne]

theorem keeps_of_undisturbed (hundisturbed : result.Undisturbed fetched between after)
    (shown : List IndexStep) (hshown : shown <+: after) :
    interleaved result fetched between shown =
      result.without (applySteps (between ++ shown) fetched) := by
  obtain ⟨rest, rfl⟩ := hshown
  have hsubset := hsplits.purgedFiles_subset
  rw [interleaved, rewriteIndexFile, applySteps_append]
  by_cases hpurged : result.purged = []
  · simp [without, purgedFiles, hpurged]
  rw [if_neg hpurged, hsplits.kept_eq hwf.nodup]
  rcases hundisturbed with hnone | ⟨hlast, hsame⟩ | ⟨hlast, hupdates, hnext⟩
  · exact absurd hnone hpurged
  · rw [hsame] at hafter ⊢
    exact without_applySteps hsubset hlast (allowedSteps_append.mp hafter).1
  · have hne : fetched ≠ [] := by
      rintro rfl
      exact hpurged (append_eq_nil_iff.mp (perm_nil.mp hsplits.perm)).2
    obtain ⟨line, hname, hline⟩ := applySteps_updates hne hbetween hupdates
    have hwithout : result.without fetched = result.without (applySteps between fetched) := by
      conv_lhs => rw [← dropLast_append_getLatestIndex hne]
      rw [hline, without_append, without_append,
        without_singleton_purged hlast,
        without_singleton_purged (hname ▸ hlast)]
    have hgrown := List.Subset.trans hsubset (fileNames_subset_applySteps hbetween)
    rw [hwithout]
    cases shown with
    | nil => rfl
    | cons step steps =>
      obtain ⟨hallowed, hrest⟩ := hafter
      cases step with
      | update record => exact absurd rfl (hnext record (steps ++ rest))
      | add record =>
        have hrecord : record.fileName ∉ result.purgedFiles := fun hfile =>
          hallowed.2 (hgrown hfile)
        have hadd : (result.without (applySteps between fetched)).addIndex record =
            result.without ((applySteps between fetched).addIndex record) := by
          rw [addIndex, addIndex, without_append,
            without_singleton hrecord]
        rw [applySteps_cons, applySteps_cons, apply, apply, hadd]
        refine without_applySteps ?_ (by simpa using hrecord) (allowedSteps_append.mp hrest).1
        rw [fileNames_addIndex]
        exact List.Subset.trans hgrown (subset_append_left _ _)

end Disturbed

end Interleaving

/-- Whatever the options and the argument of the purge: at every moment behind the
purge the index has the lines of the storage thread alone, without those of the purged
files, exactly when the purge was not disturbed. -/
theorem purgeExpired_keeps_iff (config : ExpireConfig) (current : BinlogIndexRecord)
    (index : BinlogIndex) (before between after : List IndexStep) (hwf : index.WellFormed)
    (hsteps : AllowedSteps (before ++ (between ++ after)) index) :
    let fetched := fetchIndexVector (applySteps before index)
    let result := purgeExpired config current fetched
    (∀ shown, shown <+: after →
        interleaved result (applySteps before index) between shown =
          result.without (applySteps (before ++ (between ++ shown)) index)) ↔
      result.Undisturbed (applySteps before index) between after := by
  intro fetched result
  obtain ⟨hbefore, hrest⟩ := allowedSteps_append.mp hsteps
  obtain ⟨hbetween, hafter⟩ := allowedSteps_append.mp hrest
  have hwfBefore := hwf.applySteps hbefore
  have hfetched : fetched = applySteps before index :=
    filter_eq_self.mpr fun line hline => decide_eq_true (hwfBefore.positive line hline)
  have hsplits : result.Splits (applySteps before index) :=
    hfetched ▸ splits_purgeExpired config current fetched
  simp only [applySteps_append before]
  exact ⟨undisturbed_of_keeps hwfBefore hsplits hbetween hafter,
    keeps_of_undisturbed hwfBefore hsplits hbetween hafter⟩

def sampleLine (file : Char) (index checkpoint position : ℕ) : BinlogIndexRecord :=
  { fileName := [file], index, checkpoint, position }

def sampleConfig : ExpireConfig :=
  { nowSeconds := 200, expireLogsSeconds := 150, expireLogsSize := 0 }

/-- The first file is purged, and the update behind the purge reaches the index. -/
theorem purgeExpired_keeps_sample :
    BinlogIndex.WellFormed [sampleLine 'a' 1 0 5, sampleLine 'b' 2 100 5] ∧
      ∀ shown, shown <+: [IndexStep.update (sampleLine 'b' 2 160 9)] →
        interleaved
            (purgeExpired sampleConfig (sampleLine 'b' 2 100 5)
              [sampleLine 'a' 1 0 5, sampleLine 'b' 2 100 5])
            [sampleLine 'a' 1 0 5, sampleLine 'b' 2 100 5] [] shown =
          (purgeExpired sampleConfig (sampleLine 'b' 2 100 5)
              [sampleLine 'a' 1 0 5, sampleLine 'b' 2 100 5]).without
            (applySteps shown [sampleLine 'a' 1 0 5, sampleLine 'b' 2 100 5]) :=
  ⟨by decide, (purgeExpired_keeps_iff sampleConfig (sampleLine 'b' 2 100 5)
      [sampleLine 'a' 1 0 5, sampleLine 'b' 2 100 5] [] [] [.update (sampleLine 'b' 2 160 9)]
      (by decide) (by decide)).mpr (.inr (.inl ⟨by decide, rfl⟩))⟩

/-- An update and an added file between fetching and rewriting are lost. -/
theorem purgeExpired_loses_lines :
    let index : BinlogIndex := [sampleLine 'a' 1 0 5, sampleLine 'b' 2 100 5]
    let result := purgeExpired sampleConfig (sampleLine 'b' 2 100 5) index
    let between := [.update (sampleLine 'b' 2 160 9), .add (sampleLine 'c' 3 160 4)]
    index.WellFormed ∧ AllowedSteps between index ∧
      interleaved result index between [] = [sampleLine 'b' 2 100 5] ∧
      result.without (applySteps between index) =
        [sampleLine 'b' 2 160 9, sampleLine 'c' 3 160 4] := by
  decide

section Rules

variable (config : ExpireConfig) (current : BinlogIndexRecord)

/-- What is left of the fetched lines by `binlog_expire_logs_seconds`. -/
def timeRule (lines : BinlogIndex) : PurgeResult :=
  if 0 < config.expireLogsSeconds then purgeByTime config current lines else ⟨lines, []⟩

/-- What is left by `binlog_expire_logs_size`, newest first. -/
def sizeRule (lines : BinlogIndex) : PurgeResult :=
  if 0 < config.expireLogsSize then purgeBySize config current 0 lines else ⟨lines, []⟩

/-- The lines that the time rule leaves to the size rule. -/
def sizeRuleLines (fetched : BinlogIndex) : BinlogIndex :=
  (timeRule config current fetched).kept.reverse

theorem purgeExpired_eq (fetched : BinlogIndex) :
    purgeExpired config current fetched =
      ⟨(sizeRule config current (sizeRuleLines config current fetched)).kept.reverse,
        (timeRule config current fetched).purged ++
          (sizeRule config current (sizeRuleLines config current fetched)).purged⟩ :=
  rfl

def expired (line : BinlogIndexRecord) : Bool :=
  0 < config.expireLogsSeconds &&
    config.expireLogsSeconds ≤ age config.nowSeconds line.checkpoint

variable {config current}
variable {older : BinlogIndex} {last : BinlogIndexRecord}

theorem purgeByTime_eq (henabled : 0 < config.expireLogsSeconds)
    (hlast : current.equalTo last = true) (holder : ∀ line ∈ older, current.equalTo line = false) :
    purgeByTime config current (older ++ [last]) =
      ⟨older.dropWhile (expired config) ++ [last], older.takeWhile (expired config)⟩ := by
  induction older with
  | nil => simp [purgeByTime, hlast]
  | cons line newer ih =>
    obtain ⟨hline, hnewer⟩ := forall_mem_cons.mp holder
    rw [cons_append, purgeByTime, hline, if_neg Bool.false_ne_true]
    by_cases hage : age config.nowSeconds line.checkpoint < config.expireLogsSeconds
    · have hfresh : expired config line = false := by simp [expired, henabled, hage]
      rw [if_pos hage, dropWhile_cons_of_neg (by simp [hfresh]),
        takeWhile_cons_of_neg (by simp [hfresh]), cons_append]
    · have hold : expired config line = true := by
        simpa [expired, henabled] using hage
      rw [if_neg hage, ih hnewer, dropWhile_cons_of_pos hold, takeWhile_cons_of_pos hold]

/-- The time rule purges the files in front of the first that has not expired. -/
theorem timeRule_eq (hlast : current.equalTo last = true)
    (holder : ∀ line ∈ older, current.equalTo line = false) :
    timeRule config current (older ++ [last]) =
      ⟨older.dropWhile (expired config) ++ [last], older.takeWhile (expired config)⟩ := by
  rw [timeRule]
  split_ifs with henabled
  · exact purgeByTime_eq henabled hlast holder
  · have hnone : ∀ line, expired config line = false := by simp [expired, henabled]
    cases older with
    | nil => rfl
    | cons line newer =>
      rw [dropWhile_cons_of_neg (by simp [hnone]), takeWhile_cons_of_neg (by simp [hnone])]

/-- Once the limit is reached every older file is purged. -/
theorem purgeBySize_reached {totalSize : ℕ} {lines : BinlogIndex}
    (hreached : config.expireLogsSize ≤ totalSize)
    (hother : ∀ line ∈ lines, current.equalTo line = false) :
    purgeBySize config current totalSize lines = ⟨[], lines⟩ := by
  induction lines with
  | nil => rfl
  | cons line lines ih =>
    obtain ⟨hline, hlines⟩ := forall_mem_cons.mp hother
    rw [purgeBySize, hline, if_neg Bool.false_ne_true, if_neg hreached.not_gt, ih hlines]

/-- The sum wraps around, but it is never more than the sizes that are kept. -/
theorem exists_purgeBySize (totalSize : ℕ) {lines : BinlogIndex}
    (hother : ∀ line ∈ lines, current.equalTo line = false) :
    ∃ kept purged, lines = kept ++ purged ∧
      purgeBySize config current totalSize lines = ⟨kept, purged⟩ ∧
      (purged ≠ [] →
        config.expireLogsSize ≤ totalSize + (kept.map position).sum) := by
  induction lines generalizing totalSize with
  | nil => exact ⟨[], [], rfl, rfl, fun hne => absurd rfl hne⟩
  | cons line lines ih =>
    by_cases hsize : totalSize < config.expireLogsSize
    · obtain ⟨hline, hlines⟩ := forall_mem_cons.mp hother
      obtain ⟨kept, purged, rfl, hpurge, hreached⟩ :=
        ih ((totalSize + line.position) % 2 ^ 64) hlines
      refine ⟨line :: kept, purged, rfl, ?_, ?_⟩
      · rw [purgeBySize, hline, if_neg Bool.false_ne_true, if_pos hsize, hpurge]
      · intro hne
        have hsum := hreached hne
        rw [map_cons, sum_cons]
        omega
    · have hreached := Nat.le_of_not_lt hsize
      exact ⟨[], line :: lines, rfl, purgeBySize_reached hreached hother,
        fun _ => by simpa using hreached⟩

/-- The size rule purges the front of the index, if the rest reaches the limit. -/
theorem exists_sizeRule (hlast : current.equalTo last = true)
    (holder : ∀ line ∈ older, current.equalTo line = false) :
    ∃ purged kept, older = purged ++ kept ∧
      sizeRule config current (older ++ [last]).reverse = ⟨last :: kept.reverse, purged.reverse⟩ ∧
      (purged ≠ [] →
        config.expireLogsSize ≤ (kept.map position).sum) := by
  rw [sizeRule, reverse_concat]
  split_ifs
  · obtain ⟨kept, purged, hsplit, hpurge, hreached⟩ := @exists_purgeBySize config current 0
      older.reverse fun line hline => holder line (mem_reverse.mp hline)
    refine ⟨purged.reverse, kept.reverse, ?_, ?_, ?_⟩
    · rw [← reverse_append, ← hsplit, reverse_reverse]
    · rw [purgeBySize, if_pos hlast, hpurge, reverse_reverse, reverse_reverse]
    · intro hne
      simpa using hreached (by simpa using hne)
  · exact ⟨[], older, rfl, rfl, fun hne => absurd rfl hne⟩

end Rules

/-- `last_gtid_seq` behind the purged files. -/
def lastGtidSeq (purged : List BinlogIndexRecord) : ℕ :=
  purged.foldl (fun lastGtidSeq line =>
    if lastGtidSeq < line.currentMapping.2 then line.currentMapping.2 else lastGtidSeq) 0

/-- The argument of `purge_gtid_before`, which is not called for zero. -/
def PurgeResult.purgeGtidBefore (result : PurgeResult) : Option ℕ :=
  if 0 ≠ lastGtidSeq result.purged then some (lastGtidSeq result.purged) else none

def PurgeResult.purgedGtids (result : PurgeResult) : List ℕ :=
  result.purged.map fun line => line.currentMapping.2

theorem lastGtidSeq_eq (result : PurgeResult) :
    lastGtidSeq result.purged = result.purgedGtids.max?.getD 0 := by
  have hmax : ∀ left right : ℕ, (if left < right then right else left) = max left right :=
    fun left right => (max_def_lt left right).symm
  simp only [lastGtidSeq, purgedGtids, hmax]
  cases result.purged with
  | nil => rfl
  | cons line lines =>
    rw [map_cons, max?_cons', Option.getD_some, foldl_map, foldl_cons, Nat.zero_max]

theorem purgeGtidBefore_eq_max_iff (result : PurgeResult) :
    result.purgeGtidBefore = result.purgedGtids.max? ↔
      result.purged = [] ∨ ∃ line ∈ result.purged, 0 < line.currentMapping.2 := by
  rw [purgeGtidBefore, lastGtidSeq_eq]
  cases hmax : result.purgedGtids.max? with
  | none =>
    have hnone : result.purged = [] := by
      simpa [purgedGtids] using hmax
    simp [hnone]
  | some number =>
    obtain ⟨hmem, hlargest⟩ := max?_eq_some_iff.mp hmax
    obtain ⟨line, hline, hnumber⟩ := mem_map.mp hmem
    have hne : result.purged ≠ [] := ne_nil_of_mem hline
    rw [Option.getD_some, or_iff_right hne]
    constructor
    · intro hpassed
      split_ifs at hpassed with hzero
      exact ⟨line, hline, by omega⟩
    · rintro ⟨other, hother, hpositive⟩
      have hle := hlargest _ (mem_map_of_mem hother)
      rw [if_pos (by omega)]

/-- What expiry is for, on an index with the files `older` in front of the `last` one. -/
structure FreshSuffix (config : ExpireConfig) (current : BinlogIndexRecord)
    (older : BinlogIndex) (last : BinlogIndexRecord) : Prop where
  suffix : (purgeExpired config current (older ++ [last])).kept <:+ older ++ [last]
  keepsCurrent : last ∈ (purgeExpired config current (older ++ [last])).kept
  time : ∀ line ∈ (timeRule config current (older ++ [last])).purged,
    line.checkpoint + config.expireLogsSeconds ≤ config.nowSeconds
  size : ∀ line ∈ (sizeRule config current (sizeRuleLines config current (older ++ [last]))).purged,
    config.expireLogsSize ≤ ((purgeExpired config current (older ++ [last])).kept.dropLast.map
      position).sum
  gtid : (purgeExpired config current (older ++ [last])).purgeGtidBefore =
    (purgeExpired config current (older ++ [last])).purgedGtids.max?

section Suffix

variable {config : ExpireConfig} {current last : BinlogIndexRecord} {older : BinlogIndex}

/-- The difference is the real age unless the file is from behind the clock. -/
theorem age_of_le {nowSeconds checkpoint : ℕ} (hle : checkpoint ≤ nowSeconds) :
    age nowSeconds checkpoint ≤ nowSeconds - checkpoint := by
  have hshift : nowSeconds + 2 ^ 64 - checkpoint = nowSeconds - checkpoint + 2 ^ 64 := by omega
  rw [age, hshift, Nat.add_mod_right]
  exact Nat.mod_le _ _

theorem expired_in_past_iff {line : BinlogIndexRecord} (hexpired : expired config line = true) :
    line.checkpoint + config.expireLogsSeconds ≤ config.nowSeconds ↔
      line.checkpoint ≤ config.nowSeconds := by
  simp only [expired, Bool.and_eq_true, decide_eq_true_eq] at hexpired
  refine ⟨fun hpast => by omega, fun hle => ?_⟩
  have hreal := age_of_le hle
  omega

theorem expired_of_mem_takeWhile {line : BinlogIndexRecord}
    (hline : line ∈ older.takeWhile (expired config)) : expired config line = true :=
  mem_takeWhile_imp hline

theorem exists_purgeExpired (hlast : current.equalTo last = true)
    (holder : ∀ line ∈ older, current.equalTo line = false) :
    ∃ purged kept, older.dropWhile (expired config) = purged ++ kept ∧
      (purgeExpired config current (older ++ [last])).kept = kept ++ [last] ∧
      (sizeRule config current (sizeRuleLines config current (older ++ [last]))).purged =
        purged.reverse ∧
      (purged ≠ [] → config.expireLogsSize ≤ (kept.map position).sum) := by
  have hfresh : ∀ line ∈ older.dropWhile (expired config), current.equalTo line = false :=
    fun line hline => holder line ((dropWhile_sublist _).subset hline)
  obtain ⟨purged, kept, hsplit, hsize, hreached⟩ := @exists_sizeRule config current _ last hlast
    hfresh
  have hlines : sizeRule config current (sizeRuleLines config current (older ++ [last])) =
      ⟨last :: kept.reverse, purged.reverse⟩ := by
    rw [sizeRuleLines, timeRule_eq hlast holder, hsize]
  refine ⟨purged, kept, hsplit, ?_, ?_, hreached⟩
  · rw [purgeExpired_eq, hlines]
    simp
  · rw [hlines]

end Suffix

end OblogProxy.Storage
