import OblogProxy.Cluster.GtidSeqTable
import OblogProxy.Core.Feed

/-!
# Incremental reports of checkpoints

Every report asks for the checkpoints whose commit second is beyond the greatest one in the
table, and the table takes what comes.  The instance and the table are a feed behind a
cursor: what is saved is the source, what is in the table is the sink.
-/

namespace OblogProxy.Recovery.GtidManager

open Gtid

/-- The loop of `get_instance_incr_gtids_string` over commit versions and lines: it is left
when more than `limit` lines were appended. -/
def incrLoop (limit timestamp : ℕ) : List (ℕ × Text) → ℕ → Text
  | [], _ => []
  | entry :: entries, count =>
    let text := if timestamp < entry.1 then entry.2 ++ ['|'] else []
    let count := if timestamp < entry.1 then count + 1 else count
    if limit < count then text else text ++ incrLoop limit timestamp entries count

/-- `get_instance_incr_gtids_string`, where the lock is obtained in time. -/
def getInstanceIncrGtidsString (limit : ℕ) (manager : GtidManager) (timestamp : ℕ) : Text :=
  match manager.gtidSeqSet with
  | [] => []
  | front :: _ =>
    let entries := if front.1 ≤ timestamp then manager.gtidSeqSet else manager.fileEntries
    (incrLoop limit timestamp entries 0).dropLast

end OblogProxy.Recovery.GtidManager

namespace OblogProxy.Cluster

open BatchDelete Gtid Recovery

structure ReportingInstance where
  convertRunning : Bool
  delayUs : ℕ
  convertRps : ℕ
  writeRps : ℕ
  writeIops : ℕ
  checkpointUs : ℕ
  dumperNum : ℕ
  minDumperCheckpoint : ℕ
  dumpErrorCount : ℕ
  lastGtidPurged : ℕ
  gtidManager : GtidManager
  maxIncrGtidSeqsNum : ℕ := 200

/-- `ReportProcessor::process` for a timestamp: the row it sends. -/
def ReportingInstance.process (reporting : ReportingInstance) (timestamp : ℕ) : List Text :=
  [(if reporting.convertRunning then "Yes" else "No").toList,
    Nat.toDigits 10 (reporting.delayUs / 1000),
    Nat.toDigits 10 reporting.convertRps,
    Nat.toDigits 10 reporting.writeRps,
    Nat.toDigits 10 reporting.writeIops,
    Nat.toDigits 10 reporting.dumperNum,
    Nat.toDigits 10 reporting.minDumperCheckpoint,
    reporting.gtidManager.getInstanceIncrGtidsString reporting.maxIncrGtidSeqsNum timestamp,
    Nat.toDigits 10 reporting.lastGtidPurged,
    Nat.toDigits 10 reporting.checkpointUs,
    Nat.toDigits 10 reporting.dumpErrorCount,
    Nat.toDigits 10 reporting.gtidManager.lastCheckpointPurged]

/-- The values that `binlog_instance_exploration` takes from the row of a report. -/
structure ProbedReport where
  delay : ℕ
  minimumDumpPoint : ℕ
  incrGtidSeqStr : Text
  lastPurgedGtid : ℕ
  lastPurgedCheckpoint : ℕ
deriving DecidableEq

def probedReport (fields : List Text) : ProbedReport where
  delay := toUint64 (atoll (fields.getD 1 []))
  minimumDumpPoint := toUint64 (atoll (fields.getD 6 []))
  incrGtidSeqStr := fields.getD 7 []
  lastPurgedGtid := toUint64 (atoll (fields.getD 8 []))
  lastPurgedCheckpoint :=
    if 9 < fields.length then toUint64 (atoll (fields.getD 9 [])) else 0

/-- What `binlog_instance_exploration` does to the table, at the second `now`. -/
def exploreGtidSeqs (maxDeleteRows : ℕ) (key : InstanceKey) (now : ℕ)
    (boundary : GtidSeq × GtidSeq) (fields : List Text) (table : GtidSeqTable) : GtidSeqTable :=
  let report := probedReport fields
  table.updateInstanceGtidSeq maxDeleteRows key now boundary report.lastPurgedGtid
    report.lastPurgedCheckpoint report.incrGtidSeqStr

/-- A number as `atoll` reads it. -/
def clamped (number : ℕ) : ℕ :=
  min number (2 ^ 63 - 1)

theorem toUint64_atoll_clamped (number : ℕ) :
    toUint64 (atoll (Nat.toDigits 10 number)) = clamped number := by
  rw [atoll_of_validNumber (validNumber_toDigits number), readNumber_toDigits, toUint64, clamped]
  omega

section Removed

variable {maxDeleteRows : ℕ} {key : InstanceKey} {boundary : GtidSeq × GtidSeq}
  {table : GtidSeqTable} {row : InstanceGtidSeq}

theorem mem_deleteAll {condition : InstanceGtidSeq → Bool} {rows : List InstanceGtidSeq} :
    row ∈ deleteAll condition maxDeleteRows rows ↔
      row ∈ rows ∧ (0 < maxDeleteRows → condition row = false) := by
  rcases Nat.eq_zero_or_pos maxDeleteRows with rfl | hlimit
  · simp [deleteAll_zero]
  · simp [deleteAll_eq_filter hlimit, hlimit]

theorem mem_removePurgedGtids {lastPurgedGtid : ℕ} :
    row ∈ table.removePurgedGtids maxDeleteRows key boundary lastPurgedGtid ↔
      row ∈ table ∧ ¬(0 < maxDeleteRows ∧ boundary.1.gtidStart < lastPurgedGtid ∧
        row.key.instanceName = key.instanceName ∧ row.gtidStart ≤ lastPurgedGtid) := by
  rw [GtidSeqTable.removePurgedGtids]
  split_ifs with hpurged
  · rw [GtidSeqTable.removeInstanceGtidSeqBeforeGtid, mem_deleteAll]
    simp [hpurged]
  · simp [hpurged]

theorem mem_removePurgedCheckpoints {heartbeat lastPurgedCheckpoint : ℕ} :
    row ∈ table.removePurgedCheckpoints maxDeleteRows key heartbeat boundary
        lastPurgedCheckpoint ↔
      row ∈ table ∧ ¬(0 < maxDeleteRows ∧
        (boundary.1.commitVersionStart < lastPurgedCheckpoint ∧ heartbeat % 600 < 5) ∧
        row.key.instanceName = key.instanceName ∧
        row.commitVersionStart < lastPurgedCheckpoint ∧ row.xidStart = []) := by
  rw [GtidSeqTable.removePurgedCheckpoints]
  split_ifs with hpurged
  · rw [GtidSeqTable.removeInstanceGtidSeqBeforeCheckpoint, mem_deleteAll]
    simp [hpurged]
  · simp [hpurged]

end Removed

/-- Of the rows in the table, those that were just reported included, only rows of the
instance up to the purged gtid and heartbeats before the purged checkpoint are removed. -/
def RemovesOnlyPurged (key : InstanceKey) (reporting : ReportingInstance)
    (before after : GtidSeqTable) : Prop :=
  ∀ row ∈ before, row ∉ after →
    row.key.instanceName = key.instanceName ∧
      (row.gtidStart ≤ reporting.lastGtidPurged ∨
        row.xidStart = [] ∧
          row.commitVersionStart < reporting.gtidManager.lastCheckpointPurged)

/-- Probing removes only what was purged if and only if it does not come to purge
checkpoints, or there is no heartbeat between the purged checkpoint and the number of
microseconds up to which was converted. -/
theorem explore_removesOnlyPurged_iff (maxDeleteRows : ℕ) (key : InstanceKey) (now timestamp : ℕ)
    (boundary : GtidSeq × GtidSeq) (reporting : ReportingInstance) (table : GtidSeqTable) :
    RemovesOnlyPurged key reporting
        (table.addIncrGtidSeqs key boundary
          (probedReport (reporting.process timestamp)).incrGtidSeqStr)
        (exploreGtidSeqs maxDeleteRows key now boundary (reporting.process timestamp) table) ↔
      (0 < maxDeleteRows →
        boundary.1.commitVersionStart < clamped reporting.checkpointUs → now % 600 < 5 →
        ∀ row ∈ table.addIncrGtidSeqs key boundary
            (probedReport (reporting.process timestamp)).incrGtidSeqStr,
          row.key.instanceName = key.instanceName → row.xidStart = [] →
          row.commitVersionStart < clamped reporting.checkpointUs →
            row.gtidStart ≤ reporting.lastGtidPurged ∨
              row.commitVersionStart < reporting.gtidManager.lastCheckpointPurged) := by
  -- the column that is taken for the purged checkpoint is the one of the conversion
  have hgtid : (probedReport (reporting.process timestamp)).lastPurgedGtid =
      clamped reporting.lastGtidPurged := toUint64_atoll_clamped _
  have hcheckpoint : (probedReport (reporting.process timestamp)).lastPurgedCheckpoint =
      clamped reporting.checkpointUs := toUint64_atoll_clamped _
  rw [exploreGtidSeqs, RemovesOnlyPurged, GtidSeqTable.updateInstanceGtidSeq, hgtid, hcheckpoint]
  constructor
  · intro hremoves hlimit hpast hturn row hrow hname hxid hcommit
    have hremoved := hremoves row hrow fun hmem => (mem_removePurgedCheckpoints.mp hmem).2
      ⟨hlimit, ⟨hpast, hturn⟩, hname, hcommit, hxid⟩
    exact hremoved.2.imp_right And.right
  · intro hkeeps row hrow hremoved
    rw [mem_removePurgedCheckpoints, mem_removePurgedGtids] at hremoved
    by_cases hpurged : 0 < maxDeleteRows ∧ boundary.1.gtidStart < clamped reporting.lastGtidPurged ∧
        row.key.instanceName = key.instanceName ∧
        row.gtidStart ≤ clamped reporting.lastGtidPurged
    · obtain ⟨-, -, hname, hle⟩ := hpurged
      exact ⟨hname, Or.inl (hle.trans (min_le_left _ _))⟩
    · have hheartbeat := not_not.mp (not_and.mp hremoved ⟨hrow, hpurged⟩)
      obtain ⟨hlimit, ⟨hpast, hturn⟩, hname, hcommit, hxid⟩ := hheartbeat
      refine ⟨hname, ?_⟩
      rcases hkeeps hlimit hpast hturn row hrow hname hxid hcommit with hle | hlt
      · exact Or.inl hle
      · exact Or.inr ⟨hxid, hlt⟩

def purgedInstance : ReportingInstance where
  convertRunning := true
  delayUs := 0
  convertRps := 0
  writeRps := 0
  writeIops := 0
  checkpointUs := 2000 * 1000000
  dumperNum := 0
  minDumperCheckpoint := 0
  dumpErrorCount := 0
  lastGtidPurged := 0
  gtidManager := { lastCheckpointPurged := 1000 }

def keptHeartbeat : InstanceGtidSeq where
  commitVersionStart := 1500
  xidStart := []
  gtidStart := 7
  trxsNum := 0
  key := ⟨['c'], ['t'], ['i']⟩

/-- The heartbeat is not before the purged checkpoint and its number is not purged, but it
is removed: its second is compared with microseconds. -/
theorem explore_removes_keptHeartbeat :
    (purgedInstance.lastGtidPurged < keptHeartbeat.gtidStart ∧
      purgedInstance.gtidManager.lastCheckpointPurged ≤ keptHeartbeat.commitVersionStart) ∧
      exploreGtidSeqs 1000 keptHeartbeat.key 2400
        (GtidSeqTable.getInstanceBoundaryGtidSeq [keptHeartbeat] ['i'])
        (purgedInstance.process 1500) [keptHeartbeat] = [] := by
  decide +kernel

open Gtid Lines Recovery GtidSeq List GtidSeqTable

section Answers

variable {limit timestamp : ℕ}

theorem incrLoop_eq {entries : List (ℕ × Text)} {count : ℕ} (hcount : count ≤ limit) :
    GtidManager.incrLoop limit timestamp entries count =
      terminated '|' (((entries.filter fun entry => timestamp < entry.1).take
        (limit + 1 - count)).map Prod.snd) := by
  induction entries generalizing count with
  | nil => simp [GtidManager.incrLoop]
  | cons entry entries ih =>
    rw [GtidManager.incrLoop]
    by_cases hlater : timestamp < entry.1
    · rw [filter_cons_of_pos (by simpa using hlater)]
      obtain ⟨room, hroom⟩ : ∃ room, limit + 1 - count = room + 1 := ⟨limit - count, by omega⟩
      simp only [if_pos hlater, hroom, take_succ_cons, map_cons, terminated_cons]
      split_ifs with hfull
      · obtain rfl : room = 0 := by omega
        simp
      · rw [ih (by omega), show limit + 1 - (count + 1) = room by omega]
        simp
    · rw [filter_cons_of_neg (by simpa using hlater)]
      simp [if_neg hlater, if_neg (Nat.not_lt.mpr hcount), ih hcount]

/-- Pieces with a separator behind each but the last are read back. -/
theorem split_dropLast_terminated {pieces : List Text} (hne : pieces ≠ [])
    (hpieces : ∀ piece ∈ pieces, piece ≠ [] ∧ '|' ∉ piece ∧ Char.ofNat 0 ∉ piece) :
    split (terminated '|' pieces).dropLast '|' = pieces := by
  obtain ⟨front, last, rfl⟩ := (eq_nil_or_concat' pieces).resolve_left hne
  obtain ⟨hnonempty, hlast, hnul⟩ := hpieces last (by simp)
  have hdrop : (terminated '|' (front ++ [last])).dropLast = terminated '|' front ++ last := by
    rw [terminated_append, terminated_cons, terminated_nil, ← append_assoc, dropLast_concat]
  have hfront : ∀ piece ∈ front, '|' ∉ piece := fun piece hpiece =>
    (hpieces piece (mem_append_left _ hpiece)).2.1
  rw [hdrop, split_eq_splitOn '|' (by simp [hnonempty]), splitOn_terminated_append hfront hlast]
  intro hmem
  rcases mem_append.mp hmem with hmem | hmem
  · rcases mem_terminated hmem with heq | ⟨piece, hpiece, hinside⟩
    · exact absurd heq (by decide)
    · exact (hpieces piece (mem_append_left _ hpiece)).2.2 hinside
  · exact hnul hmem

end Answers

structure Reportable (gtidSeq : GtidSeq) : Prop extends gtidSeq.Writable where
  xid_bar : '|' ∉ gtidSeq.xidStart

section Reportable

variable {gtidSeq : GtidSeq} {key : InstanceKey}

theorem Reportable.piece (hreportable : Reportable gtidSeq) :
    gtidSeq.serialize ≠ [] ∧ '|' ∉ gtidSeq.serialize ∧ Char.ofNat 0 ∉ gtidSeq.serialize := by
  have hdigits (number : ℕ) : '|' ∉ Nat.toDigits 10 number := fun hmem =>
    absurd ((validNumber_toDigits number).2 _ hmem) (by decide)
  refine ⟨by simp [serialize], ?_, fun hmem => (hreportable.mem_serialize hmem).2 rfl⟩
  simp [serialize, hdigits, hreportable.xid_bar]

theorem Reportable.deserializePiece (hreportable : Reportable gtidSeq) :
    Cluster.deserializePiece key gtidSeq.serialize = some ⟨gtidSeq, key⟩ := by
  have hcommitVersion : gtidSeq.commitVersionStart < 2 ^ 63 :=
    lt_of_le_of_lt hreportable.commitVersion_le (by decide)
  rw [Cluster.deserializePiece, hreportable.split_serialize]
  dsimp only
  rw [toUint64_atoll_toDigits hcommitVersion, toUint64_atoll_toDigits hreportable.gtid_lt,
    toUint64_atoll_toDigits hreportable.trxs_lt]

theorem deserializeGtidSeqStr_eq (key : InstanceKey) {gtidSeqs : List GtidSeq} (hne : gtidSeqs ≠ [])
    (hreportable : ∀ gtidSeq ∈ gtidSeqs, Reportable gtidSeq) :
    deserializeGtidSeqStr key (terminated '|' (gtidSeqs.map serialize)).dropLast =
      gtidSeqs.map fun gtidSeq => ⟨gtidSeq, key⟩ := by
  rw [deserializeGtidSeqStr, split_dropLast_terminated (by simpa using hne)]
  · rw [filterMap_map]
    exact filterMap_eq_map_iff_forall_eq_some.mpr fun gtidSeq hmem =>
      (hreportable gtidSeq hmem).deserializePiece
  · simp only [forall_mem_map]
    exact fun gtidSeq hmem => (hreportable gtidSeq hmem).piece

end Reportable

structure Reporting where
  gtidManager : GtidManager := {}
  table : GtidSeqTable

/-- What does not change: the options, the instance, and the seconds of the reports. -/
structure ReportSetting where
  config : GtidConfig
  maxIncrGtidSeqsNum : ℕ
  maxDeleteRows : ℕ
  key : InstanceKey
  heartbeat : ℕ

namespace Reporting

variable (setting : ReportSetting)

/-- A checkpoint is saved, or the manager asks for the checkpoints that are not in the table
yet.  Nothing is purged. -/
def step (reporting : Reporting) : Feed.Step GtidSeq → Reporting
  | .save gtidSeq =>
    { reporting with gtidManager := reporting.gtidManager.saveGtidSeq setting.config gtidSeq }
  | .report =>
    let boundary := reporting.table.getInstanceBoundaryGtidSeq setting.key.instanceName
    let answer := reporting.gtidManager.getInstanceIncrGtidsString setting.maxIncrGtidSeqsNum
      boundary.2.commitVersionStart
    { reporting with
      table := reporting.table.updateInstanceGtidSeq setting.maxDeleteRows setting.key
        setting.heartbeat boundary 0 0 answer }

def run (reporting : Reporting) (steps : List (Feed.Step GtidSeq)) : Reporting :=
  steps.foldl (step setting) reporting

/-- The state of the feed that the instance and the table are. -/
structure Represents (reporting : Reporting) (feed : Feed.State GtidSeq) : Prop where
  gtidSeqSet : reporting.gtidManager.gtidSeqSet =
    feed.saved.map fun gtidSeq => (gtidSeq.commitVersionStart, gtidSeq.serialize)
  file : reporting.gtidManager.file = terminated '\n' (feed.saved.map serialize)
  firstEntry : reporting.gtidManager.firstEntryAfterRestarted = false
  table : reporting.table.ofInstance setting.key.instanceName = feed.stored

variable {setting} {reporting : Reporting} {feed : Feed.State GtidSeq}

section Represents

variable (hfeed : Represents setting reporting feed)

include hfeed

theorem boundary_eq_cursor :
    (reporting.table.getInstanceBoundaryGtidSeq
      setting.key.instanceName).2.commitVersionStart =
        Feed.cursor commitVersionStart feed.stored := by
  rw [getInstanceBoundaryGtidSeq, hfeed.table]
  cases hgreatest : feed.stored.argmax commitVersionStart with
  | none =>
    rw [argmax_eq_none.mp hgreatest]
    rfl
  | some greatest =>
    apply le_antisymm
    · exact Feed.le_cursor (argmax_mem hgreatest)
    · exact Feed.cursor_le fun gtidSeq hmem => le_of_mem_argmax hmem hgreatest

theorem Represents.save {gtidSeq : GtidSeq}
    (hcached : ∀ other ∈ feed.saved, other.commitVersionStart ≤ gtidSeq.commitVersionStart ∧
      gtidSeq.commitVersionStart < other.commitVersionStart + setting.config.gtidMemoryCacheSeconds)
    (hwritable : gtidSeq.Writable) (limit : ℕ) :
    Represents setting (step setting reporting (.save gtidSeq))
      (Feed.step commitVersionStart limit feed (.save gtidSeq)) := by
  have hskips : reporting.gtidManager.skips gtidSeq = false := by
    rw [GtidManager.skips, hfeed.firstEntry, Bool.false_and]
  have hrecent : (reporting.gtidManager.gtidSeqSet.dropWhile fun entry =>
      ¬subUint64 gtidSeq.commitVersionStart entry.1 < setting.config.gtidMemoryCacheSeconds) =
        reporting.gtidManager.gtidSeqSet := by
    rw [hfeed.gtidSeqSet]
    cases hsaved : feed.saved with
    | nil => rfl
    | cons first saved =>
      obtain ⟨hle, hlt⟩ := hcached first (by rw [hsaved]; exact mem_cons_self)
      have hbound := hwritable.commitVersion_le
      have hmax : maxCommitVersion < 2 ^ 64 := by decide
      have hdifference := subUint64_of_le hle (hbound.trans_lt hmax)
      rw [map_cons, dropWhile_cons_of_neg]
      simp only [decide_eq_true_eq, not_not]
      omega
  have hsave : reporting.gtidManager.saveGtidSeq setting.config gtidSeq =
      { reporting.gtidManager with
        gtidSeqSet := reporting.gtidManager.gtidSeqSet ++
          [(gtidSeq.commitVersionStart, gtidSeq.serialize)]
        file := reporting.gtidManager.file ++ (gtidSeq.serialize ++ ['\n'])
        firstEntryAfterRestarted := false } := by
    rw [GtidManager.saveGtidSeq, hskips, if_neg Bool.false_ne_true]
    simp only [hrecent]
  refine ⟨?_, ?_, ?_, hfeed.table⟩
  · simp [step, hsave, Feed.step, hfeed.gtidSeqSet]
  · simp [step, hsave, Feed.step, hfeed.file]
  · simp [step, hsave]

/-- The lines in memory and those of the file are the same. -/
theorem Represents.fileEntries (hwritable : ∀ gtidSeq ∈ feed.saved, gtidSeq.Writable) :
    reporting.gtidManager.fileEntries = reporting.gtidManager.gtidSeqSet := by
  rw [GtidManager.fileEntries, hfeed.file, hfeed.gtidSeqSet, getLines_terminated, map_map]
  · refine map_congr_left fun gtidSeq hmem => ?_
    rw [Function.comp_apply, (hwritable gtidSeq hmem).deserialize_serialize]
  · simp only [forall_mem_map]
    exact fun gtidSeq hmem hnewline => ((hwritable gtidSeq hmem).mem_serialize hnewline).1 rfl

/-- The answer holds the first of the pending checkpoints, one more than the limit. -/
theorem Represents.answer (hwritable : ∀ gtidSeq ∈ feed.saved, gtidSeq.Writable) (limit : ℕ) :
    reporting.gtidManager.getInstanceIncrGtidsString limit
        (Feed.cursor commitVersionStart feed.stored) =
      (terminated '|' (((Feed.pending commitVersionStart feed).take (limit + 1)).map
        serialize)).dropLast := by
  have hloop := @incrLoop_eq limit (Feed.cursor commitVersionStart feed.stored)
    reporting.gtidManager.gtidSeqSet 0 (Nat.zero_le _)
  rw [hfeed.gtidSeqSet, filter_map, ← map_take, map_map] at hloop
  rw [GtidManager.getInstanceIncrGtidsString]
  split
  · rename_i hempty
    rw [hfeed.gtidSeqSet, map_eq_nil_iff] at hempty
    rw [Feed.pending, hempty]
    rfl
  · simp only [hfeed.fileEntries hwritable, ite_self, hfeed.gtidSeqSet, hloop]
    rfl

end Represents

theorem updateInstanceGtidSeq_unpurged (table : GtidSeqTable) (maxDeleteRows : ℕ)
    (key : InstanceKey) (heartbeat : ℕ) (boundary : GtidSeq × GtidSeq) (answer : Text) :
    table.updateInstanceGtidSeq maxDeleteRows key heartbeat boundary 0 0 answer =
      table.addIncrGtidSeqs key boundary answer := by
  rw [updateInstanceGtidSeq, removePurgedCheckpoints,
    if_neg fun hpurged => Nat.not_lt_zero _ hpurged.1, removePurgedGtids,
    if_neg (Nat.not_lt_zero _)]

/-- The table takes checkpoints beyond its greatest commit second. -/
theorem addIncrGtidSeqs_eq {table : GtidSeqTable} {key : InstanceKey}
    {boundary : GtidSeq × GtidSeq} {batch : List GtidSeq}
    (hreportable : ∀ gtidSeq ∈ batch, Reportable gtidSeq)
    (hbeyond : ∀ gtidSeq ∈ batch, boundary.2.commitVersionStart < gtidSeq.commitVersionStart) :
    table.addIncrGtidSeqs key boundary
        (terminated '|' (batch.map serialize)).dropLast =
      table ++ batch.map fun gtidSeq => ⟨gtidSeq, key⟩ := by
  cases batch with
  | nil => simp [addIncrGtidSeqs]
  | cons first batch =>
    have hread := deserializeGtidSeqStr_eq key (cons_ne_nil first batch) hreportable
    rw [addIncrGtidSeqs, if_neg, hread]
    · simp only [map_cons, if_pos (hbeyond first mem_cons_self)]
      rfl
    · intro hempty
      rw [hempty] at hread
      cases hread

theorem Represents.report (hfeed : Represents setting reporting feed)
    (hreportable : ∀ gtidSeq ∈ feed.saved, Reportable gtidSeq) :
    Represents setting (step setting reporting .report)
      (Feed.step commitVersionStart (setting.maxIncrGtidSeqsNum + 1) feed .report) := by
  have hcursor := boundary_eq_cursor hfeed
  have hbatch : ∀ gtidSeq ∈ (Feed.pending commitVersionStart feed).take
      (setting.maxIncrGtidSeqsNum + 1), gtidSeq ∈ Feed.pending commitVersionStart feed :=
    fun gtidSeq hmem => take_subset _ _ hmem
  refine ⟨hfeed.gtidSeqSet, hfeed.file, hfeed.firstEntry, ?_⟩
  simp only [step]
  rw [updateInstanceGtidSeq_unpurged, hcursor,
    hfeed.answer fun gtidSeq hmem => (hreportable gtidSeq hmem).toWritable,
    addIncrGtidSeqs_eq]
  · have htable := hfeed.table
    rw [ofInstance] at htable ⊢
    rw [filter_append, map_append, htable, filter_eq_self.mpr, map_map]
    · exact congrArg (feed.stored ++ ·) (map_id _)
    · rw [forall_mem_map]
      exact fun gtidSeq _ => decide_eq_true rfl
  · exact fun gtidSeq hmem => hreportable gtidSeq (mem_filter.mp (hbatch gtidSeq hmem)).1
  · intro gtidSeq hmem
    rw [hcursor]
    exact Feed.cursor_lt_of_mem_pending (hbatch gtidSeq hmem)

/-- The instance and the table stay a feed as long as everything that is saved is kept in
memory. -/
theorem Represents.run (hfeed : Represents setting reporting feed)
    {steps : List (Feed.Step GtidSeq)}
    (hreportable : ∀ gtidSeq ∈ feed.saved ++ Feed.saves steps, Reportable gtidSeq)
    (hsorted : (feed.saved ++ Feed.saves steps).Pairwise fun left right =>
      left.commitVersionStart ≤ right.commitVersionStart)
    (hcached : ∀ left ∈ feed.saved ++ Feed.saves steps, ∀ right ∈ feed.saved ++ Feed.saves steps,
      right.commitVersionStart <
        left.commitVersionStart + setting.config.gtidMemoryCacheSeconds) :
    Represents setting (Reporting.run setting reporting steps)
      (Feed.run commitVersionStart (setting.maxIncrGtidSeqsNum + 1) feed steps) := by
  induction steps generalizing reporting feed with
  | nil => exact hfeed
  | cons first steps ih =>
    cases first with
    | save gtidSeq =>
      have hsaves : (Feed.step commitVersionStart (setting.maxIncrGtidSeqsNum + 1) feed
          (.save gtidSeq)).saved ++ Feed.saves steps =
            feed.saved ++ Feed.saves (.save gtidSeq :: steps) :=
        append_assoc feed.saved [gtidSeq] (Feed.saves steps)
      have hmem : gtidSeq ∈ feed.saved ++ Feed.saves (.save gtidSeq :: steps) :=
        mem_append_right _ mem_cons_self
      refine ih (hfeed.save ?_ (hreportable gtidSeq hmem).toWritable _) ?_ ?_ ?_
      · intro other hother
        exact ⟨(pairwise_append.mp hsorted).2.2 other hother gtidSeq mem_cons_self,
          hcached other (mem_append_left _ hother) gtidSeq hmem⟩
      · rwa [hsaves]
      · rwa [hsaves]
      · rwa [hsaves]
    | report =>
      exact ih (hfeed.report fun gtidSeq hmem =>
        hreportable gtidSeq (mem_append_left _ hmem)) hreportable hsorted hcached

end Reporting

open Reporting

def sampleSetting : ReportSetting where
  config := {}
  maxIncrGtidSeqsNum := 1
  maxDeleteRows := 1000
  key := ⟨['c'], ['t'], ['i']⟩
  heartbeat := 0

def sampleSeq (gtid : ℕ) : GtidSeq :=
  ⟨10, ['x'], gtid, 1⟩

theorem reportable_sampleSeq : Reportable (sampleSeq 7) := by
  refine ⟨⟨⟨by decide, by decide, ?_⟩, by decide, by decide⟩, by decide⟩
  intro char hchar
  rw [mem_singleton.mp hchar]
  exact ⟨by decide, by decide, by decide⟩

def splitSecond : List (Feed.Step GtidSeq) :=
  [.save (sampleSeq 7), .report, .save (sampleSeq 8)]

theorem step_splitSecond :
    step sampleSetting (run sampleSetting { table := [] } splitSecond) .report =
      run sampleSetting { table := [] } splitSecond := by
  have htable : (step sampleSetting
      (run sampleSetting { table := [] } splitSecond) .report).table =
        (run sampleSetting { table := [] } splitSecond).table := by
    decide +kernel
  exact congrArg (fun table =>
    { run sampleSetting { table := [] } splitSecond with table }) htable

end OblogProxy.Cluster
