import OblogProxy.Core.Runs
import OblogProxy.Recovery.GtidCheckpoints
import OblogProxy.Recovery.LastValidLine

/-!
# The sequence of saved checkpoints

One thread marks transactions and heartbeats and compresses each of them at once.  What is
appended to the file is in order, the memory holds the end of the file, and each transaction
is counted in one entry.  A new start reads the file again; from then on entries are skipped
until one is later than the last line in memory.
-/

namespace OblogProxy.Recovery

open Blocks Gtid GtidManager Lines Runs GtidSeq List Marking

/-- A transaction or a heartbeat is marked and compressed, or the manager starts again on its
file, where the latest mapping is the one of the index. -/
inductive SequenceCall
  | trx (trx : MarkedTrx)
  | heartbeat (checkpoint : ℕ)
  | restart (now startTimestamp : ℕ) (trxMapping : Text × ℕ)

/-- The manager, the latest mapping, the latest time that was marked since the start, and all
entries that were appended to the file.  Since the start `marked` transactions were marked,
`covered` of them up to the last entry in `compressions`, the entries saved by the compression
rule; `lost` of them were counted in skipped entries. -/
structure SavedSequence where
  manager : GtidManager := {}
  latest : Text × ℕ := ([], 0)
  time : ℕ := 0
  entries : List GtidSeq := []
  marked : ℕ := 0
  compressions : List GtidSeq := []
  covered : ℕ := 0
  lost : ℕ := 0

namespace SavedSequence

def mark (config : GtidConfig) (sequence : SavedSequence) : SequenceCall → SavedSequence
  | .trx trx =>
    { sequence with
      manager := sequence.manager.markEvent config false trx.checkpoint trx.mapping
      latest := trx.mapping
      time := trx.checkpoint
      marked := sequence.marked + 1 }
  | .heartbeat checkpoint =>
    { sequence with
      manager := sequence.manager.markEvent config true checkpoint sequence.latest
      time := max sequence.time checkpoint }
  | .restart .. => sequence

/-- The entries that `compress_and_save_gtid_seq` appends to the file. -/
def appended (config : GtidConfig) (sequence : SavedSequence) : List GtidSeq :=
  sequence.manager.stored config (savedBy config sequence.manager sequence.latest)

/-- The compressed entry is skipped, behind the marked ones. -/
def skipsCompression (config : GtidConfig) (sequence : SavedSequence) (entry : GtidSeq) : Bool :=
  (sequence.manager.saveAll config sequence.manager.gtidCheckpointSet).skips entry

def compress (config : GtidConfig) (sequence : SavedSequence) : SavedSequence :=
  let after : SavedSequence :=
    { sequence with
      manager := sequence.manager.compressAndSaveGtidSeq config sequence.latest
      entries := sequence.entries ++ sequence.appended config }
  match sequence.manager.compressed config sequence.latest with
  | none => after
  | some entry =>
    if sequence.skipsCompression config entry then
      { after with lost := sequence.lost + entry.trxsNum }
    else
      { after with
        compressions := sequence.compressions ++ [entry]
        covered := sequence.marked }

def step (config : GtidConfig) (sequence : SavedSequence) : SequenceCall → SavedSequence
  | .restart now startTimestamp trxMapping =>
    { manager :=
        { initGtidSeq config now sequence.manager.file with
          lastSavedCommitVersionHigh := startTimestamp }
      latest := trxMapping
      entries := sequence.entries }
  | call => (sequence.mark config call).compress config

/-- Since the last start numbers increase and no transaction is earlier than another one or a
heartbeat before it. -/
def Allows (sequence : SavedSequence) : SequenceCall → Prop
  | .trx trx =>
    sequence.time ≤ trx.checkpoint ∧ trx.checkpoint < 2 ^ 64 ∧
      sequence.latest.2 < trx.gtid ∧ trx.gtid < 2 ^ 63 ∧
      ∀ char ∈ trx.xid, GtidSeq.FieldChar char
  | .heartbeat checkpoint => checkpoint < 2 ^ 64
  | .restart _ _ trxMapping =>
    trxMapping.2 < 2 ^ 63 ∧ ∀ char ∈ trxMapping.1, GtidSeq.FieldChar char

/-- Entries are in order, the memory is the end of the file, and the entries since the last
start count the transactions. -/
structure Complete (sequence : SavedSequence) : Prop where
  versions : sequence.entries.Pairwise fun earlier later =>
    earlier.commitVersionStart ≤ later.commitVersionStart
  gtids : sequence.entries.Pairwise fun earlier later => earlier.gtidStart ≤ later.gtidStart
  suffix : sequence.manager.gtidSeqSet <:+ sequence.manager.fileEntries
  total : (sequence.compressions.map trxsNum).sum = sequence.covered

/-- What a compression has to meet: the first entry since a start is not numbered below the
last one in the file (nor earlier, where no line in memory makes sure of that); no transaction
was counted in a skipped entry when a compressed one is saved; and the clean-up leaves the
lines in the file that are in memory. -/
@[mk_iff]
structure Continues (config : GtidConfig) (sequence : SavedSequence) : Prop where
  inOrder : sequence.manager.firstEntryAfterRestarted = true →
    ∀ entry ∈ sequence.appended config, ∀ last ∈ sequence.entries.getLast?,
      last.gtidStart ≤ entry.gtidStart ∧
        (sequence.manager.gtidSeqSet = [] → last.commitVersionStart ≤ entry.commitVersionStart)
  nothingLost : ∀ entry ∈ sequence.manager.compressed config sequence.latest,
    sequence.skipsCompression config entry = false → sequence.lost = 0
  stillFiled : ∀ entry ∈ (sequence.compress config).manager.gtidSeqSet,
    entry ∈ (sequence.compress config).manager.fileEntries

instance (config : GtidConfig) (sequence : SavedSequence) :
    Decidable (sequence.Continues config) :=
  decidable_of_iff _ (continues_iff config sequence).symm

def CallContinues (config : GtidConfig) (sequence : SavedSequence) : SequenceCall → Prop
  | .restart .. => True
  | call => (sequence.mark config call).Continues config

end SavedSequence

open SavedSequence

section Starting

variable {manager : GtidManager} {saved lines : List GtidSeq} {config : GtidConfig}

theorem FileOf.seenLines (hfile : FileOf manager saved lines) :
    seenLines (Lines.getLines '\n' manager.file) = lines.map serialize := by
  rw [hfile.getLines]
  cases lines with
  | nil => rfl
  | cons first later =>
    have hne : first.serialize ≠ [] := by simp [serialize]
    obtain ⟨char, text, htext⟩ := exists_cons_of_ne_nil hne
    rw [map_cons, htext]
    rfl

theorem validLine_serialize_iff {gtidSeq : GtidSeq} (hreadable : gtidSeq.Readable) :
    ValidLine gtidSeq.serialize ↔ gtidSeq.commitVersionStart ≠ 0 := by
  rw [ValidLine, hreadable.split_serialize, commitVersion_serialize hreadable]
  exact and_iff_right rfl

/-- The last line of a sorted file is the last valid one, or none has a commit version. -/
theorem FileOf.readLastValid (hfile : FileOf manager saved lines) :
    (readLastValidGtidSeq manager.file).commitVersionStart =
      (lines.getLast?.map commitVersionStart).getD 0 := by
  have hlast := isLastValid_readLastValidGtidSeq manager.file
  rw [hfile.seenLines, IsLastValid] at hlast
  rcases eq_nil_or_concat' lines with rfl | ⟨front, last, rfl⟩
  · exact hlast
  · have hreadable := hfile.readable last (by simp)
    rw [getLast?_concat, Option.map_some, Option.getD_some]
    by_cases hzero : last.commitVersionStart = 0
    · have hnone : ((front ++ [last]).map serialize).filter (fun line => ValidLine line) =
          [] := by
        rw [filter_eq_nil_iff, forall_mem_map]
        intro gtidSeq hmem
        have hle := hfile.sorted.le_last (getLast?_concat ..) gtidSeq hmem
        rw [decide_eq_true_eq, validLine_serialize_iff (hfile.readable gtidSeq hmem)]
        omega
      rw [hnone] at hlast
      exact hlast.trans hzero.symm
    · have hvalid := (validLine_serialize_iff hreadable).mpr hzero
      rw [map_append, filter_append, map_singleton,
        filter_cons_of_pos (by simpa using hvalid), filter_nil,
        getLast?_concat] at hlast
      rw [hlast, hreadable.deserialize_serialize]

theorem gtidSeqSet_foldl_initLine (lastCheckpoint : ℕ)
    (hreadable : ∀ gtidSeq ∈ lines, gtidSeq.Readable) (state : GtidSeq × GtidManager) :
    ((lines.map serialize).foldl (initLine config lastCheckpoint)
        state).2.gtidSeqSet =
      state.2.gtidSeqSet ++ (lines.filter fun gtidSeq =>
        subUint64 lastCheckpoint gtidSeq.commitVersionStart <
          config.gtidMemoryCacheSeconds).map gtidEntry := by
  induction lines generalizing state with
  | nil => simp
  | cons gtidSeq lines ih =>
    obtain ⟨hfirst, hlines⟩ := forall_mem_cons.mp hreadable
    rw [map_cons, foldl_cons, ih hlines, initLine, hfirst.deserialize_serialize]
    by_cases hrecent : subUint64 lastCheckpoint gtidSeq.commitVersionStart <
        config.gtidMemoryCacheSeconds
    · rw [if_pos hrecent, filter_cons_of_pos (by simpa using hrecent), map_cons, append_assoc]
      rfl
    · rw [if_neg hrecent, filter_cons_of_neg (by simpa using hrecent)]

/-- The commit version that the lines in memory are compared with. -/
def lastCheckpoint (now : ℕ) (lines : List GtidSeq) : ℕ :=
  let version := (lines.getLast?.map commitVersionStart).getD 0
  if version = 0 then now else version

theorem FileOf.gtidSeqSet_init (hfile : FileOf manager saved lines) (config : GtidConfig)
    (now : ℕ) :
    (initGtidSeq config now manager.file).gtidSeqSet =
      (lines.filter fun gtidSeq =>
        subUint64 (lastCheckpoint now lines) gtidSeq.commitVersionStart <
          config.gtidMemoryCacheSeconds).map gtidEntry := by
  rw [initGtidSeq, hfile.readLastValid, hfile.getLines]
  exact gtidSeqSet_foldl_initLine _ hfile.readable _

theorem FileOf.init_isSuffix (hfile : FileOf manager saved lines) (config : GtidConfig) (now : ℕ) :
    (initGtidSeq config now manager.file).gtidSeqSet <:+ manager.fileEntries := by
  rw [hfile.gtidSeqSet_init, hfile.fileEntries]
  refine List.IsSuffix.map gtidEntry (filter_isSuffix ?_)
  rcases eq_nil_or_concat' lines with rfl | ⟨front, last, rfl⟩
  · exact List.Pairwise.nil
  have hle := hfile.sorted.le_last (getLast?_concat ..)
  refine hfile.sorted.imp_of_mem fun {left right} hleft hright horder => ?_
  rw [decide_eq_true_eq, decide_eq_true_eq, lastCheckpoint, getLast?_concat]
  dsimp only [Option.map_some, Option.getD_some]
  have hleftLe := hle left hleft
  have hrightLe := hle right hright
  split_ifs with hzero
  · rw [show left.commitVersionStart = right.commitVersionStart by omega]
    exact id
  · have hlt : last.commitVersionStart < 2 ^ 64 :=
      (hfile.readable last (by simp)).commitVersion_le.trans_lt (by decide)
    rw [subUint64_of_le hleftLe hlt, subUint64_of_le hrightLe hlt]
    omega

/-- Unless the cache is switched off, a start keeps the last line that has a commit version. -/
theorem FileOf.init_eq_nil (hfile : FileOf manager saved lines) {now : ℕ}
    (hempty : (initGtidSeq config now manager.file).gtidSeqSet = []) :
    config.gtidMemoryCacheSeconds = 0 ∨ ∀ last ∈ lines.getLast?, last.commitVersionStart = 0 := by
  rw [hfile.gtidSeqSet_init, map_eq_nil_iff, filter_eq_nil_iff] at hempty
  by_contra! hnot
  obtain ⟨hcache, last, hlast, hversion⟩ := hnot
  have hnone := hempty last (mem_of_getLast? hlast)
  have hlt : last.commitVersionStart < 2 ^ 64 :=
    (hfile.readable last (mem_of_getLast? hlast)).commitVersion_le.trans_lt (by decide)
  rw [decide_eq_true_eq, lastCheckpoint, Option.mem_def.mp hlast] at hnone
  dsimp only [Option.map_some, Option.getD_some] at hnone
  rw [if_neg hversion, subUint64_of_le le_rfl hlt] at hnone
  omega

/-- A start sets nothing but the lines in memory and where the file begins. -/
theorem foldl_initLine_eq (lastCheckpoint : ℕ) (lines : List Text) (state : GtidSeq × GtidManager) :
    ∃ gtidSeqSet lastCheckpointPurged,
      (lines.foldl (initLine config lastCheckpoint) state).2 =
        { state.2 with gtidSeqSet, lastCheckpointPurged } := by
  induction lines generalizing state with
  | nil => exact ⟨_, _, rfl⟩
  | cons line lines ih => exact ih (initLine config lastCheckpoint state line)

theorem initGtidSeq_eq (config : GtidConfig) (now : ℕ) (file : Text) :
    ∃ gtidSeqSet lastCheckpointPurged, initGtidSeq config now file =
      { file, gtidSeqSet, firstEntryAfterRestarted := true, lastCheckpointPurged } := by
  rw [initGtidSeq]
  obtain ⟨gtidSeqSet, lastCheckpointPurged, heq⟩ := foldl_initLine_eq _ _ _
  exact ⟨gtidSeqSet, lastCheckpointPurged, by rw [heq]⟩

end Starting

variable {last : GtidSeq}

section Saving

variable {manager : GtidManager} {config : GtidConfig}

/-- What saving some entries does, of which these were not skipped. -/
structure Saves (manager after : GtidManager) (stored : List GtidSeq) : Prop where
  file_eq : after.file = manager.file ++ terminated '\n' (stored.map serialize)
  suffix : after.gtidSeqSet <:+ manager.gtidSeqSet ++ stored.map gtidEntry
  newest : ∀ last ∈ stored.getLast?, after.gtidSeqSet.getLast? = some (gtidEntry last)
  unchanged : stored = [] → after.gtidSeqSet = manager.gtidSeqSet
  started : after.firstEntryAfterRestarted =
    (manager.firstEntryAfterRestarted && stored.isEmpty)

theorem saves_saveAll (config : GtidConfig) (manager : GtidManager) (entries : List GtidSeq) :
    Saves manager (manager.saveAll config entries) (manager.stored config entries) := by
  induction entries generalizing manager with
  | nil =>
    refine ⟨by simp [saveAll, stored], ?_, ?_, fun _ => rfl, ?_⟩
    · simp [saveAll, stored]
    · simp [stored]
    · simp [saveAll, stored]
  | cons entry entries ih =>
    rw [saveAll, foldl_cons, stored]
    cases hskips : manager.skips entry with
    | true =>
      have hsame : manager.saveGtidSeq config entry = manager := by
        rw [saveGtidSeq, if_pos hskips]
      rw [hsame]
      exact ih manager
    | false =>
      rw [if_neg Bool.false_ne_true]
      obtain ⟨old, recent, hsplit, hset, hfile, hstarted⟩ :=
        saveGtidSeq_eq config hskips
      obtain ⟨hfileRest, hsuffix, hnewest, hunchanged, hstartedRest⟩ :=
        ih (manager.saveGtidSeq config entry)
      change Saves manager ((manager.saveGtidSeq config entry).saveAll config entries) _
      refine ⟨?_, ?_, ?_, fun hnone => absurd hnone (cons_ne_nil _ _), ?_⟩
      · rw [hfileRest, hfile]
        simp
      · refine hsuffix.trans ⟨old, ?_⟩
        rw [hset, hsplit]
        simp
      · intro last hlast
        rcases eq_nil_or_concat' ((manager.saveGtidSeq config entry).stored config
          entries) with hnone | ⟨front, newest, hstored⟩
        · rw [hnone] at hlast
          have hentry : entry = last := Option.some.inj hlast
          rw [hunchanged hnone, hset, getLast?_concat, hentry]
        · refine hnewest last ?_
          rw [hstored, ← cons_append, getLast?_concat] at hlast
          rwa [hstored, getLast?_concat]
      · rw [hstartedRest, hstarted]
        simp

/-- The first entry that is saved after a start is later than the last line in memory. -/
theorem lt_of_mem_stored {entries : List GtidSeq} {version : ℕ}
    (hversion : ∀ entry ∈ entries, entry.commitVersionStart = version)
    (hfirst : manager.firstEntryAfterRestarted = true)
    (hlast : manager.getLatestGtidSeq = some last) (hstored : manager.stored config entries ≠ []) :
    last.commitVersionStart < version := by
  induction entries with
  | nil => exact absurd rfl hstored
  | cons entry entries ih =>
    obtain ⟨hentry, hentries⟩ := forall_mem_cons.mp hversion
    rw [stored] at hstored
    cases hskips : manager.skips entry with
    | true =>
      have hsame : manager.saveGtidSeq config entry = manager := by
        rw [saveGtidSeq, if_pos hskips]
      rw [hsame, hskips] at hstored
      exact ih hentries hstored
    | false =>
      rw [skips, hfirst, hlast] at hskips
      simpa [hentry] using hskips

end Saving

namespace SavedSequence

variable {config : GtidConfig} {sequence : SavedSequence}

/-- Whatever is saved next, this entry is not behind it. -/
structure Precedes (sequence : SavedSequence) (last : GtidSeq) : Prop where
  time : last.commitVersionStart ≤ sequence.time / 1000000
  counting : 0 < sequence.manager.nofTrx →
    last.commitVersionStart ≤ sequence.manager.currTrxCheckpoint
  settled : sequence.manager.nofTrx = 0 →
    last.commitVersionStart ≤ sequence.manager.lastSavedCommitVersionHigh
  gtid : last.gtidStart ≤ sequence.latest.2

/-- The file is made of the entries, the counters belong to what was marked, and the last entry
is known from the session or from the memory. -/
structure Inv (config : GtidConfig) (sequence : SavedSequence) : Prop where
  file : ∃ lines, FileOf sequence.manager sequence.entries lines
  gtid_lt : sequence.latest.2 < 2 ^ 63
  xid : ∀ char ∈ sequence.latest.1, GtidSeq.FieldChar char
  time_lt : sequence.time < 2 ^ 64
  currTrx_le : sequence.manager.currTrxCheckpoint ≤ sequence.time / 1000000
  currHb_le : sequence.manager.currHbCheckpoint ≤ sequence.time / 1000000
  settled : sequence.manager.nofTrx = 0 →
    sequence.manager.currTrxCheckpoint ≤ sequence.manager.lastSavedCommitVersionHigh
  counts : sequence.marked = (sequence.compressions.map trxsNum).sum + sequence.lost +
    sequence.manager.nofTrx
  session : sequence.manager.firstEntryAfterRestarted = false →
    ∀ last ∈ sequence.entries.getLast?, sequence.Precedes last
  newest : ∀ cached ∈ sequence.manager.gtidSeqSet.getLast?, ∀ last ∈ sequence.entries.getLast?,
    last.commitVersionStart ≤ cached.1
  nothingCached : sequence.manager.gtidSeqSet = [] → config.gtidMemoryCacheSeconds = 0 ∨
    ∀ last ∈ sequence.entries.getLast?, last.commitVersionStart = 0

/-- Between two calls. -/
structure Kept (config : GtidConfig) (sequence : SavedSequence) : Prop
    extends Inv config sequence where
  unmarked : sequence.manager.gtidCheckpointSet = []

/-- Behind the marking of a call. -/
structure Marked (config : GtidConfig) (sequence : SavedSequence) : Prop
    extends Inv config sequence where
  checkpoints : ∀ entry ∈ sequence.manager.gtidCheckpointSet,
    entry = ⟨sequence.manager.currTrxCheckpoint, sequence.latest.1, sequence.latest.2, 0⟩ ∧
      0 < sequence.manager.nofTrx

theorem kept_start (config : GtidConfig) : Kept config {} where
  file := ⟨[], rfl, by simp, by simp, List.Pairwise.nil⟩
  gtid_lt := by decide
  xid := by simp
  time_lt := by decide
  currTrx_le := by decide
  currHb_le := by decide
  settled := fun _ => le_rfl
  counts := rfl
  session := by simp
  newest := by simp
  nothingCached := by simp
  unmarked := rfl

theorem complete_start : Complete {} :=
  ⟨List.Pairwise.nil, List.Pairwise.nil, suffix_refl _, rfl⟩

theorem Kept.markTrx (hkept : Kept config sequence) {trx : MarkedTrx}
    (hallows : sequence.Allows (.trx trx)) : Marked config (sequence.mark config (.trx trx)) := by
  obtain ⟨htime, hlt, hgtid, hgtidLt, hchars⟩ := hallows
  have hsecond : sequence.time / 1000000 ≤ trx.checkpoint / 1000000 := Nat.div_le_div_right htime
  refine
    { file := hkept.file.imp fun lines hfile =>
        ⟨hfile.file_eq, hfile.readable, hfile.saved, hfile.sorted⟩
      gtid_lt := hgtidLt
      xid := hchars
      time_lt := hlt
      currTrx_le := le_rfl
      currHb_le := hkept.currHb_le.trans hsecond
      settled := fun hnone => absurd hnone (Nat.succ_ne_zero _)
      counts := ?_
      session := ?_
      newest := hkept.newest
      nothingCached := hkept.nothingCached
      checkpoints := ?_ }
  · change sequence.marked + 1 = _ + _ + (sequence.manager.nofTrx + 1)
    rw [hkept.counts]
    rfl
  · intro hstarted last hlast
    obtain ⟨hlastTime, -, -, hlastGtid⟩ := hkept.session hstarted last hlast
    exact ⟨hlastTime.trans hsecond, fun _ => hlastTime.trans hsecond,
      fun hnone => absurd hnone (Nat.succ_ne_zero _), hlastGtid.trans hgtid.le⟩
  · intro entry hentry
    have hset : (sequence.mark config (.trx trx)).manager.gtidCheckpointSet =
        if trx.gtid % config.gtidMarkingStepSize = 0 then
          [⟨trx.checkpoint / 1000000, trx.xid, trx.gtid, 0⟩]
        else [] := by
      change (if _ then _ else _) = _
      rw [hkept.unmarked]
      rfl
    rw [hset, mem_ite_nil_right, mem_singleton] at hentry
    exact ⟨hentry.2, Nat.succ_pos _⟩

theorem Kept.markHeartbeat (hkept : Kept config sequence) {checkpoint : ℕ}
    (hlt : checkpoint < 2 ^ 64) :
    Marked config (sequence.mark config (.heartbeat checkpoint)) := by
  have hbefore : sequence.time / 1000000 ≤ max sequence.time checkpoint / 1000000 :=
    Nat.div_le_div_right (le_max_left _ _)
  exact
    { file := hkept.file.imp fun lines hfile =>
        ⟨hfile.file_eq, hfile.readable, hfile.saved, hfile.sorted⟩
      gtid_lt := hkept.gtid_lt
      xid := hkept.xid
      time_lt := max_lt hkept.time_lt hlt
      currTrx_le := hkept.currTrx_le.trans hbefore
      currHb_le := Nat.div_le_div_right (le_max_right _ _)
      settled := hkept.settled
      counts := hkept.counts
      session := fun hstarted last hlast =>
        let hprecedes := hkept.session hstarted last hlast
        ⟨hprecedes.time.trans hbefore, hprecedes.counting, hprecedes.settled, hprecedes.gtid⟩
      newest := hkept.newest
      nothingCached := hkept.nothingCached
      checkpoints := fun entry hentry =>
        absurd (hkept.unmarked ▸ hentry : entry ∈ []) not_mem_nil }

theorem Complete.mark (hcomplete : sequence.Complete) (config : GtidConfig)
    (call : SequenceCall) : (sequence.mark config call).Complete := by
  cases call with
  | trx trx => exact ⟨hcomplete.versions, hcomplete.gtids, hcomplete.suffix, hcomplete.total⟩
  | heartbeat checkpoint =>
    exact ⟨hcomplete.versions, hcomplete.gtids, hcomplete.suffix, hcomplete.total⟩
  | restart now startTimestamp trxMapping => exact hcomplete

section Compressing

variable (config sequence)

/-- Besides the manager and the entries, only what was counted changes. -/
theorem compress_eq : ∃ compressions covered lost, sequence.compress config =
    { sequence with
      manager := sequence.manager.compressAndSaveGtidSeq config sequence.latest
      entries := sequence.entries ++ sequence.appended config
      compressions, covered, lost } := by
  unfold compress
  split
  · exact ⟨_, _, _, rfl⟩
  · split_ifs
    · exact ⟨_, _, _, rfl⟩
    · exact ⟨_, _, _, rfl⟩

@[simp]
theorem compress_manager : (sequence.compress config).manager =
    sequence.manager.compressAndSaveGtidSeq config sequence.latest := by
  obtain ⟨compressions, covered, lost, heq⟩ := sequence.compress_eq config
  rw [heq]

@[simp]
theorem compress_entries :
    (sequence.compress config).entries = sequence.entries ++ sequence.appended config := by
  obtain ⟨compressions, covered, lost, heq⟩ := sequence.compress_eq config
  rw [heq]

@[simp]
theorem compress_latest : (sequence.compress config).latest = sequence.latest := by
  obtain ⟨compressions, covered, lost, heq⟩ := sequence.compress_eq config
  rw [heq]

@[simp]
theorem compress_time : (sequence.compress config).time = sequence.time := by
  obtain ⟨compressions, covered, lost, heq⟩ := sequence.compress_eq config
  rw [heq]

@[simp]
theorem compress_marked : (sequence.compress config).marked = sequence.marked := by
  obtain ⟨compressions, covered, lost, heq⟩ := sequence.compress_eq config
  rw [heq]

end Compressing

variable {entry : GtidSeq}

theorem trxsNum_compressed
    (hentry : sequence.manager.compressed config sequence.latest = some entry) :
    entry.trxsNum = sequence.manager.nofTrx := by
  unfold compressed at hentry
  split_ifs at hentry
  · obtain rfl := Option.some.inj hentry
    rfl
  · obtain rfl := Option.some.inj hentry
    rfl

/-- The second of all entries that a call saves. -/
def nextVersion (sequence : SavedSequence) : ℕ :=
  if 0 < sequence.manager.nofTrx then sequence.manager.currTrxCheckpoint
  else sequence.manager.currHbCheckpoint

theorem Marked.savedBy (hmarked : Marked config sequence) :
    ∀ entry ∈ savedBy config sequence.manager sequence.latest,
      entry.commitVersionStart = sequence.nextVersion ∧ entry.gtidStart = sequence.latest.2 ∧
        entry.Readable := by
  have hmax := second_le_maxCommitVersion hmarked.time_lt
  have hcurrTrx := hmarked.currTrx_le.trans hmax
  have hcurrHb := hmarked.currHb_le.trans hmax
  intro entry hentry
  rw [nextVersion]
  rcases mem_append.mp hentry with hcheckpoint | hcompressed
  · obtain ⟨rfl, hpos⟩ := hmarked.checkpoints entry hcheckpoint
    rw [if_pos hpos]
    exact ⟨rfl, rfl, hcurrTrx, hmarked.gtid_lt, hmarked.xid⟩
  · obtain ⟨-, hgtid, hsome, hnone⟩ :=
      compressed_eq_some (Option.mem_toList.mp hcompressed)
    rcases Nat.eq_zero_or_pos sequence.manager.nofTrx with hzero | hpos
    · obtain ⟨hsecond, hxid⟩ := hnone hzero
      rw [if_neg (by omega)]
      exact ⟨hsecond, hgtid, hsecond.trans_le hcurrHb, hgtid ▸ hmarked.gtid_lt, by simp [hxid]⟩
    · obtain ⟨hsecond, hxid⟩ := hsome hpos
      rw [if_pos hpos]
      exact ⟨hsecond, hgtid, hsecond.trans_le hcurrTrx, hgtid ▸ hmarked.gtid_lt, hxid ▸ hmarked.xid⟩

section Marked

variable (hmarked : Marked config sequence)

include hmarked

theorem Marked.mem_appended :
    ∀ entry ∈ sequence.appended config,
      entry.commitVersionStart = sequence.nextVersion ∧ entry.gtidStart = sequence.latest.2 ∧
        entry.Readable :=
  fun entry hentry => hmarked.savedBy entry (stored_subset _ hentry)

/-- Where no transaction is counted, an entry is for a heartbeat behind the last entry. -/
theorem Marked.lt_currHb (hsaves : Marking.savedBy config sequence.manager sequence.latest ≠ [])
    (hzero : sequence.manager.nofTrx = 0) :
    sequence.manager.lastSavedCommitVersionHigh < sequence.manager.currHbCheckpoint := by
  obtain ⟨entry, hentry⟩ := exists_mem_of_ne_nil _ hsaves
  rcases mem_append.mp hentry with hcheckpoint | hcompressed
  · exact absurd (hmarked.checkpoints entry hcheckpoint).2 (by omega)
  · obtain ⟨hlt, -⟩ := compressed_eq_some (Option.mem_toList.mp hcompressed)
    have hsettled := hmarked.settled hzero
    rw [maxCurrCheckpoint, lt_max_iff] at hlt
    omega

theorem Marked.le_nextVersion (hprecedes : sequence.Precedes last)
    (hsaves : Marking.savedBy config sequence.manager sequence.latest ≠ []) :
    last.commitVersionStart ≤ sequence.nextVersion := by
  rw [nextVersion]
  split_ifs with hpos
  · exact hprecedes.counting hpos
  · have hzero : sequence.manager.nofTrx = 0 := by omega
    exact (hprecedes.settled hzero).trans (hmarked.lt_currHb hsaves hzero).le

/-- The entries that a call saves are alike in order. -/
theorem Marked.sorted_appended :
    Sorted commitVersionStart (sequence.appended config) ∧
      Sorted gtidStart (sequence.appended config) := by
  refine ⟨pairwise_of_forall_mem_list fun left hleft right hright => ?_,
    pairwise_of_forall_mem_list fun left hleft right hright => ?_⟩
  · rw [(hmarked.mem_appended left hleft).1, (hmarked.mem_appended right hright).1]
  · rw [(hmarked.mem_appended left hleft).2.1, (hmarked.mem_appended right hright).2.1]

/-- What is saved first since a start is later than the lines in memory. -/
theorem Marked.lt_of_cached (hcomplete : sequence.Complete)
    (hfirst : sequence.manager.firstEntryAfterRestarted = true)
    (hcached : sequence.manager.gtidSeqSet ≠ []) (hentry : entry ∈ sequence.appended config)
    (hlast : last ∈ sequence.entries.getLast?) :
    last.commitVersionStart ≤ entry.commitVersionStart := by
  have hnewest := getLast?_eq_some_getLast hcached
  have hle := hmarked.newest _ hnewest last hlast
  obtain ⟨line, -, hline⟩ :=
    mem_map.mp (hcomplete.suffix.subset (getLast_mem hcached))
  have hlatest : sequence.manager.getLatestGtidSeq = some (empty.deserialize line) := by
    rw [getLatestGtidSeq, hnewest, Option.map_some, ← hline]
  have hlt := lt_of_mem_stored (fun other hother => (hmarked.savedBy other hother).1) hfirst
    hlatest (ne_nil_of_mem hentry)
  rw [(hmarked.mem_appended entry hentry).1]
  rw [← hline] at hle
  exact hle.trans hlt.le

end Marked

section Completed

variable (hmarked : Marked config sequence) (hcomplete : sequence.Complete)

include hmarked hcomplete

theorem Marked.inOrder_iff :
    (Sorted commitVersionStart (sequence.entries ++ sequence.appended config) ∧
      Sorted gtidStart (sequence.entries ++ sequence.appended config)) ↔
    (sequence.manager.firstEntryAfterRestarted = true →
      ∀ entry ∈ sequence.appended config, ∀ last ∈ sequence.entries.getLast?,
        last.gtidStart ≤ entry.gtidStart ∧ (sequence.manager.gtidSeqSet = [] →
          last.commitVersionStart ≤ entry.commitVersionStart)) := by
  rw [sorted_append_iff hcomplete.versions hmarked.sorted_appended.1,
    sorted_append_iff hcomplete.gtids hmarked.sorted_appended.2]
  constructor
  · rintro ⟨hversions, hgtids⟩ - entry hentry last hlast
    exact ⟨hgtids entry hentry last hlast, fun _ => hversions entry hentry last hlast⟩
  · intro hinOrder
    cases hfirst : sequence.manager.firstEntryAfterRestarted with
    | false =>
      refine ⟨fun entry hentry last hlast => ?_, fun entry hentry last hlast => ?_⟩
      · rw [(hmarked.mem_appended entry hentry).1]
        exact hmarked.le_nextVersion (hmarked.session hfirst last hlast)
          (ne_nil_of_mem (stored_subset _ hentry))
      · rw [(hmarked.mem_appended entry hentry).2.1]
        exact (hmarked.session hfirst last hlast).gtid
    | true =>
      refine ⟨fun entry hentry last hlast => ?_,
        fun entry hentry last hlast => (hinOrder hfirst entry hentry last hlast).1⟩
      by_cases hcached : sequence.manager.gtidSeqSet = []
      · exact (hinOrder hfirst entry hentry last hlast).2 hcached
      · exact hmarked.lt_of_cached hcomplete hfirst hcached hentry hlast

theorem Marked.saved
    (hsorted : Sorted commitVersionStart (sequence.entries ++ sequence.appended config)) :
    let saved := sequence.manager.saveAll config
      (Marking.savedBy config sequence.manager sequence.latest)
    saved.gtidSeqSet <:+ saved.fileEntries ∧
      ∃ lines, FileOf saved (sequence.entries ++ sequence.appended config) lines := by
  obtain ⟨lines, hfile⟩ := hmarked.file
  have hsaves := saves_saveAll config sequence.manager
    (Marking.savedBy config sequence.manager sequence.latest)
  have hafter := hfile.appendAll (fun entry hentry => (hmarked.mem_appended entry hentry).2.2)
    hmarked.sorted_appended.1 (pairwise_append.mp hsorted).2.2 hsaves.file_eq
  refine ⟨hsaves.suffix.trans ?_, _, hafter⟩
  obtain ⟨front, hfront⟩ := hcomplete.suffix
  refine ⟨front, ?_⟩
  rw [hafter.fileEntries, map_append, ← hfile.fileEntries, ← hfront, append_assoc]
  rfl

/-- The sum is right behind a call exactly if the entry that is saved comes after no skipped
transaction. -/
theorem Marked.total_compress_iff :
    ((sequence.compress config).compressions.map trxsNum).sum =
        (sequence.compress config).covered ↔
      ∀ entry ∈ sequence.manager.compressed config sequence.latest,
        sequence.skipsCompression config entry = false → sequence.lost = 0 := by
  have hcounts := hmarked.counts
  rw [compress]
  cases hentry : sequence.manager.compressed config sequence.latest with
  | none => exact iff_of_true hcomplete.total (by simp)
  | some entry =>
    have htrxs := trxsNum_compressed hentry
    dsimp only
    cases hskips : sequence.skipsCompression config entry with
    | true =>
      refine iff_of_true hcomplete.total ?_
      rintro _ ⟨⟩ hsaved
      rw [hskips] at hsaved
      cases hsaved
    | false =>
      rw [if_neg Bool.false_ne_true]
      simp only [map_append, sum_append, map_singleton, sum_singleton,
        Option.mem_def, Option.some.injEq, forall_eq', hskips, forall_const]
      omega

/-- A call keeps the sequence in order and complete exactly if it continues it. -/
theorem Marked.complete_compress_iff :
    (sequence.compress config).Complete ↔ sequence.Continues config := by
  have hinOrder := hmarked.inOrder_iff hcomplete
  have htotal := hmarked.total_compress_iff hcomplete
  have hrewrites := (compressesTo config sequence.manager sequence.latest).rewrites
  constructor
  · rintro ⟨hversions, hgtids, hsuffix, hsum⟩
    rw [compress_entries] at hversions hgtids
    exact ⟨hinOrder.mp ⟨hversions, hgtids⟩, htotal.mp hsum,
      fun entry hentry => hsuffix.subset hentry⟩
  · rintro ⟨hcontinues, hnothingLost, hfiled⟩
    obtain ⟨hversions, hgtids⟩ := hinOrder.mpr hcontinues
    obtain ⟨hsuffix, lines, hfile⟩ := hmarked.saved hcomplete hversions
    refine ⟨?_, ?_, ?_, htotal.mpr hnothingLost⟩
    · rwa [compress_entries]
    · rwa [compress_entries]
    · rw [compress_manager] at hfiled ⊢
      exact (hfile.suffix_rewrite_iff hrewrites hsuffix).mpr hfiled

end Completed

theorem Inv.counts_compress (hinv : Inv config sequence) :
    (sequence.compress config).marked =
      ((sequence.compress config).compressions.map trxsNum).sum +
        (sequence.compress config).lost + (sequence.compress config).manager.nofTrx := by
  have hcounts := hinv.counts
  obtain ⟨-, -, -, -, hcounted, hsettled⟩ :=
    compressesTo config sequence.manager sequence.latest
  rw [compress_manager, compress_marked, compress]
  cases hentry : sequence.manager.compressed config sequence.latest with
  | none =>
    rw [(hcounted hentry).1]
    exact hcounts
  | some entry =>
    have htrxs := trxsNum_compressed hentry
    rw [(hsettled (by simp [hentry])).1]
    dsimp only
    split_ifs
    · simp only
      omega
    · simp only [map_append, sum_append, map_singleton, sum_singleton]
      omega

/-- A call that counts transactions behind it saved no compressed entry. -/
theorem nofTrx_compress (hpos : 0 < (sequence.compress config).manager.nofTrx) :
    0 < sequence.manager.nofTrx := by
  rw [compress_manager] at hpos
  obtain ⟨-, -, -, -, hcounted, hsettled⟩ :=
    compressesTo config sequence.manager sequence.latest
  cases hentry : sequence.manager.compressed config sequence.latest with
  | none => exact hpos.trans_eq (hcounted hentry).1
  | some entry => exact absurd (hsettled (by simp [hentry])).1 hpos.ne'

theorem Precedes.compress (hprecedes : sequence.Precedes last) :
    (sequence.compress config).Precedes last := by
  obtain ⟨-, -, hcurrTrx, -, hcounted, hsettled⟩ :=
    compressesTo config sequence.manager sequence.latest
  refine ⟨?_, fun hpos => ?_, fun hzero => ?_, ?_⟩
  · rw [compress_time]
    exact hprecedes.time
  · rw [compress_manager, hcurrTrx]
    exact hprecedes.counting (nofTrx_compress hpos)
  · rw [compress_manager] at hzero ⊢
    cases hentry : sequence.manager.compressed config sequence.latest with
    | none =>
      rw [(hcounted hentry).2]
      exact hprecedes.settled ((hcounted hentry).1.symm.trans hzero)
    | some entry =>
      rw [(hsettled (by simp [hentry])).2]
      rcases Nat.eq_zero_or_pos sequence.manager.nofTrx with hnone | hsome
      · exact (hprecedes.settled hnone).trans (compressed_eq_some hentry).1.le
      · exact (hprecedes.counting hsome).trans (le_max_right _ _)
  · rw [compress_latest]
    exact hprecedes.gtid

theorem Marked.precedes_appended (hmarked : Marked config sequence)
    (happended : entry ∈ sequence.appended config) : (sequence.compress config).Precedes entry := by
  obtain ⟨hversion, hgtid, -⟩ := hmarked.mem_appended entry happended
  obtain ⟨-, -, hcurrTrx, -, hcounted, hsettled⟩ :=
    compressesTo config sequence.manager sequence.latest
  refine ⟨?_, fun hpos => ?_, fun hzero => ?_, ?_⟩
  · rw [compress_time, hversion, nextVersion]
    split_ifs
    · exact hmarked.currTrx_le
    · exact hmarked.currHb_le
  · rw [compress_manager, hcurrTrx, hversion, nextVersion, if_pos (nofTrx_compress hpos)]
  · rw [compress_manager] at hzero ⊢
    cases hcompressed : sequence.manager.compressed config sequence.latest with
    | none =>
      -- only transactions are marked, and they are counted
      have hmem := stored_subset _ happended
      rw [Marking.savedBy, hcompressed, Option.toList_none, append_nil] at hmem
      have hpos := (hmarked.checkpoints entry hmem).2
      rw [(hcounted hcompressed).1] at hzero
      omega
    | some compressed =>
      rw [(hsettled (by simp [hcompressed])).2, hversion, nextVersion]
      split_ifs
      · exact le_max_right _ _
      · exact le_max_left _ _
  · rw [compress_latest, hgtid]

theorem Marked.session_compress (hmarked : Marked config sequence)
    (hstarted : (sequence.compress config).manager.firstEntryAfterRestarted = false) :
    ∀ last ∈ (sequence.compress config).entries.getLast?,
      (sequence.compress config).Precedes last := by
  intro last hlast
  rw [compress_entries] at hlast
  rcases eq_nil_or_concat' (sequence.appended config) with hnone | ⟨front, new, hnew⟩
  · have hsaves := saves_saveAll config sequence.manager
      (Marking.savedBy config sequence.manager sequence.latest)
    have hrewrites :=
      (compressesTo config sequence.manager sequence.latest).rewrites
    rw [hnone, append_nil] at hlast
    rw [compress_manager, hrewrites.started_eq, hsaves.started] at hstarted
    change (_ && (sequence.appended config).isEmpty) = false at hstarted
    rw [hnone, isEmpty_nil, Bool.and_true] at hstarted
    exact (hmarked.session hstarted last hlast).compress
  · rw [hnew, ← append_assoc, getLast?_concat] at hlast
    obtain rfl := Option.some.inj hlast
    exact hmarked.precedes_appended (by simp [hnew])

/-- The memory behind a call ends with the last entry, or it is what it was. -/
theorem cached_compress (config : GtidConfig) (sequence : SavedSequence) :
    ((sequence.compress config).manager.gtidSeqSet = sequence.manager.gtidSeqSet ∧
        (sequence.compress config).entries = sequence.entries) ∨
      ∃ last, (sequence.compress config).entries.getLast? = some last ∧
        (sequence.compress config).manager.gtidSeqSet.getLast? = some (gtidEntry last) := by
  have hsaves := saves_saveAll config sequence.manager
    (savedBy config sequence.manager sequence.latest)
  have hrewrites := (compressesTo config sequence.manager sequence.latest).rewrites
  rw [compress_manager, compress_entries, hrewrites.gtidSeqSet_eq]
  rcases eq_nil_or_concat' (sequence.appended config) with hnone | ⟨front, new, hnew⟩
  · exact .inl ⟨hsaves.unchanged hnone, by rw [hnone, append_nil]⟩
  · refine .inr ⟨new, ?_, hsaves.newest new ?_⟩
    · rw [hnew, ← append_assoc, getLast?_concat]
    · change new ∈ (sequence.appended config).getLast?
      rw [hnew, getLast?_concat]
      rfl

theorem Marked.kept_compress (hmarked : Marked config sequence) (hcomplete : sequence.Complete)
    (hafter : (sequence.compress config).Complete) : Kept config (sequence.compress config) := by
  have hversions := hafter.versions
  rw [compress_entries] at hversions
  obtain ⟨-, lines, hfile⟩ := hmarked.saved hcomplete hversions
  obtain ⟨hrewrites, hcurrHb, hcurrTrx, hcheckpoints, hcounted, hsettled⟩ :=
    compressesTo config sequence.manager sequence.latest
  refine
    { file := ?_
      gtid_lt := ?_
      xid := ?_
      time_lt := ?_
      currTrx_le := ?_
      currHb_le := ?_
      settled := ?_
      counts := hmarked.counts_compress
      session := hmarked.session_compress
      newest := ?_
      nothingCached := ?_
      unmarked := ?_ }
  · rw [compress_manager, compress_entries]
    exact hfile.rewrite hrewrites
  · rw [compress_latest]
    exact hmarked.gtid_lt
  · rw [compress_latest]
    exact hmarked.xid
  · rw [compress_time]
    exact hmarked.time_lt
  · rw [compress_manager, compress_time, hcurrTrx]
    exact hmarked.currTrx_le
  · rw [compress_manager, compress_time, hcurrHb]
    exact hmarked.currHb_le
  · rw [compress_manager, hcurrTrx]
    intro hzero
    cases hentry : sequence.manager.compressed config sequence.latest with
    | none =>
      rw [(hcounted hentry).2]
      exact hmarked.settled ((hcounted hentry).1.symm.trans hzero)
    | some entry =>
      rw [(hsettled (by simp [hentry])).2]
      exact le_max_right _ _
  · rcases sequence.cached_compress config with ⟨hset, hentries⟩ | ⟨last, hlast, hnewest⟩
    · rw [hset, hentries]
      exact hmarked.newest
    · rw [hlast, hnewest]
      rintro _ ⟨⟩ _ ⟨⟩
      exact le_rfl
  · rcases sequence.cached_compress config with ⟨hset, hentries⟩ | ⟨last, -, hnewest⟩
    · rw [hset, hentries]
      exact hmarked.nothingCached
    · intro hnone
      rw [hnone] at hnewest
      cases hnewest
  · rw [compress_manager, hcheckpoints]

theorem getLast?_of_isSuffix {cached filed : List (ℕ × Text)} (hsuffix : cached <:+ filed)
    (hcached : cached ≠ []) : filed.getLast? = cached.getLast? := by
  obtain ⟨front, rfl⟩ := hsuffix
  exact getLast?_append_of_ne_nil _ hcached

theorem Inv.le_file (hinv : Inv config sequence) (hcomplete : sequence.Complete)
    (hcache : config.gtidMemoryCacheSeconds ≠ 0) (hlast : last ∈ sequence.entries.getLast?) :
    last.commitVersionStart = 0 ∨ ∃ entry ∈ sequence.manager.fileEntries.getLast?,
      last.commitVersionStart ≤ entry.1 := by
  by_cases hcached : sequence.manager.gtidSeqSet = []
  · rcases hinv.nothingCached hcached with hzero | hnone
    · exact absurd hzero hcache
    · exact .inl (hnone last hlast)
  · have hnewest := getLast?_eq_some_getLast hcached
    exact .inr ⟨_, (getLast?_of_isSuffix hcomplete.suffix hcached).trans hnewest,
      hinv.newest _ hnewest last hlast⟩

theorem step_restart (config : GtidConfig) (sequence : SavedSequence) (now startTimestamp : ℕ)
    (trxMapping : Text × ℕ) :
    ∃ gtidSeqSet lastCheckpointPurged,
      (initGtidSeq config now sequence.manager.file).gtidSeqSet = gtidSeqSet ∧
      sequence.step config (.restart now startTimestamp trxMapping) =
        { manager :=
            { file := sequence.manager.file
              gtidSeqSet
              firstEntryAfterRestarted := true
              lastCheckpointPurged
              lastSavedCommitVersionHigh := startTimestamp }
          latest := trxMapping
          entries := sequence.entries } := by
  obtain ⟨gtidSeqSet, lastCheckpointPurged, heq⟩ :=
    initGtidSeq_eq config now sequence.manager.file
  refine ⟨gtidSeqSet, lastCheckpointPurged, by rw [heq], ?_⟩
  rw [step, heq]

theorem Kept.restart (hkept : Kept config sequence) (hcomplete : sequence.Complete)
    {now startTimestamp : ℕ} {trxMapping : Text × ℕ}
    (hallows : sequence.Allows (.restart now startTimestamp trxMapping)) :
    Kept config (sequence.step config (.restart now startTimestamp trxMapping)) ∧
      (sequence.step config (.restart now startTimestamp trxMapping)).Complete := by
  obtain ⟨lines, hfile⟩ := hkept.file
  obtain ⟨gtidSeqSet, lastCheckpointPurged, hset, hstep⟩ :=
    sequence.step_restart config now startTimestamp trxMapping
  have hsuffix := hfile.init_isSuffix config now
  rw [hset] at hsuffix
  rw [hstep]
  refine ⟨?_, hcomplete.versions, hcomplete.gtids, hsuffix, rfl⟩
  refine
    { file := ⟨lines, hfile.file_eq, hfile.readable, hfile.saved, hfile.sorted⟩
      gtid_lt := hallows.1
      xid := hallows.2
      time_lt := Nat.two_pow_pos 64
      currTrx_le := Nat.zero_le _
      currHb_le := Nat.zero_le _
      settled := fun _ => Nat.zero_le _
      counts := rfl
      session := fun hstarted => Bool.noConfusion hstarted
      newest := ?_
      nothingCached := ?_
      unmarked := rfl }
  · intro cached hcached last hlast
    have hne : gtidSeqSet ≠ [] := ne_nil_of_mem (mem_of_getLast? hcached)
    have hcache : config.gtidMemoryCacheSeconds ≠ 0 := by
      intro hzero
      rw [hfile.gtidSeqSet_init, hzero] at hset
      exact hne (by simpa using hset.symm)
    rcases hkept.le_file hcomplete hcache hlast with hzero | ⟨entry, hentry, hle⟩
    · exact hzero.trans_le (Nat.zero_le _)
    · rw [getLast?_of_isSuffix hsuffix hne] at hentry
      rwa [Option.mem_unique hcached hentry]
  · intro hnone
    have hempty : gtidSeqSet = [] := hnone
    rw [hempty] at hset
    rw [or_iff_not_imp_left]
    intro hcache last hlast
    rcases hkept.le_file hcomplete hcache hlast with hzero | ⟨entry, hentry, hle⟩
    · exact hzero
    · rw [hfile.fileEntries, getLast?_map] at hentry
      obtain ⟨line, hline, rfl⟩ := Option.mem_map.mp hentry
      have hzero := (hfile.init_eq_nil hset).resolve_left hcache line hline
      exact Nat.eq_zero_of_le_zero (hle.trans_eq hzero)

/-- One call: the sequence is complete behind it exactly if the call continues it. -/
theorem Kept.step (hkept : Kept config sequence) (hcomplete : sequence.Complete)
    {call : SequenceCall} (hallows : sequence.Allows call) :
    ((sequence.step config call).Complete ↔ sequence.CallContinues config call) ∧
      ((sequence.step config call).Complete → Kept config (sequence.step config call)) := by
  have hmark := hcomplete.mark config call
  cases call with
  | trx trx =>
    have hmarked := hkept.markTrx hallows
    exact ⟨hmarked.complete_compress_iff hmark, hmarked.kept_compress hmark⟩
  | heartbeat checkpoint =>
    have hmarked := hkept.markHeartbeat hallows
    exact ⟨hmarked.complete_compress_iff hmark, hmarked.kept_compress hmark⟩
  | restart now startTimestamp trxMapping =>
    obtain ⟨hafter, hcompleteAfter⟩ := hkept.restart hcomplete hallows
    exact ⟨iff_of_true hcompleteAfter trivial, fun _ => hafter⟩

def startedTwice : List SequenceCall :=
  [.trx ⟨['a'], 1, 20000000⟩, .heartbeat 40000000, .restart 50 0 (['a'], 1),
    .trx ⟨['b'], 2, 60000000⟩]

def quietDay : List SequenceCall :=
  [.trx ⟨['a'], 1, 1000000000⟩, .heartbeat 1020000000, .trx ⟨['b'], 2, 1025000000⟩,
    .heartbeat 201025000000]

end SavedSequence

end OblogProxy.Recovery
