import OblogProxy.Core.Blocks
import OblogProxy.Core.Lines
import OblogProxy.Core.Loop
import OblogProxy.Gtid.Text

/-!
# Checkpoints of the GTID numbering

The manager keeps a file of checkpoints, each of which says which transaction and
which number a second of the OB stream begins with.  It marks transactions and
heartbeats as they pass, compresses them into checkpoints, appends each of them as a
line to the file, and keeps the lines of the last hours in memory.
-/

namespace OblogProxy.Recovery

open Gtid Lines

/-- A line of the gtid mapping file. -/
structure GtidSeq where
  commitVersionStart : ℕ
  xidStart : Text
  gtidStart : ℕ
  trxsNum : ℕ
deriving DecidableEq

/-- `GtidManager::get_first_le_gtid_seq`, over the cached lines in the order of
the file. -/
def getFirstLeGtidSeq (gtidSeqs : List GtidSeq) (gtid : ℕ) : Option GtidSeq :=
  gtidSeqs.reverse.find? fun gtidSeq =>
    !(gtidSeq.gtidStart > gtid) &&
      (gtidSeq.gtidStart < gtid || gtidSeq.gtidStart = gtid && !gtidSeq.xidStart.isEmpty)

variable {gtidSeq : GtidSeq}

theorem getFirstLeGtidSeq_le {gtidSeqs : List GtidSeq} {gtid : ℕ}
    (hfound : getFirstLeGtidSeq gtidSeqs gtid = some gtidSeq) : gtidSeq.gtidStart ≤ gtid := by
  have hle := List.find?_some hfound
  simp only [Bool.and_eq_true] at hle
  simpa using hle.1

namespace GtidSeq

def empty : GtidSeq := ⟨0, [], 0, 0⟩

def serialize (gtidSeq : GtidSeq) : Text :=
  Nat.toDigits 10 gtidSeq.commitVersionStart ++ '#' :: (gtidSeq.xidStart ++
    '#' :: (Nat.toDigits 10 gtidSeq.gtidStart ++ '#' :: Nat.toDigits 10 gtidSeq.trxsNum))

/-- The object keeps its fields if the line does not have four of them. -/
def deserialize (gtidSeq : GtidSeq) (line : Text) : GtidSeq :=
  match split line '#' with
  | [commitVersion, xid, gtid, trxs] =>
    ⟨toUint64 (atoll commitVersion), xid, toUint64 (atoll gtid), toUint64 (atoll trxs)⟩
  | _ => gtidSeq

/-- The last second of a clock that counts microseconds in 64 bits. -/
def maxCommitVersion : ℕ := (2 ^ 64 - 1) / 10 ^ 6

/-- A character that does not end a field or a line. -/
def FieldChar (char : Char) : Prop :=
  char ≠ '#' ∧ char ≠ '\n' ∧ char ≠ Char.ofNat 0

/-- The fields that say where the numbering stands fit their place in a line. -/
structure Readable (gtidSeq : GtidSeq) : Prop where
  commitVersion_le : gtidSeq.commitVersionStart ≤ maxCommitVersion
  gtid_lt : gtidSeq.gtidStart < 2 ^ 63
  xid : ∀ char ∈ gtidSeq.xidStart, FieldChar char

/-- What the manager saves: a second of the clock, and numbers that fit a
`long long`. -/
structure Writable (gtidSeq : GtidSeq) : Prop extends Readable gtidSeq where
  commitVersion_pos : 0 < gtidSeq.commitVersionStart
  trxs_lt : gtidSeq.trxsNum < 2 ^ 63

theorem fieldChar_of_isDigit {char : Char} (hdigit : char.isDigit = true) : FieldChar char := by
  refine ⟨?_, ?_, ?_⟩ <;> rintro rfl <;> exact absurd hdigit (by decide)

theorem fieldChar_toDigits (number : ℕ) : ∀ char ∈ Nat.toDigits 10 number, FieldChar char :=
  fun char hchar => fieldChar_of_isDigit ((validNumber_toDigits number).2 char hchar)

section Fields

variable {commitVersion xid gtid trxs : Text}
  (hfields : ∀ field ∈ [commitVersion, xid, gtid, trxs], ∀ char ∈ field, FieldChar char)

include hfields

theorem split_fields :
    split (commitVersion ++ '#' :: (xid ++ '#' :: (gtid ++ '#' :: trxs))) '#' =
      [commitVersion, xid, gtid, trxs] := by
  have hjoin : commitVersion ++ '#' :: (xid ++ '#' :: (gtid ++ '#' :: trxs)) =
      ['#'].intercalate [commitVersion, xid, gtid, trxs] := by
    simp [List.intercalate]
  rw [split_eq_splitOn '#' (by simp), hjoin]
  · exact List.splitOn_intercalate '#' (fun field hfield hchar =>
      (hfields field hfield _ hchar).1 rfl) (by simp)
  · rw [hjoin]
    intro hnul
    rcases mem_intercalate hnul with heq | ⟨field, hfield, hchar⟩
    · exact absurd heq (by decide)
    · exact (hfields field hfield _ hchar).2.2 rfl

end Fields

variable {line : Text}

/-- Nothing of the object is left behind a line with four fields. -/
theorem deserialize_of_length (hfields : (split line '#').length = 4) (gtidSeq : GtidSeq) :
    gtidSeq.deserialize line = empty.deserialize line := by
  obtain ⟨commitVersion, xid, gtid, trxs, hsplit⟩ := List.length_eq_four.mp hfields
  rw [deserialize, deserialize, hsplit]

theorem deserialize_of_length_ne (hfields : (split line '#').length ≠ 4) (gtidSeq : GtidSeq) :
    gtidSeq.deserialize line = gtidSeq := by
  rw [deserialize]
  split
  · rename_i hsplit
    rw [hsplit] at hfields
    exact absurd rfl hfields
  · rfl

theorem deserialize_of_count_ne (hnul : Char.ofNat 0 ∉ line) (hcount : line.count '#' ≠ 3) :
    gtidSeq.deserialize line = gtidSeq := by
  refine deserialize_of_length_ne ?_ gtidSeq
  rcases eq_or_ne line [] with rfl | hne
  · decide
  · rw [split_eq_splitOn '#' hne hnul, length_splitOn]
    omega

def commitVersion (line : Text) : ℕ :=
  (empty.deserialize line).commitVersionStart

section Readable

variable {gtidSeq : GtidSeq}

theorem Readable.split_serialize (hreadable : gtidSeq.Readable) :
    split gtidSeq.serialize '#' = [Nat.toDigits 10 gtidSeq.commitVersionStart, gtidSeq.xidStart,
      Nat.toDigits 10 gtidSeq.gtidStart, Nat.toDigits 10 gtidSeq.trxsNum] := by
  rw [serialize, split_fields]
  simp only [List.forall_mem_cons]
  exact ⟨fieldChar_toDigits _, hreadable.xid, fieldChar_toDigits _, fieldChar_toDigits _, by simp⟩

theorem Readable.deserialize_serialize (hreadable : gtidSeq.Readable) (object : GtidSeq) :
    object.deserialize gtidSeq.serialize =
      { gtidSeq with trxsNum := toUint64 (atoll (Nat.toDigits 10 gtidSeq.trxsNum)) } := by
  have hcommitVersion : gtidSeq.commitVersionStart < 2 ^ 63 :=
    lt_of_le_of_lt hreadable.commitVersion_le (by decide)
  rw [deserialize, hreadable.split_serialize]
  dsimp only
  rw [toUint64_atoll_toDigits hcommitVersion, toUint64_atoll_toDigits hreadable.gtid_lt]

theorem Readable.mem_serialize (hreadable : gtidSeq.Readable) {char : Char}
    (hchar : char ∈ gtidSeq.serialize) : char ≠ '\n' ∧ char ≠ Char.ofNat 0 := by
  simp only [serialize, List.mem_append, List.mem_cons] at hchar
  rcases hchar with hdigit | rfl | hxid | rfl | hdigit | rfl | hdigit
  · exact (fieldChar_toDigits _ char hdigit).2
  · decide
  · exact (hreadable.xid char hxid).2
  · decide
  · exact (fieldChar_toDigits _ char hdigit).2
  · decide
  · exact (fieldChar_toDigits _ char hdigit).2

theorem Writable.deserialize_serialize (hwritable : gtidSeq.Writable) (object : GtidSeq) :
    object.deserialize gtidSeq.serialize = gtidSeq := by
  rw [hwritable.toReadable.deserialize_serialize, toUint64_atoll_toDigits hwritable.trxs_lt]

end Readable

end GtidSeq

open GtidSeq

structure GtidConfig where
  gtidMemoryCacheSeconds : ℕ := 7200
  gtidMarkingStepSize : ℕ := 100000
  gtidSeqCompressedIntervalS : ℕ := 10
  gtidSeqCompressedTrxSize : ℕ := 100000
  binlogExpireLogsSeconds : ℕ := 86400

structure GtidManager where
  /-- The content of the checkpoint file. -/
  file : Text := []
  gtidSeqSet : List (ℕ × Text) := []
  firstEntryAfterRestarted : Bool := false
  lastCheckpointPurged : ℕ := 0
  nofTrx : ℕ := 0
  currHbCheckpoint : ℕ := 0
  currTrxCheckpoint : ℕ := 0
  lastSavedCommitVersionHigh : ℕ := 0
  gtidCheckpointSet : List GtidSeq := []

def subUint64 (left right : ℕ) : ℕ :=
  toUint64 ((left : ℤ) - right)

theorem subUint64_of_le {left right : ℕ} (hle : right ≤ left) (hlt : left < 2 ^ 64) :
    subUint64 left right = left - right := by
  rw [subUint64, toUint64]
  omega

namespace GtidManager

/-- The `for` loop of `read_last_valid_gtid_seq`: back to the newline before the last
line of the first `fileSize` characters. -/
def lineStart (file : Text) (fileSize : ℕ) : ℕ → ℕ
  | 0 => 0
  | position + 1 =>
    if file[position + 1]? = some '\n' ∧ position + 1 ≠ fileSize - 1 then position + 1
    else lineStart file fileSize position

/-- One line after the other is read, from the last one to the first. -/
def readLastValidLoop (file : Text) : ℕ → ℕ → GtidSeq → GtidSeq
  | 0, _, gtidSeq => gtidSeq
  | turns + 1, fileSize, gtidSeq =>
    if 0 < fileSize ∧ gtidSeq.commitVersionStart = 0 then
      let position := lineStart file fileSize (fileSize - 1)
      let start := if position = 0 then 0 else position + 1
      let content := (file.drop start).takeWhile (· ≠ '\n')
      readLastValidLoop file turns position (gtidSeq.deserialize content)
    else gtidSeq

/-- Every turn makes the size smaller. -/
def readLastValidGtidSeq (file : Text) : GtidSeq :=
  readLastValidLoop file file.length file.length empty

/-- One turn of the loop of `init_gtid_seq`; the object is the same in all turns. -/
def initLine (config : GtidConfig) (lastCheckpoint : ℕ) (state : GtidSeq × GtidManager)
    (line : Text) : GtidSeq × GtidManager :=
  let gtidSeq := state.1.deserialize line
  let commitVersion := gtidSeq.commitVersionStart
  let manager := state.2
  (gtidSeq, { manager with
      lastCheckpointPurged :=
        if manager.lastCheckpointPurged = 0 then commitVersion else manager.lastCheckpointPurged
      gtidSeqSet :=
        if subUint64 lastCheckpoint commitVersion < config.gtidMemoryCacheSeconds then
          manager.gtidSeqSet ++ [(commitVersion, line)]
        else manager.gtidSeqSet })

/-- `init_gtid_seq` of a new manager at the second `now`. -/
def initGtidSeq (config : GtidConfig) (now : ℕ) (file : Text) : GtidManager :=
  let lastCommitVersion := (readLastValidGtidSeq file).commitVersionStart
  let lastCheckpoint := if lastCommitVersion = 0 then now else lastCommitVersion
  let loaded := (getLines '\n' file).foldl (initLine config lastCheckpoint)
    (empty, { file })
  { loaded.2 with firstEntryAfterRestarted := true }

def getLatestGtidSeq (manager : GtidManager) : Option GtidSeq :=
  manager.gtidSeqSet.getLast?.map fun entry => empty.deserialize entry.2

def getFirstLeGtidSeq (manager : GtidManager) (gtid : ℕ) : Option GtidSeq :=
  Recovery.getFirstLeGtidSeq
    (manager.gtidSeqSet.map fun entry => empty.deserialize entry.2) gtid

/-- The first entry after a restart is not saved unless it is later than the last
line in memory. -/
def skips (manager : GtidManager) (gtidSeq : GtidSeq) : Bool :=
  manager.firstEntryAfterRestarted &&
    manager.getLatestGtidSeq.any fun last =>
      gtidSeq.commitVersionStart ≤ last.commitVersionStart

/-- `save_gtid_seq`, where the file can be written. -/
def saveGtidSeq (config : GtidConfig) (manager : GtidManager) (gtidSeq : GtidSeq) :
    GtidManager :=
  if manager.skips gtidSeq then manager
  else
    let currCheckpoint := gtidSeq.commitVersionStart
    let recent := manager.gtidSeqSet.dropWhile fun entry =>
      ¬subUint64 currCheckpoint entry.1 < config.gtidMemoryCacheSeconds
    { manager with
      gtidSeqSet := recent ++ [(currCheckpoint, gtidSeq.serialize)]
      file := manager.file ++ (gtidSeq.serialize ++ ['\n'])
      firstEntryAfterRestarted := false }

theorem mem_saveGtidSeq {config : GtidConfig} {manager : GtidManager} {entry : ℕ × Text}
    (hentry : entry ∈ (manager.saveGtidSeq config gtidSeq).gtidSeqSet) :
    entry ∈ manager.gtidSeqSet ∨ entry.2 = gtidSeq.serialize := by
  rw [saveGtidSeq] at hentry
  split_ifs at hentry
  · exact Or.inl hentry
  · rcases List.mem_append.mp hentry with hold | hnew
    · exact Or.inl ((List.dropWhile_sublist _).subset hold)
    · exact Or.inr (by rw [List.mem_singleton.mp hnew])

def saveAll (config : GtidConfig) (manager : GtidManager) (gtidSeqs : List GtidSeq) :
    GtidManager :=
  gtidSeqs.foldl (saveGtidSeq config) manager

def markEvent (config : GtidConfig) (manager : GtidManager) (isHeartbeat : Bool)
    (checkpoint : ℕ) (trxMapping : Text × ℕ) : GtidManager :=
  let second := checkpoint / 1000000
  if isHeartbeat then { manager with currHbCheckpoint := second }
  else
    { manager with
      nofTrx := manager.nofTrx + 1
      currTrxCheckpoint := second
      gtidCheckpointSet :=
        if trxMapping.2 % config.gtidMarkingStepSize = 0 then
          manager.gtidCheckpointSet ++ [⟨second, trxMapping.1, trxMapping.2, 0⟩]
        else manager.gtidCheckpointSet }

def maxCurrCheckpoint (manager : GtidManager) : ℕ :=
  max manager.currHbCheckpoint manager.currTrxCheckpoint

/-- The entry into which the transactions since the last one are compressed, when it
is time for one. -/
def compressed (config : GtidConfig) (manager : GtidManager) (trxMapping : Text × ℕ) :
    Option GtidSeq :=
  if manager.maxCurrCheckpoint ≤ manager.lastSavedCommitVersionHigh then none
  else if config.gtidSeqCompressedIntervalS ≤
        manager.maxCurrCheckpoint - manager.lastSavedCommitVersionHigh ∨
      config.gtidSeqCompressedTrxSize ≤ manager.nofTrx then
    some {
      commitVersionStart :=
        if 0 < manager.nofTrx then manager.currTrxCheckpoint else manager.currHbCheckpoint
      xidStart := if 0 < manager.nofTrx then trxMapping.1 else []
      gtidStart := trxMapping.2
      trxsNum := manager.nofTrx }
  else none

/-- The file is written again with the lines that are to be kept. -/
def rewriteGtidFile (manager : GtidManager) (keep : GtidSeq → Bool) : GtidManager :=
  let lines := (getLines '\n' manager.file).filter fun line =>
    keep (empty.deserialize line)
  { manager with file := terminated '\n' lines }

/-- `purge_gtid_before`, as far as the file is concerned: the first checkpoint that is left is
taken over. -/
def purgeGtidBefore (manager : GtidManager) (lastGtidPurged : ℕ) : GtidManager :=
  let keep := fun gtidSeq : GtidSeq => decide (lastGtidPurged < gtidSeq.gtidStart)
  let lines := (getLines '\n' manager.file).filter fun line =>
    keep (empty.deserialize line)
  { manager.rewriteGtidFile keep with
    lastCheckpointPurged := lines.foldl
      (fun firstCheckpoint line =>
        if firstCheckpoint = 0 then commitVersion line else firstCheckpoint) 0 }

/-- `clear_outdated_heartbeat_gtid_seqs_periodically`; the difference is an `int`. -/
def clearOutdatedHeartbeatGtidSeqs (config : GtidConfig) (manager : GtidManager)
    (currentCheckpoint : ℕ) : GtidManager :=
  let elapsed := Int.bmod ((currentCheckpoint : ℤ) - manager.lastCheckpointPurged) (2 ^ 32)
  if (12 * config.binlogExpireLogsSeconds / 10 : ℕ) < elapsed then
    let purged := subUint64 currentCheckpoint config.binlogExpireLogsSeconds
    { manager with lastCheckpointPurged := purged }.rewriteGtidFile fun gtidSeq =>
      purged ≤ gtidSeq.commitVersionStart ||
        gtidSeq.commitVersionStart < purged && !gtidSeq.xidStart.isEmpty
  else manager

def compressAndSaveGtidSeq (config : GtidConfig) (manager : GtidManager)
    (trxMapping : Text × ℕ) : GtidManager :=
  let manager :=
    { manager.saveAll config manager.gtidCheckpointSet with gtidCheckpointSet := [] }
  match manager.compressed config trxMapping with
  | none => manager
  | some gtidSeq =>
    { manager.saveGtidSeq config gtidSeq with
      lastSavedCommitVersionHigh := manager.maxCurrCheckpoint
      nofTrx := 0 }.clearOutdatedHeartbeatGtidSeqs config manager.maxCurrCheckpoint

end GtidManager

open Blocks List GtidSeq

/-- The lines of the file, each with its commit version. -/
def GtidManager.fileEntries (manager : GtidManager) : List (ℕ × Text) :=
  (getLines '\n' manager.file).map fun line =>
    ((empty.deserialize line).commitVersionStart, line)

/-- A line in memory, or in the file with its commit version. -/
def gtidEntry (gtidSeq : GtidSeq) : ℕ × Text :=
  (gtidSeq.commitVersionStart, gtidSeq.serialize)

theorem commitVersion_serialize {gtidSeq : GtidSeq} (hreadable : gtidSeq.Readable) :
    commitVersion gtidSeq.serialize = gtidSeq.commitVersionStart := by
  rw [commitVersion, hreadable.deserialize_serialize]

/-- The file is made of these checkpoints. -/
structure FileOf (manager : GtidManager) (saved lines : List GtidSeq) : Prop where
  file_eq : manager.file = terminated '\n' (lines.map serialize)
  readable : ∀ gtidSeq ∈ lines, gtidSeq.Readable
  saved : ∀ gtidSeq ∈ lines, gtidSeq ∈ saved
  sorted : Sorted commitVersionStart lines

/-- A checkpoint that is not skipped is put behind the recent lines in memory and appended to
the file. -/
theorem GtidManager.saveGtidSeq_eq (config : GtidConfig) {manager : GtidManager}
    {gtidSeq : GtidSeq} (hskips : manager.skips gtidSeq = false) :
    ∃ old recent, manager.gtidSeqSet = old ++ recent ∧
      (manager.saveGtidSeq config gtidSeq).gtidSeqSet = recent ++ [gtidEntry gtidSeq] ∧
      (manager.saveGtidSeq config gtidSeq).file =
        manager.file ++ (gtidSeq.serialize ++ ['\n']) ∧
      (manager.saveGtidSeq config gtidSeq).firstEntryAfterRestarted = false := by
  rw [GtidManager.saveGtidSeq, hskips, if_neg Bool.false_ne_true]
  exact ⟨_, _, takeWhile_append_dropWhile.symm, rfl, rfl, rfl⟩

section Files

variable {manager after : GtidManager} {saved lines : List GtidSeq}

section FileOf

variable (hfile : FileOf manager saved lines)

include hfile

theorem FileOf.getLines : getLines '\n' manager.file = lines.map serialize := by
  rw [hfile.file_eq, getLines_terminated]
  simp only [forall_mem_map]
  exact fun gtidSeq hmem hnewline => ((hfile.readable gtidSeq hmem).mem_serialize hnewline).1 rfl

theorem FileOf.fileEntries : manager.fileEntries = lines.map gtidEntry := by
  rw [GtidManager.fileEntries, hfile.getLines, map_map]
  refine map_congr_left fun gtidSeq hmem => ?_
  rw [gtidEntry, ← commitVersion_serialize (hfile.readable gtidSeq hmem)]
  rfl

theorem FileOf.entriesSorted : Sorted Prod.fst manager.fileEntries := by
  rw [hfile.fileEntries]
  exact pairwise_map.mpr hfile.sorted

end FileOf

/-- The file is written again with some of its lines, or left as it is; the memory stays. -/
structure Rewrites (manager after : GtidManager) : Prop where
  gtidSeqSet_eq : after.gtidSeqSet = manager.gtidSeqSet
  started_eq : after.firstEntryAfterRestarted = manager.firstEntryAfterRestarted
  file : after.file = manager.file ∨
    ∃ keep, after.file = terminated '\n' ((Lines.getLines '\n' manager.file).filter keep)

theorem rewrites_purge (manager : GtidManager) (lastGtidPurged : ℕ) :
    Rewrites manager (manager.purgeGtidBefore lastGtidPurged) :=
  ⟨rfl, rfl, .inr ⟨_, rfl⟩⟩

theorem rewrites_clearOutdated (config : GtidConfig) (manager : GtidManager)
    (currentCheckpoint : ℕ) :
    Rewrites manager (manager.clearOutdatedHeartbeatGtidSeqs config currentCheckpoint) := by
  unfold GtidManager.clearOutdatedHeartbeatGtidSeqs
  dsimp only
  split_ifs
  · exact ⟨rfl, rfl, .inr ⟨_, rfl⟩⟩
  · exact ⟨rfl, rfl, .inl rfl⟩

section FileOf

variable (hfile : FileOf manager saved lines)

include hfile

theorem FileOf.rewrite (hrewrites : Rewrites manager after) : ∃ left, FileOf after saved left := by
  rcases hrewrites.file with hsame | ⟨keep, hkeep⟩
  · exact ⟨lines, hsame.trans hfile.file_eq, hfile.readable, hfile.saved, hfile.sorted⟩
  · refine ⟨lines.filter fun gtidSeq => keep gtidSeq.serialize, ?_,
      fun gtidSeq hmem => hfile.readable gtidSeq (mem_of_mem_filter hmem),
      fun gtidSeq hmem => hfile.saved gtidSeq (mem_of_mem_filter hmem),
      List.Pairwise.filter _ hfile.sorted⟩
    rw [hkeep, hfile.getLines, filter_map]
    rfl

/-- Lines in memory that are the end of the file stay its end if they are all left in it. -/
theorem FileOf.suffix_rewrite_iff (hrewrites : Rewrites manager after)
    (hsuffix : manager.gtidSeqSet <:+ manager.fileEntries) :
    after.gtidSeqSet <:+ after.fileEntries ↔
      ∀ entry ∈ after.gtidSeqSet, entry ∈ after.fileEntries := by
  refine ⟨fun hafter entry hentry => hafter.subset hentry, fun hfiled => ?_⟩
  rw [hrewrites.gtidSeqSet_eq] at hfiled ⊢
  rcases hrewrites.file with hsame | ⟨keep, hkeep⟩
  · rwa [GtidManager.fileEntries, hsame]
  · have hentries : after.fileEntries =
        manager.fileEntries.filter fun entry => keep entry.2 := by
      rw [GtidManager.fileEntries, GtidManager.fileEntries, hkeep, filter_map, getLines_terminated]
      · rfl
      · intro line hline
        rw [hfile.getLines] at hline
        obtain ⟨gtidSeq, hmem, rfl⟩ := mem_map.mp (mem_of_mem_filter hline)
        exact fun hnewline => ((hfile.readable gtidSeq hmem).mem_serialize hnewline).1 rfl
    obtain ⟨front, hfront⟩ := hsuffix
    rw [hentries] at hfiled ⊢
    have hall : manager.gtidSeqSet.filter (fun entry => keep entry.2) = manager.gtidSeqSet :=
      filter_eq_self.mpr fun entry hentry => (mem_filter.mp (hfiled entry hentry)).2
    exact ⟨front.filter fun entry => keep entry.2, by rw [← hfront, filter_append, hall]⟩

theorem FileOf.appendAll {stored : List GtidSeq} (hreadable : ∀ gtidSeq ∈ stored, gtidSeq.Readable)
    (hsorted : Sorted commitVersionStart stored)
    (hearlier : ∀ earlier ∈ saved, ∀ later ∈ stored, earlier.commitVersionStart ≤
      later.commitVersionStart)
    (happended : after.file = manager.file ++ terminated '\n' (stored.map serialize)) :
    FileOf after (saved ++ stored) (lines ++ stored) where
  file_eq := by
    rw [happended, hfile.file_eq]
    simp
  readable := forall_mem_append.mpr ⟨hfile.readable, hreadable⟩
  saved := forall_mem_append.mpr
    ⟨fun earlier hmem => mem_append_left _ (hfile.saved earlier hmem),
      fun later hmem => mem_append_right _ hmem⟩
  sorted := pairwise_append.mpr ⟨hfile.sorted, hsorted,
    fun earlier hmem => hearlier earlier (hfile.saved earlier hmem)⟩

theorem FileOf.append {gtidSeq : GtidSeq} (hreadable : gtidSeq.Readable)
    (hearlier : ∀ earlier ∈ saved, earlier.commitVersionStart ≤ gtidSeq.commitVersionStart)
    (happended : after.file = manager.file ++ (gtidSeq.serialize ++ ['\n'])) :
    FileOf after (saved ++ [gtidSeq]) (lines ++ [gtidSeq]) := by
  refine hfile.appendAll ?_ (pairwise_singleton _ _) ?_ ?_
  · rwa [forall_mem_singleton]
  · simpa using hearlier
  · simpa using happended

end FileOf

end Files

open Bisect

/-- The return code, with the object that the search has filled in. -/
inductive SearchResult
  | omsFailed
  | omsOk (gtidSeq : GtidSeq)
deriving DecidableEq

/-- The `while` loop gives its upper index.  The object is the same in all turns. -/
def searchLoop (timestamp : ℕ) (gtidSeqSet : List Text) : ℕ → ℕ → ℕ → GtidSeq → Option ℕ
  | 0, _, _, _ => none
  | turns + 1, idxLow, idxHigh, localGtidSeq =>
    if idxLow ≤ idxHigh then
      let idxMid := idxLow + (idxHigh - idxLow) / 2
      match gtidSeqSet[idxMid]? with
      | none => none
      | some line =>
        let localGtidSeq := localGtidSeq.deserialize line
        if timestamp < localGtidSeq.commitVersionStart then
          searchLoop timestamp gtidSeqSet turns idxLow (pred (2 ^ 64 - 1) idxMid) localGtidSeq
        else searchLoop timestamp gtidSeqSet turns (idxMid + 1) idxHigh localGtidSeq
    else some idxHigh

/-- `binary_search_gtid_seq`.  `none` is an access outside of the list, or a loop that
has not ended when each entry has had its turn. -/
def binarySearchGtidSeq (timestamp : ℕ) (tenantGtidsStr : Text) (gtidSeq : GtidSeq) :
    Option SearchResult :=
  if tenantGtidsStr = [] then some .omsFailed
  else
    let gtidSeqSet := split tenantGtidsStr '|'
    match gtidSeqSet.head?, gtidSeqSet.getLast? with
    | some minimum, some maximum =>
      let localGtidSeq := empty.deserialize maximum
      if 0 = timestamp ∨ localGtidSeq.commitVersionStart < timestamp then
        some (.omsOk (gtidSeq.deserialize maximum))
      else
        let localGtidSeq := localGtidSeq.deserialize minimum
        if timestamp < localGtidSeq.commitVersionStart then
          some (.omsOk (gtidSeq.deserialize minimum))
        else
          (searchLoop timestamp gtidSeqSet (gtidSeqSet.length + 1) 0 (gtidSeqSet.length - 1)
            localGtidSeq).bind fun idxHigh =>
              gtidSeqSet[idxHigh]?.map fun line => .omsOk (gtidSeq.deserialize line)
    | _, _ => none

/-- A text that is taken as an entry, wherever it stands. -/
structure IsEntry (line : Text) : Prop where
  fields : (split line '#').length = 4
  bar : '|' ∉ line
  nul : Char.ofNat 0 ∉ line

/-- The last entry that is not later than the timestamp, or the first one if all are
later.  Without a timestamp it is the last one. -/
def closestLine (timestamp : ℕ) (lines : List Text) : Option Text :=
  if timestamp = 0 then lines.getLast?
  else (lines.filter fun line => commitVersion line ≤ timestamp).getLast?.or lines.head?

section Entries

variable {timestamp : ℕ} {line : Text} {lines : List Text}

theorem IsEntry.ne_nil (hentry : IsEntry line) : line ≠ [] := by
  rintro rfl
  exact absurd hentry.fields (by decide)

theorem split_intercalate (hne : lines ≠ []) (hentries : ∀ line ∈ lines, IsEntry line) :
    split (['|'].intercalate lines) '|' = lines := by
  rw [split_eq_splitOn]
  · exact splitOn_intercalate '|' (fun line hline => (hentries line hline).bar) hne
  · obtain ⟨first, rest, rfl⟩ := exists_cons_of_ne_nil hne
    have hfirst := (hentries first mem_cons_self).ne_nil
    cases rest with
    | nil => simpa using hfirst
    | cons next rest => simp [intercalate_cons_cons]
  · intro hnul
    rcases mem_intercalate hnul with heq | ⟨line, hline, hchar⟩
    · exact absurd heq (by decide)
    · exact (hentries line hline).nul hchar

/-- On entries the object of the loop does not matter. -/
theorem searchLoop_eq_bisect (hentries : ∀ line ∈ lines, IsEntry line) (turns idxLow idxHigh : ℕ)
    (object : GtidSeq) :
    searchLoop timestamp lines turns idxLow idxHigh object =
      bisect (2 ^ 64 - 1) (fun line => decide (timestamp < commitVersion line)) lines turns idxLow
        idxHigh := by
  induction turns generalizing idxLow idxHigh object with
  | zero => rfl
  | succ turns ih =>
    rw [searchLoop, bisect]
    dsimp only
    cases hline : lines[idxLow + (idxHigh - idxLow) / 2]? with
    | none => rfl
    | some line =>
      have hentry := hentries line (mem_of_getElem? hline)
      have hlater : timestamp < (object.deserialize line).commitVersionStart ↔
          decide (timestamp < commitVersion line) = true := by
        rw [deserialize_of_length hentry.fields object, decide_eq_true_eq]
        rfl
      simp only [ih, hlater]

/-- Sorted entries are those up to the timestamp, then the later ones. -/
theorem exists_later (hsorted : lines.Pairwise fun left right =>
      commitVersion left ≤ commitVersion right) (timestamp : ℕ) :
    ∃ later, lines = (lines.filter fun line => commitVersion line ≤ timestamp) ++ later ∧
      ∀ line ∈ later, timestamp < commitVersion line := by
  induction lines with
  | nil => exact ⟨[], rfl, by simp⟩
  | cons line lines ih =>
    obtain ⟨hfirst, hrest⟩ := pairwise_cons.mp hsorted
    by_cases hle : commitVersion line ≤ timestamp
    · obtain ⟨later, hlines, hlater⟩ := ih hrest
      refine ⟨later, ?_, hlater⟩
      rw [filter_cons_of_pos (by simpa using hle), cons_append, ← hlines]
    · have hall : ∀ other ∈ line :: lines, timestamp < commitVersion other := by
        rw [forall_mem_cons]
        exact ⟨Nat.lt_of_not_le hle, fun other hother =>
          (Nat.lt_of_not_le hle).trans_le (hfirst other hother)⟩
      refine ⟨line :: lines, ?_, hall⟩
      rw [filter_eq_nil_iff.mpr, nil_append]
      exact fun other hother => by simpa using hall other hother

end Entries

/-- The loop ends at the last entry that is not later than the timestamp, if there is
one. -/
theorem searchLoop_sorted {timestamp : ℕ} {upTo later : List Text}
    (hentries : ∀ line ∈ upTo ++ later, IsEntry line)
    (hupTo : ∀ line ∈ upTo, commitVersion line ≤ timestamp)
    (hlater : ∀ line ∈ later, timestamp < commitVersion line) (hne : upTo ≠ []) (object : GtidSeq) :
    searchLoop timestamp (upTo ++ later) ((upTo ++ later).length + 1) 0
        ((upTo ++ later).length - 1) object = some (upTo.length - 1) ∧
      (upTo ++ later)[upTo.length - 1]? = upTo.getLast? := by
  refine ⟨?_, ?_⟩
  · rw [searchLoop_eq_bisect hentries]
    refine bisect_eq (fun line hline => ?_) (fun line hline => ?_) hne
    · simpa using hupTo line hline
    · simpa using hlater line hline
  · have hpositive := length_pos_iff.mpr hne
    rw [getElem?_append_left (by omega), getLast?_eq_getElem?]

/-- The search ends within the list, and it finds the closest entry. -/
theorem binarySearchGtidSeq_closest (timestamp : ℕ) (lines : List Text) (gtidSeq : GtidSeq)
    (hne : lines ≠ []) (hentries : ∀ line ∈ lines, IsEntry line)
    (hsorted : lines.Pairwise fun left right => commitVersion left ≤ commitVersion right) :
    ∃ line ∈ closestLine timestamp lines,
      binarySearchGtidSeq timestamp (['|'].intercalate lines) gtidSeq =
        some (.omsOk (empty.deserialize line)) := by
  obtain ⟨later, hlines, hlater⟩ := exists_later hsorted timestamp
  have hclosest : timestamp ≠ 0 → closestLine timestamp lines =
      (lines.filter fun line => commitVersion line ≤ timestamp).getLast?.or lines.head? :=
    fun hset => if_neg hset
  set upTo := lines.filter fun line => commitVersion line ≤ timestamp with hfilter
  have hupTo : ∀ line ∈ upTo, commitVersion line ≤ timestamp := fun line hline => by
    simpa using (mem_filter.mp hline).2
  have htext : ['|'].intercalate lines ≠ [] := by
    intro hnil
    have hsplit := split_intercalate hne hentries
    rw [hnil] at hsplit
    exact hne hsplit.symm
  obtain ⟨minimum, hhead⟩ : ∃ minimum, lines.head? = some minimum :=
    ⟨_, head?_eq_some_head hne⟩
  obtain ⟨maximum, hlast⟩ : ∃ maximum, lines.getLast? = some maximum :=
    ⟨_, getLast?_eq_some_getLast hne⟩
  have hread : ∀ (object : GtidSeq), ∀ line ∈ lines,
      object.deserialize line = empty.deserialize line :=
    fun object line hline => deserialize_of_length (hentries line hline).fields object
  rw [binarySearchGtidSeq, if_neg htext, split_intercalate hne hentries]
  simp only [hhead, hlast, hread _ _ (mem_of_mem_head? hhead)]
  split_ifs with hbeyond hbefore
  · refine ⟨maximum, ?_, by rw [hread _ _ (mem_of_getLast? hlast)]⟩
    rcases eq_or_ne timestamp 0 with hzero | hset
    · rw [closestLine, if_pos hzero, hlast]
      rfl
    · -- no entry is later than the last one
      have hall : later = [] := by
        by_contra hsome
        have hmem : maximum ∈ later := by
          rw [hlines, getLast?_append_of_ne_nil _ hsome] at hlast
          exact mem_of_getLast? hlast
        have hlt := hlater maximum hmem
        rcases hbeyond with heq | hgt
        · exact hset heq.symm
        · exact absurd hgt hlt.asymm
      rw [hclosest hset]
      rw [hall, append_nil] at hlines
      rw [← hlines, hlast]
      rfl
  · refine ⟨minimum, ?_, rfl⟩
    have hnone : upTo = [] := by
      by_contra hsome
      have hmem : minimum ∈ upTo := by
        rw [hlines, head?_append_of_ne_nil _ hsome] at hhead
        exact mem_of_mem_head? hhead
      exact absurd hbefore (Nat.not_lt.mpr (hupTo minimum hmem))
    rw [hclosest (fun hzero => hbeyond (Or.inl hzero.symm)), hnone, hhead]
    rfl
  · have hsome : upTo ≠ [] := ne_nil_of_mem (mem_filter.mpr
      ⟨mem_of_mem_head? hhead, decide_eq_true (Nat.le_of_not_lt hbefore)⟩)
    obtain ⟨hloop, hindex⟩ := searchLoop_sorted (hlines ▸ hentries) hupTo hlater hsome
      (empty.deserialize minimum)
    obtain ⟨closest, hfound⟩ : ∃ closest, upTo.getLast? = some closest :=
      ⟨_, getLast?_eq_some_getLast hsome⟩
    rw [← hlines] at hloop hindex
    refine ⟨closest, ?_, ?_⟩
    · rw [hclosest (fun hzero => hbeyond (Or.inl hzero.symm)), hfound]
      rfl
    · rw [hloop, Option.bind_some, hindex, hfound, Option.map_some,
        hread _ _ (mem_of_mem_filter (mem_of_getLast? hfound))]

def threeEntries : List Text :=
  ["100#a#5#1".toList, "200##6#0".toList, "200#b#7#1".toList]

theorem binarySearchGtidSeq_threeEntries :
    ∃ line ∈ closestLine 200 threeEntries,
      binarySearchGtidSeq 200 (['|'].intercalate threeEntries) empty =
        some (.omsOk (empty.deserialize line)) :=
  binarySearchGtidSeq_closest 200 threeEntries empty (by decide)
    (by
      simp only [threeEntries, forall_mem_cons]
      exact ⟨⟨by decide +kernel, by decide +kernel, by decide +kernel⟩,
        ⟨by decide +kernel, by decide +kernel, by decide +kernel⟩,
        ⟨by decide +kernel, by decide +kernel, by decide +kernel⟩, by simp⟩)
    (by decide +kernel)

end OblogProxy.Recovery
