import OblogProxy.Recovery.CleanRestart

/-!
# Both counts of the executed gtids

`recover_safely` refuses to start if the previous gtids of the file that it is about to
create are not `gtid_executed`.  Over the first start, stored batches and earlier
restarts, the files keep what decides whether both agree.
-/

namespace OblogProxy.Recovery

open Bytes Event Gtid Storage List GtidMessage Option Disk

section GtidText

variable (serverUuid : Text)

theorem joinVectorStr_gtidsUpTo {count : ℕ} (hcount : 0 < count) :
    joinVectorStr (gtidsUpTo serverUuid count) =
      some (uuidHexBinToStrWithDelim (readUuid serverUuid) ++
        ':' :: formatRange (1, count)) := by
  rw [gtidsUpTo_of_pos hcount]
  simp [joinVectorStr, formatString]

theorem exists_joinVectorStr_gtidsUpTo (count : ℕ) :
    ∃ text, joinVectorStr (gtidsUpTo serverUuid count) = some text := by
  rcases Nat.eq_zero_or_pos count with rfl | hcount
  · exact ⟨[], rfl⟩
  · exact ⟨_, joinVectorStr_gtidsUpTo serverUuid hcount⟩

theorem formatRange_one_injective :
    Function.Injective fun last => formatRange (1, last) := by
  intro left right heq
  have hone : Nat.toDigits 10 1 = ['1'] := rfl
  simp only [formatRange, hone] at heq
  split_ifs at heq with hleft hright hright
  · have hdigits : Nat.toDigits 10 left = Nat.toDigits 10 right := by simpa using heq
    rw [← readNumber_toDigits left, hdigits, readNumber_toDigits]
  · simp at heq
  · simp at heq
  · omega

theorem joinVectorStr_gtidsUpTo_injective :
    Function.Injective fun count => joinVectorStr (gtidsUpTo serverUuid count) := by
  intro left right heq
  dsimp only at heq
  rcases Nat.eq_zero_or_pos left with rfl | hleft <;>
    rcases Nat.eq_zero_or_pos right with rfl | hright
  · rfl
  · rw [joinVectorStr_gtidsUpTo serverUuid hright] at heq
    simp [joinVectorStr] at heq
  · rw [joinVectorStr_gtidsUpTo serverUuid hleft] at heq
    simp [joinVectorStr] at heq
  · rw [joinVectorStr_gtidsUpTo serverUuid hleft, joinVectorStr_gtidsUpTo serverUuid hright] at heq
    have hranges := append_cancel_left (some.inj heq)
    exact formatRange_one_injective (cons.inj hranges).2

end GtidText

def restartPreviousGtids (config : Config) (point : RestartPoint) : List GtidMessage :=
  mergeGtidBefore config.masterServerUuid point.storage.previousGtidMessages
    (point.storage.firstGtidSeq, lastGtid point.storage)

def lastGtidLogEvent (file : LogFile) : Option GtidLogEvent :=
  (file.events.filterMap gtidLogEventOf).getLast?

variable {point : RestartPoint} {config : Config} {start : Start} {storage : BinlogStorage}
  {files : Files} {layout : Layout} {before first : ℕ} {transactions : List Transaction}

section RestartPoint

variable (hrecorded : Recorded config storage files layout before first transactions)

include hrecorded

theorem restartPoint_eq (hvalid : ValidUuid config.masterServerUuid) (start : Start) :
    ∃ lastXid, restartPoint config start files.disk (endRecord config storage layout) =
      (resumeStorage start storage.indexRecord (layout.current.events.filterMap gtidLogEventOf)
        { startTimestamp := start.startTimestamp
          xid := lastXid
          previousGtidMessages := gtidsUpTo config.masterServerUuid before }).map
            fun storage => ⟨storage, .rotate, false, config.checksum.flag⟩ := by
  have hready := hrecorded.settled.ready
  have hname : (endRecord config storage layout).fileName ≠ [] := by
    rw [endRecord, hready.recordFile]
    exact config.names.path_ne_nil _
  have hposition : (endRecord config storage layout).position ≠ 0 := by
    change (layout.current.bytes config).length ≠ 0
    rw [LogFile.length_bytes]
    exact Nat.ne_of_gt (Nat.add_pos_left (by decide) _)
  have hdisk : files.disk (endRecord config storage layout).fileName =
      some (layout.current.bytes config) := hready.recordOnDisk
  obtain ⟨lastXid, hseek⟩ := seekGtidEvent_stores hvalid hrecorded.stores
    { checksumFlag := config.checksum.flag }
  refine ⟨lastXid, ?_⟩
  rw [restartPoint, if_neg (by simp [hname, hposition]), resumePoint, seekGtidEventOf, hdisk]
  dsimp only
  rw [hseek, bind_some]
  dsimp only
  rw [if_neg (by simp [endRecord])]
  simp only [nil_append, hready.unrotated, isSome_none, Bool.or_self]
  rfl

/-- The last gtid event of the last file is about the transaction of the current mapping. -/
theorem lastGtidLogEvent_recorded :
    (∀ event ∈ lastGtidLogEvent layout.current,
        event.gtidTxnId = storage.indexRecord.currentMapping.2) ∧
      ((lastGtidLogEvent layout.current).isSome ↔ transactions ≠ []) := by
  have hnumber := getLast_gtidLogEvents hrecorded.stores
  rw [← lastGtidLogEvent] at hnumber
  by_cases hnone : transactions = []
  · rw [if_pos hnone, map_eq_none_iff] at hnumber
    simp [hnumber, hnone]
  · have hstored := hrecorded.mappings.stored hnone
    rw [if_neg hnone] at hnumber
    obtain ⟨event, hevent, hown⟩ := map_eq_some_iff.mp hnumber
    rw [hevent]
    refine ⟨?_, iff_of_true rfl hnone⟩
    rintro _ ⟨⟩
    omega

theorem restartPoint_resumes (hvalid : ValidUuid config.masterServerUuid)
    (hpoint : restartPoint config start files.disk (endRecord config storage layout) = some point) :
    point.op = .rotate ∧ point.rotateExisted = false ∧
      point.checksumFlag = config.checksum.flag ∧
      Resumes start storage.indexRecord (lastGtidLogEvent layout.current) point.storage ∧
      restartPreviousGtids config point =
        gtidsUpTo config.masterServerUuid (max before (lastGtid point.storage)) := by
  obtain ⟨lastXid, heq⟩ := restartPoint_eq hrecorded hvalid start
  rw [heq] at hpoint
  obtain ⟨resumed, hresume, rfl⟩ := map_eq_some_iff.mp hpoint
  obtain ⟨hresumes, hprevious, hfirst⟩ := resumeStorage_resumes
    (lastGtidLogEvent_recorded hrecorded).1 ⟨rfl, rfl, rfl⟩ hresume
  refine ⟨rfl, rfl, rfl, hresumes, ?_⟩
  rw [restartPreviousGtids]
  dsimp only
  rw [hprevious, hfirst]
  exact mergeGtidBefore_gtidsUpTo hvalid hrecorded.counts.room Nat.one_pos
    (Nat.le_add_left _ _) _

/-- The previous gtids are those that are executed exactly if the start goes on behind
them. -/
theorem Resumes.executed_iff {resumed : BinlogStorage}
    (hresumes : Resumes start storage.indexRecord (lastGtidLogEvent layout.current) resumed) :
    max before (lastGtid resumed) = executedGtid storage.indexRecord before transactions ↔
      ResumesBehind config start storage.indexRecord (lastGtidLogEvent layout.current) :=
  hresumes.max_lastGtid_eq_iff hrecorded.mappings hrecorded.counts.le_first
    hrecorded.counts.bound hrecorded.counts.room (lastGtidLogEvent_recorded hrecorded).2

theorem restartPoint_agrees_iff (hvalid : ValidUuid config.masterServerUuid) :
    (∀ point ∈ restartPoint config start files.disk (endRecord config storage layout),
        restartPreviousGtids config point = gtidsUpTo config.masterServerUuid
          (executedGtid storage.indexRecord before transactions)) ↔
      ResumesBehind config start storage.indexRecord (lastGtidLogEvent layout.current) := by
  cases hpoint : restartPoint config start files.disk (endRecord config storage layout) with
  | none =>
    obtain ⟨lastXid, heq⟩ := restartPoint_eq hrecorded hvalid start
    rw [heq, map_eq_none_iff] at hpoint
    have hbehind := resumesBehind_of_resumeStorage (lastGtidLogEvent_recorded hrecorded).1 config
      hpoint
    exact iff_of_true (by rintro _ ⟨⟩) hbehind
  | some point =>
    obtain ⟨-, -, -, hresumes, hprevious⟩ := restartPoint_resumes hrecorded hvalid hpoint
    rw [← hresumes.executed_iff hrecorded,
      ← (joinVectorStr_gtidsUpTo_injective _).of_comp.eq_iff, ← hprevious]
    constructor
    · exact fun hagrees => hagrees point rfl
    · rintro hagrees _ ⟨⟩
      exact hagrees

end RestartPoint

variable {after : Files}

theorem foldl_remove {disk : Disk} {names : List Text} {name : Text} (hname : name ∉ names) :
    names.foldl remove disk name = disk name := by
  induction names generalizing disk with
  | nil => rfl
  | cons first names ih =>
    rw [mem_cons, not_or] at hname
    rw [foldl_cons, ih hname.2, remove, Function.update_of_ne hname.1]

theorem foldl_remove_of_none {disk : Disk} {names : List Text} {name : Text}
    (hname : disk name = none) : names.foldl remove disk name = none := by
  induction names generalizing disk with
  | nil => exact hname
  | cons first names ih =>
    refine ih ?_
    rw [remove, Function.update_apply]
    split_ifs
    · rfl
    · exact hname

/-- The purge keeps the last lines of the index and the files that they name. -/
theorem exists_purgeExpiredBinlog (hsettled : Settled config storage files layout)
    (hpositive : 0 < layout.current.index) (expire : ExpireConfig) :
    ∃ purged kept, files.index.dropLast = purged ++ kept ∧
      (files.purgeExpiredBinlog expire (endRecord config storage layout)).index =
        kept ++ [endRecord config storage layout] ∧
      ∃ names : List Text,
        (files.purgeExpiredBinlog expire (endRecord config storage layout)).disk =
          names.foldl remove files.disk ∧
        ∀ name ∈ names, ∃ line ∈ purged, line.fileName = name := by
  have hindex := hsettled.index_eq
  have hfetched := fetchIndexVector_settled hsettled hpositive
  have hlast := (endRecord config storage layout).equalTo_self
  have holder : ∀ line ∈ files.index.dropLast,
      (endRecord config storage layout).equalTo line = false := by
    intro line hline
    have hearlier := hsettled.shelved.earlier line hline
    have hrecord : (endRecord config storage layout).index = layout.current.index :=
      hsettled.ready.recordIndex
    rw [BinlogIndexRecord.equalTo, hrecord]
    simp [hearlier.ne']
  obtain ⟨purged, kept, hfresh, hkept, hsize, -⟩ :=
    @exists_purgeExpired expire _ _ _ hlast holder
  have htime := @timeRule_eq expire _ _ _ hlast holder
  generalize endRecord config storage layout = record at *
  generalize hfront : files.index.dropLast = older at *
  refine ⟨older.takeWhile (expired expire) ++ purged, kept, ?_, ?_, _, rfl, ?_⟩
  · rw [append_assoc, ← hfresh, takeWhile_append_dropWhile]
  · rw [Files.purgeExpiredBinlog]
    dsimp only
    rw [hfetched, PurgeResult.rewriteIndexFile, hindex]
    split_ifs with hnone
    · rw [purgeExpired_eq, htime, hsize] at hnone
      simp only [append_eq_nil_iff, reverse_eq_nil_iff] at hnone
      rw [hnone.2, nil_append] at hfresh
      have hall := @takeWhile_append_dropWhile _ (expired expire) older
      rw [hnone.1, hfresh, nil_append] at hall
      rw [hall]
    · exact hkept
  · intro name hname
    rw [PurgeResult.purgedFiles, hfetched, hindex, purgeExpired_eq, htime, hsize] at hname
    obtain ⟨line, hline, hown⟩ := mem_map.mp hname
    rw [mem_append, mem_reverse] at hline
    exact ⟨line, mem_append.mpr hline, hown⟩

theorem ready_current (hready : Ready config storage files layout)
    (hfileName : after.fileName = files.fileName)
    (hcurrent : after.disk (config.names.path layout.current.index) =
      files.disk (config.names.path layout.current.index))
    (hfresh : ∀ index, layout.current.index < index → after.disk (config.names.path index) = none)
    (hindexed : ∃ older, after.index.map BinlogIndexRecord.fileName =
      older ++ [config.names.path layout.current.index]) :
    Ready config storage after { current := layout.current } := by
  have hlast : layout.current ∈ layout.files := mem_append_right _ mem_cons_self
  constructor
  case fileName => exact hfileName.trans hready.fileName
  case fileIndex => exact hready.fileIndex
  case recordFile => exact hready.recordFile
  case recordIndex => exact hready.recordIndex
  case curPos => exact hready.curPos
  case chain => exact isChain_singleton _
  case before => exact fun file hfile => absurd hfile not_mem_nil
  case laid => exact forall_mem_singleton.mpr (hready.laid _ hlast)
  case rotates => exact fun file hfile => absurd hfile not_mem_nil
  case unrotated => exact hready.unrotated
  case onDisk => exact forall_mem_singleton.mpr (hcurrent.trans (hready.onDisk _ hlast))
  case fresh => exact hfresh
  case uuids => exact hready.uuids
  case indexed => exact hindexed

/-- The files that are purged are older than those that are kept. -/
theorem recorded_purge (hrecorded : Recorded config storage files layout before first transactions)
    (expire : ExpireConfig) :
    Recorded config storage (files.purgeExpiredBinlog expire (endRecord config storage layout))
      { current := layout.current } before first transactions := by
  have hsettled := hrecorded.settled
  have hshelved := hsettled.shelved
  obtain ⟨purged, kept, hlines, hindex, names, hdisk, hnames⟩ :=
    exists_purgeExpiredBinlog hsettled hrecorded.positive expire
  have hincreasing := hshelved.increasing
  have hpurged : ∀ line ∈ purged, line ∈ files.index.dropLast := fun line hline =>
    hlines ▸ mem_append_left _ hline
  have hkept : ∀ line ∈ kept, line ∈ files.index.dropLast := fun line hline =>
    hlines ▸ mem_append_right _ hline
  rw [hlines, pairwise_append] at hincreasing
  have hremains : ∀ index, (∀ line ∈ purged, line.index < index) →
      (files.purgeExpiredBinlog expire (endRecord config storage layout)).disk
        (config.names.path index) = files.disk (config.names.path index) := by
    intro index hlater
    rw [hdisk, foldl_remove]
    intro hname
    obtain ⟨line, hline, hown⟩ := hnames _ hname
    rw [hshelved.named line (hpurged line hline)] at hown
    exact (hlater line hline).ne (config.names.path_injective hown)
  have hcurrent := hremains layout.current.index fun line hline =>
    hshelved.earlier line (hpurged line hline)
  have hready := hsettled.ready
  refine ⟨⟨?_, ?_, ?_⟩, hrecorded.positive, hrecorded.stores, hrecorded.counts, hrecorded.mappings⟩
  · refine ready_current hready rfl hcurrent (fun index hlater => ?_) ?_
    · rw [hdisk]
      exact foldl_remove_of_none (hready.fresh index hlater)
    · refine ⟨kept.map BinlogIndexRecord.fileName, ?_⟩
      rw [hindex, map_append, map_singleton, endRecord, hready.recordFile]
  · refine ⟨?_, ?_, ?_, ?_, ?_⟩ <;> rw [hindex, dropLast_concat]
    · exact fun line hline => hshelved.positive line (hkept line hline)
    · exact fun line hline => hshelved.named line (hkept line hline)
    · intro line hline
      rw [hshelved.named line (hkept line hline),
        hremains _ fun old hold => hincreasing.2.2 old hold line hline,
        ← hshelved.named line (hkept line hline)]
      exact hshelved.onDisk line (hkept line hline)
    · exact hincreasing.2.1
    · exact fun line hline => hshelved.earlier line (hkept line hline)
  · rw [Indexed, hindex, BinlogIndex.getLatestIndex, getLast?_concat, getD_some]
    rfl

def startRotate (config : Config) (storage : BinlogStorage) (timestamp count : ℕ) :
    PendingRotate :=
  ⟨newRotateEvent config (config.names.fillBinlogFileName (storage.indexRecord.index + 1))
    timestamp storage.curPos, storage.indexRecord.index + 1,
    config.names.fillBinlogFileName (storage.indexRecord.index + 1),
    gtidsUpTo config.masterServerUuid count⟩

def RotateFits (config : Config) (storage : BinlogStorage) : Prop :=
  storage.curPos + (startRotate config storage 0 0).event.eventLength config.checksum < 2 ^ 32

instance (config : Config) (storage : BinlogStorage) : Decidable (RotateFits config storage) :=
  inferInstanceAs (Decidable (_ < _))

variable {stored : BinlogStorage}

section Enabled

variable (henabled : config.checksum.enabled = true)

include henabled

theorem header_gtidsUpTo (count : ℕ) :
    147 + 2 * config.checksum.len +
      ((gtidsUpTo config.masterServerUuid count).map gtidLength).sum < 2 ^ 32 := by
  have hsum := sum_gtidLength_gtidsUpTo_le config.masterServerUuid count
  rw [Checksum.len_of_enabled henabled]
  omega

theorem toNext_startRotate (hvalid : ValidUuid config.masterServerUuid)
    (hready : Ready config storage files layout) (hfits : RotateFits config storage)
    (timestamp count : ℕ) : ToNext config storage (startRotate config storage timestamp count) := by
  have hposition : (startRotate config storage timestamp count).event.nextPosition =
      storage.curPos + (startRotate config storage timestamp count).event.eventLength
        config.checksum :=
    Nat.mod_eq_of_lt hfits
  refine ⟨?_, rfl, rfl, hposition, hposition ▸ hfits, distinctUuids_gtidsUpTo hvalid count,
    header_gtidsUpTo henabled count⟩
  rw [hready.fileIndex, ← hready.recordIndex]
  rfl

theorem rotateChecksum_of_enabled :
    rotateChecksum config config.checksum.flag = config.checksum := by
  have hflag : config.checksum.flag = 1 := if_pos henabled
  rw [rotateChecksum, hflag, if_neg Nat.one_ne_zero]

/-- The rotation of a start closes the file as one by size does. -/
theorem restartFiles_eq (hop : point.op = .rotate) (hexisted : point.rotateExisted = false)
    (hflag : point.checksumFlag = config.checksum.flag) {rotate : PendingRotate}
    (hname : files.fileName = config.names.path (rotate.index - 1)) (record : BinlogIndexRecord) :
    restartFiles config start files record point rotate =
      ((files.purgeExpiredBinlog start.expire record).persistentBinlog
        (rotate.event.flushToBuff config.checksum) record).initNextBinlogFile config rotate
          record := by
  simp only [restartFiles, hop, hflag, rotateChecksum_of_enabled henabled, hexisted,
    Files.rotateCurrentBinlog, Bool.false_eq_true, if_false, Files.initNextBinlogFile,
    Files.initBinlogFile, ← hname]
  rfl

theorem restartRotate_eq (hop : point.op = .rotate)
    (hflag : point.checksumFlag = config.checksum.flag) (count : ℕ) :
    restartRotate config (endRecord config storage layout) storage.curPos point
        (gtidsUpTo config.masterServerUuid count) =
      startRotate config storage point.storage.startTimestamp count := by
  simp only [restartRotate, hop, hflag, rotateChecksum_of_enabled henabled]
  rfl

end Enabled

theorem getLatestIndex_initNextBinlogFile (files : Files) (rotate : PendingRotate)
    (record : BinlogIndexRecord) :
    (files.initNextBinlogFile config rotate record).index.getLatestIndex =
      { record with
        index := rotate.index
        fileName := dataPath rotate.nextBinlogFileName
        position := (files.initNextBinlogFile config rotate record).disk.fileSize
          (files.initNextBinlogFile config rotate record).fileName } :=
  BinlogIndex.getLatestIndex_addIndex _ _

theorem settled_rotate (hready : Ready config storage files layout)
    (hshelved : Shelved config files layout.current.index) (hpositive : 0 < layout.current.index)
    (hheaded : layout.current.Headed config) {rotate : PendingRotate}
    (hnext : ToNext config storage rotate) {record : BinlogIndexRecord}
    (hname : record.fileName = config.names.path layout.current.index)
    (hindex : record.index = layout.current.index)
    (hafter : after = (files.persistentBinlog (rotate.event.flushToBuff config.checksum)
      record).initNextBinlogFile config rotate record) (hstart : AtStart config stored rotate)
    (hlatest : stored.indexRecord = after.index.getLatestIndex) :
    Settled config stored after (layout.rotate rotate) := by
  subst hafter
  have hrotated := hready.rotate hnext (rotated_initNextBinlogFile hready hnext hname) hstart
  refine ⟨hrotated, ?_, ?_⟩
  · refine @Shelved.rotate _ files layout hshelved hpositive hheaded _ _ _ hrotated
      (fun index hlt => ?_) _ (dropLast_concat ..) hindex hname
    refine disk_initNextBinlogFile hready.fileName ?_ hnext.name _ _ hlt
    rw [hnext.index, hready.fileIndex]
  · rw [Indexed, hlatest, ← hrotated.fileSize, getLatestIndex_initNextBinlogFile]

section Restarted

variable (henabled : config.checksum.enabled = true) (hvalid : ValidUuid config.masterServerUuid)
  (hrecorded : Recorded config storage files layout before first transactions)
  {gtidExecuted : Text} {stored : BinlogStorage} {after : Files}
  (htext : joinVectorStr (gtidsUpTo config.masterServerUuid
    (executedGtid storage.indexRecord before transactions)) = some gtidExecuted)
  (hrecover : recoverSafely config start gtidExecuted files = some (stored, after))

include henabled hvalid hrecorded htext hrecover

theorem recoverSafely_recorded :
    ∃ point rotate,
      rotate = startRotate config storage point.storage.startTimestamp
        (executedGtid storage.indexRecord before transactions) ∧
      Resumes start storage.indexRecord (lastGtidLogEvent layout.current) point.storage ∧
      ResumesBehind config start storage.indexRecord (lastGtidLogEvent layout.current) ∧
      stored = restartStorage config point rotate ∧
      after = ((files.purgeExpiredBinlog start.expire
          (endRecord config storage layout)).persistentBinlog
        (rotate.event.flushToBuff config.checksum)
        (endRecord config storage layout)).initNextBinlogFile config rotate
          (endRecord config storage layout) := by
  have hready := hrecorded.settled.ready
  have hlatest : files.index.getLatestIndex = endRecord config storage layout :=
    hrecorded.settled.indexed
  rw [recoverSafely, hlatest] at hrecover
  obtain ⟨point, hpoint, hpassed⟩ := bind_eq_some_iff.mp hrecover
  obtain ⟨hop, hexisted, hflag, hresumes, hprevious⟩ :=
    restartPoint_resumes hrecorded hvalid hpoint
  dsimp only at hpassed
  rw [← restartPreviousGtids, hprevious] at hpassed
  split_ifs at hpassed with hsame
  have hexecuted := joinVectorStr_gtidsUpTo_injective _ (hsame.trans htext.symm)
  have hsize : files.disk.fileSize (endRecord config storage layout).fileName =
      storage.curPos := by
    rw [fileSize, content, endRecord, hready.recordOnDisk, getD_some, hready.curPos]
  have hname : ∀ timestamp count, files.fileName =
      config.names.path ((startRotate config storage timestamp count).index - 1) := by
    intro timestamp count
    rw [hready.fileName, ← hready.recordIndex, startRotate, Nat.add_sub_cancel]
  rw [hexecuted, hsize, restartRotate_eq henabled hop hflag] at hpassed
  obtain ⟨hstored, hafter⟩ := Prod.mk.inj (some.inj hpassed)
  refine ⟨point, _, rfl, hresumes, (hresumes.executed_iff hrecorded).mp hexecuted, hstored.symm, ?_⟩
  rw [← hafter, restartFiles_eq henabled hop hexisted hflag (hname _ _)]

/-- A start that is not refused opens the next file and goes on behind what is executed. -/
theorem recorded_restart (hfits : RotateFits config storage) :
    ∃ layoutAfter beforeAfter firstAfter,
      Recorded config { stored with indexRecord := after.index.getLatestIndex } after layoutAfter
        beforeAfter firstAfter [] := by
  obtain ⟨point, rotate, hrotate, hresumes, hbehind, rfl, hafter⟩ :=
    recoverSafely_recorded henabled hvalid hrecorded htext hrecover
  obtain ⟨number, hnext, hpositive, hbound, hge, hle, hmappings⟩ :=
    hresumes.exists_next hrecorded.mappings hrecorded.counts.le_first hrecorded.counts.bound
      hrecorded.counts.room (lastGtidLogEvent_recorded hrecorded).2 hbehind
  have hroom := hrecorded.mappings.executed_succ_lt hrecorded.counts.le_first
    hrecorded.counts.bound hrecorded.counts.room
  have hready := hrecorded.settled.ready
  have hpurged := recorded_purge hrecorded start.expire
  have hopens := toNext_startRotate henabled hvalid hready hfits point.storage.startTimestamp
    (executedGtid storage.indexRecord before transactions)
  rw [← hrotate] at hopens
  have hheader : rotate.nextPreviousGtids = gtidsUpTo config.masterServerUuid
      (executedGtid storage.indexRecord before transactions) := by
    rw [hrotate]
    rfl
  have hopened : after.index.getLatestIndex = _ :=
    hafter ▸ getLatestIndex_initNextBinlogFile _ _ _
  have hstart : AtStart config
      { restartStorage config point rotate with indexRecord := after.index.getLatestIndex }
      rotate := by
    refine ⟨rfl, ?_, ?_, startPos_eq henabled hopens.header, hopens.uuids⟩
    · dsimp only
      rw [hopened, hopens.name]
      rfl
    · dsimp only
      rw [hopened]
  have hsettled := settled_rotate hpurged.settled.ready hpurged.settled.shelved hpurged.positive
    hpurged.stores.headed hopens hready.recordFile hready.recordIndex hafter hstart rfl
  have hlaid := hsettled.ready.laid _ (mem_append_right _ mem_cons_self)
  refine ⟨_, _, number, hsettled, ?_, stores_nil hlaid rfl rfl hheader hroom, ?_, ?_⟩
  · change 0 < rotate.index
    rw [hopens.index]
    exact Nat.succ_pos _
  · exact ⟨hheader, rfl, hpositive, hge, hle, hnext.of_same rfl rfl rfl rfl rfl, hbound, hroom⟩
  · refine hmappings.of_same ?_ ?_ <;> dsimp only <;> rw [hopened] <;> rfl

end Restarted

theorem initStorage_recorded
    (hrecorded : Recorded config storage files layout before first transactions) :
    initStorage config start ⟨files.disk, files.index⟩ = files := by
  have hready := hrecorded.settled.ready
  have hlatest : files.index.getLatestIndex = endRecord config storage layout :=
    hrecorded.settled.indexed
  have hname : (endRecord config storage layout).fileName = files.fileName := by
    rw [endRecord, hready.recordFile, hready.fileName]
  have hne : files.fileName ≠ [] := by
    rw [hready.fileName]
    exact config.names.path_ne_nil _
  simp only [initStorage, hlatest, hname, if_neg hne]

theorem left_restart (henabled : config.checksum.enabled = true)
    (hvalid : ValidUuid config.masterServerUuid)
    (hleft : Left config storage files layout before first transactions)
    (hfits : RotateFits config storage)
    (hstart : startInstance config start ⟨files.disk, files.index⟩ = some (stored, after)) :
    ∃ layoutAfter beforeAfter firstAfter,
      Left config stored after layoutAfter beforeAfter firstAfter [] := by
  have hrecorded := hleft.recorded
  obtain ⟨purged, hvariables⟩ := initGtidVariables_recorded hvalid hrecorded
  obtain ⟨text, htext⟩ := exists_joinVectorStr_gtidsUpTo config.masterServerUuid
    (executedGtid storage.indexRecord before transactions)
  have hinit := @initStorage_recorded _ start _ _ _ _ _ _ hrecorded
  rw [startInstance, preprocessBreakpointBinlog_left henabled hvalid hleft, bind_some]
    at hstart
  rw [hvariables, bind_some, htext, bind_some, hinit] at hstart
  obtain ⟨⟨recovered, files⟩, hrecover, heq⟩ := map_eq_some_iff.mp hstart
  obtain ⟨rfl, rfl⟩ := Prod.mk.inj heq
  obtain ⟨layoutAfter, beforeAfter, firstAfter, hafter⟩ :=
    recorded_restart henabled hvalid hrecorded htext hrecover hfits
  exact ⟨layoutAfter, beforeAfter, firstAfter, hafter.left⟩

def firstNumber (config : Config) : ℕ :=
  max config.initialObTxnGtidSeq 1

theorem initGtidVariables_new (hvalid : ValidUuid config.masterServerUuid) (disk : Disk) :
    initGtidVariables config ⟨disk, []⟩ =
      some ⟨gtidsUpTo config.masterServerUuid (config.initialObTxnGtidSeq - 1),
        gtidsUpTo config.masterServerUuid (config.initialObTxnGtidSeq - 1)⟩ := by
  have hmerge := mergeGtidBefore_gtidsUpTo hvalid (by decide : 0 + 1 < 2 ^ 64) Nat.one_pos
    (Nat.le_add_left _ _) (config.initialObTxnGtidSeq - 1)
  rw [gtidsUpTo_zero, Nat.zero_max] at hmerge
  simp only [initGtidVariables, fetchIndexVector, filter_nil, head?_nil,
    getLast?_nil, mergeExecuted]
  split_ifs with hpositive
  · rw [hmerge]
  · rw [Nat.eq_zero_of_not_pos hpositive, gtidsUpTo_zero]

def firstRecord (config : Config) (start : Start) : BinlogIndexRecord :=
  { fileName := config.names.path 1
    index := 1
    currentMapping := initialMapping config
    checkpoint := start.startTimestamp }

def firstRotate (config : Config) (start : Start) : PendingRotate :=
  restartRotate config (firstRecord config start) 0 (firstStartPoint config start)
    (gtidsUpTo config.masterServerUuid (config.initialObTxnGtidSeq - 1))

theorem lastGtid_firstStartPoint_eq (hbound : config.initialObTxnGtidSeq < 2 ^ 64)
    (hlast : lastGtid (firstStartPoint config start).storage = config.initialObTxnGtidSeq - 1) :
    config.initialObTxnId ≠ [] → 0 < config.initialObTxnGtidSeq := by
  intro hid
  simp only [lastGtid, firstStartPoint, Bool.and_false, Bool.false_eq_true, if_false] at hlast
  rw [if_pos (.inr hid), if_pos (.inr hid)] at hlast
  dsimp only at hlast
  omega

theorem firstStart_eq (hvalid : ValidUuid config.masterServerUuid)
    (hbound : config.initialObTxnGtidSeq < 2 ^ 64)
    (hstart : startInstance config start ⟨fun _ => none, []⟩ = some (storage, files)) :
    (config.initialObTxnId ≠ [] → 0 < config.initialObTxnGtidSeq) ∧
      storage = { restartStorage config (firstStartPoint config start) (firstRotate config start)
        with indexRecord := firstRecord config start } ∧
      files = Files.initBinlogFile config
        ⟨fun _ => none, [firstRecord config start], config.names.path 1⟩
        (firstRotate config start) := by
  have hnew : preprocessBreakpointBinlog config.checksum (gtidSeqs start.manager)
      ⟨fun _ => none, []⟩ = some ⟨fun _ => none, []⟩ := rfl
  have hinit : initStorage config start ⟨fun _ => none, []⟩ =
      ⟨fun _ => none, [firstRecord config start], config.names.path 1⟩ := rfl
  have hpoint : restartPoint config start (fun _ => none) (firstRecord config start) =
      some (firstStartPoint config start) := if_pos (.inr rfl)
  have hlatest : BinlogIndex.getLatestIndex [firstRecord config start] =
      firstRecord config start := rfl
  have hmerge := mergeGtidBefore_gtidsUpTo hvalid (by decide : 0 + 1 < 2 ^ 64) Nat.one_pos
    (Nat.le_add_left _ _) (lastGtid (firstStartPoint config start).storage)
  rw [gtidsUpTo_zero, Nat.zero_max] at hmerge
  obtain ⟨text, htext⟩ := exists_joinVectorStr_gtidsUpTo config.masterServerUuid
    (config.initialObTxnGtidSeq - 1)
  rw [startInstance, hnew, bind_some, initGtidVariables_new hvalid, bind_some, htext,
    bind_some, hinit, recoverSafely, hlatest, hpoint, bind_some] at hstart
  obtain ⟨⟨recovered, opened⟩, hrecover, heq⟩ := map_eq_some_iff.mp hstart
  obtain ⟨rfl, rfl⟩ := Prod.mk.inj heq
  dsimp only at hrecover
  have hprevious : mergeGtidBefore config.masterServerUuid
      (firstStartPoint config start).storage.previousGtidMessages
      ((firstStartPoint config start).storage.firstGtidSeq,
        lastGtid (firstStartPoint config start).storage) =
        gtidsUpTo config.masterServerUuid (lastGtid (firstStartPoint config start).storage) :=
    hmerge
  rw [hprevious] at hrecover
  split_ifs at hrecover with hsame
  have hlast := joinVectorStr_gtidsUpTo_injective _ (hsame.trans htext.symm)
  rw [hlast] at hrecover
  obtain ⟨rfl, rfl⟩ := Prod.mk.inj (some.inj hrecover)
  exact ⟨lastGtid_firstStartPoint_eq hbound hlast, rfl, rfl⟩

/-- The initial transaction is waited for and kept. -/
theorem next_firstStartPoint
    (hinitial : config.initialObTxnId ≠ [] → 0 < config.initialObTxnGtidSeq) :
    Next (firstStartPoint config start).storage (firstNumber config) := by
  by_cases hid : config.initialObTxnId = []
  · refine next_of_unfiltered ?_ ?_
    · simp only [firstStartPoint, hid]
      split_ifs <;> rfl
    · simp only [firstStartPoint, firstNumber, hid, ne_eq, not_true_eq_false, or_false]
      split_ifs with hpositive
      · exact (max_eq_left hpositive).symm
      · omega
  · have hpositive := hinitial hid
    refine .inr ⟨config.initialObTxnId, config.initialObTxnGtidSeq, ⟨?_, rfl, ?_, ?_⟩, ?_⟩
    · simp [firstStartPoint, hid]
    · simp [firstStartPoint, hid]
    · simp [firstStartPoint, hid]
    · exact max_eq_left hpositive

theorem mappings_firstRecord
    (hinitial : config.initialObTxnId ≠ [] → 0 < config.initialObTxnGtidSeq) :
    Mappings config (firstRecord config start) (config.initialObTxnGtidSeq - 1)
      (firstNumber config) [] := by
  rw [firstNumber]
  by_cases hid : config.initialObTxnId = []
  · have hrecord : (firstRecord config start).currentMapping =
        ([], config.initialObTxnGtidSeq - 1) := if_pos hid
    refine ⟨Nat.zero_le _, ?_, fun hne => absurd rfl hne, fun _ => ?_, fun _ => ?_, ?_, ?_⟩
    · exact fun hne => absurd (congrArg Prod.fst hrecord) hne
    · exact .inl (congrArg Prod.snd hrecord)
    · rw [hrecord]
      dsimp only
      omega
    · exact fun hne => absurd hid hne
    · rw [AwaitsInitial, hrecord]
      exact iff_of_false (fun hawaits => hawaits.1 hid) (by simp)
  · have hpositive := hinitial hid
    have hrecord : (firstRecord config start).currentMapping =
        (config.initialObTxnId, config.initialObTxnGtidSeq) := if_neg hid
    refine ⟨Nat.zero_le _, ?_, fun hne => absurd rfl hne, fun _ => ?_, fun _ => ?_, ?_, ?_⟩
    all_goals try rw [AwaitsInitial]
    all_goals rw [hrecord]
    · exact fun _ => hpositive
    · exact .inr ⟨by dsimp only; omega, by omega⟩
    · exact fun _ => hid
    · exact fun _ => le_rfl
    · exact iff_of_true ⟨hid, rfl, rfl⟩ ⟨rfl, by dsimp only; omega⟩

theorem left_first (henabled : config.checksum.enabled = true)
    (hvalid : ValidUuid config.masterServerUuid) (hbound : config.initialObTxnGtidSeq < 2 ^ 64)
    (hstart : startInstance config start ⟨fun _ => none, []⟩ = some (storage, files)) :
    ∃ layout, Left config storage files layout (config.initialObTxnGtidSeq - 1)
      (firstNumber config) [] := by
  obtain ⟨hinitial, rfl, rfl⟩ := firstStart_eq hvalid hbound hstart
  have hheader := header_gtidsUpTo henabled (config.initialObTxnGtidSeq - 1)
  have huuids := distinctUuids_gtidsUpTo hvalid (config.initialObTxnGtidSeq - 1)
  have hready := @ready_new config
    { restartStorage config (firstStartPoint config start) (firstRotate config start) with
      indexRecord := firstRecord config start }
    (Files.initBinlogFile config
      ⟨fun _ => none, [firstRecord config start], config.names.path 1⟩ (firstRotate config start))
    (firstRotate config start) huuids hheader
    ⟨rfl, rfl, rfl, startPos_eq henabled hheader, huuids⟩
    (write_self _ _ _)
    (fun index hlater => write_of_ne _ _ (config.names.path_injective.ne hlater.ne'))
    rfl ⟨[], rfl⟩
  have hnumber : 0 < firstNumber config ∧ config.initialObTxnGtidSeq - 1 ≤ firstNumber config ∧
      firstNumber config ≤ config.initialObTxnGtidSeq - 1 + 1 ∧ firstNumber config < 2 ^ 64 ∧
      config.initialObTxnGtidSeq - 1 + 1 < 2 ^ 64 := by
    rw [firstNumber]
    omega
  obtain ⟨hpositive, hge, hle, hlt, hroom⟩ := hnumber
  have hlaid := hready.laid _ (mem_append_right _ mem_cons_self)
  refine ⟨_, hready, ?_, Nat.one_pos, stores_nil hlaid rfl rfl rfl hroom, ?_,
    mappings_firstRecord hinitial, .inr ⟨rfl, rfl, rfl⟩⟩
  · exact ⟨by rintro _ ⟨⟩, by rintro _ ⟨⟩, by rintro _ ⟨⟩, List.Pairwise.nil, by rintro _ ⟨⟩⟩
  · have hnext := @next_firstStartPoint _ start hinitial
    exact ⟨rfl, rfl, hpositive, hge, hle, hnext.of_same rfl rfl rfl rfl rfl, hlt, hroom⟩

/-- What an instance can leave behind: it starts for the first time, it stores batches of
whole transactions with heartbeats anywhere, and it starts again. -/
inductive Run (config : Config) : BinlogStorage → Files → Prop
  | first (start : Start) {storage : BinlogStorage} {files : Files}
      (hstart : startInstance config start ⟨fun _ => none, []⟩ = some (storage, files)) :
      Run config storage files
  | store {storage stored : BinlogStorage} {files after : Files} (hrun : Run config storage files)
      (batches : List (List ObLogEvent)) (stream : List Transaction)
      (hnew : ∀ event ∈ batches.flatten, event.filter = true)
      (hstream : (batches.flatten.filter fun event => event.kind ≠ .heartbeat) =
        stream.flatMap Transaction.events)
      (hbodies : ∀ transaction ∈ stream, ∀ event ∈ transaction.events, event.body.Fits)
      (hfits : PositionsFit config storage batches.flatten)
      (hbound : storage.txnGtidSeq + stream.length + 1 < 2 ^ 64)
      (hbatches : runBatches config (storage, files) batches = some (stored, after)) :
      Run config stored after
  | restart {storage restarted : BinlogStorage} {files after : Files}
      (hrun : Run config storage files) (start : Start) (hfits : RotateFits config storage)
      (hstart : startInstance config start ⟨files.disk, files.index⟩ = some (restarted, after)) :
      Run config restarted after

def Agrees (config : Config) (start : Start) (home : Home) : Prop :=
  ∃ found gtids,
    preprocessBreakpointBinlog config.checksum (gtidSeqs start.manager) home = some found ∧
    initGtidVariables config found = some gtids ∧
    ∀ point ∈ restartPoint config start found.disk found.index.getLatestIndex,
      restartPreviousGtids config point = gtids.gtidExecutedSet

def Home.lastGtidLogEvent (home : Home) : Option GtidLogEvent :=
  (seekGtidEventOf home.disk home.index.getLatestIndex.fileName {}).bind
    fun found => found.1.gtidLogEvents.getLast?

theorem Run.exists_left (hrun : Run config storage files)
    (henabled : config.checksum.enabled = true) (hvalid : ValidUuid config.masterServerUuid)
    (hinitial : config.initialObTxnGtidSeq < 2 ^ 64) :
    ∃ layout before first transactions,
      Left config storage files layout before first transactions := by
  induction hrun with
  | first start hstart =>
    obtain ⟨layout, hleft⟩ := left_first henabled hvalid hinitial hstart
    exact ⟨layout, _, _, _, hleft⟩
  | store hrun batches stream hnew hstream hbodies hfits hbound hbatches ih =>
    obtain ⟨layout, before, first, transactions, hleft⟩ := ih
    exact hleft.runBatches henabled hvalid hnew hstream hbodies hfits hbound hbatches
  | restart hrun start hfits hstart ih =>
    obtain ⟨layout, before, first, transactions, hleft⟩ := ih
    obtain ⟨layoutAfter, beforeAfter, firstAfter, hafter⟩ :=
      left_restart henabled hvalid hleft hfits hstart
    exact ⟨layoutAfter, beforeAfter, firstAfter, [], hafter⟩

section Left

variable (hvalid : ValidUuid config.masterServerUuid)
  (hleft : Left config storage files layout before first transactions)

include hvalid hleft

theorem agrees_left_iff (henabled : config.checksum.enabled = true) (start : Start) :
    Agrees config start ⟨files.disk, files.index⟩ ↔
      ResumesBehind config start storage.indexRecord (lastGtidLogEvent layout.current) := by
  have hrecorded := hleft.recorded
  have hlatest : BinlogIndex.getLatestIndex
      (files.index.updateIndex (endRecord config storage layout)) =
        endRecord config storage layout := hrecorded.settled.indexed
  obtain ⟨purged, hvariables⟩ := initGtidVariables_recorded hvalid hrecorded
  rw [← restartPoint_agrees_iff hrecorded hvalid, Agrees,
    preprocessBreakpointBinlog_left henabled hvalid hleft]
  constructor
  · rintro ⟨_, _, ⟨⟩, hgtids, hagrees⟩
    obtain rfl := some.inj (hvariables.symm.trans hgtids)
    rwa [hlatest] at hagrees
  · intro hagrees
    refine ⟨_, _, rfl, hvariables, ?_⟩
    rwa [hlatest]

theorem lastGtidLogEvent_left :
    Home.lastGtidLogEvent ⟨files.disk, files.index⟩ = lastGtidLogEvent layout.current := by
  obtain ⟨position, hlatest, -⟩ := hleft.exists_position
  obtain ⟨lastXid, hseek⟩ := seekGtidEvent_stores hvalid hleft.stores {}
  rw [Home.lastGtidLogEvent, hlatest, seekGtidEventOf]
  dsimp only
  rw [hleft.ready.recordOnDisk]
  dsimp only
  rw [hseek]
  rfl

end Left

/-- After any run the two counts of the executed gtids agree at the next start exactly in
these cases: the start goes on from a heartbeat and does not wait for the initial
transaction any more, or it goes on from the last file and the last transaction there,
if there is one, has an id. -/
theorem agrees_iff_resumesBehind (config : Config) (henabled : config.checksum.enabled = true)
    (hvalid : ValidUuid config.masterServerUuid)
    (hinitial : config.initialObTxnGtidSeq < 2 ^ 64) (storage : BinlogStorage) (files : Files)
    (hrun : Run config storage files) (start : Start) :
    Agrees config start ⟨files.disk, files.index⟩ ↔
      ResumesBehind config start files.index.getLatestIndex
        (Home.lastGtidLogEvent ⟨files.disk, files.index⟩) := by
  obtain ⟨layout, before, first, transactions, hleft⟩ := hrun.exists_left henabled hvalid hinitial
  obtain ⟨position, hlatest, -⟩ := hleft.exists_position
  rw [agrees_left_iff hvalid hleft henabled, lastGtidLogEvent_left hvalid hleft, hlatest]
  exact Iff.rfl

def roomyConfig : Config :=
  { smallConfig with maxBinlogSize := 2 ^ 20 }

def plainStart : Start :=
  { expire := ⟨0, 0, 0⟩ }

theorem isSome_firstStart :
    (startInstance roomyConfig plainStart ⟨fun _ => none, []⟩).isSome = true := by
  decide +kernel

def firstStarted : BinlogStorage × Files :=
  (startInstance roomyConfig plainStart ⟨fun _ => none, []⟩).get isSome_firstStart

theorem fits_smallDml (obTxn : Text) : ∀ event ∈ (smallDml obTxn).events, event.body.Fits := by
  simp only [smallDml, forall_mem_cons, not_mem_nil, false_implies, implies_true, and_true]
  refine ⟨⟨by decide, rfl, by decide, by decide, by decide, by decide⟩, ⟨by decide, by decide⟩,
    trivial, trivial⟩

theorem run_smallDml (hrun : Run roomyConfig storage files) {obTxn : Text}
    (hfits : PositionsFit roomyConfig storage (smallDml obTxn).events)
    (hbound : storage.txnGtidSeq + 2 < 2 ^ 64)
    (hbatch : runBatches roomyConfig (storage, files) [(smallDml obTxn).events] =
      some (stored, after)) : Run roomyConfig stored after := by
  have hkinds : (smallDml obTxn).events.filter (fun event => event.kind ≠ .heartbeat) =
      (smallDml obTxn).events := by
    rw [filter_eq_self]
    intro event hevent
    exact decide_eq_true ((smallDml obTxn).kind_ne_heartbeat hevent)
  refine .store hrun [(smallDml obTxn).events] [smallDml obTxn] ?_ ?_ ?_ ?_ hbound hbatch
  · simp [smallDml, smallGtid, smallEvent]
  · simpa using hkinds
  · exact forall_mem_singleton.mpr (fits_smallDml obTxn)
  · simpa using hfits

theorem run_firstStarted : Run roomyConfig firstStarted.1 firstStarted.2 :=
  .first plainStart (some_get isSome_firstStart).symm

theorem isSome_unnamed :
    (runBatches roomyConfig firstStarted [(smallDml []).events]).isSome = true := by
  decide +kernel

def unnamed : BinlogStorage × Files :=
  (runBatches roomyConfig firstStarted [(smallDml []).events]).get isSome_unnamed

theorem run_unnamed : Run roomyConfig unnamed.1 unnamed.2 :=
  run_smallDml run_firstStarted (by decide +kernel) (by decide +kernel)
    (some_get isSome_unnamed).symm

/-- The transaction is executed, and the start counts the next number with it. -/
theorem not_agrees_unnamed :
    Run roomyConfig unnamed.1 unnamed.2 ∧
      ¬Agrees roomyConfig plainStart ⟨unnamed.2.disk, unnamed.2.index⟩ := by
  have hvalid : ValidUuid roomyConfig.masterServerUuid := by decide
  refine ⟨run_unnamed, ?_⟩
  obtain ⟨layout, before, first, transactions, hleft⟩ :=
    run_unnamed.exists_left rfl hvalid (by decide)
  rw [agrees_left_iff hvalid hleft rfl, ← lastGtidLogEvent_left hvalid hleft]
  decide +kernel

theorem isSome_named :
    (runBatches roomyConfig firstStarted [(smallDml ['a']).events]).isSome = true := by
  decide +kernel

def named : BinlogStorage × Files :=
  (runBatches roomyConfig firstStarted [(smallDml ['a']).events]).get isSome_named

theorem run_named : Run roomyConfig named.1 named.2 :=
  run_smallDml run_firstStarted (by decide +kernel) (by decide +kernel)
    (some_get isSome_named).symm

theorem isSome_restarted :
    (startInstance roomyConfig plainStart ⟨named.2.disk, named.2.index⟩).isSome = true := by
  decide +kernel

def restarted : BinlogStorage × Files :=
  (startInstance roomyConfig plainStart ⟨named.2.disk, named.2.index⟩).get isSome_restarted

theorem rotateFits_named : RotateFits roomyConfig named.1 := by
  decide +kernel

theorem startInstance_named :
    startInstance roomyConfig plainStart ⟨named.2.disk, named.2.index⟩ =
      some (restarted.1, restarted.2) := by
  rw [Prod.mk.eta, restarted, some_get]

theorem run_restarted : Run roomyConfig restarted.1 restarted.2 :=
  run_named.restart plainStart rotateFits_named startInstance_named

/-- A start behind a transaction with an id and a restart. -/
theorem agrees_restarted :
    Run roomyConfig restarted.1 restarted.2 ∧
      Agrees roomyConfig plainStart ⟨restarted.2.disk, restarted.2.index⟩ :=
  ⟨run_restarted, (agrees_iff_resumesBehind roomyConfig rfl (by decide) (by decide) restarted.1
    restarted.2 run_restarted plainStart).mpr (by decide +kernel)⟩

end OblogProxy.Recovery
