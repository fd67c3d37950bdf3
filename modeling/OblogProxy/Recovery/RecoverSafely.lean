import OblogProxy.Recovery.PreprocessBreakpoint
import OblogProxy.Recovery.ScanTermination
import OblogProxy.Storage.Pipeline
import OblogProxy.Storage.PurgeExpired

/-!
# Starting the storage

A process starts with the files, the index and the gtid mapping that an earlier one
has left.  It recovers the breakpoint, sets `gtid_executed` from the last binlog file,
and `recover_safely` decides where the OB stream is to be read again from, which
transaction of it to wait for, and whether that one is stored already; then it goes
over to a new file.
-/

namespace OblogProxy.Storage

open Bytes Event

namespace Files

def purgeExpiredBinlog (expire : ExpireConfig) (files : Files) (record : BinlogIndexRecord) :
    Files :=
  let result := purgeExpired expire record (fetchIndexVector files.index)
  { files with
    disk := result.purgedFiles.foldl Disk.remove files.disk
    index := result.rewriteIndexFile files.index }

/-- `rotate_current_binlog`: the rotate event is written unless the file has one, and
the flags of the file are cleared. -/
def rotateCurrentBinlog (checksum : Checksum) (files : Files) (rotate : PendingRotate)
    (existed : Bool) (record : BinlogIndexRecord) : Files :=
  let files :=
    if existed then files
    else files.persistentBinlog (rotate.event.flushToBuff checksum) record
  { files with
    disk := files.disk.rewrite files.fileName (storeLE flagsLen 0)
      (binlogMagicSize + flagsOffset) }

def initBinlogFile (config : Config) (files : Files) (rotate : PendingRotate) : Files :=
  let binPath := dataPath rotate.nextBinlogFileName
  { files with
    disk := files.disk.appendFile binPath
      (headerBytes config.checksum config.serverId rotate.event.timestamp rotate.nextPreviousGtids)
    fileName := binPath }

end Files

end OblogProxy.Storage

namespace OblogProxy.Recovery

open Bytes Event Gtid Loop Storage

/-- `seek_events` of a file that can be opened.  The buffer on the stack is taken as
zeroed. -/
def seekEvents (file : Bytes) (eventType : EventType) (single : Bool) :
    Option (List (OblogEventHeader × Bytes)) :=
  if slice file 0 binlogMagicSize = binlogMagic then
    (finish (seekEventsStep file eventType single) (file.length + 1)
      { buff := List.replicate commonHeaderLength 0 }).map SeekEvents.logEvents
  else none

/-- `get_previous_gtid_set`; without a previous-gtids event `at(0)` throws. -/
def getPreviousGtidSet (file : Bytes) : Option (List GtidMessage) :=
  match seekEvents file .previousGtidsLogEvent true with
  | some ((_, event) :: _) =>
    some ((PreviousGtidsLogEvent.deserialize event).gtidMessages.entries.map Prod.snd)
  | _ => none

structure GtidVariables where
  gtidPurgedSet : List GtidMessage := []
  gtidExecutedSet : List GtidMessage := []

/-- The number of the last gtid event of the last file; a file without one goes by its
record. -/
def lastExecutedGtid (record : BinlogIndexRecord)
    (gtidLogEvents : List (OblogEventHeader × Bytes)) : ℕ :=
  match gtidLogEvents.getLast? with
  | some event => (GtidLogEvent.deserialize event.2).gtidTxnId
  | none =>
    if 0 < record.currentMapping.2 then
      if record.beforeMapping.1 = [] then record.currentMapping.2 - 1
      else record.currentMapping.2
    else 0

def mergeExecuted (config : Config) (gtidExecutedSet : List GtidMessage) (lastGtid : ℕ) :
    List GtidMessage :=
  if 0 < lastGtid then mergeGtidBefore config.masterServerUuid gtidExecutedSet (1, lastGtid)
  else gtidExecutedSet

def initGtidVariables (config : Config) (home : Home) : Option GtidVariables :=
  let indexRecords := fetchIndexVector home.index
  match indexRecords.head?, indexRecords.getLast? with
  | some firstRecord, some lastRecord =>
    ((home.disk firstRecord.fileName).bind getPreviousGtidSet).bind fun gtidPurgedSet =>
    ((home.disk lastRecord.fileName).bind getPreviousGtidSet).bind fun gtidExecutedSet =>
    ((home.disk lastRecord.fileName).bind fun file =>
        seekEvents file .gtidLogEvent false).map fun gtidLogEvents =>
      { gtidPurgedSet
        gtidExecutedSet := mergeExecuted config gtidExecutedSet
          (lastExecutedGtid lastRecord gtidLogEvents) }
  | _, _ =>
    let gtidSet := mergeExecuted config [] (config.initialObTxnGtidSeq - 1)
    some { gtidPurgedSet := gtidSet, gtidExecutedSet := gtidSet }

/-- `join_vector_str` of gtid messages; `none` is the dereference of a null uuid. -/
def joinVectorStr (messages : List GtidMessage) : Option Text :=
  messages.foldlM
    (fun joined message =>
      message.formatString.map fun text =>
        joined ++ (if joined = [] then [] else [',']) ++ text) []

/-- What a start finds beside the binlog files: the gtid mapping, the options and the
clock. -/
structure Start where
  manager : GtidManager := {}
  gtidHeartbeatDurationS : ℕ := 3600
  expire : ExpireConfig
  /-- `start_timestamp` of the CDC configuration. -/
  startTimestamp : ℕ := 0

/-- An `int` that is compared with a `uint64_t`. -/
def intToUint64 (value : ℕ) : ℕ :=
  if value < 2 ^ 31 then value else value + (2 ^ 64 - 2 ^ 32)

/-- The last checkpoint is a heartbeat behind the last transaction, and there has been
no transaction for a long time.  The `int` of the seconds in between is compared as an
unsigned number. -/
def startsAtHeartbeat (start : Start) (record : BinlogIndexRecord) (trxTs : ℕ)
    (gtidSeq : GtidSeq) : Bool :=
  let interval := subUint64 gtidSeq.commitVersionStart record.checkpoint % 2 ^ 32
  (decide (start.gtidHeartbeatDurationS < interval) ||
      decide (start.expire.expireLogsSeconds < intToUint64 interval)) &&
    decide (trxTs < gtidSeq.commitVersionStart) &&
    decide (gtidSeq.gtidStart = record.currentMapping.2) && gtidSeq.xidStart.isEmpty &&
    decide (gtidSeq.trxsNum = 0)

/-- The heartbeat from which the stream is read again, if it is one. -/
def heartbeatCheckpoint (start : Start) (record : BinlogIndexRecord)
    (event : Option GtidLogEvent) : Option GtidSeq :=
  start.manager.getLatestGtidSeq.filter
    (startsAtHeartbeat start record ((event.map GtidLogEvent.lastCommitted).getD 0))

/-- The transaction of the number, by the last record. -/
def checkpointMapping (record : BinlogIndexRecord) (gtid : ℕ) : Option Mapping :=
  if gtid = record.currentMapping.2 then some (record.currentMapping.1, gtid)
  else if gtid = record.beforeMapping.2 then some (record.beforeMapping.1, gtid)
  else none

/-- The second to read the stream from, for a transaction to wait for. -/
def checkpointTimestamp (start : Start) (record : BinlogIndexRecord) (gtid : ℕ) : Option ℕ :=
  match start.manager.getLatestGtidSeq with
  | none => some record.checkpoint
  | some _ => (start.manager.getFirstLeGtidSeq gtid).map GtidSeq.commitVersionStart

def initRestartPoint (start : Start) (record : BinlogIndexRecord) (event : Option GtidLogEvent)
    (storage : BinlogStorage) : Option BinlogStorage :=
  match heartbeatCheckpoint start record event with
  | some gtidSeq =>
    some { storage with
      filterUtilCheckpointTrx := false
      filterCheckpointTrx := false
      startTimestamp := gtidSeq.commitVersionStart
      txnGtidSeq := (gtidSeq.gtidStart + 1) % 2 ^ 64 }
  | none =>
    match checkpointMapping record storage.txnGtidSeq with
    | none => none
    | some txnMapping =>
      if txnMapping.1 = [] then
        some { storage with
          txnMapping
          startTimestamp := record.checkpoint
          txnGtidSeq := (storage.txnGtidSeq + 1) % 2 ^ 64 }
      else
        (checkpointTimestamp start record storage.txnGtidSeq).map fun startTimestamp =>
          { storage with txnMapping, startTimestamp }

inductive RotateOp where
  | init
  | rotate
deriving DecidableEq

/-- What the three scenarios of `recover_safely` decide. -/
structure RestartPoint where
  storage : BinlogStorage
  op : RotateOp
  rotateExisted : Bool := false
  checksumFlag : ℕ

def firstStartPoint (config : Config) (start : Start) : RestartPoint :=
  let specified := 0 < config.initialObTxnGtidSeq ∨ config.initialObTxnId ≠ []
  let txnMapping := if specified then (config.initialObTxnId, config.initialObTxnGtidSeq)
    else ([], 0)
  { storage :=
      { txnMapping
        txnGtidSeq := if specified then txnMapping.2 else 1
        filterUtilCheckpointTrx := decide (txnMapping.1 ≠ [])
        filterCheckpointTrx := false
        startTimestamp :=
          if start.startTimestamp = 0 then start.expire.nowSeconds else start.startTimestamp }
    op := .init
    checksumFlag := config.checksum.flag }

/-- Scenario 2: there is no transaction in the last file.  Scenario 3: the last
transaction of the file is complete. -/
def resumeStorage (start : Start) (record : BinlogIndexRecord)
    (gtidLogEvents : List GtidLogEvent) (storage : BinlogStorage) : Option BinlogStorage :=
  match gtidLogEvents.getLast? with
  | none =>
    (initRestartPoint start record none
      { storage with txnGtidSeq := record.currentMapping.2 }).map fun storage =>
        if storage.filterUtilCheckpointTrx then
          { storage with
            filterUtilCheckpointTrx := decide (storage.txnMapping.1 ≠ [])
            filterCheckpointTrx := decide (record.beforeMapping.1 ≠ []) }
        else storage
  | some event =>
    initRestartPoint start record (some event) { storage with txnGtidSeq := event.gtidTxnId }

/-- `seek_gtid_event`; a file that cannot be opened leaves everything as it was. -/
def seekGtidEventOf (disk : Disk) (file : Text) (scan : GtidScan) : Option (GtidScan × ℕ) :=
  match disk file with
  | none => some (scan, 0)
  | some bytes => seekGtidEvent bytes scan

def resumePoint (config : Config) (start : Start) (disk : Disk) (record : BinlogIndexRecord) :
    Option RestartPoint :=
  (seekGtidEventOf disk record.fileName { checksumFlag := config.checksum.flag }).bind
    fun (scan, offset) =>
      if offset ≠ record.position ∧ offset ≠ disk.fileSize record.fileName then none
      else
        (resumeStorage start record scan.gtidLogEvents
          { startTimestamp := start.startTimestamp
            xid := scan.lastXid
            previousGtidMessages := scan.previousGtidMessages }).map fun storage =>
          { storage
            op := .rotate
            rotateExisted := scan.rotateExisted
            checksumFlag := scan.checksumFlag }

def restartPoint (config : Config) (start : Start) (disk : Disk) (record : BinlogIndexRecord) :
    Option RestartPoint :=
  if record.fileName = [] ∨ record.position = 0 then some (firstStartPoint config start)
  else resumePoint config start disk record

/-- The last number that counts as executed. -/
def lastGtid (storage : BinlogStorage) : ℕ :=
  if storage.filterUtilCheckpointTrx && storage.filterCheckpointTrx then storage.txnGtidSeq
  else (storage.txnGtidSeq + (2 ^ 64 - 1)) % 2 ^ 64

/-- A file that was written without checksums is closed without one. -/
def rotateChecksum (config : Config) (checksumFlag : ℕ) : Checksum :=
  if checksumFlag = 0 then { config.checksum with enabled := false } else config.checksum

/-- The rotate event at the end of a file of `fileSize` bytes; the first start writes
to the file of the record itself. -/
def restartRotate (config : Config) (record : BinlogIndexRecord) (fileSize : ℕ)
    (point : RestartPoint) (previousGtids : List GtidMessage) : PendingRotate :=
  let index := match point.op with
    | .init => record.index
    | .rotate => record.index + 1
  let event := newRotateEvent
    { config with checksum := rotateChecksum config point.checksumFlag }
    (config.names.fillBinlogFileName (record.index + 1)) point.storage.startTimestamp fileSize
  ⟨event, index, config.names.fillBinlogFileName index, previousGtids⟩

/-- The members of the storage behind the header of the new file. -/
def restartStorage (config : Config) (point : RestartPoint) (rotate : PendingRotate) :
    BinlogStorage :=
  { point.storage with
    previousGtidMessages := rotate.nextPreviousGtids
    firstGtidSeq := 0
    binlogFileIndex := rotate.index
    curPos := startPos config rotate.nextPreviousGtids }

def restartFiles (config : Config) (start : Start) (files : Files) (record : BinlogIndexRecord)
    (point : RestartPoint) (rotate : PendingRotate) : Files :=
  match point.op with
  | .init => files.initBinlogFile config rotate
  | .rotate =>
    let files := files.purgeExpiredBinlog start.expire record
    let files := files.rotateCurrentBinlog (rotateChecksum config point.checksumFlag) rotate
      point.rotateExisted record
    (files.initBinlogFile config rotate).addNextBinlogIndex record rotate

def recoverSafely (config : Config) (start : Start) (gtidExecuted : Text) (files : Files) :
    Option (BinlogStorage × Files) :=
  let record := BinlogIndex.getLatestIndex files.index
  (restartPoint config start files.disk record).bind fun point =>
    let previousGtids := mergeGtidBefore config.masterServerUuid
      point.storage.previousGtidMessages (point.storage.firstGtidSeq, lastGtid point.storage)
    if joinVectorStr previousGtids = some gtidExecuted then
      let rotate := restartRotate config record (files.disk.fileSize record.fileName) point
        previousGtids
      some (restartStorage config point rotate, restartFiles config start files record point rotate)
    else none

/-- The mapping that a first start is given. -/
def initialMapping (config : Config) : Mapping :=
  if config.initialObTxnId = [] then ([], config.initialObTxnGtidSeq - 1)
  else (config.initialObTxnId, config.initialObTxnGtidSeq)

/-- `BinlogStorage::init` up to the recovery. -/
def initStorage (config : Config) (start : Start) (home : Home) : Files :=
  let record := BinlogIndex.getLatestIndex home.index
  if record.fileName = [] then
    { disk := home.disk
      index := BinlogIndex.addIndex home.index
        { fileName := config.names.path 1
          index := 1
          currentMapping := initialMapping config
          checkpoint := start.startTimestamp }
      fileName := config.names.path 1 }
  else { disk := home.disk, index := home.index, fileName := record.fileName }

def gtidSeqs (manager : GtidManager) : List GtidSeq :=
  manager.gtidSeqSet.map fun entry => GtidSeq.empty.deserialize entry.2

/-- A process up to the point where it waits for events. -/
def startInstance (config : Config) (start : Start) (home : Home) :
    Option (BinlogStorage × Files) :=
  (preprocessBreakpointBinlog config.checksum (gtidSeqs start.manager) home).bind fun home =>
    (initGtidVariables config home).bind fun gtids =>
      (joinVectorStr gtids.gtidExecutedSet).bind fun gtidExecuted =>
        (recoverSafely config start gtidExecuted (initStorage config start home)).map
          fun (storage, files) =>
            ({ storage with indexRecord := BinlogIndex.getLatestIndex files.index }, files)

end OblogProxy.Recovery
