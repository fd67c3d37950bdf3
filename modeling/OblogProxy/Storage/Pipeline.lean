import OblogProxy.Event.LogEvent
import OblogProxy.Storage.BinlogIndex

/-!
# The pipeline of the storage

A batch of events passes three handlers.  `AllocateHandler` gives every event its gtid
number and its position, drops the events up to the checkpoint transaction after a
restart, and starts a new file after a transaction that ends beyond `max_binlog_size`.
`SerializeHandler` flushes the events and the rotate events of the batch to one buffer,
and `StorageHandler` writes the parts of the buffer to the binlog files and keeps the
index.  The parts are found by their positions only.
-/

namespace OblogProxy.Storage

open Bytes Event Gtid

/-- The options of an instance that the storage reads. -/
structure Config where
  names : FileNames
  checksum : Checksum
  maxBinlogSize : ℕ
  serverId : ℕ
  masterServerUuid : Text
  initialObTxnId : Text := []
  initialObTxnGtidSeq : ℕ := 0

/-- A rotate event of a batch with what the next file starts with. -/
structure PendingRotate where
  event : ObLogEvent
  index : ℕ
  nextBinlogFileName : Text
  nextPreviousGtids : List GtidMessage

/-- The members of `BinlogStorage` that the allocation works on.  `startTimestamp`
is the one of the CDC configuration. -/
structure BinlogStorage where
  txnGtidSeq : ℕ := 1
  xid : ℕ := 0
  curPos : ℕ := 0
  binlogFileIndex : ℕ := 0
  txnMapping : Mapping := ([], 0)
  filterUtilCheckpointTrx : Bool := true
  meetInitialTrx : Bool := false
  filterCheckpointTrx : Bool := true
  firstGtidSeq : ℕ := 1
  lastRecordTs : ℕ := 0
  startTimestamp : ℕ := 0
  previousGtidMessages : List GtidMessage := []
  indexRecord : BinlogIndexRecord := {}

/-- A batch on its way through the pipeline. -/
structure SerializeEvent where
  isRotation : Bool := false
  rotateEvents : List PendingRotate := []
  indexPos : ℕ := 0
  indexRecords : List BinlogIndexRecord := []

def SerializeEvent.updateIndexRecord (batch : SerializeEvent) (record : BinlogIndexRecord) :
    SerializeEvent :=
  if batch.indexRecords.length ≤ batch.indexPos then
    { batch with indexRecords := batch.indexRecords ++ [record] }
  else { batch with indexRecords := batch.indexRecords.set batch.indexPos record }

/-- The branch of `merge_gtid_before` for the message of the server itself. -/
def extendTxnRange (message : GtidMessage) (gtidRange : TxnRange) : GtidMessage :=
  let txnRange :=
    match message.txnRange.getLast? with
    | none => [gtidRange]
    | some lastRange =>
      if (lastRange.2 + 1) % 2 ^ 64 < gtidRange.1 then message.txnRange ++ [gtidRange]
      else if lastRange.2 < gtidRange.2 then
        message.txnRange.dropLast ++ [(lastRange.1, gtidRange.2)]
      else message.txnRange
  { message with txnRange, gtidTxnIdIntervals := txnRange.length }

/-- `strcasecmp` finds no difference. -/
def sameIgnoringCase (left right : Text) : Bool :=
  left.map Char.toLower = right.map Char.toLower

def isOwnMessage (serverUuid : Text) (message : GtidMessage) : Bool :=
  match message.gtidUuid with
  | none => false
  | some uuid => sameIgnoringCase (GtidMessage.uuidHexBinToStrWithDelim uuid) serverUuid

def mergeGtidBefore (serverUuid : Text) (gtidMessageSet : List GtidMessage)
    (gtidRange : TxnRange) : List GtidMessage :=
  if gtidMessageSet.any (isOwnMessage serverUuid) then
    gtidMessageSet.map fun message =>
      if isOwnMessage serverUuid message then extendTxnRange message gtidRange else message
  else if 0 < gtidRange.1 ∧ 0 < gtidRange.2 then
    gtidMessageSet ++ [⟨uuidStrToHexBin serverUuid, 1, [gtidRange]⟩]
  else gtidMessageSet

def binlogStartFixedPos : ℕ := 151

def startPos (config : Config) (previousGtids : List GtidMessage) : ℕ :=
  (binlogStartFixedPos + config.checksum.len + (previousGtids.map gtidLength).sum) % 2 ^ 32

/-- A new `RotateEvent` that stands at `beginPosition`. -/
def newRotateEvent (config : Config) (nextBinlogFileName : Text) (timestamp beginPosition : ℕ) :
    ObLogEvent :=
  let event : ObLogEvent :=
    { timestamp, serverId := config.serverId,
      body := .rotate ⟨binlogMagicSize, nextBinlogFileName⟩ }
  { event with nextPosition := (beginPosition + event.eventLength config.checksum) % 2 ^ 32 }

def rotateBinlogFile (config : Config) (storage : BinlogStorage) (batch : SerializeEvent) :
    BinlogStorage × SerializeEvent :=
  if config.maxBinlogSize < storage.curPos then
    let index := storage.binlogFileIndex + 1
    let name := config.names.fillBinlogFileName index
    let previousGtids := mergeGtidBefore config.masterServerUuid storage.previousGtidMessages
      (storage.firstGtidSeq, (storage.txnGtidSeq + (2 ^ 64 - 1)) % 2 ^ 64)
    ({ storage with
        binlogFileIndex := index
        indexRecord := { storage.indexRecord with index, fileName := dataPath name }
        previousGtidMessages := previousGtids
        curPos := startPos config previousGtids
        firstGtidSeq := 0 },
      { batch with
        isRotation := true
        rotateEvents := batch.rotateEvents ++
          [⟨newRotateEvent config name storage.lastRecordTs storage.curPos, index, name,
            previousGtids⟩] })
  else (storage, batch)

/-- A gtid event that is kept moves the mappings of the index record on. -/
def acceptGtid (storage : BinlogStorage) (event : ObLogEvent) (gtidTxnId : ℕ) : BinlogStorage :=
  { storage with
    firstGtidSeq := if storage.firstGtidSeq = 0 then gtidTxnId else storage.firstGtidSeq
    txnGtidSeq := (gtidTxnId + 1) % 2 ^ 64
    indexRecord :=
      { storage.indexRecord with
        beforeMapping := storage.indexRecord.currentMapping
        currentMapping := (event.obTxn, gtidTxnId)
        checkpoint := event.checkpoint / 1000000 } }

def exceedsMaxBinlogSize (config : Config) (storage : BinlogStorage) (event : ObLogEvent) : Bool :=
  config.maxBinlogSize < (storage.curPos + event.eventLength config.checksum) % 2 ^ 32

/-- The `switch` over the event type: the storage and the event it leaves, and
whether the event is kept and then followed by a rotation.  `none` is the
`continue` of an event that is dropped. -/
def admitEvent (config : Config) (storage : BinlogStorage) (event : ObLogEvent) :
    BinlogStorage × ObLogEvent × Option Bool :=
  match event.body with
  | .heartbeat _ => (storage, event, none)
  | .gtid gtid =>
    let gtidTxnId := storage.txnGtidSeq
    let event := { event with body := .gtid { gtid with gtidTxnId } }
    if storage.filterUtilCheckpointTrx then
      if !storage.meetInitialTrx &&
          (event.obTxn ≠ storage.txnMapping.1 || gtidTxnId ≠ storage.txnMapping.2) then
        (storage, event, none)
      else if event.obTxn = storage.txnMapping.1 && gtidTxnId = storage.txnMapping.2 then
        if storage.filterCheckpointTrx then
          ({ storage with
              meetInitialTrx := true
              txnGtidSeq := (storage.txnGtidSeq + 1) % 2 ^ 64 }, event, none)
        else
          (acceptGtid { storage with meetInitialTrx := true, filterUtilCheckpointTrx := false }
            event gtidTxnId, event, some false)
      else if storage.meetInitialTrx ||
          (!storage.meetInitialTrx && storage.startTimestamp < event.checkpoint) then
        (acceptGtid { storage with filterUtilCheckpointTrx := false } event gtidTxnId, event,
          some false)
      else (acceptGtid storage event gtidTxnId, event, some false)
    else (acceptGtid storage event gtidTxnId, event, some false)
  | .xid _ =>
    if storage.filterUtilCheckpointTrx then
      if !storage.meetInitialTrx then (storage, event, none)
      else ({ storage with filterUtilCheckpointTrx := false }, event, none)
    else
      let xid := (storage.xid + 1) % 2 ^ 64
      ({ storage with xid }, { event with body := .xid xid },
        some (exceedsMaxBinlogSize config storage event))
  | .query query =>
    if storage.filterUtilCheckpointTrx then (storage, event, none)
    else (storage, event, some (query.isDdl && exceedsMaxBinlogSize config storage event))
  | _ =>
    if storage.filterUtilCheckpointTrx then (storage, event, none)
    else (storage, event, some false)

/-- The rest of the loop body for an event that is kept. -/
def placeEvent (config : Config) (storage : BinlogStorage) (batch : SerializeEvent)
    (event : ObLogEvent) (isRotate : Bool) : BinlogStorage × SerializeEvent × ObLogEvent :=
  let curPos := (storage.curPos + event.eventLength config.checksum) % 2 ^ 32
  let storage := { storage with curPos }
  let event := { event with nextPosition := curPos, filter := false }
  let batch := batch.updateIndexRecord storage.indexRecord
  if isRotate then
    let rotated := rotateBinlogFile config storage batch
    (rotated.1, { rotated.2 with indexPos := rotated.2.indexPos + 1 }, event)
  else (storage, batch, event)

def allocateEvent (config : Config) (storage : BinlogStorage) (batch : SerializeEvent)
    (event : ObLogEvent) : BinlogStorage × SerializeEvent × ObLogEvent :=
  match admitEvent config storage event with
  | (storage, event, none) => (storage, batch, event)
  | (storage, event, some isRotate) => placeEvent config storage batch event isRotate

def allocateEvents (config : Config) (storage : BinlogStorage) (batch : SerializeEvent) :
    List ObLogEvent → BinlogStorage × SerializeEvent × List ObLogEvent
  | [] => (storage, batch, [])
  | event :: events =>
    let (storage, batch, event) := allocateEvent config storage batch event
    let (storage, batch, events) := allocateEvents config storage batch events
    (storage, batch, event :: events)

def globalAllocationOfBackfillEvents (config : Config) (storage : BinlogStorage)
    (events : List ObLogEvent) : BinlogStorage × SerializeEvent × List ObLogEvent :=
  let (storage, batch, events) := allocateEvents config storage {} events
  (storage, batch.updateIndexRecord storage.indexRecord, events)

def allocateBatches (config : Config) (storage : BinlogStorage) :
    List (List ObLogEvent) → BinlogStorage × List ObLogEvent
  | [] => (storage, [])
  | events :: batches =>
    let (storage, _, events) := globalAllocationOfBackfillEvents config storage events
    let (storage, rest) := allocateBatches config storage batches
    (storage, events ++ rest)

section Advance

variable (config : Config)

def advance (storage : BinlogStorage) (event : ObLogEvent) : BinlogStorage × ObLogEvent :=
  let allocated := allocateEvent config storage {} event
  (allocated.1, allocated.2.2)

def advanceAll (storage : BinlogStorage) : List ObLogEvent → BinlogStorage × List ObLogEvent
  | [] => (storage, [])
  | event :: events =>
    let first := advance config storage event
    let rest := advanceAll first.1 events
    (rest.1, first.2 :: rest.2)

section Storage

variable (storage : BinlogStorage)

/-- The batch has no influence on the events. -/
theorem allocateEvent_eq_advance (batch : SerializeEvent) (event : ObLogEvent) :
    (allocateEvent config storage batch event).1 = (advance config storage event).1 ∧
      (allocateEvent config storage batch event).2.2 = (advance config storage event).2 := by
  rw [advance, allocateEvent, allocateEvent]
  obtain ⟨admitted, stamped, verdict⟩ := admitEvent config storage event
  cases verdict with
  | none => exact ⟨rfl, rfl⟩
  | some isRotate =>
    cases isRotate with
    | false => exact ⟨rfl, rfl⟩
    | true =>
      refine ⟨?_, rfl⟩
      simp only [placeEvent, rotateBinlogFile]
      split_ifs <;> rfl

theorem allocateEvents_eq_advanceAll (batch : SerializeEvent) (events : List ObLogEvent) :
    (allocateEvents config storage batch events).1 = (advanceAll config storage events).1 ∧
      (allocateEvents config storage batch events).2.2 = (advanceAll config storage events).2 := by
  induction events generalizing storage batch with
  | nil => exact ⟨rfl, rfl⟩
  | cons event events ih =>
    obtain ⟨hstorage, hevent⟩ := allocateEvent_eq_advance config storage batch event
    obtain ⟨hrest, hevents⟩ := ih (advance config storage event).1
      (allocateEvent config storage batch event).2.1
    simp [allocateEvents, advanceAll, hrest, hevents, hstorage, hevent]

theorem advanceAll_append (front back : List ObLogEvent) :
    advanceAll config storage (front ++ back) =
      ((advanceAll config (advanceAll config storage front).1 back).1,
        (advanceAll config storage front).2 ++
          (advanceAll config (advanceAll config storage front).1 back).2) := by
  induction front generalizing storage with
  | nil => rfl
  | cons event front ih => simp [advanceAll, ih]

/-- Nor has the cut into batches. -/
theorem allocateBatches_eq_advanceAll (batches : List (List ObLogEvent)) :
    allocateBatches config storage batches = advanceAll config storage batches.flatten := by
  induction batches generalizing storage with
  | nil => rfl
  | cons events batches ih =>
    obtain ⟨hstorage, hevents⟩ := allocateEvents_eq_advanceAll config storage {} events
    rw [List.flatten_cons, advanceAll_append]
    simp only [allocateBatches, globalAllocationOfBackfillEvents, ih, hstorage, hevents]

end Storage

end Advance

/-- What `SerializeHandler` fills in: the buffer, the offsets at which the
buffer is cut, and how many of them are final. -/
structure Serialized where
  buffer : Bytes := []
  rotateOffsets : List ℕ := []
  index : ℕ := 0

def serializeEvent (checksum : Checksum) (batch : SerializeEvent) (serialized : Serialized)
    (event : ObLogEvent) : Serialized :=
  if event.filter then serialized
  else
    let buffer := serialized.buffer ++ event.flushToBuff checksum
    match batch.rotateEvents[serialized.index]? with
    | none => { serialized with buffer }
    | some rotate =>
      if batch.isRotation && serialized.rotateOffsets[serialized.index]? = some event.nextPosition
      then
        let buffer := buffer ++ rotate.event.flushToBuff checksum
        { buffer
          rotateOffsets := serialized.rotateOffsets.set serialized.index buffer.length
          index := serialized.index + 1 }
      else { serialized with buffer }

def beginPosition (checksum : Checksum) (event : ObLogEvent) : ℕ :=
  (event.nextPosition + (2 ^ 32 - event.eventLength checksum % 2 ^ 32)) % 2 ^ 32

def serialize (checksum : Checksum) (batch : SerializeEvent) (events : List ObLogEvent) :
    Serialized :=
  events.foldl (serializeEvent checksum batch)
    { rotateOffsets := batch.rotateEvents.map fun rotate => beginPosition checksum rotate.event }

/-- What `StorageHandler` works on: the files, the index and the member
`_file_name` of the storage. -/
structure Files where
  disk : Disk
  index : BinlogIndex
  fileName : Text

/-- `persistent_binlog` with `update_index_record`. -/
def Files.persistentBinlog (files : Files) (buffer : Bytes) (record : BinlogIndexRecord) : Files :=
  let disk := files.disk.appendFile files.fileName buffer
  { files with
    disk
    index := files.index.updateIndex { record with position := disk.fileSize files.fileName } }

def Files.addNextBinlogIndex (files : Files) (record : BinlogIndexRecord)
    (rotate : PendingRotate) : Files :=
  let binPath := dataPath rotate.nextBinlogFileName
  { files with
    index := files.index.addIndex
      { record with
        index := rotate.index
        fileName := binPath
        position := files.disk.fileSize binPath }
    fileName := binPath }

/-- `init_next_binlog_file`: the flags of the file that is left are cleared. -/
def Files.initNextBinlogFile (config : Config) (files : Files) (rotate : PendingRotate)
    (record : BinlogIndexRecord) : Files :=
  let disk := files.disk.rewrite (config.names.path (rotate.index - 1)) (storeLE flagsLen 0)
    (binlogMagicSize + flagsOffset)
  let disk := disk.appendFile (dataPath rotate.nextBinlogFileName)
    (headerBytes config.checksum config.serverId rotate.event.timestamp rotate.nextPreviousGtids)
  Files.addNextBinlogIndex { files with disk } record rotate

/-- The loop of `StorageHandler::onEvent` over the offsets: the files, the
current offset and the number of rotations done.  `none` is a failed assertion
or an index record that is missing. -/
def storeRotations (config : Config) (batch : SerializeEvent) (buffer : Bytes) :
    List ℕ → ℕ → ℕ → Files → Option (Files × ℕ × ℕ)
  | [], curOffset, index, files => some (files, curOffset, index)
  | rotateIndex :: rotateOffsets, curOffset, index, files =>
    if curOffset < rotateIndex then
      match batch.indexRecords[index]?, batch.rotateEvents[index]? with
      | some record, some rotate =>
        let files := files.persistentBinlog (slice buffer curOffset (rotateIndex - curOffset))
          record
        storeRotations config batch buffer rotateOffsets rotateIndex (index + 1)
          (files.initNextBinlogFile config rotate record)
      | _, _ => none
    else none

/-- `StorageHandler::onEvent`; `none` is an exception, which stops the storage. -/
def storeBatch (config : Config) (batch : SerializeEvent) (serialized : Serialized)
    (files : Files) : Option Files :=
  let buffer := serialized.buffer
  if batch.isRotation then
    match storeRotations config batch buffer serialized.rotateOffsets 0 0 files with
    | none => none
    | some (files, curOffset, index) =>
      if curOffset < buffer.length then
        match batch.indexRecords[index]? with
        | some record =>
          if batch.indexRecords.length ≠ index + 1 then none
          else some (files.persistentBinlog
            (slice buffer curOffset (buffer.length - curOffset)) record)
        | none => none
      else some files
  else
    match batch.indexRecords with
    | [record] => some (files.persistentBinlog buffer record)
    | _ => none

def runBatch (config : Config) (state : BinlogStorage × Files) (events : List ObLogEvent) :
    Option (BinlogStorage × Files) :=
  let (storage, batch, events) := globalAllocationOfBackfillEvents config state.1 events
  (storeBatch config batch (serialize config.checksum batch events) state.2).map
    fun files => (storage, files)

def runBatches (config : Config) (state : BinlogStorage × Files) :
    List (List ObLogEvent) → Option (BinlogStorage × Files)
  | [] => some state
  | events :: batches =>
    match runBatch config state events with
    | none => none
    | some state => runBatches config state batches

def eventDataSize : ℕ := 1024

/-- The parts that are stored one behind the other in a buffer of `size` bytes.
`none` is a write beyond the buffer. -/
def storeInBuffer (size : ℕ) (parts : List Bytes) : Option Bytes :=
  if parts.flatten.length ≤ size then some parts.flatten else none

def eventData (config : Config) (rotate : PendingRotate) : Option Bytes :=
  let timestamp := rotate.event.timestamp
  storeInBuffer eventDataSize
    [binlogMagic, (newFormatDescriptionEvent config.checksum config.serverId timestamp).flushToBuff
        config.checksum,
      (newPreviousGtidsLogEvent config.checksum config.serverId timestamp
        rotate.nextPreviousGtids).flushToBuff config.checksum]

/-- The bytes that `init_binlog_file` appends to the file. -/
def initBinlogFile (config : Config) (rotate : PendingRotate) : Option Bytes :=
  eventData config rotate

/-- The bytes that `init_next_binlog_file` appends to the next file. -/
def initNextBinlogFile (config : Config) (rotate : PendingRotate) : Option Bytes :=
  eventData config rotate

section EventData

variable (config : Config) (rotate : PendingRotate)

theorem eventData_eq :
    eventData config rotate =
      if (headerBytes config.checksum config.serverId rotate.event.timestamp
          rotate.nextPreviousGtids).length ≤ eventDataSize then
        some (headerBytes config.checksum config.serverId rotate.event.timestamp
          rotate.nextPreviousGtids)
      else none := by
  have hparts : headerBytes config.checksum config.serverId rotate.event.timestamp
      rotate.nextPreviousGtids = [binlogMagic,
        (newFormatDescriptionEvent config.checksum config.serverId
          rotate.event.timestamp).flushToBuff config.checksum,
        (newPreviousGtidsLogEvent config.checksum config.serverId rotate.event.timestamp
          rotate.nextPreviousGtids).flushToBuff config.checksum].flatten := by
    simp [headerBytes]
  rw [eventData, storeInBuffer, hparts]

end EventData

/-- The start position is where the header ends, by the bytes that are written,
by the previous-gtids event and by the first event that is placed behind it. -/
structure StartsBehindHeader (config : Config) (rotate : PendingRotate) (header : Bytes) :
    Prop where
  startPos_eq : startPos config rotate.nextPreviousGtids = header.length
  nextPosition_eq : (newPreviousGtidsLogEvent config.checksum config.serverId
    rotate.event.timestamp rotate.nextPreviousGtids).nextPosition = header.length
  firstEvent : ∀ (storage : BinlogStorage) (batch : SerializeEvent) (event : ObLogEvent)
    (isRotate : Bool), storage.curPos = startPos config rotate.nextPreviousGtids →
      (header ++ event.flushToBuff config.checksum).length < 2 ^ 32 →
        (placeEvent config storage batch event isRotate).2.2.nextPosition =
          (header ++ event.flushToBuff config.checksum).length

section Distinct

variable (serverId timestamp : ℕ) {messages : List GtidMessage}
  (hdistinct : DistinctUuids messages)

include hdistinct

theorem nextPosition_newPreviousGtidsLogEvent (checksum : Checksum) :
    (newPreviousGtidsLogEvent checksum serverId timestamp messages).nextPosition =
      (headerBytes checksum serverId timestamp messages).length % 2 ^ 32 := by
  have hevent := eventLength_newPreviousGtidsLogEvent checksum serverId timestamp hdistinct
  have hformat := eventLength_newFormatDescriptionEvent checksum serverId timestamp
  rw [length_headerBytes checksum serverId timestamp hdistinct]
  change (binlogMagicSize + (newFormatDescriptionEvent checksum serverId timestamp).eventLength
    checksum + (newPreviousGtidsLogEvent checksum serverId timestamp messages).eventLength
      checksum) % 2 ^ 32 = _
  rw [hevent, hformat, binlogMagicSize]
  omega

/-- The constant of `set_start_pos` counts one checksum and four bytes more, which
are the second checksum of the header if there is one. -/
theorem startPos_eq_length_iff (config : Config)
    (hlength : (headerBytes config.checksum serverId timestamp messages).length ≤ eventDataSize) :
    startPos config messages =
        (headerBytes config.checksum serverId timestamp messages).length ↔
      config.checksum.enabled = true := by
  rw [length_headerBytes config.checksum serverId timestamp hdistinct, eventDataSize] at *
  rw [startPos, binlogStartFixedPos]
  rw [Checksum.len] at *
  cases config.checksum.enabled with
  | false =>
    simp only [Bool.false_eq_true, if_false, iff_false] at *
    omega
  | true =>
    simp only [if_true, iff_true] at *
    omega

end Distinct

def firstFileConfig (enabled : Bool) : Config :=
  { names := ⟨['b'], 6⟩
    checksum := ⟨enabled, fun _ => 0⟩
    maxBinlogSize := 0
    serverId := 1
    masterServerUuid := [] }

def firstFile (config : Config) : PendingRotate :=
  ⟨newRotateEvent config (config.names.fillBinlogFileName 1) 0 0, 1,
    config.names.fillBinlogFileName 1, []⟩

theorem sum_gtidLength (messages : List GtidMessage) :
    (messages.map gtidLength).sum =
      24 * messages.length + 16 * (messages.map fun message => message.txnRange.length).sum := by
  induction messages with
  | nil => rfl
  | cons message messages ih =>
    rw [List.map_cons, List.sum_cons, ih, List.map_cons, List.sum_cons, List.length_cons,
      gtidLength, serverUuidLen]
    omega

theorem eventData_isSome_iff (config : Config) (rotate : PendingRotate)
    (hdistinct : DistinctUuids rotate.nextPreviousGtids) :
    (eventData config rotate).isSome ↔
      147 + 2 * config.checksum.len + 24 * rotate.nextPreviousGtids.length +
        16 * (rotate.nextPreviousGtids.map fun message => message.txnRange.length).sum ≤
          eventDataSize := by
  rw [eventData_eq, length_headerBytes config.checksum config.serverId rotate.event.timestamp
    hdistinct, sum_gtidLength, ← Nat.add_assoc]
  split_ifs with hfits
  · simpa using hfits
  · simpa using hfits

/-- The gtid set of a server whose numbers have gaps: every second number up to
`2 * count` is merged into it. -/
def scatteredGtids (count : ℕ) : List GtidMessage :=
  (List.range count).foldl
    (fun messages turn => mergeGtidBefore
      (GtidMessage.uuidHexBinToStrWithDelim (List.replicate serverUuidLen 0)) messages
      (2 * turn + 1, 2 * turn + 1)) []

end OblogProxy.Storage
