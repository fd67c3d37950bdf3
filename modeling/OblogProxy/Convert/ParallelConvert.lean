import OblogProxy.DataType.RowImage

/-!
# The parallel converter

The converter turns each record of the change stream into the events of the binlog.  The
header of an event carries a length that is computed from its parts before any byte is
written; `flush_to_buff` copies one field behind the other only when the event is stored.
The storage counts the length again, from the content.
-/

namespace OblogProxy.Convert

open Bytes DataType Event Gtid Pieces OblogProxy.Protocol

structure TableMapEvent where
  tableId : ℕ
  flags : ℕ
  dbName : Text
  dbLen : ℕ
  tbName : Text
  tbLen : ℕ
  columnCount : ℕ
  columnType : Bytes
  metadata : Bytes
  metadataLen : ℕ
  nullBits : Bytes

structure RowsEvent where
  rowsEventType : RowsEventType
  tableId : ℕ
  flags : ℕ
  varHeaderLen : ℕ
  width : ℕ
  beforeImageCols : ℕ := 0
  afterImageCols : ℕ := 0
  columnsBeforeBitmaps : Bytes := []
  columnsAfterBitmaps : Bytes := []
  /-- The bitmap of the JSON differences and its size. -/
  partialColumnsBitmaps : Bytes := []
  partialColsBytes : ℕ := 0
  beforeRow : Bytes
  afterRow : Bytes
  beforePos : ℕ
  afterPos : ℕ

inductive ConvertedBody where
  | gtid (event : GtidLogEvent)
  | query (event : QueryEvent)
  | xid (xid : ℕ)
  | tableMap (event : TableMapEvent)
  | rows (event : RowsEvent)

structure ConvertedEvent where
  header : OblogEventHeader
  obTxn : Text := []
  checkpoint : ℕ := 0
  body : ConvertedBody

def number (width value : ℕ) : Piece :=
  (storeLE width value, width)

/-- `write_null_terminate_string` into a field of the capacity; a string that does not fit
is not written. -/
def nullTerminated (capacity : ℕ) (str : Bytes) : Piece :=
  (if str.length + 1 ≤ capacity then str ++ [0] else [], capacity)

def gtidPieces (event : GtidLogEvent) : List Piece :=
  [number 1 event.commitFlag, (event.gtidUuid, serverUuidLen), number 8 event.gtidTxnId,
    number 1 event.tsType, number 8 event.lastCommitted, number 8 event.sequenceNumber]

def queryPieces (event : QueryEvent) : List Piece :=
  [number 4 event.threadId, number 4 event.queryExecTime, number 1 event.dbname.length,
    number 2 event.errorCode, number 2 event.statusVars.length, whole event.statusVars,
    nullTerminated (event.dbname.length + 1) event.dbname, whole event.sqlStatment]

def int32Max : ℕ := 2 ^ 31 - 1

/-- The fields, with the two lengths as they are encoded. -/
def TableMapEvent.fields (event : TableMapEvent) (columnCount metadataLen : Bytes) : List Piece :=
  [number 6 event.tableId, number 2 event.flags, number 1 event.dbLen,
    nullTerminated (event.dbLen + 1) (textBytes event.dbName), number 1 event.tbLen,
    nullTerminated (event.tbLen + 1) (textBytes event.tbName), whole columnCount,
    (event.columnType, event.columnCount), whole metadataLen,
    (event.metadata, event.metadataLen), (event.nullBits, fixedLen event.columnCount)]

/-- `none` is a length that cannot be written. -/
def TableMapEvent.pieces (event : TableMapEvent) : Option (List Piece) :=
  (writeLenencUint int32Max event.columnCount).bind fun columnCount =>
    (writeLenencUint int32Max event.metadataLen).map fun metadataLen =>
      event.fields columnCount metadataLen

namespace RowsEvent

variable (event : RowsEvent)

def fillBitMap (bytes : ℕ) : Piece :=
  (List.replicate bytes 0xFF, bytes)

def beforePieces : List Piece :=
  if event.rowsEventType = .insert then []
  else
    [(event.columnsBeforeBitmaps, fixedLen event.width), (event.beforeRow, event.beforePos)]

def afterPieces : List Piece :=
  if event.rowsEventType = .delete then []
  else [(event.columnsAfterBitmaps, fixedLen event.width), (event.afterRow, event.afterPos)]

/-- The columns that are present in the images: all of them. -/
def imagePieces : List Piece :=
  (if event.rowsEventType = .insert then [] else [fillBitMap event.beforeImageCols]) ++
    if event.rowsEventType = .delete then [] else [fillBitMap event.afterImageCols]

/-- Only in a partial update: the value options and the bitmap. -/
def sharedPieces (typeCode : EventType) : List Piece :=
  if typeCode = .partialUpdateRowsEvent then
    [number 1 1, (event.partialColumnsBitmaps, event.partialColsBytes)]
  else []

def fields (typeCode : EventType) (width : Bytes) : List Piece :=
  [number 6 event.tableId, number 2 event.flags, number 2 event.varHeaderLen, whole width] ++
    event.imagePieces ++ event.beforePieces ++ event.sharedPieces typeCode ++ event.afterPieces

def pieces (typeCode : EventType) : Option (List Piece) :=
  (writeLenencUint maxPacketIntegerLen event.width).map (event.fields typeCode)

end RowsEvent

namespace ConvertedEvent

variable (event : ConvertedEvent)

/-- What stands between the common header and the checksum. -/
def pieces : Option (List Piece) :=
  match event.body with
  | .gtid gtid => some (gtidPieces gtid)
  | .query query => some (queryPieces query)
  | .xid xid => some [number 8 xid]
  | .tableMap tableMap => tableMap.pieces
  | .rows rows => rows.pieces event.header.typeCode

/-- `flush_to_buff`: the bytes in the buffer, and what is returned. -/
def flushToBuff (checksum : Checksum) : Option (Bytes × ℕ) :=
  event.pieces.map fun pieces =>
    let front := (event.header.flushToBuff, commonHeaderLength) :: pieces
    let buff := copied front
    (buff ++ checksum.write buff, position front + checksum.len)

/-- The length in the header is the number of bytes that are written, and what is
returned. -/
def LengthIsTrue (checksum : Checksum) : Prop :=
  ∃ bytes, event.flushToBuff checksum = some (bytes, event.header.eventLength) ∧
    bytes.length = event.header.eventLength

/-- The length in the header is the sum of the sizes that are copied, in 32 bits, and
every array is as long as what is copied from it. -/
def Announces (checksum : Checksum) : Prop :=
  ∃ pieces, event.pieces = some pieces ∧ InBounds pieces ∧
    event.header.eventLength =
      (commonHeaderLength + position pieces + checksum.len) % 2 ^ 32

variable {event} {checksum : Checksum}

theorem Announces.lengthIsTrue (hannounces : event.Announces checksum)
    (hsize : ∀ flushed, event.flushToBuff checksum = some flushed → flushed.2 < 2 ^ 32) :
    event.LengthIsTrue checksum := by
  obtain ⟨pieces, hpieces, hbounds, hlength⟩ := hannounces
  let front : List Piece := (event.header.flushToBuff, commonHeaderLength) :: pieces
  have hfront : InBounds front := by
    rw [inBounds_cons]
    exact ⟨(OblogEventHeader.length_flushToBuff _).ge, hbounds⟩
  have hflush : event.flushToBuff checksum =
      some (copied front ++ checksum.write (copied front), position front + checksum.len) := by
    rw [flushToBuff, hpieces, Option.map_some]
  have hposition : position front + checksum.len = event.header.eventLength := by
    rw [hlength, ← position_cons (event.header.flushToBuff, commonHeaderLength)]
    exact (Nat.mod_eq_of_lt (hsize _ hflush)).symm
  refine ⟨copied front ++ checksum.write (copied front), ?_, ?_⟩
  · rw [hflush, hposition]
  · rw [List.length_append, length_copied hfront, Checksum.length_write, hposition]

end ConvertedEvent

@[simp]
theorem number_snd (width value : ℕ) : (number width value).2 = width := rfl

@[simp]
theorem length_number (width value : ℕ) : (number width value).1.length = width :=
  length_storeLE width value

@[simp]
theorem whole_eq (value : Bytes) : whole value = (value, value.length) := rfl

@[simp]
theorem nullTerminated_snd (capacity : ℕ) (str : Bytes) :
    (nullTerminated capacity str).2 = capacity := rfl

theorem length_nullTerminated {capacity : ℕ} {str : Bytes} (hlength : str.length + 1 = capacity) :
    (nullTerminated capacity str).1.length = capacity := by
  rw [nullTerminated, if_pos hlength.le, List.length_append, List.length_singleton, hlength]

@[simp]
theorem fillBitMap_snd (bytes : ℕ) : (RowsEvent.fillBitMap bytes).2 = bytes := rfl

@[simp]
theorem length_fillBitMap (bytes : ℕ) : (RowsEvent.fillBitMap bytes).1.length = bytes :=
  List.length_replicate

@[simp]
theorem length_textBytes (text : Text) : (textBytes text).length = text.length :=
  List.length_map _

theorem inBounds_queryPieces (event : QueryEvent) : InBounds (queryPieces event) := by
  simp [queryPieces, length_nullTerminated rfl]

theorem TableMapEvent.pieces_eq (event : TableMapEvent) :
    event.pieces =
      some (event.fields (lenencUint event.columnCount) (lenencUint event.metadataLen)) := by
  have hcapacity : maxPacketIntegerLen ≤ int32Max := by decide
  rw [pieces, writeLenencUint_eq_some hcapacity, Option.bind_some,
    writeLenencUint_eq_some hcapacity, Option.map_some]

theorem RowsEvent.pieces_eq (event : RowsEvent) (typeCode : EventType) :
    event.pieces typeCode = some (event.fields typeCode (lenencUint event.width)) := by
  rw [pieces, writeLenencUint_eq_some le_rfl, Option.map_some]

structure TableMapEvent.Sized (event : TableMapEvent) : Prop where
  dbLen : event.dbName.length = event.dbLen
  tbLen : event.tbName.length = event.tbLen
  columnType : event.columnType.length = event.columnCount
  metadata : event.metadataLen ≤ event.metadata.length
  nullBits : event.nullBits.length = fixedLen event.columnCount

theorem TableMapEvent.Sized.inBounds {event : TableMapEvent} (hsized : event.Sized)
    (columnCount metadataLen : Bytes) : InBounds (event.fields columnCount metadataLen) := by
  have hdb : (textBytes event.dbName).length + 1 = event.dbLen + 1 := by
    rw [length_textBytes, hsized.dbLen]
  have htb : (textBytes event.tbName).length + 1 = event.tbLen + 1 := by
    rw [length_textBytes, hsized.tbLen]
  simp [fields, length_nullTerminated hdb, length_nullTerminated htb, hsized.columnType,
    hsized.metadata, hsized.nullBits]

structure RowsEvent.Sized (event : RowsEvent) : Prop where
  before : event.rowsEventType ≠ .insert →
    event.columnsBeforeBitmaps.length = fixedLen event.width ∧
      event.beforeRow.length = event.beforePos
  after : event.rowsEventType ≠ .delete →
    event.columnsAfterBitmaps.length = fixedLen event.width ∧
      event.afterRow.length = event.afterPos
  partialColumns : event.partialColumnsBitmaps.length = event.partialColsBytes

theorem RowsEvent.Sized.inBounds {event : RowsEvent} (hsized : event.Sized) (typeCode : EventType)
    (width : Bytes) : InBounds (event.fields typeCode width) := by
  have himage : InBounds event.imagePieces := by
    rw [imagePieces]
    split_ifs <;> simp
  have hbefore : InBounds event.beforePieces := by
    rw [beforePieces]
    split_ifs with hinsert
    · simp
    · simp [hsized.before hinsert]
  have hshared : InBounds (event.sharedPieces typeCode) := by
    rw [sharedPieces]
    split_ifs
    · simp [hsized.partialColumns]
    · simp
  have hafter : InBounds event.afterPieces := by
    rw [afterPieces]
    split_ifs with hdelete
    · simp
    · simp [hsized.after hdelete]
  simp [fields, himage, hbefore, hshared, hafter]

open RowsEvent List Option

inductive RecordType where
  | begin
  | commit
  | ddl
  | insert
  | delete
  | update
  | heartbeat
  | other
deriving DecidableEq

structure TableMeta where
  name : Text
  cols : List ColMeta

structure LogRecord where
  recordType : RecordType
  timestamp : ℕ := 0
  recordUsec : ℕ := 0
  checkpoint1 : ℕ := 0
  checkpoint2 : ℕ := 0
  threadId : ℕ := 0
  transactionId : Text := []
  dbname : Text := []
  tbname : Text := []
  tableMeta : TableMeta
  oldCols : List RowValue := []
  newCols : List RowValue := []

def LogRecord.checkpointUsec (record : LogRecord) : ℕ :=
  (record.checkpoint1 * 1000 * 1000 + record.checkpoint2) % 2 ^ 64

/-- What the converter is given besides the records: the options, the parser of DDL
statements and the numbers that the table cache hands out. -/
structure Converter where
  runtime : Runtime
  checksum : Checksum
  serverId : ℕ
  masterServerUuid : Bytes
  length_masterServerUuid : masterServerUuid.length = serverUuidLen
  tenant : Text
  binlogDdlConvert : Bool
  ignoreUnsupportedDdl : Bool
  ignoreUnsupportedEvent : Bool
  /-- `none` is a failure. -/
  parseDdl : Text → Option Text
  getTableId : Text → Text → ℕ

def getDbnameWithoutTenant (fullDbname tenantName : Text) : Text :=
  if fullDbname = [] ∨ tenantName = [] then fullDbname
  else if tenantName.isPrefixOf fullDbname ∧ tenantName.length < fullDbname.length then
    fullDbname.drop (tenantName.length + 1)
  else fullDbname

namespace Converter

variable (converter : Converter) (record : LogRecord)

def dbname : Text :=
  getDbnameWithoutTenant record.dbname converter.tenant

def commonHeader (typeCode : EventType) (eventLen : ℕ) : OblogEventHeader where
  timestamp := record.timestamp
  typeCode := typeCode
  serverId := converter.serverId
  eventLength := eventLen % 2 ^ 32
  nextPosition := 0
  flags := 1

def gtidHeaderLen : ℕ := 42

def queryHeaderLen : ℕ := 4 + 4 + 1 + 2 + 2

def xidHeaderLen : ℕ := 0

def xidLen : ℕ := 8

def qFlags2Code : ℕ := 0

def qCharsetCode : ℕ := 4

/-- The sizes of the status variables. -/
def statusVarsBitfield : List ℕ :=
  [4, 8, 255, 4, 6, 255, 2, 2, 8, 4, 255, 255, 255, 255, 255, 1, 8, 2, 2, 2, 2]

def statusVarLen : ℕ :=
  statusVarsBitfield.getD qFlags2Code 0 + 1 + statusVarsBitfield.getD qCharsetCode 0 + 1

/-- Flags, and the three character sets. -/
def statusVars : Bytes :=
  storeLE 1 qFlags2Code ++ storeLE 4 0 ++ storeLE 1 qCharsetCode ++ storeLE 2 45 ++ storeLE 2 45 ++
    storeLE 2 83

/-- The statement of a DDL record; `none` is a record without columns. -/
def ddlText : Option Text :=
  record.newCols.head?.map fun value => value.data.getD []

/-- The statement that is stored: one that cannot be converted is stored as it is. -/
def sqlStatment : Option Bytes :=
  if record.recordType = .begin then some QueryEvent.beginVar
  else
    (ddlText record).map fun ddl =>
      textBytes (if converter.binlogDdlConvert then (converter.parseDdl ddl).getD ddl else ddl)

def convertQueryEvent : Option ConvertedEvent :=
  (converter.sqlStatment record).map fun sqlStatment =>
    let dbname := textBytes (converter.dbname record)
    let eventLen := commonHeaderLength + queryHeaderLen + statusVarLen + dbname.length + 1 +
      sqlStatment.length + converter.checksum.len
    { header := converter.commonHeader record .queryEvent eventLen
      body := .query
        { threadId := record.threadId
          queryExecTime := 0
          errorCode := 0
          statusVars := statusVars.take statusVarLen
          dbname
          sqlStatment
          isDdl := record.recordType ≠ .begin } }

def gtidLogEvent : ConvertedEvent where
  header := converter.commonHeader record .gtidLogEvent
    (commonHeaderLength + gtidHeaderLen + converter.checksum.len)
  obTxn := record.transactionId
  checkpoint := record.checkpointUsec
  body := .gtid
    { gtidUuid := converter.masterServerUuid
      gtidTxnId := 0
      lastCommitted := record.timestamp
      sequenceNumber := record.recordUsec }

def convertGtidLogEvent : Option (List ConvertedEvent) :=
  (converter.convertQueryEvent record).map fun query => [converter.gtidLogEvent record, query]

def ddlNeedToBeStored : Option Bool :=
  (ddlText record).map fun ddl =>
    !(converter.binlogDdlConvert && converter.ignoreUnsupportedDdl &&
      (converter.parseDdl ddl).isNone)

def convertXidEvent : ConvertedEvent where
  header := converter.commonHeader record .xidEvent
    (commonHeaderLength + xidHeaderLen + xidLen + converter.checksum.len)
  body := .xid 0

def tableMapHeaderLen : ℕ := 8

def columnType (col : ColMeta) : ColType :=
  match col.type with
  | .tinyBlob | .mediumBlob | .longBlob | .blob => .blob
  | .varString => .varchar
  | .datetime => .datetime2
  | .time => .time2
  | .timestamp => .timestamp2
  | .enum | .set => .string
  | .float => if 24 < col.precision then .double else .float
  | type => type

/-- The bits of the columns that may be NULL. -/
def nullBits (cols : List ColMeta) : Bytes :=
  (cols.zipIdx.filter fun entry => !entry.1.isNotNull).foldl
    (fun bits entry => setBit bits entry.2) (List.replicate (fixedLen cols.length) 0)

def tableMapEvent : TableMapEvent :=
  let cols := record.tableMeta.cols
  let metadata := cols.flatMap ColMeta.setColumnMetadata
  { tableId := converter.getTableId (converter.dbname record) record.tbname
    flags := 1
    dbName := converter.dbname record
    dbLen := (converter.dbname record).length
    tbName := record.tableMeta.name
    tbLen := record.tableMeta.name.length
    columnCount := cols.length
    columnType := cols.map fun col => UInt8.ofNat (columnType col).code
    -- the buffer has room for two bytes a column
    metadata := metadata ++ List.replicate (cols.length * 2 - metadata.length) 0
    metadataLen := metadata.length
    nullBits := nullBits cols }

def convertTableMapEvent : ConvertedEvent :=
  let event := converter.tableMapEvent record
  let bodySize := (event.dbLen + 2) + (event.tbLen + 2) +
    ((packetStoreLength event.columnCount).length + event.columnCount +
      fixedLen event.columnCount) +
    (packetStoreLength event.metadataLen).length + event.metadataLen
  { header := converter.commonHeader record .tableMapEvent
      (commonHeaderLength + tableMapHeaderLen + bodySize + converter.checksum.len)
    body := .tableMap event }

def rowsHeaderLen : ℕ := 8

def varHeaderLen : ℕ := 2

def stmtEndF : ℕ := 1

/-- The header and the transaction of a rows event, whose body has the size. -/
def rowsEvent (typeCode : EventType) (bodySize : ℕ) (event : RowsEvent) : ConvertedEvent where
  header := converter.commonHeader record typeCode
    (commonHeaderLength + rowsHeaderLen + varHeaderLen + bodySize + converter.checksum.len)
  obTxn := record.transactionId
  checkpoint := record.checkpointUsec
  body := .rows event

/-- The values of the row, for a kind of event. -/
def rowBytes (rowsEventType : RowsEventType) : Option ColValBytes :=
  colValBytes converter.runtime rowsEventType record.tableMeta.cols record.oldCols record.newCols

def convertWriteRowsEvent : Option ConvertedEvent :=
  (converter.rowBytes record .insert).map fun bytes =>
    let colCount := record.tableMeta.cols.length
    let colBytes := fixedLen colCount
    converter.rowsEvent record .writeRowsEvent
      (colBytes + colBytes + bytes.colBytes + getPackedInteger colCount)
      { rowsEventType := .insert
        tableId := converter.getTableId (converter.dbname record) record.tbname
        flags := stmtEndF
        varHeaderLen := 2
        width := colCount
        afterImageCols := colBytes
        columnsAfterBitmaps := bytes.after.bitmap
        beforeRow := bytes.before.row
        afterRow := bytes.after.row
        beforePos := bytes.before.pos
        afterPos := bytes.after.pos }

def convertDeleteRowsEvent : Option ConvertedEvent :=
  (converter.rowBytes record .delete).map fun bytes =>
    let colCount := record.tableMeta.cols.length
    let colBytes := fixedLen colCount
    converter.rowsEvent record .deleteRowsEvent
      (colBytes + colBytes + bytes.colBytes + getPackedInteger colCount)
      { rowsEventType := .delete
        tableId := converter.getTableId (converter.dbname record) record.tbname
        flags := stmtEndF
        varHeaderLen := 2
        width := colCount
        beforeImageCols := colBytes
        columnsBeforeBitmaps := bytes.before.bitmap
        beforeRow := bytes.before.row
        afterRow := bytes.after.row
        beforePos := bytes.before.pos
        afterPos := bytes.after.pos }

/-- `parallel_convert_update_rows_event`: with a JSON difference it is a partial update. -/
def convertUpdateRowsEvent : Option ConvertedEvent :=
  (converter.rowBytes record .update).map fun bytes =>
    let colCount := record.tableMeta.cols.length
    let colBytes := fixedLen colCount
    let partialSize := match bytes.partialCols with
      | none => 0
      | some (_, partialColsBytes) => 1 + partialColsBytes
    converter.rowsEvent record
      (if bytes.partialCols.isSome then .partialUpdateRowsEvent else .updateRowsEvent)
      (bytes.colBytes + partialSize + 4 * colBytes + getPackedInteger colCount)
      { rowsEventType := .update
        tableId := converter.getTableId (converter.dbname record) record.tbname
        flags := stmtEndF
        varHeaderLen := 2
        width := colCount
        beforeImageCols := colBytes
        afterImageCols := colBytes
        columnsBeforeBitmaps := bytes.before.bitmap
        columnsAfterBitmaps := bytes.after.bitmap
        partialColumnsBitmaps := (bytes.partialCols.map Prod.fst).getD []
        partialColsBytes := (bytes.partialCols.map Prod.snd).getD 0
        beforeRow := bytes.before.row
        afterRow := bytes.after.row
        beforePos := bytes.before.pos
        afterPos := bytes.after.pos }

/-- The body of the loop over the records; `none` is an exception.  Of a heartbeat only the
checkpoint is passed on, in an event without a header. -/
def convert : Option (List ConvertedEvent) :=
  let tableMap := converter.convertTableMapEvent record
  match record.recordType with
  | .begin => converter.convertGtidLogEvent record
  | .commit => some [converter.convertXidEvent record]
  | .ddl =>
    (converter.ddlNeedToBeStored record).bind fun stored =>
      if stored then converter.convertGtidLogEvent record else some []
  | .insert => (converter.convertWriteRowsEvent record).map fun rows => [tableMap, rows]
  | .delete => (converter.convertDeleteRowsEvent record).map fun rows => [tableMap, rows]
  | .update => (converter.convertUpdateRowsEvent record).map fun rows => [tableMap, rows]
  | .heartbeat => some []
  | .other => if converter.ignoreUnsupportedEvent then some [] else none

inductive Builds : ConvertedEvent → Prop
  | gtid : Builds (converter.gtidLogEvent record)
  | query {event : ConvertedEvent} (hquery : converter.convertQueryEvent record = some event) :
      Builds event
  | xid : Builds (converter.convertXidEvent record)
  | tableMap : Builds (converter.convertTableMapEvent record)
  | writeRows {event : ConvertedEvent}
      (hrows : converter.convertWriteRowsEvent record = some event) : Builds event
  | deleteRows {event : ConvertedEvent}
      (hrows : converter.convertDeleteRowsEvent record = some event) : Builds event
  | updateRows {event : ConvertedEvent}
      (hrows : converter.convertUpdateRowsEvent record = some event) : Builds event

section Builds

variable {converter record} {events : List ConvertedEvent}

theorem convertGtidLogEvent_builds (hconvert : converter.convertGtidLogEvent record = some events) :
    ∀ event ∈ events, converter.Builds record event := by
  obtain ⟨query, hquery, rfl⟩ := map_eq_some_iff.mp hconvert
  rw [forall_mem_cons, forall_mem_singleton]
  exact ⟨.gtid, .query hquery⟩

theorem builds_of_map {rows : Option ConvertedEvent}
    (hrows : ∀ event, rows = some event → converter.Builds record event)
    (hconvert : (rows.map fun event => [converter.convertTableMapEvent record, event]) =
      some events) :
    ∀ event ∈ events, converter.Builds record event := by
  obtain ⟨found, hfound, rfl⟩ := map_eq_some_iff.mp hconvert
  rw [forall_mem_cons, forall_mem_singleton]
  exact ⟨.tableMap, hrows found hfound⟩

theorem convert_builds (hconvert : converter.convert record = some events) :
    ∀ event ∈ events, converter.Builds record event := by
  rw [convert] at hconvert
  split at hconvert
  · exact convertGtidLogEvent_builds hconvert
  · cases hconvert
    rw [forall_mem_singleton]
    exact .xid
  · obtain ⟨stored, -, hstored⟩ := bind_eq_some_iff.mp hconvert
    split_ifs at hstored
    · exact convertGtidLogEvent_builds hstored
    · cases hstored
      simp
  · exact builds_of_map (fun event hrows => .writeRows hrows) hconvert
  · exact builds_of_map (fun event hrows => .deleteRows hrows) hconvert
  · exact builds_of_map (fun event hrows => .updateRows hrows) hconvert
  · cases hconvert
    simp
  · split_ifs at hconvert
    cases hconvert
    simp

end Builds

section Announces

variable {converter record} {event : ConvertedEvent}

theorem convertQueryEvent_announces (hconvert : converter.convertQueryEvent record = some event) :
    event.Announces converter.checksum := by
  obtain ⟨sqlStatment, -, rfl⟩ := map_eq_some_iff.mp hconvert
  have hstatusVars : (statusVars.take statusVarLen).length = statusVarLen := by decide
  refine ⟨_, rfl, inBounds_queryPieces _, ?_⟩
  simp only [commonHeader, queryPieces, position_cons, position_nil, number_snd, whole_eq,
    nullTerminated_snd, hstatusVars, queryHeaderLen]
  omega

theorem length_flatMap_setColumnMetadata_le (cols : List ColMeta) :
    (cols.flatMap ColMeta.setColumnMetadata).length ≤ cols.length * 2 := by
  induction cols with
  | nil => simp
  | cons col cols ih =>
    have hcol := col.length_setColumnMetadata_le
    rw [flatMap_cons, length_append, length_cons]
    omega

theorem length_foldl_setBit (entries : List (ColMeta × ℕ)) (bits : Bytes) :
    (entries.foldl (fun bits entry => setBit bits entry.2) bits).length = bits.length := by
  induction entries generalizing bits with
  | nil => rfl
  | cons entry entries ih => rw [foldl_cons, ih, length_setBit]

theorem sized_tableMapEvent : (converter.tableMapEvent record).Sized where
  dbLen := rfl
  tbLen := rfl
  columnType := length_map _
  metadata := by
    rw [tableMapEvent, length_append]
    exact Nat.le_add_right _ _
  nullBits := by
    rw [tableMapEvent, nullBits, length_foldl_setBit, length_replicate]

theorem convertTableMapEvent_announces (hcount : record.tableMeta.cols.length < 2 ^ 16) :
    (converter.convertTableMapEvent record).Announces converter.checksum := by
  have hmetadata := length_flatMap_setColumnMetadata_le record.tableMeta.cols
  have hcountLen : (converter.tableMapEvent record).columnCount < 2 ^ 64 - 1 :=
    hcount.trans (by norm_num)
  have hmetadataLen : (converter.tableMapEvent record).metadataLen < 2 ^ 64 - 1 := by
    change (record.tableMeta.cols.flatMap ColMeta.setColumnMetadata).length < _
    omega
  refine ⟨_, (converter.tableMapEvent record).pieces_eq, sized_tableMapEvent.inBounds _ _, ?_⟩
  simp only [convertTableMapEvent, commonHeader, TableMapEvent.fields, position_cons, position_nil,
    number_snd, whole_eq, nullTerminated_snd, length_lenencUint hcountLen,
    length_lenencUint hmetadataLen, tableMapHeaderLen]
  omega

/-- The sizes of a rows event, if its width fits two bytes. -/
theorem rowsEvent_announces {typeCode : EventType} {bodySize : ℕ} {rows : RowsEvent}
    (hsized : rows.Sized) (hwidth : rows.width < 2 ^ 16)
    (hbody : bodySize = getPackedInteger rows.width + position rows.imagePieces +
      position rows.beforePieces + position (rows.sharedPieces typeCode) +
        position rows.afterPieces) :
    (converter.rowsEvent record typeCode bodySize rows).Announces converter.checksum := by
  have hlenenc : (lenencUint rows.width).length = getPackedInteger rows.width := by
    rw [length_lenencUint (hwidth.trans (by norm_num)), length_packetStoreLength hwidth]
  refine ⟨_, rows.pieces_eq typeCode, hsized.inBounds _ _, ?_⟩
  simp only [rowsEvent, commonHeader, fields, position_append, position_cons,
    position_nil, number_snd, whole_eq, hlenenc, hbody, rowsHeaderLen, varHeaderLen]
  omega

variable (hcount : record.tableMeta.cols.length < 2 ^ 16)
  (hcols : ∀ col ∈ record.tableMeta.cols, col.Convertible)

include hcount hcols

theorem convertWriteRowsEvent_announces
    (hconvert : converter.convertWriteRowsEvent record = some event) :
    event.Announces converter.checksum := by
  obtain ⟨bytes, hbytes, rfl⟩ := map_eq_some_iff.mp hconvert
  have hsized := colValBytes_sized hbytes hcols
  refine rowsEvent_announces ⟨by simp, ?_, rfl⟩ hcount ?_
  · exact fun _ => ⟨hsized.after.bitmap, hsized.after.row⟩
  · simp only [imagePieces, beforePieces, sharedPieces,
      afterPieces, hsized.colBytes, colValBytes_insert hbytes, reduceCtorEq, if_true,
      if_false, nil_append, position_cons, position_nil, fillBitMap_snd]
    omega

theorem convertDeleteRowsEvent_announces
    (hconvert : converter.convertDeleteRowsEvent record = some event) :
    event.Announces converter.checksum := by
  obtain ⟨bytes, hbytes, rfl⟩ := map_eq_some_iff.mp hconvert
  have hsized := colValBytes_sized hbytes hcols
  refine rowsEvent_announces ⟨?_, by simp, rfl⟩ hcount ?_
  · exact fun _ => ⟨hsized.before.bitmap, hsized.before.row⟩
  · simp only [imagePieces, beforePieces, sharedPieces,
      afterPieces, hsized.colBytes, colValBytes_delete hbytes, reduceCtorEq, if_true,
      if_false, append_nil, position_cons, position_nil, fillBitMap_snd]
    omega

theorem convertUpdateRowsEvent_announces
    (hconvert : converter.convertUpdateRowsEvent record = some event) :
    event.Announces converter.checksum := by
  obtain ⟨bytes, hbytes, rfl⟩ := map_eq_some_iff.mp hconvert
  have hsized := colValBytes_sized hbytes hcols
  refine rowsEvent_announces ⟨?_, ?_, ?_⟩ hcount ?_
  · exact fun _ => ⟨hsized.before.bitmap, hsized.before.row⟩
  · exact fun _ => ⟨hsized.after.bitmap, hsized.after.row⟩
  · cases hpartial : bytes.partialCols with
    | none => rfl
    | some entry => exact hsized.partialCols entry.1 entry.2 hpartial
  · -- the value options and the bitmap are there exactly in a partial update
    cases bytes.partialCols <;>
      simp only [imagePieces, beforePieces, sharedPieces,
        afterPieces, hsized.colBytes, reduceCtorEq, if_true, if_false,
        cons_append, nil_append, position_cons, position_nil, fillBitMap_snd, number_snd,
        isSome_none, isSome_some, Bool.false_eq_true, map_some,
        getD_some] <;>
      omega

theorem Builds.announces (hbuilds : converter.Builds record event) :
    event.Announces converter.checksum := by
  cases hbuilds with
  | gtid => exact ⟨_, rfl, by simp [gtidPieces, converter.length_masterServerUuid], rfl⟩
  | query hquery => exact convertQueryEvent_announces hquery
  | xid => exact ⟨_, rfl, by simp, rfl⟩
  | tableMap => exact convertTableMapEvent_announces hcount
  | writeRows hrows => exact convertWriteRowsEvent_announces hcount hcols hrows
  | deleteRows hrows => exact convertDeleteRowsEvent_announces hcount hcols hrows
  | updateRows hrows => exact convertUpdateRowsEvent_announces hcount hcols hrows

end Announces

/-- Every event that the converter builds, of a table whose columns can be converted, is
flushed to as many bytes as its header says. -/
theorem convert_lengthIsTrue (converter : Converter) (record : LogRecord)
    (hcount : record.tableMeta.cols.length < 65536)
    (hcols : ∀ col ∈ record.tableMeta.cols, col.type ≠ .null ∧ col.type ≠ .geometry)
    (events : List ConvertedEvent) (hconvert : converter.convert record = some events)
    (event : ConvertedEvent) (hevent : event ∈ events)
    (hsize : ∀ flushed, event.flushToBuff converter.checksum = some flushed →
      flushed.2 < 2 ^ 32) :
    event.LengthIsTrue converter.checksum :=
  ((convert_builds hconvert event hevent).announces hcount hcols).lengthIsTrue hsize

end Converter

def sampleConverter : Converter where
  runtime := { sampleRuntime with createFromWkt := fun _ => none }
  checksum := ⟨true, fun _ => 0⟩
  serverId := 1
  masterServerUuid := List.replicate 16 0
  length_masterServerUuid := rfl
  tenant := []
  binlogDdlConvert := false
  ignoreUnsupportedDdl := false
  ignoreUnsupportedEvent := false
  parseDdl := some
  getTableId := fun _ _ => 1

def sampleRecord : LogRecord where
  recordType := .insert
  tableMeta := ⟨['t'], [{ type := .tiny }, { type := .varchar, length := 8 }]⟩
  newCols := [⟨some ['5'], false⟩, ⟨none, false⟩]

def sampleRows : ConvertedEvent :=
  (sampleConverter.convertWriteRowsEvent sampleRecord).get (by decide +kernel)

namespace Converter

theorem convert_lengthIsTrue_sampleRecord :
    sampleConverter.convert sampleRecord =
        some [sampleConverter.convertTableMapEvent sampleRecord, sampleRows] ∧
      sampleRows.LengthIsTrue sampleConverter.checksum := by
  have hconvert : sampleConverter.convert sampleRecord =
      some [sampleConverter.convertTableMapEvent sampleRecord, sampleRows] := by
    have hrows : sampleConverter.convertWriteRowsEvent sampleRecord = some sampleRows :=
      (some_get _).symm
    simp only [convert, sampleRecord] at hrows ⊢
    rw [hrows, map_some]
  have hsmall : ((sampleRows.flushToBuff sampleConverter.checksum).all fun flushed =>
      flushed.2 < 2 ^ 32) = true := by
    decide +kernel
  refine ⟨hconvert, convert_lengthIsTrue sampleConverter sampleRecord (by decide) (by decide) _
    hconvert sampleRows (by simp) ?_⟩
  intro flushed hflushed
  rw [hflushed] at hsmall
  simpa using hsmall

end Converter

/-- The kind of the events that carry row data, by the type in the header. -/
def rowsKind : EventType → RowsKind
  | .writeRowsEvent => .writeRows
  | .updateRowsEvent => .updateRows
  | .deleteRowsEvent => .deleteRows
  | .partialUpdateRowsEvent => .partialUpdateRows
  | _ => .tableMap

namespace ConvertedEvent

def toObLogEvent (event : ConvertedEvent) : ObLogEvent where
  timestamp := event.header.timestamp
  serverId := event.header.serverId
  nextPosition := event.header.nextPosition
  flags := event.header.flags
  obTxn := event.obTxn
  checkpoint := event.checkpoint
  body :=
    match event.body with
    | .gtid gtid => .gtid gtid
    | .query query => .query query
    | .xid xid => .xid xid
    | .tableMap _ | .rows _ =>
      .rows (rowsKind event.header.typeCode) (copied (event.pieces.getD []))

/-- The type in the header is the one of the body, and the pieces are its content. -/
structure Stored (event : ConvertedEvent) (checksum : Checksum) : Prop where
  typeCode : event.toObLogEvent.body.typeCode = event.header.typeCode
  content : copied (event.pieces.getD []) = event.toObLogEvent.body.content checksum

variable {event : ConvertedEvent} {checksum : Checksum}

theorem signedFlags_toObLogEvent (event : ConvertedEvent) :
    event.toObLogEvent.signedFlags = event.header.flags := by
  cases hbody : event.body <;> simp [ObLogEvent.signedFlags, toObLogEvent, hbody]

theorem Stored.flushToBuff (hstored : event.Stored checksum)
    (hannounces : event.Announces checksum) (hlength : event.LengthIsTrue checksum) :
    event.toObLogEvent.header checksum = event.header ∧
      event.flushToBuff checksum =
        some (event.toObLogEvent.flushToBuff checksum, event.header.eventLength) := by
  obtain ⟨bytes, hflush, -⟩ := hlength
  obtain ⟨pieces, hpieces, hbounds, -⟩ := hannounces
  have hcontent : copied pieces = event.toObLogEvent.body.content checksum := by
    rw [← hstored.content, hpieces, getD_some]
  have hfull : event.header.flushToBuff.take commonHeaderLength = event.header.flushToBuff :=
    List.take_of_length_le (OblogEventHeader.length_flushToBuff _).le
  rw [ConvertedEvent.flushToBuff, hpieces, map_some] at hflush ⊢
  simp only [copied_cons, position_cons, hfull, hcontent, some.injEq, Prod.mk.injEq]
    at hflush ⊢
  have heventLength : event.toObLogEvent.eventLength checksum = event.header.eventLength := by
    rw [ObLogEvent.eventLength, ← hcontent, length_copied hbounds]
    exact hflush.2
  have hheader : event.toObLogEvent.header checksum = event.header := by
    rw [ObLogEvent.header, heventLength, hstored.typeCode]
    rfl
  refine ⟨hheader, ?_, hflush.2⟩
  rw [ObLogEvent.flushToBuff, hheader, signedFlags_toObLogEvent, List.append_assoc]

end ConvertedEvent

namespace Converter

variable {converter : Converter} {record : LogRecord}

theorem copied_gtidPieces {event : GtidLogEvent} (huuid : event.gtidUuid.length = serverUuidLen) :
    copied (gtidPieces event) = event.content := by
  simp [gtidPieces, copied, number, GtidLogEvent.content, List.take_of_length_le, huuid]

theorem copied_queryPieces (event : QueryEvent) : copied (queryPieces event) = event.content := by
  simp [queryPieces, copied, number, nullTerminated, QueryEvent.content, List.take_of_length_le]

theorem Builds.stored {event : ConvertedEvent} (hbuilds : converter.Builds record event) :
    event.Stored converter.checksum := by
  cases hbuilds with
  | gtid => exact ⟨rfl, copied_gtidPieces converter.length_masterServerUuid⟩
  | query hquery =>
    obtain ⟨sqlStatment, -, rfl⟩ := map_eq_some_iff.mp hquery
    exact ⟨rfl, copied_queryPieces _⟩
  | xid => exact ⟨rfl, rfl⟩
  | tableMap => exact ⟨rfl, rfl⟩
  | writeRows hrows =>
    obtain ⟨bytes, -, rfl⟩ := map_eq_some_iff.mp hrows
    exact ⟨rfl, rfl⟩
  | deleteRows hrows =>
    obtain ⟨bytes, -, rfl⟩ := map_eq_some_iff.mp hrows
    exact ⟨rfl, rfl⟩
  | updateRows hrows =>
    obtain ⟨bytes, -, rfl⟩ := map_eq_some_iff.mp hrows
    refine ⟨?_, rfl⟩
    cases bytes.partialCols <;>
      simp [rowsEvent, ConvertedEvent.toObLogEvent, commonHeader, rowsKind, EventBody.typeCode,
        RowsKind.typeCode]

/-- The events of a record are stored with the headers and the bytes that the converter
gave them. -/
theorem convert_flushToBuff (hcount : record.tableMeta.cols.length < 2 ^ 16)
    (hcols : ∀ col ∈ record.tableMeta.cols, col.Convertible) {events : List ConvertedEvent}
    (hconvert : converter.convert record = some events) {event : ConvertedEvent}
    (hevent : event ∈ events)
    (hsize : ∀ flushed, event.flushToBuff converter.checksum = some flushed →
      flushed.2 < 2 ^ 32) :
    event.toObLogEvent.header converter.checksum = event.header ∧
      event.flushToBuff converter.checksum =
        some (event.toObLogEvent.flushToBuff converter.checksum, event.header.eventLength) := by
  have hbuilds := convert_builds hconvert event hevent
  have hannounces := hbuilds.announces hcount hcols
  exact hbuilds.stored.flushToBuff hannounces (hannounces.lengthIsTrue hsize)

theorem convert_flushToBuff_sampleRecord :
    (sampleConverter.convert sampleRecord).isSome ∧
      ∀ events ∈ sampleConverter.convert sampleRecord, ∀ event ∈ events,
        event.toObLogEvent.header sampleConverter.checksum = event.header := by
  refine ⟨by decide +kernel, fun events hconvert event hevent => ?_⟩
  have hsmall : ∀ events ∈ sampleConverter.convert sampleRecord, ∀ event ∈ events,
      ∀ flushed ∈ event.flushToBuff sampleConverter.checksum, flushed.2 < 2 ^ 32 := by
    decide +kernel
  exact (convert_flushToBuff (by decide) (by unfold ColMeta.Convertible; decide) hconvert hevent
    (hsmall events hconvert event hevent)).1

end Converter

end OblogProxy.Convert
