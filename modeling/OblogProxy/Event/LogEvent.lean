import OblogProxy.Core.Bytes
import OblogProxy.Core.Tail
import OblogProxy.Gtid.GtidSetText

/-!
# Binlog events, transactions and files

The events that the storage writes, with the bytes each of them is flushed to.  The length
of an event in its header is the length of what is flushed, as the converter computes it.

The converter turns an OceanBase transaction into the events of one binlog
transaction: a gtid event, then `BEGIN`, rows and a commit, or one DDL statement.  A
binlog file is the magic number, the format description event, the previous-gtids event,
and whole transactions; a file that has been closed ends with a rotate event.
-/

namespace OblogProxy.Event

open Bytes Gtid SortedMap List

/-- The event types that the storage, the recovery and the dumper tell apart;
any other byte in the type field is kept as its code. -/
inductive EventType where
  | unknownEvent
  | queryEvent
  | rotateEvent
  | formatDescriptionEvent
  | xidEvent
  | tableMapEvent
  | heartbeatLogEvent
  | writeRowsEvent
  | updateRowsEvent
  | deleteRowsEvent
  | gtidLogEvent
  | previousGtidsLogEvent
  | partialUpdateRowsEvent
  | otherEvent (code : ℕ)
deriving DecidableEq

def EventType.code : EventType → ℕ
  | unknownEvent => 0
  | queryEvent => 2
  | rotateEvent => 4
  | formatDescriptionEvent => 15
  | xidEvent => 16
  | tableMapEvent => 19
  | heartbeatLogEvent => 27
  | writeRowsEvent => 30
  | updateRowsEvent => 31
  | deleteRowsEvent => 32
  | gtidLogEvent => 33
  | previousGtidsLogEvent => 35
  | partialUpdateRowsEvent => 39
  | otherEvent code => code

def EventType.ofCode : ℕ → EventType
  | 0 => unknownEvent
  | 2 => queryEvent
  | 4 => rotateEvent
  | 15 => formatDescriptionEvent
  | 16 => xidEvent
  | 19 => tableMapEvent
  | 27 => heartbeatLogEvent
  | 30 => writeRowsEvent
  | 31 => updateRowsEvent
  | 32 => deleteRowsEvent
  | 33 => gtidLogEvent
  | 35 => previousGtidsLogEvent
  | 39 => partialUpdateRowsEvent
  | code => otherEvent code

def binlogMagicSize : ℕ := 4

def binlogMagic : Bytes := [254, 98, 105, 110]

def commonHeaderLength : ℕ := 19

def flagsOffset : ℕ := 17

def flagsLen : ℕ := 2

structure OblogEventHeader where
  timestamp : ℕ
  typeCode : EventType
  serverId : ℕ
  eventLength : ℕ
  nextPosition : ℕ
  flags : ℕ
deriving DecidableEq

namespace OblogEventHeader

def flushToBuff (header : OblogEventHeader) : Bytes :=
  storeLE 4 header.timestamp ++ storeLE 1 header.typeCode.code ++ storeLE 4 header.serverId ++
    storeLE 4 header.eventLength ++ storeLE 4 header.nextPosition ++ storeLE 2 header.flags

def deserialize (buff : Bytes) : OblogEventHeader :=
  { timestamp := loadLE (slice buff 0 4)
    typeCode := EventType.ofCode (loadLE (slice buff 4 1))
    serverId := loadLE (slice buff 5 4)
    eventLength := loadLE (slice buff 9 4)
    nextPosition := loadLE (slice buff 13 4)
    flags := loadLE (slice buff 17 2) }

@[simp]
theorem length_flushToBuff (header : OblogEventHeader) :
    header.flushToBuff.length = commonHeaderLength := by
  simp [flushToBuff, commonHeaderLength]

theorem deserialize_nextPosition_lt (buff : Bytes) : (deserialize buff).nextPosition < 2 ^ 32 := by
  have hlength : (slice buff 13 4).length ≤ 4 := by
    rw [slice, length_take]
    exact Nat.min_le_left _ _
  calc loadLE (slice buff 13 4) < 256 ^ (slice buff 13 4).length := loadLE_lt _
    _ ≤ 256 ^ 4 := Nat.pow_le_pow_right (by decide) hlength
    _ = 2 ^ 32 := by decide

theorem deserialize_flushToBuff (header : OblogEventHeader) (rest : Bytes) :
    deserialize (header.flushToBuff ++ rest) =
      { timestamp := header.timestamp % 2 ^ 32
        typeCode := EventType.ofCode (header.typeCode.code % 2 ^ 8)
        serverId := header.serverId % 2 ^ 32
        eventLength := header.eventLength % 2 ^ 32
        nextPosition := header.nextPosition % 2 ^ 32
        flags := header.flags % 2 ^ 16 } := by
  simp [deserialize, flushToBuff, slice, drop_append, drop_of_length_le, loadLE_storeLE]

end OblogEventHeader

/-- The checksum option with the checksum function. -/
structure Checksum where
  enabled : Bool
  crc32 : Bytes → UInt32

def Checksum.len (checksum : Checksum) : ℕ :=
  if checksum.enabled then 4 else 0

def Checksum.write (checksum : Checksum) (buff : Bytes) : Bytes :=
  if checksum.enabled then storeLE 4 (checksum.crc32 buff).toNat else []

@[simp]
theorem Checksum.length_write (checksum : Checksum) (buff : Bytes) :
    (checksum.write buff).length = checksum.len := by
  cases henabled : checksum.enabled <;> simp [Checksum.write, Checksum.len, henabled]

def textBytes (text : Text) : Bytes :=
  text.map fun char => UInt8.ofNat char.toNat

structure GtidLogEvent where
  commitFlag : ℕ := 1
  gtidUuid : Bytes
  gtidTxnId : ℕ
  lastCommitted : ℕ
  sequenceNumber : ℕ
  tsType : ℕ := 2
deriving DecidableEq

structure QueryEvent where
  threadId : ℕ
  queryExecTime : ℕ
  errorCode : ℕ
  statusVars : Bytes
  dbname : Bytes
  sqlStatment : Bytes
  isDdl : Bool
deriving DecidableEq

structure RotateEvent where
  nextBinlogPosition : ℕ
  nextBinlogFileName : Text
deriving DecidableEq

/-- The events that carry row data: their bodies are not looked into. -/
inductive RowsKind where
  | tableMap
  | writeRows
  | updateRows
  | deleteRows
  | partialUpdateRows
deriving DecidableEq

inductive EventBody where
  | heartbeat (binlogFileName : Text)
  | gtid (event : GtidLogEvent)
  | query (event : QueryEvent)
  | xid (xid : ℕ)
  | rows (kind : RowsKind) (content : Bytes)
  | rotate (event : RotateEvent)
  | formatDescription (timestamp : ℕ)
  | previousGtids (messages : List GtidMessage)
deriving DecidableEq

def RowsKind.typeCode : RowsKind → EventType
  | tableMap => .tableMapEvent
  | writeRows => .writeRowsEvent
  | updateRows => .updateRowsEvent
  | deleteRows => .deleteRowsEvent
  | partialUpdateRows => .partialUpdateRowsEvent

def EventBody.typeCode : EventBody → EventType
  | heartbeat _ => .heartbeatLogEvent
  | gtid _ => .gtidLogEvent
  | query _ => .queryEvent
  | xid _ => .xidEvent
  | rows kind _ => kind.typeCode
  | rotate _ => .rotateEvent
  | formatDescription _ => .formatDescriptionEvent
  | previousGtids _ => .previousGtidsLogEvent

def GtidLogEvent.content (event : GtidLogEvent) : Bytes :=
  storeLE 1 event.commitFlag ++ event.gtidUuid ++ storeLE 8 event.gtidTxnId ++
    storeLE 1 event.tsType ++ storeLE 8 event.lastCommitted ++ storeLE 8 event.sequenceNumber

def QueryEvent.content (event : QueryEvent) : Bytes :=
  storeLE 4 event.threadId ++ storeLE 4 event.queryExecTime ++ storeLE 1 event.dbname.length ++
    storeLE 2 event.errorCode ++ storeLE 2 event.statusVars.length ++ event.statusVars ++
    event.dbname ++ [0] ++ event.sqlStatment

def RotateEvent.content (event : RotateEvent) : Bytes :=
  storeLE 8 event.nextBinlogPosition ++ textBytes event.nextBinlogFileName

/-- `SERVER_VERSION`, the text `5.7.38`, in its field of `ST_SERVER_VER_LEN` bytes. -/
def serverVersion : Bytes :=
  [53, 46, 55, 46, 51, 56] ++ replicate 44 0

/-- `server_event_header_length`: the lengths of the post-headers by event type. -/
def eventTypeHeaderLen : Bytes :=
  [56, 13, 0, 8, 0, 18, 0, 4, 4, 4, 4, 18, 0, 0, 96, 0, 4, 26, 8, 0, 0, 0, 8, 8, 8, 2, 0, 0, 0,
    10, 10, 10, 42, 42, 0, 18, 52, 0, 10]

def formatDescriptionContent (checksum : Checksum) (timestamp : ℕ) : Bytes :=
  storeLE 2 4 ++ serverVersion ++ storeLE 4 timestamp ++ storeLE 1 commonHeaderLength ++
    eventTypeHeaderLen ++ storeLE 1 (if checksum.enabled then 1 else 0)

/-- One source of a previous-gtids event.  The ranges are stored half-open. -/
def gtidMessageContent (message : GtidMessage) : Bytes :=
  message.gtidUuid.getD [] ++ storeLE 8 message.gtidTxnIdIntervals ++
    message.txnRange.flatMap fun range => storeLE 8 range.1 ++ storeLE 8 (range.2 + 1)

def previousGtidsContent (messages : List GtidMessage) : Bytes :=
  storeLE 8 messages.length ++ messages.flatMap gtidMessageContent

def EventBody.content (checksum : Checksum) : EventBody → Bytes
  | heartbeat binlogFileName => textBytes binlogFileName
  | gtid event => event.content
  | query event => event.content
  | xid value => storeLE 8 value
  | rows _ content => content
  | rotate event => event.content
  | formatDescription timestamp => formatDescriptionContent checksum timestamp
  | previousGtids messages => previousGtidsContent messages

structure ObLogEvent where
  timestamp : ℕ
  serverId : ℕ
  nextPosition : ℕ := 0
  flags : ℕ := 1
  obTxn : Text := []
  checkpoint : ℕ := 0
  filter : Bool := true
  body : EventBody
deriving DecidableEq

namespace ObLogEvent

variable (checksum : Checksum)

def eventLength (event : ObLogEvent) : ℕ :=
  commonHeaderLength + (event.body.content checksum).length + checksum.len

def header (event : ObLogEvent) : OblogEventHeader :=
  { timestamp := event.timestamp
    typeCode := event.body.typeCode
    serverId := event.serverId
    eventLength := event.eventLength checksum
    nextPosition := event.nextPosition
    flags := event.flags }

/-- The flags that the checksum is computed with: a format description event is
signed as if the file were closed. -/
def signedFlags (event : ObLogEvent) : ℕ :=
  match event.body with
  | .formatDescription _ => if event.flags % 2 = 1 then 0 else event.flags
  | _ => event.flags

def flushToBuff (event : ObLogEvent) : Bytes :=
  let content := event.body.content checksum
  (event.header checksum).flushToBuff ++ (content ++ checksum.write
    ({ event.header checksum with flags := event.signedFlags }.flushToBuff ++ content))

@[simp]
theorem length_flushToBuff (event : ObLogEvent) :
    (event.flushToBuff checksum).length = event.eventLength checksum := by
  simp [flushToBuff, eventLength, Nat.add_assoc]

theorem commonHeaderLength_le_eventLength (event : ObLogEvent) :
    commonHeaderLength ≤ event.eventLength checksum := by
  rw [eventLength, Nat.add_assoc]
  exact Nat.le_add_right _ _

theorem eventLength_pos (event : ObLogEvent) : 0 < event.eventLength checksum :=
  Nat.lt_of_lt_of_le (by decide) (event.commonHeaderLength_le_eventLength checksum)

theorem deserialize_header (event : ObLogEvent) (rest : Bytes) :
    OblogEventHeader.deserialize ((event.header checksum).flushToBuff ++ rest) =
      { timestamp := event.timestamp % 2 ^ 32
        typeCode := event.body.typeCode
        serverId := event.serverId % 2 ^ 32
        eventLength := event.eventLength checksum % 2 ^ 32
        nextPosition := event.nextPosition % 2 ^ 32
        flags := event.flags % 2 ^ 16 } := by
  rw [OblogEventHeader.deserialize_flushToBuff]
  have htype : EventType.ofCode (event.body.typeCode.code % 2 ^ 8) = event.body.typeCode := by
    cases event.body with
    | rows kind content => cases kind <;> rfl
    | _ => rfl
  simp only [header, htype]

end ObLogEvent

open ObLogEvent

namespace GtidLogEvent

def deserialize (buff : Bytes) : GtidLogEvent :=
  { commitFlag := loadLE (slice buff 19 1)
    gtidUuid := slice buff 20 serverUuidLen
    gtidTxnId := loadLE (slice buff 36 8)
    tsType := loadLE (slice buff 44 1)
    lastCommitted := loadLE (slice buff 45 8)
    sequenceNumber := loadLE (slice buff 53 8) }

/-- The uuid has its sixteen bytes and the numbers fit their fields. -/
structure Fits (event : GtidLogEvent) : Prop where
  commitFlag : event.commitFlag < 2 ^ 8
  gtidUuid : event.gtidUuid.length = serverUuidLen
  gtidTxnId : event.gtidTxnId < 2 ^ 64
  tsType : event.tsType < 2 ^ 8
  lastCommitted : event.lastCommitted < 2 ^ 64
  sequenceNumber : event.sequenceNumber < 2 ^ 64

theorem deserialize_content {event : GtidLogEvent} (hfits : event.Fits) {front : Bytes}
    (hfront : front.length = commonHeaderLength) (rest : Bytes) :
    deserialize (front ++ (event.content ++ rest)) = event := by
  obtain ⟨hflag, huuid, hid, htype, hcommitted, hsequence⟩ := hfits
  simp only [commonHeaderLength] at hfront
  cases event
  simp only [deserialize, content, slice] at *
  simpa [drop_append, drop_of_length_le, loadLE_storeLE, hfront, huuid,
    serverUuidLen] using And.intro hflag (And.intro hid (And.intro hcommitted
      (And.intro hsequence htype)))

end GtidLogEvent

namespace QueryEvent

/-- The string that a `const char*` to the bytes is read as. -/
def cString (bytes : Bytes) : Bytes :=
  bytes.takeWhile (· ≠ 0)

def deserialize (checksum : Checksum) (buff : Bytes) : QueryEvent :=
  let dbLen := loadLE (slice buff 27 1)
  let statusVarLen := loadLE (slice buff 30 2)
  let pos := 32 + statusVarLen + dbLen + 1
  let eventLength := (OblogEventHeader.deserialize buff).eventLength
  { threadId := loadLE (slice buff 19 4)
    queryExecTime := loadLE (slice buff 23 4)
    errorCode := loadLE (slice buff 28 2)
    statusVars := cString (slice buff 32 statusVarLen)
    dbname := cString (slice buff (32 + statusVarLen) (dbLen + 1))
    sqlStatment := slice buff pos (eventLength - checksum.len - pos)
    isDdl := false }

/-- The database name and the status variables fit their length fields. -/
structure Fits (event : QueryEvent) : Prop where
  dbname : event.dbname.length < 2 ^ 8
  statusVars : event.statusVars.length < 2 ^ 16

/-- `BEGIN_VAR`, the text `BEGIN`. -/
def beginVar : Bytes := [66, 69, 71, 73, 78]

/-- `strcmp` with `BEGIN`. -/
def isBegin (sqlStatment : Bytes) : Bool :=
  cString sqlStatment = beginVar

theorem deserialize_sqlStatment (checksum : Checksum) {event : QueryEvent} (hfits : event.Fits)
    {front : Bytes} (hfront : front.length = commonHeaderLength) (rest : Bytes)
    (hlength : (OblogEventHeader.deserialize (front ++ (event.content ++ rest))).eventLength =
      commonHeaderLength + event.content.length + checksum.len) :
    (deserialize checksum (front ++ (event.content ++ rest))).sqlStatment = event.sqlStatment := by
  simp only [commonHeaderLength] at hfront hlength
  have hdbLen : loadLE (slice (front ++ (event.content ++ rest)) 27 1) = event.dbname.length := by
    simpa [slice, content, drop_append, drop_of_length_le, loadLE_storeLE, hfront]
      using hfits.dbname
  have hstatusVarLen : loadLE (slice (front ++ (event.content ++ rest)) 30 2) =
      event.statusVars.length := by
    simpa [slice, content, drop_append, drop_of_length_le, loadLE_storeLE, hfront]
      using hfits.statusVars
  have hcontent : event.content.length =
      13 + event.statusVars.length + event.dbname.length + 1 + event.sqlStatment.length := by
    simp only [content, length_append, length_storeLE, length_cons, length_nil]
  simp only [deserialize, hdbLen, hstatusVarLen, hlength]
  have hsqlLen : 19 + event.content.length + checksum.len - checksum.len -
      (32 + event.statusVars.length + event.dbname.length + 1) = event.sqlStatment.length := by
    omega
  have hdrop : (front ++ (event.content ++ rest)).drop
      (32 + event.statusVars.length + event.dbname.length + 1) = event.sqlStatment ++ rest := by
    rw [content, append_assoc _ event.sqlStatment, ← append_assoc front]
    apply drop_left'
    simp only [length_append, length_storeLE, length_cons, length_nil, hfront]
    omega
  rw [hsqlLen, slice_of_drop hdrop]

end QueryEvent

/-- The parts of an event that are read back fit their fields. -/
def EventBody.Fits : EventBody → Prop
  | gtid event => event.Fits
  | query event => event.Fits
  | _ => True

variable {event : ObLogEvent}

theorem ObLogEvent.deserialize_gtid (checksum : Checksum) {gtid : GtidLogEvent}
    (hbody : event.body = .gtid gtid) (hfits : gtid.Fits) :
    GtidLogEvent.deserialize (event.flushToBuff checksum) = gtid := by
  simp only [flushToBuff, hbody, EventBody.content]
  exact GtidLogEvent.deserialize_content hfits (OblogEventHeader.length_flushToBuff _) _

theorem ObLogEvent.deserialize_sqlStatment (checksum : Checksum) {query : QueryEvent}
    (hbody : event.body = .query query) (hfits : query.Fits)
    (hlength : event.eventLength checksum < 2 ^ 32) :
    (QueryEvent.deserialize checksum (event.flushToBuff checksum)).sqlStatment =
      query.sqlStatment := by
  simp only [flushToBuff, hbody, EventBody.content]
  apply QueryEvent.deserialize_sqlStatment checksum hfits
  · simp
  · rw [deserialize_header]
    simp only [Nat.mod_eq_of_lt hlength]
    rw [eventLength, hbody, EventBody.content]

inductive EventKind where
  | heartbeat
  | gtid
  | start
  | ddl
  | otherQuery
  | rows
  | xid
  | rotate
  | formatDescription
  | previousGtids
deriving DecidableEq

/-- A query event opens a transaction with rows or is a statement marked as
DDL, other than `BEGIN`. -/
def QueryEvent.kind (query : QueryEvent) : EventKind :=
  match query.isDdl, QueryEvent.isBegin query.sqlStatment with
  | false, true => .start
  | true, false => .ddl
  | _, _ => .otherQuery

def ObLogEvent.kind (event : ObLogEvent) : EventKind :=
  match event.body with
  | .heartbeat _ => .heartbeat
  | .gtid _ => .gtid
  | .query query => query.kind
  | .xid _ => .xid
  | .rows _ _ => .rows
  | .rotate _ => .rotate
  | .formatDescription _ => .formatDescription
  | .previousGtids _ => .previousGtids

theorem QueryEvent.kind_cases (query : QueryEvent) :
    query.kind = .start ∨ query.kind = .ddl ∨ query.kind = .otherQuery := by
  rw [kind]
  cases query.isDdl <;> cases QueryEvent.isBegin query.sqlStatment <;> simp

variable {event : ObLogEvent}

namespace ObLogEvent

theorem kind_eq_heartbeat : event.kind = .heartbeat ↔ ∃ name, event.body = .heartbeat name := by
  rw [kind]
  cases event.body with
  | query query => rcases query.kind_cases with h | h | h <;> simp [h]
  | _ => simp

theorem kind_eq_gtid : event.kind = .gtid ↔ ∃ gtid, event.body = .gtid gtid := by
  rw [kind]
  cases event.body with
  | query query => rcases query.kind_cases with h | h | h <;> simp [h]
  | _ => simp

theorem kind_eq_xid : event.kind = .xid ↔ ∃ xid, event.body = .xid xid := by
  rw [kind]
  cases event.body with
  | query query => rcases query.kind_cases with h | h | h <;> simp [h]
  | _ => simp

end ObLogEvent

inductive IsTransaction : List ObLogEvent → Prop
  | dml {gtid start commit : ObLogEvent} {rows : List ObLogEvent} (hgtid : gtid.kind = .gtid)
      (hstart : start.kind = .start) (hrows : ∀ row ∈ rows, row.kind = .rows)
      (hcommit : commit.kind = .xid) : IsTransaction (gtid :: start :: (rows ++ [commit]))
  | ddl {gtid statement : ObLogEvent} (hgtid : gtid.kind = .gtid)
      (hstatement : statement.kind = .ddl) : IsTransaction [gtid, statement]

structure Transaction where
  events : List ObLogEvent
  shape : IsTransaction events

namespace Transaction

/-- The OceanBase transaction, which the gtid event names. -/
def obTxn (transaction : Transaction) : Gtid.Text :=
  (transaction.events.head?.map ObLogEvent.obTxn).getD []

def number (transaction : Transaction) : ℕ :=
  match transaction.events.head?.map ObLogEvent.body with
  | some (.gtid gtid) => gtid.gtidTxnId
  | _ => 0

section Events

variable (transaction : Transaction)

/-- A transaction is a gtid event and a body without gtid or heartbeat events,
which ends a transaction with rows by its only commit. -/
theorem exists_gtid :
    ∃ gtid body, transaction.events = gtid :: body ∧ gtid.kind = .gtid ∧
      gtid.obTxn = transaction.obTxn ∧
      ((∃ front commit, body = front ++ [commit] ∧ commit.kind = .xid ∧
          ∀ event ∈ front, event.kind = .start ∨ event.kind = .rows) ∨
        ∃ statement, body = [statement] ∧ statement.kind = .ddl) := by
  obtain ⟨events, hshape⟩ := transaction
  cases hshape with
  | @dml gtid start commit rows hgtid hstart hrows hcommit =>
    refine ⟨gtid, start :: (rows ++ [commit]), rfl, hgtid, rfl, Or.inl ?_⟩
    refine ⟨start :: rows, commit, rfl, hcommit, ?_⟩
    intro event hevent
    rcases mem_cons.mp hevent with rfl | hrow
    · exact Or.inl hstart
    · exact Or.inr (hrows event hrow)
  | @ddl gtid statement hgtid hstatement =>
    exact ⟨gtid, [statement], rfl, hgtid, rfl, Or.inr ⟨statement, rfl, hstatement⟩⟩

theorem exists_last :
    ∃ event gtid middle last, transaction.events = event :: (middle ++ [last]) ∧
      event.body = .gtid gtid ∧ transaction.number = gtid.gtidTxnId ∧
      (∀ event ∈ middle, event.kind = .start ∨ event.kind = .rows) ∧
      (last.kind = .xid ∨ last.kind = .ddl) := by
  obtain ⟨event, body, hevents, hkind, -, hshape⟩ := transaction.exists_gtid
  obtain ⟨gtid, hgtid⟩ := ObLogEvent.kind_eq_gtid.mp hkind
  have hnumber : transaction.number = gtid.gtidTxnId := by
    simp [number, hevents, hgtid]
  rcases hshape with ⟨front, commit, rfl, hcommit, hfront⟩ | ⟨statement, rfl, hstatement⟩
  · exact ⟨event, gtid, front, commit, hevents, hgtid, hnumber, hfront, Or.inl hcommit⟩
  · exact ⟨event, gtid, [], statement, hevents, hgtid, hnumber, by simp, Or.inr hstatement⟩

theorem kind_ne_control (hevent : event ∈ transaction.events) :
    event.kind ≠ .rotate ∧ event.kind ≠ .formatDescription ∧ event.kind ≠ .previousGtids := by
  obtain ⟨first, gtid, middle, last, hevents, hgtid, -, hmiddle, hlast⟩ := transaction.exists_last
  rw [hevents, mem_cons, mem_append, mem_singleton] at hevent
  rcases hevent with rfl | hevent | rfl
  · simp [ObLogEvent.kind, hgtid]
  · rcases hmiddle event hevent with hkind | hkind <;> simp [hkind]
  · rcases hlast with hkind | hkind <;> simp [hkind]

/-- The body of a transaction has neither gtid events nor heartbeats, and no
rotate event. -/
theorem exists_body :
    ∃ gtid body, transaction.events = gtid :: body ∧ gtid.kind = .gtid ∧
      gtid.obTxn = transaction.obTxn ∧
      ∀ event ∈ body, event.kind ≠ .gtid ∧ event.kind ≠ .heartbeat ∧ event.kind ≠ .rotate := by
  obtain ⟨gtid, body, hevents, hgtid, hown, hshape⟩ := transaction.exists_gtid
  refine ⟨gtid, body, hevents, hgtid, hown, ?_⟩
  rcases hshape with ⟨front, commit, rfl, hcommit, hfront⟩ | ⟨statement, rfl, hstatement⟩
  · intro event hevent
    rw [mem_append, mem_singleton] at hevent
    rcases hevent with hevent | rfl
    · rcases hfront event hevent with hkind | hkind <;> simp [hkind]
    · simp [hcommit]
  · simp [hstatement]

end Events

theorem obTxn_of_gtid {transaction : Transaction} (hevent : event ∈ transaction.events)
    (hkind : event.kind = .gtid) : event.obTxn = transaction.obTxn := by
  obtain ⟨gtid, body, hevents, -, hown, hbody⟩ := transaction.exists_body
  rw [hevents] at hevent
  rcases mem_cons.mp hevent with rfl | hmem
  · exact hown
  · exact absurd hkind (hbody event hmem).1

theorem kind_ne_heartbeat (transaction : Transaction) (hevent : event ∈ transaction.events) :
    event.kind ≠ .heartbeat := by
  obtain ⟨gtid, body, hevents, hgtid, -, hbody⟩ := transaction.exists_body
  rw [hevents] at hevent
  rcases mem_cons.mp hevent with rfl | hmem
  · simp [hgtid]
  · exact (hbody event hmem).2.1

end Transaction

def smallEvent (obTxn : Gtid.Text) (body : EventBody) : ObLogEvent :=
  { timestamp := 0, serverId := 1, obTxn, body }

def smallGtid (obTxn : Gtid.Text) : ObLogEvent :=
  smallEvent obTxn (.gtid ⟨1, replicate 16 0, 0, 0, 0, 2⟩)

def smallDml (obTxn : Gtid.Text) : Transaction :=
  ⟨[smallGtid obTxn, smallEvent [] (.query ⟨0, 0, 0, [], [], QueryEvent.beginVar, false⟩),
    smallEvent [] (.rows .writeRows [7]), smallEvent [] (.xid 0)],
    @IsTransaction.dml _ _ _ [smallEvent [] (.rows .writeRows [7])] rfl rfl (by simp; rfl) rfl⟩

def smallDdl (obTxn : Gtid.Text) : Transaction :=
  ⟨[smallGtid obTxn, smallEvent [] (.query ⟨0, 0, 0, [], [], [68], true⟩)],
    IsTransaction.ddl rfl rfl⟩

section EventBytes

variable (checksum : Checksum)

/-- Events one after the other, as they are flushed. -/
def eventsBytes (events : List ObLogEvent) : Bytes :=
  events.flatMap fun event => event.flushToBuff checksum

@[simp]
theorem eventsBytes_nil : eventsBytes checksum [] = [] :=
  rfl

@[simp]
theorem eventsBytes_cons (event : ObLogEvent) (events : List ObLogEvent) :
    eventsBytes checksum (event :: events) =
      event.flushToBuff checksum ++ eventsBytes checksum events :=
  flatMap_cons

@[simp]
theorem eventsBytes_append (front back : List ObLogEvent) :
    eventsBytes checksum (front ++ back) = eventsBytes checksum front ++ eventsBytes checksum back :=
  flatMap_append

theorem length_eventsBytes (events : List ObLogEvent) :
    (eventsBytes checksum events).length =
      Tail.totalSize (ObLogEvent.eventLength checksum) events := by
  induction events with
  | nil => rfl
  | cons event events ih => simp [ih]

/-- Every event's next position is the offset of its end, when the first event
stands at `pos`. -/
def Placed : ℕ → List ObLogEvent → Prop
  | _, [] => True
  | pos, event :: events =>
    (event.nextPosition = pos + event.eventLength checksum ∧ event.nextPosition < 2 ^ 32) ∧
      Placed (pos + event.eventLength checksum) events

instance decidablePlaced : ∀ (pos : ℕ) (events : List ObLogEvent),
    Decidable (Placed checksum pos events)
  | _, [] => isTrue trivial
  | pos, event :: events =>
    have := decidablePlaced (pos + event.eventLength checksum) events
    inferInstanceAs (Decidable (_ ∧ _))

theorem placed_append (pos : ℕ) (front back : List ObLogEvent) :
    Placed checksum pos (front ++ back) ↔
      Placed checksum pos front ∧
        Placed checksum (pos + Tail.totalSize (ObLogEvent.eventLength checksum) front) back := by
  induction front generalizing pos with
  | nil => simp [Placed]
  | cons event front ih => simp [Placed, ih, and_assoc, Nat.add_assoc]

end EventBytes

structure BinlogFile where
  formatDescription : ObLogEvent
  previousGtids : ObLogEvent
  transactions : List Transaction
  rotate : Option ObLogEvent
  formatDescription_kind : formatDescription.kind = .formatDescription
  previousGtids_kind : previousGtids.kind = .previousGtids
  rotate_kind : ∀ event ∈ rotate, event.kind = .rotate

namespace BinlogFile

def tailEvents (file : BinlogFile) : List ObLogEvent :=
  file.previousGtids :: (file.transactions.flatMap Transaction.events ++ file.rotate.toList)

def events (file : BinlogFile) : List ObLogEvent :=
  file.formatDescription :: file.tailEvents

def bytes (checksum : Checksum) (file : BinlogFile) : Bytes :=
  binlogMagic ++ eventsBytes checksum file.events

end BinlogFile

def gtidLength (message : GtidMessage) : ℕ :=
  serverUuidLen + 8 + message.txnRange.length * 16

def messageKey (message : GtidMessage) : Text :=
  message.getGtidUuidStr.getD []

def setGtidMessages (messages : List GtidMessage) : GtidMap :=
  messages.foldl (fun map message => map.emplace (messageKey message) message) empty

/-- The messages of a server have uuids, of sixteen bytes, and differ in them. -/
structure DistinctUuids (messages : List GtidMessage) : Prop where
  uuid : ∀ message ∈ messages, ∃ uuid, message.gtidUuid = some uuid ∧ uuid.length = serverUuidLen
  distinct : (messages.map GtidMessage.gtidUuid).Nodup

def newFormatDescriptionEvent (checksum : Checksum) (serverId timestamp : ℕ) : ObLogEvent :=
  let event : ObLogEvent := { timestamp, serverId, body := .formatDescription timestamp }
  { event with nextPosition := binlogMagicSize + event.eventLength checksum }

/-- `PreviousGtidsLogEvent(gtid_messages.size(), gtid_messages, timestamp)`, behind
the format description event. -/
def newPreviousGtidsLogEvent (checksum : Checksum) (serverId timestamp : ℕ)
    (messages : List GtidMessage) : ObLogEvent :=
  let event : ObLogEvent :=
    { timestamp, serverId,
      body := .previousGtids ((setGtidMessages messages).entries.map Prod.snd) }
  { event with
    nextPosition := ((newFormatDescriptionEvent checksum serverId timestamp).nextPosition +
      event.eventLength checksum) % 2 ^ 32 }

/-- What `init_binlog_file` and `init_next_binlog_file` write to a new file. -/
def headerBytes (checksum : Checksum) (serverId timestamp : ℕ) (messages : List GtidMessage) :
    Bytes :=
  binlogMagic ++ eventsBytes checksum [newFormatDescriptionEvent checksum serverId timestamp,
    newPreviousGtidsLogEvent checksum serverId timestamp messages]

/-- The flags of a format description event are the only difference between the
event of a file in use and that of a closed file: both have the same checksum. -/
theorem exists_flags_split (checksum : Checksum) {timestamp : ℕ}
    (hbody : event.body = .formatDescription timestamp) :
    ∃ front back, front.length = flagsOffset ∧
      ({ event with flags := 1 }.flushToBuff checksum = front ++ (storeLE flagsLen 1 ++ back)) ∧
      ({ event with flags := 0 }.flushToBuff checksum = front ++ (storeLE flagsLen 0 ++ back)) := by
  obtain ⟨timestamp, serverId, nextPosition, flags, obTxn, checkpoint, filter, body⟩ := event
  obtain rfl := hbody
  refine ⟨_, _, ?_, append_assoc _ _ _, append_assoc _ _ _⟩
  simp [flagsOffset]

variable {messages : List GtidMessage}

theorem entries_setGtidMessages (hdistinct : DistinctUuids messages) :
    (setGtidMessages messages).entries.Perm
      (messages.map fun message => (messageKey message, message)) := by
  have hkeys : (messages.map messageKey).Nodup := by
    have hmessages := List.Nodup.of_map _ hdistinct.distinct
    have huuids := (nodup_map_iff_inj_on hmessages).mp hdistinct.distinct
    rw [nodup_map_iff_inj_on hmessages]
    intro left hleft right hright heq
    apply huuids left hleft right hright
    obtain ⟨leftUuid, hleftUuid, hleftLength⟩ := hdistinct.uuid left hleft
    obtain ⟨rightUuid, hrightUuid, hrightLength⟩ := hdistinct.uuid right hright
    rw [messageKey, messageKey, GtidMessage.getGtidUuidStr, GtidMessage.getGtidUuidStr,
      hleftUuid, hrightUuid, Option.map_some, Option.map_some, Option.getD_some,
      Option.getD_some, take_of_length_le hleftLength.le,
      take_of_length_le hrightLength.le] at heq
    rw [hleftUuid, hrightUuid, dumphex_injective heq]
  simpa [setGtidMessages, empty] using
    foldl_emplace_perm messageKey empty hkeys (by simp [empty])

theorem perm_setGtidMessages (hdistinct : DistinctUuids messages) :
    ((setGtidMessages messages).entries.map Prod.snd).Perm messages := by
  simpa [Function.comp_def] using (entries_setGtidMessages hdistinct).map Prod.snd

theorem length_previousGtidsContent
    (huuids : ∀ message ∈ messages, ∃ uuid, message.gtidUuid = some uuid ∧
      uuid.length = serverUuidLen) :
    (previousGtidsContent messages).length = 8 + (messages.map gtidLength).sum := by
  rw [previousGtidsContent, length_append, length_storeLE, length_flatMap]
  congr 2
  apply map_congr_left
  intro message hmessage
  obtain ⟨uuid, huuid, hlength⟩ := huuids message hmessage
  simp [gtidMessageContent, gtidLength, huuid, hlength, length_flatMap]
  omega

section Created

variable (checksum : Checksum) (serverId timestamp : ℕ)

@[simp]
theorem eventLength_newFormatDescriptionEvent :
    (newFormatDescriptionEvent checksum serverId timestamp).eventLength checksum =
      116 + checksum.len := by
  simp [newFormatDescriptionEvent, ObLogEvent.eventLength, EventBody.content,
    formatDescriptionContent, serverVersion, eventTypeHeaderLen, commonHeaderLength]

theorem eventLength_newPreviousGtidsLogEvent (hdistinct : DistinctUuids messages) :
    (newPreviousGtidsLogEvent checksum serverId timestamp messages).eventLength checksum =
      27 + checksum.len + (messages.map gtidLength).sum := by
  have hperm := perm_setGtidMessages hdistinct
  have hcontent := length_previousGtidsContent fun message hmessage =>
    hdistinct.uuid message (hperm.mem_iff.mp hmessage)
  rw [(hperm.map gtidLength).sum_eq] at hcontent
  simp only [newPreviousGtidsLogEvent, ObLogEvent.eventLength, EventBody.content, hcontent,
    commonHeaderLength]
  omega

theorem length_headerBytes (hdistinct : DistinctUuids messages) :
    (headerBytes checksum serverId timestamp messages).length =
      147 + 2 * checksum.len + (messages.map gtidLength).sum := by
  rw [headerBytes, length_append, length_eventsBytes, Tail.totalSize_cons,
    Tail.totalSize_cons, eventLength_newFormatDescriptionEvent,
    eventLength_newPreviousGtidsLogEvent checksum serverId timestamp hdistinct]
  simp only [binlogMagic, length_cons, length_nil, Tail.totalSize_nil]
  omega

end Created

end OblogProxy.Event
