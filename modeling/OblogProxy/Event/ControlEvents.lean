import OblogProxy.Event.LogEvent

/-!
# The control events

The events that are read back by the recovery and the dumper: format
description, previous-gtids, rotate, gtid and xid.  Each is flushed and
deserialized with all its fields, and what is read back is what was written.
-/

namespace OblogProxy.Event

open Bytes Gtid List Option

def stServerVerLen : ℕ := 50

/-- `LOG_EVENT_TYPES`, which is `ENUM_END_EVENT - 1`. -/
def logEventTypes : ℕ := 39

/-- The checksum flag of a new event: `OFF` or `CRC32`. -/
def Checksum.flag (checksum : Checksum) : ℕ :=
  if checksum.enabled then 1 else 0

structure FormatDescriptionEvent where
  version : ℕ
  serverVersion : Bytes
  timestamp : ℕ
  headerLen : ℕ
  eventTypeHeaderLen : Bytes
deriving DecidableEq

structure PreviousGtidsLogEvent where
  gtidUuidNum : ℕ
  gtidMessages : GtidMap
deriving DecidableEq

inductive ControlBody where
  | formatDescription (event : FormatDescriptionEvent)
  | previousGtids (event : PreviousGtidsLogEvent)
  | rotate (nextBinlogPosition : ℕ) (nextBinlogFileName : Bytes)
  | gtid (event : GtidLogEvent)
  | xid (xid : ℕ)
deriving DecidableEq

structure ControlEvent where
  header : OblogEventHeader
  checksumFlag : ℕ
  body : ControlBody
deriving DecidableEq

/-- `strncpy` of a string of at most `width - 1` bytes into a zeroed field. -/
def zeroPadded (width : ℕ) (text : Bytes) : Bytes :=
  let copied := text.take (width - 1)
  copied ++ replicate (width - copied.length) 0

def FormatDescriptionEvent.content (event : FormatDescriptionEvent) (checksumFlag : ℕ) : Bytes :=
  storeLE 2 event.version ++ zeroPadded stServerVerLen event.serverVersion ++
    storeLE 4 event.timestamp ++ storeLE 1 event.headerLen ++ event.eventTypeHeaderLen ++
    storeLE 1 checksumFlag

def PreviousGtidsLogEvent.content (event : PreviousGtidsLogEvent) : Bytes :=
  storeLE 8 event.gtidUuidNum ++
    (event.gtidMessages.entries.map Prod.snd).flatMap gtidMessageContent

namespace ControlBody

def typeCode : ControlBody → EventType
  | formatDescription _ => .formatDescriptionEvent
  | previousGtids _ => .previousGtidsLogEvent
  | rotate _ _ => .rotateEvent
  | gtid _ => .gtidLogEvent
  | xid _ => .xidEvent

def content (checksumFlag : ℕ) : ControlBody → Bytes
  | formatDescription event => event.content checksumFlag
  | previousGtids event => event.content
  | rotate nextBinlogPosition nextBinlogFileName =>
    storeLE 8 nextBinlogPosition ++ nextBinlogFileName
  | gtid event => event.content
  | xid value => storeLE 8 value

end ControlBody

open ControlBody

namespace ControlEvent

def writeChecksum (crc32 : Bytes → UInt32) (checksumFlag : ℕ) (buff : Bytes) : Bytes :=
  if checksumFlag = 1 then storeLE 4 (crc32 buff).toNat else []

/-- A format description event is signed as if its file were closed. -/
def signedFlags (event : ControlEvent) : ℕ :=
  match event.body with
  | .formatDescription _ => if event.header.flags % 2 = 1 then 0 else event.header.flags
  | _ => event.header.flags

def flushToBuff (crc32 : Bytes → UInt32) (event : ControlEvent) : Bytes :=
  let content := event.body.content event.checksumFlag
  event.header.flushToBuff ++ (content ++ writeChecksum crc32 event.checksumFlag
    ({ event.header with flags := event.signedFlags }.flushToBuff ++ content))

end ControlEvent

def FormatDescriptionEvent.deserialize (buff : Bytes) : FormatDescriptionEvent :=
  { version := loadLE (slice buff 19 2)
    serverVersion := QueryEvent.cString (slice buff 21 stServerVerLen)
    timestamp := loadLE (slice buff 71 4)
    headerLen := loadLE (slice buff 75 1)
    eventTypeHeaderLen := slice buff 76 logEventTypes }

/-- The intervals of one uuid from `pos` on, with the position behind them. -/
def readTxnRanges (buff : Bytes) : ℕ → ℕ → List TxnRange × ℕ
  | 0, pos => ([], pos)
  | count + 1, pos =>
    let txnStart := loadLE (slice buff pos 8)
    let txnEnd := loadLE (slice buff (pos + 8) 8)
    let second := if txnStart ≠ txnEnd then (txnEnd + 2 ^ 64 - 1) % 2 ^ 64 else txnEnd
    let rest := readTxnRanges buff count (pos + 16)
    ((txnStart, second) :: rest.1, rest.2)

def readGtidMessages (buff : Bytes) : ℕ → ℕ → List GtidMessage
  | 0, _ => []
  | count + 1, pos =>
    let intervals := loadLE (slice buff (pos + serverUuidLen) 8)
    let ranges := readTxnRanges buff intervals (pos + serverUuidLen + 8)
    { gtidUuid := some (slice buff pos serverUuidLen)
      gtidTxnIdIntervals := intervals
      txnRange := ranges.1 } :: readGtidMessages buff count ranges.2

def PreviousGtidsLogEvent.deserialize (buff : Bytes) : PreviousGtidsLogEvent :=
  let gtidUuidNum := loadLE (slice buff 19 8)
  { gtidUuidNum
    gtidMessages := setGtidMessages (readGtidMessages buff gtidUuidNum 27) }

/-- `deserialize` of the class that the type code stands for, on an event that was
created with the checksum option.  `none` is a failed assertion, a file name
whose length would be negative, or the type of another event. -/
def ControlEvent.deserialize (checksum : Checksum) (buff : Bytes) : Option ControlEvent :=
  let header := OblogEventHeader.deserialize buff
  match header.typeCode with
  | .formatDescriptionEvent =>
    if 76 + logEventTypes ≤ header.eventLength then
      some { header
             checksumFlag := loadLE (slice buff (76 + logEventTypes) 1)
             body := .formatDescription (FormatDescriptionEvent.deserialize buff) }
    else none
  | .previousGtidsLogEvent =>
    some { header
           checksumFlag := checksum.flag
           body := .previousGtids (PreviousGtidsLogEvent.deserialize buff) }
  | .rotateEvent =>
    if 27 + checksum.len ≤ header.eventLength then
      some { header
             checksumFlag := checksum.flag
             body := .rotate (loadLE (slice buff 19 8))
               (slice buff 27 (header.eventLength - checksum.len - 27)) }
    else none
  | .gtidLogEvent =>
    some { header
           checksumFlag := checksum.flag
           body := .gtid (GtidLogEvent.deserialize buff) }
  | .xidEvent =>
    if 27 + checksum.len = header.eventLength then
      some { header
             checksumFlag := checksum.flag
             body := .xid (loadLE (slice buff 19 8)) }
    else none
  | _ => none

structure OblogEventHeader.InWireRange (header : OblogEventHeader) : Prop where
  timestamp : header.timestamp < 2 ^ 32
  serverId : header.serverId < 2 ^ 32
  eventLength : header.eventLength < 2 ^ 32
  nextPosition : header.nextPosition < 2 ^ 32
  flags : header.flags < 2 ^ 16

structure FormatDescriptionEvent.InWireRange (event : FormatDescriptionEvent) : Prop where
  version : event.version < 2 ^ 16
  serverVersion_length : event.serverVersion.length < stServerVerLen
  serverVersion : ∀ byte ∈ event.serverVersion, byte ≠ 0
  timestamp : event.timestamp < 2 ^ 32
  headerLen : event.headerLen < 2 ^ 8
  eventTypeHeaderLen : event.eventTypeHeaderLen.length = logEventTypes

/-- Closed intervals whose half-open form fits its field, as many as the message says. -/
structure MessageInWireRange (message : GtidMessage) : Prop where
  uuid : ∃ uuid, message.gtidUuid = some uuid ∧ uuid.length = serverUuidLen
  intervals : message.gtidTxnIdIntervals = message.txnRange.length
  intervals_lt : message.gtidTxnIdIntervals < 2 ^ 64
  txnRange : ∀ range ∈ message.txnRange, range.1 ≤ range.2 ∧ range.2 < 2 ^ 64 - 1

/-- The map holds each message under its uuid, so that the uuids are distinct. -/
structure PreviousGtidsLogEvent.InWireRange (event : PreviousGtidsLogEvent) : Prop where
  gtidUuidNum : event.gtidUuidNum = event.gtidMessages.entries.length
  gtidUuidNum_lt : event.gtidUuidNum < 2 ^ 64
  keys : ∀ entry ∈ event.gtidMessages.entries, messageKey entry.2 = entry.1
  messages : ∀ entry ∈ event.gtidMessages.entries, MessageInWireRange entry.2

def ControlBody.InWireRange : ControlBody → Prop
  | formatDescription event => event.InWireRange
  | previousGtids event => event.InWireRange
  | rotate nextBinlogPosition _ => nextBinlogPosition < 2 ^ 64
  | gtid event => event.Fits
  | xid value => value < 2 ^ 64

/-- Whether `deserialize` looks at the length in the header. -/
def ControlBody.readsLength : ControlBody → Bool
  | formatDescription _ => true
  | previousGtids _ => false
  | rotate _ _ => true
  | gtid _ => false
  | xid _ => true

/-- The fields are in their ranges and the header is that of the body: its type
and, where it is read, the length that the constructors compute. -/
structure ControlEvent.InWireRange (checksum : Checksum) (event : ControlEvent) : Prop where
  header : event.header.InWireRange
  typeCode : event.header.typeCode = event.body.typeCode
  checksumFlag : event.checksumFlag = checksum.flag
  body : event.body.InWireRange
  eventLength : event.body.readsLength →
    event.header.eventLength =
      commonHeaderLength + (event.body.content event.checksumFlag).length + checksum.len

theorem OblogEventHeader.deserialize_of_inWireRange {header : OblogEventHeader}
    (hrange : header.InWireRange) (hcode : EventType.ofCode (header.typeCode.code % 2 ^ 8) =
      header.typeCode) (rest : Bytes) :
    OblogEventHeader.deserialize (header.flushToBuff ++ rest) = header := by
  rw [deserialize_flushToBuff, hcode, Nat.mod_eq_of_lt hrange.timestamp,
    Nat.mod_eq_of_lt hrange.serverId, Nat.mod_eq_of_lt hrange.eventLength,
    Nat.mod_eq_of_lt hrange.nextPosition, Nat.mod_eq_of_lt hrange.flags]

@[simp]
theorem length_zeroPadded {width : ℕ} (text : Bytes) (hwidth : 0 < width) :
    (zeroPadded width text).length = width := by
  simp only [zeroPadded, length_append, length_take, length_replicate]
  omega

theorem cString_zeroPadded {width : ℕ} {text : Bytes} (hlength : text.length < width)
    (htext : ∀ byte ∈ text, byte ≠ 0) : QueryEvent.cString (zeroPadded width text) = text := by
  have htake : text.take (width - 1) = text := take_of_length_le (by omega)
  have hzero : 0 < width - text.length := by omega
  rw [QueryEvent.cString, zeroPadded, htake, takeWhile_append_of_pos (by simpa using htext),
    ← Nat.sub_one_add_one hzero.ne', replicate_succ, takeWhile_cons_of_neg (by simp),
    append_nil]

theorem FormatDescriptionEvent.deserialize_content {event : FormatDescriptionEvent}
    (hrange : event.InWireRange) (checksumFlag : ℕ) {front : Bytes}
    (hfront : front.length = commonHeaderLength) (rest : Bytes) :
    FormatDescriptionEvent.deserialize (front ++ (event.content checksumFlag ++ rest)) = event ∧
      (checksumFlag < 2 ^ 8 →
        loadLE (slice (front ++ (event.content checksumFlag ++ rest)) (76 + logEventTypes) 1) =
          checksumFlag) := by
  obtain ⟨hversion, hlength, htext, htimestamp, hheaderLen, htypes⟩ := hrange
  have hserver := cString_zeroPadded hlength htext
  have hpadded := length_zeroPadded event.serverVersion (show 0 < stServerVerLen by decide)
  simp only [commonHeaderLength] at hfront
  simp only [stServerVerLen, logEventTypes] at *
  cases event
  generalize hfield : zeroPadded 50 _ = field at *
  refine ⟨?_, fun hflag => ?_⟩
  · simp only [deserialize, content, slice, stServerVerLen, logEventTypes, hfield] at *
    simpa [drop_append, drop_of_length_le, loadLE_storeLE, hfront, hpadded, htypes,
      hserver] using ⟨hversion, htimestamp, hheaderLen⟩
  · simp only [content, slice, stServerVerLen, hfield]
    simpa [drop_append, drop_of_length_le, loadLE_storeLE, hfront, hpadded, htypes]
      using hflag

/-- The intervals come back closed. -/
theorem readTxnRanges_of_drop {buff rest : Bytes} {ranges : List TxnRange} {pos : ℕ}
    (hranges : ∀ range ∈ ranges, range.1 ≤ range.2 ∧ range.2 < 2 ^ 64 - 1) (hdrop : buff.drop pos =
      (ranges.flatMap fun range => storeLE 8 range.1 ++ storeLE 8 (range.2 + 1)) ++ rest) :
    readTxnRanges buff ranges.length pos = (ranges, pos + 16 * ranges.length) := by
  induction ranges generalizing pos with
  | nil => rfl
  | cons range ranges ih =>
    obtain ⟨⟨hle, hlt⟩, hrest⟩ := forall_mem_cons.mp hranges
    rw [flatMap_cons, append_assoc, append_assoc] at hdrop
    have hsecond := drop_add_of_drop hdrop (length_storeLE 8 _)
    have hothers := drop_add_of_drop hsecond (length_storeLE 8 _)
    have hstart : loadLE (slice buff pos 8) = range.1 :=
      loadLE_slice_of_drop hdrop (by omega)
    have hend : loadLE (slice buff (pos + 8) 8) = range.2 + 1 :=
      loadLE_slice_of_drop hsecond (by omega)
    have hclosed : (range.2 + 1 + 2 ^ 64 - 1) % 2 ^ 64 = range.2 := by omega
    rw [length_cons, readTxnRanges, hstart, hend, if_pos (by omega), hclosed, ih hrest hothers]
    exact Prod.ext rfl (by omega)

theorem readGtidMessages_of_drop {buff rest : Bytes} {messages : List GtidMessage} {pos : ℕ}
    (hmessages : ∀ message ∈ messages, MessageInWireRange message)
    (hdrop : buff.drop pos = messages.flatMap gtidMessageContent ++ rest) :
    readGtidMessages buff messages.length pos = messages := by
  induction messages generalizing pos with
  | nil => rfl
  | cons message messages ih =>
    obtain ⟨hmessage, hothers⟩ := forall_mem_cons.mp hmessages
    obtain ⟨uuid, huuid, hlength⟩ := hmessage.uuid
    rw [flatMap_cons, gtidMessageContent, huuid, getD_some, append_assoc,
      append_assoc, append_assoc] at hdrop
    have hcount := drop_add_of_drop hdrop hlength
    have hranges := drop_add_of_drop hcount (length_storeLE 8 _)
    have hrest := drop_add_of_drop hranges rfl
    have hread : slice buff pos serverUuidLen = uuid := hlength ▸ slice_of_drop hdrop
    have hintervals : loadLE (slice buff (pos + serverUuidLen) 8) = message.gtidTxnIdIntervals :=
      loadLE_slice_of_drop hcount (by simpa using hmessage.intervals_lt)
    have hbytes : (message.txnRange.flatMap fun range =>
        storeLE 8 range.1 ++ storeLE 8 (range.2 + 1)).length = 16 * message.txnRange.length := by
      simp [length_flatMap, Nat.mul_comm]
    rw [hbytes] at hrest
    rw [length_cons, readGtidMessages, hread, hintervals]
    rw [hmessage.intervals, readTxnRanges_of_drop hmessage.txnRange hranges, ih hothers hrest,
      ← hmessage.intervals, ← huuid]

theorem PreviousGtidsLogEvent.deserialize_content {event : PreviousGtidsLogEvent}
    (hrange : event.InWireRange) {front : Bytes} (hfront : front.length = commonHeaderLength)
    (rest : Bytes) :
    PreviousGtidsLogEvent.deserialize (front ++ (event.content ++ rest)) = event := by
  have hbody : (front ++ (event.content ++ rest)).drop 19 = event.content ++ rest :=
    drop_left' hfront
  rw [content, append_assoc] at hbody
  have hnum := loadLE_slice_of_drop hbody (by simpa using hrange.gtidUuidNum_lt)
  have hmessages := drop_add_of_drop hbody (length_storeLE 8 _)
  have hread := readGtidMessages_of_drop (fun message hmessage => by
    obtain ⟨entry, hentry, rfl⟩ := mem_map.mp hmessage
    exact hrange.messages entry hentry) hmessages
  rw [length_map, ← hrange.gtidUuidNum] at hread
  have hmap : setGtidMessages (event.gtidMessages.entries.map Prod.snd) = event.gtidMessages :=
    SortedMap.foldl_emplace_entries hrange.keys
  rw [content, append_assoc] at *
  simp only [deserialize, hnum, hread, hmap]

theorem FormatDescriptionEvent.length_content {event : FormatDescriptionEvent}
    (hrange : event.InWireRange) (checksumFlag : ℕ) :
    (event.content checksumFlag).length = 58 + logEventTypes := by
  have hpadded := length_zeroPadded event.serverVersion (show 0 < stServerVerLen by decide)
  simp only [content, length_append, length_storeLE, hpadded, hrange.eventTypeHeaderLen]
  rfl

/-- The fields that `deserialize` takes from behind the header are those of the body. -/
def ControlBody.ReadFrom (buff : Bytes) (checksumFlag : ℕ) : ControlBody → Prop
  | formatDescription event =>
    FormatDescriptionEvent.deserialize buff = event ∧
      loadLE (slice buff (76 + logEventTypes) 1) = checksumFlag
  | previousGtids event => PreviousGtidsLogEvent.deserialize buff = event
  | rotate nextBinlogPosition nextBinlogFileName =>
    loadLE (slice buff 19 8) = nextBinlogPosition ∧
      slice buff 27 nextBinlogFileName.length = nextBinlogFileName
  | gtid event => GtidLogEvent.deserialize buff = event
  | xid value => loadLE (slice buff 19 8) = value

section ReadBack

variable {checksum : Checksum} {event : ControlEvent}

namespace ControlEvent

theorem header_flushToBuff (hrange : event.InWireRange checksum) :
    OblogEventHeader.deserialize (event.flushToBuff checksum.crc32) = event.header := by
  apply OblogEventHeader.deserialize_of_inWireRange hrange.header
  rw [hrange.typeCode]
  cases event.body <;> rfl

theorem drop_flushToBuff (crc32 : Bytes → UInt32) (event : ControlEvent) :
    ∃ rest, (event.flushToBuff crc32).drop 19 =
      event.body.content event.checksumFlag ++ rest :=
  ⟨_, drop_left' (OblogEventHeader.length_flushToBuff _)⟩

theorem readFrom_flushToBuff (hrange : event.InWireRange checksum) :
    event.body.ReadFrom (event.flushToBuff checksum.crc32) event.checksumFlag := by
  have hfront := OblogEventHeader.length_flushToBuff event.header
  have hbody := hrange.body
  have hflag := hrange.checksumFlag
  obtain ⟨rest, hdrop⟩ := drop_flushToBuff checksum.crc32 event
  obtain ⟨header, checksumFlag, body⟩ := event
  cases body with
  | formatDescription description =>
    have hread := fun rest =>
      FormatDescriptionEvent.deserialize_content hbody checksumFlag hfront rest
    have hsmall : checksumFlag < 2 ^ 8 := by
      simp only at hflag
      rw [hflag, Checksum.flag]
      split <;> decide
    exact ⟨(hread _).1, (hread _).2 hsmall⟩
  | previousGtids previous => exact PreviousGtidsLogEvent.deserialize_content hbody hfront _
  | rotate position name =>
    simp only [content, append_assoc] at hdrop
    refine ⟨loadLE_slice_of_drop hdrop hbody, ?_⟩
    exact slice_of_drop (drop_add_of_drop hdrop (length_storeLE 8 _))
  | gtid gtid => exact GtidLogEvent.deserialize_content hbody hfront _
  | xid value => exact loadLE_slice_of_drop hdrop hbody

/-- Every control event is read back as it was, header and payload. -/
theorem controlEvent_readBack (hrange : event.InWireRange checksum) :
    ControlEvent.deserialize checksum (event.flushToBuff checksum.crc32) = some event := by
  have hheader := header_flushToBuff hrange
  have hread := readFrom_flushToBuff hrange
  obtain ⟨-, htype, hflag, hbody, hlength⟩ := hrange
  rw [deserialize, hheader, htype, ← hflag]
  obtain ⟨header, checksumFlag, body⟩ := event
  cases body with
  | formatDescription description =>
    have hlong := hlength rfl
    rw [content, FormatDescriptionEvent.length_content hbody] at hlong
    simp only [commonHeaderLength, logEventTypes] at hlong
    simp only [typeCode, hread.1, hread.2]
    rw [if_pos (by simp only [logEventTypes]; omega)]
  | previousGtids previous =>
    simp only [ControlBody.ReadFrom] at hread
    simp only [typeCode, hread]
  | rotate position name =>
    have hlong := hlength rfl
    simp only [content, length_append, length_storeLE, commonHeaderLength] at hlong
    have hname : header.eventLength - checksum.len - 27 = name.length := by omega
    simp only [typeCode, hname, hread.1, hread.2]
    rw [if_pos (by omega)]
  | gtid gtid =>
    simp only [ControlBody.ReadFrom] at hread
    simp only [typeCode, hread]
  | xid value =>
    have hlong := hlength rfl
    simp only [content, length_storeLE, commonHeaderLength] at hlong
    simp only [ControlBody.ReadFrom] at hread
    simp only [typeCode, hread]
    rw [if_pos (by omega)]

end ControlEvent

end ReadBack

def samplePreviousGtids : ControlEvent :=
  let message : GtidMessage :=
    { gtidUuid := some (replicate 16 1), gtidTxnIdIntervals := 2, txnRange := [(1, 5), (7, 7)] }
  { header :=
      { timestamp := 1, typeCode := .previousGtidsLogEvent, serverId := 1, eventLength := 87,
        nextPosition := 211, flags := 0 }
    checksumFlag := 1
    body := .previousGtids ⟨1, setGtidMessages [message]⟩ }

theorem inWireRange_samplePreviousGtids :
    samplePreviousGtids.InWireRange ⟨true, fun _ => 0⟩ where
  header := ⟨by decide, by decide, by decide, by decide, by decide⟩
  typeCode := rfl
  checksumFlag := rfl
  body :=
    { gtidUuidNum := rfl
      gtidUuidNum_lt := by decide
      keys := by decide
      messages := by
        intro entry hentry
        obtain rfl := mem_singleton.mp hentry
        exact ⟨⟨_, rfl, rfl⟩, rfl, by decide, by decide⟩ }
  eventLength := by decide

theorem ControlEvent.deserialize_samplePreviousGtids :
    samplePreviousGtids.InWireRange ⟨true, fun _ => 0⟩ ∧
      ControlEvent.deserialize ⟨true, fun _ => 0⟩
        (samplePreviousGtids.flushToBuff fun _ => 0) = some samplePreviousGtids :=
  ⟨inWireRange_samplePreviousGtids,
    ControlEvent.controlEvent_readBack inWireRange_samplePreviousGtids⟩

/-- The payload that the constructors of the storage's events give them. -/
def ControlBody.ofEventBody : EventBody → Option ControlBody
  | .gtid event => some (.gtid event)
  | .xid value => some (.xid value)
  | .rotate event => some (.rotate event.nextBinlogPosition (textBytes event.nextBinlogFileName))
  | .formatDescription timestamp =>
    some (.formatDescription
      { version := 4
        serverVersion := [53, 46, 55, 46, 51, 56]
        timestamp
        headerLen := commonHeaderLength
        eventTypeHeaderLen := eventTypeHeaderLen })
  | .previousGtids messages => some (.previousGtids ⟨messages.length, setGtidMessages messages⟩)
  | _ => none

/-- The messages of a previous-gtids event stand in the order of the map. -/
def EventBody.Ordered (body : EventBody) : Prop :=
  ∀ messages, body = .previousGtids messages →
    (setGtidMessages messages).entries.map Prod.snd = messages

theorem ControlBody.content_ofEventBody (checksum : Checksum) {body : EventBody}
    {control : ControlBody} (hcontrol : ofEventBody body = some control) (hordered : body.Ordered) :
    control.typeCode = body.typeCode ∧ control.content checksum.flag = body.content checksum := by
  cases body with
  | gtid event =>
    obtain rfl := some.inj hcontrol
    exact ⟨rfl, rfl⟩
  | xid value =>
    obtain rfl := some.inj hcontrol
    exact ⟨rfl, rfl⟩
  | rotate event =>
    obtain rfl := some.inj hcontrol
    exact ⟨rfl, rfl⟩
  | formatDescription timestamp =>
    obtain rfl := some.inj hcontrol
    exact ⟨rfl, rfl⟩
  | previousGtids messages =>
    obtain rfl := some.inj hcontrol
    refine ⟨rfl, ?_⟩
    rw [content, PreviousGtidsLogEvent.content, hordered messages rfl]
    rfl
  | heartbeat name => simp [ofEventBody] at hcontrol
  | query event => simp [ofEventBody] at hcontrol
  | rows kind content => simp [ofEventBody] at hcontrol

/-- The bytes of the storage's control events are those of the events above. -/
theorem ControlEvent.flushToBuff_ofEventBody (checksum : Checksum) {event : ObLogEvent}
    {control : ControlBody} (hcontrol : ofEventBody event.body = some control)
    (hordered : event.body.Ordered) :
    flushToBuff checksum.crc32 ⟨event.header checksum, checksum.flag, control⟩ =
      event.flushToBuff checksum := by
  obtain ⟨htype, hcontent⟩ := content_ofEventBody checksum hcontrol hordered
  have hwrite : ∀ buff, writeChecksum checksum.crc32 checksum.flag buff = checksum.write buff := by
    cases henabled : checksum.enabled <;>
      simp [writeChecksum, Checksum.write, Checksum.flag, henabled]
  have hflags : signedFlags ⟨event.header checksum, checksum.flag, control⟩ =
      event.signedFlags := by
    rw [signedFlags, ObLogEvent.signedFlags]
    cases hbody : event.body <;> cases control <;>
      simp_all [ofEventBody, ObLogEvent.header]
  rw [flushToBuff, ObLogEvent.flushToBuff, hflags]
  simp only [hcontent, hwrite]

theorem ordered_newPreviousGtidsLogEvent (checksum : Checksum) (serverId timestamp : ℕ)
    {messages : List GtidMessage} (hdistinct : DistinctUuids messages) :
    (newPreviousGtidsLogEvent checksum serverId timestamp messages).body.Ordered := by
  intro ordered hbody
  obtain rfl := EventBody.previousGtids.inj hbody
  have hkeys : ∀ entry ∈ (setGtidMessages messages).entries, messageKey entry.2 = entry.1 := by
    intro entry hentry
    rw [(entries_setGtidMessages hdistinct).mem_iff] at hentry
    obtain ⟨message, -, rfl⟩ := mem_map.mp hentry
    rfl
  rw [setGtidMessages, SortedMap.foldl_emplace_entries hkeys]

end OblogProxy.Event
