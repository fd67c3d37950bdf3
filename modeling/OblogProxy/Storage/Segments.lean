import OblogProxy.Storage.Pipeline

/-!
# A batch is its events

What a batch leaves on disk is what its events leave when they are stored one
after the other.  A batch is cut by its rotations into segments, each with the
rotate event that closes a file, and a rest: the three handlers agree on the
segments although they only exchange positions and two lists.
-/

namespace OblogProxy.Storage

open Bytes Event Gtid List ObLogEvent

section Segments

variable (config : Config)

def positionBehind (storage : BinlogStorage) (event : ObLogEvent) : ℕ :=
  (storage.curPos + event.eventLength config.checksum) % 2 ^ 32

def pendingRotate (storage : BinlogStorage) : PendingRotate :=
  let index := storage.binlogFileIndex + 1
  let name := config.names.fillBinlogFileName index
  ⟨newRotateEvent config name storage.lastRecordTs storage.curPos, index, name,
    mergeGtidBefore config.masterServerUuid storage.previousGtidMessages
      (storage.firstGtidSeq, (storage.txnGtidSeq + (2 ^ 64 - 1)) % 2 ^ 64)⟩

def nextFile (storage : BinlogStorage) : BinlogStorage :=
  let rotate := pendingRotate config storage
  { storage with
    binlogFileIndex := rotate.index
    indexRecord := { storage.indexRecord with
      index := rotate.index, fileName := dataPath rotate.nextBinlogFileName }
    previousGtidMessages := rotate.nextPreviousGtids
    curPos := startPos config rotate.nextPreviousGtids
    firstGtidSeq := 0 }

/-- The body of an event with the numbers that the storage gives. -/
def numbered (number xid : ℕ) : EventBody → EventBody
  | .gtid gtid => .gtid { gtid with gtidTxnId := number }
  | .xid _ => .xid xid
  | body => body

def mayRotate (event : ObLogEvent) : Bool :=
  match event.body with
  | .xid _ => true
  | .query query => query.isDdl
  | _ => false

variable {config} {storage admitted : BinlogStorage} {event stamped : ObLogEvent}

/-- What the `switch` can do with an event: drop it, accept a gtid event, or keep
an event of a transaction, which may be followed by a rotation. -/
theorem admitEvent_cases (config : Config) (storage : BinlogStorage) (event : ObLogEvent) :
    ((event.kind = .heartbeat ∨ storage.filterUtilCheckpointTrx = true) ∧
      ∃ seq meet filterUtil xid, admitEvent config storage event =
        ({ storage with
            txnGtidSeq := seq, meetInitialTrx := meet, filterUtilCheckpointTrx := filterUtil },
          { event with body := numbered storage.txnGtidSeq xid event.body }, none)) ∨
    (∃ gtid meet filterUtil, event.body = .gtid gtid ∧
      (storage.filterUtilCheckpointTrx = false → filterUtil = false) ∧
      admitEvent config storage event =
        (acceptGtid { storage with meetInitialTrx := meet, filterUtilCheckpointTrx := filterUtil }
            event storage.txnGtidSeq,
          { event with body := numbered storage.txnGtidSeq storage.xid event.body }, some false)) ∨
    (event.kind ≠ .gtid ∧ storage.filterUtilCheckpointTrx = false ∧
      ∃ xid, admitEvent config storage event =
        ({ storage with xid := xid },
          { event with body := numbered storage.txnGtidSeq xid event.body },
          some (mayRotate event && exceedsMaxBinlogSize config storage event))) := by
  obtain ⟨timestamp, serverId, nextPosition, flags, obTxn, checkpoint, filter, body⟩ := event
  cases body with
  | heartbeat name => exact Or.inl ⟨Or.inl rfl, _, _, _, 0, rfl⟩
  | gtid gtid =>
    simp only [admitEvent]
    split_ifs with hfilter
    · exact Or.inl ⟨Or.inr hfilter, _, _, _, 0, rfl⟩
    · exact Or.inl ⟨Or.inr hfilter, _, _, _, 0, rfl⟩
    all_goals exact Or.inr (Or.inl ⟨gtid, _, _, rfl, by simp, rfl⟩)
  | xid xid =>
    simp only [admitEvent]
    split_ifs with hfilter
    · exact Or.inl ⟨Or.inr hfilter, _, _, _, xid, rfl⟩
    · exact Or.inl ⟨Or.inr hfilter, _, _, _, xid, rfl⟩
    · exact Or.inr (Or.inr ⟨by simp [kind], by simpa using hfilter, _, rfl⟩)
  | query query =>
    simp only [admitEvent]
    split_ifs with hfilter
    · exact Or.inl ⟨Or.inr hfilter, _, _, _, 0, rfl⟩
    · refine Or.inr (Or.inr ⟨?_, by simpa using hfilter, _, rfl⟩)
      rcases query.kind_cases with hkind | hkind | hkind <;> simp [kind, hkind]
  | _ =>
    simp only [admitEvent]
    split_ifs with hfilter
    · exact Or.inl ⟨Or.inr hfilter, _, _, _, 0, rfl⟩
    · exact Or.inr (Or.inr ⟨by simp [kind], by simpa using hfilter, _, rfl⟩)

@[simp]
theorem length_content_numbered (checksum : Checksum) (number xid : ℕ) (body : EventBody) :
    ((numbered number xid body).content checksum).length = (body.content checksum).length := by
  cases body with
  | gtid gtid => simp [numbered, EventBody.content, GtidLogEvent.content]
  | xid value => simp [numbered, EventBody.content]
  | _ => rfl

/-- What holds of an admitted event whatever its fate. -/
theorem admitEvent_same (config : Config) (storage : BinlogStorage) (event : ObLogEvent) :
    (admitEvent config storage event).1.curPos = storage.curPos ∧
      (admitEvent config storage event).2.1.eventLength config.checksum =
        event.eventLength config.checksum ∧
      (admitEvent config storage event).2.1.filter = event.filter := by
  rcases admitEvent_cases config storage event with
    ⟨-, _, _, _, _, hentry⟩ | ⟨_, _, _, -, -, hentry⟩ | ⟨-, -, _, hentry⟩
  all_goals
    rw [hentry]
    simp [eventLength, acceptGtid]

theorem admitEvent_dropped (hentry : admitEvent config storage event = (admitted, stamped, none)) :
    admitted.indexRecord = storage.indexRecord := by
  rcases admitEvent_cases config storage event with
    ⟨-, _, _, _, _, hcase⟩ | ⟨_, _, _, -, -, hcase⟩ | ⟨-, -, _, hcase⟩
  all_goals
    rw [hcase] at hentry
    cases hentry
  rfl

theorem admitEvent_rotates
    (hentry : admitEvent config storage event = (admitted, stamped, some true)) :
    config.maxBinlogSize < positionBehind config admitted stamped := by
  obtain ⟨hpos, hlength, -⟩ := admitEvent_same config storage event
  rw [hentry] at hpos hlength
  dsimp only at hpos hlength
  have hexceeds : exceedsMaxBinlogSize config storage event = true := by
    rcases admitEvent_cases config storage event with
      ⟨-, _, _, _, _, hcase⟩ | ⟨_, _, _, -, -, hcase⟩ | ⟨-, -, _, hcase⟩
    · simp [hcase] at hentry
    · simp [hcase] at hentry
    · rw [hcase] at hentry
      simp only [Prod.mk.injEq, Option.some.injEq, Bool.and_eq_true] at hentry
      exact hentry.2.2.2
  simpa only [exceedsMaxBinlogSize, decide_eq_true_eq, positionBehind, hpos, hlength] using hexceeds

/-- The storage and the event behind the placement of an event. -/
def placed (config : Config) (storage : BinlogStorage) (event : ObLogEvent) : BinlogStorage :=
  { storage with curPos := positionBehind config storage event }

def placedEvent (config : Config) (storage : BinlogStorage) (event : ObLogEvent) : ObLogEvent :=
  { event with nextPosition := positionBehind config storage event, filter := false }

theorem allocateEvent_dropped (batch : SerializeEvent)
    (hentry : admitEvent config storage event = (admitted, stamped, none)) :
    allocateEvent config storage batch event = (admitted, batch, stamped) := by
  rw [allocateEvent, hentry]

theorem allocateEvent_kept (batch : SerializeEvent)
    (hentry : admitEvent config storage event = (admitted, stamped, some false)) :
    allocateEvent config storage batch event =
      (placed config admitted stamped, batch.updateIndexRecord admitted.indexRecord,
        placedEvent config admitted stamped) := by
  rw [allocateEvent, hentry]
  rfl

theorem allocateEvent_rotated (batch : SerializeEvent)
    (hentry : admitEvent config storage event = (admitted, stamped, some true)) :
    allocateEvent config storage batch event =
      (nextFile config (placed config admitted stamped),
        { batch.updateIndexRecord admitted.indexRecord with
          isRotation := true
          rotateEvents := (batch.updateIndexRecord admitted.indexRecord).rotateEvents ++
            [pendingRotate config (placed config admitted stamped)]
          indexPos := (batch.updateIndexRecord admitted.indexRecord).indexPos + 1 },
        placedEvent config admitted stamped) := by
  have hexceeds : config.maxBinlogSize < (placed config admitted stamped).curPos :=
    admitEvent_rotates hentry
  rw [allocateEvent, hentry]
  change (let rotated := rotateBinlogFile config (placed config admitted stamped) _
    (rotated.1, { rotated.2 with indexPos := rotated.2.indexPos + 1 },
      placedEvent config admitted stamped)) = _
  rw [rotateBinlogFile, if_pos hexceeds]
  rfl

/-- The events of a batch that go to one file and close it. -/
structure Segment where
  events : List ObLogEvent
  rotate : PendingRotate
  record : BinlogIndexRecord

open Segment

def segments (config : Config) : BinlogStorage → List ObLogEvent → List Segment × List ObLogEvent
  | _, [] => ([], [])
  | storage, event :: events =>
    match admitEvent config storage event with
    | (admitted, _, none) => segments config admitted events
    | (admitted, stamped, some false) =>
      match segments config (placed config admitted stamped) events with
      | ([], rest) => ([], placedEvent config admitted stamped :: rest)
      | (segment :: later, rest) =>
        ({ segment with events := placedEvent config admitted stamped :: segment.events } ::
          later, rest)
    | (admitted, stamped, some true) =>
      let behind := placed config admitted stamped
      let (later, rest) := segments config (nextFile config behind) events
      (⟨[placedEvent config admitted stamped], pendingRotate config behind,
        admitted.indexRecord⟩ :: later, rest)

def storeEvent (config : Config) (state : BinlogStorage × Files) (event : ObLogEvent) :
    BinlogStorage × Files :=
  match admitEvent config state.1 event with
  | (admitted, _, none) => (admitted, state.2)
  | (admitted, stamped, some false) =>
    (placed config admitted stamped, state.2.persistentBinlog
      ((placedEvent config admitted stamped).flushToBuff config.checksum) admitted.indexRecord)
  | (admitted, stamped, some true) =>
    let behind := placed config admitted stamped
    let rotate := pendingRotate config behind
    (nextFile config behind, (state.2.persistentBinlog
        ((placedEvent config admitted stamped).flushToBuff config.checksum ++
          rotate.event.flushToBuff config.checksum) admitted.indexRecord).initNextBinlogFile
            config rotate admitted.indexRecord)

def storeEvents (config : Config) (state : BinlogStorage × Files) (events : List ObLogEvent) :
    BinlogStorage × Files :=
  events.foldl (storeEvent config) state

theorem storeEvents_append (config : Config) (state : BinlogStorage × Files)
    (front back : List ObLogEvent) :
    storeEvents config state (front ++ back) =
      storeEvents config (storeEvents config state front) back :=
  foldl_append

/-- `index_pos` is behind the last record or at it. -/
structure SerializeEvent.Aligned (batch : SerializeEvent) : Prop where
  le_length : batch.indexPos ≤ batch.indexRecords.length
  length_le : batch.indexRecords.length ≤ batch.indexPos + 1

section Records

variable (batch : SerializeEvent) (record : BinlogIndexRecord)

@[simp]
theorem SerializeEvent.updateIndexRecord_rotateEvents :
    (batch.updateIndexRecord record).rotateEvents = batch.rotateEvents := by
  rw [updateIndexRecord]
  split_ifs <;> rfl

@[simp]
theorem SerializeEvent.updateIndexRecord_isRotation :
    (batch.updateIndexRecord record).isRotation = batch.isRotation := by
  rw [updateIndexRecord]
  split_ifs <;> rfl

@[simp]
theorem SerializeEvent.updateIndexRecord_indexPos :
    (batch.updateIndexRecord record).indexPos = batch.indexPos := by
  rw [updateIndexRecord]
  split_ifs <;> rfl

end Records

variable {batch : SerializeEvent}

theorem SerializeEvent.Aligned.indexRecords_update (haligned : batch.Aligned)
    (record : BinlogIndexRecord) :
    (batch.updateIndexRecord record).indexRecords =
      batch.indexRecords.take batch.indexPos ++ [record] := by
  obtain ⟨hle, hlength⟩ := haligned
  rw [updateIndexRecord]
  split_ifs with hfull
  · rw [take_of_length_le hfull]
  · rw [set_eq_take_append_cons_drop, if_pos (by omega), drop_eq_nil_of_le (by omega)]

theorem SerializeEvent.Aligned.length_update (haligned : batch.Aligned)
    (record : BinlogIndexRecord) :
    (batch.updateIndexRecord record).indexRecords.length = batch.indexPos + 1 := by
  rw [haligned.indexRecords_update, length_append, length_take_of_le haligned.le_length]
  rfl

theorem allocateEvents_segments (events : List ObLogEvent) (storage : BinlogStorage)
    {batch : SerializeEvent} (haligned : batch.Aligned) :
    let allocated := allocateEvents config storage batch events
    let last := allocated.2.1.updateIndexRecord allocated.1.indexRecord
    last.rotateEvents = batch.rotateEvents ++ (segments config storage events).1.map Segment.rotate ∧
      last.indexRecords = batch.indexRecords.take batch.indexPos ++
        ((segments config storage events).1.map Segment.record ++ [allocated.1.indexRecord]) ∧
      last.isRotation = (batch.isRotation || !(segments config storage events).1.isEmpty) := by
  induction events generalizing storage batch with
  | nil => simp [allocateEvents, segments, haligned.indexRecords_update]
  | cons event events ih =>
    rcases hentry : admitEvent config storage event with ⟨admitted, stamped, verdict⟩
    rw [allocateEvents, segments, hentry]
    cases verdict with
    | none =>
      rw [allocateEvent_dropped batch hentry]
      exact ih admitted haligned
    | some isRotate =>
      have hlength := haligned.length_update admitted.indexRecord
      cases isRotate with
      | false =>
        have hnext : (batch.updateIndexRecord admitted.indexRecord).Aligned :=
          ⟨by simp [hlength], by simp [hlength]⟩
        obtain ⟨hrotates, hrecords, hflag⟩ := ih (placed config admitted stamped) hnext
        rw [allocateEvent_kept batch hentry]
        rw [haligned.indexRecords_update, SerializeEvent.updateIndexRecord_indexPos,
          take_left' (length_take_of_le haligned.le_length)] at hrecords
        dsimp only
        rw [hrotates, hrecords, hflag]
        rcases segments config (placed config admitted stamped) events with ⟨_ | _, _⟩ <;>
          simp
      | true =>
        rw [allocateEvent_rotated batch hentry]
        dsimp only
        generalize hrotated : SerializeEvent.mk true
          ((batch.updateIndexRecord admitted.indexRecord).rotateEvents ++
            [pendingRotate config (placed config admitted stamped)])
          ((batch.updateIndexRecord admitted.indexRecord).indexPos + 1)
          (batch.updateIndexRecord admitted.indexRecord).indexRecords = rotated
        have hnext : rotated.Aligned := by
          subst hrotated
          exact ⟨by simp [hlength], by simp [hlength]⟩
        obtain ⟨hrotates, hrecords, hflag⟩ :=
          ih (nextFile config (placed config admitted stamped)) hnext
        rw [hrotates, hrecords, hflag]
        subst hrotated
        simp only [SerializeEvent.updateIndexRecord_indexPos, ← hlength, take_length]
        simp [haligned.indexRecords_update]

def rotation (config : Config) (storage : BinlogStorage) (event : ObLogEvent) :
    Option PendingRotate :=
  match admitEvent config storage event with
  | (admitted, stamped, some true) => some (pendingRotate config (placed config admitted stamped))
  | _ => none

/-- The positions that an event leads to stay below `2 ^ 32`. -/
structure EventFits (config : Config) (storage : BinlogStorage) (event : ObLogEvent) : Prop where
  kept : (admitEvent config storage event).2.2.isSome →
    storage.curPos + event.eventLength config.checksum < 2 ^ 32
  rotated : ∀ rotate ∈ rotation config storage event,
    storage.curPos + event.eventLength config.checksum +
        rotate.event.eventLength config.checksum < 2 ^ 32 ∧
      binlogStartFixedPos + config.checksum.len +
        (rotate.nextPreviousGtids.map gtidLength).sum < 2 ^ 32

/-- All positions that are given to the events of a stream stay below `2 ^ 32`. -/
def PositionsFit (config : Config) : BinlogStorage → List ObLogEvent → Prop
  | _, [] => True
  | storage, event :: events =>
    EventFits config storage event ∧ PositionsFit config (advance config storage event).1 events

instance (config : Config) (storage : BinlogStorage) (event : ObLogEvent) :
    Decidable (EventFits config storage event) :=
  decidable_of_iff (_ ∧ _) ⟨fun hfits => ⟨hfits.1, hfits.2⟩, fun hfits => ⟨hfits.kept, hfits.rotated⟩⟩

instance decidablePositionsFit (config : Config) :
    ∀ storage events, Decidable (PositionsFit config storage events)
  | _, [] => isTrue trivial
  | storage, event :: events =>
    have := decidablePositionsFit config (advance config storage event).1 events
    inferInstanceAs (Decidable (EventFits config storage event ∧ _))

theorem advance_dropped (hentry : admitEvent config storage event = (admitted, stamped, none)) :
    advance config storage event = (admitted, stamped) := by
  rw [advance, allocateEvent_dropped _ hentry]

theorem advance_kept (hentry : admitEvent config storage event = (admitted, stamped, some false)) :
    advance config storage event =
      (placed config admitted stamped, placedEvent config admitted stamped) := by
  rw [advance, allocateEvent_kept _ hentry]

theorem advance_rotated (hentry : admitEvent config storage event = (admitted, stamped, some true)) :
    advance config storage event =
      (nextFile config (placed config admitted stamped), placedEvent config admitted stamped) := by
  rw [advance, allocateEvent_rotated _ hentry]

theorem EventFits.positionBehind_eq {isRotate : Bool} (hfits : EventFits config storage event)
    (hentry : admitEvent config storage event = (admitted, stamped, some isRotate)) :
    positionBehind config admitted stamped =
      storage.curPos + event.eventLength config.checksum := by
  obtain ⟨hpos, hlength, -⟩ := admitEvent_same config storage event
  have hkept := hfits.kept
  rw [hentry] at hpos hlength hkept
  rw [positionBehind, hpos, hlength]
  exact Nat.mod_eq_of_lt (hkept rfl)

theorem beginPosition_pendingRotate (hpos : storage.curPos < 2 ^ 32) :
    beginPosition config.checksum (pendingRotate config storage).event = storage.curPos := by
  have hlength : (pendingRotate config storage).event.nextPosition =
      (storage.curPos + (pendingRotate config storage).event.eventLength config.checksum) %
        2 ^ 32 := rfl
  rw [beginPosition, hlength]
  omega

/-- A rotate event stands behind the current position. -/
theorem lt_beginPosition {events : List ObLogEvent} (hfits : PositionsFit config storage events)
    {segment : Segment} {later : List Segment}
    (hsegments : (segments config storage events).1 = segment :: later) :
    storage.curPos < beginPosition config.checksum segment.rotate.event := by
  induction events generalizing storage segment later with
  | nil => simp [segments] at hsegments
  | cons event events ih =>
    obtain ⟨hevent, hevents⟩ := hfits
    have hpositive := event.eventLength_pos config.checksum
    rcases hentry : admitEvent config storage event with ⟨admitted, stamped, verdict⟩
    have hpos := (admitEvent_same config storage event).1
    rw [hentry] at hpos
    rw [segments, hentry] at hsegments
    cases verdict with
    | none =>
      rw [advance_dropped hentry] at hevents
      rw [← show admitted.curPos = storage.curPos from hpos]
      exact ih hevents hsegments
    | some isRotate =>
      have hbehind := hevent.positionBehind_eq hentry
      have hroom := hevent.kept (by rw [hentry]; rfl)
      cases isRotate with
      | false =>
        rw [advance_kept hentry] at hevents
        dsimp only at hsegments
        split at hsegments
        · simp at hsegments
        · rename_i first rest hrest
          obtain ⟨rfl, -⟩ := cons.inj hsegments
          have hnext := ih hevents (congrArg Prod.fst hrest)
          rw [placed, hbehind] at hnext
          dsimp only at hnext ⊢
          omega
      | true =>
        obtain ⟨rfl, -⟩ := cons.inj hsegments
        rw [beginPosition_pendingRotate] <;> rw [placed, hbehind] <;> dsimp only <;> omega

def Segment.bytes (checksum : Checksum) (segment : Segment) : Bytes :=
  eventsBytes checksum segment.events ++ segment.rotate.event.flushToBuff checksum

def cuts (checksum : Checksum) : ℕ → List Segment → List ℕ
  | _, [] => []
  | start, segment :: later =>
    (start + (segment.bytes checksum).length) ::
      cuts checksum (start + (segment.bytes checksum).length) later

variable {events : List ObLogEvent}

section Serialize

variable {checksum : Checksum} {batch : SerializeEvent} {serialized : Serialized}

theorem serializeEvent_plain (hfilter : event.filter = false)
    (hoffset : serialized.rotateOffsets[serialized.index]? ≠ some event.nextPosition) :
    serializeEvent checksum batch serialized event =
      { serialized with buffer := serialized.buffer ++ event.flushToBuff checksum } := by
  rw [serializeEvent, if_neg (by simp [hfilter])]
  cases batch.rotateEvents[serialized.index]? with
  | none => rfl
  | some rotate => simp [hoffset]

section Dropped

variable {Item : Type} {items rest : List Item} {item : Item} {index : ℕ}
  (hdrop : items.drop index = item :: rest)

include hdrop

theorem getElem?_of_drop : items[index]? = some item := by
  have hhead := congrArg head? hdrop
  rwa [head?_drop, head?_cons] at hhead

theorem drop_succ_of_drop : items.drop (index + 1) = rest := by
  rw [← tail_drop, hdrop, tail_cons]

end Dropped

theorem foldl_serializeEvent
    (hrotates : batch.rotateEvents.drop serialized.index =
      (segments config storage events).1.map Segment.rotate)
    (hoffsets : serialized.rotateOffsets.drop serialized.index =
      (segments config storage events).1.map fun segment =>
      beginPosition config.checksum segment.rotate.event)
    (hflag : (segments config storage events).1 ≠ [] → batch.isRotation = true)
    (hnew : ∀ event ∈ events, event.filter = true) (hfits : PositionsFit config storage events) :
    (advanceAll config storage events).2.foldl (serializeEvent config.checksum batch) serialized =
      ⟨serialized.buffer ++ ((segments config storage events).1.flatMap
            (bytes config.checksum) ++
          eventsBytes config.checksum (segments config storage events).2),
        serialized.rotateOffsets.take serialized.index ++
          cuts config.checksum serialized.buffer.length (segments config storage events).1,
        serialized.index + (segments config storage events).1.length⟩ := by
  induction events generalizing storage serialized with
  | nil =>
    have hshort : serialized.rotateOffsets.length ≤ serialized.index :=
      drop_eq_nil_iff.mp hoffsets
    simp [advanceAll, segments, cuts, take_of_length_le hshort]
  | cons event events ih =>
    obtain ⟨hevent, hevents⟩ := hfits
    obtain ⟨hfirst, hothers⟩ := forall_mem_cons.mp hnew
    rcases hentry : admitEvent config storage event with ⟨admitted, stamped, verdict⟩
    rw [segments, hentry] at hrotates hoffsets hflag ⊢
    rw [advanceAll, foldl_cons]
    cases verdict with
    | none =>
      have hfilter := (admitEvent_same config storage event).2.2
      rw [hentry, hfirst] at hfilter
      rw [advance_dropped hentry] at hevents ⊢
      rw [serializeEvent, if_pos hfilter]
      exact ih hrotates hoffsets hflag hothers hevents
    | some isRotate =>
      cases isRotate with
      | false =>
        rw [advance_kept hentry] at hevents ⊢
        have hlater := @lt_beginPosition config (placed config admitted stamped) events hevents
        have hrest := @ih (placed config admitted stamped) { serialized with
          buffer := serialized.buffer ++
            (placedEvent config admitted stamped).flushToBuff config.checksum }
        dsimp only at hrotates hoffsets hflag ⊢
        generalize segments config (placed config admitted stamped) events = cut at *
        obtain ⟨_ | ⟨segment, later⟩, rest⟩ := cut
        · have hnone : serialized.rotateOffsets[serialized.index]? = none :=
            getElem?_eq_none (drop_eq_nil_iff.mp hoffsets)
          rw [serializeEvent_plain rfl (by rw [hnone]; simp),
            hrest hrotates hoffsets (fun hne => absurd rfl hne) hothers hevents]
          simp [cuts]
        · have hnext := getElem?_of_drop hoffsets
          have hbefore := hlater rfl
          have hoffset : serialized.rotateOffsets[serialized.index]? ≠
              some (placedEvent config admitted stamped).nextPosition := by
            rw [hnext, Ne, Option.some.injEq]
            exact hbefore.ne'
          rw [serializeEvent_plain rfl hoffset,
            hrest hrotates hoffsets (fun _ => hflag (by simp)) hothers hevents]
          simp [cuts, bytes, Nat.add_assoc]
      | true =>
        have hbegin : beginPosition config.checksum
            (pendingRotate config (placed config admitted stamped)).event =
              (placedEvent config admitted stamped).nextPosition :=
          beginPosition_pendingRotate (Nat.mod_lt _ (by decide))
        rw [advance_rotated hentry] at hevents ⊢
        rw [map_cons] at hrotates hoffsets
        rw [hbegin] at hoffsets
        have hindex := getElem?_of_drop hoffsets
        have hlength : serialized.index < serialized.rotateOffsets.length :=
          (List.getElem?_eq_some_iff.mp hindex).1
        have hrotation := hflag (by simp)
        rw [serializeEvent, if_neg (by simp [placedEvent])]
        simp only [getElem?_of_drop hrotates, hrotation, hindex, decide_true, Bool.and_self,
          if_true]
        rw [ih (drop_succ_of_drop hrotates) (by
          rw [drop_set_of_lt (Nat.lt_succ_self _), drop_succ_of_drop hoffsets])
          (fun _ => hflag (by simp)) hothers hevents]
        have htake : ∀ cut, (serialized.rotateOffsets.set serialized.index cut).take
            (serialized.index + 1) = serialized.rotateOffsets.take serialized.index ++ [cut] := by
          intro cut
          rw [take_add_one, take_set_of_le (Nat.le_refl _), getElem?_set_self hlength]
          rfl
        simp only [htake]
        simp [cuts, bytes, Nat.add_assoc, Nat.add_comm 1]

end Serialize

def storeSegment (config : Config) (files : Files) (segment : Segment) : Files :=
  (files.persistentBinlog (segment.bytes config.checksum) segment.record).initNextBinlogFile config
    segment.rotate segment.record

/-- Storing what is left behind the last rotation, if anything is. -/
def storeRest (config : Config) (files : Files) (record : BinlogIndexRecord) :
    List ObLogEvent → Files
  | [] => files
  | event :: events =>
    files.persistentBinlog (eventsBytes config.checksum (event :: events)) record

theorem Segment.length_bytes_pos (checksum : Checksum) (segment : Segment) :
    0 < (segment.bytes checksum).length := by
  have hrotate := segment.rotate.event.eventLength_pos checksum
  rw [bytes, length_append, length_flushToBuff]
  omega

theorem storeRotations_cuts {batch : SerializeEvent} {buffer rest : Bytes}
    {segments : List Segment} {records : List BinlogIndexRecord} {start index : ℕ} {files : Files}
    (hbuffer : buffer.drop start = segments.flatMap (bytes config.checksum) ++ rest)
    (hrecords : batch.indexRecords.drop index = segments.map Segment.record ++ records)
    (hrotates : batch.rotateEvents.drop index = segments.map Segment.rotate) :
    storeRotations config batch buffer (cuts config.checksum start segments) start index files =
      some (segments.foldl (storeSegment config) files,
        start + (segments.flatMap (bytes config.checksum)).length,
        index + segments.length) := by
  induction segments generalizing start index files with
  | nil => rfl
  | cons segment later ih =>
    have hpositive := segment.length_bytes_pos config.checksum
    rw [flatMap_cons, append_assoc] at hbuffer
    have hslice := slice_of_drop hbuffer
    rw [cuts, storeRotations, if_pos (by omega), Nat.add_sub_cancel_left, hslice,
      getElem?_of_drop hrecords, getElem?_of_drop hrotates]
    dsimp only
    rw [ih (drop_add_of_drop hbuffer rfl) (drop_succ_of_drop hrecords)
      (drop_succ_of_drop hrotates)]
    simp [storeSegment, Nat.add_assoc, Nat.add_comm 1]

theorem Files.persistentBinlog_persistentBinlog (files : Files) (first second : Bytes)
    (record last : BinlogIndexRecord) :
    (files.persistentBinlog first record).persistentBinlog second last =
      files.persistentBinlog (first ++ second) last := by
  simp [Files.persistentBinlog, Disk.appendFile, Disk.fileSize]

theorem indexRecord_of_segments_eq_nil {events : List ObLogEvent}
    (hnone : segments config storage events = ([], [])) :
    (advanceAll config storage events).1.indexRecord = storage.indexRecord := by
  induction events generalizing storage with
  | nil => rfl
  | cons event events ih =>
    rcases hentry : admitEvent config storage event with ⟨admitted, stamped, _ | _ | _⟩
    · rw [segments, hentry] at hnone
      rw [advanceAll, advance_dropped hentry]
      exact (ih hnone).trans (admitEvent_dropped hentry)
    · rw [segments, hentry] at hnone
      dsimp only at hnone
      split at hnone <;> simp at hnone
    · rw [segments, hentry] at hnone
      simp at hnone

/-- The events one by one leave what the segments and the rest leave. -/
theorem storeEvents_segments (events : List ObLogEvent) (storage : BinlogStorage) (files : Files) :
    storeEvents config (storage, files) events =
      ((advanceAll config storage events).1,
        storeRest config ((segments config storage events).1.foldl (storeSegment config) files)
          (advanceAll config storage events).1.indexRecord (segments config storage events).2) := by
  induction events generalizing storage files with
  | nil => rfl
  | cons event events ih =>
    rcases hentry : admitEvent config storage event with ⟨admitted, stamped, _ | _ | _⟩
    · rw [storeEvents, foldl_cons, ← storeEvents, storeEvent, hentry, segments, hentry,
        advanceAll, advance_dropped hentry]
      exact ih admitted files
    · rw [storeEvents, foldl_cons, ← storeEvents, storeEvent, hentry, segments, hentry,
        advanceAll, advance_kept hentry]
      dsimp only
      rw [ih]
      have hrecord := @indexRecord_of_segments_eq_nil config (placed config admitted stamped) events
      generalize segments config (placed config admitted stamped) events = cut at *
      obtain ⟨_ | ⟨segment, later⟩, _ | ⟨first, rest⟩⟩ := cut
      · rw [show (advanceAll config (placed config admitted stamped) events).1.indexRecord =
          admitted.indexRecord from hrecord rfl]
        simp [storeRest]
      all_goals
        simp [storeRest, Files.persistentBinlog_persistentBinlog, storeSegment, bytes]
    · rw [storeEvents, foldl_cons, ← storeEvents, storeEvent, hentry, segments, hentry,
        advanceAll, advance_rotated hentry]
      rw [ih]
      simp [storeSegment, bytes]

theorem storeEvents_fst (events : List ObLogEvent) (storage : BinlogStorage) (files : Files) :
    (storeEvents config (storage, files) events).1 = (advanceAll config storage events).1 := by
  rw [storeEvents_segments]

theorem storeBatch_segments {segments : List Segment} {rest : List ObLogEvent}
    {record : BinlogIndexRecord} {serialized : Serialized}
    (hrotates : batch.rotateEvents = segments.map Segment.rotate)
    (hrecords : batch.indexRecords = segments.map Segment.record ++ [record])
    (hflag : batch.isRotation = !segments.isEmpty) (hbuffer : serialized.buffer =
      segments.flatMap (Segment.bytes config.checksum) ++ eventsBytes config.checksum rest)
    (hoffsets : serialized.rotateOffsets = cuts config.checksum 0 segments) (files : Files) :
    storeBatch config batch serialized files =
      some (if segments.isEmpty then
          files.persistentBinlog (eventsBytes config.checksum rest) record
        else storeRest config (segments.foldl (storeSegment config) files) record rest) := by
  rw [storeBatch]
  cases segments with
  | nil => simp [hflag, hrecords, hbuffer]
  | cons segment later =>
    have hstored := @storeRotations_cuts config batch serialized.buffer
      (eventsBytes config.checksum rest) (segment :: later) [record] 0 0 files hbuffer hrecords
      hrotates
    have hrest : slice serialized.buffer
        ((segment :: later).flatMap (bytes config.checksum)).length
        (eventsBytes config.checksum rest).length = eventsBytes config.checksum rest := by
      have hdrop : serialized.buffer.drop
          ((segment :: later).flatMap (bytes config.checksum)).length =
            eventsBytes config.checksum rest ++ [] := by
        rw [hbuffer, drop_left, append_nil]
      exact slice_of_drop hdrop
    rw [hflag, hoffsets, hstored]
    cases rest with
    | nil => simp [hbuffer, storeRest]
    | cons event events =>
      have hpositive := event.eventLength_pos config.checksum
      have hlonger : ((segment :: later).flatMap (bytes config.checksum)).length <
          serialized.buffer.length := by
        rw [hbuffer, length_append, eventsBytes_cons, length_append, length_flushToBuff]
        omega
      have hlast : batch.indexRecords[(segment :: later).length]? = some record := by
        rw [hrecords, getElem?_append_right (by simp)]
        simp
      have hcut : serialized.buffer.length -
          ((segment :: later).flatMap (bytes config.checksum)).length =
            (eventsBytes config.checksum (event :: events)).length := by
        rw [hbuffer, length_append, Nat.add_sub_cancel_left]
      simp only [isEmpty_cons, Bool.not_false, if_true, Nat.zero_add, if_pos hlonger,
        hlast, hcut, hrest]
      simp [hrecords, storeRest]

section NewEvents

variable (hnew : ∀ event ∈ events, event.filter = true)
  (hfits : PositionsFit config storage events) (files : Files)

include hnew hfits

theorem runBatch_segments :
    runBatch config (storage, files) events =
      some ((advanceAll config storage events).1, if (segments config storage events).1.isEmpty then
          files.persistentBinlog
            (eventsBytes config.checksum (segments config storage events).2)
            (advanceAll config storage events).1.indexRecord
        else storeRest config
          ((segments config storage events).1.foldl (storeSegment config) files)
          (advanceAll config storage events).1.indexRecord
          (segments config storage events).2) := by
  obtain ⟨hstorage, hevents⟩ := allocateEvents_eq_advanceAll config storage {} events
  obtain ⟨hrotates, hrecords, hflag⟩ :=
    @allocateEvents_segments config events storage {} ⟨Nat.le_refl _, Nat.zero_le _⟩
  rw [runBatch, globalAllocationOfBackfillEvents]
  dsimp only at hrotates hrecords hflag ⊢
  rw [hstorage] at hrotates hrecords hflag ⊢
  rw [hevents]
  generalize (allocateEvents config storage {} events).2.1.updateIndexRecord
    (advanceAll config storage events).1.indexRecord = batch at hrotates hrecords hflag ⊢
  have hserialized : serialize config.checksum batch (advanceAll config storage events).2 = _ :=
    foldl_serializeEvent (by simpa using hrotates) (by simp [hrotates])
      (by simp [hflag]) hnew hfits
  rw [hserialized, storeBatch_segments hrotates hrecords hflag rfl rfl]
  rfl

/-- A batch is its events one by one, if any of them is kept. -/
theorem runBatch_eq_storeEvents (hkept : segments config storage events ≠ ([], [])) :
    runBatch config (storage, files) events = some (storeEvents config (storage, files) events) := by
  rw [runBatch_segments hnew hfits, storeEvents_segments]
  generalize segments config storage events = cut at *
  obtain ⟨_ | ⟨segment, later⟩, _ | ⟨first, rest⟩⟩ := cut
  · exact absurd rfl hkept
  all_goals rfl

end NewEvents

end Segments

end OblogProxy.Storage
