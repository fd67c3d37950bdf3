import OblogProxy.Recovery.RecoverSafely
import OblogProxy.Storage.StoreTransactions

/-!
# Scans of a complete file

A process that has stopped between two transactions leaves files that end with a
complete event.  The three readers of the start find in such a file what was
written to it: the gtid events and the previous gtids, the transactions, and the
events of a type.
-/

namespace OblogProxy.Recovery

open Bytes Event Gtid Loop Storage ObLogEvent List OblogEventHeader

/-- The parts of the event that a start reads are in their ranges. -/
structure ReadBack (event : ObLogEvent) : Prop where
  fits : event.body.Fits
  ordered : event.body.Ordered
  messages : ∀ messages, event.body = .previousGtids messages →
    messages.length < 2 ^ 64 ∧ ∀ message ∈ messages, MessageInWireRange message

section Read

variable (checksum : Checksum) {event : ObLogEvent}

theorem drop_flushToBuff (event : ObLogEvent) :
    ∃ rest, (event.flushToBuff checksum).drop 19 = event.body.content checksum ++ rest :=
  ⟨_, drop_left' (length_flushToBuff _)⟩

theorem messages_of_previousGtids {messages : List GtidMessage}
    (hbody : event.body = .previousGtids messages) (hread : ReadBack event) :
    (PreviousGtidsLogEvent.deserialize (event.flushToBuff checksum)).gtidMessages.entries.map
      Prod.snd = messages := by
  obtain ⟨hlength, hmessages⟩ := hread.messages messages hbody
  obtain ⟨rest, hdrop⟩ := drop_flushToBuff checksum event
  rw [hbody, EventBody.content, previousGtidsContent, append_assoc] at hdrop
  have hcount := loadLE_slice_of_drop hdrop (by simpa using hlength)
  have hlist := readGtidMessages_of_drop hmessages (drop_add_of_drop hdrop (length_storeLE 8 _))
  simp only [PreviousGtidsLogEvent.deserialize, hcount, hlist]
  exact hread.ordered messages hbody

theorem checksumFlag_of_formatDescription {timestamp : ℕ}
    (hbody : event.body = .formatDescription timestamp) :
    loadLE (slice (event.flushToBuff checksum) (76 + logEventTypes) 1) = checksum.flag := by
  obtain ⟨rest, hdrop⟩ := drop_flushToBuff checksum event
  rw [hbody, EventBody.content, formatDescriptionContent, append_assoc] at hdrop
  have hflag := drop_add_of_drop hdrop (show _ = 96 from by simp [serverVersion, eventTypeHeaderLen])
  apply loadLE_slice_of_drop hflag
  split <;> decide

end Read

def seenGtid (checksum : Checksum) (_ : ℕ) (event : ObLogEvent) (scan : GtidScan) : GtidScan :=
  match event.body with
  | .xid value => { scan with lastXid := value % 2 ^ 64 }
  | .gtid gtid => { scan with gtidLogEvents := scan.gtidLogEvents ++ [gtid] }
  | .rotate _ => { scan with rotateExisted := true }
  | .formatDescription _ => { scan with checksumFlag := checksum.flag }
  | .previousGtids messages =>
    { scan with previousGtidMessages := scan.previousGtidMessages ++ messages }
  | _ => scan

theorem sees_visitGtid (checksum : Checksum) (file : Bytes) :
    Sees (visitGtid file) (seenGtid checksum) checksum file ReadBack := by
  intro pos event rest scan hdrop hlength hnext hread
  have hbuffer := readAt_of_drop hdrop (event.length_flushToBuff checksum)
  rw [visitGtid, readHeader_typeCode, readHeader_eventLength hlength, hbuffer, seenGtid]
  cases hbody : event.body with
  | gtid gtid =>
    have hfits := hread.fits
    rw [hbody] at hfits
    simp [EventBody.typeCode, event.deserialize_gtid checksum hbody hfits]
  | xid value =>
    obtain ⟨rest, hcontent⟩ := drop_flushToBuff checksum event
    rw [hbody, EventBody.content] at hcontent
    have hslice := slice_of_drop hcontent
    rw [length_storeLE] at hslice
    simp [EventBody.typeCode, hslice, loadLE_storeLE]
  | formatDescription timestamp =>
    simp [EventBody.typeCode, checksumFlag_of_formatDescription checksum hbody]
  | previousGtids messages =>
    simp [EventBody.typeCode, messages_of_previousGtids checksum hbody hread]
  | rows kind content => cases kind <;> rfl
  | _ => rfl

def gtidLogEventOf (event : ObLogEvent) : Option GtidLogEvent :=
  match event.body with
  | .gtid gtid => some gtid
  | _ => none

variable {event : ObLogEvent}

theorem gtidLogEventOf_eq_none (hkind : event.kind ≠ .gtid) : gtidLogEventOf event = none := by
  rw [gtidLogEventOf]
  cases hbody : event.body with
  | gtid gtid => exact absurd (kind_eq_gtid.mpr ⟨gtid, hbody⟩) hkind
  | _ => rfl

theorem gtidLogEventsOf_transaction (transaction : Transaction) :
    ∃ gtid, transaction.events.filterMap gtidLogEventOf = [gtid] ∧
      gtid.gtidTxnId = transaction.number := by
  obtain ⟨event, gtid, middle, last, hevents, hgtid, hnumber, hmiddle, hlast⟩ :=
    transaction.exists_last
  have hevent : gtidLogEventOf event = some gtid := by
    rw [gtidLogEventOf, hgtid]
  have hbody : (middle ++ [last]).filterMap gtidLogEventOf = [] := by
    rw [filterMap_eq_nil_iff]
    intro other hother
    apply gtidLogEventOf_eq_none
    rcases mem_append.mp hother with hother | hother
    · rcases hmiddle other hother with hkind | hkind <;> simp [hkind]
    · rw [mem_singleton.mp hother]
      rcases hlast with hkind | hkind <;> simp [hkind]
  exact ⟨gtid, by rw [hevents, filterMap_cons_some hevent, hbody], hnumber.symm⟩

theorem numbers_gtidLogEventsOf (transactions : List Transaction) :
    ((transactions.flatMap Transaction.events).filterMap gtidLogEventOf).map
      GtidLogEvent.gtidTxnId = transactions.map Transaction.number := by
  induction transactions with
  | nil => rfl
  | cons transaction transactions ih =>
    obtain ⟨gtid, hgtid, hnumber⟩ := gtidLogEventsOf_transaction transaction
    rw [flatMap_cons, filterMap_append, hgtid, map_append, ih, map_cons, hnumber]
    rfl

/-- An event of a transaction adds its gtid event or its commit to what has been seen. -/
theorem seenGtid_transaction (checksum : Checksum) {transaction : Transaction}
    (hevent : event ∈ transaction.events) (pos : ℕ) (scan : GtidScan) :
    ∃ lastXid, seenGtid checksum pos event scan =
      { scan with
        gtidLogEvents := scan.gtidLogEvents ++ (gtidLogEventOf event).toList
        lastXid } := by
  have hrotate := transaction.kind_ne_control hevent
  rw [seenGtid, gtidLogEventOf]
  rw [kind] at hrotate
  cases hbody : event.body with
  | rotate rotate => simp [hbody] at hrotate
  | formatDescription timestamp => simp [hbody] at hrotate
  | previousGtids messages => simp [hbody] at hrotate
  | xid value => exact ⟨value % 2 ^ 64, by simp⟩
  | _ => exact ⟨scan.lastXid, by simp⟩

variable {events : List ObLogEvent}

theorem seenEvents_gtid (checksum : Checksum)
    (hevents : ∀ event ∈ events, ∃ transaction : Transaction, event ∈ transaction.events)
    (pos : ℕ) (scan : GtidScan) :
    ∃ lastXid, seenEvents (seenGtid checksum) checksum pos events scan =
      { scan with
        gtidLogEvents := scan.gtidLogEvents ++ events.filterMap gtidLogEventOf
        lastXid } := by
  induction events generalizing pos scan with
  | nil => exact ⟨scan.lastXid, by simp [seenEvents]⟩
  | cons event events ih =>
    obtain ⟨⟨transaction, hevent⟩, hothers⟩ := forall_mem_cons.mp hevents
    obtain ⟨firstXid, hfirst⟩ := seenGtid_transaction checksum hevent pos scan
    obtain ⟨lastXid, hlast⟩ := ih hothers (pos + event.eventLength checksum)
      (seenGtid checksum pos event scan)
    rw [seenEvents, hlast, hfirst]
    cases hgtid : gtidLogEventOf event with
    | none => simp [filterMap_cons_none hgtid]
    | some gtid => simp [filterMap_cons_some hgtid]

section SeekEvents

variable {checksum : Checksum} {file : Bytes} {eventType : EventType}

/-- What `seek_events` takes from complete events. -/
def soughtEvents (checksum : Checksum) (eventType : EventType) (events : List ObLogEvent) :
    List (OblogEventHeader × Bytes) :=
  (events.filter fun event => decide (IsAskedFor eventType (readHeader checksum event))).map
    fun event => (readHeader checksum event, event.flushToBuff checksum)

theorem soughtEvents_cons (event : ObLogEvent) (events : List ObLogEvent) :
    soughtEvents checksum eventType (event :: events) =
      soughtEvents checksum eventType [event] ++ soughtEvents checksum eventType events := by
  simp [soughtEvents, ← map_append, ← filter_append]

variable {pos : ℕ}

theorem readStream_of_drop {value rest content : Bytes} {len : ℕ}
    (hdrop : file.drop pos = value ++ rest) (hlength : value.length = len)
    (hcontent : content.length ≤ len) : readStream file false content pos len = (false, value) := by
  subst hlength
  simp [readStream, slice_of_drop hdrop, drop_eq_nil_of_le hcontent]

section Sought

variable {buff : Bytes} {logEvents : List (OblogEventHeader × Bytes)}
  (hbuff : buff.length = commonHeaderLength)

include hbuff

theorem seekEventsStep_event {single : Bool} {rest : Bytes}
    (hdrop : file.drop pos = event.flushToBuff checksum ++ rest)
    (hlength : event.eventLength checksum < 2 ^ 32) (hbound : event.nextPosition < 2 ^ 32) :
    seekEventsStep file eventType single { pos, buff, logEvents } =
      some
        { pos := event.nextPosition
          buff := (event.header checksum).flushToBuff
          logEvents := logEvents ++ soughtEvents checksum eventType [event]
          broken := single &&
            !(logEvents ++ soughtEvents checksum eventType [event]).isEmpty } := by
  have hpos : pos < file.length := by
    apply length_lt_of_drop hdrop
    apply append_ne_nil_of_left_ne_nil
    rw [← length_pos_iff, event.length_flushToBuff]
    exact event.eventLength_pos checksum
  have hheader : readStream file false buff pos commonHeaderLength =
      (false, (event.header checksum).flushToBuff) := by
    exact readStream_of_drop hdrop (length_flushToBuff _) hbuff.le
  have hevent : readStream file false [] pos (event.eventLength checksum) =
      (false, event.flushToBuff checksum) :=
    readStream_of_drop hdrop (event.length_flushToBuff checksum) (Nat.zero_le _)
  have hsought : (if IsAskedFor eventType (readHeader checksum event) then
      logEvents ++ [(readHeader checksum event, event.flushToBuff checksum)] else logEvents) =
        logEvents ++ soughtEvents checksum eventType [event] := by
    rw [soughtEvents]
    split_ifs with hasked
    · rw [filter_cons_of_pos (by simpa using hasked)]
      rfl
    · rw [filter_cons_of_neg (by simpa using hasked)]
      exact (append_nil _).symm
  rw [seekEventsStep, if_neg Bool.false_ne_true, if_pos hpos]
  dsimp only
  rw [hheader]
  rw [← readHeader, readHeader_eventLength hlength, hevent, hsought, readHeader_nextPosition hbound]

/-- The loop over complete events, when all events of a type are sought. -/
theorem finish_seekEventsStep {fuel : ℕ} (hdrop : file.drop pos = eventsBytes checksum events)
    (hplaced : Placed checksum pos events) (hfuel : events.length < fuel) :
    (finish (seekEventsStep file eventType false) fuel { pos, buff, logEvents }).map
      SeekEvents.logEvents = some (logEvents ++ soughtEvents checksum eventType events) := by
  induction events generalizing pos fuel buff logEvents with
  | nil =>
    obtain ⟨fuel, rfl⟩ := Nat.exists_eq_succ_of_ne_zero (Nat.ne_zero_of_lt hfuel)
    have hend : ¬pos < file.length := by
      rw [eventsBytes_nil, drop_eq_nil_iff] at hdrop
      omega
    rw [finish, seekEventsStep, if_neg Bool.false_ne_true, if_neg hend]
    simp [soughtEvents]
  | cons event events ih =>
    obtain ⟨fuel, rfl⟩ := Nat.exists_eq_succ_of_ne_zero (Nat.ne_zero_of_lt hfuel)
    obtain ⟨⟨hnext, hbound⟩, hevents⟩ := hplaced
    have hrest := drop_add_of_drop hdrop (event.length_flushToBuff checksum)
    rw [finish, seekEventsStep_event hbuff hdrop (by omega) hbound]
    rw [Bool.false_and, hnext, ih (length_flushToBuff _) hrest hevents
      (Nat.lt_of_succ_lt_succ hfuel), append_assoc, ← soughtEvents_cons]

end Sought

theorem seekEvents_all (hplaced : Placed checksum binlogMagicSize events) (eventType : EventType) :
    seekEvents (binlogMagic ++ eventsBytes checksum events) eventType false =
      some (soughtEvents checksum eventType events) := by
  have hlength : events.length < (binlogMagic ++ eventsBytes checksum events).length + 1 := by
    have hsize := Tail.length_le_totalSize _ (eventLength_pos checksum) events
    rw [length_append, length_eventsBytes]
    omega
  exact finish_seekEventsStep length_replicate rfl hplaced hlength

theorem sought_of_typeCode (htype : event.body.typeCode = eventType)
    (hsought : isSought eventType = true) :
    soughtEvents checksum eventType [event] =
      [(readHeader checksum event, event.flushToBuff checksum)] := by
  rw [soughtEvents, filter_cons_of_pos]
  · rfl
  · rw [decide_eq_true_iff, IsAskedFor, readHeader_typeCode, htype]
    exact ⟨Or.inr rfl, hsought⟩

theorem sought_of_ne (htype : event.body.typeCode ≠ eventType) (hend : eventType ≠ enumEndEvent) :
    soughtEvents checksum eventType [event] = [] := by
  rw [soughtEvents, filter_cons_of_neg]
  · rfl
  · rw [decide_eq_true_iff, IsAskedFor, readHeader_typeCode]
    rintro ⟨hend' | htype', -⟩
    · exact hend hend'
    · exact htype htype'

/-- The previous-gtids event of a file is its second event. -/
theorem getPreviousGtidSet_header {formatDescription previousGtids : ObLogEvent} {timestamp : ℕ}
    {messages : List GtidMessage} (hformat : formatDescription.body = .formatDescription timestamp)
    (hprevious : previousGtids.body = .previousGtids messages) (hread : ReadBack previousGtids)
    (hplaced : Placed checksum binlogMagicSize (formatDescription :: previousGtids :: events)) :
    getPreviousGtidSet (binlogMagic ++
      eventsBytes checksum (formatDescription :: previousGtids :: events)) = some messages := by
  obtain ⟨⟨hnext, hbound⟩, ⟨hnextPrevious, hboundPrevious⟩, -⟩ := hplaced
  generalize hfile : binlogMagic ++
    eventsBytes checksum (formatDescription :: previousGtids :: events) = file
  have hfirst : file.drop binlogMagicSize = formatDescription.flushToBuff checksum ++
      (previousGtids.flushToBuff checksum ++ eventsBytes checksum events) := by
    rw [← hfile, eventsBytes_cons, eventsBytes_cons]
    rfl
  have hsecond := drop_add_of_drop hfirst (formatDescription.length_flushToBuff checksum)
  rw [← hnext] at hsecond
  have hmagic : slice file 0 binlogMagicSize = binlogMagic := by
    rw [← hfile]
    rfl
  obtain ⟨fuel, hfuel⟩ : ∃ fuel, file.length + 1 = fuel + 3 := by
    rw [← hfile]
    simp [binlogMagic]
  have hpass : seekEventsStep file .previousGtidsLogEvent true
      { buff := replicate commonHeaderLength 0 } =
        some { pos := formatDescription.nextPosition
               buff := (formatDescription.header checksum).flushToBuff } := by
    rw [seekEventsStep_event length_replicate hfirst (by omega) hbound,
      sought_of_ne (by rw [hformat]; simp [EventBody.typeCode]) (by decide)]
    rfl
  have hfound : seekEventsStep file .previousGtidsLogEvent true
      { pos := formatDescription.nextPosition
        buff := (formatDescription.header checksum).flushToBuff } =
        some { pos := previousGtids.nextPosition
               buff := (previousGtids.header checksum).flushToBuff
               logEvents := [(readHeader checksum previousGtids,
                 previousGtids.flushToBuff checksum)]
               broken := true } := by
    rw [seekEventsStep_event (length_flushToBuff _) hsecond (by omega) hboundPrevious,
      sought_of_typeCode (by rw [hprevious]; rfl) rfl]
    rfl
  have hseek : seekEvents file .previousGtidsLogEvent true =
      some [(readHeader checksum previousGtids, previousGtids.flushToBuff checksum)] := by
    rw [seekEvents, if_pos hmagic, hfuel, finish, hpass]
    dsimp only
    rw [finish, hfound]
    rfl
  rw [getPreviousGtidSet, hseek]
  exact congrArg some (messages_of_previousGtids checksum hprevious hread)

theorem deserialize_soughtEvents (hevents : ∀ event ∈ events, event.body.Fits) :
    (soughtEvents checksum .gtidLogEvent events).map
        (fun event => GtidLogEvent.deserialize event.2) =
      events.filterMap gtidLogEventOf := by
  induction events with
  | nil => rfl
  | cons event events ih =>
    obtain ⟨hfits, hothers⟩ := forall_mem_cons.mp hevents
    rw [soughtEvents_cons, map_append, ih hothers]
    cases hgtid : gtidLogEventOf event with
    | none =>
      have htype : event.body.typeCode ≠ .gtidLogEvent := by
        rw [gtidLogEventOf] at hgtid
        cases hbody : event.body with
        | gtid gtid => simp [hbody] at hgtid
        | rows kind content => cases kind <;> simp [EventBody.typeCode, RowsKind.typeCode]
        | _ => simp [EventBody.typeCode]
      rw [sought_of_ne htype (by decide), filterMap_cons_none hgtid]
      rfl
    | some gtid =>
      have hbody : event.body = .gtid gtid := by
        rw [gtidLogEventOf] at hgtid
        cases hbody : event.body with
        | gtid other =>
          rw [hbody] at hgtid
          rw [Option.some.inj hgtid]
        | _ => simp [hbody] at hgtid
      rw [hbody] at hfits
      rw [sought_of_typeCode (by rw [hbody]; rfl) rfl, filterMap_cons_some hgtid,
        map_singleton, event.deserialize_gtid checksum hbody hfits]
      rfl

end SeekEvents

section Stores

variable {config : Config} {file : LogFile} {before first : ℕ} {transactions : List Transaction}

section Previous

variable (hvalid : ValidUuid config.masterServerUuid)
  (hprevious : file.previousGtids = gtidsUpTo config.masterServerUuid before)

include hvalid hprevious

theorem body_newPreviousGtidsLogEvent :
    (newPreviousGtidsLogEvent config.checksum config.serverId file.timestamp
      file.previousGtids).body =
        .previousGtids (gtidsUpTo config.masterServerUuid before) := by
  rw [newPreviousGtidsLogEvent, hprevious, setGtidMessages_gtidsUpTo hvalid]

theorem readBack_previousGtids (hlaid : file.Laid config) (hbound : before + 1 < 2 ^ 64) :
    ReadBack (newPreviousGtidsLogEvent config.checksum config.serverId file.timestamp
      file.previousGtids) := by
  have hbody := body_newPreviousGtidsLogEvent hvalid hprevious
  have hone := length_gtidsUpTo_le config.masterServerUuid before
  refine ⟨by trivial, ?_, ?_⟩
  · exact ordered_newPreviousGtidsLogEvent _ _ _ hlaid.uuids
  · intro messages hmessages
    obtain rfl := EventBody.previousGtids.inj (hbody.symm.trans hmessages)
    exact ⟨by omega, fun message hmessage =>
      messageInWireRange_gtidsUpTo hvalid (by omega) hmessage⟩

theorem getPreviousGtidSet_laid (hlaid : file.Laid config) (hbound : before + 1 < 2 ^ 64) :
    getPreviousGtidSet (file.bytes config) =
      some (gtidsUpTo config.masterServerUuid before) :=
  getPreviousGtidSet_header rfl (body_newPreviousGtidsLogEvent hvalid hprevious)
    (readBack_previousGtids hvalid hprevious hlaid hbound) hlaid.placed

end Previous

section Stores

variable (hstores : file.Stores config before first transactions) (hevent : event ∈ file.events)

include hstores hevent

theorem fits_event : event.body.Fits := by
  rw [hstores.events] at hevent
  obtain ⟨transaction, htransaction, hmem⟩ := mem_flatMap.mp hevent
  exact hstores.fits transaction htransaction event hmem

theorem mem_transaction : ∃ transaction : Transaction, event ∈ transaction.events := by
  rw [hstores.events] at hevent
  obtain ⟨transaction, -, hmem⟩ := mem_flatMap.mp hevent
  exact ⟨transaction, hmem⟩

end Stores

/-- No event but the previous-gtids event has messages. -/
theorem readBack_of_kind (hfits : event.body.Fits) (hkind : event.kind ≠ .previousGtids) :
    ReadBack event := by
  have hbody : ∀ messages, event.body ≠ .previousGtids messages := by
    intro messages hmessages
    rw [kind, hmessages] at hkind
    exact hkind rfl
  exact ⟨hfits, fun messages hmessages => absurd hmessages (hbody messages),
    fun messages hmessages => absurd hmessages (hbody messages)⟩

section Stores

variable (hvalid : ValidUuid config.masterServerUuid)
  (hstores : file.Stores config before first transactions)

include hvalid hstores

theorem readBack_allEvents (hevent : event ∈ file.allEvents config) : ReadBack event := by
  rcases mem_append.mp hevent with hheader | hbody
  · rcases mem_cons.mp hheader with rfl | hheader
    · exact readBack_of_kind trivial (by simp [kind, LogFile.formatDescription,
        newFormatDescriptionEvent])
    · rw [mem_singleton.mp hheader]
      exact readBack_previousGtids hvalid hstores.previousGtids hstores.laid hstores.bound
  · rcases mem_append.mp hbody with hstored | hrotate
    · obtain ⟨transaction, hmem⟩ := mem_transaction hstores hstored
      exact readBack_of_kind (fits_event hstores hstored) (transaction.kind_ne_control hmem).2.2
    · have hkind := hstores.rotate event (Option.mem_toList.mp hrotate)
      exact readBack_of_kind (fits_of_kind (Or.inr (Or.inr hkind))) (by simp [hkind])

theorem seekGtidEvent_stores (scan : GtidScan) :
    ∃ lastXid, seekGtidEvent (file.bytes config) scan =
      some
        ({ gtidLogEvents := scan.gtidLogEvents ++ file.events.filterMap gtidLogEventOf
           rotateExisted := scan.rotateExisted || file.rotate.isSome
           checksumFlag := config.checksum.flag
           lastXid
           previousGtidMessages := scan.previousGtidMessages ++
             gtidsUpTo config.masterServerUuid before }, (file.bytes config).length) := by
  have hmagic : slice (file.bytes config) 0 binlogMagicSize = binlogMagic := rfl
  obtain ⟨lastXid, hevents⟩ := seenEvents_gtid config.checksum
    (fun _ => mem_transaction hstores) (binlogMagicSize + Tail.totalSize
      (eventLength config.checksum) (file.header config))
    { scan with
      checksumFlag := config.checksum.flag
      previousGtidMessages := scan.previousGtidMessages ++
        gtidsUpTo config.masterServerUuid before }
  have hheader : seenEvents (seenGtid config.checksum) config.checksum binlogMagicSize
      (file.header config) scan =
        { scan with
          checksumFlag := config.checksum.flag
          previousGtidMessages := scan.previousGtidMessages ++
            gtidsUpTo config.masterServerUuid before } := by
    rw [LogFile.header, seenEvents, seenEvents, seenEvents, seenGtid,
      body_newPreviousGtidsLogEvent hvalid hstores.previousGtids]
    rfl
  have hrotate : ∀ scan pos, seenEvents (seenGtid config.checksum) config.checksum pos
      file.rotate.toList scan =
        { scan with rotateExisted := scan.rotateExisted || file.rotate.isSome } := by
    cases hrotate : file.rotate with
    | none => simp [seenEvents]
    | some event =>
      have hkind := hstores.rotate event hrotate
      rw [kind] at hkind
      cases hbody : event.body with
      | rotate rotate => simp [seenEvents, seenGtid, hbody]
      | query query => rcases query.kind_cases with h | h | h <;> simp [hbody, h] at hkind
      | _ => simp [hbody] at hkind
  have hscan := @scanEvents_complete _ _ config.checksum (file.bytes config) _ _ _ rfl
    (sees_visitGtid config.checksum (file.bytes config))
    (fun _ => readBack_allEvents hvalid hstores) hstores.laid.placed scan
  refine ⟨lastXid, ?_⟩
  rw [seekGtidEvent, if_pos hmagic, hscan, LogFile.allEvents, seenEvents_append, hheader,
    seenEvents_append, hevents, hrotate]

theorem seekEvents_stores :
    ∃ found, seekEvents (file.bytes config) .gtidLogEvent false = some found ∧
      found.map (fun event => GtidLogEvent.deserialize event.2) =
        file.events.filterMap gtidLogEventOf := by
  refine ⟨_, seekEvents_all hstores.laid.placed .gtidLogEvent, ?_⟩
  rw [deserialize_soughtEvents fun event hevent => (readBack_allEvents hvalid hstores hevent).fits]
  have hrotate : file.rotate.toList.filterMap gtidLogEventOf = [] := by
    rw [filterMap_eq_nil_iff]
    intro event hevent
    apply gtidLogEventOf_eq_none
    simp [hstores.rotate event (Option.mem_toList.mp hevent)]
  rw [LogFile.allEvents, filterMap_append, filterMap_append, hrotate, append_nil]
  rfl

/-- The last complete transaction of a file that is in use is its last one. -/
theorem seekAndVerifyCompleteTrx_stores (henabled : config.checksum.enabled = true)
    (hopen : file.rotate = none) (trxSpecifyTruncatedGtid : ℕ) :
    ∃ trx, seekAndVerifyCompleteTrx config.checksum (file.bytes config)
        trxSpecifyTruncatedGtid = some trx ∧
      trx.hasPreviousGtidsEvent = true ∧ trx.trxNeedTruncatedGtid = 0 ∧
      trx.lastCompleteTrxGtid = lastNumber 0 transactions := by
  have hmagic : slice (file.bytes config) 0 binlogMagicSize = binlogMagic := rfl
  have hevents : file.allEvents config =
      file.header config ++ transactions.flatMap Transaction.events := by
    rw [LogFile.allEvents, hopen, hstores.events, Option.toList_none, append_nil]
  have hplaced := hstores.laid.placed
  have hdrop : (file.bytes config).drop binlogMagicSize =
      eventsBytes config.checksum (file.allEvents config) ++ [] :=
    (append_nil _).symm
  have hchecked := @TrxScan.Checked.seenEvents config.checksum (file.bytes config)
    binlogMagicSize henabled _ _ { trxSpecifyTruncatedGtid } hdrop hplaced
    (by simp [TrxScan.Checked])
  have hscan := @scanEvents_complete _ _ config.checksum (file.bytes config) _ _ _ rfl
    (sees_visitTrx config.checksum (file.bytes config))
    (fun _ hevent => (readBack_allEvents hvalid hstores hevent).fits) hplaced
    { trxSpecifyTruncatedGtid }
  rw [hevents] at hplaced
  have hoverview := seenTrx_complete config.checksum rfl rfl trxSpecifyTruncatedGtid hplaced
  change (seenEvents seenTrx config.checksum binlogMagicSize (file.header config ++
    transactions.flatMap Transaction.events) _).toBinlogTrxOverview = _ at hoverview
  rw [← hevents] at hoverview
  generalize seenEvents seenTrx config.checksum binlogMagicSize (file.allEvents config)
    { trxSpecifyTruncatedGtid } = scan at hchecked hscan hoverview
  have hprevious : scan.hasPreviousGtidsEvent = true :=
    congrArg BinlogTrxOverview.hasPreviousGtidsEvent hoverview
  refine ⟨scan.toBinlogTrxOverview, ?_, hprevious, by rw [hoverview], by rw [hoverview]⟩
  rw [seekAndVerifyCompleteTrx, if_pos hmagic, hscan]
  dsimp only
  rw [if_pos hprevious, if_pos (hchecked hprevious)]

end Stores

end Stores

end OblogProxy.Recovery
