import OblogProxy.Event.LogEvent

/-!
# The last complete transaction of a file

`seek_and_verify_complete_trx` finds where the last complete transaction of a
binlog file ends and which transaction is torn behind it.  A transaction ends
with its commit or its statement; of a commit the scan reads only the header.
-/

namespace OblogProxy.Recovery

open Bytes Event List Transaction

section Scan

open OblogEventHeader

/-- The loop, with the state it leaves and the position it stops at.  `none` is
a loop that does not end within the fuel. -/
def scanEvents {State : Type} (visit : ℕ → OblogEventHeader → State → State) (file : Bytes) :
    ℕ → ℕ → State → Option (State × ℕ)
  | 0, _, _ => none
  | fuel + 1, curPos, state =>
    if curPos < file.length then
      match readAt file curPos commonHeaderLength with
      | none => some (state, curPos)
      | some buff =>
        let header := deserialize buff
        scanEvents visit file fuel header.nextPosition (visit curPos header state)
    else some (state, curPos)

def readHeader (checksum : Checksum) (event : ObLogEvent) : OblogEventHeader :=
  deserialize (event.header checksum).flushToBuff

section Seen

variable {State : Type} (visit : ℕ → OblogEventHeader → State → State)
  (seen : ℕ → ObLogEvent → State → State) (checksum : Checksum)

/-- What is learnt from complete events, the first of which stands at `pos`. -/
def seenEvents : ℕ → List ObLogEvent → State → State
  | _, [], state => state
  | pos, event :: events, state =>
    seenEvents (pos + event.eventLength checksum) events (seen pos event state)

/-- A visit to a complete event learns what `seen` says. -/
def Sees (file : Bytes) (Good : ObLogEvent → Prop) : Prop :=
  ∀ (pos : ℕ) (event : ObLogEvent) (rest : Bytes) (state : State),
    file.drop pos = event.flushToBuff checksum ++ rest → event.eventLength checksum < 2 ^ 32 →
      event.nextPosition < 2 ^ 32 → Good event →
        visit pos (readHeader checksum event) state = seen pos event state

theorem seenEvents_append (pos : ℕ) (front back : List ObLogEvent) (state : State) :
    seenEvents seen checksum pos (front ++ back) state =
      seenEvents seen checksum (pos + Tail.totalSize (ObLogEvent.eventLength checksum) front) back
        (seenEvents seen checksum pos front state) := by
  induction front generalizing pos state with
  | nil => rfl
  | cons event front ih =>
    rw [cons_append, seenEvents, seenEvents, ih, Tail.totalSize_cons, Nat.add_assoc]

theorem seenEvents_congr {other : ℕ → ObLogEvent → State → State} {events : List ObLogEvent}
    (hseen : ∀ event ∈ events, ∀ pos state, seen pos event state = other pos event state) (pos : ℕ)
    (state : State) :
    seenEvents seen checksum pos events state = seenEvents other checksum pos events state := by
  induction events generalizing pos state with
  | nil => rfl
  | cons event events ih =>
    rw [seenEvents, seenEvents, hseen event mem_cons_self]
    exact ih (fun later hmem => hseen later (mem_cons_of_mem _ hmem)) _ _

end Seen

section Scan

variable {State : Type} {visit : ℕ → OblogEventHeader → State → State} {checksum : Checksum}
  {file : Bytes} {pos : ℕ} {event : ObLogEvent}

theorem readHeader_typeCode (checksum : Checksum) (event : ObLogEvent) :
    (readHeader checksum event).typeCode = event.body.typeCode := by
  have hheader := event.deserialize_header checksum []
  rw [append_nil] at hheader
  rw [readHeader, hheader]

theorem readHeader_nextPosition (hbound : event.nextPosition < 2 ^ 32) :
    (readHeader checksum event).nextPosition = event.nextPosition := by
  have hheader := event.deserialize_header checksum []
  rw [append_nil] at hheader
  rw [readHeader, hheader]
  exact Nat.mod_eq_of_lt hbound

theorem readHeader_eventLength (hbound : event.eventLength checksum < 2 ^ 32) :
    (readHeader checksum event).eventLength = event.eventLength checksum := by
  have hheader := event.deserialize_header checksum []
  rw [append_nil] at hheader
  rw [readHeader, hheader]
  exact Nat.mod_eq_of_lt hbound

section Dropped

variable {part : Bytes} (hdrop : file.drop pos = part)

include hdrop

theorem readAt_header
    (hpart : part <+: event.flushToBuff checksum ∨ event.flushToBuff checksum <+: part)
    (hlength : commonHeaderLength ≤ part.length) :
    readAt file pos commonHeaderLength = some (event.header checksum).flushToBuff := by
  have hheader : (event.header checksum).flushToBuff <+: part := by
    have hevent : (event.header checksum).flushToBuff <+: event.flushToBuff checksum :=
      prefix_append _ _
    rcases hpart with hpart | hpart
    · apply prefix_of_prefix_length_le hevent hpart
      exact hlength
    · exact hevent.trans hpart
  obtain ⟨rest, hrest⟩ := hheader
  exact readAt_of_drop (hdrop.trans hrest.symm) (length_flushToBuff _)

theorem length_lt_of_drop (hpart : part ≠ []) : pos < file.length := by
  by_contra hpast
  rw [drop_eq_nil_of_le (Nat.not_lt.mp hpast)] at hdrop
  exact hpart hdrop.symm

theorem scanEvents_visit
    (hpart : part <+: event.flushToBuff checksum ∨ event.flushToBuff checksum <+: part)
    (hlength : commonHeaderLength ≤ part.length) (hbound : event.nextPosition < 2 ^ 32) (fuel : ℕ)
    (state : State) :
    scanEvents visit file (fuel + 1) pos state =
      scanEvents visit file fuel event.nextPosition
        (visit pos (readHeader checksum event) state) := by
  have hne : part ≠ [] := by
    rintro rfl
    exact absurd hlength (by decide)
  rw [scanEvents, if_pos (length_lt_of_drop hdrop hne), readAt_header hdrop hpart hlength]
  dsimp only
  rw [← readHeader, readHeader_nextPosition hbound]

end Dropped

theorem scanEvents_stop (hshort : (file.drop pos).length < commonHeaderLength) (fuel : ℕ)
    (state : State) : scanEvents visit file (fuel + 1) pos state = some (state, pos) := by
  rw [scanEvents, readAt_eq_none hshort]
  split_ifs <;> rfl

theorem scanEvents_events {seen : ℕ → ObLogEvent → State → State} {Good : ObLogEvent → Prop}
    {events : List ObLogEvent} {rest : Bytes} (hsees : Sees visit seen checksum file Good)
    (hgood : ∀ event ∈ events, Good event)
    (hdrop : file.drop pos = eventsBytes checksum events ++ rest)
    (hplaced : Placed checksum pos events) (fuel : ℕ) (state : State) :
    scanEvents visit file (events.length + fuel) pos state =
      scanEvents visit file fuel
        (pos + Tail.totalSize (ObLogEvent.eventLength checksum) events)
        (seenEvents seen checksum pos events state) := by
  induction events generalizing pos state with
  | nil => simp [seenEvents]
  | cons event events ih =>
    obtain ⟨⟨hnext, hbound⟩, hevents⟩ := hplaced
    rw [eventsBytes_cons, append_assoc] at hdrop
    have hlength : commonHeaderLength ≤ (event.flushToBuff checksum ++
        (eventsBytes checksum events ++ rest)).length := by
      rw [length_append, ObLogEvent.length_flushToBuff]
      exact Nat.le_add_right_of_le (event.commonHeaderLength_le_eventLength checksum)
    have hevent := hsees pos event _ state hdrop (by omega) hbound
      (hgood event mem_cons_self)
    have hrest := drop_add_of_drop hdrop (event.length_flushToBuff checksum)
    rw [length_cons, Nat.succ_add_eq_add_succ, Nat.add_succ, scanEvents_visit hdrop
      (Or.inr (prefix_append _ _)) hlength hbound, hnext, hevent,
      ih (fun event hmem => hgood event (mem_cons_of_mem _ hmem)) hrest hevents,
      seenEvents, Tail.totalSize_cons, Nat.add_assoc]

theorem scanEvents_complete {seen : ℕ → ObLogEvent → State → State} {Good : ObLogEvent → Prop}
    {events : List ObLogEvent} (hfile : file = binlogMagic ++ eventsBytes checksum events)
    (hsees : Sees visit seen checksum file Good) (hgood : ∀ event ∈ events, Good event)
    (hplaced : Placed checksum binlogMagicSize events) (state : State) :
    scanEvents visit file (file.length + 1) binlogMagicSize state =
      some (seenEvents seen checksum binlogMagicSize events state, file.length) := by
  have hlength : file.length =
      binlogMagicSize + Tail.totalSize (ObLogEvent.eventLength checksum) events := by
    rw [hfile, length_append, length_eventsBytes]
    rfl
  have hdrop : file.drop binlogMagicSize = eventsBytes checksum events ++ [] := by
    rw [hfile, append_nil]
    rfl
  -- every event takes at least one byte, so that there is fuel for all of them
  obtain ⟨fuel, hfuel⟩ : ∃ fuel, file.length + 1 = events.length + (fuel + 1) := by
    have hsize := Tail.length_le_totalSize _ (ObLogEvent.eventLength_pos checksum) events
    exact ⟨file.length - events.length, by omega⟩
  have hend : (file.drop file.length).length < commonHeaderLength := by
    rw [drop_length]
    decide
  rw [hfuel, scanEvents_events hsees hgood hdrop hplaced, ← hlength]
  exact scanEvents_stop hend _ _

/-- Behind the events stands a part of one more.  It is visited if its header is
there, and the scan ends. -/
theorem scanEvents_torn {part : Bytes} (hdrop : file.drop pos = part)
    (hpart : part <+: event.flushToBuff checksum) (hshort : part.length < event.eventLength checksum)
    (hnext : event.nextPosition = pos + event.eventLength checksum)
    (hbound : event.nextPosition < 2 ^ 32) (fuel : ℕ) (state : State) :
    ∃ stop, scanEvents visit file (fuel + 2) pos state =
      some (if commonHeaderLength ≤ part.length then visit pos (readHeader checksum event) state
        else state, stop) := by
  split_ifs with hlength
  · have hend : (file.drop event.nextPosition).length < commonHeaderLength := by
      rw [hnext, ← drop_drop, hdrop, length_drop]
      have hzero : part.length - event.eventLength checksum = 0 := by omega
      rw [hzero]
      decide
    exact ⟨_, (scanEvents_visit hdrop (Or.inl hpart) hlength hbound _ _).trans
      (scanEvents_stop hend _ _)⟩
  · exact ⟨pos, scanEvents_stop (hdrop ▸ Nat.not_le.mp hlength) _ _⟩

end Scan

end Scan

open ObLogEvent Tail

structure BinlogTrxOverview where
  hasPreviousGtidsEvent : Bool := false
  lastCompleteTrxEndPos : ℕ := 0
  lastCompleteTrxGtid : ℕ := 0
  trxNeedTruncatedGtid : ℕ := 0
  trxSpecifyTruncatedGtid : ℕ := 0
  trxSpecifyTruncatedEndPos : ℕ := 0
deriving DecidableEq

structure TrxScan extends BinlogTrxOverview where
  lastEventStartPos : ℕ := 0

/-- A transaction is complete: it was the one to truncate so far. -/
def BinlogTrxOverview.completeTrx (overview : BinlogTrxOverview) (endPos : ℕ) :
    BinlogTrxOverview :=
  { overview with
    lastCompleteTrxGtid := overview.trxNeedTruncatedGtid
    trxNeedTruncatedGtid := 0
    lastCompleteTrxEndPos := endPos
    trxSpecifyTruncatedEndPos :=
      if overview.trxNeedTruncatedGtid = overview.trxSpecifyTruncatedGtid then endPos
      else overview.trxSpecifyTruncatedEndPos }

def TrxScan.completeTrx (scan : TrxScan) (curPos endPos : ℕ) : TrxScan :=
  { toBinlogTrxOverview := scan.toBinlogTrxOverview.completeTrx endPos
    lastEventStartPos := curPos }

def visitTrx (checksum : Checksum) (file : Bytes) (curPos : ℕ) (header : OblogEventHeader)
    (scan : TrxScan) : TrxScan :=
  match header.typeCode with
  | .previousGtidsLogEvent =>
    { scan with
      hasPreviousGtidsEvent := true
      lastCompleteTrxEndPos := header.nextPosition
      lastEventStartPos := curPos }
  | .gtidLogEvent =>
    match readAt file curPos header.eventLength with
    | none => scan
    | some buffer =>
      { scan with trxNeedTruncatedGtid := (GtidLogEvent.deserialize buffer).gtidTxnId }
  | .queryEvent =>
    match readAt file curPos header.eventLength with
    | none => scan
    | some buffer =>
      if QueryEvent.isBegin (QueryEvent.deserialize checksum buffer).sqlStatment then scan
      else scan.completeTrx curPos header.nextPosition
  | .xidEvent => scan.completeTrx curPos header.nextPosition
  | _ => scan

/-- `verify_event_checksum`, for an event that has to exist. -/
def verifyEventChecksum (checksum : Checksum) (startPos : ℕ) (file : Bytes) : Bool :=
  match readAt file startPos commonHeaderLength with
  | none => false
  | some headerBuff =>
    let header := OblogEventHeader.deserialize headerBuff
    match readAt file startPos header.eventLength with
    | none => false
    | some buffer =>
      let checkSumPos := header.eventLength - 4
      loadLE (slice buffer checkSumPos 4) =
        (checksum.crc32 (buffer.take checkSumPos)).toNat

/-- `seek_and_verify_complete_trx`; `none` is a failure, of which an endless
loop is one. -/
def seekAndVerifyCompleteTrx (checksum : Checksum) (file : Bytes)
    (trxSpecifyTruncatedGtid : ℕ) : Option BinlogTrxOverview :=
  if slice file 0 binlogMagicSize = binlogMagic then
    match scanEvents (visitTrx checksum file) file (file.length + 1) binlogMagicSize
        { trxSpecifyTruncatedGtid } with
    | none => none
    | some (scan, _) =>
      if scan.hasPreviousGtidsEvent then
        if verifyEventChecksum checksum scan.lastEventStartPos file then
          some scan.toBinlogTrxOverview
        else none
      else some scan.toBinlogTrxOverview
  else some { trxSpecifyTruncatedGtid }

def seenTrx (curPos : ℕ) (event : ObLogEvent) (scan : TrxScan) : TrxScan :=
  match event.body with
  | .previousGtids _ =>
    { scan with
      hasPreviousGtidsEvent := true
      lastCompleteTrxEndPos := event.nextPosition
      lastEventStartPos := curPos }
  | .gtid gtid => { scan with trxNeedTruncatedGtid := gtid.gtidTxnId }
  | .query query =>
    if QueryEvent.isBegin query.sqlStatment then scan
    else scan.completeTrx curPos event.nextPosition
  | .xid _ => scan.completeTrx curPos event.nextPosition
  | _ => scan

section Complete

variable {checksum : Checksum} {file : Bytes} {pos : ℕ} {event : ObLogEvent}

/-- What the scan learns from a complete event that was written under another
checksum option: the statement of a query event is read with the current one. -/
def readTrx (current written : Checksum) (curPos : ℕ) (event : ObLogEvent) (scan : TrxScan) :
    TrxScan :=
  match event.body with
  | .query _ =>
    if QueryEvent.isBegin
        (QueryEvent.deserialize current (event.flushToBuff written)).sqlStatment then scan
    else scan.completeTrx curPos event.nextPosition
  | _ => seenTrx curPos event scan

theorem sees_readTrx (current written : Checksum) (file : Bytes) :
    Sees (visitTrx current file) (readTrx current written) written file
      fun event => event.body.Fits := by
  intro pos event rest scan hdrop hlength hnext hfits
  have hread := readAt_of_drop hdrop (event.length_flushToBuff written)
  cases hbody : event.body with
  | gtid gtid =>
    rw [hbody] at hfits
    simp only [visitTrx, readTrx, seenTrx, readHeader_typeCode, hbody, EventBody.typeCode,
      readHeader_eventLength hlength, hread, event.deserialize_gtid written hbody hfits]
  | query query =>
    simp only [visitTrx, readTrx, readHeader_typeCode, hbody, EventBody.typeCode,
      readHeader_eventLength hlength, hread, readHeader_nextPosition hnext]
  | rows kind content =>
    cases kind <;>
      simp only [visitTrx, readTrx, seenTrx, readHeader_typeCode, hbody, EventBody.typeCode,
        RowsKind.typeCode]
  | _ =>
    simp only [visitTrx, readTrx, seenTrx, readHeader_typeCode, hbody, EventBody.typeCode,
      readHeader_nextPosition hnext]

/-- The scan takes a query event for `BEGIN` exactly if it is one. -/
def Recognised (current written : Checksum) (event : ObLogEvent) : Prop :=
  ∀ query, event.body = .query query →
    QueryEvent.isBegin (QueryEvent.deserialize current (event.flushToBuff written)).sqlStatment =
      QueryEvent.isBegin query.sqlStatment

theorem readTrx_of_recognised {current written : Checksum}
    (hrecognised : Recognised current written event) (scan : TrxScan) :
    readTrx current written pos event scan = seenTrx pos event scan := by
  rw [readTrx]
  cases hbody : event.body with
  | query query => simp only [seenTrx, hbody, hrecognised query hbody]
  | _ => rfl

theorem recognised_self (hlength : event.eventLength checksum < 2 ^ 32)
    (hfits : event.body.Fits) : Recognised checksum checksum event := by
  intro query hbody
  rw [hbody] at hfits
  rw [event.deserialize_sqlStatment checksum hbody hfits hlength]

theorem sees_visitTrx (checksum : Checksum) (file : Bytes) :
    Sees (visitTrx checksum file) seenTrx checksum file fun event => event.body.Fits := by
  intro pos event rest scan hdrop hlength hnext hfits
  rw [sees_readTrx checksum checksum file pos event rest scan hdrop hlength hnext hfits,
    readTrx_of_recognised (recognised_self hlength hfits)]

/-- The last four bytes of the event are the checksum of the others. -/
def Signed (checksum : Checksum) (event : ObLogEvent) : Prop :=
  loadLE (slice (event.flushToBuff checksum) (event.eventLength checksum - 4) 4) =
    (checksum.crc32 ((event.flushToBuff checksum).take (event.eventLength checksum - 4))).toNat

theorem verifyEventChecksum_iff {rest : Bytes}
    (hdrop : file.drop pos = event.flushToBuff checksum ++ rest)
    (hlength : event.eventLength checksum < 2 ^ 32) :
    verifyEventChecksum checksum pos file = true ↔ Signed checksum event := by
  have hheader := readAt_header hdrop (Or.inr (prefix_append _ _))
    (by simpa using Nat.le_add_right_of_le (event.commonHeaderLength_le_eventLength checksum))
  have hread := readAt_of_drop hdrop (event.length_flushToBuff checksum)
  simp only [verifyEventChecksum, hheader]
  rw [← readHeader, readHeader_eventLength hlength, hread]
  exact decide_eq_true_iff

theorem signed_of_enabled (henabled : checksum.enabled = true)
    (hkind : event.kind ≠ .formatDescription) : Signed checksum event := by
  have hflags : event.signedFlags = event.flags := by
    rw [kind] at hkind
    rw [signedFlags]
    cases hbody : event.body with
    | formatDescription timestamp => simp [hbody] at hkind
    | _ => rfl
  have hsum : event.flushToBuff checksum =
      ((event.header checksum).flushToBuff ++ event.body.content checksum) ++
        storeLE 4 (checksum.crc32 ((event.header checksum).flushToBuff ++
          event.body.content checksum)).toNat := by
    simp only [flushToBuff, hflags, Checksum.write, henabled, if_true, append_assoc]
    rfl
  have hsigned : ((event.header checksum).flushToBuff ++ event.body.content checksum).length =
      event.eventLength checksum - 4 := by
    simp [eventLength, Checksum.len, henabled]
  rw [Signed, hsum, take_left' hsigned, slice, drop_left' hsigned,
    take_of_length_le (length_storeLE _ _).le, loadLE_storeLE_of_lt]
  exact UInt32.toNat_lt _

theorem verifyEventChecksum_torn {part : Bytes} (hdrop : file.drop pos = part)
    (hpart : part <+: event.flushToBuff checksum) (hheader : commonHeaderLength ≤ part.length)
    (hshort : part.length < event.eventLength checksum)
    (hlength : event.eventLength checksum < 2 ^ 32) :
    verifyEventChecksum checksum pos file = false := by
  have hnone : readAt file pos (event.eventLength checksum) = none :=
    readAt_eq_none (hdrop ▸ hshort)
  simp only [verifyEventChecksum, readAt_header hdrop (Or.inl hpart) hheader]
  rw [← readHeader, readHeader_eventLength hlength, hnone]

/-- The event that the scan ends with can be verified. -/
def TrxScan.Checked (checksum : Checksum) (file : Bytes) (scan : TrxScan) : Prop :=
  scan.hasPreviousGtidsEvent = true →
    verifyEventChecksum checksum scan.lastEventStartPos file = true

theorem TrxScan.Checked.seenTrx {scan : TrxScan} (hchecked : scan.Checked checksum file)
    (hevent : event.kind ≠ .formatDescription → verifyEventChecksum checksum pos file = true) :
    (seenTrx pos event scan).Checked checksum file := by
  rw [kind] at hevent
  rw [Recovery.seenTrx]
  cases hbody : event.body with
  | query query =>
    rw [hbody] at hevent
    have hkind : query.kind ≠ .formatDescription := by
      rcases query.kind_cases with h | h | h <;> simp [h]
    dsimp only
    split_ifs
    · exact hchecked
    · exact fun _ => hevent hkind
  | xid xid => exact fun _ => hevent (by simp [hbody])
  | previousGtids messages => exact fun _ => hevent (by simp [hbody])
  | _ => exact hchecked

theorem TrxScan.Checked.seenEvents (henabled : checksum.enabled = true)
    {events : List ObLogEvent} {rest : Bytes} {scan : TrxScan}
    (hdrop : file.drop pos = eventsBytes checksum events ++ rest)
    (hplaced : Placed checksum pos events) (hchecked : scan.Checked checksum file) :
    (seenEvents Recovery.seenTrx checksum pos events scan).Checked checksum file := by
  induction events generalizing pos scan with
  | nil => exact hchecked
  | cons event events ih =>
    obtain ⟨⟨hnext, hbound⟩, hevents⟩ := hplaced
    rw [eventsBytes_cons, append_assoc] at hdrop
    have hrest := drop_add_of_drop hdrop (event.length_flushToBuff checksum)
    apply ih hrest hevents
    apply hchecked.seenTrx
    intro hkind
    exact (verifyEventChecksum_iff hdrop (by omega)).mpr (signed_of_enabled henabled hkind)

theorem seenTrx_formatDescription (hkind : event.kind = .formatDescription) (scan : TrxScan) :
    seenTrx pos event scan = scan := by
  rw [kind] at hkind
  rw [seenTrx]
  cases hbody : event.body with
  | formatDescription timestamp => rfl
  | query query => rcases query.kind_cases with h | h | h <;> simp [hbody, h] at hkind
  | _ => simp [hbody] at hkind

theorem seenTrx_previousGtids (hkind : event.kind = .previousGtids) (scan : TrxScan) :
    seenTrx pos event scan =
      { scan with
        hasPreviousGtidsEvent := true
        lastCompleteTrxEndPos := event.nextPosition
        lastEventStartPos := pos } := by
  rw [kind] at hkind
  rw [seenTrx]
  cases hbody : event.body with
  | previousGtids messages => rfl
  | query query => rcases query.kind_cases with h | h | h <;> simp [hbody, h] at hkind
  | _ => simp [hbody] at hkind

theorem fits_of_kind (hkind : event.kind = .formatDescription ∨ event.kind = .previousGtids ∨
    event.kind = .rotate) : event.body.Fits := by
  rw [kind] at hkind
  cases hbody : event.body with
  | gtid gtid => simp [hbody] at hkind
  | query query => rcases query.kind_cases with h | h | h <;> simp [hbody, h] at hkind
  | _ => trivial

end Complete

section Transactions

variable (checksum : Checksum)

variable {pos : ℕ}

theorem seenEvents_middle {events : List ObLogEvent} (scan : TrxScan)
    (hevents : ∀ event ∈ events, event.kind = .start ∨ event.kind = .rows) :
    seenEvents seenTrx checksum pos events scan = scan := by
  induction events generalizing pos with
  | nil => rfl
  | cons event events ih =>
    have hevent : seenTrx pos event scan = scan := by
      have hkind := hevents event mem_cons_self
      rw [kind] at hkind
      rw [seenTrx]
      cases hbody : event.body with
      | query query =>
        have hstart : query.kind = .start := by
          rcases query.kind_cases with h | h | h <;> simp_all
        have hbegin : QueryEvent.isBegin query.sqlStatment = true := by
          rw [QueryEvent.kind] at hstart
          revert hstart
          cases query.isDdl <;> cases QueryEvent.isBegin query.sqlStatment <;> simp
        simp [hbegin]
      | rows kind content => rfl
      | _ => simp [hbody] at hkind
    rw [seenEvents, hevent]
    exact ih fun event hmem => hevents event (mem_cons_of_mem _ hmem)

theorem seenTrx_last {event : ObLogEvent} (scan : TrxScan)
    (hkind : event.kind = .xid ∨ event.kind = .ddl) :
    seenTrx pos event scan = scan.completeTrx pos event.nextPosition := by
  rw [kind] at hkind
  rw [seenTrx]
  cases hbody : event.body with
  | query query =>
    have hddl : query.kind = .ddl := by
      rcases query.kind_cases with h | h | h <;> simp_all
    have hbegin : QueryEvent.isBegin query.sqlStatment = false := by
      rw [QueryEvent.kind] at hddl
      revert hddl
      cases query.isDdl <;> cases QueryEvent.isBegin query.sqlStatment <;> simp
    simp [hbegin]
  | xid xid => rfl
  | _ => simp [hbody] at hkind

theorem seenEvents_opening {event : ObLogEvent} {gtid : GtidLogEvent} {middle : List ObLogEvent}
    (scan : TrxScan) (hgtid : event.body = .gtid gtid)
    (hmiddle : ∀ event ∈ middle, event.kind = .start ∨ event.kind = .rows) :
    seenEvents seenTrx checksum pos (event :: middle) scan =
      { scan with trxNeedTruncatedGtid := gtid.gtidTxnId } := by
  rw [seenEvents, seenEvents_middle checksum _ hmiddle, seenTrx, hgtid]

/-- The transaction of the number becomes the one to truncate. -/
def BinlogTrxOverview.beginTrx (overview : BinlogTrxOverview) (number : ℕ) : BinlogTrxOverview :=
  { overview with trxNeedTruncatedGtid := number }

theorem seenEvents_transaction {transaction : Transaction}
    (hplaced : Placed checksum pos transaction.events) (scan : TrxScan) :
    (seenEvents seenTrx checksum pos transaction.events scan).toBinlogTrxOverview =
      (scan.toBinlogTrxOverview.beginTrx transaction.number).completeTrx
        (pos + totalSize (eventLength checksum) transaction.events) := by
  obtain ⟨event, gtid, middle, last, hevents, hgtid, hnumber, hmiddle, hlast⟩ :=
    transaction.exists_last
  rw [hevents, ← cons_append, placed_append] at hplaced
  obtain ⟨-, ⟨hnext, -⟩, -⟩ := hplaced
  rw [hevents, ← cons_append, seenEvents_append, seenEvents_opening checksum _ hgtid hmiddle,
    seenEvents, seenEvents, seenTrx_last _ hlast, hnext, hnumber, totalSize_append,
    totalSize_cons _ last, totalSize_nil, Nat.add_zero, Nat.add_assoc]
  rfl

def lastNumber (default : ℕ) (transactions : List Transaction) : ℕ :=
  (transactions.getLast?.map number).getD default

/-- The position behind the last transaction of the number, when the first
stands at `pos`. -/
def endPosOf (number : ℕ) : ℕ → List Transaction → ℕ → ℕ
  | _, [], endPos => endPos
  | pos, transaction :: transactions, endPos =>
    let next := pos + totalSize (eventLength checksum) transaction.events
    endPosOf number next transactions (if transaction.number = number then next else endPos)

theorem lastNumber_cons (default : ℕ) (transaction : Transaction)
    (transactions : List Transaction) :
    lastNumber default (transaction :: transactions) =
      lastNumber transaction.number transactions := by
  cases transactions with
  | nil => rfl
  | cons second transactions => simp [lastNumber, getLast?_cons]

variable {transactions : List Transaction}

theorem seenEvents_transactions {scan : TrxScan}
    (hplaced : Placed checksum pos (transactions.flatMap events))
    (hneed : scan.trxNeedTruncatedGtid = 0) (hend : scan.lastCompleteTrxEndPos = pos) :
    (seenEvents seenTrx checksum pos (transactions.flatMap events)
        scan).toBinlogTrxOverview =
      { scan.toBinlogTrxOverview with
        lastCompleteTrxGtid := lastNumber scan.lastCompleteTrxGtid transactions
        lastCompleteTrxEndPos := pos + totalSize (eventLength checksum)
          (transactions.flatMap events)
        trxSpecifyTruncatedEndPos := endPosOf checksum scan.trxSpecifyTruncatedGtid pos
          transactions scan.trxSpecifyTruncatedEndPos } := by
  induction transactions generalizing pos scan with
  | nil =>
    subst hend
    rfl
  | cons transaction transactions ih =>
    rw [flatMap_cons, placed_append] at hplaced
    obtain ⟨hfirst, hrest⟩ := hplaced
    have hscan := seenEvents_transaction checksum hfirst scan
    rw [flatMap_cons, seenEvents_append, ih hrest (congrArg (·.trxNeedTruncatedGtid) hscan)
      (congrArg (·.lastCompleteTrxEndPos) hscan), hscan, lastNumber_cons,
      totalSize_append, Nat.add_assoc]
    simp only [BinlogTrxOverview.completeTrx, BinlogTrxOverview.beginTrx, endPosOf, hneed]
    rfl

section Headed

variable {formatDescription previousGtids : ObLogEvent}
  (hformat : formatDescription.kind = .formatDescription)
  (hprevious : previousGtids.kind = .previousGtids) (trxSpecifyTruncatedGtid : ℕ)

include hformat hprevious

theorem seenTrx_header
    (hplaced : Placed checksum binlogMagicSize [formatDescription, previousGtids]) :
    seenEvents seenTrx checksum binlogMagicSize [formatDescription, previousGtids]
        { trxSpecifyTruncatedGtid } =
      { hasPreviousGtidsEvent := true
        lastCompleteTrxEndPos := binlogMagicSize + totalSize
          (eventLength checksum) [formatDescription, previousGtids]
        trxSpecifyTruncatedGtid
        lastEventStartPos := binlogMagicSize + formatDescription.eventLength checksum } := by
  obtain ⟨-, ⟨hnext, -⟩, -⟩ := hplaced
  rw [seenEvents, seenTrx_formatDescription hformat, seenEvents, seenEvents,
    seenTrx_previousGtids hprevious, hnext]
  simp [Nat.add_assoc]

theorem seenTrx_complete
    (hplaced : Placed checksum binlogMagicSize ([formatDescription, previousGtids] ++
      transactions.flatMap events)) :
    (seenEvents seenTrx checksum binlogMagicSize ([formatDescription, previousGtids] ++
        transactions.flatMap events)
        { trxSpecifyTruncatedGtid }).toBinlogTrxOverview =
      { hasPreviousGtidsEvent := true
        lastCompleteTrxEndPos := binlogMagicSize + totalSize
          (eventLength checksum) ([formatDescription, previousGtids] ++
            transactions.flatMap events)
        lastCompleteTrxGtid := lastNumber 0 transactions
        trxSpecifyTruncatedGtid
        trxSpecifyTruncatedEndPos := endPosOf checksum trxSpecifyTruncatedGtid
          (binlogMagicSize + totalSize (eventLength checksum)
            [formatDescription, previousGtids]) transactions 0 } := by
  obtain ⟨hheader, htransactions⟩ := (placed_append checksum _ _ _).mp hplaced
  rw [seenEvents_append, seenTrx_header checksum hformat hprevious _ hheader,
    seenEvents_transactions checksum htransactions rfl rfl, totalSize_append,
    ← Nat.add_assoc]

end Headed

theorem endPosOf_append (number pos : ℕ) (front back : List Transaction) (endPos : ℕ) :
    endPosOf checksum number pos (front ++ back) endPos =
      endPosOf checksum number (pos + totalSize (eventLength checksum)
        (front.flatMap events)) back (endPosOf checksum number pos front endPos) := by
  induction front generalizing pos endPos with
  | nil => rfl
  | cons transaction front ih =>
    rw [cons_append, endPosOf, endPosOf, ih, flatMap_cons, totalSize_append, Nat.add_assoc]

theorem endPosOf_of_forall_ne {number : ℕ}
    (hnumbers : ∀ transaction ∈ transactions, transaction.number ≠ number) (pos endPos : ℕ) :
    endPosOf checksum number pos transactions endPos = endPos := by
  induction transactions generalizing pos endPos with
  | nil => rfl
  | cons transaction transactions ih =>
    rw [endPosOf, if_neg (hnumbers transaction mem_cons_self)]
    exact ih (fun later hmem => hnumbers later (mem_cons_of_mem _ hmem)) _ _

theorem endPosOf_eq {first number endPos : ℕ}
    (hnumbers : transactions.map Transaction.number = List.range' first transactions.length) :
    endPosOf checksum number pos transactions endPos =
      if first ≤ number ∧ number < first + transactions.length then
        pos + totalSize (eventLength checksum)
          ((transactions.take (number - first + 1)).flatMap Transaction.events)
      else endPos := by
  induction transactions generalizing first pos endPos with
  | nil => rw [if_neg (by simp), endPosOf]
  | cons transaction transactions ih =>
    obtain ⟨hfirst, hrest⟩ := cons.inj hnumbers
    simp only [endPosOf]
    rw [ih hrest, hfirst, take_succ_cons, flatMap_cons, totalSize_append, length_cons]
    by_cases hlater : first + 1 ≤ number ∧ number < first + 1 + transactions.length
    · have htake : number - first = number - (first + 1) + 1 := by omega
      rw [if_pos hlater, if_pos (by omega), htake, Nat.add_assoc]
    · rw [if_neg hlater]
      by_cases hhere : first = number
      · subst hhere
        simp
      · rw [if_neg hhere, if_neg (by omega)]

end Transactions

end OblogProxy.Recovery
