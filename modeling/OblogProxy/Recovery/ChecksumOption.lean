import OblogProxy.Recovery.TornFile

/-!
# The scan under another checksum option

`seek_and_verify_complete_trx` always verifies the last event, and it cuts the
checksum off a statement by the option that is set now, not by the one that the
file was written under.  A file is therefore recovered under both settings only
if its last event happens to be signed and every `BEGIN` is still told apart from
a statement when it is read with the wrong length.
-/

namespace OblogProxy.Recovery

open Bytes Event ObLogEvent List Tail Transaction

/-- A file that was written under one setting of the option and that ends behind a
transaction. -/
structure WrittenFile (written : Checksum) where
  formatDescription : ObLogEvent
  previousGtids : ObLogEvent
  transactions : List Transaction
  formatDescription_kind : formatDescription.kind = .formatDescription
  previousGtids_kind : previousGtids.kind = .previousGtids
  placed : Placed written binlogMagicSize (formatDescription :: previousGtids ::
    transactions.flatMap events)
  fits : ∀ transaction ∈ transactions, ∀ event ∈ transaction.events, event.body.Fits
  /-- A statement is at least as long as the checksum that may be cut off, so that
  its length does not wrap around. -/
  statement_length : ∀ transaction ∈ transactions, ∀ event ∈ transaction.events,
    ∀ query, event.body = .query query → 4 ≤ query.sqlStatment.length
  number_pos : ∀ transaction ∈ transactions, 0 < transaction.number
  distinct : (transactions.map number).Nodup

/-- The option of `binlog_checksum` is changed. -/
def setOption (checksum : Checksum) (enabled : Bool) : Checksum :=
  { checksum with enabled }

/-! ## Where a transaction ends

The scan that looks for the end of one transaction finds it only if it recognises
the query event of that transaction. -/

variable {event : ObLogEvent}

section Sought

variable {current written : Checksum} {number endPos pos : ℕ} {scan : TrxScan}

/-- The scan looks for the end of the transaction `number`, and so far it is at
`endPos`. -/
structure Sought (number endPos : ℕ) (scan : TrxScan) : Prop where
  specify : scan.trxSpecifyTruncatedGtid = number
  found : scan.trxSpecifyTruncatedEndPos = endPos

theorem recognised_of_kind (hstart : event.kind ≠ .start) (hddl : event.kind ≠ .ddl)
    (hother : event.kind ≠ .otherQuery) : Recognised current written event := by
  intro query hbody
  rw [kind, hbody] at hstart hddl hother
  rcases query.kind_cases with hkind | hkind | hkind
  · exact absurd hkind hstart
  · exact absurd hkind hddl
  · exact absurd hkind hother

theorem specify_seenEvents (current written : Checksum) (pos : ℕ) (events : List ObLogEvent)
    (scan : TrxScan) :
    (seenEvents (readTrx current written) written pos events scan).trxSpecifyTruncatedGtid =
      scan.trxSpecifyTruncatedGtid := by
  induction events generalizing pos scan with
  | nil => rfl
  | cons event events ih =>
    rw [seenEvents, ih, readTrx]
    cases hbody : event.body with
    | query query =>
      split_ifs <;> rfl
    | _ => simp only [seenTrx, hbody, TrxScan.completeTrx, BinlogTrxOverview.completeTrx]

section Sought

variable (hsought : Sought number endPos scan) (hpos : 0 < number)
  (hneed : scan.trxNeedTruncatedGtid ≠ number)

include hsought hpos hneed

/-- No event of another transaction moves the end. -/
theorem Sought.readTrx_body (hkind : event.kind ≠ .gtid) :
    Sought number endPos (readTrx current written pos event scan) ∧
      (readTrx current written pos event scan).trxNeedTruncatedGtid ≠ number := by
  obtain ⟨rfl, rfl⟩ := hsought
  have hcomplete : Sought scan.trxSpecifyTruncatedGtid scan.trxSpecifyTruncatedEndPos
      (scan.completeTrx pos event.nextPosition) ∧
        (scan.completeTrx pos event.nextPosition).trxNeedTruncatedGtid ≠
          scan.trxSpecifyTruncatedGtid := by
    refine ⟨⟨rfl, ?_⟩, ?_⟩
    · simp [TrxScan.completeTrx, BinlogTrxOverview.completeTrx, hneed]
    · exact Nat.ne_of_lt hpos
  rw [kind] at hkind
  rw [readTrx]
  cases hbody : event.body with
  | gtid gtid => simp [hbody] at hkind
  | query query =>
    split_ifs
    · exact ⟨⟨rfl, rfl⟩, hneed⟩
    · exact hcomplete
  | xid xid =>
    simp only [seenTrx, hbody]
    exact hcomplete
  | _ =>
    simp only [seenTrx, hbody]
    exact ⟨⟨rfl, rfl⟩, hneed⟩

theorem Sought.seenEvents_body {events : List ObLogEvent}
    (hkinds : ∀ event ∈ events, event.kind ≠ .gtid) :
    Sought number endPos (seenEvents (readTrx current written) written pos events scan) := by
  induction events generalizing pos scan with
  | nil => exact hsought
  | cons event events ih =>
    obtain ⟨hafter, hneedAfter⟩ := hsought.readTrx_body hpos hneed
      (hkinds event mem_cons_self)
    exact ih hafter hneedAfter fun later hmem => hkinds later (mem_cons_of_mem _ hmem)

end Sought

theorem Sought.readTrx_gtid {event : ObLogEvent} {gtid : GtidLogEvent}
    (hsought : Sought number endPos scan) (hbody : event.body = .gtid gtid) :
    Sought number endPos (readTrx current written pos event scan) ∧
      (readTrx current written pos event scan).trxNeedTruncatedGtid = gtid.gtidTxnId := by
  rw [readTrx, hbody]
  simp only [seenTrx, hbody]
  exact ⟨⟨hsought.specify, hsought.found⟩, trivial⟩

theorem Sought.seenEvents_other {transaction : Transaction}
    (hsought : Sought number endPos scan) (hpos : 0 < number)
    (hnumber : transaction.number ≠ number) :
    Sought number endPos
      (seenEvents (readTrx current written) written pos transaction.events scan) := by
  obtain ⟨event, gtid, middle, last, hevents, hgtid, hown, hmiddle, hlast⟩ :=
    transaction.exists_last
  obtain ⟨hafter, hneed⟩ := hsought.readTrx_gtid hgtid
  rw [hevents, seenEvents]
  apply hafter.seenEvents_body hpos
  · rw [hneed, ← hown]
    exact hnumber
  · intro later hmem
    rw [mem_append, mem_singleton] at hmem
    rcases hmem with hmem | rfl
    · rcases hmiddle later hmem with hkind | hkind <;> simp [hkind]
    · rcases hlast with hkind | hkind <;> simp [hkind]

theorem Sought.seenEvents_others {transactions : List Transaction}
    (hsought : Sought number endPos scan) (hpos : 0 < number)
    (hnumbers : ∀ transaction ∈ transactions, transaction.number ≠ number) :
    Sought number endPos (seenEvents (readTrx current written) written pos
      (transactions.flatMap events) scan) := by
  induction transactions generalizing pos scan with
  | nil => exact hsought
  | cons transaction transactions ih =>
    rw [flatMap_cons, seenEvents_append]
    apply ih _ fun later hmem => hnumbers later (mem_cons_of_mem _ hmem)
    exact hsought.seenEvents_other hpos (hnumbers transaction mem_cons_self)

/-- A `BEGIN` that is not recognised is taken for the end of its transaction. -/
theorem Sought.recognised_start {gtid start : ObLogEvent} {rest : List ObLogEvent}
    {content : GtidLogEvent} (hsought : Sought number endPos scan) (hpos : 0 < number)
    (hgtid : gtid.body = .gtid content) (hnumber : content.gtidTxnId = number)
    (hstart : start.kind = .start) (hrest : ∀ event ∈ rest, event.kind ≠ .gtid)
    (hne : rest ≠ []) (hplaced : Placed written pos (gtid :: start :: rest))
    (hfound : (seenEvents (readTrx current written) written pos
      (gtid :: start :: rest) scan).trxSpecifyTruncatedEndPos =
        pos + totalSize (eventLength written) (gtid :: start :: rest)) :
    Recognised current written start := by
  obtain ⟨-, ⟨hnext, -⟩, -⟩ := hplaced
  obtain ⟨hopened, hneed⟩ := @Sought.readTrx_gtid current written _ _ pos _ _ _ hsought hgtid
  intro query hbody
  rw [kind, hbody] at hstart
  have hbegin : QueryEvent.isBegin query.sqlStatment = true := by
    simp only [QueryEvent.kind] at hstart
    revert hstart
    cases query.isDdl <;> cases QueryEvent.isBegin query.sqlStatment <;> simp
  rw [hbegin]
  by_contra hmissed
  rw [seenEvents, seenEvents] at hfound
  generalize readTrx current written pos gtid scan = opened at hopened hneed hfound
  have hended : readTrx current written (pos + gtid.eventLength written) start opened =
      opened.completeTrx (pos + gtid.eventLength written) start.nextPosition := by
    rw [readTrx, hbody]
    exact if_neg hmissed
  have hsoughtEnd : Sought number start.nextPosition
      (opened.completeTrx (pos + gtid.eventLength written) start.nextPosition) := by
    refine ⟨hopened.specify, ?_⟩
    simp [TrxScan.completeTrx, BinlogTrxOverview.completeTrx, hneed, hnumber, hopened.specify]
  rw [hended, (hsoughtEnd.seenEvents_body hpos (Nat.ne_of_lt hpos) hrest).found, hnext] at hfound
  -- the rest of the transaction has some length
  obtain ⟨event, events, rfl⟩ := exists_cons_of_ne_nil hne
  have hlength := event.eventLength_pos written
  simp only [totalSize_cons] at hfound
  omega

/-- A statement that is taken for a `BEGIN` does not end its transaction. -/
theorem Sought.recognised_statement {gtid statement : ObLogEvent} {content : GtidLogEvent}
    (hsought : Sought number endPos scan) (hgtid : gtid.body = .gtid content)
    (hstatement : statement.kind = .ddl) (hfound : (seenEvents (readTrx current written) written pos
      [gtid, statement] scan).trxSpecifyTruncatedEndPos ≠ endPos) :
    Recognised current written statement := by
  obtain ⟨hopened, -⟩ := @Sought.readTrx_gtid current written _ _ pos _ _ _ hsought hgtid
  intro query hbody
  rw [kind, hbody] at hstatement
  have hbegin : QueryEvent.isBegin query.sqlStatment = false := by
    simp only [QueryEvent.kind] at hstatement
    revert hstatement
    cases query.isDdl <;> cases QueryEvent.isBegin query.sqlStatment <;> simp
  rw [hbegin]
  by_contra hmissed
  rw [seenEvents, seenEvents, seenEvents] at hfound
  apply hfound
  rw [readTrx, hbody]
  rw [if_pos (Bool.not_eq_false _ ▸ hmissed)]
  exact hopened.found

theorem Sought.recognised_transaction {transaction : Transaction}
    (hsought : Sought transaction.number endPos scan) (hpos : 0 < transaction.number)
    (hplaced : Placed written pos transaction.events) (hend : endPos ≠
      pos + totalSize (eventLength written) transaction.events)
    (hfound : (seenEvents (readTrx current written) written pos transaction.events
      scan).trxSpecifyTruncatedEndPos =
        pos + totalSize (eventLength written) transaction.events) :
    ∀ event ∈ transaction.events, Recognised current written event := by
  obtain ⟨events, hshape⟩ := transaction
  cases hshape with
  | @dml gtid start commit rows hgtid hstart hrows hcommit =>
    obtain ⟨content, hcontent⟩ := kind_eq_gtid.mp hgtid
    have hrest : ∀ event ∈ rows ++ [commit], event.kind = .rows ∨ event.kind = .xid := by
      intro event hmem
      rw [mem_append, mem_singleton] at hmem
      rcases hmem with hmem | rfl
      · exact Or.inl (hrows event hmem)
      · exact Or.inr hcommit
    have hrecognised := hsought.recognised_start hpos hcontent
      (by simp [number, hcontent]) hstart
      (fun event hmem => by rcases hrest event hmem with h | h <;> simp [h]) (by simp) hplaced
      hfound
    intro event hmem
    rcases mem_cons.mp hmem with rfl | hmem
    · exact recognised_of_kind (by simp [hgtid]) (by simp [hgtid]) (by simp [hgtid])
    · rcases mem_cons.mp hmem with rfl | hmem
      · exact hrecognised
      · rcases hrest event hmem with h | h <;>
          exact recognised_of_kind (by simp [h]) (by simp [h]) (by simp [h])
  | @ddl gtid statement hgtid hstatement =>
    obtain ⟨content, hcontent⟩ := kind_eq_gtid.mp hgtid
    have hrecognised := hsought.recognised_statement hcontent hstatement
      (fun heq => hend (heq.symm.trans hfound))
    intro event hmem
    rcases mem_cons.mp hmem with rfl | hmem
    · exact recognised_of_kind (by simp [hgtid]) (by simp [hgtid]) (by simp [hgtid])
    · exact mem_singleton.mp hmem ▸ hrecognised

end Sought

namespace WrittenFile

variable {written : Checksum} (file : WrittenFile written)

def header : List ObLogEvent :=
  [file.formatDescription, file.previousGtids]

def events : List ObLogEvent :=
  file.header ++ file.transactions.flatMap Transaction.events

def bytes : Bytes :=
  binlogMagic ++ eventsBytes written file.events

def headerEnd : ℕ :=
  binlogMagicSize + totalSize (eventLength written) file.header

def overview (trxSpecifyTruncatedGtid : ℕ) : BinlogTrxOverview :=
  { hasPreviousGtidsEvent := true
    lastCompleteTrxEndPos := file.bytes.length
    lastCompleteTrxGtid := lastNumber 0 file.transactions
    trxSpecifyTruncatedGtid
    trxSpecifyTruncatedEndPos := endPosOf written trxSpecifyTruncatedGtid file.headerEnd
      file.transactions 0 }

def lastEvent : ObLogEvent :=
  (file.previousGtids :: file.transactions.flatMap Transaction.events).getLast (by simp)

theorem exists_front : ∃ front, file.events = front ++ [file.lastEvent] :=
  ⟨file.formatDescription ::
    (file.previousGtids :: file.transactions.flatMap Transaction.events).dropLast, by
      rw [cons_append, lastEvent, dropLast_append_getLast, events, header]
      rfl⟩

theorem lastEvent_kind : file.lastEvent.kind = .previousGtids ∨ file.lastEvent.kind = .xid ∨
    file.lastEvent.kind = .ddl := by
  rw [lastEvent]
  rcases eq_nil_or_concat file.transactions with hempty | ⟨front, transaction, hconcat⟩
  · simp only [hempty, flatMap_nil, getLast_singleton]
    exact Or.inl file.previousGtids_kind
  · obtain ⟨event, gtid, middle, last, hevents, -, -, -, hlast⟩ := transaction.exists_last
    have hend : file.previousGtids :: file.transactions.flatMap Transaction.events =
        (file.previousGtids :: front.flatMap Transaction.events ++ event :: middle) ++ [last] := by
      rw [hconcat, concat_eq_append, flatMap_append, flatMap_singleton, hevents]
      simp
    simp only [hend, getLast_append_singleton]
    exact Or.inr hlast

theorem length_bytes : file.bytes.length =
    binlogMagicSize + totalSize (eventLength written) file.events := by
  rw [bytes, length_append, length_eventsBytes]
  rfl

theorem drop_bytes : file.bytes.drop binlogMagicSize = eventsBytes written file.events ++ [] := by
  rw [append_nil]
  rfl

theorem fits_events (hmem : event ∈ file.events) : event.body.Fits := by
  simp only [events, header, mem_append, mem_cons, not_mem_nil, or_false, mem_flatMap] at hmem
  rcases hmem with (rfl | rfl) | ⟨transaction, htransaction, hevent⟩
  · exact fits_of_kind (Or.inl file.formatDescription_kind)
  · exact fits_of_kind (Or.inr (Or.inl file.previousGtids_kind))
  · exact file.fits transaction htransaction event hevent

theorem placed_events : Placed written binlogMagicSize file.events :=
  file.placed

theorem scanEvents_bytes (current : Checksum) (scan : TrxScan) :
    scanEvents (visitTrx current file.bytes) file.bytes (file.bytes.length + 1)
        binlogMagicSize scan =
      some (seenEvents (readTrx current written) written binlogMagicSize file.events scan,
        file.bytes.length) :=
  scanEvents_complete rfl (sees_readTrx current written file.bytes)
    (fun _ => file.fits_events) file.placed_events scan

theorem seekAndVerifyCompleteTrx_bytes (current : Checksum) (trxSpecifyTruncatedGtid : ℕ) :
    seekAndVerifyCompleteTrx current file.bytes trxSpecifyTruncatedGtid =
      let scan := seenEvents (readTrx current written) written binlogMagicSize file.events
        { trxSpecifyTruncatedGtid }
      if scan.hasPreviousGtidsEvent then
        if verifyEventChecksum current scan.lastEventStartPos file.bytes then
          some scan.toBinlogTrxOverview
        else none
      else some scan.toBinlogTrxOverview := by
  have hmagic : slice file.bytes 0 binlogMagicSize = binlogMagic := rfl
  rw [seekAndVerifyCompleteTrx, if_pos hmagic, file.scanEvents_bytes]

theorem seenEvents_events (trxSpecifyTruncatedGtid : ℕ) :
    (seenEvents seenTrx written binlogMagicSize file.events
      { trxSpecifyTruncatedGtid }).toBinlogTrxOverview =
        file.overview trxSpecifyTruncatedGtid := by
  rw [overview, length_bytes]
  exact seenTrx_complete written file.formatDescription_kind file.previousGtids_kind
    trxSpecifyTruncatedGtid file.placed_events

theorem lastEventStartPos_seenEvents {front : List ObLogEvent}
    (hfront : file.events = front ++ [file.lastEvent]) (scan : TrxScan) :
    (seenEvents seenTrx written binlogMagicSize file.events scan).lastEventStartPos =
      binlogMagicSize + totalSize (eventLength written) front := by
  rw [hfront, seenEvents_append, seenEvents, seenEvents]
  rcases file.lastEvent_kind with hkind | hkind
  · rw [seenTrx_previousGtids hkind]
  · rw [seenTrx_last _ hkind]
    rfl

theorem verifyEventChecksum_lastEvent {front : List ObLogEvent}
    (hfront : file.events = front ++ [file.lastEvent]) (enabled : Bool) :
    verifyEventChecksum (setOption written enabled)
        (binlogMagicSize + totalSize (eventLength written) front) file.bytes =
          true ↔ Signed written file.lastEvent := by
  have hplaced := file.placed_events
  rw [hfront, placed_append] at hplaced
  obtain ⟨-, ⟨hnext, hbound⟩, -⟩ := hplaced
  have hdrop : file.bytes.drop (binlogMagicSize +
      totalSize (eventLength written) front) =
        file.lastEvent.flushToBuff written ++ [] := by
    have hbytes := file.drop_bytes
    rw [hfront, eventsBytes_append, append_assoc] at hbytes
    simpa using drop_add_of_drop hbytes (length_eventsBytes written front)
  -- the verification does not look at the option
  rw [show verifyEventChecksum (setOption written enabled) = verifyEventChecksum written from rfl]
  exact verifyEventChecksum_iff hdrop (by omega)

/-- If the query events are recognised, the scan depends on the last event only. -/
theorem seekAndVerifyCompleteTrx_recognised {enabled : Bool}
    (hrecognised : ∀ event ∈ file.events, Recognised (setOption written enabled) written event)
    (trxSpecifyTruncatedGtid : ℕ) :
    seekAndVerifyCompleteTrx (setOption written enabled) file.bytes trxSpecifyTruncatedGtid =
        some (file.overview trxSpecifyTruncatedGtid) ↔ Signed written file.lastEvent := by
  obtain ⟨front, hfront⟩ := file.exists_front
  have hseen := seenEvents_congr (readTrx (setOption written enabled) written) written
    (fun event hmem pos scan => readTrx_of_recognised (hrecognised event hmem) scan)
    binlogMagicSize { trxSpecifyTruncatedGtid }
  have hoverview := file.seenEvents_events trxSpecifyTruncatedGtid
  have hprevious : (seenEvents seenTrx written binlogMagicSize file.events
      { trxSpecifyTruncatedGtid }).hasPreviousGtidsEvent = true :=
    congrArg (·.hasPreviousGtidsEvent) hoverview
  rw [seekAndVerifyCompleteTrx_bytes, hseen, ← verifyEventChecksum_lastEvent file hfront enabled]
  rw [if_pos hprevious, file.lastEventStartPos_seenEvents hfront, hoverview]
  split_ifs with hverify <;> simp [hverify]

theorem recognised_header (current : Checksum) :
    ∀ event ∈ file.header, Recognised current written event := by
  intro event hmem
  simp only [header, mem_cons, not_mem_nil, or_false] at hmem
  rcases hmem with rfl | rfl
  · exact recognised_of_kind (by simp [file.formatDescription_kind])
      (by simp [file.formatDescription_kind]) (by simp [file.formatDescription_kind])
  · exact recognised_of_kind (by simp [file.previousGtids_kind])
      (by simp [file.previousGtids_kind]) (by simp [file.previousGtids_kind])

theorem sought_header (current : Checksum) (number : ℕ) :
    Sought number 0 (seenEvents (readTrx current written) written binlogMagicSize file.header
      { trxSpecifyTruncatedGtid := number }) := by
  rw [seenEvents_congr (readTrx current written) written fun event hmem pos scan =>
    readTrx_of_recognised (file.recognised_header current event hmem) scan]
  rw [header, seenEvents, seenTrx_formatDescription file.formatDescription_kind, seenEvents,
    seenEvents, seenTrx_previousGtids file.previousGtids_kind]
  exact ⟨rfl, rfl⟩

/-- If the scan reports every transaction's end, it recognises every query event. -/
theorem recognised_of_overview {current : Checksum}
    (hoverview : ∀ trxSpecifyTruncatedGtid, (seenEvents (readTrx current written) written
      binlogMagicSize file.events { trxSpecifyTruncatedGtid }).toBinlogTrxOverview =
        file.overview trxSpecifyTruncatedGtid) :
    ∀ event ∈ file.events, Recognised current written event := by
  intro event hmem
  rw [events, mem_append, mem_flatMap] at hmem
  rcases hmem with hmem | ⟨transaction, htransaction, hevent⟩
  · exact file.recognised_header current event hmem
  · have hpos := file.number_pos transaction htransaction
    obtain ⟨front, back, hsplit⟩ := append_of_mem htransaction
    have hdistinct := file.distinct
    rw [hsplit, map_append, map_cons, nodup_append, nodup_cons] at hdistinct
    obtain ⟨-, ⟨hback, -⟩, hfront⟩ := hdistinct
    have hlater : ∀ later ∈ back, later.number ≠ transaction.number :=
      fun later hmem heq => hback (heq ▸ mem_map_of_mem hmem)
    have hearlier : ∀ earlier ∈ front, earlier.number ≠ transaction.number :=
      fun earlier hmem => hfront _ (mem_map_of_mem hmem) _ mem_cons_self
    have hplaced := file.placed_events
    have hfound := congrArg (·.trxSpecifyTruncatedEndPos) (hoverview transaction.number)
    simp only [events, overview, hsplit, flatMap_append, flatMap_cons] at hplaced hfound
    rw [placed_append, placed_append, placed_append] at hplaced
    rw [seenEvents_append, seenEvents_append, seenEvents_append, endPosOf_append, endPosOf,
      if_pos rfl, endPosOf_of_forall_ne written hlater, headerEnd] at hfound
    have hsought := @Sought.seenEvents_others current written _ _
      (binlogMagicSize + totalSize (eventLength written) file.header) _ _
      (file.sought_header current transaction.number) hpos hearlier
    generalize seenEvents (readTrx current written) written _ (front.flatMap Transaction.events) _ =
      scan at hsought hfound
    have hstart : 0 < binlogMagicSize +
        totalSize (eventLength written) file.header +
        totalSize (eventLength written) (front.flatMap Transaction.events) := by
      rw [binlogMagicSize]
      omega
    have hown := hplaced.2.2.1
    generalize binlogMagicSize + totalSize (eventLength written) file.header +
      totalSize (eventLength written) (front.flatMap Transaction.events) = pos
        at hstart hown hfound
    -- the transactions behind it leave the end as it is
    have hbehind := @Sought.seenEvents_others current written _ _
      (pos + totalSize (eventLength written) transaction.events) _ _
      ⟨(specify_seenEvents current written pos transaction.events scan).trans hsought.specify,
        rfl⟩ hpos hlater
    rw [hbehind.found] at hfound
    exact hsought.recognised_transaction hpos hown (by omega) hfound event hevent

/-- A file is recovered under both settings of the option, whichever transaction is
looked for, exactly if its last event is signed and its query events are recognised
under both. -/
theorem seekAndVerifyCompleteTrx_setOption_iff (written : Checksum) (file : WrittenFile written) :
    (∀ enabled trxSpecifyTruncatedGtid,
        seekAndVerifyCompleteTrx (setOption written enabled) file.bytes trxSpecifyTruncatedGtid =
          some (file.overview trxSpecifyTruncatedGtid)) ↔
      Signed written file.lastEvent ∧
        ∀ enabled, ∀ event ∈ file.events,
          Recognised (setOption written enabled) written event := by
  constructor
  · intro hscan
    have hrecognised : ∀ enabled, ∀ event ∈ file.events,
        Recognised (setOption written enabled) written event := by
      intro enabled
      apply file.recognised_of_overview
      intro trxSpecifyTruncatedGtid
      have hfound := hscan enabled trxSpecifyTruncatedGtid
      rw [seekAndVerifyCompleteTrx_bytes] at hfound
      dsimp only at hfound
      split_ifs at hfound <;> exact Option.some.inj hfound
    exact ⟨(file.seekAndVerifyCompleteTrx_recognised (hrecognised true) 0).mp (hscan true 0),
      hrecognised⟩
  · rintro ⟨hsigned, hrecognised⟩ enabled trxSpecifyTruncatedGtid
    exact (file.seekAndVerifyCompleteTrx_recognised (hrecognised enabled) _).mpr hsigned

end WrittenFile

/-- One bit of the division that `crc32` is the remainder of. -/
def crc32Bit (crc : ℕ) : ℕ :=
  if crc % 2 = 1 then (crc / 2) ^^^ 0xEDB88320 else crc / 2

/-- The function `crc32` of zlib. -/
def crc32 (buff : Bytes) : UInt32 :=
  UInt32.ofNat
    (buff.foldl (fun crc byte => crc32Bit^[8] (crc ^^^ byte.toNat)) 0xFFFFFFFF ^^^ 0xFFFFFFFF)

/-- The check value of the algorithm, for the text `123456789`. -/
example : crc32 [49, 50, 51, 52, 53, 54, 55, 56, 57] = 0xCBF43926 := by
  decide +kernel

def signedFile : WrittenFile ⟨true, crc32⟩ where
  formatDescription := sampleFormatDescription
  previousGtids := samplePreviousGtids
  transactions := [sampleTransaction 155 1]
  formatDescription_kind := sampleFormatDescription_kind
  previousGtids_kind := samplePreviousGtids_kind
  placed := by decide
  fits := by
    intro transaction hmem event hevent
    rw [mem_singleton] at hmem
    subst hmem
    exact fits_sampleTransaction 155 (by decide) hevent
  statement_length := by
    simp [sampleTransaction, QueryEvent.beginVar]
  number_pos := by decide
  distinct := by decide

def unsignedFile : WrittenFile ⟨false, crc32⟩ where
  formatDescription := { sampleFormatDescription with nextPosition := 120 }
  previousGtids := { samplePreviousGtids with nextPosition := 147 }
  transactions := []
  formatDescription_kind := rfl
  previousGtids_kind := rfl
  placed := by decide
  fits := by simp
  statement_length := by simp
  number_pos := by simp
  distinct := nodup_nil

/-- With checksums switched off again, the scan of the signed file takes `BEGIN` for
the end of transaction 1 and the commit for the end of a transaction 0.  The scan of
the unsigned file fails under both settings. -/
theorem seekAndVerifyCompleteTrx_signedFile :
    seekAndVerifyCompleteTrx (setOption ⟨true, crc32⟩ true) signedFile.bytes 1 =
        some ⟨true, 293, 1, 0, 1, 293⟩ ∧
      seekAndVerifyCompleteTrx (setOption ⟨true, crc32⟩ false) signedFile.bytes 1 =
        some ⟨true, 293, 0, 0, 1, 262⟩ ∧
      seekAndVerifyCompleteTrx (setOption ⟨false, crc32⟩ true) unsignedFile.bytes 1 = none ∧
      seekAndVerifyCompleteTrx (setOption ⟨false, crc32⟩ false) unsignedFile.bytes 1 = none := by
  decide +kernel

end OblogProxy.Recovery
