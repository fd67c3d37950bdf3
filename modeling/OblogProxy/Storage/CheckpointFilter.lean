import OblogProxy.Storage.Pipeline

/-!
# The checkpoint filter

After a restart the stream is replayed from some point at or before the
checkpoint transaction.  The allocation drops what has been stored before: it
waits for the checkpoint transaction, drops that transaction too if it is in
the binlog already, and keeps everything behind it.
-/

namespace OblogProxy.Storage

open Event Gtid Transaction List

def gtidNumber (event : ObLogEvent) : Option ℕ :=
  match event.body with
  | .gtid gtid => some gtid.gtidTxnId
  | _ => none

/-- The events of a stream that the allocation has left with `filter = false`. -/
def unfiltered (stream allocated : List ObLogEvent) : List ObLogEvent :=
  ((stream.zip allocated).filter fun pair => !pair.2.filter).map Prod.fst

def unfilteredNumbers (allocated : List ObLogEvent) : List ℕ :=
  (allocated.filter fun event => !event.filter).filterMap gtidNumber

section Filter

variable (config : Config)

variable {storage : BinlogStorage} {event : ObLogEvent}

theorem advance_of_dropped {dropped : BinlogStorage} {stamped : ObLogEvent}
    (hentry : admitEvent config storage event = (dropped, stamped, none)) :
    advance config storage event = (dropped, stamped) := by
  simp only [advance, allocateEvent, hentry]

/-- The filter state of a storage: the members that the allocation decides by. -/
def filterState (storage : BinlogStorage) : Bool × Bool × Bool × Mapping × ℕ :=
  (storage.filterUtilCheckpointTrx, storage.meetInitialTrx, storage.filterCheckpointTrx,
    storage.txnMapping, storage.txnGtidSeq)

theorem advance_of_kept {kept : BinlogStorage} {stamped : ObLogEvent} {isRotate : Bool}
    (hentry : admitEvent config storage event = (kept, stamped, some isRotate)) :
    filterState (advance config storage event).1 = filterState kept ∧
      (advance config storage event).2.filter = false ∧
      (advance config storage event).2.body = stamped.body := by
  simp only [advance, allocateEvent, hentry, placeEvent]
  cases isRotate with
  | false => exact ⟨rfl, rfl, rfl⟩
  | true =>
    refine ⟨?_, rfl, rfl⟩
    rw [rotateBinlogFile]
    split_ifs <;> rfl

theorem advance_heartbeat (storage : BinlogStorage) (hkind : event.kind = .heartbeat) :
    advance config storage event = (storage, event) := by
  obtain ⟨name, hbody⟩ := ObLogEvent.kind_eq_heartbeat.mp hkind
  apply advance_of_dropped
  simp only [admitEvent, hbody]

/-- Before the checkpoint transaction is met, other transactions are dropped. -/
structure Waiting (storage : BinlogStorage) (checkpoint : Text) (number : ℕ) : Prop where
  filterUtil : storage.filterUtilCheckpointTrx = true
  meetInitial : storage.meetInitialTrx = false
  mapping : storage.txnMapping = (checkpoint, number)
  gtidSeq : storage.txnGtidSeq = number

section Filtered

variable {storage : BinlogStorage} (hfilter : storage.filterUtilCheckpointTrx = true)

include hfilter

theorem advance_waiting_gtid (hmeet : storage.meetInitialTrx = false) (hkind : event.kind = .gtid)
    (hother : event.obTxn ≠ storage.txnMapping.1) :
    ∃ stamped, advance config storage event = (storage, stamped) ∧
      stamped.filter = event.filter := by
  obtain ⟨gtid, hbody⟩ := ObLogEvent.kind_eq_gtid.mp hkind
  refine ⟨{ event with body := .gtid { gtid with gtidTxnId := storage.txnGtidSeq } }, ?_, rfl⟩
  apply advance_of_dropped
  simp [admitEvent, hbody, hfilter, hmeet, hother]

/-- While the filter is on, what follows a dropped gtid event is dropped; a
commit behind the checkpoint's gtid event turns the filter off. -/
theorem advance_filtering (event : ObLogEvent) (hkind : event.kind ≠ .gtid) :
    advance config storage event =
      ({ storage with filterUtilCheckpointTrx :=
          !(storage.meetInitialTrx && decide (event.kind = .xid)) }, event) := by
  apply advance_of_dropped
  cases storage
  subst hfilter
  simp only [admitEvent, if_true]
  cases hbody : event.body with
  | gtid gtid => exact absurd (ObLogEvent.kind_eq_gtid.mpr ⟨gtid, hbody⟩) hkind
  | xid xid =>
    have hxid : event.kind = .xid := ObLogEvent.kind_eq_xid.mpr ⟨xid, hbody⟩
    split_ifs with hmeet <;> simp_all
  | _ =>
    have hxid : event.kind ≠ .xid := by
      rw [Ne, ObLogEvent.kind_eq_xid, hbody]
      simp
    simp [hxid]

theorem advance_filtered (hkind : event.kind ≠ .gtid)
    (hstays : storage.meetInitialTrx = false ∨ event.kind ≠ .xid) :
    advance config storage event = (storage, event) := by
  have hsame : (!(storage.meetInitialTrx && decide (event.kind = .xid))) =
      storage.filterUtilCheckpointTrx := by
    rw [hfilter]
    rcases hstays with hmeet | hxid
    · simp [hmeet]
    · simp [hxid]
  rw [advance_filtering config hfilter event hkind, hsame]

end Filtered

variable {number : ℕ}

/-- The gtid event of the checkpoint transaction, when that one is dropped. -/
theorem advance_checkpoint_dropped {checkpoint : Text}
    (hwaiting : Waiting storage checkpoint number)
    (hcheckpoint : storage.filterCheckpointTrx = true) (hkind : event.kind = .gtid)
    (hown : event.obTxn = checkpoint) :
    ∃ stamped, advance config storage event =
        ({ storage with meetInitialTrx := true, txnGtidSeq := (number + 1) % 2 ^ 64 }, stamped) ∧
      stamped.filter = event.filter := by
  obtain ⟨gtid, hbody⟩ := ObLogEvent.kind_eq_gtid.mp hkind
  refine ⟨{ event with body := .gtid { gtid with gtidTxnId := storage.txnGtidSeq } }, ?_, rfl⟩
  apply advance_of_dropped
  simp [admitEvent, hbody, hwaiting.filterUtil, hwaiting.meetInitial, hwaiting.mapping, hown,
    hwaiting.gtidSeq, hcheckpoint]

/-- The storage keeps a transaction that starts now: the filter is off, or the
checkpoint transaction lies behind, or it is the one that starts and is kept. -/
def Keeps (storage : BinlogStorage) (obTxn : Text) : Prop :=
  storage.filterUtilCheckpointTrx = false ∨
    (storage.meetInitialTrx = true ∧ storage.txnMapping.2 ≠ storage.txnGtidSeq) ∨
    (storage.txnMapping = (obTxn, storage.txnGtidSeq) ∧ storage.filterCheckpointTrx = false)

theorem admitEvent_kept_gtid {gtid : GtidLogEvent} (hbody : event.body = .gtid gtid)
    (hkeeps : Keeps storage event.obTxn) :
    ∃ kept, admitEvent config storage event =
        (kept, { event with body := .gtid { gtid with gtidTxnId := storage.txnGtidSeq } },
          some false) ∧
      kept.filterUtilCheckpointTrx = false ∧
      kept.txnGtidSeq = (storage.txnGtidSeq + 1) % 2 ^ 64 := by
  cases hfilter : storage.filterUtilCheckpointTrx with
  | false =>
    simp [admitEvent, hbody, hfilter, acceptGtid]
  | true =>
    rcases hkeeps with hoff | ⟨hmeet, hbehind⟩ | ⟨hmapping, hcheckpoint⟩
    · rw [hfilter] at hoff
      exact Bool.noConfusion hoff
    · simp [admitEvent, hbody, hfilter, hmeet, hbehind.symm, acceptGtid]
    · simp [admitEvent, hbody, hfilter, hmapping, hcheckpoint, acceptGtid]

theorem advance_kept_gtid (hkind : event.kind = .gtid) (hkeeps : Keeps storage event.obTxn) :
    (advance config storage event).1.filterUtilCheckpointTrx = false ∧
      (advance config storage event).1.txnGtidSeq = (storage.txnGtidSeq + 1) % 2 ^ 64 ∧
      (advance config storage event).2.filter = false ∧
      gtidNumber (advance config storage event).2 = some storage.txnGtidSeq := by
  obtain ⟨gtid, hbody⟩ := ObLogEvent.kind_eq_gtid.mp hkind
  obtain ⟨kept, hentry, hfilter, hseq⟩ := admitEvent_kept_gtid config hbody hkeeps
  obtain ⟨hstate, hout, hstamped⟩ := advance_of_kept config hentry
  simp only [filterState, Prod.mk.injEq] at hstate
  refine ⟨hstate.1.trans hfilter, hstate.2.2.2.2.trans hseq, hout, ?_⟩
  rw [gtidNumber, hstamped]

theorem advance_kept_body (hfilter : storage.filterUtilCheckpointTrx = false)
    (hgtid : event.kind ≠ .gtid) (hheartbeat : event.kind ≠ .heartbeat) :
    (advance config storage event).1.filterUtilCheckpointTrx = false ∧
      (advance config storage event).1.txnGtidSeq = storage.txnGtidSeq ∧
      (advance config storage event).2.filter = false ∧
      gtidNumber (advance config storage event).2 = none := by
  have hentry : ∃ kept stamped isRotate,
      admitEvent config storage event = (kept, stamped, some isRotate) ∧
        filterState kept = filterState storage ∧ gtidNumber stamped = none := by
    rw [admitEvent]
    cases hbody : event.body with
    | gtid gtid => exact absurd (ObLogEvent.kind_eq_gtid.mpr ⟨gtid, hbody⟩) hgtid
    | heartbeat name => exact absurd (ObLogEvent.kind_eq_heartbeat.mpr ⟨name, hbody⟩) hheartbeat
    | xid xid => simp [hfilter, filterState, gtidNumber]
    | _ => simp [hfilter, gtidNumber, hbody]
  obtain ⟨kept, stamped, isRotate, hentry, hkept, hnumber⟩ := hentry
  obtain ⟨hstate, hout, hstamped⟩ := advance_of_kept config hentry
  rw [hkept] at hstate
  simp only [filterState, Prod.mk.injEq] at hstate
  refine ⟨hstate.1.trans hfilter, hstate.2.2.2.2, hout, ?_⟩
  rw [gtidNumber] at hnumber ⊢
  rw [hstamped]
  exact hnumber

/-- The events of a stream that are kept, the numbers they get, and the storage
behind them. -/
structure Outcome where
  storage : BinlogStorage
  kept : List ObLogEvent
  numbers : List ℕ

def outcome (storage : BinlogStorage) (stream : List ObLogEvent) : Outcome :=
  let allocated := advanceAll config storage stream
  ⟨allocated.1, unfiltered stream allocated.2, unfilteredNumbers allocated.2⟩

@[simp]
theorem outcome_nil (storage : BinlogStorage) : outcome config storage [] = ⟨storage, [], []⟩ :=
  rfl

theorem outcome_cons_dropped (hdropped : (advance config storage event).2.filter = true)
    (stream : List ObLogEvent) :
    outcome config storage (event :: stream) =
      outcome config (advance config storage event).1 stream := by
  simp [outcome, advanceAll, unfiltered, unfilteredNumbers, hdropped]

theorem outcome_cons_kept (hkept : (advance config storage event).2.filter = false)
    (stream : List ObLogEvent) :
    outcome config storage (event :: stream) =
      ⟨(outcome config (advance config storage event).1 stream).storage,
        event :: (outcome config (advance config storage event).1 stream).kept,
        (gtidNumber (advance config storage event).2).toList ++
          (outcome config (advance config storage event).1 stream).numbers⟩ := by
  simp only [outcome, advanceAll, unfiltered, unfilteredNumbers, zip_cons_cons,
    filter_cons, hkept, Bool.not_false, if_true, map_cons, filterMap_cons]
  cases gtidNumber (advance config storage event).2 <;> rfl

theorem outcome_append (storage : BinlogStorage) (front back : List ObLogEvent) :
    outcome config storage (front ++ back) =
      ⟨(outcome config (outcome config storage front).storage back).storage,
        (outcome config storage front).kept ++
          (outcome config (outcome config storage front).storage back).kept,
        (outcome config storage front).numbers ++
          (outcome config (outcome config storage front).storage back).numbers⟩ := by
  induction front generalizing storage with
  | nil => simp
  | cons event front ih =>
    cases hfilter : (advance config storage event).2.filter with
    | false => simp [outcome_cons_kept config hfilter, ih]
    | true => simp [outcome_cons_dropped config hfilter, ih]

theorem outcome_without_heartbeats (storage : BinlogStorage) {stream : List ObLogEvent}
    (hfresh : ∀ event ∈ stream, event.filter = true) :
    outcome config storage stream =
      outcome config storage (stream.filter fun event => event.kind ≠ .heartbeat) := by
  induction stream generalizing storage with
  | nil => rfl
  | cons event stream ih =>
    obtain ⟨hevent, hstream⟩ := forall_mem_cons.mp hfresh
    by_cases hkind : event.kind = .heartbeat
    · have hadvance := advance_heartbeat config storage hkind
      rw [outcome_cons_dropped config (by rw [hadvance, hevent]), hadvance, ih storage hstream,
        filter_cons_of_neg (by simpa using hkind)]
    · rw [filter_cons_of_pos (by simpa using hkind)]
      cases hfilter : (advance config storage event).2.filter with
      | false =>
        rw [outcome_cons_kept config hfilter, outcome_cons_kept config hfilter, ih _ hstream]
      | true =>
        rw [outcome_cons_dropped config hfilter, outcome_cons_dropped config hfilter, ih _ hstream]

section Outcome

variable {storage : BinlogStorage}

section Fresh

variable (hfilter : storage.filterUtilCheckpointTrx = true) {stream : List ObLogEvent}
  (hfresh : ∀ event ∈ stream, event.filter = true)

include hfilter hfresh

/-- Nothing is kept before the checkpoint transaction. -/
theorem outcome_waiting (hmeet : storage.meetInitialTrx = false)
    (hother : ∀ event ∈ stream, event.kind = .gtid → event.obTxn ≠ storage.txnMapping.1) :
    outcome config storage stream = ⟨storage, [], []⟩ := by
  induction stream with
  | nil => rfl
  | cons event stream ih =>
    obtain ⟨hevent, hstream⟩ := forall_mem_cons.mp hfresh
    obtain ⟨hfirst, hrest⟩ := forall_mem_cons.mp hother
    have hadvance : ∃ stamped, advance config storage event = (storage, stamped) ∧
        stamped.filter = event.filter := by
      by_cases hkind : event.kind = .gtid
      · exact advance_waiting_gtid config hfilter hmeet hkind (hfirst hkind)
      · exact ⟨event, advance_filtered config hfilter hkind (Or.inl hmeet), rfl⟩
    obtain ⟨stamped, hadvance, hstamped⟩ := hadvance
    rw [outcome_cons_dropped config (by rw [hadvance, hstamped, hevent]), hadvance]
    exact ih hstream hrest

/-- The body of the checkpoint transaction up to its commit. -/
theorem outcome_passing (hbody : ∀ event ∈ stream, event.kind ≠ .gtid ∧ event.kind ≠ .xid) :
    outcome config storage stream = ⟨storage, [], []⟩ := by
  induction stream with
  | nil => rfl
  | cons event stream ih =>
    obtain ⟨hevent, hstream⟩ := forall_mem_cons.mp hfresh
    obtain ⟨⟨hgtid, hxid⟩, hrest⟩ := forall_mem_cons.mp hbody
    have hadvance := advance_filtered config hfilter hgtid (Or.inr hxid)
    rw [outcome_cons_dropped config (by rw [hadvance, hevent]), hadvance]
    exact ih hstream hrest

end Fresh

/-- The checkpoint transaction, when it is dropped, leaves a storage that keeps
whatever comes next. -/
theorem outcome_checkpoint (transaction : Transaction)
    (hwaiting : Waiting storage transaction.obTxn number)
    (hcheckpoint : storage.filterCheckpointTrx = true)
    (hfresh : ∀ event ∈ transaction.events, event.filter = true) (hnumber : number + 1 < 2 ^ 64) :
    ∃ behind, outcome config storage transaction.events = ⟨behind, [], []⟩ ∧
      behind.txnGtidSeq = number + 1 ∧ ∀ obTxn, Keeps behind obTxn := by
  obtain ⟨gtid, body, hevents, hgtid, hown, hshape⟩ := transaction.exists_gtid
  rw [hevents] at hfresh ⊢
  obtain ⟨hfirst, hbody⟩ := forall_mem_cons.mp hfresh
  obtain ⟨stamped, hadvance, hstamped⟩ :=
    advance_checkpoint_dropped config hwaiting hcheckpoint hgtid hown
  rw [outcome_cons_dropped config (by rw [hadvance, hstamped, hfirst]), hadvance,
    Nat.mod_eq_of_lt hnumber]
  have hfilter : ({ storage with meetInitialTrx := true, txnGtidSeq := number + 1 } :
      BinlogStorage).filterUtilCheckpointTrx = true := hwaiting.filterUtil
  rcases hshape with ⟨front, commit, rfl, hcommit, hfront⟩ | ⟨statement, rfl, hstatement⟩
  · -- The commit turns the filter off.
    obtain ⟨hbefore, hlast⟩ := forall_mem_append.mp hbody
    have hpassing := outcome_passing config hfilter hbefore (by
      intro event hevent
      rcases hfront event hevent with hkind | hkind <;> simp [hkind])
    have hturn := advance_filtering config hfilter commit (by simp [hcommit])
    have hdropped := outcome_cons_dropped config
      (by rw [hturn, hlast commit (mem_singleton_self _)]) []
    rw [outcome_append, hpassing]
    simp only [hdropped, hturn, outcome_nil, append_nil]
    exact ⟨_, rfl, rfl, fun _ => Or.inl (by simp [hcommit])⟩
  · -- A DDL statement leaves the filter on; the next gtid event turns it off.
    have hpassing := outcome_passing config hfilter hbody (by simp [hstatement])
    refine ⟨_, hpassing, rfl, fun _ => Or.inr (Or.inl ⟨rfl, ?_⟩)⟩
    simp [hwaiting.mapping]

theorem outcome_body (hfilter : storage.filterUtilCheckpointTrx = false) {stream : List ObLogEvent}
    (hbody : ∀ event ∈ stream, event.kind ≠ .gtid ∧ event.kind ≠ .heartbeat) :
    ∃ behind, outcome config storage stream = ⟨behind, stream, []⟩ ∧
      behind.filterUtilCheckpointTrx = false ∧ behind.txnGtidSeq = storage.txnGtidSeq := by
  induction stream generalizing storage with
  | nil => exact ⟨storage, rfl, hfilter, rfl⟩
  | cons event stream ih =>
    obtain ⟨⟨hgtid, hheartbeat⟩, hrest⟩ := forall_mem_cons.mp hbody
    obtain ⟨hstill, hseq, hkept, hnumber⟩ := advance_kept_body config hfilter hgtid hheartbeat
    obtain ⟨behind, houtcome, hoff, hsame⟩ := ih hstill hrest
    refine ⟨behind, ?_, hoff, hsame.trans hseq⟩
    rw [outcome_cons_kept config hkept, houtcome, hnumber]
    rfl

theorem outcome_kept (transaction : Transaction) (hkeeps : Keeps storage transaction.obTxn)
    (hseq : storage.txnGtidSeq + 1 < 2 ^ 64) :
    ∃ behind, outcome config storage transaction.events =
        ⟨behind, transaction.events, [storage.txnGtidSeq]⟩ ∧
      behind.filterUtilCheckpointTrx = false ∧
      behind.txnGtidSeq = storage.txnGtidSeq + 1 := by
  obtain ⟨gtid, body, hevents, hgtid, hown, hbody⟩ := transaction.exists_body
  have hinner : ∀ event ∈ body, event.kind ≠ .gtid ∧ event.kind ≠ .heartbeat :=
    fun event hevent => ⟨(hbody event hevent).1, (hbody event hevent).2.1⟩
  rw [hevents]
  rw [← hown] at hkeeps
  obtain ⟨hoff, hnext, hkept, hnumber⟩ := advance_kept_gtid config hgtid hkeeps
  obtain ⟨behind, houtcome, hstill, hsame⟩ := outcome_body config hoff hinner
  refine ⟨behind, ?_, hstill, ?_⟩
  · rw [outcome_cons_kept config hkept, houtcome, hnumber]
    rfl
  · rw [hsame, hnext, Nat.mod_eq_of_lt hseq]

theorem outcome_kept_all (transactions : List Transaction)
    (hkeeps : ∀ transaction ∈ transactions.head?, Keeps storage transaction.obTxn)
    (hseq : storage.txnGtidSeq + transactions.length < 2 ^ 64) :
    (outcome config storage (transactions.flatMap events)).kept =
        transactions.flatMap events ∧
      (outcome config storage (transactions.flatMap events)).numbers =
        range' storage.txnGtidSeq transactions.length := by
  induction transactions generalizing storage with
  | nil => exact ⟨rfl, rfl⟩
  | cons transaction transactions ih =>
    simp only [length_cons] at hseq
    obtain ⟨behind, houtcome, hoff, hnext⟩ :=
      outcome_kept config transaction (hkeeps transaction rfl) (by omega)
    obtain ⟨hkept, hnumbers⟩ := @ih behind (fun _ _ => Or.inl hoff) (by omega)
    rw [flatMap_cons, outcome_append, houtcome]
    simp only [hkept, hnumbers, hnext, length_cons, range'_succ]
    exact ⟨trivial, rfl⟩

theorem outcome_transactions {before after : List Transaction} {current : Transaction}
    (hwaiting : Waiting storage current.obTxn number)
    (hdistinct : ((before ++ current :: after).map obTxn).Nodup)
    (hfresh : ∀ event ∈ (before ++ current :: after).flatMap events, event.filter =
      true) (hnumber : number + after.length + 1 < 2 ^ 64) :
    (outcome config storage ((before ++ current :: after).flatMap events)).kept =
        (if storage.filterCheckpointTrx then after else current :: after).flatMap
          events ∧
      (outcome config storage ((before ++ current :: after).flatMap events)).numbers =
        if storage.filterCheckpointTrx then range' (number + 1) after.length
        else range' number (after.length + 1) := by
  rw [flatMap_append] at hfresh ⊢
  obtain ⟨hbefore, hrest⟩ := forall_mem_append.mp hfresh
  have hother : ∀ event ∈ before.flatMap events, event.kind = .gtid →
      event.obTxn ≠ storage.txnMapping.1 := by
    intro event hevent hkind heq
    obtain ⟨transaction, hmem, hevent⟩ := mem_flatMap.mp hevent
    rw [obTxn_of_gtid hevent hkind, hwaiting.mapping] at heq
    rw [map_append, map_cons, nodup_middle] at hdistinct
    have hmapped : transaction.obTxn ∈ before.map obTxn := mem_map_of_mem hmem
    rw [heq] at hmapped
    exact (nodup_cons.mp hdistinct).1 (mem_append_left _ hmapped)
  rw [outcome_append, outcome_waiting config hwaiting.filterUtil hbefore hwaiting.meetInitial
    hother]
  cases hcheckpoint : storage.filterCheckpointTrx with
  | true =>
    rw [flatMap_cons] at hrest ⊢
    obtain ⟨hcurrent, -⟩ := forall_mem_append.mp hrest
    obtain ⟨behind, houtcome, hseq, hkeeps⟩ := outcome_checkpoint config current hwaiting
      hcheckpoint hcurrent (by omega)
    rw [outcome_append, houtcome]
    have hafter := outcome_kept_all config after (fun transaction _ => hkeeps transaction.obTxn)
      (by omega)
    simpa [hseq] using hafter
  | false =>
    have hkeeps : Keeps storage current.obTxn := by
      refine Or.inr (Or.inr ⟨?_, hcheckpoint⟩)
      rw [hwaiting.mapping, hwaiting.gtidSeq]
    have hkept := outcome_kept_all config (current :: after)
      (by simpa using hkeeps) (by simp only [hwaiting.gtidSeq, length_cons]; omega)
    simpa [hwaiting.gtidSeq] using hkept

end Outcome

end Filter

/-- Checkpoint filtering is exact: of a stream of whole transactions with
heartbeats anywhere and cut into batches anywhere, the events left with
`filter = false` are those of the transactions behind the checkpoint, and of the
checkpoint transaction itself unless it is to be dropped; they are numbered
consecutively. -/
theorem allocateBatches_keeps_after_checkpoint (config : Config) (storage : BinlogStorage)
    (number : ℕ) (before after : List Transaction) (current : Transaction)
    (hfilter : storage.filterUtilCheckpointTrx = true) (hmeet : storage.meetInitialTrx = false)
    (hmapping : storage.txnMapping = (current.obTxn, number)) (hseq : storage.txnGtidSeq = number)
    (hdistinct : ((before ++ current :: after).map obTxn).Nodup) (batches : List (List ObLogEvent))
    (hstream : (batches.flatten.filter fun event => event.kind ≠ .heartbeat) =
      (before ++ current :: after).flatMap events)
    (hfresh : ∀ event ∈ batches.flatten, event.filter = true)
    (hnumber : number + after.length + 1 < 2 ^ 64) :
    unfiltered batches.flatten (allocateBatches config storage batches).2 =
        (if storage.filterCheckpointTrx then after else current :: after).flatMap
          events ∧
      unfilteredNumbers (allocateBatches config storage batches).2 =
        if storage.filterCheckpointTrx then range' (number + 1) after.length
        else range' number (after.length + 1) := by
  have hclean : ∀ event ∈ (before ++ current :: after).flatMap events,
      event.filter = true := by
    intro event hevent
    rw [← hstream] at hevent
    exact hfresh event (mem_of_mem_filter hevent)
  have hkept := outcome_transactions config ⟨hfilter, hmeet, hmapping, hseq⟩ hdistinct hclean
    hnumber
  rw [← hstream, ← outcome_without_heartbeats config storage hfresh] at hkept
  rw [allocateBatches_eq_advanceAll]
  exact hkept

/-- A replay that starts before a checkpoint DDL, with a heartbeat inside the
transaction behind it. -/
theorem allocateBatches_keeps_after_ddl :
    unfiltered ((smallDml ['a']).events ++ (smallDdl ['b']).events ++
        smallEvent [] (.heartbeat []) :: (smallDml ['c']).events)
      (allocateBatches
        { names := ⟨['m'], 6⟩, checksum := ⟨true, fun _ => 0⟩, maxBinlogSize := 300, serverId := 1,
          masterServerUuid := [] }
        { txnMapping := (['b'], 7), txnGtidSeq := 7 }
        [(smallDml ['a']).events ++ (smallDdl ['b']).events.take 1, (smallDdl ['b']).events.drop 1,
          smallEvent [] (.heartbeat []) :: (smallDml ['c']).events]).2 =
      (smallDml ['c']).events := by
  have hkept := (allocateBatches_keeps_after_checkpoint
    { names := ⟨['m'], 6⟩, checksum := ⟨true, fun _ => 0⟩, maxBinlogSize := 300, serverId := 1,
      masterServerUuid := [] }
    { txnMapping := (['b'], 7), txnGtidSeq := 7 } 7 [smallDml ['a']] [smallDml ['c']]
    (smallDdl ['b']) rfl rfl rfl rfl (by decide)
    [(smallDml ['a']).events ++ (smallDdl ['b']).events.take 1, (smallDdl ['b']).events.drop 1,
      smallEvent [] (.heartbeat []) :: (smallDml ['c']).events] (by decide) (by decide)
    (by decide)).1
  exact hkept

/-- The gtid event of the transaction is later than the start of the stream. -/
def laterThan (startTimestamp : ℕ) (transaction : Transaction) : Bool :=
  transaction.events.head?.any fun event => startTimestamp < event.checkpoint

def fromFirstLater (startTimestamp : ℕ) (transactions : List Transaction) : List Transaction :=
  transactions.dropWhile fun transaction => !laterThan startTimestamp transaction

/-- A stream in which the checkpoint transaction does not occur: what is kept begins with
the first later transaction exactly if there is none.  The first condition of the
allocation drops every transaction, so the branch for later ones is not reached. -/
theorem allocateBatches_endsFilter_iff (config : Config) (storage : BinlogStorage)
    (checkpoint : Text) (number : ℕ)
    (hfilter : storage.filterUtilCheckpointTrx = true) (hmeet : storage.meetInitialTrx = false)
    (hmapping : storage.txnMapping = (checkpoint, number)) (transactions : List Transaction)
    (hnever : ∀ transaction ∈ transactions, transaction.obTxn ≠ checkpoint)
    (batches : List (List ObLogEvent))
    (hstream : (batches.flatten.filter fun event => event.kind ≠ .heartbeat) =
      transactions.flatMap events)
    (hfresh : ∀ event ∈ batches.flatten, event.filter = true) :
    (unfiltered batches.flatten (allocateBatches config storage batches).2 =
          (fromFirstLater storage.startTimestamp transactions).flatMap events ∧
        ∃ first, unfilteredNumbers (allocateBatches config storage batches).2 =
          range' first (fromFirstLater storage.startTimestamp transactions).length) ↔
      ∀ transaction ∈ transactions, laterThan storage.startTimestamp transaction = false := by
  have hother : ∀ event ∈ batches.flatten, event.kind = .gtid →
      event.obTxn ≠ storage.txnMapping.1 := by
    intro event hevent hkind heq
    have hmem : event ∈ transactions.flatMap events := by
      rw [← hstream]
      exact mem_filter.mpr ⟨hevent, by simp [hkind]⟩
    obtain ⟨transaction, htransaction, hinside⟩ := mem_flatMap.mp hmem
    rw [obTxn_of_gtid hinside hkind, hmapping] at heq
    exact hnever transaction htransaction heq
  have hnothing := outcome_waiting config hfilter hfresh hmeet hother
  simp only [outcome, Outcome.mk.injEq] at hnothing
  obtain ⟨-, hkept, hnumbers⟩ := hnothing
  rw [allocateBatches_eq_advanceAll, hkept, hnumbers]
  constructor
  · rintro ⟨-, first, hlength⟩
    have hnone := range'_eq_nil_iff.mp hlength.symm
    rw [length_eq_zero_iff, fromFirstLater, dropWhile_eq_nil_iff] at hnone
    simpa using hnone
  · intro hearlier
    have hnone : fromFirstLater storage.startTimestamp transactions = [] := by
      rw [fromFirstLater, dropWhile_eq_nil_iff]
      simpa using hearlier
    rw [hnone]
    exact ⟨rfl, storage.txnGtidSeq, rfl⟩

def waitingConfig : Config :=
  { names := ⟨['m'], 6⟩, checksum := ⟨true, fun _ => 0⟩, maxBinlogSize := 300, serverId := 1,
    masterServerUuid := [] }

def waitingStorage : BinlogStorage :=
  { txnMapping := (['c'], 7), txnGtidSeq := 7, startTimestamp := 5 }

/-- Nothing is to be kept of a transaction that is not later. -/
theorem allocateBatches_endsFilter_earlier :
    unfiltered (smallDml ['d']).events
        (allocateBatches waitingConfig waitingStorage [(smallDml ['d']).events]).2 = [] :=
  ((allocateBatches_endsFilter_iff waitingConfig waitingStorage ['c'] 7 rfl rfl rfl
    [smallDml ['d']] (by decide) [(smallDml ['d']).events] (by decide) (by decide)).mpr
      (by decide)).1

def laterDdl : Transaction :=
  ⟨[{ smallGtid ['d'] with checkpoint := 10 },
    smallEvent [] (.query ⟨0, 0, 0, [], [], [68], true⟩)], IsTransaction.ddl rfl rfl⟩

/-- A later transaction is dropped, and the filter stays on. -/
theorem allocateBatches_drops_later :
    laterThan waitingStorage.startTimestamp laterDdl = true ∧ laterDdl.obTxn ≠ ['c'] ∧
      unfiltered laterDdl.events
        (allocateBatches waitingConfig waitingStorage [laterDdl.events]).2 = [] ∧
      (allocateBatches waitingConfig waitingStorage [laterDdl.events]).1.filterUtilCheckpointTrx =
        true := by
  decide

end OblogProxy.Storage
