import OblogProxy.Storage.StoreTransactions

/-!
# The numbers an instance has given

Between two transactions the storage has a number for the next one that it keeps, the
current file has consecutive numbers behind those of its header, and the index record
names the last two transactions.  A storage that waits for a transaction may number it
again, or it may still wait for the initial one, whose number the record has already.
-/

namespace OblogProxy.Storage

open Bytes Event Gtid Transaction List BinlogIndex

/-- The next transaction that is kept gets the number. -/
def Next (storage : BinlogStorage) (number : ℕ) : Prop :=
  (storage.txnGtidSeq = number ∧ ∀ obTxn, Keeps storage obTxn) ∨
    ∃ checkpoint waited, Waiting storage checkpoint waited ∧
      number = if storage.filterCheckpointTrx then waited + 1 else waited

/-- The storage has given `count` numbers from `first` on in a file that begins with the
numbers up to `before`. -/
structure Counts (config : Config) (storage : BinlogStorage) (before first count : ℕ) : Prop where
  previousGtids : storage.previousGtidMessages = gtidsUpTo config.masterServerUuid before
  firstGtidSeq : storage.firstGtidSeq = if count = 0 then 0 else first
  positive : 0 < first
  le_first : before ≤ first
  first_le : first ≤ before + 1
  next : Next storage (first + count)
  bound : first + count < 2 ^ 64
  room : before + 1 < 2 ^ 64

/-- The instance was given an initial transaction, which has not come yet. -/
def AwaitsInitial (config : Config) (record : BinlogIndexRecord) : Prop :=
  config.initialObTxnId ≠ [] ∧ record.currentMapping.2 = config.initialObTxnGtidSeq ∧
    record.beforeMapping.1 = []

instance (config : Config) (record : BinlogIndexRecord) :
    Decidable (AwaitsInitial config record) :=
  inferInstanceAs (Decidable (_ ∧ _ ∧ _))

/-- The mappings of the index record.  Only the initial transaction is named before it is
stored. -/
structure Mappings (config : Config) (record : BinlogIndexRecord) (before first : ℕ)
    (transactions : List Transaction) : Prop where
  ordered : record.beforeMapping.2 ≤ record.currentMapping.2
  positive : record.currentMapping.1 ≠ [] → 0 < record.currentMapping.2
  stored : transactions ≠ [] → record.currentMapping.2 + 1 = first + transactions.length
  empty : transactions = [] → record.currentMapping.2 = before ∨
    record.currentMapping.2 = before + 1 ∧ first = before + 1
  again : transactions = [] → first ≤ record.currentMapping.2 → record.currentMapping.1 ≠ []
  initial : config.initialObTxnId ≠ [] →
    config.initialObTxnGtidSeq ≤ record.currentMapping.2
  awaits : AwaitsInitial config record ↔
    transactions = [] ∧ record.currentMapping.2 = before + 1

structure Recorded (config : Config) (storage : BinlogStorage) (files : Files) (layout : Layout)
    (before first : ℕ) (transactions : List Transaction) : Prop where
  settled : Settled config storage files layout
  positive : 0 < layout.current.index
  stores : layout.current.Stores config before first transactions
  counts : Counts config storage before first transactions.length
  mappings : Mappings config storage.indexRecord before first transactions

variable {obTxn : Text}

section Next

variable {config : Config} {storage : BinlogStorage} {number : ℕ}

theorem next_of_unfiltered (hoff : storage.filterUtilCheckpointTrx = false)
    (hseq : storage.txnGtidSeq = number) : Next storage number :=
  .inl ⟨hseq, fun _ => .inl hoff⟩

theorem Next.of_same (hnext : Next storage number) {other : BinlogStorage}
    (hseq : other.txnGtidSeq = storage.txnGtidSeq)
    (hmapping : other.txnMapping = storage.txnMapping)
    (hutil : other.filterUtilCheckpointTrx = storage.filterUtilCheckpointTrx)
    (hmeet : other.meetInitialTrx = storage.meetInitialTrx)
    (hcheckpoint : other.filterCheckpointTrx = storage.filterCheckpointTrx) :
    Next other number := by
  rcases hnext with ⟨hnumber, hkeeps⟩ | ⟨checkpoint, waited, hwaiting, hnumber⟩
  · refine .inl ⟨hseq.trans hnumber, fun obTxn => ?_⟩
    rw [Keeps, hutil, hmeet, hmapping, hseq, hcheckpoint]
    exact hkeeps obTxn
  · refine .inr ⟨checkpoint, waited, ⟨hutil.trans hwaiting.filterUtil,
      hmeet.trans hwaiting.meetInitial, hmapping.trans hwaiting.mapping,
      hseq.trans hwaiting.gtidSeq⟩, ?_⟩
    rw [hcheckpoint]
    exact hnumber

theorem Next.seq_of_keeps (hnext : Next storage number) (hkeeps : Keeps storage obTxn) :
    storage.txnGtidSeq = number := by
  rcases hnext with ⟨hseq, -⟩ | ⟨checkpoint, waited, hwaiting, rfl⟩
  · exact hseq
  · rcases hkeeps with hoff | ⟨hmeet, -⟩ | ⟨-, hcheckpoint⟩
    · rw [hwaiting.filterUtil] at hoff
      cases hoff
    · rw [hwaiting.meetInitial] at hmeet
      cases hmeet
    · rw [hcheckpoint, if_neg Bool.false_ne_true]
      exact hwaiting.gtidSeq

/-- A transaction is kept under the next number, or it is dropped and the number stays. -/
theorem Next.transaction (config : Config) (hnext : Next storage number)
    (hbound : number < 2 ^ 64) (transaction : Transaction)
    (hnew : ∀ event ∈ transaction.events, event.filter = true) :
    Keeps storage transaction.obTxn ∨
      ∃ behind, outcome config storage transaction.events = ⟨behind, [], []⟩ ∧
        Next behind number := by
  rcases hnext with ⟨hseq, hkeeps⟩ | ⟨checkpoint, waited, hwaiting, hnumber⟩
  · exact .inl (hkeeps _)
  by_cases hown : transaction.obTxn = checkpoint
  · subst hown
    cases hcheckpoint : storage.filterCheckpointTrx with
    | false =>
      refine .inl (.inr (.inr ⟨?_, hcheckpoint⟩))
      rw [hwaiting.mapping, hwaiting.gtidSeq]
    | true =>
      rw [hcheckpoint, if_pos rfl] at hnumber
      obtain ⟨behind, houtcome, hseq, hkeeps⟩ :=
        outcome_checkpoint config transaction hwaiting hcheckpoint hnew (by omega)
      exact .inr ⟨behind, houtcome, .inl ⟨hseq.trans hnumber.symm, hkeeps⟩⟩
  · refine .inr ⟨storage, ?_, .inr ⟨checkpoint, waited, hwaiting, hnumber⟩⟩
    refine outcome_waiting config hwaiting.filterUtil hnew hwaiting.meetInitial ?_
    intro event hevent hkind
    rwa [obTxn_of_gtid hevent hkind, hwaiting.mapping]

end Next

variable {number : ℕ}

section Keep

variable {config : Config} {storage booked : BinlogStorage} {file : LogFile}
  {record after : BinlogIndexRecord} {before first : ℕ} {transactions : List Transaction}

theorem number_of_mem {transaction : Transaction} {event : ObLogEvent}
    (hevent : event ∈ transaction.events) (hnumber : number ∈ gtidNumber event) :
    number = transaction.number := by
  obtain ⟨gtidEvent, gtid, middle, last, hevents, hgtid, hown, hmiddle, hlast⟩ :=
    transaction.exists_last
  have hkind : event.kind = .gtid := by
    rw [gtidNumber] at hnumber
    cases hbody : event.body with
    | gtid gtid => exact ObLogEvent.kind_eq_gtid.mpr ⟨gtid, hbody⟩
    | _ => simp [hbody] at hnumber
  rw [hevents, mem_cons, mem_append, mem_singleton] at hevent
  rcases hevent with rfl | hmem | rfl
  · rw [gtidNumber, hgtid] at hnumber
    rw [hown]
    exact (Option.some.inj hnumber).symm
  · rcases hmiddle event hmem with hother | hother <;> rw [hother] at hkind <;> cases hkind
  · rcases hlast with hother | hother <;> rw [hother] at hkind <;> cases hkind

theorem fits_of_stamped {transaction stored : Transaction}
    (hstamped : List.Forall₂ Stamped transaction.events stored.events)
    (hfits : ∀ event ∈ transaction.events, event.body.Fits) (hnumber : stored.number < 2 ^ 64) :
    ∀ event ∈ stored.events, event.body.Fits := by
  intro event hevent
  obtain ⟨index, hindex, rfl⟩ := getElem_of_mem hevent
  have hlength := hstamped.length_eq
  refine (forall₂_iff_get.mp hstamped).2 index (by omega) hindex |>.fits
    (hfits _ (getElem_mem _)) fun number hmem => ?_
  rw [number_of_mem hevent hmem]
  exact hnumber

theorem LogFile.Stores.keep (hstores : file.Stores config before first transactions)
    {stored : Transaction} (hnumber : stored.number = first + transactions.length)
    (hfits : ∀ event ∈ stored.events, event.body.Fits)
    (hlaid : ({ file with events := file.events ++ stored.events } : LogFile).Laid config) :
    ({ file with events := file.events ++ stored.events } : LogFile).Stores config before first
      (transactions ++ [stored]) := by
  refine ⟨hlaid, hstores.previousGtids, ?_, ?_, ?_, hstores.rotate, hstores.bound⟩
  · rw [flatMap_append, ← hstores.events, flatMap_singleton]
  · rw [map_append, hstores.numbers, map_singleton, hnumber, length_append,
      length_singleton, range'_concat, Nat.one_mul]
  · rw [forall_mem_append, forall_mem_singleton]
    exact ⟨hstores.fits, hfits⟩

theorem Counts.keep {count : ℕ} (hcounts : Counts config storage before first count)
    (hbound : first + count + 1 < 2 ^ 64) (hkeeps : Keeps storage obTxn)
    (hbooked : Booked storage booked obTxn) : Counts config booked before first (count + 1) := by
  have hpositive := hcounts.positive
  have hseq := hcounts.next.seq_of_keeps hkeeps
  refine
    { hcounts with
      previousGtids := hbooked.previousGtids.trans hcounts.previousGtids
      firstGtidSeq := ?_
      next := next_of_unfiltered hbooked.filterUtil ?_
      bound := hbound }
  · rw [hbooked.firstGtidSeq, hcounts.firstGtidSeq, hseq, if_neg (Nat.succ_ne_zero count)]
    by_cases hnone : count = 0
    · simp [hnone]
    · rw [if_neg hnone, if_neg (by omega)]
  · rw [hbooked.txnGtidSeq, hseq, Nat.mod_eq_of_lt hbound, Nat.add_assoc]

theorem Mappings.of_same (hmappings : Mappings config record before first transactions)
    (hcurrent : after.currentMapping = record.currentMapping)
    (hbefore : after.beforeMapping = record.beforeMapping) :
    Mappings config after before first transactions := by
  obtain ⟨hordered, hpositive, hstored, hempty, hagain, hinitial, hawaits⟩ := hmappings
  constructor <;> simpa only [AwaitsInitial, hcurrent, hbefore]

theorem Mappings.keep (hmappings : Mappings config record before first transactions)
    (hpositive : 0 < first) (hle : before ≤ first)
    (hcurrent : after.currentMapping = (obTxn, first + transactions.length))
    (hbefore : after.beforeMapping = record.currentMapping) (stored : Transaction) :
    Mappings config after before first (transactions ++ [stored]) := by
  have hordered : record.currentMapping.2 ≤ first + transactions.length := by
    by_cases hnone : transactions = []
    · have hempty := hmappings.empty hnone
      omega
    · have hstored := hmappings.stored hnone
      omega
  have hne : transactions ++ [stored] ≠ [] := append_ne_nil_of_right_ne_nil _ (by simp)
  have hnumber : after.currentMapping.2 = first + transactions.length := by rw [hcurrent]
  refine
    { ordered := ?_
      positive := fun _ => ?_
      stored := fun _ => ?_
      empty := fun hnone => absurd hnone hne
      again := fun hnone => absurd hnone hne
      initial := fun hinitial => ?_
      awaits := iff_of_false ?_ fun hnone => absurd hnone.1 hne }
  · rw [hbefore, hnumber]
    exact hordered
  · rw [hnumber]
    exact Nat.add_pos_left hpositive _
  · rw [hnumber, length_append, length_singleton]
    rfl
  · rw [hnumber]
    exact (hmappings.initial hinitial).trans hordered
  · -- the mapping before would be that of the initial transaction itself
    rintro ⟨hinitial, hown, hid⟩
    rw [hbefore] at hid
    have hge := hmappings.initial hinitial
    by_cases hnone : transactions = []
    · exact hmappings.again hnone (by omega) hid
    · have hstored := hmappings.stored hnone
      omega

/-- Behind a rotation the header of the next file has all numbers that were given. -/
theorem Counts.nextPreviousGtids (hvalid : ValidUuid config.masterServerUuid) {count : ℕ}
    (hcounts : Counts config storage before first count) (hcount : 0 < count)
    (hoff : storage.filterUtilCheckpointTrx = false) :
    (pendingRotate config storage).nextPreviousGtids =
      gtidsUpTo config.masterServerUuid (first + count - 1) := by
  have hpositive := hcounts.positive
  have hbound := hcounts.bound
  have hle := hcounts.le_first
  have hseq := hcounts.next.seq_of_keeps (.inl hoff : Keeps storage [])
  have hlast : (first + count + (2 ^ 64 - 1)) % 2 ^ 64 = first + count - 1 := by omega
  have hmax : max before (first + count - 1) = first + count - 1 := max_eq_right (by omega)
  rw [pendingRotate]
  rw [hcounts.previousGtids, hcounts.firstGtidSeq, if_neg hcount.ne', hseq, hlast,
    mergeGtidBefore_gtidsUpTo hvalid hcounts.room hpositive hcounts.first_le, hmax]

theorem Counts.rotate (hvalid : ValidUuid config.masterServerUuid) {count : ℕ}
    (hcounts : Counts config storage before first count) (hcount : 0 < count)
    (hoff : storage.filterUtilCheckpointTrx = false) :
    Counts config (nextFile config storage) (first + count - 1) (first + count) 0 := by
  have hbound := hcounts.bound
  exact
    { previousGtids := hcounts.nextPreviousGtids hvalid hcount hoff
      firstGtidSeq := rfl
      positive := by omega
      le_first := by omega
      first_le := by omega
      next := next_of_unfiltered hoff (hcounts.next.seq_of_keeps (.inl hoff : Keeps storage []))
      bound := hbound
      room := by omega }

theorem stores_nil {opened : LogFile} (hlaid : opened.Laid config) (hevents : opened.events = [])
    (hrotate : opened.rotate = none)
    (hprevious : opened.previousGtids = gtidsUpTo config.masterServerUuid before)
    (hroom : before + 1 < 2 ^ 64) : opened.Stores config before first [] :=
  ⟨hlaid, hprevious, hevents, rfl, fun _ hmem => absurd hmem not_mem_nil,
    fun event hevent => by simp [hrotate] at hevent, hroom⟩

theorem Mappings.rotate (hmappings : Mappings config record before first transactions)
    (hne : transactions ≠ []) (hcurrent : after.currentMapping = record.currentMapping)
    (hbefore : after.beforeMapping = record.beforeMapping) :
    Mappings config after (first + transactions.length - 1) (first + transactions.length) [] := by
  have hstored := hmappings.stored hne
  have hawaits : ¬AwaitsInitial config record := fun hawaits =>
    hne (hmappings.awaits.mp hawaits).1
  refine
    { ordered := ?_
      positive := ?_
      stored := fun hsome => absurd rfl hsome
      empty := fun _ => .inl ?_
      again := fun _ hagain => ?_
      initial := ?_
      awaits := iff_of_false ?_ ?_ }
  · rw [hcurrent, hbefore]
    exact hmappings.ordered
  · rw [hcurrent]
    exact hmappings.positive
  · rw [hcurrent]
    omega
  · rw [hcurrent] at hagain
    omega
  · rw [hcurrent]
    exact hmappings.initial
  · rwa [AwaitsInitial, hcurrent, hbefore]
  · rw [hcurrent]
    omega

def executedGtid (record : BinlogIndexRecord) (before : ℕ) (transactions : List Transaction) : ℕ :=
  if transactions = [] then before else record.currentMapping.2

section Mapped

variable (hmappings : Mappings config record before first transactions)

include hmappings

/-- The transaction of the current mapping is executed, unless it is the initial one and
has not come yet. -/
theorem Mappings.executed_cases (hle : before ≤ first) :
    (¬AwaitsInitial config record ∧ before ≤ record.currentMapping.2 ∧
        executedGtid record before transactions = record.currentMapping.2) ∨
      (AwaitsInitial config record ∧ transactions = [] ∧
        record.currentMapping.2 = before + 1 ∧ first = before + 1 ∧
        executedGtid record before transactions = before) := by
  rw [executedGtid, hmappings.awaits]
  by_cases hnone : transactions = []
  · have hempty := hmappings.empty hnone
    rw [if_pos hnone]
    rcases hempty with hsame | ⟨hnext, hfirst⟩
    · exact .inl ⟨by omega, by omega, hsame.symm⟩
    · exact .inr ⟨⟨hnone, hnext⟩, hnone, hnext, hfirst, rfl⟩
  · have hstored := hmappings.stored hnone
    have hlength := length_pos_iff.mpr hnone
    rw [if_neg hnone]
    exact .inl ⟨fun hawaits => hnone hawaits.1, by omega, rfl⟩

theorem Mappings.succ_lt (hbound : first + transactions.length < 2 ^ 64)
    (hroom : before + 1 < 2 ^ 64) (hawaits : ¬AwaitsInitial config record) :
      record.currentMapping.2 + 1 < 2 ^ 64 := by
  rw [hmappings.awaits] at hawaits
  by_cases hnone : transactions = []
  · have hempty := hmappings.empty hnone
    have hsame : record.currentMapping.2 ≠ before + 1 := fun hnext => hawaits ⟨hnone, hnext⟩
    omega
  · have hstored := hmappings.stored hnone
    omega

theorem Mappings.executed_succ_lt (hle : before ≤ first)
    (hbound : first + transactions.length < 2 ^ 64) (hroom : before + 1 < 2 ^ 64) :
      executedGtid record before transactions + 1 < 2 ^ 64 := by
  rcases hmappings.executed_cases hle with ⟨hawaits, -, hexecuted⟩ | ⟨-, -, -, -, hexecuted⟩
  · rw [hexecuted]
    exact hmappings.succ_lt hbound hroom hawaits
  · rw [hexecuted]
    exact hroom

/-- The record of a new file behind the transaction of the current mapping. -/
theorem Mappings.reopen (hawaits : ¬AwaitsInitial config record)
    (hagain : number ≤ record.currentMapping.2 → record.currentMapping.1 ≠ []) :
    Mappings config record record.currentMapping.2 number [] :=
  { ordered := hmappings.ordered
    positive := hmappings.positive
    stored := fun hne => absurd rfl hne
    empty := fun _ => .inl rfl
    again := fun _ => hagain
    initial := hmappings.initial
    awaits := iff_of_false hawaits (by omega) }

end Mapped

end Keep

variable {config : Config} {storage : BinlogStorage} {files : Files} {layout : Layout}
  {before first : ℕ} {transactions : List Transaction}

section Recorded

variable {behind : BinlogStorage}

theorem LogFile.Stores.headed {file : LogFile}
    (hstores : file.Stores config before first transactions) : file.Headed config :=
  ⟨before, hstores.bound, hstores.previousGtids⟩

variable (hrecorded : Recorded config storage files layout before first transactions)

include hrecorded

/-- What a dropped transaction changes is in the next number only. -/
theorem Recorded.filtered (hfiltered : Filtered storage behind)
    (hnext : Next behind (first + transactions.length)) :
    Recorded config behind files layout before first transactions := by
  obtain ⟨⟨hready, hshelved, hindexed⟩, hpositive, hstores, hcounts, hmappings⟩ := hrecorded
  obtain ⟨_, _, _, rfl⟩ := hfiltered
  exact ⟨⟨hready.of_same rfl rfl rfl rfl rfl, hshelved, hindexed⟩, hpositive, hstores,
    { hcounts with next := hnext }, hmappings⟩

variable (henabled : config.checksum.enabled = true) (hvalid : ValidUuid config.masterServerUuid)

include henabled hvalid

/-- A transaction of the stream: it is dropped, or it is stored behind the others, and a
new file may begin behind it. -/
theorem Recorded.transaction (transaction : Transaction)
    (hnew : ∀ event ∈ transaction.events, event.filter = true)
    (hbodies : ∀ event ∈ transaction.events, event.body.Fits)
    (hfits : PositionsFit config storage transaction.events)
    (hbound : first + transactions.length + 1 < 2 ^ 64) :
    ∃ layoutAfter beforeAfter firstAfter transactionsAfter,
      Recorded config (storeEvents config (storage, files) transaction.events).1
        (storeEvents config (storage, files) transaction.events).2 layoutAfter beforeAfter
        firstAfter transactionsAfter ∧
      firstAfter + transactionsAfter.length ≤ first + transactions.length + 1 := by
  have hcounts := hrecorded.counts
  rcases hcounts.next.transaction config hcounts.bound transaction hnew with
    hkeeps | ⟨behind, houtcome, hnext⟩
  · obtain ⟨booked, stored, after, hbooked, hstamped, hnumber, hcases⟩ :=
      storeEvents_kept henabled hvalid hrecorded.settled.ready hrecorded.settled.shelved
        hrecorded.positive hrecorded.stores.headed transaction hkeeps hfits
    have hseq := hcounts.next.seq_of_keeps hkeeps
    rw [hseq] at hnumber
    have hcountsKept := hcounts.keep hbound hkeeps hbooked
    have hmappings : Mappings config booked.indexRecord before first (transactions ++ [stored]) :=
      hrecorded.mappings.keep hcounts.positive hcounts.le_first
        (by rw [hbooked.currentMapping, hseq]) hbooked.beforeMapping stored
    have hlength : (transactions ++ [stored]).length = transactions.length + 1 := by
      rw [length_append, length_singleton]
    rcases hcases with ⟨hstore, hsettled⟩ | ⟨hstore, hsettled⟩
    all_goals
      rw [hstore]
      have hlaid := hsettled.ready.laid _ (mem_append_right _ mem_cons_self)
    · have hstores := hrecorded.stores.keep hnumber
        (fits_of_stamped hstamped hbodies (by omega)) hlaid
      rw [← hlength] at hcountsKept
      refine ⟨_, before, first, transactions ++ [stored],
        ⟨hsettled, hrecorded.positive, hstores, hcountsKept, hmappings⟩, ?_⟩
      rw [hlength]
      rfl
    · have hne : transactions ++ [stored] ≠ [] :=
        append_ne_nil_of_right_ne_nil _ (cons_ne_nil _ _)
      have hrotated := hcountsKept.rotate hvalid (Nat.succ_pos _) hbooked.filterUtil
      have hstores := @stores_nil config _ (first + (transactions.length + 1)) _ hlaid rfl rfl
        (hcountsKept.nextPreviousGtids hvalid (Nat.succ_pos _) hbooked.filterUtil) hrotated.room
      have hmappingsRotated := @Mappings.rotate _ _ (nextFile config booked).indexRecord _ _ _
        hmappings hne rfl rfl
      rw [hlength] at hmappingsRotated
      exact ⟨_, _, _, [], ⟨hsettled, Nat.succ_pos _, hstores, hrotated, hmappingsRotated⟩, le_rfl⟩
  · obtain ⟨hstore, hfiltered⟩ := @storeEvents_dropped config storage behind files _ hnew _ houtcome
    rw [hstore]
    exact ⟨layout, before, first, transactions, hrecorded.filtered hfiltered hnext, Nat.le_succ _⟩

theorem Recorded.storeTransactions {stream : List Transaction}
    (hnew : ∀ transaction ∈ stream, ∀ event ∈ transaction.events, event.filter = true)
    (hbodies : ∀ transaction ∈ stream, ∀ event ∈ transaction.events, event.body.Fits)
    (hfits : PositionsFit config storage (stream.flatMap events))
    (hbound : first + transactions.length + stream.length < 2 ^ 64) :
    ∃ layoutAfter beforeAfter firstAfter transactionsAfter,
      Recorded config
        (storeEvents config (storage, files) (stream.flatMap events)).1
        (storeEvents config (storage, files) (stream.flatMap events)).2 layoutAfter
        beforeAfter firstAfter transactionsAfter := by
  induction stream generalizing storage files layout before first transactions with
  | nil => exact ⟨layout, before, first, transactions, hrecorded⟩
  | cons transaction stream ih =>
    obtain ⟨hnewFirst, hnewRest⟩ := forall_mem_cons.mp hnew
    obtain ⟨hbodiesFirst, hbodiesRest⟩ := forall_mem_cons.mp hbodies
    rw [flatMap_cons, positionsFit_append] at hfits
    obtain ⟨hfitsFirst, hfitsRest⟩ := hfits
    rw [length_cons] at hbound
    obtain ⟨_, _, _, _, hnext, hle⟩ := hrecorded.transaction henabled hvalid transaction
      hnewFirst hbodiesFirst hfitsFirst (by omega)
    rw [← storeEvents_fst _ _ files] at hfitsRest
    rw [flatMap_cons, storeEvents_append]
    exact ih hnext hnewRest hbodiesRest hfitsRest (by omega)

end Recorded

section Batches

variable {events : List ObLogEvent}

theorem storeEvent_heartbeat {event : ObLogEvent} (hkind : event.kind = .heartbeat)
    (state : BinlogStorage × Files) : storeEvent config state event = state := by
  obtain ⟨name, hbody⟩ := ObLogEvent.kind_eq_heartbeat.mp hkind
  simp [storeEvent, admitEvent, hbody]

theorem storeEvents_without_heartbeats (state : BinlogStorage × Files) :
    storeEvents config state (events.filter fun event => event.kind ≠ .heartbeat) =
      storeEvents config state events := by
  induction events generalizing state with
  | nil => rfl
  | cons event events ih =>
    by_cases hkind : event.kind = .heartbeat
    · rw [filter_cons_of_neg (by simpa using hkind), ih, storeEvents, storeEvents,
        foldl_cons, storeEvent_heartbeat hkind]
    · rw [filter_cons_of_pos (by simpa using hkind)]
      exact ih (storeEvent config state event)

theorem positionsFit_without_heartbeats (hfits : PositionsFit config storage events) :
    PositionsFit config storage (events.filter fun event => event.kind ≠ .heartbeat) := by
  induction events generalizing storage with
  | nil => trivial
  | cons event events ih =>
    by_cases hkind : event.kind = .heartbeat
    · have hrest := hfits.2
      rw [advance_heartbeat config storage hkind] at hrest
      rw [filter_cons_of_neg (by simpa using hkind)]
      exact ih hrest
    · rw [filter_cons_of_pos (by simpa using hkind)]
      exact ⟨hfits.1, ih hfits.2⟩

/-- A batch writes the index record even if it keeps nothing. -/
theorem runBatch_eq (hnew : ∀ event ∈ events, event.filter = true)
    (hfits : PositionsFit config storage events) :
    runBatch config (storage, files) events =
      some (storeEvents config (storage, files.persistentBinlog [] storage.indexRecord)
        events) := by
  rw [runBatch_segments hnew hfits, storeEvents_segments]
  cases hcut : segments config storage events with
  | mk cut rest =>
    rcases cut with _ | ⟨segment, later⟩
    · rcases rest with _ | ⟨event, rest⟩
      · rw [indexRecord_of_segments_eq_nil hcut]
        rfl
      · simp [storeRest, Files.persistentBinlog_persistentBinlog]
    · simp [storeSegment, Files.persistentBinlog_persistentBinlog]

theorem Ready.index_ne_nil (hready : Ready config storage files layout) : files.index ≠ [] := by
  intro hnil
  obtain ⟨older, hnames⟩ := hready.indexed
  simp [hnil, Layout.files] at hnames

def endRecord (config : Config) (storage : BinlogStorage) (layout : Layout) :
    BinlogIndexRecord :=
  { storage.indexRecord with position := (layout.current.bytes config).length }

section Ready

variable (hready : Ready config storage files layout)

include hready

/-- Writing nothing behind the record brings its line up to date. -/
theorem persistentBinlog_nil :
    files.persistentBinlog [] storage.indexRecord =
      { files with index := files.index.updateIndex (endRecord config storage layout) } := by
  have hcurrent := hready.onDisk _ (mem_append_right _ mem_cons_self)
  have hdisk : files.disk.appendFile files.fileName [] = files.disk := by
    rw [Disk.appendFile, Disk.content, hready.fileName, hcurrent, Option.getD_some,
      append_nil, Disk.write, ← hcurrent, Function.update_eq_self]
  rw [Files.persistentBinlog, hdisk, hready.fileSize, endRecord]

theorem Ready.recordOnDisk :
    files.disk storage.indexRecord.fileName = some (layout.current.bytes config) := by
  rw [hready.recordFile]
  exact hready.onDisk _ (mem_append_right _ mem_cons_self)

theorem updateIndex_of_indexed (hindexed : Indexed config storage files layout) :
    files.index.updateIndex (endRecord config storage layout) = files.index := by
  rw [endRecord, ← hindexed, updateIndex_getLatestIndex hready.index_ne_nil]

end Ready

theorem Settled.index_eq (hsettled : Settled config storage files layout) :
    files.index = files.index.dropLast ++ [endRecord config storage layout] := by
  have hindexed : files.index.getLatestIndex = endRecord config storage layout := hsettled.indexed
  have hindex := updateIndex_getLatestIndex hsettled.ready.index_ne_nil
  rw [hindexed, updateIndex] at hindex
  exact hindex.symm

theorem runBatches_of_indexed (henabled : config.checksum.enabled = true)
    (hvalid : ValidUuid config.masterServerUuid) (hready : Ready config storage files layout)
    (hindexed : Indexed config storage files layout) {batches : List (List ObLogEvent)}
    (hnew : ∀ event ∈ batches.flatten, event.filter = true)
    (hfits : PositionsFit config storage batches.flatten) :
    runBatches config (storage, files) batches =
      some (storeEvents config (storage, files) batches.flatten) := by
  induction batches generalizing storage files layout with
  | nil => rfl
  | cons batch batches ih =>
    rw [flatten_cons] at hnew hfits ⊢
    obtain ⟨hnewFirst, hnewRest⟩ := forall_mem_append.mp hnew
    obtain ⟨hfitsFirst, hfitsRest⟩ := (positionsFit_append config).mp hfits
    obtain ⟨after, hreadyAfter, -, -, hindexedAfter, -⟩ :=
      storeEvents_layout henabled hvalid hnewFirst hready hfitsFirst
    rw [← storeEvents_fst _ _ files] at hfitsRest
    rw [runBatches, runBatch_eq hnewFirst hfitsFirst, persistentBinlog_nil hready,
      updateIndex_of_indexed hready hindexed, storeEvents_append]
    exact ih hreadyAfter (hindexedAfter (.inl hindexed)) hnewRest hfitsRest

end Batches

/-- The files and the index behind a batch.  The line of a new instance has no position
before its first batch. -/
structure Left (config : Config) (storage : BinlogStorage) (files : Files) (layout : Layout)
    (before first : ℕ) (transactions : List Transaction) : Prop where
  ready : Ready config storage files layout
  shelved : Shelved config files layout.current.index
  positive : 0 < layout.current.index
  stores : layout.current.Stores config before first transactions
  counts : Counts config storage before first transactions.length
  mappings : Mappings config storage.indexRecord before first transactions
  latest : Indexed config storage files layout ∨
    transactions = [] ∧ storage.indexRecord.beforeMapping.2 = 0 ∧
      files.index.getLatestIndex = storage.indexRecord

theorem Recorded.left (hrecorded : Recorded config storage files layout before first transactions) :
    Left config storage files layout before first transactions :=
  ⟨hrecorded.settled.ready, hrecorded.settled.shelved, hrecorded.positive, hrecorded.stores,
    hrecorded.counts, hrecorded.mappings, .inl hrecorded.settled.indexed⟩

/-- The last line of the index, up to its position. -/
theorem Left.exists_position (hleft : Left config storage files layout before first transactions) :
    ∃ position, files.index.getLatestIndex = { storage.indexRecord with position } ∧
      (position = (layout.current.bytes config).length ∨
        transactions = [] ∧ storage.indexRecord.beforeMapping.2 = 0) := by
  rcases hleft.latest with hindexed | ⟨hnone, hzero, hlatest⟩
  · exact ⟨_, hindexed, Or.inl rfl⟩
  · exact ⟨_, hlatest, Or.inr ⟨hnone, hzero⟩⟩

theorem Left.recorded (hleft : Left config storage files layout before first transactions) :
    Recorded config storage
      { files with index := files.index.updateIndex (endRecord config storage layout) }
      layout before first transactions := by
  refine ⟨⟨?_, ?_, getLatestIndex_updateIndex _ _⟩, hleft.positive, hleft.stores,
    hleft.counts, hleft.mappings⟩
  · exact { hleft.ready with indexed := hleft.ready.indexed_update _ hleft.ready.recordFile }
  · exact hleft.shelved.write (dropLast_concat ..) fun _ _ => rfl

theorem Next.le_succ (hnext : Next storage number) : number ≤ storage.txnGtidSeq + 1 := by
  rcases hnext with ⟨hseq, -⟩ | ⟨checkpoint, waited, hwaiting, hnumber⟩
  · omega
  · have hseq := hwaiting.gtidSeq
    split_ifs at hnumber <;> omega

theorem Left.runBatches (henabled : config.checksum.enabled = true)
    (hvalid : ValidUuid config.masterServerUuid)
    (hleft : Left config storage files layout before first transactions)
    {batches : List (List ObLogEvent)} {stream : List Transaction}
    (hnew : ∀ event ∈ batches.flatten, event.filter = true)
    (hstream : (batches.flatten.filter fun event => event.kind ≠ .heartbeat) =
      stream.flatMap events)
    (hbodies : ∀ transaction ∈ stream, ∀ event ∈ transaction.events, event.body.Fits)
    (hfits : PositionsFit config storage batches.flatten)
    (hbound : storage.txnGtidSeq + stream.length + 1 < 2 ^ 64) {stored : BinlogStorage}
    {after : Files}
    (hrun : Storage.runBatches config (storage, files) batches = some (stored, after)) :
    ∃ layoutAfter beforeAfter firstAfter transactionsAfter,
      Left config stored after layoutAfter beforeAfter firstAfter transactionsAfter := by
  rcases batches with _ | ⟨batch, batches⟩
  · obtain ⟨rfl, rfl⟩ := Prod.mk.inj (Option.some.inj hrun)
    exact ⟨layout, before, first, transactions, hleft⟩
  · have hrecorded := hleft.recorded
    have hnumber := hleft.counts.next.le_succ
    have hall := runBatches_of_indexed henabled hvalid hrecorded.settled.ready
      hrecorded.settled.indexed hnew hfits
    have hnewFirst : ∀ event ∈ batch, event.filter = true := fun event hevent =>
      hnew event (by exact mem_append_left _ hevent)
    have hfitsFirst := ((positionsFit_append config).mp (flatten_cons ▸ hfits)).1
    rw [Storage.runBatches, runBatch_eq hnewFirst hfitsFirst] at hrun hall
    rw [persistentBinlog_nil hleft.ready] at hrun
    rw [persistentBinlog_nil hrecorded.settled.ready, updateIndex_of_indexed hrecorded.settled.ready
      hrecorded.settled.indexed] at hall
    rw [hall, ← storeEvents_without_heartbeats, hstream] at hrun
    have hnewStream : ∀ transaction ∈ stream, ∀ event ∈ transaction.events,
        event.filter = true := by
      intro transaction htransaction event hevent
      have hmem : event ∈ stream.flatMap events :=
        mem_flatMap.mpr ⟨transaction, htransaction, hevent⟩
      rw [← hstream] at hmem
      exact hnew event (mem_of_mem_filter hmem)
    have hfitsStream := positionsFit_without_heartbeats hfits
    rw [hstream] at hfitsStream
    obtain ⟨layoutAfter, beforeAfter, firstAfter, transactionsAfter, hafter⟩ :=
      hrecorded.storeTransactions henabled hvalid hnewStream hbodies hfitsStream (by omega)
    rw [Option.some.inj hrun] at hafter
    exact ⟨layoutAfter, beforeAfter, firstAfter, transactionsAfter, hafter.left⟩

end OblogProxy.Storage
