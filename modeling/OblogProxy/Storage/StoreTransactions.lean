import OblogProxy.Event.ControlEvents
import OblogProxy.Storage.CheckpointFilter
import OblogProxy.Storage.Layout

/-!
# Storing whole transactions

A transaction that is kept goes to the current file as a whole and gets the next
number; a file is closed behind a transaction and never inside one.  With
consecutive numbers from one on, the previous gtids of a file are the numbers of
all transactions in the files before it.  Behind the checkpoint nothing is dropped, and the
files are the same whichever way the stream is cut into batches.
-/

namespace OblogProxy.Storage

open Bytes Event Gtid List ObLogEvent

/-- The stored event is the given one with its numbers and its position. -/
def Stamped (event stored : ObLogEvent) : Prop :=
  ∃ number xid position, stored = { event with
    nextPosition := position, filter := false, body := numbered number xid event.body }

section Unfiltered

variable (config : Config) {storage : BinlogStorage} {files : Files} {event : ObLogEvent}

theorem positionsFit_append {front back : List ObLogEvent} :
    PositionsFit config storage (front ++ back) ↔
      PositionsFit config storage front ∧
        PositionsFit config (advanceAll config storage front).1 back := by
  induction front generalizing storage with
  | nil => simp [PositionsFit, advanceAll]
  | cons event front ih => simp [PositionsFit, advanceAll, ih, and_assoc]

section Unfiltered

variable (hoff : storage.filterUtilCheckpointTrx = false)

include hoff

/-- With the filter off, every event but a heartbeat is kept. -/
theorem admitEvent_unfiltered (hkind : event.kind ≠ .heartbeat) :
    ∃ admitted stamped isRotate,
      admitEvent config storage event = (admitted, stamped, some isRotate) ∧
        admitted.filterUtilCheckpointTrx = false ∧
        Stamped event (placedEvent config admitted stamped) := by
  rcases admitEvent_cases config storage event with
    ⟨hwhy, -⟩ | ⟨_, _, _, -, hstays, hcase⟩ | ⟨-, -, _, hcase⟩
  · rcases hwhy with hheartbeat | hon
    · exact absurd hheartbeat hkind
    · rw [hoff] at hon
      exact Bool.noConfusion hon
  · exact ⟨_, _, _, hcase, hstays hoff, _, _, _, rfl⟩
  · exact ⟨_, _, _, hcase, hoff, _, _, _, rfl⟩

theorem advance_unfiltered (hkind : event.kind ≠ .heartbeat) :
    (advance config storage event).1.filterUtilCheckpointTrx = false ∧
      Stamped event (advance config storage event).2 := by
  obtain ⟨admitted, stamped, _ | _, hentry, hstays, hstamped⟩ :=
    admitEvent_unfiltered config hoff hkind
  · rw [advance_kept hentry]
    exact ⟨hstays, hstamped⟩
  · rw [advance_rotated hentry]
    exact ⟨hstays, hstamped⟩

section Kinds

variable {events : List ObLogEvent} (hkinds : ∀ event ∈ events, event.kind ≠ .heartbeat)

include hkinds

theorem advanceAll_unfiltered :
    (advanceAll config storage events).1.filterUtilCheckpointTrx = false ∧
      keptEvents config storage events = (advanceAll config storage events).2 ∧
      List.Forall₂ Stamped events (advanceAll config storage events).2 := by
  induction events generalizing storage with
  | nil => exact ⟨hoff, rfl, List.Forall₂.nil⟩
  | cons event events ih =>
    obtain ⟨hkind, hrest⟩ := forall_mem_cons.mp hkinds
    obtain ⟨hoffNext, hstamped⟩ := advance_unfiltered config hoff hkind
    obtain ⟨hoffLast, hkept, hstampedRest⟩ := ih hoffNext hrest
    refine ⟨hoffLast, ?_, List.Forall₂.cons hstamped hstampedRest⟩
    obtain ⟨number, xid, position, hstored⟩ := hstamped
    rw [keptEvents] at hkept ⊢
    rw [advanceAll, filter_cons_of_pos (by rw [hstored]; rfl), hkept]

theorem segments_ne_nil (hne : events ≠ []) : segments config storage events ≠ ([], []) := by
  obtain ⟨event, events, rfl⟩ := exists_cons_of_ne_nil hne
  obtain ⟨admitted, stamped, _ | _, hentry, -, -⟩ :=
    admitEvent_unfiltered config hoff (hkinds event mem_cons_self)
  · rw [segments, hentry]
    dsimp only
    split <;> simp
  · rw [segments, hentry]
    simp

end Kinds

end Unfiltered

/-- Batches of an unfiltered stream store its events one by one. -/
theorem runBatches_eq_storeEvents {batches : List (List ObLogEvent)}
    (hoff : storage.filterUtilCheckpointTrx = false) (hbatches : ∀ batch ∈ batches, batch ≠ [])
    (hevents : ∀ event ∈ batches.flatten, event.filter = true ∧ event.kind ≠ .heartbeat)
    (hfits : PositionsFit config storage batches.flatten) :
    runBatches config (storage, files) batches =
      some (storeEvents config (storage, files) batches.flatten) := by
  induction batches generalizing storage files with
  | nil => rfl
  | cons batch batches ih =>
    obtain ⟨hbatch, hbatchesRest⟩ := forall_mem_cons.mp hbatches
    obtain ⟨hfitsBatch, hfitsRest⟩ := (positionsFit_append config).mp hfits
    have hnew := fun event hevent => (hevents event (mem_append_left _ hevent)).1
    have hkinds := fun event hevent => (hevents event (mem_append_left _ hevent)).2
    rw [runBatches,
      runBatch_eq_storeEvents hnew hfitsBatch _ (segments_ne_nil config hoff hkinds hbatch),
      flatten_cons, storeEvents, storeEvents, foldl_append, ← storeEvents]
    have hstorage : (storeEvents config (storage, files) batch).1 =
        (advanceAll config storage batch).1 := by
      rw [storeEvents_segments]
    have hoffNext := (advanceAll_unfiltered config hoff hkinds).1
    rw [← hstorage] at hoffNext hfitsRest
    exact ih hoffNext hbatchesRest
      (fun event hevent => hevents event (mem_append_right _ hevent)) hfitsRest

end Unfiltered

def smallConfig : Config :=
  { names := ⟨['b'], 1⟩
    checksum := ⟨true, fun _ => 0⟩
    maxBinlogSize := 0
    serverId := 1
    masterServerUuid := List.replicate 8 '0' ++ '-' :: List.replicate 4 '0' ++ '-' ::
      List.replicate 4 '0' ++ '-' :: List.replicate 4 '0' ++ '-' :: List.replicate 12 '0' }

def smallStorage : BinlogStorage :=
  { curPos := 155
    binlogFileIndex := 1
    filterUtilCheckpointTrx := false
    indexRecord := { fileName := smallConfig.names.path 1, index := 1 } }

def smallFiles : Files :=
  { disk := Disk.write (fun _ => none) (smallConfig.names.path 1)
      (headerBytes smallConfig.checksum smallConfig.serverId 0 [])
    index := [smallStorage.indexRecord]
    fileName := smallConfig.names.path 1 }

theorem ready_small : Ready smallConfig smallStorage smallFiles { current := ⟨1, 0, [], [], none⟩ } := by
  have hempty : DistinctUuids [] := ⟨by simp, nodup_nil⟩
  refine @ready_new smallConfig smallStorage smallFiles
    ⟨newRotateEvent smallConfig [] 0 0, 1, [], []⟩ hempty (by decide)
    ⟨rfl, rfl, rfl, rfl, hempty⟩ (by simp [smallFiles, newRotateEvent]) ?_ rfl ⟨[], rfl⟩
  intro index hindex
  exact Disk.write_of_ne (fun _ => none) _
    (smallConfig.names.path_injective.ne (Nat.ne_of_gt hindex))

def gtidsUpTo (serverUuid : Text) (count : ℕ) : List GtidMessage :=
  if count = 0 then [] else [⟨some (readUuid serverUuid), 1, [(1, count)]⟩]

section GtidsUpTo

variable {serverUuid : Text} {count : ℕ}

@[simp]
theorem gtidsUpTo_zero (serverUuid : Text) : gtidsUpTo serverUuid 0 = [] :=
  rfl

theorem gtidsUpTo_of_pos (hcount : 0 < count) :
    gtidsUpTo serverUuid count = [⟨some (readUuid serverUuid), 1, [(1, count)]⟩] :=
  if_neg (Nat.ne_of_gt hcount)

/-- Merging a range that begins within the numbers or right behind them. -/
theorem mergeGtidBefore_gtidsUpTo (hvalid : ValidUuid serverUuid) (hcount : count + 1 < 2 ^ 64)
    {first : ℕ} (hfirst : 0 < first) (hnext : first ≤ count + 1) (last : ℕ) :
    mergeGtidBefore serverUuid (gtidsUpTo serverUuid count) (first, last) =
      gtidsUpTo serverUuid (max count last) := by
  rcases Nat.eq_zero_or_pos count with rfl | hpositive
  · obtain rfl : first = 1 := by omega
    rcases Nat.eq_zero_or_pos last with rfl | hlast
    · simp [mergeGtidBefore]
    · simp [mergeGtidBefore, gtidsUpTo_of_pos hlast, hlast, (uuidStrToHexBin_eq hvalid).1]
  · have hown : isOwnMessage serverUuid ⟨some (readUuid serverUuid), 1, [(1, count)]⟩ = true :=
      isOwnMessage_of_uuid hvalid rfl
    have hadjacent : ¬(count + 1) % 2 ^ 64 < first := by
      omega
    rw [gtidsUpTo_of_pos hpositive, gtidsUpTo_of_pos (lt_max_of_lt_left hpositive), mergeGtidBefore]
    simp only [any_cons, hown, Bool.true_or, if_true, map_cons, map_nil,
      extendTxnRange, getLast?_singleton, if_neg hadjacent]
    rcases Nat.lt_or_ge count last with hlt | hle
    · simp [hlt, max_eq_right hlt.le]
    · simp [hle.not_gt, max_eq_left hle]

theorem distinctUuids_gtidsUpTo (hvalid : ValidUuid serverUuid) (count : ℕ) :
    DistinctUuids (gtidsUpTo serverUuid count) := by
  rcases Nat.eq_zero_or_pos count with rfl | hcount
  · exact ⟨by simp, by simp⟩
  · rw [gtidsUpTo_of_pos hcount]
    refine ⟨?_, nodup_singleton _⟩
    intro message hmessage
    rw [mem_singleton.mp hmessage]
    exact ⟨readUuid serverUuid, rfl, (uuidStrToHexBin_eq hvalid).2⟩

theorem messageInWireRange_gtidsUpTo (hvalid : ValidUuid serverUuid) (hcount : count < 2 ^ 64 - 1)
    {message : GtidMessage} (hmessage : message ∈ gtidsUpTo serverUuid count) :
    MessageInWireRange message := by
  rw [gtidsUpTo] at hmessage
  split_ifs at hmessage with hzero
  · cases hmessage
  · rw [mem_singleton.mp hmessage]
    refine ⟨⟨readUuid serverUuid, rfl, (uuidStrToHexBin_eq hvalid).2⟩, rfl, by norm_num, ?_⟩
    intro range hrange
    rw [mem_singleton.mp hrange]
    exact ⟨by omega, hcount⟩

theorem length_gtidsUpTo_le (serverUuid : Text) (count : ℕ) :
    (gtidsUpTo serverUuid count).length ≤ 1 := by
  rw [gtidsUpTo]
  split_ifs <;> simp

theorem sum_gtidLength_gtidsUpTo_le (serverUuid : Text) (count : ℕ) :
    ((gtidsUpTo serverUuid count).map gtidLength).sum ≤ 40 := by
  rw [gtidsUpTo]
  split_ifs <;> simp [gtidLength, serverUuidLen]

/-- At most one message is in order. -/
theorem setGtidMessages_gtidsUpTo (hvalid : ValidUuid serverUuid) (count : ℕ) :
    (setGtidMessages (gtidsUpTo serverUuid count)).entries.map Prod.snd =
      gtidsUpTo serverUuid count := by
  have hperm := perm_setGtidMessages (distinctUuids_gtidsUpTo hvalid count)
  rcases Nat.eq_zero_or_pos count with rfl | hcount
  · exact perm_nil.mp hperm
  · rw [gtidsUpTo_of_pos hcount] at hperm ⊢
    exact perm_singleton.mp hperm

end GtidsUpTo

/-- The file begins with the numbers up to `before` and has the given transactions, with
numbers from `first` on. -/
structure LogFile.Stores (config : Config) (file : LogFile) (before first : ℕ)
    (transactions : List Transaction) : Prop where
  laid : file.Laid config
  previousGtids : file.previousGtids = gtidsUpTo config.masterServerUuid before
  events : file.events = transactions.flatMap Transaction.events
  numbers : transactions.map Transaction.number = range' first transactions.length
  fits : ∀ transaction ∈ transactions, ∀ event ∈ transaction.events, event.body.Fits
  rotate : ∀ event ∈ file.rotate, event.kind = .rotate
  bound : before + 1 < 2 ^ 64

section Stamped

variable {event stored : ObLogEvent}

theorem Stamped.kind_eq (hstamped : Stamped event stored) : stored.kind = event.kind := by
  obtain ⟨number, xid, position, rfl⟩ := hstamped
  rw [kind, kind]
  cases event.body <;> rfl

theorem Stamped.fits (hstamped : Stamped event stored) (hfits : event.body.Fits)
    (hnumber : ∀ number ∈ gtidNumber stored, number < 2 ^ 64) : stored.body.Fits := by
  obtain ⟨number, xid, position, rfl⟩ := hstamped
  cases hbody : event.body with
  | gtid gtid =>
    rw [hbody] at hfits hnumber
    exact { hfits with gtidTxnId := hnumber number rfl }
  | query query =>
    rw [hbody] at hfits
    exact hfits
  | _ => trivial

theorem map_kind_of_stamped {events storedEvents : List ObLogEvent}
    (hstamped : List.Forall₂ Stamped events storedEvents) :
    storedEvents.map kind = events.map kind := by
  induction hstamped with
  | nil => rfl
  | cons hevent _ ih => rw [map_cons, map_cons, hevent.kind_eq, ih]

theorem isTransaction_of_kinds {events others : List ObLogEvent}
    (hkinds : others.map kind = events.map kind)
    (hshape : IsTransaction events) : IsTransaction others := by
  cases hshape with
  | @dml gtid start commit rows hgtid hstart hrows hcommit =>
    rw [map_cons, map_cons, map_append, map_singleton] at hkinds
    obtain ⟨otherGtid, _, rfl, hotherGtid, hrest⟩ := map_eq_cons_iff.mp hkinds
    obtain ⟨otherStart, _, rfl, hotherStart, hbody⟩ := map_eq_cons_iff.mp hrest
    obtain ⟨otherRows, _, rfl, hotherRows, hlast⟩ := map_eq_append_iff.mp hbody
    obtain ⟨otherCommit, rfl, hotherCommit⟩ := map_eq_singleton_iff.mp hlast
    refine IsTransaction.dml (hotherGtid.trans hgtid) (hotherStart.trans hstart) ?_
      (hotherCommit.trans hcommit)
    intro row hrow
    have hmem : row.kind ∈ rows.map kind := hotherRows ▸ mem_map_of_mem hrow
    obtain ⟨original, horiginal, hkind⟩ := mem_map.mp hmem
    rw [← hkind, hrows original horiginal]
  | @ddl gtid statement hgtid hstatement =>
    obtain ⟨otherGtid, _, rfl, hotherGtid, hrest⟩ := map_eq_cons_iff.mp hkinds
    obtain ⟨otherStatement, rfl, hotherStatement⟩ := map_eq_singleton_iff.mp hrest
    exact IsTransaction.ddl (hotherGtid.trans hgtid) (hotherStatement.trans hstatement)

end Stamped

def LogFile.Headed (config : Config) (file : LogFile) : Prop :=
  ∃ before, before + 1 < 2 ^ 64 ∧
    file.previousGtids = gtidsUpTo config.masterServerUuid before

/-- In front of the current file, the index has the lines of files that are on disk. -/
structure Shelved (config : Config) (files : Files) (current : ℕ) : Prop where
  positive : ∀ line ∈ files.index.dropLast, 0 < line.index
  named : ∀ line ∈ files.index.dropLast, line.fileName = config.names.path line.index
  onDisk : ∀ line ∈ files.index.dropLast, ∃ file : LogFile, file.Laid config ∧
    file.Headed config ∧ files.disk line.fileName = some (file.bytes config)
  increasing : files.index.dropLast.Pairwise fun line next => line.index < next.index
  earlier : ∀ line ∈ files.index.dropLast, line.index < current

/-- The files between two events of which the first was kept. -/
structure Settled (config : Config) (storage : BinlogStorage) (files : Files) (layout : Layout) :
    Prop where
  ready : Ready config storage files layout
  shelved : Shelved config files layout.current.index
  indexed : Indexed config storage files layout

namespace Layout

variable (layout : Layout)

def extend (events : List ObLogEvent) : Layout :=
  { layout with current := { layout.current with events := layout.current.events ++ events } }

@[simp]
theorem extend_nil : layout.extend [] = layout := by
  simp [extend]

@[simp]
theorem extend_extend (front back : List ObLogEvent) :
    (layout.extend front).extend back = layout.extend (front ++ back) := by
  simp [extend]

end Layout

section Settled

variable {config : Config} {storage admitted : BinlogStorage} {files : Files} {layout : Layout}
  {event stamped : ObLogEvent}

theorem Shelved.write {current : ℕ} (hshelved : Shelved config files current) {after : Files}
    (hindex : after.index.dropLast = files.index.dropLast) (hdisk : ∀ index < current,
      after.disk (config.names.path index) = files.disk (config.names.path index)) :
    Shelved config after current := by
  refine ⟨hindex ▸ hshelved.positive, hindex ▸ hshelved.named, ?_, hindex ▸ hshelved.increasing,
    hindex ▸ hshelved.earlier⟩
  intro line hline
  rw [hindex] at hline
  rw [hshelved.named line hline, hdisk _ (hshelved.earlier line hline), ← hshelved.named line hline]
  exact hshelved.onDisk line hline

theorem Shelved.rotate (hshelved : Shelved config files layout.current.index)
    (hpositive : 0 < layout.current.index) (hheaded : layout.current.Headed config)
    {rotate : PendingRotate} {stored : BinlogStorage} {after : Files}
    (hready : Ready config stored after (layout.rotate rotate))
    (hdisk : ∀ index < layout.current.index,
      after.disk (config.names.path index) = files.disk (config.names.path index))
    {closing : BinlogIndexRecord}
    (hindex : after.index.dropLast = files.index.dropLast ++ [closing])
    (hclosing : closing.index = layout.current.index)
    (hname : closing.fileName = config.names.path layout.current.index) :
    Shelved config after rotate.index := by
  have hclosed : { layout.current with rotate := some rotate.event } ∈
      (layout.rotate rotate).closed := mem_append_right _ mem_cons_self
  have hfile := mem_append_left [(layout.rotate rotate).current] hclosed
  have hnext : layout.current.index < rotate.index :=
    hready.before { layout.current with rotate := some rotate.event } hclosed
  refine ⟨?_, ?_, ?_, ?_, ?_⟩
  · rw [hindex, forall_mem_append, forall_mem_singleton, hclosing]
    exact ⟨hshelved.positive, hpositive⟩
  · rw [hindex, forall_mem_append, forall_mem_singleton, hclosing]
    exact ⟨hshelved.named, hname⟩
  · rw [hindex, forall_mem_append, forall_mem_singleton]
    constructor
    · intro line hline
      rw [hshelved.named line hline, hdisk _ (hshelved.earlier line hline),
        ← hshelved.named line hline]
      exact hshelved.onDisk line hline
    · rw [hname]
      exact ⟨_, hready.laid _ hfile, hheaded, hready.onDisk _ hfile⟩
  · rw [hindex, pairwise_append]
    refine ⟨hshelved.increasing, pairwise_singleton _ _, fun line hline next hmem => ?_⟩
    rw [mem_singleton.mp hmem, hclosing]
    exact hshelved.earlier line hline
  · rw [hindex, forall_mem_append, forall_mem_singleton, hclosing]
    exact ⟨fun line hline => (hshelved.earlier line hline).trans hnext, hnext⟩

/-- A rotation writes the file that it closes and the next one. -/
theorem disk_initNextBinlogFile {current : ℕ} (hname : files.fileName = config.names.path current)
    {rotate : PendingRotate} (hindex : rotate.index = current + 1)
    (hnext : rotate.nextBinlogFileName = config.names.fillBinlogFileName rotate.index)
    (bytes : Bytes) (record : BinlogIndexRecord) {index : ℕ} (hlt : index < current) :
    ((files.persistentBinlog bytes record).initNextBinlogFile config rotate record).disk
      (config.names.path index) = files.disk (config.names.path index) := by
  have hcurrent : config.names.path index ≠ config.names.path current :=
    config.names.path_injective.ne hlt.ne
  have hopened : config.names.path index ≠ dataPath rotate.nextBinlogFileName := by
    rw [hnext]
    exact config.names.path_injective.ne (by omega)
  rw [Files.initNextBinlogFile, Files.addNextBinlogIndex]
  dsimp only
  rw [Disk.appendFile, Disk.write_of_ne _ _ hopened, hindex, Nat.add_sub_cancel, Disk.rewrite,
    Disk.write_of_ne _ _ hcurrent, Files.persistentBinlog, hname]
  exact Disk.write_of_ne _ _ hcurrent

section Settled

variable (hready : Ready config storage files layout)
  (hshelved : Shelved config files layout.current.index) (hfits : EventFits config storage event)

include hready hshelved hfits

theorem storeEvent_settled
    (hentry : admitEvent config storage event = (admitted, stamped, some false)) :
    ∃ after, storeEvent config (storage, files) event = (placed config admitted stamped, after) ∧
      Settled config (placed config admitted stamped) after
        (layout.extend [placedEvent config admitted stamped]) := by
  obtain ⟨happended, hindexed⟩ := storeEvent_stays hready hfits hentry
  rw [storeEvent, hentry] at happended hindexed ⊢
  refine ⟨_, rfl, happended, ?_, hindexed⟩
  refine hshelved.write (dropLast_concat ..) fun index hlt => ?_
  rw [Files.persistentBinlog, hready.fileName]
  exact Disk.write_of_ne _ _ (config.names.path_injective.ne hlt.ne)

theorem storeEvent_settled_rotated (henabled : config.checksum.enabled = true)
    (hvalid : ValidUuid config.masterServerUuid) (hpositive : 0 < layout.current.index)
    (hheaded : layout.current.Headed config)
    (hentry : admitEvent config storage event = (admitted, stamped, some true)) :
    ∃ after, storeEvent config (storage, files) event =
        (nextFile config (placed config admitted stamped), after) ∧
      Settled config (nextFile config (placed config admitted stamped)) after
        ((layout.extend [placedEvent config admitted stamped]).rotate
          (pendingRotate config (placed config admitted stamped))) := by
  obtain ⟨hrotated, hindexed⟩ := storeEvent_rotates hready hfits henabled hvalid hentry
  have hrecord := hready.admitEvent event
  rw [hentry] at hrecord
  rw [storeEvent, hentry] at hrotated hindexed ⊢
  refine ⟨_, rfl, hrotated, ?_, hindexed⟩
  refine @Shelved.rotate _ files (layout.extend [placedEvent config admitted stamped]) hshelved
    hpositive hheaded _ _ _ hrotated (fun index hlt => ?_) _ (dropLast_concat ..)
    hrecord.recordIndex hrecord.recordFile
  refine disk_initNextBinlogFile hready.fileName ?_ rfl _ _ hlt
  exact congrArg (· + 1) hrecord.fileIndex

end Settled

theorem admitEvent_body (hoff : storage.filterUtilCheckpointTrx = false)
    (hgtid : event.kind ≠ .gtid) (hheartbeat : event.kind ≠ .heartbeat) :
    ∃ xid, admitEvent config storage event =
      ({ storage with xid }, { event with body := numbered storage.txnGtidSeq xid event.body },
        some (mayRotate event && exceedsMaxBinlogSize config storage event)) := by
  rcases admitEvent_cases config storage event with
    ⟨hwhy, -⟩ | ⟨gtid, _, _, hbody, -⟩ | ⟨-, -, xid, hentry⟩
  · rcases hwhy with hkind | hon
    · exact absurd hkind hheartbeat
    · rw [hoff] at hon
      cases hon
  · exact absurd (kind_eq_gtid.mpr ⟨gtid, hbody⟩) hgtid
  · exact ⟨xid, hentry⟩

theorem mayRotate_eq_false (hkind : event.kind = .start ∨ event.kind = .rows) :
    mayRotate event = false := by
  rw [kind] at hkind
  rw [mayRotate]
  cases hbody : event.body with
  | query query =>
    change query.isDdl = false
    simp only [hbody, QueryEvent.kind] at hkind
    revert hkind
    cases query.isDdl <;> cases QueryEvent.isBegin query.sqlStatment <;> simp
  | xid value => simp [hbody] at hkind
  | _ => rfl

theorem storeEvents_middle {events : List ObLogEvent}
    (hkinds : ∀ event ∈ events, event.kind = .start ∨ event.kind = .rows)
    (hsettled : Settled config storage files layout)
    (hoff : storage.filterUtilCheckpointTrx = false) (hfits : PositionsFit config storage events) :
    ∃ xid curPos stored after,
      storeEvents config (storage, files) events = ({ storage with xid, curPos }, after) ∧
        Settled config { storage with xid, curPos } after (layout.extend stored) ∧
        List.Forall₂ Stamped events stored := by
  induction events generalizing storage files layout with
  | nil =>
    refine ⟨storage.xid, storage.curPos, [], files, rfl, ?_, List.Forall₂.nil⟩
    rw [Layout.extend_nil]
    exact hsettled
  | cons event events ih =>
    obtain ⟨hkind, hothers⟩ := forall_mem_cons.mp hkinds
    obtain ⟨hevent, hevents⟩ := hfits
    obtain ⟨firstXid, hentry⟩ := @admitEvent_body config storage event hoff
      (by rcases hkind with hkind | hkind <;> simp [hkind])
      (by rcases hkind with hkind | hkind <;> simp [hkind])
    rw [mayRotate_eq_false hkind, Bool.false_and] at hentry
    obtain ⟨next, hstore, hnext⟩ :=
      storeEvent_settled hsettled.ready hsettled.shelved hevent hentry
    rw [advance_kept hentry] at hevents
    obtain ⟨xid, curPos, stored, after, hrest, hafter, hstamped⟩ :=
      ih hothers hnext hoff hevents
    rw [Layout.extend_extend] at hafter
    refine ⟨xid, curPos, _, after, ?_, hafter, List.Forall₂.cons ⟨_, _, _, rfl⟩ hstamped⟩
    rw [storeEvents, foldl_cons, hstore]
    exact hrest

/-- What a transaction that is kept changes in the storage. -/
structure Booked (storage booked : BinlogStorage) (obTxn : Text) : Prop where
  filterUtil : booked.filterUtilCheckpointTrx = false
  txnGtidSeq : booked.txnGtidSeq = (storage.txnGtidSeq + 1) % 2 ^ 64
  previousGtids : booked.previousGtidMessages = storage.previousGtidMessages
  firstGtidSeq : booked.firstGtidSeq =
    if storage.firstGtidSeq = 0 then storage.txnGtidSeq else storage.firstGtidSeq
  currentMapping : booked.indexRecord.currentMapping = (obTxn, storage.txnGtidSeq)
  beforeMapping : booked.indexRecord.beforeMapping = storage.indexRecord.currentMapping

theorem admitEvent_booked {gtid : GtidLogEvent} (hbody : event.body = .gtid gtid)
    (hkeeps : Keeps storage event.obTxn) :
    ∃ admitted, admitEvent config storage event =
        (admitted, { event with body := numbered storage.txnGtidSeq storage.xid event.body },
          some false) ∧
      Booked storage admitted event.obTxn := by
  obtain ⟨kept, hentry, hoff, hseq⟩ := admitEvent_kept_gtid config hbody hkeeps
  rcases admitEvent_cases config storage event with
    ⟨-, _, _, _, _, hcase⟩ | ⟨_, _, _, -, -, hcase⟩ | ⟨hkind, -⟩
  · rw [hcase] at hentry
    exact absurd (congrArg (fun entry => entry.2.2) hentry) (by simp)
  · have hkept := congrArg Prod.fst (hcase.symm.trans hentry)
    refine ⟨_, hcase, ?_, rfl, rfl, rfl, rfl, rfl⟩
    dsimp only at hkept
    rw [hkept, hoff]
  · exact absurd (kind_eq_gtid.mpr ⟨gtid, hbody⟩) hkind

/-- Storing a transaction that is kept: its events go to the current file, which may
be closed behind them. -/
theorem storeEvents_kept (henabled : config.checksum.enabled = true)
    (hvalid : ValidUuid config.masterServerUuid) (hready : Ready config storage files layout)
    (hshelved : Shelved config files layout.current.index)
    (hpositive : 0 < layout.current.index) (hheaded : layout.current.Headed config)
    (transaction : Transaction) (hkeeps : Keeps storage transaction.obTxn)
    (hfits : PositionsFit config storage transaction.events) :
    ∃ (booked : BinlogStorage) (stored : Transaction) (after : Files),
      Booked storage booked transaction.obTxn ∧
      List.Forall₂ Stamped transaction.events stored.events ∧
      stored.number = storage.txnGtidSeq ∧
      ((storeEvents config (storage, files) transaction.events = (booked, after) ∧
          Settled config booked after (layout.extend stored.events)) ∨
        (storeEvents config (storage, files) transaction.events = (nextFile config booked, after) ∧
          Settled config (nextFile config booked) after
            ((layout.extend stored.events).rotate (pendingRotate config booked)))) := by
  obtain ⟨event, gtid, middle, last, hevents, hgtid, -, hmiddle, hlast⟩ := transaction.exists_last
  have hown : event.obTxn = transaction.obTxn :=
    Transaction.obTxn_of_gtid (hevents ▸ mem_cons_self)
      (kind_eq_gtid.mpr ⟨gtid, hgtid⟩)
  rw [hevents] at hfits
  obtain ⟨hfirst, hrest⟩ := hfits
  obtain ⟨hinner, hend, -⟩ := (positionsFit_append config).mp hrest
  -- the gtid event turns the filter off and gives the number
  obtain ⟨admitted, hadmitted, hbooked⟩ := @admitEvent_booked config storage event gtid hgtid
    (hown ▸ hkeeps)
  obtain ⟨filesGtid, hstoreGtid, hsettledGtid⟩ :=
    storeEvent_settled hready hshelved hfirst hadmitted
  rw [advance_kept hadmitted] at hinner hend
  obtain ⟨xid, curPos, storedMiddle, filesMiddle, hstoreMiddle, hsettledMiddle, hstampedMiddle⟩ :=
    storeEvents_middle hmiddle hsettledGtid hbooked.filterUtil hinner
  rw [← storeEvents_fst middle _ filesGtid, hstoreMiddle] at hend
  generalize hbehind : ({ placed config admitted _ with xid, curPos } : BinlogStorage) = behind
    at hstoreMiddle hsettledMiddle hend
  have hoff : behind.filterUtilCheckpointTrx = false := by
    rw [← hbehind]
    exact hbooked.filterUtil
  obtain ⟨lastXid, hlastEntry⟩ := @admitEvent_body config behind last hoff
    (by rcases hlast with hkind | hkind <;> simp [hkind])
    (by rcases hlast with hkind | hkind <;> simp [hkind])
  generalize hlastStamped : ({ last with body := numbered behind.txnGtidSeq lastXid last.body } :
    ObLogEvent) = lastStamped at hlastEntry
  have hstamped : List.Forall₂ Stamped transaction.events
      (placedEvent config admitted
          { event with body := numbered storage.txnGtidSeq storage.xid event.body } ::
        (storedMiddle ++ [placedEvent config { behind with xid := lastXid } lastStamped])) := by
    rw [hevents]
    refine List.Forall₂.cons ⟨_, _, _, rfl⟩ (rel_append hstampedMiddle ?_)
    subst hlastStamped
    exact List.Forall₂.cons ⟨_, _, _, rfl⟩ List.Forall₂.nil
  have hshape := isTransaction_of_kinds (map_kind_of_stamped hstamped) transaction.shape
  have hstore : storeEvents config (storage, files) transaction.events =
      storeEvent config (behind, filesMiddle) last := by
    rw [storeEvents] at hstoreMiddle
    rw [hevents, storeEvents, foldl_cons, hstoreGtid, foldl_append, hstoreMiddle]
    rfl
  refine ⟨placed config { behind with xid := lastXid } lastStamped, ⟨_, hshape⟩, ?_⟩
  have hbookedLast :
      Booked storage (placed config { behind with xid := lastXid } lastStamped)
        transaction.obTxn := by
    subst hbehind
    rw [← hown]
    exact ⟨hbooked.filterUtil, hbooked.txnGtidSeq, hbooked.previousGtids, hbooked.firstGtidSeq,
      hbooked.currentMapping, hbooked.beforeMapping⟩
  have hnumber : (⟨_, hshape⟩ : Transaction).number = storage.txnGtidSeq := by
    simp [Transaction.number, placedEvent, numbered, hgtid]
  cases hrotate : mayRotate last && exceedsMaxBinlogSize config behind last with
  | false =>
    rw [hrotate] at hlastEntry
    obtain ⟨after, hstoreLast, hsettledLast⟩ :=
      storeEvent_settled hsettledMiddle.ready hsettledMiddle.shelved hend hlastEntry
    rw [Layout.extend_extend, Layout.extend_extend] at hsettledLast
    exact ⟨after, hbookedLast, hstamped, hnumber, Or.inl ⟨hstore.trans hstoreLast, hsettledLast⟩⟩
  | true =>
    rw [hrotate] at hlastEntry
    obtain ⟨after, hstoreLast, hsettledLast⟩ :=
      storeEvent_settled_rotated hsettledMiddle.ready hsettledMiddle.shelved hend henabled hvalid
        hpositive hheaded hlastEntry
    rw [Layout.extend_extend, Layout.extend_extend] at hsettledLast
    exact ⟨after, hbookedLast, hstamped, hnumber, Or.inr ⟨hstore.trans hstoreLast, hsettledLast⟩⟩

end Settled

section Dropped

variable {config : Config} {storage behind : BinlogStorage} {files : Files}
  {events : List ObLogEvent}

/-- The storage differs in its filter and its next number only. -/
def Filtered (storage behind : BinlogStorage) : Prop :=
  ∃ txnGtidSeq meetInitialTrx filterUtilCheckpointTrx,
    behind = { storage with txnGtidSeq, meetInitialTrx, filterUtilCheckpointTrx }

theorem admitEvent_filtered {event stamped : ObLogEvent} {admitted : BinlogStorage}
    (hentry : admitEvent config storage event = (admitted, stamped, none)) :
    Filtered storage admitted := by
  rcases admitEvent_cases config storage event with
    ⟨-, seq, meet, filterUtil, _, hcase⟩ | ⟨_, _, _, -, -, hcase⟩ | ⟨-, -, _, hcase⟩
  · exact ⟨seq, meet, filterUtil, (congrArg Prod.fst (hcase.symm.trans hentry)).symm⟩
  · exact absurd (congrArg (fun entry => entry.2.2) (hcase.symm.trans hentry)) (by simp)
  · exact absurd (congrArg (fun entry => entry.2.2) (hcase.symm.trans hentry)) (by simp)

theorem storeEvents_dropped (hfresh : ∀ event ∈ events, event.filter = true) {numbers : List ℕ}
    (houtcome : outcome config storage events = ⟨behind, [], numbers⟩) :
    storeEvents config (storage, files) events = (behind, files) ∧ Filtered storage behind := by
  induction events generalizing storage with
  | nil =>
    obtain rfl : storage = behind := congrArg Outcome.storage houtcome
    exact ⟨rfl, _, _, _, rfl⟩
  | cons event events ih =>
    obtain ⟨hevent, hothers⟩ := forall_mem_cons.mp hfresh
    rcases hentry : admitEvent config storage event with ⟨admitted, stamped, _ | isRotate⟩
    · have hfilter := (admitEvent_same config storage event).2.2
      rw [hentry, hevent] at hfilter
      have hadvance := advance_of_dropped config hentry
      rw [outcome_cons_dropped config (by rw [hadvance]; exact hfilter), hadvance] at houtcome
      obtain ⟨hstore, _, _, _, rfl⟩ := ih hothers houtcome
      obtain ⟨_, _, _, rfl⟩ := admitEvent_filtered hentry
      refine ⟨?_, _, _, _, rfl⟩
      rw [storeEvents, foldl_cons, storeEvent, hentry]
      exact hstore
    · have hkept := outcome_cons_kept config (advance_of_kept config hentry).2.1 events
      rw [houtcome] at hkept
      cases congrArg Outcome.kept hkept

end Dropped

end OblogProxy.Storage
