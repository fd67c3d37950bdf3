import OblogProxy.Recovery.GtidManager

/-!
# Checkpoints saved by two threads

The thread that allocates GTID numbers marks every transaction and every heartbeat;
with a heartbeat it also compresses what has been marked into a checkpoint.  The
thread that stores the events does the same for each batch it has written, with the
last transaction of that batch.  A checkpoint takes its transaction from the caller
and its second from whatever was marked last.
-/

namespace OblogProxy.Recovery

open Gtid List Option GtidManager

structure MarkedTrx where
  xid : Text
  gtid : ℕ
  /-- In microseconds. -/
  checkpoint : ℕ

namespace MarkedTrx

def commitSecond (trx : MarkedTrx) : ℕ :=
  trx.checkpoint / 1000000

def mapping (trx : MarkedTrx) : Text × ℕ :=
  (trx.xid, trx.gtid)

end MarkedTrx

inductive ManagerCall where
  | markTrx (trx : MarkedTrx)
  | markHeartbeat (checkpoint : ℕ)
  | compress (trxMapping : Text × ℕ)

/-- The manager, with what has been marked and saved so far. -/
structure Marking where
  manager : GtidManager := {}
  marked : List MarkedTrx := []
  saved : List GtidSeq := []
  now : ℕ := 0

namespace Marking

/-- What `compress_and_save_gtid_seq` saves. -/
def savedBy (config : GtidConfig) (manager : GtidManager) (trxMapping : Text × ℕ) :
    List GtidSeq :=
  manager.gtidCheckpointSet ++ (manager.compressed config trxMapping).toList

def step (config : GtidConfig) (state : Marking) : ManagerCall → Marking
  | .markTrx trx =>
    { state with
      manager := state.manager.markEvent config false trx.checkpoint trx.mapping
      marked := state.marked ++ [trx]
      now := trx.checkpoint }
  | .markHeartbeat checkpoint =>
    { state with
      manager := state.manager.markEvent config true checkpoint ([], 0)
      now := checkpoint }
  | .compress trxMapping =>
    { state with
      manager := state.manager.compressAndSaveGtidSeq config trxMapping
      saved := state.saved ++ savedBy config state.manager trxMapping }

/-- Checkpoints do not decrease, numbers increase, and a mapping that is passed on is
the one of a marked transaction or the one before all of them. -/
def Allows (state : Marking) : ManagerCall → Prop
  | .markTrx trx =>
    state.now ≤ trx.checkpoint ∧ trx.checkpoint < 2 ^ 64 ∧
      trx.xid ≠ [] ∧ (∀ char ∈ trx.xid, GtidSeq.FieldChar char) ∧
      0 < trx.gtid ∧ trx.gtid < 2 ^ 63 ∧ ∀ earlier ∈ state.marked, earlier.gtid < trx.gtid
  | .markHeartbeat checkpoint => state.now ≤ checkpoint ∧ checkpoint < 2 ^ 64
  | .compress trxMapping =>
    trxMapping = ([], 0) ∨ ∃ trx ∈ state.marked, trxMapping = trx.mapping

/-- A saved entry that names a transaction has its second, and no look-up gives a
second later than the one of the transaction it is for. -/
structure Right (state : Marking) : Prop where
  named : ∀ gtidSeq ∈ state.saved, gtidSeq.xidStart ≠ [] →
    ∃ trx ∈ state.marked, trx.mapping = (gtidSeq.xidStart, gtidSeq.gtidStart) ∧
      trx.commitSecond = gtidSeq.commitVersionStart
  lookup : ∀ trx ∈ state.marked, ∀ gtidSeq,
    state.manager.getFirstLeGtidSeq trx.gtid = some gtidSeq →
      gtidSeq.commitVersionStart ≤ trx.commitSecond

/-- Nothing of another second has been marked behind the mapping.  If a transaction was
marked since the last entry, the mapping is of the second of the last transaction;
otherwise it is the last transaction. -/
def Current (state : Marking) (trxMapping : Text × ℕ) : Prop :=
  if 0 < state.manager.nofTrx then
    ∀ trx ∈ state.marked, trxMapping.2 ≤ trx.gtid →
      trx.commitSecond = state.manager.currTrxCheckpoint
  else ∀ trx ∈ state.marked, trx.gtid ≤ trxMapping.2

/-- A call that saves a compressed entry is given a current mapping. -/
def PassesCurrent (config : GtidConfig) (state : Marking) : ManagerCall → Prop
  | .compress trxMapping =>
    (state.manager.compressed config trxMapping).isSome → state.Current trxMapping
  | _ => True

def Allowed (config : GtidConfig) : Marking → List ManagerCall → Prop
  | _, [] => True
  | state, call :: calls => state.Allows call ∧ Allowed config (state.step config call) calls

def AlwaysRight (config : GtidConfig) : Marking → List ManagerCall → Prop
  | state, [] => state.Right
  | state, call :: calls => state.Right ∧ AlwaysRight config (state.step config call) calls

def AlwaysCurrent (config : GtidConfig) : Marking → List ManagerCall → Prop
  | _, [] => True
  | state, call :: calls =>
    state.PassesCurrent config call ∧ AlwaysCurrent config (state.step config call) calls

end Marking

namespace GtidManager

variable {config : GtidConfig} {manager : GtidManager} {saved : List GtidSeq}

/-- Since the start of the manager these entries were saved: lines in memory are made
of them, and the newest line of the newest entry. -/
structure Caches (manager : GtidManager) (saved : List GtidSeq) : Prop where
  started : manager.firstEntryAfterRestarted = false
  cached : ∀ entry ∈ manager.gtidSeqSet, ∃ gtidSeq ∈ saved, entry.2 = gtidSeq.serialize
  newest : manager.gtidSeqSet.getLast?.map Prod.snd = saved.getLast?.map GtidSeq.serialize

theorem Caches.save (config : GtidConfig) (hcaches : manager.Caches saved) (gtidSeq : GtidSeq) :
    (manager.saveGtidSeq config gtidSeq).Caches (saved ++ [gtidSeq]) := by
  have hskips : manager.skips gtidSeq = false := by
    rw [skips, hcaches.started, Bool.false_and]
  refine ⟨?_, ?_, ?_⟩
  · rw [saveGtidSeq, hskips]
    rfl
  · intro entry hentry
    rcases mem_saveGtidSeq hentry with hold | hnew
    · obtain ⟨old, hsaved, heq⟩ := hcaches.cached entry hold
      exact ⟨old, mem_append_left _ hsaved, heq⟩
    · exact ⟨gtidSeq, by simp, hnew⟩
  · rw [saveGtidSeq, hskips]
    simp

theorem Caches.saveAll (config : GtidConfig) (hcaches : manager.Caches saved)
    (gtidSeqs : List GtidSeq) :
    (manager.saveAll config gtidSeqs).Caches (saved ++ gtidSeqs) := by
  induction gtidSeqs generalizing manager saved with
  | nil => simpa [saveAll] using hcaches
  | cons gtidSeq gtidSeqs ih =>
    have hafter := ih (hcaches.save config gtidSeq)
    rwa [append_assoc] at hafter

/-- What the next compressed entry depends on, besides the mapping. -/
def counters (manager : GtidManager) : ℕ × ℕ × ℕ × ℕ :=
  (manager.nofTrx, manager.currHbCheckpoint, manager.currTrxCheckpoint,
    manager.lastSavedCommitVersionHigh)

theorem counters_saveGtidSeq (gtidSeq : GtidSeq) :
    (manager.saveGtidSeq config gtidSeq).counters = manager.counters := by
  rw [saveGtidSeq]
  split_ifs
  · rfl
  · rfl

theorem counters_saveAll (gtidSeqs : List GtidSeq) :
    (manager.saveAll config gtidSeqs).counters = manager.counters := by
  induction gtidSeqs generalizing manager with
  | nil => rfl
  | cons gtidSeq gtidSeqs ih => exact ih.trans (counters_saveGtidSeq gtidSeq)

theorem compressed_of_counters {other : GtidManager} (hcounters : other.counters = manager.counters)
    (trxMapping : Text × ℕ) :
    other.compressed config trxMapping = manager.compressed config trxMapping := by
  simp only [counters, Prod.mk.injEq] at hcounters
  obtain ⟨hnofTrx, hcurrHb, hcurrTrx, hlastSaved⟩ := hcounters
  rw [compressed, compressed, maxCurrCheckpoint, maxCurrCheckpoint, hnofTrx, hcurrHb, hcurrTrx,
    hlastSaved]

theorem clearOutdated_cases (currentCheckpoint : ℕ) :
    ∃ file lastCheckpointPurged,
      manager.clearOutdatedHeartbeatGtidSeqs config currentCheckpoint =
        { manager with file, lastCheckpointPurged } := by
  rw [clearOutdatedHeartbeatGtidSeqs]
  split_ifs
  · exact ⟨_, _, rfl⟩
  · exact ⟨_, _, rfl⟩

theorem saveGtidSeq_cleared (config : GtidConfig) (manager : GtidManager) (gtidSeq : GtidSeq) :
    { manager with gtidCheckpointSet := [] }.saveGtidSeq config gtidSeq =
      { manager.saveGtidSeq config gtidSeq with gtidCheckpointSet := [] } := by
  change (if manager.skips gtidSeq then _ else _) = _
  rw [saveGtidSeq]
  split_ifs
  · rfl
  · rfl

/-- What `compress_and_save_gtid_seq` does: it saves the marked entries and the compressed one,
and then it may clear the file. -/
structure CompressesTo (config : GtidConfig) (manager : GtidManager) (trxMapping : Text × ℕ)
    (after : GtidManager) : Prop where
  rewrites : Rewrites (manager.saveAll config (Marking.savedBy config manager trxMapping)) after
  currHb_eq : after.currHbCheckpoint = manager.currHbCheckpoint
  currTrx_eq : after.currTrxCheckpoint = manager.currTrxCheckpoint
  checkpointSet_eq : after.gtidCheckpointSet = []
  counted : manager.compressed config trxMapping = none →
    after.nofTrx = manager.nofTrx ∧
      after.lastSavedCommitVersionHigh = manager.lastSavedCommitVersionHigh
  settled : (manager.compressed config trxMapping).isSome →
    after.nofTrx = 0 ∧ after.lastSavedCommitVersionHigh = manager.maxCurrCheckpoint

theorem compressesTo (config : GtidConfig) (manager : GtidManager) (trxMapping : Text × ℕ) :
    CompressesTo config manager trxMapping
      (manager.compressAndSaveGtidSeq config trxMapping) := by
  set marked := manager.saveAll config manager.gtidCheckpointSet with hmarked
  have hcounters : marked.counters = manager.counters :=
    @counters_saveAll config manager manager.gtidCheckpointSet
  have hcompressed := @compressed_of_counters config manager
    { marked with gtidCheckpointSet := [] } hcounters trxMapping
  rw [compressAndSaveGtidSeq, ← hmarked]
  rw [hcompressed]
  simp only [counters, Prod.mk.injEq] at hcounters
  obtain ⟨hnofTrx, hcurrHb, hcurrTrx, hlastSaved⟩ := hcounters
  rcases hseq : manager.compressed config trxMapping with - | gtidSeq
  · refine ⟨?_, hcurrHb, hcurrTrx, rfl, fun _ => ⟨hnofTrx, hlastSaved⟩, by simp [hseq]⟩
    rw [Marking.savedBy, hseq, toList_none, append_nil]
    exact ⟨rfl, rfl, .inl rfl⟩
  · dsimp only
    rw [saveGtidSeq_cleared]
    have hmax : maxCurrCheckpoint { marked with gtidCheckpointSet := [] } =
        manager.maxCurrCheckpoint := by
      rw [maxCurrCheckpoint, maxCurrCheckpoint, hcurrHb, hcurrTrx]
    have hafter := @counters_saveGtidSeq config marked gtidSeq
    simp only [counters, Prod.mk.injEq] at hafter
    obtain ⟨-, hafterHb, hafterTrx, -⟩ := hafter
    set uncleared : GtidManager :=
      { marked.saveGtidSeq config gtidSeq with
        gtidCheckpointSet := []
        lastSavedCommitVersionHigh := maxCurrCheckpoint { marked with gtidCheckpointSet := [] }
        nofTrx := 0 } with huncleared
    have hrewrites := rewrites_clearOutdated config uncleared
      (maxCurrCheckpoint { marked with gtidCheckpointSet := [] })
    obtain ⟨file, purged, hclear⟩ := @clearOutdated_cases config uncleared
      (maxCurrCheckpoint { marked with gtidCheckpointSet := [] })
    refine ⟨?_, ?_, ?_, ?_, by simp [hseq], fun _ => ?_⟩
    · rw [Marking.savedBy, hseq, toList_some, saveAll, foldl_append]
      exact ⟨hrewrites.gtidSeqSet_eq, hrewrites.started_eq, hrewrites.file⟩
    · rw [hclear]
      exact hafterHb.trans hcurrHb
    · rw [hclear]
      exact hafterTrx.trans hcurrTrx
    · rw [hclear]
    · rw [hclear]
      exact ⟨rfl, hmax⟩

theorem Caches.compress (config : GtidConfig) (hcaches : manager.Caches saved)
    (trxMapping : Text × ℕ) :
    (manager.compressAndSaveGtidSeq config trxMapping).Caches
      (saved ++ Marking.savedBy config manager trxMapping) := by
  obtain ⟨hset, hfirst, -⟩ := (compressesTo config manager trxMapping).rewrites
  obtain ⟨hstarted, hcached, hnewest⟩ :=
    hcaches.saveAll config (Marking.savedBy config manager trxMapping)
  exact ⟨hfirst.trans hstarted, hset ▸ hcached, hset ▸ hnewest⟩

end GtidManager

namespace Marking

variable {config : GtidConfig} {state : Marking} {gtidSeq : GtidSeq}

structure Inv (state : Marking) : Prop where
  now_lt : state.now < 2 ^ 64
  trx : ∀ trx ∈ state.marked, trx.xid ≠ [] ∧ (∀ char ∈ trx.xid, GtidSeq.FieldChar char) ∧
    0 < trx.gtid ∧ trx.gtid < 2 ^ 63
  sorted : state.marked.Pairwise fun earlier later =>
    earlier.gtid < later.gtid ∧ earlier.commitSecond ≤ later.commitSecond
  marked_le : ∀ trx ∈ state.marked, trx.commitSecond ≤ state.manager.currTrxCheckpoint
  currTrx_eq : ∀ trx, state.marked.getLast? = some trx →
    state.manager.currTrxCheckpoint = trx.commitSecond
  currTrx_le : state.manager.currTrxCheckpoint ≤ state.now / 1000000
  currHb_le : state.manager.currHbCheckpoint ≤ state.now / 1000000
  settled : state.manager.nofTrx = 0 →
    state.manager.currTrxCheckpoint ≤ state.manager.lastSavedCommitVersionHigh
  checkpointSet : ∀ gtidSeq ∈ state.manager.gtidCheckpointSet,
    ∃ trx ∈ state.marked, gtidSeq = ⟨trx.commitSecond, trx.xid, trx.gtid, 0⟩
  caches : state.manager.Caches state.saved
  saved_le : ∀ gtidSeq ∈ state.saved, gtidSeq.commitVersionStart ≤ state.now / 1000000
  readable : ∀ gtidSeq ∈ state.saved, gtidSeq.Readable

theorem inv_start : Inv {} := by
  refine ⟨by decide, ?_, List.Pairwise.nil, ?_, ?_, by decide, by decide, fun _ => le_rfl, ?_,
    ⟨rfl, ?_, rfl⟩, ?_, ?_⟩ <;> simp

theorem second_le_maxCommitVersion {checkpoint : ℕ} (hlt : checkpoint < 2 ^ 64) :
    checkpoint / 1000000 ≤ GtidSeq.maxCommitVersion :=
  Nat.div_le_div_right (Nat.le_pred_of_lt hlt)

theorem Inv.markTrx (hinv : state.Inv) {trx : MarkedTrx} (hallows : state.Allows (.markTrx trx)) :
    (state.step config (.markTrx trx)).Inv := by
  obtain ⟨hnow, hlt, hxid, hchars, hpos, hgtid, hearlier⟩ := hallows
  have hsecond : state.now / 1000000 ≤ trx.commitSecond := Nat.div_le_div_right hnow
  have hbefore : ∀ earlier ∈ state.marked, earlier.commitSecond ≤ trx.commitSecond :=
    fun earlier hmem => (hinv.marked_le earlier hmem).trans (hinv.currTrx_le.trans hsecond)
  refine
    { now_lt := hlt
      trx := ?_
      sorted := ?_
      marked_le := ?_
      currTrx_eq := ?_
      currTrx_le := le_rfl
      currHb_le := hinv.currHb_le.trans hsecond
      settled := ?_
      checkpointSet := ?_
      caches := ⟨hinv.caches.started, hinv.caches.cached, hinv.caches.newest⟩
      saved_le := fun gtidSeq hmem => (hinv.saved_le gtidSeq hmem).trans hsecond
      readable := hinv.readable }
  · intro other hother
    rcases mem_append.mp hother with hold | hnew
    · exact hinv.trx other hold
    · rw [mem_singleton.mp hnew]
      exact ⟨hxid, hchars, hpos, hgtid⟩
  · refine pairwise_append.mpr ⟨hinv.sorted, pairwise_singleton _ _, ?_⟩
    intro earlier hmem later hlater
    rw [mem_singleton.mp hlater]
    exact ⟨hearlier earlier hmem, hbefore earlier hmem⟩
  · intro other hother
    rcases mem_append.mp hother with hold | hnew
    · exact hbefore other hold
    · rw [mem_singleton.mp hnew]
      exact le_rfl
  · intro last hlast
    obtain rfl := some.inj (getLast?_concat.symm.trans hlast)
    rfl
  · intro hnone
    exact absurd hnone (Nat.succ_ne_zero _)
  · intro gtidSeq hmem
    have hcases : gtidSeq ∈ state.manager.gtidCheckpointSet ∨
        gtidSeq = ⟨trx.commitSecond, trx.xid, trx.gtid, 0⟩ := by
      simp only [step, markEvent, Bool.false_eq_true, if_false] at hmem
      split_ifs at hmem
      · rcases mem_append.mp hmem with hold | hnew
        · exact Or.inl hold
        · exact Or.inr (mem_singleton.mp hnew)
      · exact Or.inl hmem
    rcases hcases with hold | rfl
    · obtain ⟨other, hother, heq⟩ := hinv.checkpointSet gtidSeq hold
      exact ⟨other, mem_append_left _ hother, heq⟩
    · exact ⟨trx, mem_append_right _ mem_cons_self, rfl⟩

theorem Inv.markHeartbeat (hinv : state.Inv) {checkpoint : ℕ}
    (hallows : state.Allows (.markHeartbeat checkpoint)) :
    (state.step config (.markHeartbeat checkpoint)).Inv := by
  obtain ⟨hnow, hlt⟩ := hallows
  have hsecond : state.now / 1000000 ≤ checkpoint / 1000000 := Nat.div_le_div_right hnow
  exact
    { now_lt := hlt
      trx := hinv.trx
      sorted := hinv.sorted
      marked_le := hinv.marked_le
      currTrx_eq := hinv.currTrx_eq
      currTrx_le := hinv.currTrx_le.trans hsecond
      currHb_le := le_rfl
      settled := hinv.settled
      checkpointSet := hinv.checkpointSet
      caches := ⟨hinv.caches.started, hinv.caches.cached, hinv.caches.newest⟩
      saved_le := fun gtidSeq hmem => (hinv.saved_le gtidSeq hmem).trans hsecond
      readable := hinv.readable }

variable {trxMapping : Text × ℕ}

theorem compressed_eq_some {manager : GtidManager}
    (hcompressed : manager.compressed config trxMapping = some gtidSeq) :
    manager.lastSavedCommitVersionHigh < manager.maxCurrCheckpoint ∧
      gtidSeq.gtidStart = trxMapping.2 ∧
      (0 < manager.nofTrx → gtidSeq.commitVersionStart = manager.currTrxCheckpoint ∧
        gtidSeq.xidStart = trxMapping.1) ∧
      (manager.nofTrx = 0 → gtidSeq.commitVersionStart = manager.currHbCheckpoint ∧
        gtidSeq.xidStart = []) := by
  rw [compressed, ite_eq_iff] at hcompressed
  rcases hcompressed with ⟨-, hnone⟩ | ⟨hle, hcompressed⟩
  · cases hnone
  rw [ite_eq_iff] at hcompressed
  rcases hcompressed with ⟨-, hsome⟩ | ⟨-, hnone⟩
  swap
  · cases hnone
  obtain rfl := some.inj hsome
  refine ⟨Nat.lt_of_not_le hle, rfl, ?_, ?_⟩
  · intro hsome
    exact ⟨if_pos hsome, if_pos hsome⟩
  · intro hnone
    exact ⟨if_neg (by omega), if_neg (by omega)⟩

/-- Every entry that a call saves can be read back and is not later than the clock. -/
theorem Inv.savedBy (hinv : state.Inv) {trxMapping : Text × ℕ}
    (hallows : state.Allows (.compress trxMapping)) :
    ∀ gtidSeq ∈ savedBy config state.manager trxMapping,
      gtidSeq.commitVersionStart ≤ state.now / 1000000 ∧ gtidSeq.Readable := by
  have hmax := second_le_maxCommitVersion hinv.now_lt
  have hmapping : trxMapping.2 < 2 ^ 63 ∧ ∀ char ∈ trxMapping.1, GtidSeq.FieldChar char := by
    rcases hallows with rfl | ⟨trx, hmem, rfl⟩
    · exact ⟨by decide, by simp⟩
    · obtain ⟨-, hchars, -, hgtid⟩ := hinv.trx trx hmem
      exact ⟨hgtid, hchars⟩
  intro gtidSeq hmem
  rcases mem_append.mp hmem with hmark | hcompressed
  · obtain ⟨trx, htrx, rfl⟩ := hinv.checkpointSet gtidSeq hmark
    have hle := (hinv.marked_le trx htrx).trans hinv.currTrx_le
    obtain ⟨-, hchars, -, hgtid⟩ := hinv.trx trx htrx
    exact ⟨hle, hle.trans hmax, hgtid, hchars⟩
  · obtain ⟨-, hgtid, hsome, hnone⟩ := compressed_eq_some (mem_toList.mp hcompressed)
    rcases Nat.eq_zero_or_pos state.manager.nofTrx with hzero | hpos
    · obtain ⟨hsecond, hxid⟩ := hnone hzero
      have hle := hsecond.trans_le hinv.currHb_le
      exact ⟨hle, hle.trans hmax, hgtid ▸ hmapping.1, by simp [hxid]⟩
    · obtain ⟨hsecond, hxid⟩ := hsome hpos
      have hle := hsecond.trans_le hinv.currTrx_le
      exact ⟨hle, hle.trans hmax, hgtid ▸ hmapping.1, hxid ▸ hmapping.2⟩

theorem Inv.compress (hinv : state.Inv) (hallows : state.Allows (.compress trxMapping)) :
    (state.step config (.compress trxMapping)).Inv := by
  have hafter := compressesTo config state.manager trxMapping
  have hnew := @Inv.savedBy config state hinv trxMapping hallows
  refine
    { now_lt := hinv.now_lt
      trx := hinv.trx
      sorted := hinv.sorted
      marked_le := fun trx hmem => (hinv.marked_le trx hmem).trans hafter.currTrx_eq.ge
      currTrx_eq := fun trx hlast => hafter.currTrx_eq.trans (hinv.currTrx_eq trx hlast)
      currTrx_le := hafter.currTrx_eq.trans_le hinv.currTrx_le
      currHb_le := hafter.currHb_eq.trans_le hinv.currHb_le
      settled := ?_
      checkpointSet := ?_
      caches := hinv.caches.compress config trxMapping
      saved_le := ?_
      readable := ?_ }
  · intro hnone
    change (state.manager.compressAndSaveGtidSeq config trxMapping).currTrxCheckpoint ≤
      (state.manager.compressAndSaveGtidSeq config trxMapping).lastSavedCommitVersionHigh
    rw [hafter.currTrx_eq]
    rcases hseq : state.manager.compressed config trxMapping with - | gtidSeq
    · obtain ⟨hnofTrx, hlastSaved⟩ := hafter.counted hseq
      rw [hlastSaved]
      exact hinv.settled (hnofTrx.symm.trans hnone)
    · rw [(hafter.settled (by simp [hseq])).2]
      exact le_max_right _ _
  · intro gtidSeq hmem
    change gtidSeq ∈ (state.manager.compressAndSaveGtidSeq config trxMapping).gtidCheckpointSet
      at hmem
    rw [hafter.checkpointSet_eq] at hmem
    cases hmem
  · intro gtidSeq hmem
    rcases mem_append.mp hmem with hold | hsaved
    · exact hinv.saved_le gtidSeq hold
    · exact (hnew gtidSeq hsaved).1
  · intro gtidSeq hmem
    rcases mem_append.mp hmem with hold | hsaved
    · exact hinv.readable gtidSeq hold
    · exact (hnew gtidSeq hsaved).2

theorem Inv.step (hinv : state.Inv) {call : ManagerCall} (hallows : state.Allows call) :
    (state.step config call).Inv := by
  cases call with
  | markTrx trx => exact hinv.markTrx hallows
  | markHeartbeat checkpoint => exact hinv.markHeartbeat hallows
  | compress trxMapping => exact hinv.compress hallows

theorem Inv.gtid_injective (hinv : state.Inv) {left right : MarkedTrx}
    (hleft : left ∈ state.marked) (hright : right ∈ state.marked) (heq : left.gtid = right.gtid) :
    left = right := by
  have hnodup : (state.marked.map MarkedTrx.gtid).Nodup :=
    pairwise_map.mpr (hinv.sorted.imp fun hbefore => hbefore.1.ne)
  exact inj_on_of_nodup_map hnodup hleft hright heq

structure RightEntry (marked : List MarkedTrx) (gtidSeq : GtidSeq) : Prop where
  named : gtidSeq.xidStart ≠ [] →
    ∃ trx ∈ marked, trx.mapping = (gtidSeq.xidStart, gtidSeq.gtidStart) ∧
      trx.commitSecond = gtidSeq.commitVersionStart
  later : ∀ trx ∈ marked, gtidSeq.gtidStart < trx.gtid →
    gtidSeq.commitVersionStart ≤ trx.commitSecond

def AllRight (state : Marking) : Prop :=
  ∀ gtidSeq ∈ state.saved, RightEntry state.marked gtidSeq

section Kept

variable (hinv : state.Inv)

include hinv

theorem Inv.commitSecond_le {left right : MarkedTrx} (hleft : left ∈ state.marked)
    (hright : right ∈ state.marked) (hlt : left.gtid < right.gtid) :
    left.commitSecond ≤ right.commitSecond := by
  obtain ⟨first, hfirst, rfl⟩ := getElem_of_mem hleft
  obtain ⟨second, hsecond, rfl⟩ := getElem_of_mem hright
  have hsorted := pairwise_iff_getElem.mp hinv.sorted
  rcases Nat.lt_trichotomy first second with hbefore | rfl | hafter
  · exact (hsorted first second hfirst hsecond hbefore).2
  · exact le_rfl
  · exact absurd hlt (hsorted second first hsecond hfirst hafter).1.asymm

theorem Inv.right (hright : state.AllRight) : state.Right := by
  refine ⟨fun gtidSeq hmem => (hright gtidSeq hmem).named, ?_⟩
  intro trx htrx found hfound
  have hmem := mem_reverse.mp (mem_of_find?_eq_some hfound)
  have hmatch := find?_some hfound
  obtain ⟨entry, hentry, rfl⟩ := mem_map.mp hmem
  obtain ⟨gtidSeq, hsaved, hline⟩ := hinv.caches.cached entry hentry
  rw [hline, (hinv.readable gtidSeq hsaved).deserialize_serialize] at hmatch ⊢
  obtain ⟨hnamed, hlater⟩ := hright gtidSeq hsaved
  simp only [Bool.and_eq_true, Bool.or_eq_true, decide_eq_true_eq, Bool.not_eq_true',
    isEmpty_eq_false_iff] at hmatch
  rcases hmatch.2 with hlt | ⟨heq, hxid⟩
  · exact hlater trx htrx hlt
  · obtain ⟨named, hnamedMem, hmapping, hsecond⟩ := hnamed hxid
    have hsame : named = trx :=
      hinv.gtid_injective hnamedMem htrx ((congrArg Prod.snd hmapping).trans heq)
    rw [← hsame]
    exact hsecond.ge

/-- The newest entry is what a look-up for a later transaction gives. -/
theorem Inv.rightEntry_newest (hright : state.Right)
    (hlast : state.saved.getLast? = some gtidSeq) : RightEntry state.marked gtidSeq := by
  have hsaved := mem_of_getLast? hlast
  refine ⟨hright.named gtidSeq hsaved, ?_⟩
  intro trx htrx hlt
  have hnewest := hinv.caches.newest
  rw [hlast, map_some, map_eq_some_iff] at hnewest
  obtain ⟨entry, hentry, hline⟩ := hnewest
  obtain ⟨older, hset⟩ := getLast?_eq_some_iff.mp hentry
  have hread := (hinv.readable gtidSeq hsaved).deserialize_serialize GtidSeq.empty
  have hfound : state.manager.getFirstLeGtidSeq trx.gtid =
      some (GtidSeq.empty.deserialize gtidSeq.serialize) := by
    rw [GtidManager.getFirstLeGtidSeq, Recovery.getFirstLeGtidSeq, hset, map_append,
      reverse_append, map_singleton, reverse_singleton, singleton_append,
      hline, find?_cons_of_pos]
    simp [hread, hlt, hlt.le]
  have hle := hright.lookup trx htrx _ hfound
  rwa [hread] at hle

theorem Inv.allRight_markTrx (hright : state.AllRight) {trx : MarkedTrx}
    (hallows : state.Allows (.markTrx trx)) : (state.step config (.markTrx trx)).AllRight := by
  intro gtidSeq hmem
  obtain ⟨hnamed, hlater⟩ := hright gtidSeq hmem
  refine ⟨?_, ?_⟩
  · intro hxid
    obtain ⟨named, hmarked, hfields⟩ := hnamed hxid
    exact ⟨named, mem_append_left _ hmarked, hfields⟩
  · intro other hother hlt
    rcases mem_append.mp hother with hold | hnew
    · exact hlater other hold hlt
    · rw [mem_singleton.mp hnew]
      exact (hinv.saved_le gtidSeq hmem).trans (Nat.div_le_div_right hallows.1)

/-- An entry of the marking step names its transaction with its own second. -/
theorem Inv.rightEntry_checkpoint
    (hmem : gtidSeq ∈ state.manager.gtidCheckpointSet) : RightEntry state.marked gtidSeq := by
  obtain ⟨trx, htrx, rfl⟩ := hinv.checkpointSet gtidSeq hmem
  exact ⟨fun _ => ⟨trx, htrx, rfl, rfl⟩, fun later hlater hlt =>
    hinv.commitSecond_le htrx hlater hlt⟩

/-- A compressed entry is right exactly if the mapping was current. -/
theorem Inv.rightEntry_compressed_iff (hallows : state.Allows (.compress trxMapping))
    (hcompressed : state.manager.compressed config trxMapping = some gtidSeq) :
    RightEntry state.marked gtidSeq ↔ state.Current trxMapping := by
  obtain ⟨hsaves, hgtid, hsome, hnone⟩ := compressed_eq_some hcompressed
  rw [Current]
  rcases Nat.eq_zero_or_pos state.manager.nofTrx with hzero | hpos
  · obtain ⟨hsecond, hxid⟩ := hnone hzero
    rw [if_neg (by omega)]
    -- the heartbeat is later than every transaction
    have hheartbeat : state.manager.currTrxCheckpoint < state.manager.currHbCheckpoint := by
      have hsettled := hinv.settled hzero
      rw [maxCurrCheckpoint, lt_max_iff] at hsaves
      omega
    constructor
    · intro hright trx htrx
      by_contra hlt
      have hle := hright.later trx htrx (by omega)
      have hmarked := hinv.marked_le trx htrx
      omega
    · intro hcurrent
      refine ⟨fun hne => absurd hxid hne, ?_⟩
      intro trx htrx hlt
      have hle := hcurrent trx htrx
      omega
  · obtain ⟨hsecond, hxid⟩ := hsome hpos
    rw [if_pos hpos]
    constructor
    · intro hright trx htrx hle
      have hmarked := hinv.marked_le trx htrx
      rcases hle.lt_or_eq with hlt | heq
      · have hlater := hright.later trx htrx (by omega)
        omega
      · rcases hallows with rfl | ⟨passed, hpassed, rfl⟩
        · exact absurd heq.symm (hinv.trx trx htrx).2.2.1.ne'
        · obtain ⟨named, hnamed, hmapping, hnamedSecond⟩ :=
            hright.named (hxid ▸ (hinv.trx passed hpassed).1)
          have hsame : named = trx := hinv.gtid_injective hnamed htrx
            ((congrArg Prod.snd hmapping).trans (hgtid.trans heq))
          rw [← hsame, hnamedSecond, hsecond]
    · intro hcurrent
      refine ⟨?_, ?_⟩
      · intro hne
        rcases hallows with rfl | ⟨passed, hpassed, rfl⟩
        · exact absurd hxid hne
        · refine ⟨passed, hpassed, ?_, (hcurrent passed hpassed le_rfl).trans hsecond.symm⟩
          rw [hxid, hgtid]
      · intro trx htrx hlt
        rw [hsecond, hcurrent trx htrx (hgtid ▸ hlt.le)]

/-- A call with a current mapping, if it saves an entry, keeps all entries right, and
any other does not. -/
theorem Inv.allRight_compress_iff (hright : state.AllRight) {trxMapping : Text × ℕ}
    (hallows : state.Allows (.compress trxMapping)) :
    (state.step config (.compress trxMapping)).AllRight ↔
      state.PassesCurrent config (.compress trxMapping) := by
  constructor
  · intro hafter hsome
    obtain ⟨gtidSeq, hcompressed⟩ := isSome_iff_exists.mp hsome
    refine (hinv.rightEntry_compressed_iff hallows hcompressed).mp (hafter gtidSeq ?_)
    simp [Marking.step, Marking.savedBy, hcompressed]
  · intro hcurrent gtidSeq hmem
    rcases mem_append.mp hmem with hold | hnew
    · exact hright gtidSeq hold
    · rcases mem_append.mp hnew with hmark | hcompressed
      · exact hinv.rightEntry_checkpoint hmark
      · have hcompressed := mem_toList.mp hcompressed
        exact (hinv.rightEntry_compressed_iff hallows hcompressed).mpr
          (hcurrent (isSome_of_mem hcompressed))

/-- After a call that saves a compressed entry, a right state has only right entries. -/
theorem Inv.allRight_of_right_compress (hright : state.AllRight)
    (hallows : state.Allows (.compress trxMapping))
    (hafter : (state.step config (.compress trxMapping)).Right) :
    (state.step config (.compress trxMapping)).AllRight := by
  refine (hinv.allRight_compress_iff hright hallows).mpr ?_
  intro hsome
  obtain ⟨gtidSeq, hcompressed⟩ := isSome_iff_exists.mp hsome
  refine (hinv.rightEntry_compressed_iff hallows hcompressed).mp ?_
  have hinvAfter : (state.step config (.compress trxMapping)).Inv := hinv.compress hallows
  refine hinvAfter.rightEntry_newest hafter ?_
  simp [Marking.step, Marking.savedBy, hcompressed]

/-- One call: the state after it is right exactly if the mapping it passes is
current. -/
theorem Inv.step_right_iff (hright : state.AllRight) {call : ManagerCall}
    (hallows : state.Allows call) :
    ((state.step config call).Right ↔ state.PassesCurrent config call) ∧
      ((state.step config call).Right → (state.step config call).AllRight) := by
  have hafter : (state.step config call).Inv := hinv.step hallows
  cases call with
  | markTrx trx =>
    have hall := @Inv.allRight_markTrx config state hinv hright trx hallows
    exact ⟨iff_of_true (hafter.right hall) trivial, fun _ => hall⟩
  | markHeartbeat checkpoint =>
    exact ⟨iff_of_true (hafter.right hright) trivial, fun _ => hright⟩
  | compress trxMapping =>
    have hiff := @Inv.allRight_compress_iff config state hinv hright trxMapping hallows
    refine ⟨⟨fun h => hiff.mp (hinv.allRight_of_right_compress hright hallows h), fun h => ?_⟩,
      hinv.allRight_of_right_compress hright hallows⟩
    exact hafter.right (hiff.mpr h)

theorem Inv.alwaysRight_iff (hright : state.AllRight) {calls : List ManagerCall}
    (hallowed : Allowed config state calls) :
    AlwaysRight config state calls ↔ AlwaysCurrent config state calls := by
  induction calls generalizing state with
  | nil => exact iff_of_true (hinv.right hright) trivial
  | cons call calls ih =>
    obtain ⟨hallows, hrest⟩ := hallowed
    obtain ⟨hiff, hall⟩ := @Inv.step_right_iff config state hinv hright call hallows
    have hinvAfter : (state.step config call).Inv := hinv.step hallows
    constructor
    · rintro ⟨-, halways⟩
      have hafter : (state.step config call).Right := by
        cases calls with
        | nil => exact halways
        | cons next calls => exact halways.1
      exact ⟨hiff.mp hafter, (ih hinvAfter (hall hafter) hrest).mp halways⟩
    · rintro ⟨hcurrent, halways⟩
      have hafter := hiff.mpr hcurrent
      exact ⟨hinv.right hright, (ih hinvAfter (hall hafter) hrest).mpr halways⟩

end Kept

/-- Whatever the order of the calls, the checkpoints are right throughout exactly if
every call that saves a compressed entry passes a current mapping. -/
theorem alwaysRight_iff_alwaysCurrent (config : GtidConfig) (calls : List ManagerCall)
    (hallowed : Allowed config {} calls) :
    AlwaysRight config {} calls ↔ AlwaysCurrent config {} calls :=
  inv_start.alwaysRight_iff (by simp [AllRight]) hallowed

def twoTransactions (trxMapping : Text × ℕ) : List ManagerCall :=
  [.markTrx ⟨['a'], 1, 100000000⟩, .markTrx ⟨['b'], 2, 200000000⟩, .compress trxMapping]

theorem allowed_twoTransactions (hmapping : trxMapping = (['a'], 1) ∨ trxMapping = (['b'], 2)) :
    Allowed {} {} (twoTransactions trxMapping) := by
  refine ⟨?_, ?_, ?_, trivial⟩
  · simp [Allows, GtidSeq.FieldChar]
  · simp [Allows, GtidSeq.FieldChar, step]
  · rcases hmapping with rfl | rfl
    · exact Or.inr ⟨⟨['a'], 1, 100000000⟩, by simp [step], rfl⟩
    · exact Or.inr ⟨⟨['b'], 2, 200000000⟩, by simp [step], rfl⟩

/-- The call is for the last transaction. -/
theorem alwaysRight_lastTransaction : AlwaysRight {} {} (twoTransactions (['b'], 2)) := by
  refine (alwaysRight_iff_alwaysCurrent {} _ (allowed_twoTransactions (Or.inr rfl))).mpr ?_
  refine ⟨trivial, trivial, ?_, trivial⟩
  intro _
  simp [Current, step, GtidManager.markEvent, MarkedTrx.commitSecond]

/-- The call is for the batch of the first transaction, which is saved with the second
of the other one. -/
theorem not_alwaysRight_firstTransaction :
    Allowed {} {} (twoTransactions (['a'], 1)) ∧
      ¬AlwaysRight {} {} (twoTransactions (['a'], 1)) := by
  refine ⟨allowed_twoTransactions (Or.inl rfl), ?_⟩
  rintro ⟨-, -, -, hright⟩
  have hle := hright.lookup ⟨['a'], 1, 100000000⟩ (by simp [step]) ⟨200, ['a'], 1, 2⟩
    (by decide +kernel)
  exact absurd hle (by decide)

end Marking

end OblogProxy.Recovery
