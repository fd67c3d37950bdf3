import OblogProxy.Cluster.BinlogEntry
import OblogProxy.Cluster.GtidSeqTable

/-!
# Electing the master and the base instance

`select_master_instance` takes the running instances of a tenant through three filters, of
which the last one is skipped if it would remove everybody, and looks for the instance with
the smallest checkpoint among those that are left.  Then it elects the first of them.  A new
instance takes its starting point from the instance whose own one is closest.
-/

namespace OblogProxy.Cluster

open Gtid Recovery List

variable {Config : Type}

structure InstanceWithGtid (Config : Type) extends BinlogEntry Config where
  first : GtidSeq
  last : GtidSeq

/-- What the election reads besides the instances; a ratio that is no number is above no
limit. -/
structure ElectionContext where
  enableResourceCheck : Bool
  nodeCpuRatioLimit : ℚ
  cpuUsedRatio : Text → Option ℚ
  now : ℕ
  minDumpCheckpoint : ℕ

namespace ElectionContext

variable (context : ElectionContext)

def filterMasterByMinCheckpoint (instances : List (InstanceWithGtid Config)) :
    List (InstanceWithGtid Config) :=
  if context.minDumpCheckpoint = 0 then instances
  else instances.filter fun entry =>
    !(entry.first.commitVersionStart = 0 ||
      context.minDumpCheckpoint < entry.first.commitVersionStart)

def filterMasterByResource (instances : List (InstanceWithGtid Config)) :
    List (InstanceWithGtid Config) :=
  if context.enableResourceCheck then
    instances.filter fun entry =>
      !(context.cpuUsedRatio entry.nodeId).any (context.nodeCpuRatioLimit < ·)
  else instances

def delayThreshold : ℕ :=
  min (if context.minDumpCheckpoint < context.now then context.now - context.minDumpCheckpoint
    else 0) 300

def isDelayed (entry : InstanceWithGtid Config) : Bool :=
  entry.last.commitVersionStart < context.now &&
    context.delayThreshold < context.now - entry.last.commitVersionStart

/-- The instances that are too late are removed by their names, unless all are. -/
def filterMasterByDelay (instances : List (InstanceWithGtid Config)) :
    List (InstanceWithGtid Config) :=
  let instancesWithDelay :=
    (instances.filter context.isDelayed).map fun entry => entry.instanceName
  if instancesWithDelay = [] ∨ instancesWithDelay.length = instances.length then instances
  else instances.filter fun entry => entry.instanceName ∉ instancesWithDelay

def eligible (instances : List (InstanceWithGtid Config)) : List (InstanceWithGtid Config) :=
  context.filterMasterByResource (context.filterMasterByMinCheckpoint instances)

def survivors (instances : List (InstanceWithGtid Config)) : List (InstanceWithGtid Config) :=
  context.filterMasterByDelay (context.eligible instances)

def minimalInstance (instances : List (InstanceWithGtid Config)) :
    ℕ × Option (InstanceWithGtid Config) :=
  instances.foldl (fun found entry =>
    if entry.last.commitVersionStart ≠ 0 ∧ entry.last.commitVersionStart < found.1 then
      (entry.last.commitVersionStart, some entry)
    else found) (2 ^ 64 - 1, none)

/-- `select_master_instance`.  What the loop has found is overwritten by the first survivor,
which is `none` where there is none. -/
def selectMasterInstance (instances : List (InstanceWithGtid Config)) :
    Except Text (Option (InstanceWithGtid Config)) :=
  if context.filterMasterByMinCheckpoint instances = [] then
    .error ("All instances in running status do not meet the min dump checkpoint " ++
      "requirement").toList
  else if context.eligible instances = [] then
    .error ("All instances in running status for tenant do not have enough resources to " ++
      "provide service.").toList
  else
    let _electionInstance := (minimalInstance (context.survivors instances)).2
    .ok (context.survivors instances).head?

/-- Among the survivors with a checkpoint the instance has the smallest last one. -/
def IsLeast (entry : InstanceWithGtid Config) (instances : List (InstanceWithGtid Config)) :
    Prop :=
  ∀ other ∈ instances, other.last.commitVersionStart ≠ 0 →
    entry.last.commitVersionStart ≠ 0 ∧
      entry.last.commitVersionStart ≤ other.last.commitVersionStart

instance (entry : InstanceWithGtid Config) (instances : List (InstanceWithGtid Config)) :
    Decidable (IsLeast entry instances) :=
  inferInstanceAs (Decidable (∀ _ ∈ _, _))

/-- The election fails exactly if the first two filters leave nobody; who is elected is the
survivor with the smallest last checkpoint. -/
def ElectsLeast (instances : List (InstanceWithGtid Config)) : Prop :=
  ((∃ errMsg, context.selectMasterInstance instances = .error errMsg) ↔
      context.filterMasterByMinCheckpoint instances = [] ∨ context.eligible instances = []) ∧
    ∀ elected, context.selectMasterInstance instances = .ok elected →
      ∃ entry ∈ context.survivors instances, elected = some entry ∧
        IsLeast entry (context.survivors instances)

variable {context} {instances : List (InstanceWithGtid Config)}

/-- The first survivor is elected: it is the right one exactly if it has the smallest last
checkpoint. -/
theorem electsLeast_iff :
    context.ElectsLeast instances ↔ (context.eligible instances ≠ [] →
      ∃ entry ∈ (context.survivors instances).head?,
        IsLeast entry (context.survivors instances)) := by
  by_cases hnone : context.eligible instances = []
  · have hfails : ∃ errMsg, context.selectMasterInstance instances = .error errMsg := by
      rw [selectMasterInstance]
      split_ifs
      · exact ⟨_, rfl⟩
      · exact ⟨_, rfl⟩
    obtain ⟨errMsg, herror⟩ := hfails
    refine iff_of_true ⟨iff_of_true ⟨errMsg, herror⟩ (Or.inr hnone), ?_⟩ (absurd hnone)
    intro elected helected
    rw [herror] at helected
    cases helected
  · have hpassed : context.filterMasterByMinCheckpoint instances ≠ [] := by
      intro hempty
      apply hnone
      rw [eligible, hempty, filterMasterByResource]
      split_ifs <;> rfl
    have hok : context.selectMasterInstance instances =
        .ok (context.survivors instances).head? := by
      rw [selectMasterInstance, if_neg hpassed, if_neg hnone]
    rw [ElectsLeast, hok]
    constructor
    · rintro ⟨-, helects⟩ -
      obtain ⟨entry, -, hhead, hleast⟩ := helects _ rfl
      exact ⟨entry, hhead, hleast⟩
    · intro hleast
      obtain ⟨entry, hhead, hentry⟩ := hleast hnone
      refine ⟨iff_of_false (by simp) (by simp [hpassed, hnone]), ?_⟩
      rintro _ ⟨⟩
      exact ⟨entry, mem_of_mem_head? hhead, hhead, hentry⟩

def sampleElector (name : String) (last : ℕ) : InstanceWithGtid Unit where
  nodeId := []
  ip := []
  port := 0
  instanceName := name.toList
  cluster := []
  tenant := []
  pid := 0
  workPath := []
  state := .running
  config := ()
  heartbeat := 0
  delay := 0
  minDumpCheckpoint := 0
  first := GtidSeq.empty
  last := { GtidSeq.empty with commitVersionStart := last }

def sampleElection : ElectionContext where
  enableResourceCheck := false
  nodeCpuRatioLimit := 0
  cpuUsedRatio _ := none
  now := 100
  minDumpCheckpoint := 0

/-- Both instances are in time, and the first one has the greater checkpoint. -/
theorem not_electsLeast_second :
    ¬sampleElection.ElectsLeast [sampleElector "a" 90, sampleElector "b" 80] := by
  rintro ⟨-, helects⟩
  obtain ⟨entry, -, hhead, hleast⟩ := helects (some (sampleElector "a" 90)) rfl
  obtain rfl := Option.some.inj hhead
  revert hleast
  decide +kernel

end ElectionContext

structure ClosestInstances (Config : Type) where
  lessMinInterval : ℤ := 2 ^ 63 - 1
  lessThanInstance : Option (BinlogEntry Config) := none
  greaterMinInterval : ℤ := -2 ^ 63
  greaterThanInstance : Option (BinlogEntry Config) := none

section Closest

variable (interval : BinlogEntry Config → ℤ)

def ClosestInstances.visit (closest : ClosestInstances Config) (entry : BinlogEntry Config) :
    ClosestInstances Config :=
  let closest :=
    if 0 ≤ interval entry ∧ interval entry < closest.lessMinInterval then
      { closest with lessMinInterval := interval entry, lessThanInstance := some entry }
    else closest
  if interval entry < 0 ∧ closest.greaterMinInterval < interval entry then
    { closest with greaterMinInterval := interval entry, greaterThanInstance := some entry }
  else closest

/-- The loop keeps the closest instance on either side. -/
theorem foldl_visit {instances : List (BinlogEntry Config)}
    (hinside : ∀ entry ∈ instances, -2 ^ 63 < interval entry ∧ interval entry < 2 ^ 63 - 1) :
    instances.foldl (ClosestInstances.visit interval) {} =
      let less := (instances.filter (0 ≤ interval ·)).argmin interval
      let greater := (instances.filter (interval · < 0)).argmax interval
      ⟨less.elim (2 ^ 63 - 1) interval, less, greater.elim (-2 ^ 63) interval, greater⟩ := by
  induction instances using reverseRecOn with
  | nil => rfl
  | append_singleton instances entry ih =>
    obtain ⟨hbefore, hentry⟩ := forall_mem_append.mp hinside
    obtain ⟨hlow, hhigh⟩ := hentry entry mem_cons_self
    rw [foldl_concat, ih hbefore, ClosestInstances.visit]
    by_cases hless : 0 ≤ interval entry
    · simp only [filter_append, filter_cons, hless, not_lt.mpr hless, decide_true,
        decide_false, Bool.false_eq_true, filter_nil, append_nil, argmin_concat,
        true_and, false_and, if_false, if_true]
      cases (instances.filter (0 ≤ interval ·)).argmin interval with
      | none => exact if_pos hhigh
      | some chosen => by_cases hcloser : interval entry < interval chosen <;> simp [hcloser]
    · simp only [filter_append, filter_cons, hless, not_le.mp hless, decide_true,
        decide_false, Bool.false_eq_true, filter_nil, append_nil, argmax_concat,
        true_and, false_and, if_false, if_true]
      cases (instances.filter (interval · < 0)).argmax interval with
      | none => exact if_pos hlow
      | some chosen => by_cases hcloser : interval chosen < interval entry <;> simp [hcloser]

end Closest

/-- `filter_instance_by_initial_point`; an instance without a name counts as none.  The
difference of the unsigned timestamps is taken as a signed number. -/
def filterInstanceByInitialPoint (timestampOf : BinlogEntry Config → ℕ) (startTimestamp : ℕ)
    (instances : List (BinlogEntry Config)) : Option (BinlogEntry Config) :=
  let closest := instances.foldl (ClosestInstances.visit fun entry =>
    Int.bmod ((startTimestamp : ℤ) - timestampOf entry) (2 ^ 64)) {}
  (closest.lessThanInstance.filter (·.instanceName ≠ [])).or
    ((closest.greaterThanInstance.filter (·.instanceName ≠ [])).or instances.head?)

end OblogProxy.Cluster
