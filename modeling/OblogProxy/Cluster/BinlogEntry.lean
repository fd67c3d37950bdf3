import OblogProxy.Gtid.Text

/-!
# The rows of the instances

The table `binlog_instances` has a row for each instance.  `update_instance` writes an object
that was read from a row back to the rows that satisfy a condition, which is an object again.
A column for which an object holds its default is neither written nor compared, and the
configuration is written but never compared.

`drop_instances` marks the instances and adds the tasks in one transaction.  A statement is
tried three times.  `add_task` looks at what the last attempt returned, but `execute_update`,
which marks an instance, only at an exception, and none leaves the attempts.
-/

namespace OblogProxy.Cluster

open Gtid

inductive InstanceState
  | init
  | starting
  | running
  | failed
  | stop
  | drop
  | offline
  | paused
  | grayscale
  | logicalDrop
  | undefined
deriving DecidableEq, Repr

/-- A row of `binlog_instances`, or the object that is read from it. -/
structure BinlogEntry (Config : Type) where
  nodeId : Text
  ip : Text
  port : ℕ
  instanceName : Text
  cluster : Text
  tenant : Text
  pid : ℕ
  workPath : Text
  state : InstanceState
  config : Config
  heartbeat : ℕ
  delay : ℕ
  minDumpCheckpoint : ℕ

def unknownDelay : ℕ := 2 ^ 64 - 1

/-- The new value of a column: an object with the default leaves it as it is. -/
def written {α : Type} [DecidableEq α] (default new old : α) : α :=
  if new = default then old else new

/-- A column satisfies a condition, the default is none. -/
def compared {α : Type} [DecidableEq α] (default condition value : α) : Bool :=
  decide (condition = default) || decide (value = condition)

namespace BinlogEntry

variable {Config : Type} (row entry : BinlogEntry Config)

def isDropped : Bool :=
  row.state = .drop ∨ row.state = .logicalDrop

/-- The assignments of `splice_update_instance_sql`; `min_dump_checkpoint` is always set. -/
def overwrite : BinlogEntry Config where
  nodeId := written [] entry.nodeId row.nodeId
  ip := written [] entry.ip row.ip
  port := written 0 entry.port row.port
  instanceName := written [] entry.instanceName row.instanceName
  cluster := written [] entry.cluster row.cluster
  tenant := written [] entry.tenant row.tenant
  pid := written 0 entry.pid row.pid
  workPath := written [] entry.workPath row.workPath
  state := written .undefined entry.state row.state
  config := entry.config
  heartbeat := written 0 entry.heartbeat row.heartbeat
  delay := written unknownDelay entry.delay row.delay
  minDumpCheckpoint := entry.minDumpCheckpoint

def satisfies (condition : BinlogEntry Config) : Bool :=
  compared [] condition.nodeId row.nodeId && compared [] condition.ip row.ip &&
    compared 0 condition.port row.port && compared [] condition.cluster row.cluster &&
    compared [] condition.tenant row.tenant && compared 0 condition.pid row.pid &&
    compared [] condition.workPath row.workPath &&
    compared .undefined condition.state row.state &&
    compared 0 condition.heartbeat row.heartbeat &&
    compared unknownDelay condition.delay row.delay &&
    compared [] condition.instanceName row.instanceName &&
    compared 0 condition.minDumpCheckpoint row.minDumpCheckpoint

/-- `update_instance` with a condition. -/
def updateInstanceIf (condition : BinlogEntry Config) : BinlogEntry Config :=
  if row.satisfies condition then row.overwrite entry else row

/-- `update_instance` without one: the condition is the name. -/
def updateInstance : BinlogEntry Config :=
  if compared [] entry.instanceName row.instanceName then row.overwrite entry else row

end BinlogEntry

@[simp]
theorem overwrite_state {Config : Type} {row entry : BinlogEntry Config}
    (hstate : entry.state ≠ .undefined) : (row.overwrite entry).state = entry.state :=
  if_neg hstate

variable {Task : Type}

structure MetaTables (Task : Type) where
  instances : Text → Option InstanceState
  tasks : List Task

structure DropStep (Task : Type) where
  task : Task
  instanceName : Text
  updates : ℕ → Bool
  inserts : ℕ → Bool

/-- Whether an attempt succeeds, after which there is no other. -/
def executeUpdateWithRetry (attempt : ℕ → Bool) : Bool :=
  (List.range 3).any attempt

/-- `execute_update` returns `OMS_OK` also when no attempt succeeded. -/
def updateInstanceState (attempt : ℕ → Bool) (instanceName : Text) (state : InstanceState)
    (tables : MetaTables Task) : MetaTables Task × Bool :=
  ({ tables with instances := fun name => (tables.instances name).map fun old =>
      if instanceName = name && executeUpdateWithRetry attempt then state else old }, true)

def addTask (attempt : ℕ → Bool) (task : Task) (tables : MetaTables Task) :
    MetaTables Task × Bool :=
  if executeUpdateWithRetry attempt then ({ tables with tasks := tables.tasks ++ [task] }, true)
  else (tables, false)

/-- The loop, until a statement is reported as failed. -/
def publishDrops : List (DropStep Task) → MetaTables Task → Option (MetaTables Task)
  | [], tables => some tables
  | step :: steps, tables =>
    let (tables, isUpdated) :=
      updateInstanceState step.updates step.instanceName .logicalDrop tables
    let (tables, isAdded) := addTask step.inserts step.task tables
    if isUpdated && isAdded then publishDrops steps tables else none

/-- The tables after the commit or the rollback, and whether `OMS_OK` is returned. -/
def dropInstances (steps : List (DropStep Task)) (tables : MetaTables Task) :
    MetaTables Task × Bool :=
  match publishDrops steps tables with
  | some changed => (changed, true)
  | none => (tables, false)

def marks (steps : List (DropStep Task)) (instanceName : Text) : Bool :=
  steps.any fun step => step.instanceName = instanceName && executeUpdateWithRetry step.updates

/-- What the statements have changed when none of them is reported. -/
theorem publishDrops_eq (steps : List (DropStep Task)) (tables : MetaTables Task) :
    publishDrops steps tables =
      if steps.all fun step => executeUpdateWithRetry step.inserts then
        some {
          instances := fun name => (tables.instances name).map fun old =>
            if marks steps name then .logicalDrop else old
          tasks := tables.tasks ++ steps.map DropStep.task }
      else none := by
  induction steps generalizing tables with
  | nil => simp [publishDrops, marks]
  | cons step steps ih =>
    simp only [publishDrops, updateInstanceState, addTask, Bool.true_and, List.all_cons]
    by_cases hinserts : executeUpdateWithRetry step.inserts = true
    · simp only [hinserts, if_true, ih, Bool.true_and, Option.map_map, List.append_assoc,
        List.singleton_append, List.map_cons]
      congr 3
      funext name
      congr 1
      funext old
      have hmarks : marks (step :: steps) name = ((step.instanceName = name &&
        executeUpdateWithRetry step.updates) || marks steps name) := rfl
      rw [Function.comp_apply, hmarks]
      cases marks steps name <;> simp
    · simp [hinserts]

/-- The drop is published completely, or nothing of it. -/
def AllOrNothing (steps : List (DropStep Task)) (tables : MetaTables Task) : Prop :=
  match dropInstances steps tables with
  | (changed, true) => ∀ step ∈ steps, step.task ∈ changed.tasks ∧
      ∀ state ∈ changed.instances step.instanceName, state = .logicalDrop
  | (changed, false) => changed = tables

/-- When all tasks are added, an instance must be marked by some attempt or have been before. -/
theorem allOrNothing_drop_iff (steps : List (DropStep Task)) (tables : MetaTables Task) :
    AllOrNothing steps tables ↔
      ((∀ step ∈ steps, executeUpdateWithRetry step.inserts) →
        ∀ step ∈ steps, ∀ state ∈ tables.instances step.instanceName,
          state = .logicalDrop ∨ ∃ other ∈ steps, other.instanceName = step.instanceName ∧
            executeUpdateWithRetry other.updates) := by
  rw [AllOrNothing, dropInstances, publishDrops_eq, ← List.all_eq_true]
  split_ifs with hadded
  · simp only [hadded, true_imp_iff, marks, List.any_eq_true, Bool.and_eq_true, decide_eq_true_eq]
    refine forall₂_congr fun step hstep => ?_
    rw [and_iff_right (List.mem_append_right _ (List.mem_map_of_mem hstep))]
    cases tables.instances step.instanceName with
    | none => simp
    | some state =>
      simp only [Option.map_some, Option.mem_some_iff, forall_eq']
      split_ifs with hmarked
      · exact iff_of_true rfl (Or.inr hmarked)
      · exact (or_iff_left hmarked).symm
  · exact iff_of_true rfl fun hall => absurd hall hadded

/-- The row is not marked in three attempts, and the task is added. -/
theorem not_allOrNothing_unmarked :
    ¬AllOrNothing [⟨(), ['a'], fun _ => false, fun _ => true⟩] ⟨fun _ => some .running, []⟩ := by
  intro hall
  exact absurd ((hall _ List.mem_cons_self).2 .running rfl) (by decide)

end OblogProxy.Cluster
