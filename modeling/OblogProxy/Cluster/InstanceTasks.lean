import OblogProxy.Cluster.BinlogEntry
import OblogProxy.Core.Runs

/-!
# Tasks of an instance

Statements do not act on an instance themselves.  They publish tasks, which a node polls from
the table `tasks`.  A poll sets a waiting task to executing and submits its body to a thread
pool; the body acts on the process of the instance and writes what came of it to the task and
to the row of the instance.  A task that has been executing for too long is taken to be
interrupted, and a poll repairs it.

The model has one instance: its row, its tasks, the bodies that are submitted and not yet run,
the work path, and what `ALTER` statements have read.  A body is run at one time.  What the
surroundings decide is given with each step.
-/

namespace OblogProxy.Cluster

open Gtid

structure Process where
  pid : ℕ
  port : ℕ
  pid_pos : 0 < pid
  port_pos : 0 < port
deriving DecidableEq

/-- The process with the lock on the pid file, and whether its pid stands there. -/
structure Holder where
  process : Process
  reported : Bool
deriving DecidableEq

/-- The work path: who holds the lock, and the processes that have been launched and have not
come to the lock yet. -/
structure WorkPath where
  holder : Option Holder := none
  late : List Process := []

/-- What becomes of a launched process, as `if_obi_bind_failed` sees it.  The pid that appears
in time is that of the process, or that of a late process which took the lock first. -/
inductive LaunchResult
  | reported (late : Option ℕ)
  | bindError
  | exited
  | hung (locked : Bool)

structure Launch where
  process : Process
  result : LaunchResult

namespace WorkPath

variable (path : WorkPath)

def isOccupied : Bool :=
  path.holder.isSome

/-- The work path once a launch has been awaited; `invoke_fork` has removed the pid file. -/
def launched (launch : Launch) : WorkPath :=
  match launch.result with
  | .reported late =>
    match late.bind (path.late[·]?) with
    | none => { path with holder := some ⟨launch.process, true⟩ }
    | some other =>
      { holder := some ⟨other, true⟩
        late := path.late.eraseIdx (late.getD 0) }
  | .bindError => { path with holder := none }
  | .exited => { path with holder := none }
  | .hung true => { path with holder := some ⟨launch.process, false⟩ }
  | .hung false => { holder := none, late := path.late ++ [launch.process] }

/-- The loop of `start_binlog_instance_inner`: after a bind error the next port is tried.  The
list ends when there is no port left or `fork` fails. -/
def startInner : WorkPath → List Launch → WorkPath × Option Process
  | path, [] => (path, none)
  | path, launch :: rest =>
    match launch.result with
    | .bindError => startInner (path.launched launch) rest
    | .reported _ => (path.launched launch, some launch.process)
    | .exited => (path.launched launch, none)
    | .hung _ => (path.launched launch, none)

/-- A late process opens the pid file, which empties it, and takes the lock if it is free. -/
def lateTries (index : ℕ) : WorkPath :=
  match path.late[index]? with
  | none => path
  | some process =>
    { holder := some ((path.holder.map fun holder => { holder with reported := false }).getD
        ⟨process, false⟩)
      late := path.late.eraseIdx index }

def holderReports : WorkPath :=
  { path with holder := path.holder.map fun holder => { holder with reported := true } }

def holderExits : WorkPath :=
  { path with holder := none }

end WorkPath

inductive TaskStatus
  | waiting
  | executing
  | completed
  | failed
deriving DecidableEq

/-- The type of a task with the parameters that matter here. -/
inductive TaskType
  | create
  | drop (expectExecTime : ℕ)
  | stop
  | start
  | recover (offlineInstance : Text)
deriving DecidableEq

/-- What a body meets: the point to start from, none if it cannot be found, as a change of the
configuration; whether the directory can be made; the server options and users; whether the
configuration can be written to its file; the launches; and whether a process is killed. -/
structure Surroundings (Config : Type) where
  initPoint : Option (Config → Config)
  directoryMade : Bool
  serverOptions : Config → Config
  configWritten : Bool
  launches : List Launch
  killed : Bool

structure BodyResult (Config : Type) where
  row : BinlogEntry Config
  status : TaskStatus
  path : WorkPath

variable {Config : Type}

section Bodies

variable (binlogLogBinBasename : Text) (row : BinlogEntry Config)
  (status : Option TaskStatus) (path : WorkPath) (met : Surroundings Config)

/-- `start_binlog_instance_inner` and what its callers do with its result. -/
def startBinlogInstanceInner (entry : BinlogEntry Config) : BodyResult Config :=
  match path.startInner met.launches with
  | (path, none) => ⟨row.updateInstance { entry with state := .failed }, .failed, path⟩
  | (path, some process) =>
    ⟨row.updateInstance
      { entry with port := process.port, pid := process.pid, state := .running },
      .completed, path⟩

/-- `create_binlog_instance` for a new instance, or with the name of the offline instance for
one that is recovered.  Only with the wrong status and the wrong state it gives up at once. -/
def createBinlogInstance (offlineInstance : Option Text) : BodyResult Config :=
  let inPlace := offlineInstance.all fun name => name = row.instanceName
  let recoversInPlace := offlineInstance.isSome && inPlace
  let entry := { row with state := .failed }
  if status ≠ some .executing ∧ row.state ≠ .starting then
    ⟨row.updateInstance entry, .failed, path⟩
  else
    match if recoversInPlace then some id else met.initPoint with
    | none => ⟨row.updateInstance entry, .failed, path⟩
    | some initPoint =>
      let entry := { entry with config := initPoint entry.config }
      if path.isOccupied then
        if recoversInPlace then
          ⟨row.updateInstance { entry with state := .running }, .completed, path⟩
        else ⟨row.updateInstance entry, .failed, path⟩
      else if !met.directoryMade then ⟨row.updateInstance entry, .failed, path⟩
      else
        let entry := { entry with
          workPath := binlogLogBinBasename ++ ['/'] ++ row.instanceName
          config := met.serverOptions entry.config }
        if !met.configWritten then ⟨row.updateInstance entry, .failed, path⟩
        else startBinlogInstanceInner row path met entry

/-- An occupied work path means that the instance is running already. -/
def startBinlogInstance : BodyResult Config :=
  let entry := { row with state := .failed }
  if path.isOccupied then ⟨row.updateInstance { entry with state := .running }, .completed, path⟩
  else
    let entry := { entry with config := met.serverOptions entry.config }
    if !met.configWritten then ⟨row.updateInstance entry, .failed, path⟩
    else startBinlogInstanceInner row path met entry

/-- `kill_binlog_instance`: the process with the recorded pid, in the states in which it should
be alive. -/
def killBinlogInstance : WorkPath :=
  if row.state ∈ [.running, .grayscale, .offline, .logicalDrop] ∧ met.killed ∧
      path.holder.any (·.process.pid = row.pid) then
    path.holderExits
  else path

def stopBinlogInstance : BodyResult Config :=
  ⟨row.updateInstance { row with state := .stop }, .completed, killBinlogInstance row path met⟩

/-- A work path with the name of the instance in it is removed, its pid file with it. -/
def dropBinlogInstance : BodyResult Config :=
  let path := killBinlogInstance row path met
  ⟨row.updateInstance { row with state := .drop }, .completed,
    if row.workPath ≠ [] ∧ row.instanceName <:+: row.workPath then path.holderExits else path⟩

def runBody : TaskType → BodyResult Config
  | .create => createBinlogInstance binlogLogBinBasename row status path met none
  | .drop _ => dropBinlogInstance row path met
  | .stop => stopBinlogInstance row path met
  | .start => startBinlogInstance row path met
  | .recover offlineInstance =>
    createBinlogInstance binlogLogBinBasename row status path met (some offlineInstance)

end Bodies

section Handlers

variable (row : BinlogEntry Config) (path : WorkPath)

/-- The states in which `execute` of a handler expects the instance of a task with the given
status; stopping and dropping expect none. -/
def expects (status : TaskStatus) (state : InstanceState) : TaskType → Bool
  | .create =>
    !(decide (status = .waiting) && decide (state ≠ .init) ||
      decide (status = .failed) && decide (state ≠ .failed))
  | .start => !(decide (status = .waiting) && decide (state ∉ [.stop, .failed, .offline]))
  | .recover _ => !(decide (status = .waiting) && decide (state ∉ [.offline, .init]))
  | .drop _ => true
  | .stop => true

def submittedRow : TaskType → BinlogEntry Config
  | .create | .start | .recover _ => row.updateInstance { row with state := .starting }
  | .drop _ | .stop => row

/-- `recover_starting_instance`: the pid comes from the pid file, the port from the command
line of the process with that pid. -/
def recoverStartingInstance : BinlogEntry Config × TaskStatus :=
  match path.holder with
  | some ⟨process, true⟩ =>
    ({ row with pid := process.pid, port := process.port, state := .running }, .completed)
  | _ => ({ row with state := .failed }, .failed)

/-- `interrupt_recover` of the handlers; `none` leaves the status of the task. -/
def interruptRecover : TaskType → BinlogEntry Config × Option TaskStatus
  | .create =>
    match row.state with
    | .init => (row, some .waiting)
    | .running | .grayscale => (row, some .completed)
    | .failed => (row, some .failed)
    | .starting => (recoverStartingInstance row path).map id some
    | _ => (row, none)
  | .drop _ => (row, some (if row.state = .drop then .completed else .waiting))
  | .start =>
    match row.state with
    | .stop => (row, some .waiting)
    | .running | .grayscale => (row, some .completed)
    | .failed => (row, some .failed)
    | .starting => (recoverStartingInstance row path).map id some
    | _ => (row, none)
  | .stop => (row, some (if row.state = .stop then .completed else .waiting))
  | .recover _ =>
    match row.state with
    | .init | .offline => (row, some .waiting)
    | .running | .grayscale => (row, some .completed)
    | .failed => (row, some .failed)
    | .starting => (recoverStartingInstance row path).map id some
    | _ => (row, none)

end Handlers

/-- A row of `tasks`, for a task of the instance that this node executes. -/
structure Task where
  taskId : Text
  type : TaskType
  status : TaskStatus
  retryCount : ℕ
  lastModify : ℕ
deriving DecidableEq

/-- A body that is submitted and not yet run, and the time at which its task was set to
executing. -/
structure Submitted where
  taskId : Text
  type : TaskType
  since : ℕ

structure TaskSettings where
  nodeId : Text
  binlogLogBinBasename : Text
  maxTaskExecutionTimeS : ℕ

def maxTaskRetryTimes : ℕ := 3

namespace Task

def isUnfinished (task : Task) : Bool :=
  match task.status with
  | .waiting | .executing => true
  | .failed => task.retryCount < maxTaskRetryTimes
  | .completed => false

/-- `execNow`: a drop waits for its time, the interval being signed. -/
def execNow (now : ℕ) (task : Task) : Bool :=
  match task.type with
  | .drop expectExecTime => ¬ 0 < ((expectExecTime : ℤ) - now).bmod (2 ^ 64)
  | _ => true

def isRecover (task : Task) : Bool :=
  match task.type with
  | .recover _ => true
  | _ => false

/-- The task as `add_task` and `update_task` write it: the time is set only if it is missing. -/
def stamped (now : ℕ) (task : Task) : Task :=
  { task with lastModify := if task.lastModify = 0 then now else task.lastModify }

end Task

/-- `update_task`; a retry count of zero is not written. -/
def updateTask (now : ℕ) (tasks : List Task) (task : Task) : List Task :=
  tasks.map fun old =>
    if old.taskId = task.taskId then
      { (task.stamped now) with retryCount := written 0 task.retryCount old.retryCount }
    else old

/-- The instance with its tasks.  `clock` is the time of the last step and `published` the time
at which each task was published. -/
structure TaskState (Config : Type) where
  row : BinlogEntry Config
  tasks : List Task
  submitted : List Submitted
  path : WorkPath
  alterReads : List (BinlogEntry Config)
  clock : ℕ
  published : Text → ℕ

inductive TaskAction (Config : Type)
  | publish (task : Task)
  | dropInstances (task : Task)
  | poll (taskId : Text)
  | runSubmitted (index : ℕ) (met : Surroundings Config)
  | alterRead (isTenantWide : Bool)
  | alterWrite (index : ℕ) (edit : Config → Config)
  | lateTries (index : ℕ)
  | holderReports
  | holderExits

structure TimedAction (Config : Type) where
  now : ℕ
  action : TaskAction Config

namespace TaskState

variable (settings : TaskSettings) (now : ℕ) (state : TaskState Config)

def addTask (task : Task) : TaskState Config :=
  { state with
    tasks := state.tasks ++ [task.stamped now]
    published := Function.update state.published task.taskId now }

def hasTask (taskId : Text) : Bool :=
  state.tasks.any fun task => task.taskId = taskId

def commitDrop (task : Task) : TaskState Config :=
  { state with row := { state.row with state := .logicalDrop } }.addTask now task

def handleWaitingOrFailedTask (task : Task) : TaskState Config :=
  if !task.isRecover && state.row.nodeId != settings.nodeId then
    { state with tasks := updateTask now state.tasks { task with status := .completed } }
  else if !task.execNow now then state
  else if task.status = .failed ∧ maxTaskRetryTimes ≤ task.retryCount then state
  else
    let task := { task with
      status := .executing
      retryCount := if task.status = .failed then task.retryCount + 1 else task.retryCount }
    let tasks := updateTask now state.tasks task
    -- the handler looks at the status that has just been set
    if expects task.status state.row.state task.type then
      { state with
        tasks
        row := submittedRow state.row task.type
        submitted := state.submitted ++ [⟨task.taskId, task.type, now⟩] }
    else { state with tasks }

/-- The age of the execution is taken from `last_modify`. -/
def isInterrupted (task : Task) : Bool :=
  settings.maxTaskExecutionTimeS < toUint64 ((now : ℤ) - task.lastModify)

def handleExecutingTask (task : Task) : TaskState Config :=
  if isInterrupted settings now task then
    let (instance', status) := interruptRecover state.row state.path task.type
    { state with
      row := state.row.updateInstance instance'
      tasks := updateTask now state.tasks { task with status := status.getD task.status } }
  else state

/-- A poll that finds the task unfinished runs `task_executor` on it. -/
def poll (taskId : Text) : TaskState Config :=
  match state.tasks.find? fun task => task.taskId = taskId && task.isUnfinished with
  | none => state
  | some task =>
    match task.status with
    | .waiting | .failed => state.handleWaitingOrFailedTask settings now task
    | .executing => state.handleExecutingTask settings now task
    | .completed => state

/-- The body reads the task, and writes it back with its new status. -/
def runSubmitted (index : ℕ) (met : Surroundings Config) : TaskState Config :=
  match state.submitted[index]? with
  | none => state
  | some body =>
    let task := state.tasks.find? fun task => task.taskId = body.taskId
    let result := runBody settings.binlogLogBinBasename state.row (task.map Task.status)
      state.path met body.type
    { state with
      row := result.row
      path := result.path
      submitted := state.submitted.eraseIdx index
      tasks := match task with
        | none => state.tasks
        | some task => updateTask now state.tasks { task with status := result.status } }

/-- `ALTER BINLOG` passes over instances that are dropped, `ALTER BINLOG INSTANCE` does not. -/
def alterRead (isTenantWide : Bool) : TaskState Config :=
  if isTenantWide && state.row.isDropped then state
  else { state with alterReads := state.alterReads ++ [state.row] }

def alterWrite (index : ℕ) (edit : Config → Config) : TaskState Config :=
  match state.alterReads[index]? with
  | none => state
  | some read =>
    { state with
      row := state.row.updateInstance { read with config := edit read.config }
      alterReads := state.alterReads.eraseIdx index }

/-- A task or a drop whose id is taken is rolled back. -/
def perform : TaskAction Config → TaskState Config
  | .publish task => if state.hasTask task.taskId then state else state.addTask now task
  | .dropInstances task => if state.hasTask task.taskId then state else state.commitDrop now task
  | .poll taskId => state.poll settings now taskId
  | .runSubmitted index met => state.runSubmitted settings now index met
  | .alterRead isTenantWide => state.alterRead isTenantWide
  | .alterWrite index edit => state.alterWrite index edit
  | .lateTries index => { state with path := state.path.lateTries index }
  | .holderReports => { state with path := state.path.holderReports }
  | .holderExits => { state with path := state.path.holderExits }

def step (timed : TimedAction Config) : TaskState Config :=
  { state.perform settings timed.now timed.action with clock := timed.now }

end TaskState

section Rows

variable {row entry : BinlogEntry Config}

theorem updateInstance_eq (hname : entry.instanceName = row.instanceName) :
    row.updateInstance entry = row.overwrite entry := by
  simp [BinlogEntry.updateInstance, compared, hname]

theorem written_self {α : Type} [DecidableEq α] (default value : α) :
    written default value value = value := by
  unfold written
  split_ifs <;> rfl

theorem updateInstance_self (row : BinlogEntry Config) : row.updateInstance row = row := by
  rw [updateInstance_eq rfl]
  simp only [BinlogEntry.overwrite, written_self]

theorem updateInstance_state (hname : entry.instanceName = row.instanceName)
    (hstate : entry.state ≠ .undefined) : (row.updateInstance entry).state = entry.state := by
  rw [updateInstance_eq hname, overwrite_state hstate]

end Rows

namespace TaskState

variable (settings : TaskSettings) (now : ℕ) (state : TaskState Config)

theorem poll_of_find {taskId : Text} {task : Task}
    (hfind : (state.tasks.find? fun task => task.taskId = taskId && task.isUnfinished) =
      some task) :
    task.taskId = taskId ∧ task.isUnfinished = true ∧
      (task.status ≠ .executing ∧
          state.poll settings now taskId = state.handleWaitingOrFailedTask settings now task ∨
        task.status = .executing ∧
          state.poll settings now taskId = state.handleExecutingTask settings now task) := by
  have hfound := List.find?_some hfind
  obtain ⟨hid, hunfinished⟩ := Bool.and_eq_true_iff.mp hfound
  refine ⟨of_decide_eq_true hid, hunfinished, ?_⟩
  simp only [poll, hfind]
  cases hstatus : task.status with
  | waiting => exact .inl ⟨by simp, rfl⟩
  | failed => exact .inl ⟨by simp, rfl⟩
  | executing => exact .inr ⟨rfl, rfl⟩
  | completed =>
    rw [Task.isUnfinished, hstatus] at hunfinished
    cases hunfinished

/-- A poll finds no unfinished task with the id, or it handles one. -/
theorem poll_cases (taskId : Text) :
    (state.poll settings now taskId = state ∧
      ∀ task ∈ state.tasks, task.taskId = taskId → task.isUnfinished = false) ∨
    ∃ task ∈ state.tasks, task.taskId = taskId ∧ task.isUnfinished = true ∧
      (task.status ≠ .executing ∧
          state.poll settings now taskId = state.handleWaitingOrFailedTask settings now task ∨
        task.status = .executing ∧
          state.poll settings now taskId = state.handleExecutingTask settings now task) := by
  cases hfind : state.tasks.find? fun task => task.taskId = taskId && task.isUnfinished with
  | none =>
    refine .inl ⟨by rw [poll, hfind], fun task htask hid => ?_⟩
    simpa [hid] using List.find?_eq_none.mp hfind task htask
  | some task =>
    exact .inr ⟨task, List.mem_of_find?_eq_some hfind, state.poll_of_find settings now hfind⟩

/-- What a poll of a waiting or failed task does: the task is not of this node, or it is not
due, or its body is submitted. -/
theorem handleWaitingOrFailedTask_cases {task : Task} (hunfinished : task.isUnfinished = true) :
    (task.isRecover = false ∧ state.row.nodeId ≠ settings.nodeId ∧
      state.handleWaitingOrFailedTask settings now task =
        { state with tasks := updateTask now state.tasks { task with status := .completed } }) ∨
    (task.execNow now = false ∧ state.handleWaitingOrFailedTask settings now task = state) ∨
    ((task.isRecover = true ∨ state.row.nodeId = settings.nodeId) ∧ task.execNow now = true ∧
      ∃ retryCount, state.handleWaitingOrFailedTask settings now task =
        { state with
          tasks := updateTask now state.tasks { task with status := .executing, retryCount }
          row := submittedRow state.row task.type
          submitted := state.submitted ++ [⟨task.taskId, task.type, now⟩] }) := by
  unfold handleWaitingOrFailedTask
  by_cases hother : task.isRecover = false ∧ state.row.nodeId ≠ settings.nodeId
  · exact .inl ⟨hother.1, hother.2, if_pos (by simpa using hother)⟩
  rw [if_neg (by simpa using hother)]
  cases hdue : task.execNow now with
  | false => exact .inr (.inl ⟨rfl, if_pos rfl⟩)
  | true =>
    have hretries : ¬ (task.status = .failed ∧ maxTaskRetryTimes ≤ task.retryCount) := by
      rintro ⟨hfailed, hretries⟩
      rw [Task.isUnfinished, hfailed] at hunfinished
      exact absurd (of_decide_eq_true hunfinished) (not_lt.mpr hretries)
    have hours : task.isRecover = true ∨ state.row.nodeId = settings.nodeId := by
      by_contra hneither
      rw [not_or] at hneither
      exact hother ⟨by simpa using hneither.1, hneither.2⟩
    refine .inr (.inr ⟨hours, rfl,
      if task.status = .failed then task.retryCount + 1 else task.retryCount, ?_⟩)
    rw [if_neg (by simp), if_neg hretries]
    -- a handler is called after the status has been set, and so it never objects
    exact if_pos (by cases task.type <;> simp [expects])

theorem not_mem_of_hasTask {taskId : Text} (hnew : ¬ state.hasTask taskId = true) :
    taskId ∉ state.tasks.map Task.taskId := by
  intro hmem
  obtain ⟨task, htask, hid⟩ := List.mem_map.mp hmem
  exact hnew (List.any_eq_true.mpr ⟨task, htask, decide_eq_true hid⟩)

theorem publish_cases (task : Task) :
    state.perform settings now (.publish task) = state ∨
      task.taskId ∉ state.tasks.map Task.taskId ∧
        state.perform settings now (.publish task) = state.addTask now task := by
  by_cases hhas : state.hasTask task.taskId = true
  · exact .inl (if_pos hhas)
  · exact .inr ⟨state.not_mem_of_hasTask hhas, if_neg hhas⟩

theorem dropInstances_cases (task : Task) :
    state.perform settings now (.dropInstances task) = state ∨
      task.taskId ∉ state.tasks.map Task.taskId ∧
        state.perform settings now (.dropInstances task) = state.commitDrop now task := by
  by_cases hhas : state.hasTask task.taskId = true
  · exact .inl (if_pos hhas)
  · exact .inr ⟨state.not_mem_of_hasTask hhas, if_neg hhas⟩

theorem alterRead_eq (isTenantWide : Bool) :
    ∃ alterReads, state.alterRead isTenantWide = { state with alterReads } := by
  unfold alterRead
  split_ifs
  · exact ⟨state.alterReads, rfl⟩
  · exact ⟨state.alterReads ++ [state.row], rfl⟩

theorem alterWrite_eq (index : ℕ) (edit : Config → Config) :
    ∃ row alterReads, state.alterWrite index edit = { state with row, alterReads } := by
  unfold alterWrite
  cases state.alterReads[index]? with
  | none => exact ⟨state.row, state.alterReads, rfl⟩
  | some read => exact ⟨_, _, rfl⟩

end TaskState

/-- The tasks whose bodies leave the instance running, or failed. -/
def TaskType.bringsUp : TaskType → Bool
  | .create | .start | .recover _ => true
  | .drop _ | .stop => false

theorem submittedRow_state {row : BinlogEntry Config} {type : TaskType} :
    (submittedRow row type).state = if type.bringsUp then .starting else row.state := by
  cases type with
  | create => exact updateInstance_state rfl (by simp)
  | start => exact updateInstance_state rfl (by simp)
  | recover offlineInstance => exact updateInstance_state rfl (by simp)
  | drop expectExecTime => rfl
  | stop => rfl

/-- A repair changes the row only of an instance that is starting. -/
theorem interruptRecover_fst (row : BinlogEntry Config) (path : WorkPath)
    (type : TaskType) :
    (interruptRecover row path type).1 =
      if type.bringsUp = true ∧ row.state = .starting then (recoverStartingInstance row path).1
      else row := by
  cases type with
  | drop expectExecTime => rfl
  | stop => rfl
  | create => cases hstate : row.state <;> simp [interruptRecover, TaskType.bringsUp, hstate]
  | start => cases hstate : row.state <;> simp [interruptRecover, TaskType.bringsUp, hstate]
  | recover offlineInstance =>
    cases hstate : row.state <;> simp [interruptRecover, TaskType.bringsUp, hstate]

section BringUp

variable (binlogLogBinBasename : Text) (row : BinlogEntry Config)
  (status : Option TaskStatus) (path : WorkPath) (met : Surroundings Config)

def isExpected : Bool :=
  status = some .executing ∨ row.state = .starting

/-- The body finds the work path occupied and takes the instance to be running. -/
def adopts : TaskType → Bool
  | .start => path.isOccupied
  | .recover offlineInstance =>
    isExpected row status && offlineInstance = row.instanceName && path.isOccupied
  | .create | .drop _ | .stop => false

def launches : TaskType → Bool
  | .create =>
    isExpected row status && met.initPoint.isSome && !path.isOccupied && met.directoryMade &&
      met.configWritten
  | .start => !path.isOccupied && met.configWritten
  | .recover offlineInstance =>
    isExpected row status && (offlineInstance = row.instanceName || met.initPoint.isSome) &&
      !path.isOccupied && met.directoryMade && met.configWritten
  | .drop _ | .stop => false

/-- The result of a body for an object with the name, pid and port of the row. -/
def broughtUp (entry : BinlogEntry Config) (type : TaskType) : BodyResult Config :=
  if adopts row status path type then
    ⟨row.updateInstance { entry with state := .running }, .completed, path⟩
  else if launches row status path met type then startBinlogInstanceInner row path met entry
  else ⟨row.updateInstance { entry with state := .failed }, .failed, path⟩

/-- The task whose body `create_binlog_instance` is. -/
def creates (offlineInstance : Option Text) : TaskType :=
  offlineInstance.elim .create .recover

theorem adopts_creates (offlineInstance : Option Text) :
    adopts row status path (creates offlineInstance) =
      (isExpected row status &&
        (offlineInstance.isSome && offlineInstance.all fun name => name = row.instanceName) &&
        path.isOccupied) := by
  cases offlineInstance with
  | none => simp [creates, adopts]
  | some name => simp [creates, adopts]

theorem launches_creates (offlineInstance : Option Text) :
    launches row status path met (creates offlineInstance) =
      (isExpected row status &&
        (if offlineInstance.isSome && offlineInstance.all fun name => name = row.instanceName then
          some id else met.initPoint).isSome &&
        !path.isOccupied && met.directoryMade && met.configWritten) := by
  cases offlineInstance with
  | none => simp [creates, launches]
  | some name =>
    by_cases hname : name = row.instanceName
    · simp [creates, launches, hname]
    · simp [creates, launches, hname]

theorem createBinlogInstance_eq (offlineInstance : Option Text) :
    ∃ entry : BinlogEntry Config, entry.instanceName = row.instanceName ∧ entry.pid = row.pid ∧
      entry.port = row.port ∧
      createBinlogInstance binlogLogBinBasename row status path met offlineInstance =
        broughtUp row status path met entry (creates offlineInstance) := by
  unfold createBinlogInstance broughtUp
  rw [adopts_creates, launches_creates]
  dsimp only
  -- from here on it only matters whether an instance is recovered in place, and from where
  generalize (offlineInstance.isSome && offlineInstance.all fun name => name = row.instanceName) =
    recoversInPlace
  have hpoint : recoversInPlace = true →
      (if recoversInPlace = true then some id else met.initPoint).isSome = true := by
    intro hinPlace
    rw [if_pos hinPlace]
    rfl
  generalize (if recoversInPlace = true then some id else met.initPoint) = point at hpoint ⊢
  by_cases hunexpected : status ≠ some .executing ∧ row.state ≠ .starting
  · have hexpected : isExpected row status = false := by
      simpa [isExpected] using hunexpected
    refine ⟨row, rfl, rfl, rfl, ?_⟩
    simp [hunexpected, hexpected]
  have hexpected : isExpected row status = true := by
    simpa [isExpected, or_iff_not_imp_left] using hunexpected
  rw [if_neg hunexpected]
  cases point with
  | none =>
    have hinPlace : recoversInPlace = false := by simpa using hpoint
    refine ⟨row, rfl, rfl, rfl, ?_⟩
    simp [hinPlace]
  | some initPoint =>
    cases hoccupied : path.isOccupied with
    | true =>
      refine ⟨{ row with config := initPoint row.config, state := .failed }, rfl, rfl, rfl, ?_⟩
      cases recoversInPlace with
      | true => simp [hexpected]
      | false => simp
    | false =>
      cases hmade : met.directoryMade with
      | false =>
        refine ⟨{ row with config := initPoint row.config, state := .failed }, rfl, rfl, rfl, ?_⟩
        simp
      | true =>
        refine ⟨{ row with
          config := met.serverOptions (initPoint row.config)
          workPath := binlogLogBinBasename ++ ['/'] ++ row.instanceName
          state := .failed }, rfl, rfl, rfl, ?_⟩
        cases hwritten : met.configWritten with
        | true => simp [hexpected]
        | false => simp

theorem startBinlogInstance_eq :
    ∃ entry : BinlogEntry Config, entry.instanceName = row.instanceName ∧ entry.pid = row.pid ∧
      entry.port = row.port ∧
      startBinlogInstance row path met = broughtUp row status path met entry .start := by
  cases hoccupied : path.isOccupied with
  | true =>
    refine ⟨row, rfl, rfl, rfl, ?_⟩
    simp [startBinlogInstance, broughtUp, adopts, hoccupied]
  | false =>
    refine ⟨{ row with config := met.serverOptions row.config, state := .failed },
      rfl, rfl, rfl, ?_⟩
    cases hwritten : met.configWritten with
    | true => simp [startBinlogInstance, broughtUp, adopts, launches, hoccupied, hwritten]
    | false => simp [startBinlogInstance, broughtUp, adopts, launches, hoccupied, hwritten]

theorem runBody_eq {type : TaskType} (htype : type.bringsUp = true) :
    ∃ entry : BinlogEntry Config, entry.instanceName = row.instanceName ∧ entry.pid = row.pid ∧
      entry.port = row.port ∧
      runBody binlogLogBinBasename row status path met type =
        broughtUp row status path met entry type := by
  cases type with
  | create => exact createBinlogInstance_eq binlogLogBinBasename row status path met none
  | start => exact startBinlogInstance_eq row status path met
  | recover offlineInstance =>
    exact createBinlogInstance_eq binlogLogBinBasename row status path met (some offlineInstance)
  | drop expectExecTime => cases htype
  | stop => cases htype

theorem runBody_state (type : TaskType) :
    let result := runBody binlogLogBinBasename row status path met type
    (type.bringsUp = true ∧ (result.row.state = .failed ∧ result.status = .failed ∨
        result.row.state = .running ∧ result.status = .completed)) ∨
      (type = .stop ∧ result.row.state = .stop ∧ result.status = .completed) ∨
      (∃ expectExecTime, type = .drop expectExecTime) ∧ result.row.state = .drop ∧
        result.status = .completed := by
  intro result
  by_cases htype : type.bringsUp = true
  · refine .inl ⟨htype, ?_⟩
    obtain ⟨entry, hname, -, -, heq⟩ :=
      runBody_eq binlogLogBinBasename row status path met htype
    have hresult : result = broughtUp row status path met entry type := heq
    rw [hresult]
    unfold broughtUp startBinlogInstanceInner
    split_ifs
    · exact .inr ⟨updateInstance_state hname (by simp), rfl⟩
    · split
      · exact .inl ⟨updateInstance_state hname (by simp), rfl⟩
      · exact .inr ⟨updateInstance_state hname (by simp), rfl⟩
    · exact .inl ⟨updateInstance_state hname (by simp), rfl⟩
  · cases type with
    | stop => exact .inr (.inl ⟨rfl, updateInstance_state rfl (by simp), rfl⟩)
    | drop expectExecTime =>
      exact .inr (.inr ⟨⟨expectExecTime, rfl⟩, updateInstance_state rfl (by simp), rfl⟩)
    | create => exact absurd rfl htype
    | start => exact absurd rfl htype
    | recover offlineInstance => exact absurd rfl htype

end BringUp

end OblogProxy.Cluster
