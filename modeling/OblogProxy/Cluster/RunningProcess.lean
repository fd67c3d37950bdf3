import OblogProxy.Cluster.InstanceTasks

/-!
# The state of a row

The row of an instance that is running names a process by its pid and a port.  A body writes
`RUNNING` when the process it launched has reported in time, or when it finds the work path
occupied, and a repair writes it for the process that it finds in the pid file.  Of these, only
the repair always records the process that holds the lock on the work path.

`drop_instances` sets the state to `LOGICAL_DROP` and publishes the task that drops the instance
for good.  Other tasks may still be pending then, and statements may have read the row.
-/

namespace OblogProxy.Cluster

open Gtid Runs BinlogEntry

variable {path : WorkPath}

namespace WorkPath

/-- The process that reports is the one that was launched for it. -/
def ReportsItself : WorkPath → List Launch → Prop
  | _, [] => True
  | path, launch :: rest =>
    match launch.result with
    | .bindError => ReportsItself (path.launched launch) rest
    | .reported late => ∀ other, late.bind (path.late[·]?) = some other → other = launch.process
    | .exited => True
    | .hung _ => True

/-- A launch that succeeds leaves a holder that has reported; it is the process that is
recorded exactly if the process that reports is the one that was launched. -/
theorem startInner_some {after : WorkPath} {launches : List Launch} {process : Process}
    (hstart : path.startInner launches = (after, some process)) :
    ∃ holder, after.holder = some ⟨holder, true⟩ ∧
      (holder = process ↔ path.ReportsItself launches) := by
  induction launches generalizing path with
  | nil => cases hstart
  | cons launch rest ih =>
    obtain ⟨launched, result⟩ := launch
    cases result with
    | bindError => exact ih hstart
    | exited => cases hstart
    | hung locked => cases hstart
    | reported late =>
      cases hstart
      cases hother : late.bind (path.late[·]?) with
      | none =>
        refine ⟨launched, ?_, ?_⟩
        · simp [WorkPath.launched, hother]
        · simp [ReportsItself, hother]
      | some other =>
        refine ⟨other, ?_, ?_⟩
        · simp [WorkPath.launched, hother]
        · simp [ReportsItself, hother]

theorem reportsItself_of_none {after : WorkPath} {launches : List Launch}
    (hstart : path.startInner launches = (after, none)) : path.ReportsItself launches := by
  induction launches generalizing path with
  | nil => trivial
  | cons launch rest ih =>
    obtain ⟨launched, result⟩ := launch
    cases result with
    | bindError => exact ih hstart
    | exited => trivial
    | hung locked => trivial
    | reported late => cases hstart

end WorkPath

namespace TaskState

variable {Config : Type} (settings : TaskSettings)

def statusOf (state : TaskState Config) (body : Submitted) : Option TaskStatus :=
  (state.tasks.find? fun task => task.taskId = body.taskId).map Task.status

/-- The step stores `RUNNING`: the body of a task that brings the instance up, or a poll that
repairs an interrupted one. -/
def StoresRunning (state : TaskState Config) (timed : TimedAction Config) : Prop :=
  match timed.action with
  | .poll _ => state.row.state ≠ .running ∧ (state.step settings timed).row.state = .running
  | .runSubmitted index _ =>
    (∃ body, state.submitted[index]? = some body ∧ body.type.bringsUp = true) ∧
      (state.step settings timed).row.state = .running
  | _ => False

def Recorded (row : BinlogEntry Config) (path : WorkPath) : Prop :=
  ∃ holder, path.holder = some holder ∧ row.pid = holder.process.pid ∧
    row.port = holder.process.port

/-- If the step stores `RUNNING`, then with the process that holds the lock. -/
def RecordsHolder (state : TaskState Config) (timed : TimedAction Config) : Prop :=
  state.StoresRunning settings timed →
    Recorded (state.step settings timed).row (state.step settings timed).path

/-- A body that finds the work path occupied finds the process that is recorded, and a body
that launches a process hears from that process. -/
def KnowsProcess (state : TaskState Config) (timed : TimedAction Config) : Prop :=
  match timed.action with
  | .runSubmitted index met =>
    ∀ body, state.submitted[index]? = some body →
      (adopts state.row (state.statusOf body) state.path body.type = true →
        Recorded state.row state.path) ∧
      (launches state.row (state.statusOf body) state.path met body.type = true →
        state.path.ReportsItself met.launches)
  | _ => True

variable {settings} {state : TaskState Config} {now : ℕ}

theorem updateInstance_process {row entry : BinlogEntry Config}
    (hname : entry.instanceName = row.instanceName) (hpid : entry.pid = row.pid)
    (hport : entry.port = row.port) :
    (row.updateInstance entry).pid = row.pid ∧ (row.updateInstance entry).port = row.port := by
  rw [updateInstance_eq hname]
  simp [overwrite, hpid, hport, written_self]

theorem updateInstance_launched {row entry : BinlogEntry Config} {process : Process}
    (hname : entry.instanceName = row.instanceName) (hpid : entry.pid = process.pid)
    (hport : entry.port = process.port) :
    (row.updateInstance entry).pid = process.pid ∧
      (row.updateInstance entry).port = process.port := by
  rw [updateInstance_eq hname]
  simp [overwrite, written, hpid, hport, process.pid_pos.ne', process.port_pos.ne']

variable {type : TaskType}

/-- A repair records the process that it finds in the pid file. -/
theorem interruptRecover_recorded {row : BinlogEntry Config} (hbefore : row.state ≠ .running)
    (hafter : (row.updateInstance (interruptRecover row path type).1).state = .running) :
    Recorded (row.updateInstance (interruptRecover row path type).1) path := by
  rw [interruptRecover_fst] at hafter ⊢
  split_ifs at hafter ⊢ with hrepair
  · unfold recoverStartingInstance at hafter ⊢
    split at hafter
    case h_1 process hholder =>
      exact ⟨_, hholder, updateInstance_launched rfl rfl rfl⟩
    case h_2 =>
      have hfailed : (row.updateInstance { row with state := .failed }).state = .failed :=
        updateInstance_state rfl (by simp)
      cases hfailed.symm.trans hafter
  · rw [updateInstance_self] at hafter
    exact absurd hafter hbefore

/-- A poll that stores `RUNNING` has repaired a task. -/
theorem poll_recordsHolder (state : TaskState Config) (now : ℕ) (taskId : Text) :
    state.RecordsHolder settings ⟨now, .poll taskId⟩ := by
  rintro ⟨hbefore, hafter⟩
  change (state.poll settings now taskId).row.state = .running at hafter
  change Recorded (state.poll settings now taskId).row (state.poll settings now taskId).path
  rcases state.poll_cases settings now taskId with
    ⟨hpoll, -⟩ | ⟨task, -, -, hunfinished, ⟨-, hpoll⟩ | ⟨-, hpoll⟩⟩
  · rw [hpoll] at hafter
    exact absurd hafter hbefore
  · rw [hpoll] at hafter
    rcases state.handleWaitingOrFailedTask_cases settings now hunfinished with
      ⟨-, -, heq⟩ | ⟨-, heq⟩ | ⟨-, -, retryCount, heq⟩
    · rw [heq] at hafter
      exact absurd hafter hbefore
    · rw [heq] at hafter
      exact absurd hafter hbefore
    · rw [heq] at hafter
      rw [submittedRow_state] at hafter
      split_ifs at hafter
      exact absurd hafter hbefore
  · rw [hpoll] at hafter ⊢
    unfold handleExecutingTask at hafter ⊢
    split_ifs at hafter ⊢
    · exact interruptRecover_recorded hbefore hafter
    · exact absurd hafter hbefore

/-- An occupied work path is adopted, and a free one is launched into. -/
theorem launches_of_adopts {row : BinlogEntry Config} {status : Option TaskStatus}
    (met : Surroundings Config) (hadopts : adopts row status path type = true) :
    launches row status path met type = false := by
  cases type with
  | create => cases hadopts
  | drop expectExecTime => cases hadopts
  | stop => cases hadopts
  | start => simp_all [adopts, launches]
  | recover offlineInstance => simp_all [adopts, launches]

section Recorded

variable {row entry : BinlogEntry Config} {path : WorkPath} {met : Surroundings Config}
  (hname : entry.instanceName = row.instanceName)

include hname

theorem startBinlogInstanceInner_recorded_iff :
    ((startBinlogInstanceInner row path met entry).row.state = .running →
        Recorded (startBinlogInstanceInner row path met entry).row
          (startBinlogInstanceInner row path met entry).path) ↔
      path.ReportsItself met.launches := by
  unfold startBinlogInstanceInner
  split
  case h_1 after hstart =>
    have hstate := @updateInstance_state _ row { entry with state := .failed } hname (by simp)
    refine iff_of_true (fun hrunning => ?_) (WorkPath.reportsItself_of_none hstart)
    cases hstate.symm.trans hrunning
  case h_2 after process hstart =>
    obtain ⟨holder, hholder, hitself⟩ := WorkPath.startInner_some hstart
    have hprocess := @updateInstance_launched _ row
      { entry with port := process.port, pid := process.pid, state := .running } process hname
      rfl rfl
    have hstate := @updateInstance_state _ row
      { entry with port := process.port, pid := process.pid, state := .running } hname (by simp)
    rw [← hitself]
    constructor
    · intro hrecorded
      obtain ⟨found, hfound, hpid, hport⟩ := hrecorded hstate
      cases hholder.symm.trans hfound
      cases process
      cases hprocess.1.symm.trans hpid
      cases hprocess.2.symm.trans hport
      rfl
    · rintro rfl -
      exact ⟨_, hholder, hprocess⟩

/-- When a body that brings the instance up records the holder of the lock. -/
theorem broughtUp_recorded_iff {status : Option TaskStatus} (hpid : entry.pid = row.pid)
    (hport : entry.port = row.port) :
    ((broughtUp row status path met entry type).row.state = .running →
        Recorded (broughtUp row status path met entry type).row
          (broughtUp row status path met entry type).path) ↔
      (adopts row status path type = true → Recorded row path) ∧
        (launches row status path met type = true → path.ReportsItself met.launches) := by
  unfold broughtUp
  cases hadopts : adopts row status path type with
  | true =>
    have hprocess := @updateInstance_process _ row { entry with state := .running } hname hpid
      hport
    have hstate := @updateInstance_state _ row { entry with state := .running } hname (by simp)
    simp [launches_of_adopts met hadopts, hstate, Recorded, hprocess]
  | false =>
    cases hlaunches : launches row status path met type with
    | false =>
      have hstate := @updateInstance_state _ row { entry with state := .failed } hname
        (by simp)
      simp [hstate]
    | true =>
      simp only [Bool.false_eq_true, if_false, if_true, false_implies, true_and, true_implies]
      rw [startBinlogInstanceInner_recorded_iff hname]

end Recorded

theorem runSubmitted_recordsHolder_iff (state : TaskState Config) (now index : ℕ)
    (met : Surroundings Config) :
    state.RecordsHolder settings ⟨now, .runSubmitted index met⟩ ↔
      state.KnowsProcess ⟨now, .runSubmitted index met⟩ := by
  unfold RecordsHolder StoresRunning KnowsProcess
  dsimp only
  cases hbody : state.submitted[index]? with
  | none =>
    refine iff_of_true ?_ nofun
    rintro ⟨⟨_, hnone, -⟩, -⟩
    cases hnone
  | some body =>
    simp only [Option.some.injEq, forall_eq', exists_eq_left', and_imp]
    cases htype : body.type.bringsUp with
    | false =>
      refine iff_of_true nofun ?_
      cases hkind : body.type with
      | drop expectExecTime => exact ⟨nofun, nofun⟩
      | stop => exact ⟨nofun, nofun⟩
      | create => rw [hkind] at htype; cases htype
      | start => rw [hkind] at htype; cases htype
      | recover offlineInstance => rw [hkind] at htype; cases htype
    | true =>
      obtain ⟨entry, hname, hpid, hport, heq⟩ := runBody_eq settings.binlogLogBinBasename
        state.row (state.statusOf body) state.path met htype
      rw [← broughtUp_recorded_iff hname hpid hport, ← heq]
      have hrow : (state.step settings ⟨now, .runSubmitted index met⟩).row =
          (runBody settings.binlogLogBinBasename state.row (state.statusOf body) state.path met
            body.type).row := by
        simp only [step, perform, runSubmitted, hbody, statusOf]
      have hpath : (state.step settings ⟨now, .runSubmitted index met⟩).path =
          (runBody settings.binlogLogBinBasename state.row (state.statusOf body) state.path met
            body.type).path := by
        simp only [step, perform, runSubmitted, hbody, statusOf]
      rw [hrow, hpath]
      simp

theorem recordsHolder_iff (state : TaskState Config) (timed : TimedAction Config) :
    state.RecordsHolder settings timed ↔ state.KnowsProcess timed := by
  obtain ⟨now, action⟩ := timed
  cases action with
  | poll taskId => exact iff_of_true (poll_recordsHolder state now taskId) trivial
  | runSubmitted index met => exact runSubmitted_recordsHolder_iff state now index met
  | _ => exact iff_of_true (fun hstores => hstores.elim) trivial

variable (settings)

end TaskState

def unlaunchedInstance : TaskState Unit where
  row :=
    { nodeId := "n1".toList
      ip := "10.0.0.1".toList
      port := 0
      instanceName := "i1".toList
      cluster := "c1".toList
      tenant := "t1".toList
      pid := 0
      workPath := []
      state := .init
      config := ()
      heartbeat := 0
      delay := unknownDelay
      minDumpCheckpoint := 0 }
  tasks := [⟨"create".toList, .create, .waiting, 0, 1000⟩, ⟨"start".toList, .start, .waiting, 0, 1000⟩]
  submitted := []
  path := {}
  alterReads := []
  clock := 1000
  published := fun _ => 1000

def lateProcess : Process := ⟨4001, 8101, by decide, by decide⟩

/-- What a body meets that launches the late process, which takes the lock and is slow to
report. -/
def slowLaunch : Surroundings Unit where
  initPoint := some id
  directoryMade := true
  serverOptions := id
  configWritten := true
  launches := [⟨lateProcess, .hung true⟩]
  killed := false

namespace TaskState

variable {Config : Type} (settings : TaskSettings) {state : TaskState Config} {now : ℕ}

def IsDropped (state : TaskState Config) : Prop :=
  state.row.isDropped = true

/-- The step leaves a dropped instance alone: a poll does not begin to bring it up, a body that
is run is one that drops it, and a statement that writes has read it as dropped. -/
def LeavesDropped (state : TaskState Config) (timed : TimedAction Config) : Prop :=
  match timed.action with
  | .poll taskId =>
    ∀ task, (state.tasks.find? fun task => task.taskId = taskId && task.isUnfinished) =
        some task → task.status ≠ .executing → task.type.bringsUp = true →
      task.isRecover = false ∧ state.row.nodeId ≠ settings.nodeId
  | .runSubmitted index _ =>
    ∀ body, state.submitted[index]? = some body →
      ∃ expectExecTime, body.type = .drop expectExecTime
  | .alterWrite index _ =>
    ∀ read, state.alterReads[index]? = some read →
      compared [] read.instanceName state.row.instanceName = true →
      read.isDropped = true ∨ read.state = .undefined
  | _ => True

theorem isDropped_iff {Config : Type} (row : BinlogEntry Config) :
    row.isDropped = true ↔ row.state = .drop ∨ row.state = .logicalDrop :=
  decide_eq_true_iff

theorem interruptRecover_dropped {row : BinlogEntry Config} (hdropped : row.isDropped = true)
    (path : WorkPath) (type : TaskType) : (interruptRecover row path type).1 = row := by
  rw [interruptRecover_fst, if_neg]
  rintro ⟨-, hstarting⟩
  simp [isDropped_iff, hstarting] at hdropped

theorem handleExecutingTask_dropped (hdropped : state.IsDropped) (task : Task) :
    (state.handleExecutingTask settings now task).IsDropped := by
  unfold handleExecutingTask
  split_ifs
  · dsimp only
    rw [interruptRecover_dropped hdropped, updateInstance_self]
    exact hdropped
  · exact hdropped

theorem execNow_of_bringsUp {task : Task} (htype : task.type.bringsUp = true) :
    task.execNow now = true := by
  unfold Task.execNow
  cases hkind : task.type with
  | drop expectExecTime =>
    rw [hkind] at htype
    cases htype
  | create => rfl
  | start => rfl
  | stop => rfl
  | recover offlineInstance => rfl

section Dropped

variable (hdropped : state.IsDropped)

include hdropped

theorem handleWaitingOrFailedTask_dropped_iff {task : Task}
    (hunfinished : task.isUnfinished = true) :
    (state.handleWaitingOrFailedTask settings now task).IsDropped ↔
      (task.type.bringsUp = true →
        task.isRecover = false ∧ state.row.nodeId ≠ settings.nodeId) := by
  rcases state.handleWaitingOrFailedTask_cases settings now hunfinished with
    ⟨hrecover, hnode, heq⟩ | ⟨hdue, heq⟩ | ⟨hours, -, retryCount, heq⟩
  · rw [heq]
    exact iff_of_true hdropped fun _ => ⟨hrecover, hnode⟩
  · rw [heq]
    refine iff_of_true hdropped fun htype => ?_
    rw [execNow_of_bringsUp htype] at hdue
    cases hdue
  · rw [heq]
    change (submittedRow state.row task.type).isDropped = true ↔ _
    rw [isDropped_iff, submittedRow_state]
    cases htype : task.type.bringsUp with
    | false => exact iff_of_true ((isDropped_iff _).mp hdropped) nofun
    | true =>
      refine iff_of_false (by simp) fun hneither => ?_
      obtain ⟨hrecover, hnode⟩ := hneither rfl
      rcases hours with hours | hours
      · rw [hrecover] at hours
        cases hours
      · exact hnode hours

theorem poll_dropped_iff (taskId : Gtid.Text) :
    (state.poll settings now taskId).IsDropped ↔
      state.LeavesDropped settings ⟨now, .poll taskId⟩ := by
  unfold LeavesDropped
  dsimp only
  cases hfind : state.tasks.find? fun task => task.taskId = taskId && task.isUnfinished with
  | none =>
    rw [poll, hfind]
    refine iff_of_true hdropped ?_
    rintro _ ⟨⟩
  | some task =>
    obtain ⟨-, hunfinished, ⟨hstatus, hpoll⟩ | ⟨hstatus, hpoll⟩⟩ :=
      state.poll_of_find settings now hfind
    · rw [hpoll, handleWaitingOrFailedTask_dropped_iff settings hdropped hunfinished]
      constructor
      · rintro hleaves _ ⟨⟩ -
        exact hleaves
      · exact fun hleaves => hleaves task rfl hstatus
    · rw [hpoll]
      refine iff_of_true (handleExecutingTask_dropped settings hdropped task) ?_
      rintro _ ⟨⟩ hother
      exact absurd hstatus hother

theorem runSubmitted_dropped_iff (index : ℕ) (met : Surroundings Config) :
    (state.runSubmitted settings now index met).IsDropped ↔
      state.LeavesDropped settings ⟨now, .runSubmitted index met⟩ := by
  unfold runSubmitted LeavesDropped
  dsimp only
  cases hbody : state.submitted[index]? with
  | none => exact iff_of_true hdropped nofun
  | some body =>
    have hstate := runBody_state settings.binlogLogBinBasename state.row
      ((state.tasks.find? fun task => task.taskId = body.taskId).map Task.status) state.path met
      body.type
    simp only [Option.some.injEq, forall_eq']
    unfold IsDropped
    rw [isDropped_iff]
    rcases hstate with ⟨htype, hstate⟩ | ⟨htype, hstate, -⟩ | ⟨htype, hstate, -⟩
    · refine iff_of_false ?_ ?_
      · rcases hstate with ⟨hstate, -⟩ | ⟨hstate, -⟩
        · simp [hstate]
        · simp [hstate]
      · rintro ⟨expectExecTime, hdrop⟩
        rw [hdrop] at htype
        cases htype
    · exact iff_of_false (by simp [hstate]) (by simp [htype])
    · exact iff_of_true (.inl hstate) htype

theorem alterWrite_dropped_iff (index : ℕ) (edit : Config → Config) :
    (state.alterWrite index edit).IsDropped ↔
      state.LeavesDropped settings ⟨now, .alterWrite index edit⟩ := by
  unfold alterWrite LeavesDropped
  dsimp only
  cases hread : state.alterReads[index]? with
  | none => exact iff_of_true hdropped nofun
  | some read =>
    simp only [Option.some.injEq, forall_eq']
    unfold IsDropped updateInstance
    split_ifs with hcompared
    · rw [isDropped_iff, isDropped_iff]
      by_cases hundefined : read.state = .undefined
      · simpa [overwrite, written, hundefined] using (isDropped_iff _).mp hdropped
      · simp [overwrite, written, hundefined, hcompared]
    · exact iff_of_true hdropped fun hhit => absurd hhit hcompared

theorem step_dropped_iff (timed : TimedAction Config) :
    (state.step settings timed).IsDropped ↔ state.LeavesDropped settings timed := by
  obtain ⟨now, action⟩ := timed
  cases action with
  | publish task =>
    refine iff_of_true ?_ trivial
    change (state.perform settings now (.publish task)).IsDropped
    rcases state.publish_cases settings now task with heq | ⟨-, heq⟩
    · rw [heq]
      exact hdropped
    · rw [heq]
      exact hdropped
  | dropInstances task =>
    refine iff_of_true ?_ trivial
    change (state.perform settings now (.dropInstances task)).IsDropped
    rcases state.dropInstances_cases settings now task with heq | ⟨-, heq⟩
    · rw [heq]
      exact hdropped
    · rw [heq]
      exact (isDropped_iff _).mpr (.inr rfl)
  | poll taskId => exact poll_dropped_iff settings hdropped taskId
  | runSubmitted index met => exact runSubmitted_dropped_iff settings hdropped index met
  | alterRead isTenantWide =>
    refine iff_of_true ?_ trivial
    obtain ⟨alterReads, heq⟩ := state.alterRead_eq isTenantWide
    change (state.alterRead isTenantWide).IsDropped
    rw [heq]
    exact hdropped
  | alterWrite index edit => exact alterWrite_dropped_iff settings hdropped index edit
  | lateTries index => exact iff_of_true hdropped trivial
  | holderReports => exact iff_of_true hdropped trivial
  | holderExits => exact iff_of_true hdropped trivial

end Dropped

/-- From the commit of a drop on, in every order of the steps, the instance stays dropped
exactly if every step leaves it alone. -/
theorem always_dropped_iff (state : TaskState Config) (now : ℕ) (task : Task)
    (steps : List (TimedAction Config)) :
    Always (step settings) IsDropped (state.commitDrop now task) steps ↔
      Along (step settings) (LeavesDropped settings) (state.commitDrop now task) steps :=
  @always_iff_along _ _ (step settings) (LeavesDropped settings) IsDropped (fun _ => True) _
    (fun _ timed _ hdropped => step_dropped_iff settings hdropped timed) (fun _ _ _ _ => trivial)
    trivial ((isDropped_iff _).mpr (.inr rfl)) steps

end TaskState

def stoppedInstance : TaskState Unit where
  row :=
    { nodeId := "n1".toList
      ip := "10.0.0.1".toList
      port := 8100
      instanceName := "i1".toList
      cluster := "c1".toList
      tenant := "t1".toList
      pid := 4000
      workPath := "/i1".toList
      state := .stop
      config := ()
      heartbeat := 1000
      delay := 3
      minDumpCheckpoint := 900 }
  tasks := [⟨"start".toList, .start, .waiting, 0, 1100⟩]
  submitted := []
  path := {}
  alterReads := []
  clock := 1100
  published := fun _ => 1100

def sampleSettings : TaskSettings := ⟨"n1".toList, [], 60⟩

/-- The instance is dropped, and the poll of the start sets it to starting. -/
theorem pending_start_revives :
    let dropped := stoppedInstance.commitDrop 1101 ⟨"drop".toList, .drop 2000, .waiting, 0, 0⟩
    let revived := dropped.step sampleSettings ⟨1102, .poll "start".toList⟩
    dropped.row.state = .logicalDrop ∧ revived.row.state = .starting ∧
      ¬ Always (TaskState.step sampleSettings) TaskState.IsDropped dropped
        [⟨1102, .poll "start".toList⟩] := by
  intro dropped revived
  have hrevived : revived.row.state = .starting := by decide +kernel
  refine ⟨by decide +kernel, hrevived, fun halways => ?_⟩
  have hdropped := (TaskState.isDropped_iff _).mp halways.2.1
  rw [hrevived] at hdropped
  simp at hdropped

end OblogProxy.Cluster
