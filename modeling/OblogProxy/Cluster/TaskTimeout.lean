import OblogProxy.Cluster.InstanceTasks

/-!
# Tasks that are taken to be interrupted

A poll that finds a task executing for more than `max_task_execution_time_s` takes it to be
interrupted and repairs it, on the assumption that every body ends within that time.  The age of
the execution is counted from `last_modify`, which `add_task` sets and no later update changes:
it is the age of the task, with all the time it has been waiting.

A failover publishes a task that recovers an offline instance, unless the third youngest such task
of the instance has a `last_modify` within 300 seconds.
-/

namespace OblogProxy.Cluster

open Gtid Runs List Submitted

namespace TaskAction

variable {Config : Type}

def polls (taskId : Text) : TaskAction Config → Bool
  | .poll other => other = taskId
  | _ => false

def isPoll : TaskAction Config → Bool
  | .poll _ => true
  | _ => false

def published? : TaskAction Config → Option Task
  | .publish task | .dropInstances task => some task
  | _ => none

end TaskAction

namespace TaskState

variable {Config : Type} (settings : TaskSettings)

def running (state : TaskState Config) : List Text :=
  state.submitted.map taskId

/-- What is taken for granted: the clock does not go back, every body ends within the time that
a task may take after it was set to executing, and a task is published as a new one. -/
structure InTime (state : TaskState Config) (timed : TimedAction Config) : Prop where
  clock : state.clock ≤ timed.now
  positive : 0 < timed.now
  fits : timed.now < 2 ^ 64
  bodies : ∀ body ∈ state.submitted, timed.now ≤ body.since + settings.maxTaskExecutionTimeS
  publishes : ∀ task ∈ timed.action.published?, task.status = .waiting ∧ task.lastModify = 0

/-- A task is not started again: a poll does not take it to be interrupted while its body is
running, no task has two bodies that are running, and a poll does not set an instance that is
starting to failed. -/
structure StartsOnce (state : TaskState Config) (timed : TimedAction Config) : Prop where
  notInterrupted : ∀ task ∈ state.tasks, timed.action.polls task.taskId = true →
    task.status = .executing → isInterrupted settings timed.now task = true →
      task.taskId ∉ state.running
  oneBody : (state.step settings timed).running.Nodup
  startingKept : timed.action.isPoll = true → state.row.state = .starting →
    (state.step settings timed).row.state ≠ .failed

/-- A task whose body is running is polled only while the task itself, since it was published,
is no older than a task may take. -/
def PollsYoung (state : TaskState Config) (timed : TimedAction Config) : Prop :=
  ∀ body ∈ state.submitted, timed.action.polls body.taskId = true →
    timed.now ≤ state.published body.taskId + settings.maxTaskExecutionTimeS

instance (state : TaskState Config) (timed : TimedAction Config) :
    Decidable (state.PollsYoung settings timed) :=
  inferInstanceAs (Decidable (∀ body ∈ state.submitted, timed.action.polls body.taskId = true →
    timed.now ≤ state.published body.taskId + settings.maxTaskExecutionTimeS))

/-- The tasks, the bodies that are running and the times go together: the tasks that are
executing are those with a body, and `last_modify` is the time of the publication. -/
structure Consistent (tasks : List Task) (running : List Text) (published : Text → ℕ)
    (clock : ℕ) : Prop where
  ids : (tasks.map Task.taskId).Nodup
  oneBody : running.Nodup
  hasTask : ∀ taskId ∈ running, taskId ∈ tasks.map Task.taskId
  executing : ∀ task ∈ tasks, task.status = .executing ↔ task.taskId ∈ running
  modified : ∀ task ∈ tasks, task.lastModify = published task.taskId
  positive : ∀ task ∈ tasks, 0 < task.lastModify
  past : ∀ task ∈ tasks, task.lastModify ≤ clock

def Kept (state : TaskState Config) : Prop :=
  Consistent state.tasks state.running state.published state.clock

variable {settings}

variable {taskId : Text}

theorem nodup_snoc {taskIds : List Text} (hids : taskIds.Nodup) (hnew : taskId ∉ taskIds) :
    (taskIds ++ [taskId]).Nodup := by
  rw [← concat_eq_append]
  exact hids.concat hnew

theorem updateTask_ids (now : ℕ) (tasks : List Task) (task : Task) :
    (updateTask now tasks task).map Task.taskId = tasks.map Task.taskId := by
  rw [updateTask, map_map]
  refine map_congr_left fun old _ => ?_
  simp only [Function.comp_apply]
  split_ifs with heq
  · exact heq.symm
  · rfl

variable {now : ℕ} {task : Task}

theorem mem_updateTask {tasks : List Task} {row : Task} (hrow : row ∈ updateTask now tasks task) :
    (row ∈ tasks ∧ row.taskId ≠ task.taskId) ∨
      row.taskId = task.taskId ∧ row.status = task.status ∧
        row.lastModify = (task.stamped now).lastModify := by
  obtain ⟨old, hold, rfl⟩ := mem_map.mp hrow
  split_ifs with heq
  · exact .inr ⟨rfl, rfl, rfl⟩
  · exact .inl ⟨hold, heq⟩

namespace Consistent

variable {tasks : List Task} {running : List Text} {published : Text → ℕ} {clock now : ℕ}

section Later

variable (hconsistent : Consistent tasks running published clock)

include hconsistent

theorem later (hclock : clock ≤ now) : Consistent tasks running published now :=
  { hconsistent with past := fun task htask => (hconsistent.past task htask).trans hclock }

theorem eq_of_taskId {other : Task} (htask : task ∈ tasks) (hother : other ∈ tasks)
    (hid : task.taskId = other.taskId) : task = other :=
  inj_on_of_nodup_map hconsistent.ids htask hother hid

theorem publish (hclock : clock ≤ now) (hnow : 0 < now)
    (hnew : task.taskId ∉ tasks.map Task.taskId) (hstatus : task.status = .waiting)
    (hmodify : task.lastModify = 0) :
    Consistent (tasks ++ [task.stamped now]) running (Function.update published task.taskId now)
      now := by
  have hlast : (task.stamped now).lastModify = now := if_pos hmodify
  have hrows : ∀ row ∈ tasks ++ [task.stamped now],
      (row ∈ tasks ∧ row.taskId ≠ task.taskId) ∨ row = task.stamped now := by
    intro row hrow
    rcases mem_append.mp hrow with hold | hadded
    · exact .inl ⟨hold, fun hid => hnew (hid ▸ mem_map_of_mem hold)⟩
    · exact .inr (mem_singleton.mp hadded)
  refine ⟨?_, hconsistent.oneBody, ?_, ?_, ?_, ?_, ?_⟩
  · rw [map_append]
    exact nodup_snoc hconsistent.ids hnew
  · intro taskId hrunning
    rw [map_append]
    exact mem_append_left _ (hconsistent.hasTask taskId hrunning)
  · intro row hrow
    rcases hrows row hrow with ⟨hold, -⟩ | rfl
    · exact hconsistent.executing row hold
    · refine iff_of_false (by simp [Task.stamped, hstatus]) fun hrunning => ?_
      exact hnew (hconsistent.hasTask _ hrunning)
  · intro row hrow
    rcases hrows row hrow with ⟨hold, hne⟩ | rfl
    · rw [Function.update_of_ne hne]
      exact hconsistent.modified row hold
    · rw [hlast]
      exact (Function.update_self task.taskId now published).symm
  · intro row hrow
    rcases hrows row hrow with ⟨hold, -⟩ | rfl
    · exact hconsistent.positive row hold
    · exact hlast.symm ▸ hnow
  · intro row hrow
    rcases hrows row hrow with ⟨hold, -⟩ | rfl
    · exact (hconsistent.past row hold).trans hclock
    · exact hlast.le

end Later

theorem update (hconsistent : Consistent tasks running published clock) (hclock : clock ≤ now)
    {task : Task} (htask : task ∈ tasks) (status : TaskStatus) (retryCount : ℕ)
    {others : List Text} (hothers : others.Nodup)
    (hsame : ∀ taskId, taskId ≠ task.taskId → (taskId ∈ others ↔ taskId ∈ running))
    (hexecuting : status = .executing ↔ task.taskId ∈ others) :
    Consistent (updateTask now tasks { task with status, retryCount }) others published now := by
  have hlast : (({ task with status, retryCount } : Task).stamped now).lastModify =
      task.lastModify := if_neg (hconsistent.positive task htask).ne'
  refine ⟨?_, hothers, ?_, ?_, ?_, ?_, ?_⟩
  · rw [updateTask_ids]
    exact hconsistent.ids
  · intro taskId hrunning
    rw [updateTask_ids]
    by_cases heq : taskId = task.taskId
    · exact heq ▸ mem_map_of_mem htask
    · exact hconsistent.hasTask taskId ((hsame taskId heq).mp hrunning)
  · intro row hrow
    rcases mem_updateTask hrow with ⟨hold, hne⟩ | ⟨hrowId, hstatus, -⟩
    · rw [hconsistent.executing row hold, hsame row.taskId hne]
    · rw [hstatus, hrowId]
      exact hexecuting
  · intro row hrow
    rcases mem_updateTask hrow with ⟨hold, -⟩ | ⟨hrowId, -, hrowModify⟩
    · exact hconsistent.modified row hold
    · rw [hrowModify, hlast, hrowId]
      exact hconsistent.modified task htask
  · intro row hrow
    rcases mem_updateTask hrow with ⟨hold, -⟩ | ⟨-, -, hrowModify⟩
    · exact hconsistent.positive row hold
    · rw [hrowModify, hlast]
      exact hconsistent.positive task htask
  · intro row hrow
    rcases mem_updateTask hrow with ⟨hold, -⟩ | ⟨-, -, hrowModify⟩
    · exact (hconsistent.past row hold).trans hclock
    · rw [hrowModify, hlast]
      exact (hconsistent.past task htask).trans hclock

end Consistent

theorem isInterrupted_iff {now : ℕ} {task : Task} (hpast : task.lastModify ≤ now)
    (hfits : now < 2 ^ 64) :
    isInterrupted settings now task = true ↔
      task.lastModify + settings.maxTaskExecutionTimeS < now := by
  have hage : toUint64 ((now : ℤ) - task.lastModify) = now - task.lastModify := by
    unfold toUint64
    omega
  rw [isInterrupted, decide_eq_true_iff, hage]
  omega

section Steps

variable {state : TaskState Config} {timed : TimedAction Config}

theorem Kept.executing_of_body (hkept : state.Kept) {body : Submitted}
    (hbody : body ∈ state.submitted) :
    ∃ task ∈ state.tasks, task.taskId = body.taskId ∧ task.status = .executing := by
  have hrunning : body.taskId ∈ state.running := mem_map_of_mem hbody
  obtain ⟨task, htask, hid⟩ := mem_map.mp (hkept.hasTask _ hrunning)
  exact ⟨task, htask, hid, (hkept.executing task htask).mpr (hid ▸ hrunning)⟩

/-- Where nothing is executing under the polled id, the condition asks for nothing. -/
theorem pollsYoung_of_not_executing (hkept : state.Kept)
    (hidle : ∀ task ∈ state.tasks, task.taskId = taskId → task.status ≠ .executing) :
    state.PollsYoung settings ⟨now, .poll taskId⟩ := by
  intro body hbody hpolls
  obtain ⟨task, htask, hid, hexecuting⟩ := hkept.executing_of_body hbody
  have htaskId : taskId = body.taskId := of_decide_eq_true hpolls
  exact absurd hexecuting (hidle task htask (hid.trans htaskId.symm))

/-- A poll of a task that is not executing starts its body, at most. -/
theorem startsOnce_of_not_executing (hkept : state.Kept) (htask : task ∈ state.tasks)
    (hunfinished : task.isUnfinished = true) (hstatus : task.status ≠ .executing)
    (hpoll : state.poll settings now task.taskId =
      state.handleWaitingOrFailedTask settings now task) :
    state.StartsOnce settings ⟨now, .poll task.taskId⟩ := by
  have hidle : task.taskId ∉ state.running :=
    fun hrunning => hstatus ((hkept.executing task htask).mpr hrunning)
  have hstep : state.step settings ⟨now, .poll task.taskId⟩ =
      { state.handleWaitingOrFailedTask settings now task with clock := now } := by
    rw [← hpoll]
    rfl
  have hboth : (state.step settings ⟨now, .poll task.taskId⟩).running.Nodup ∧
      (state.row.state = .starting →
        (state.step settings ⟨now, .poll task.taskId⟩).row.state ≠ .failed) := by
    rw [hstep]
    rcases state.handleWaitingOrFailedTask_cases settings now hunfinished with
      ⟨-, -, heq⟩ | ⟨-, heq⟩ | ⟨-, -, retryCount, heq⟩
    · rw [heq]
      exact ⟨hkept.oneBody, fun hstarting => by simp [hstarting]⟩
    · rw [heq]
      exact ⟨hkept.oneBody, fun hstarting => by simp [hstarting]⟩
    · rw [heq]
      refine ⟨?_, fun hstarting => ?_⟩
      · change ((state.submitted ++ [_]).map taskId).Nodup
        rw [map_append]
        exact nodup_snoc hkept.oneBody hidle
      · simp [submittedRow_state, hstarting]
  refine ⟨fun other hother hpolls hexecuting _ => ?_, hboth.1, fun _ => hboth.2⟩
  have hid : task.taskId = other.taskId := of_decide_eq_true hpolls
  rw [hkept.eq_of_taskId htask hother hid] at hstatus
  exact absurd hexecuting hstatus

theorem startsOnce_of_unchanged (hkept : state.Kept)
    (hpoll : state.poll settings now taskId = state)
    (hyoung : ∀ task ∈ state.tasks, task.taskId = taskId → task.status = .executing →
      isInterrupted settings now task = false) : state.StartsOnce settings ⟨now, .poll taskId⟩ := by
  have hstep : state.step settings ⟨now, .poll taskId⟩ = { state with clock := now } := by
    change { state.poll settings now taskId with clock := now } = _
    rw [hpoll]
  refine ⟨fun task htask hpolls hexecuting hinterrupted => ?_, ?_, fun _ hstarting => ?_⟩
  · have hid : taskId = task.taskId := of_decide_eq_true hpolls
    rw [hyoung task htask hid.symm hexecuting] at hinterrupted
    cases hinterrupted
  · rw [hstep]
    exact hkept.oneBody
  · rw [hstep]
    simp [hstarting]

theorem handleExecutingTask_eq (hyoung : isInterrupted settings now task = false) :
    state.handleExecutingTask settings now task = state :=
  if_neg (by simp [hyoung])

theorem startsOnce_poll_iff (hkept : state.Kept)
    (htime : state.InTime settings ⟨now, .poll taskId⟩) :
    state.StartsOnce settings ⟨now, .poll taskId⟩ ↔
      state.PollsYoung settings ⟨now, .poll taskId⟩ := by
  rcases state.poll_cases settings now taskId with
    ⟨hpoll, hfinished⟩ | ⟨task, htask, rfl, hunfinished, ⟨hstatus, hpoll⟩ | ⟨hstatus, hpoll⟩⟩
  · have hidle : ∀ task ∈ state.tasks, task.taskId = taskId → task.status ≠ .executing := by
      intro task htask hid hexecuting
      have hdone := hfinished task htask hid
      rw [Task.isUnfinished, hexecuting] at hdone
      cases hdone
    exact iff_of_true
      (startsOnce_of_unchanged hkept hpoll fun task htask hid hexecuting =>
        absurd hexecuting (hidle task htask hid))
      (pollsYoung_of_not_executing hkept hidle)
  · refine iff_of_true (startsOnce_of_not_executing hkept htask hunfinished hstatus hpoll)
      (pollsYoung_of_not_executing hkept fun other hother hid => ?_)
    rw [hkept.eq_of_taskId hother htask hid]
    exact hstatus
  · have hrunning : task.taskId ∈ state.running := (hkept.executing task htask).mp hstatus
    have hmodified := hkept.modified task htask
    have hinterrupted := @isInterrupted_iff settings now task
      ((hkept.past task htask).trans htime.clock) htime.fits
    cases hold : isInterrupted settings now task with
    | true =>
      refine iff_of_false (fun hstarts => ?_) fun hyoung => ?_
      · exact hstarts.notInterrupted task htask (decide_eq_true rfl) hstatus hold hrunning
      · obtain ⟨body, hbody, hid⟩ := mem_map.mp hrunning
        have hnow := hyoung body hbody (decide_eq_true hid.symm)
        rw [hid, ← hmodified] at hnow
        exact absurd (hinterrupted.mp hold) (not_lt.mpr hnow)
    | false =>
      refine iff_of_true (startsOnce_of_unchanged hkept ?_ ?_) ?_
      · rw [hpoll, handleExecutingTask_eq hold]
      · intro other hother hid _
        rw [hkept.eq_of_taskId hother htask hid]
        exact hold
      · intro body hbody hpolls
        have hid : task.taskId = body.taskId := of_decide_eq_true hpolls
        rw [← hid, ← hmodified]
        exact not_lt.mp fun hlt => by simp [hinterrupted.mpr hlt] at hold

theorem running_of_not_poll (hpoll : timed.action.isPoll = false) :
    (state.step settings timed).running.Sublist state.running := by
  obtain ⟨now, action⟩ := timed
  cases action with
  | poll taskId => cases hpoll
  | runSubmitted index met =>
    change (state.runSubmitted settings now index met).running.Sublist state.running
    unfold runSubmitted
    cases state.submitted[index]? with
    | none => exact List.Sublist.refl _
    | some body => exact (eraseIdx_sublist _ _).map _
  | publish task =>
    change (state.perform settings now (.publish task)).running.Sublist state.running
    rcases state.publish_cases settings now task with heq | ⟨-, heq⟩
    · rw [heq]
    · rw [heq]
      exact List.Sublist.refl _
  | dropInstances task =>
    change (state.perform settings now (.dropInstances task)).running.Sublist state.running
    rcases state.dropInstances_cases settings now task with heq | ⟨-, heq⟩
    · rw [heq]
    · rw [heq]
      exact List.Sublist.refl _
  | alterRead isTenantWide =>
    obtain ⟨alterReads, heq⟩ := state.alterRead_eq isTenantWide
    change (state.alterRead isTenantWide).running.Sublist state.running
    rw [heq]
    exact List.Sublist.refl _
  | alterWrite index edit =>
    obtain ⟨row, alterReads, heq⟩ := state.alterWrite_eq index edit
    change (state.alterWrite index edit).running.Sublist state.running
    rw [heq]
    exact List.Sublist.refl _
  | lateTries index => exact List.Sublist.refl _
  | holderReports => exact List.Sublist.refl _
  | holderExits => exact List.Sublist.refl _

theorem startsOnce_iff (hkept : state.Kept) (htime : state.InTime settings timed) :
    state.StartsOnce settings timed ↔ state.PollsYoung settings timed := by
  cases hpoll : timed.action.isPoll with
  | true =>
    obtain ⟨now, action⟩ := timed
    cases action with
    | poll taskId => exact startsOnce_poll_iff hkept htime
    | _ => cases hpoll
  | false =>
    have hpolls : ∀ taskId, timed.action.polls taskId = false := by
      intro taskId
      obtain ⟨now, action⟩ := timed
      cases action with
      | poll other => cases hpoll
      | _ => rfl
    refine iff_of_true ⟨fun task _ hpolled => ?_, ?_, fun hpolled => ?_⟩ fun body _ hpolled => ?_
    · rw [hpolls] at hpolled
      cases hpolled
    · exact hkept.oneBody.sublist (running_of_not_poll hpoll)
    · cases hpolled.symm.trans hpoll
    · rw [hpolls] at hpolled
      cases hpolled

theorem kept_poll (hkept : state.Kept) (htime : state.InTime settings ⟨now, .poll taskId⟩)
    (hstarts : state.StartsOnce settings ⟨now, .poll taskId⟩) :
    (state.step settings ⟨now, .poll taskId⟩).Kept := by
  change Consistent (state.poll settings now taskId).tasks (state.poll settings now taskId).running
    (state.poll settings now taskId).published now
  have hlater := hkept.later htime.clock
  rcases state.poll_cases settings now taskId with
    ⟨hpoll, -⟩ | ⟨task, htask, rfl, hunfinished, ⟨hstatus, hpoll⟩ | ⟨hstatus, hpoll⟩⟩
  · rw [hpoll]
    exact hlater
  · have hidle : task.taskId ∉ state.running :=
      fun hrunning => hstatus ((hkept.executing task htask).mpr hrunning)
    rw [hpoll]
    rcases state.handleWaitingOrFailedTask_cases settings now hunfinished with
      ⟨-, -, heq⟩ | ⟨-, heq⟩ | ⟨-, -, retryCount, heq⟩
    · rw [heq]
      exact hlater.update le_rfl htask .completed task.retryCount hkept.oneBody
        (fun _ _ => Iff.rfl) (iff_of_false (by simp) hidle)
    · rw [heq]
      exact hlater
    · rw [heq]
      have hrunning : (state.submitted ++ [(⟨task.taskId, task.type, now⟩ : Submitted)]).map
          taskId = state.running ++ [task.taskId] := map_append
      refine hlater.update le_rfl htask .executing retryCount ?_ (fun other hne => ?_)
        (iff_of_true rfl ?_)
      · change ((state.submitted ++ [_]).map taskId).Nodup
        rw [hrunning]
        exact nodup_snoc hkept.oneBody hidle
      · change other ∈ (state.submitted ++ [_]).map taskId ↔ _
        rw [hrunning, mem_append, mem_singleton, or_iff_left hne]
      · change task.taskId ∈ (state.submitted ++ [_]).map taskId
        rw [hrunning]
        exact mem_append_right _ mem_cons_self
  · have hrunning : task.taskId ∈ state.running := (hkept.executing task htask).mp hstatus
    have hyoung : isInterrupted settings now task = false := by
      by_contra hold
      exact hstarts.notInterrupted task htask (decide_eq_true rfl) hstatus
        (Bool.not_eq_false _ ▸ hold) hrunning
    rw [hpoll, handleExecutingTask_eq hyoung]
    exact hlater

theorem Kept.find_eq (hkept : state.Kept) (htask : task ∈ state.tasks) :
    (state.tasks.find? fun other => other.taskId = task.taskId) = some task := by
  cases hfind : state.tasks.find? fun other => other.taskId = task.taskId with
  | none => exact absurd (decide_eq_true rfl) (find?_eq_none.mp hfind task htask)
  | some other =>
    have hfound := find?_some hfind
    rw [hkept.eq_of_taskId (mem_of_find?_eq_some hfind) htask (of_decide_eq_true hfound)]

theorem mem_eraseIdx_of_nodup {taskIds : List Text} {index : ℕ} {erased : Text}
    (hids : taskIds.Nodup) (hindex : taskIds[index]? = some erased) :
    taskId ∈ taskIds.eraseIdx index ↔ taskId ∈ taskIds ∧ taskId ≠ erased := by
  obtain ⟨hlt, rfl⟩ := List.getElem?_eq_some_iff.mp hindex
  rw [← hids.erase_getElem index hlt, hids.mem_erase_iff, and_comm]

theorem runBody_status_ne (basename : Text) (row : BinlogEntry Config) (status : Option TaskStatus)
    (path : WorkPath) (met : Surroundings Config) (type : TaskType) :
    (runBody basename row status path met type).status ≠ .executing := by
  rcases runBody_state basename row status path met type with
    ⟨-, ⟨-, hstatus⟩ | ⟨-, hstatus⟩⟩ | ⟨-, -, hstatus⟩ | ⟨-, -, hstatus⟩
  all_goals simp [hstatus]

theorem kept_runSubmitted (hkept : state.Kept) {index : ℕ} {met : Surroundings Config}
    (hclock : state.clock ≤ now) : (state.step settings ⟨now, .runSubmitted index met⟩).Kept := by
  have hlater := hkept.later hclock
  cases hbody : state.submitted[index]? with
  | none =>
    have hstep : state.runSubmitted settings now index met = state := by
      rw [runSubmitted, hbody]
    change Consistent (state.runSubmitted settings now index met).tasks
      (state.runSubmitted settings now index met).running
      (state.runSubmitted settings now index met).published now
    rw [hstep]
    exact hlater
  | some body =>
    obtain ⟨task, htask, hid, -⟩ := hkept.executing_of_body (mem_of_getElem? hbody)
    have hfind := hid ▸ hkept.find_eq htask
    have hindex : state.running[index]? = some body.taskId := by
      simp [running, hbody]
    have hmem : ∀ taskId, taskId ∈ state.running.eraseIdx index ↔
        taskId ∈ state.running ∧ taskId ≠ body.taskId :=
      fun taskId => mem_eraseIdx_of_nodup hkept.oneBody hindex
    change Consistent (state.runSubmitted settings now index met).tasks
      (state.runSubmitted settings now index met).running
      (state.runSubmitted settings now index met).published now
    simp only [runSubmitted, hbody, hfind, running, ← eraseIdx_map]
    refine hlater.update le_rfl htask _ task.retryCount (hkept.oneBody.eraseIdx index)
      (fun taskId hne => ?_) (iff_of_false ?_ fun herased => ?_)
    · exact (hmem taskId).trans (and_iff_left (hid ▸ hne))
    · exact runBody_status_ne _ _ _ _ _ _
    · exact ((hmem _).mp herased).2 hid

theorem kept_step (hkept : state.Kept) (htime : state.InTime settings timed)
    (hstarts : state.StartsOnce settings timed) : (state.step settings timed).Kept := by
  have hlater := hkept.later htime.clock
  obtain ⟨now, action⟩ := timed
  cases action with
  | publish task =>
    obtain ⟨hstatus, hmodify⟩ := htime.publishes task rfl
    change TaskState.Kept { state.perform settings now (.publish task) with clock := now }
    rcases state.publish_cases settings now task with heq | ⟨hnew, heq⟩
    · rw [heq]
      exact hlater
    · rw [heq]
      exact hkept.publish htime.clock htime.positive hnew hstatus hmodify
  | dropInstances task =>
    obtain ⟨hstatus, hmodify⟩ := htime.publishes task rfl
    change TaskState.Kept { state.perform settings now (.dropInstances task) with clock := now }
    rcases state.dropInstances_cases settings now task with heq | ⟨hnew, heq⟩
    · rw [heq]
      exact hlater
    · rw [heq]
      exact hkept.publish htime.clock htime.positive hnew hstatus hmodify
  | poll taskId => exact kept_poll hkept htime hstarts
  | runSubmitted index met => exact kept_runSubmitted hkept htime.clock
  | alterRead isTenantWide =>
    obtain ⟨alterReads, heq⟩ := state.alterRead_eq isTenantWide
    change TaskState.Kept { state.alterRead isTenantWide with clock := now }
    rw [heq]
    exact hlater
  | alterWrite index edit =>
    obtain ⟨row, alterReads, heq⟩ := state.alterWrite_eq index edit
    change TaskState.Kept { state.alterWrite index edit with clock := now }
    rw [heq]
    exact hlater
  | lateTries index => exact hlater
  | holderReports => exact hlater
  | holderExits => exact hlater

end Steps

def fresh (row : BinlogEntry Config) (path : WorkPath) : TaskState Config where
  row := row
  tasks := []
  submitted := []
  path := path
  alterReads := []
  clock := 0
  published := fun _ => 0

theorem kept_fresh (row : BinlogEntry Config) (path : WorkPath) : (fresh row path).Kept where
  ids := nodup_nil
  oneBody := nodup_nil
  hasTask := by simp [running, fresh]
  executing := by simp [fresh]
  modified := by simp [fresh]
  positive := by simp [fresh]
  past := by simp [fresh]

variable (settings)

/-- In every run in which bodies end in time, no task is started again exactly if each poll of
a task whose body is running comes soon enough after the publication of the task. -/
theorem startsOnce_along_iff (row : BinlogEntry Config) (path : WorkPath)
    {steps : List (TimedAction Config)}
    (htime : Along (step settings) (InTime settings) (fresh row path) steps) :
    Along (step settings) (StartsOnce settings) (fresh row path) steps ↔
      Along (step settings) (PollsYoung settings) (fresh row path) steps :=
  @along_iff_along _ _ (step settings) (InTime settings) (StartsOnce settings) (PollsYoung settings)
    Kept _ (fun _ _ hkept hfirst => startsOnce_iff hkept hfirst)
    (fun _ _ hkept hfirst hstarts => kept_step hkept hfirst hstarts) (kept_fresh row path) _ htime

end TaskState

open TaskState

instance {Config : Type} (settings : TaskSettings) (state : TaskState Config)
    (timed : TimedAction Config) : Decidable (state.InTime settings timed) :=
  decidable_of_iff
    (state.clock ≤ timed.now ∧ 0 < timed.now ∧ timed.now < 2 ^ 64 ∧
      (∀ body ∈ state.submitted, timed.now ≤ body.since + settings.maxTaskExecutionTimeS) ∧
      ∀ task ∈ timed.action.published?, task.status = .waiting ∧ task.lastModify = 0)
    ⟨fun ⟨hclock, hpositive, hfits, hbodies, hpublishes⟩ =>
      ⟨hclock, hpositive, hfits, hbodies, hpublishes⟩,
    fun ⟨hclock, hpositive, hfits, hbodies, hpublishes⟩ =>
      ⟨hclock, hpositive, hfits, hbodies, hpublishes⟩⟩

def newInstance : BinlogEntry Unit where
  nodeId := "n1".toList
  ip := "10.0.0.1".toList
  port := 0
  instanceName := "i1".toList
  cluster := "c1".toList
  tenant := "t1".toList
  pid := 0
  workPath := []
  state := .init
  config := ()
  heartbeat := 0
  delay := unknownDelay
  minDumpCheckpoint := 0

def minuteSettings : TaskSettings := ⟨"n1".toList, [], 60⟩

/-- The creation is published and polled, and polled once more while its body is running. -/
def polledAt (published first second : ℕ) : List (TimedAction Unit) :=
  [⟨published, .publish ⟨"create".toList, .create, .waiting, 0, 0⟩⟩,
    ⟨first, .poll "create".toList⟩, ⟨second, .poll "create".toList⟩]

theorem startsOnce_along_iff_polledSoon :
    Along (step minuteSettings) (TaskState.StartsOnce minuteSettings)
      (fresh newInstance {}) (polledAt 1000 1001 1003) :=
  (startsOnce_along_iff minuteSettings newInstance {} (by decide +kernel)).mpr
    (by decide +kernel)

/-- The node was down for a while: the body is two seconds old when the task is taken to be
interrupted, and the instance is set to failed. -/
theorem late_task_interrupted :
    let state := fresh newInstance {}
    let steps := polledAt 1000 1100 1102
    let run := steps.foldl (step minuteSettings) state
    Along (step minuteSettings) (TaskState.InTime minuteSettings) state steps ∧
      run.running = ["create".toList] ∧ run.row.state = .failed ∧
      ¬ Along (step minuteSettings) (TaskState.StartsOnce minuteSettings) state
        steps := by
  intro state steps run
  have hfailed : run.row.state = .failed := by decide +kernel
  refine ⟨by decide +kernel, by decide +kernel, hfailed, fun hstarts => ?_⟩
  exact hstarts.2.2.1.startingKept rfl (by decide +kernel) hfailed

/-- `fetch_recent_offline_task` among the tasks that recover the instance. -/
def fetchRecentOfflineTask (tasks : List Task) : Option Task :=
  (tasks.mergeSort fun first second => second.lastModify ≤ first.lastModify)[
    maxTaskRetryTimes - 1]?

/-- For this task `recover_offline_instance` gives up. -/
def isRecent (now : ℕ) (task : Task) : Bool :=
  toUint64 ((now : ℤ) - task.lastModify) < 300

/-- The tasks that recover an instance, and the times at which one was published. -/
structure Recoveries where
  tasks : List Task := []
  published : List ℕ := []
  clock : ℕ := 0

/-- A call for the instance, whose node is online, or an executor that writes its task. -/
inductive RecoveryStep
  | recoverOfflineInstance (taskId offlineInstance : Text) : RecoveryStep
  | update (taskId : Text) (status : TaskStatus) (retryCount : ℕ) : RecoveryStep

namespace Recoveries

def step (recoveries : Recoveries) : ℕ × RecoveryStep → Recoveries
  | (now, .recoverOfflineInstance taskId offlineInstance) =>
    if (fetchRecentOfflineTask recoveries.tasks).any (isRecent now) then
      { recoveries with clock := now }
    else
      { tasks := recoveries.tasks ++
          [(⟨taskId, .recover offlineInstance, .waiting, 0, 0⟩ : Task).stamped now]
        published := recoveries.published ++ [now]
        clock := now }
  | (now, .update taskId status retryCount) =>
    { recoveries with
      tasks := recoveries.tasks.map fun task =>
        if task.taskId = taskId then ({ task with status, retryCount } : Task).stamped now
        else task
      clock := now }

structure InOrder (recoveries : Recoveries) (next : ℕ × RecoveryStep) : Prop where
  clock : recoveries.clock ≤ next.1
  positive : 0 < next.1
  fits : next.1 < 2 ^ 64

def recent (now : ℕ) (recoveries : Recoveries) : ℕ :=
  recoveries.published.countP fun time => now < time + 300

/-- No 300 seconds have more publications than the limit. -/
def Limited (published : List ℕ) : Prop :=
  ∀ start, published.countP (fun time => start ≤ time ∧ time < start + 300) ≤ maxTaskRetryTimes

/-- The limit is kept, and a call publishes a task if the last 300 seconds have fewer. -/
structure Throttles (recoveries : Recoveries) (next : ℕ × RecoveryStep) : Prop where
  limited : Limited (recoveries.step next).published
  publishes : ∀ taskId offlineInstance,
    next.2 = .recoverOfflineInstance taskId offlineInstance →
      recoveries.recent next.1 < maxTaskRetryTimes →
        (recoveries.step next).published = recoveries.published ++ [next.1]

structure Kept (recoveries : Recoveries) : Prop where
  times : recoveries.tasks.map Task.lastModify = recoveries.published
  past : ∀ task ∈ recoveries.tasks, 0 < task.lastModify ∧ task.lastModify ≤ recoveries.clock
  limited : Limited recoveries.published

theorem any_getElem?_iff {α : Type} {p : α → Bool} {entries : List α}
    (hsorted : entries.Pairwise fun first second => p second = true → p first = true)
    (index : ℕ) : (entries[index]?).any p = true ↔ index < entries.countP p := by
  induction entries generalizing index with
  | nil => simp
  | cons first rest ih =>
    obtain ⟨hfirst, hrest⟩ := pairwise_cons.mp hsorted
    cases hp : p first with
    | true => cases index <;> simp [hp, ih hrest]
    | false =>
      have hnone : rest.countP p = 0 := by
        rw [countP_eq_zero]
        intro entry hentry hholds
        exact absurd (hfirst entry hentry hholds) (by simp [hp])
      cases index <;> simp [hp, hnone, ih hrest]

variable {recoveries : Recoveries} {now : ℕ}

section Kept

variable (hkept : recoveries.Kept) (hclock : recoveries.clock ≤ now)

include hkept hclock

theorem any_isRecent_iff (hfits : now < 2 ^ 64) :
    (fetchRecentOfflineTask recoveries.tasks).any (isRecent now) = true ↔
      maxTaskRetryTimes ≤ recoveries.recent now := by
  have hrecent : ∀ task ∈ recoveries.tasks,
      isRecent now task = true ↔ decide (now < task.lastModify + 300) = true := by
    intro task htask
    have hpast := (hkept.past task htask).2
    rw [isRecent, decide_eq_true_eq, decide_eq_true_eq, toUint64]
    omega
  have hperm := mergeSort_perm recoveries.tasks fun first second =>
    second.lastModify ≤ first.lastModify
  rw [fetchRecentOfflineTask, any_getElem?_iff, hperm.countP_eq, countP_congr hrecent, recent,
    ← hkept.times, countP_map]
  · exact Nat.lt_iff_add_one_le
  · refine (pairwise_mergeSort (by simp; omega) (by simp; omega) _).imp_of_mem ?_
    intro first second hfirst hsecond hle
    rw [hrecent _ (hperm.mem_iff.mp hfirst), hrecent _ (hperm.mem_iff.mp hsecond)]
    simp only [decide_eq_true_eq] at hle ⊢
    omega

theorem Kept.update (taskId : Text) (status : TaskStatus) (retryCount : ℕ) :
    (recoveries.step (now, .update taskId status retryCount)).Kept := by
  have hsame : ∀ task ∈ recoveries.tasks, (if task.taskId = taskId then
      ({ task with status, retryCount } : Task).stamped now else task).lastModify =
        task.lastModify := by
    intro task htask
    split_ifs
    · exact if_neg (hkept.past task htask).1.ne'
    · rfl
  refine ⟨?_, ?_, hkept.limited⟩
  · rw [step, map_map, ← hkept.times]
    exact map_congr_left hsame
  · rw [step, forall_mem_map]
    intro task htask
    rw [hsame task htask]
    exact ⟨(hkept.past task htask).1, (hkept.past task htask).2.trans hclock⟩

end Kept

/-- A window with the call has no other publications than those of the last 300 seconds. -/
theorem Kept.limited_concat (hkept : recoveries.Kept)
    (hfewer : recoveries.recent now < maxTaskRetryTimes) :
    Limited (recoveries.published ++ [now]) := by
  intro start
  have hbefore := hkept.limited start
  rw [countP_append, countP_singleton]
  split_ifs with hinside
  · have hwithin : recoveries.published.countP
        (fun time => start ≤ time ∧ time < start + 300) ≤ recoveries.recent now := by
      refine countP_mono_left fun time _ htime => ?_
      simp only [decide_eq_true_eq] at hinside htime ⊢
      omega
    omega
  · exact hbefore

theorem Kept.step {next : ℕ × RecoveryStep} (hkept : recoveries.Kept)
    (hnext : recoveries.InOrder next) :
    (recoveries.step next).Kept ∧ recoveries.Throttles next := by
  obtain ⟨now, call⟩ := next
  obtain ⟨hclock, hpositive, hfits⟩ := hnext
  cases call with
  | update taskId status retryCount =>
    have hafter := hkept.update hclock taskId status retryCount
    exact ⟨hafter, hafter.limited, by simp⟩
  | recoverOfflineInstance taskId offlineInstance =>
    have hpast : ∀ task ∈ recoveries.tasks, 0 < task.lastModify ∧ task.lastModify ≤ now :=
      fun task htask => (hkept.past task htask).imp_right (le_trans · hclock)
    have hiff := any_isRecent_iff hkept hclock hfits
    by_cases hrecent : (fetchRecentOfflineTask recoveries.tasks).any (isRecent now) = true
    · have hstep : recoveries.step (now, .recoverOfflineInstance taskId offlineInstance) =
          { recoveries with clock := now } := if_pos hrecent
      exact ⟨hstep ▸ ⟨hkept.times, hpast, hkept.limited⟩, hstep ▸ hkept.limited,
        fun _ _ _ hfewer => absurd (hiff.mp hrecent) (Nat.not_le.mpr hfewer)⟩
    · have hlimited := hkept.limited_concat (Nat.not_le.mp (hiff.not.mp hrecent))
      simp only [Recoveries.step, if_neg hrecent]
      refine ⟨⟨?_, ?_, hlimited⟩, ?_, ?_⟩
      · simp [hkept.times, Task.stamped]
      · rw [forall_mem_append, forall_mem_singleton]
        exact ⟨hpast, hpositive, le_rfl⟩
      · simpa [Recoveries.step, hrecent] using hlimited
      · simp [Recoveries.step, hrecent]

theorem along_of_kept {steps : List (ℕ × RecoveryStep)} (hkept : recoveries.Kept)
    (hsteps : Along step InOrder recoveries steps) : Along step Throttles recoveries steps := by
  induction steps generalizing recoveries with
  | nil => trivial
  | cons next rest ih =>
    obtain ⟨hnext, hrest⟩ := hsteps
    obtain ⟨hafter, hthrottles⟩ := hkept.step hnext
    exact ⟨hthrottles, ih hafter hrest⟩

end Recoveries

end OblogProxy.Cluster
