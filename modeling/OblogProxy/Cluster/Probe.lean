import OblogProxy.Cluster.BinlogEntry
import OblogProxy.Core.Runs

/-!
# Probes of an instance

A probe of an instance reads its row, asks the instance for a report, and writes the whole row
back if the columns of the condition are still the ones it read.  `ALTER BINLOG INSTANCE` reads
the row, sets options in the configuration, and writes the whole row back.  The configuration
is the one column that `ALTER` changes, and the one that the condition of a probe leaves out.

A probe that gets no report from a running instance sets its row to `OFFLINE`, and calls the
failover callback if the update has matched the row, which is still `RUNNING` then.
-/

namespace OblogProxy.Cluster

open Gtid Runs BinlogEntry Option

/-- The options that `set_plain` knows, and how their texts are read; a text that cannot be
read leaves the option as it is. -/
structure OptionSchema (Value : Type) where
  isBinlogMember : Text → Bool
  isCdcMember : Text → Bool
  setParse : Text → Text → Option Value

structure InstanceConfig (Value : Type) where
  binlogConfig : Text → Value
  cdcConfig : Text → Value
  expiration : ℤ

variable {Value : Type}

section Options

variable (schema : OptionSchema Value)

/-- `set_plain` of one of the two parts of a configuration, for a member of it. -/
def setPlain (members : Text → Value) (key text : Text) : Text → Value :=
  match schema.setParse key text with
  | none => members
  | some value => Function.update members key value

namespace InstanceConfig

def setOption (config : InstanceConfig Value) (option : Text × Text) : InstanceConfig Value :=
  if schema.isBinlogMember option.1 then
    { config with binlogConfig := setPlain schema config.binlogConfig option.1 option.2 }
  else if schema.isCdcMember option.1 then
    { config with cdcConfig := setPlain schema config.cdcConfig option.1 option.2 }
  else config

def setOptions (config : InstanceConfig Value) (options : List (Text × Text)) :
    InstanceConfig Value :=
  options.foldl (setOption schema) config

def get (config : InstanceConfig Value) (key : Text) : Value :=
  if schema.isBinlogMember key then config.binlogConfig key else config.cdcConfig key

end InstanceConfig

/-- The value that an option sets, if it sets one. -/
def optionValue (option : Text × Text) : Option Value :=
  if schema.isBinlogMember option.1 ∨ schema.isCdcMember option.1 then
    schema.setParse option.1 option.2
  else none

def setLatest (latest : Text → Option Value) (option : Text × Text) : Text → Option Value :=
  match optionValue schema option with
  | none => latest
  | some value => Function.update latest option.1 (some value)

def InstanceConfig.Contains (config : InstanceConfig Value) (latest : Text → Option Value) : Prop :=
  ∀ key value, latest key = some value → config.get schema key = value

end Options

/-- What a probe finds.  A report comes with the delay, the oldest point that is dumped, and
whether the checkpoints could be stored; without one, a local instance may still be alive. -/
inductive ProbeOutcome
  | reported (now delay minDumpCheckpoint : ℕ) (gtidSeqsUpdated : Bool)
  | unreported (now : ℕ) (isAlive : Bool)

/-- The object that `binlog_instance_exploration` writes for the row it read, if it writes one.
The comparison with `GRAYSCALE` or `PAUSED` holds of every state. -/
def explore (read : BinlogEntry (InstanceConfig Value)) :
    ProbeOutcome → Option (BinlogEntry (InstanceConfig Value))
  | .reported now delay minDumpCheckpoint gtidSeqsUpdated =>
    if gtidSeqsUpdated then
      some { read with
        heartbeat := now
        delay := delay
        minDumpCheckpoint := minDumpCheckpoint
        state := if read.state ≠ .grayscale ∨ read.state ≠ .paused then .running else read.state }
    else none
  | .unreported now isAlive =>
    if toUint64 read.config.expiration < toUint64 ((now : ℤ) - read.heartbeat) ∧
        read.state = .running then
      if isAlive then some { read with heartbeat := now }
      else some { read with state := .offline }
    else none

def probedRow (row read : BinlogEntry (InstanceConfig Value)) (outcome : ProbeOutcome) :
    BinlogEntry (InstanceConfig Value) :=
  match explore read outcome with
  | none => row
  | some entry => row.updateInstanceIf entry read

/-- The row as shared memory: what probes and an `ALTER` have read and not yet written, and
the values that were set last. -/
structure SharedRow (Value : Type) where
  row : BinlogEntry (InstanceConfig Value)
  probes : List (BinlogEntry (InstanceConfig Value)) := []
  alter : Option (BinlogEntry (InstanceConfig Value) × List (Text × Text)) := none
  latest : Text → Option Value := fun _ => none

inductive RowStep
  | probeRead
  | probeWrite (index : ℕ) (outcome : ProbeOutcome)
  | alterRead (options : List (Text × Text))
  | alterWrite

namespace SharedRow

variable (schema : OptionSchema Value)

/-- One access to the row.  An `ALTER` starts when no other is open, and a probe that writes is
one that has read. -/
def step (shared : SharedRow Value) : RowStep → SharedRow Value
  | .probeRead => { shared with probes := shared.probes ++ [shared.row] }
  | .probeWrite index outcome =>
    match shared.probes[index]? with
    | none => shared
    | some read =>
      { shared with
        probes := shared.probes.eraseIdx index
        row := probedRow shared.row read outcome }
  | .alterRead options =>
    match shared.alter with
    | none => { shared with alter := some (shared.row, options) }
    | some _ => shared
  | .alterWrite =>
    match shared.alter with
    | none => shared
    | some (read, options) =>
      { shared with
        alter := none
        row := shared.row.updateInstance
          { read with config := read.config.setOptions schema options }
        latest := options.foldl (setLatest schema) shared.latest }

def Good (shared : SharedRow Value) : Prop :=
  shared.row.config.Contains schema shared.latest

/-- A probe that gets to write has read the values last set. -/
def WritesLatest (shared : SharedRow Value) : RowStep → Prop
  | .probeWrite index outcome =>
    ∀ read entry, shared.probes[index]? = some read → explore read outcome = some entry →
      shared.row.satisfies read = true → read.config.Contains schema shared.latest
  | _ => True

/-- What was read is of this row, and an open `ALTER` has read the values last set. -/
structure Kept (shared : SharedRow Value) : Prop where
  probes : ∀ read ∈ shared.probes, read.instanceName = shared.row.instanceName
  alter : ∀ read options, shared.alter = some (read, options) →
    read.instanceName = shared.row.instanceName ∧ read.config.Contains schema shared.latest

end SharedRow

section Steps

variable {schema : OptionSchema Value}

theorem explore_instanceName {read entry : BinlogEntry (InstanceConfig Value)}
    {outcome : ProbeOutcome} (hentry : explore read outcome = some entry) :
    entry.instanceName = read.instanceName ∧ entry.config = read.config := by
  cases outcome with
  | reported now delay minDumpCheckpoint gtidSeqsUpdated =>
    simp only [explore, Option.ite_none_right_eq_some, Option.some.injEq] at hentry
    obtain ⟨-, rfl⟩ := hentry
    exact ⟨rfl, rfl⟩
  | unreported now isAlive =>
    simp only [explore, Option.ite_none_right_eq_some] at hentry
    obtain ⟨-, hentry⟩ := hentry
    split_ifs at hentry <;> cases hentry <;> exact ⟨rfl, rfl⟩

theorem overwrite_instanceName {Config : Type} {row entry : BinlogEntry Config}
    (hname : entry.instanceName = row.instanceName) :
    (row.overwrite entry).instanceName = row.instanceName := by
  simp [overwrite, written, hname]

variable {config : InstanceConfig Value}

theorem get_setOption_of_none {option : Text × Text} (hnone : optionValue schema option = none) :
    config.setOption schema option = config := by
  unfold optionValue at hnone
  unfold InstanceConfig.setOption setPlain
  by_cases hbinlog : schema.isBinlogMember option.1
  · rw [if_pos (.inl hbinlog)] at hnone
    rw [if_pos hbinlog, hnone]
  · by_cases hcdc : schema.isCdcMember option.1
    · rw [if_pos (.inr hcdc)] at hnone
      rw [if_neg hbinlog, if_pos hcdc, hnone]
    · rw [if_neg hbinlog, if_neg hcdc]

theorem get_setOption_of_some {option : Text × Text} {value : Value}
    (hsome : optionValue schema option = some value) :
    (config.setOption schema option).get schema =
      Function.update (config.get schema) option.1 value := by
  obtain ⟨hmember, hparse⟩ := (Option.ite_none_right_eq_some ..).mp hsome
  funext key
  by_cases hbinlog : schema.isBinlogMember option.1
  · rw [InstanceConfig.setOption, if_pos hbinlog, setPlain, hparse]
    by_cases hkey : key = option.1
    · subst hkey
      simp [InstanceConfig.get, hbinlog]
    · simp [InstanceConfig.get, hkey]
  · have hcdc := hmember.resolve_left hbinlog
    rw [InstanceConfig.setOption, if_neg hbinlog, if_pos hcdc, setPlain, hparse]
    by_cases hkey : key = option.1
    · subst hkey
      simp [InstanceConfig.get, hbinlog]
    · simp [InstanceConfig.get, hkey]

theorem contains_setOption {latest : Text → Option Value}
    (hcontains : config.Contains schema latest) (option : Text × Text) :
    (config.setOption schema option).Contains schema (setLatest schema latest option) := by
  unfold setLatest
  cases hvalue : optionValue schema option with
  | none => rwa [get_setOption_of_none hvalue]
  | some new =>
    intro key value hlatest
    dsimp only at hlatest
    rw [get_setOption_of_some hvalue]
    by_cases hkey : key = option.1
    · subst hkey
      simpa using hlatest
    · rw [Function.update_of_ne hkey] at hlatest ⊢
      exact hcontains key value hlatest

theorem contains_setOptions {latest : Text → Option Value}
    (hcontains : config.Contains schema latest) (options : List (Text × Text)) :
    (config.setOptions schema options).Contains schema
      (options.foldl (setLatest schema) latest) := by
  induction options generalizing config latest with
  | nil => exact hcontains
  | cons option rest ih => exact ih (contains_setOption hcontains option)

/-- A probe writes nothing, or it brings back the configuration that it read. -/
theorem probedRow_cases (row read : BinlogEntry (InstanceConfig Value)) (outcome : ProbeOutcome) :
    (probedRow row read outcome = row ∧
      ∀ entry, explore read outcome = some entry → row.satisfies read = false) ∨
    ∃ entry, explore read outcome = some entry ∧ row.satisfies read = true ∧
      probedRow row read outcome = row.overwrite entry := by
  unfold probedRow
  cases explore read outcome with
  | none => exact .inl ⟨rfl, nofun⟩
  | some entry =>
    unfold updateInstanceIf
    cases hsatisfies : row.satisfies read with
    | false => exact .inl ⟨if_neg Bool.false_ne_true, fun _ _ => rfl⟩
    | true => exact .inr ⟨entry, rfl, rfl, if_pos rfl⟩

theorem probedRow_instanceName {row read : BinlogEntry (InstanceConfig Value)}
    (hname : read.instanceName = row.instanceName) (outcome : ProbeOutcome) :
    (probedRow row read outcome).instanceName = row.instanceName := by
  rcases probedRow_cases row read outcome with ⟨hrow, -⟩ | ⟨entry, hentry, -, hrow⟩
  · rw [hrow]
  · rw [hrow, overwrite_instanceName ((explore_instanceName hentry).1.trans hname)]

namespace SharedRow

variable (schema)

section Steps

variable (shared : SharedRow Value) (next : RowStep) (hkept : shared.Kept schema)
  (hgood : shared.Good schema)

include hkept hgood

/-- What each step does to the property, as long as it holds. -/
theorem good_step_iff :
    (shared.step schema next).Good schema ↔ shared.WritesLatest schema next := by
  cases next with
  | probeRead => exact iff_of_true hgood trivial
  | probeWrite index outcome =>
    unfold step WritesLatest
    dsimp only
    cases hread : shared.probes[index]? with
    | none => exact iff_of_true hgood nofun
    | some read =>
      dsimp only [Good]
      rcases probedRow_cases shared.row read outcome with
        ⟨hrow, hnone⟩ | ⟨entry, hentry, hsatisfies, hrow⟩
      · rw [hrow]
        refine iff_of_true hgood fun other entry hother hentry hsatisfies => ?_
        cases hother
        rw [hnone entry hentry] at hsatisfies
        cases hsatisfies
      · have hconfig : (shared.row.overwrite entry).config = read.config :=
          (explore_instanceName hentry).2
        rw [hrow, hconfig]
        constructor
        · rintro hcontains other _ ⟨⟩ - -
          exact hcontains
        · exact fun hlatest => hlatest read entry rfl hentry hsatisfies
  | alterRead options =>
    unfold step
    cases halter : shared.alter with
    | none => exact iff_of_true hgood trivial
    | some _ => exact iff_of_true hgood trivial
  | alterWrite =>
    refine iff_of_true ?_ trivial
    unfold step
    cases halter : shared.alter with
    | none => exact hgood
    | some alter =>
      obtain ⟨read, options⟩ := alter
      obtain ⟨hname, hcontains⟩ := hkept.alter read options halter
      have hcompared : compared [] read.instanceName shared.row.instanceName = true := by
        simp [compared, hname]
      dsimp only [Good]
      rw [updateInstance, if_pos hcompared]
      exact contains_setOptions hcontains options

theorem kept_step : (shared.step schema next).Kept schema := by
  cases next with
  | probeRead =>
    refine ⟨fun read hread => ?_, hkept.alter⟩
    rcases List.mem_append.mp hread with hold | hnew
    · exact hkept.probes read hold
    · rw [List.mem_singleton.mp hnew]
      rfl
  | probeWrite index outcome =>
    unfold step
    dsimp only
    cases hread : shared.probes[index]? with
    | none => exact hkept
    | some read =>
      have hname := probedRow_instanceName
        (hkept.probes read (List.mem_of_getElem? hread)) outcome
      refine ⟨fun other hother => ?_, fun other options halter => ?_⟩
      · exact (hkept.probes other (List.mem_of_mem_eraseIdx hother)).trans hname.symm
      · obtain ⟨hother, hcontains⟩ := hkept.alter other options halter
        exact ⟨hother.trans hname.symm, hcontains⟩
  | alterRead options =>
    unfold step
    cases halter : shared.alter with
    | none =>
      refine ⟨hkept.probes, ?_⟩
      rintro read _ ⟨⟩
      exact ⟨rfl, hgood⟩
    | some _ => exact hkept
  | alterWrite =>
    unfold step
    cases halter : shared.alter with
    | none => exact hkept
    | some alter =>
      obtain ⟨read, options⟩ := alter
      have hname := (hkept.alter read options halter).1
      have hrow : (shared.row.updateInstance
          { read with config := read.config.setOptions schema options }).instanceName =
          shared.row.instanceName := by
        unfold updateInstance
        split_ifs
        · exact overwrite_instanceName hname
        · rfl
      exact ⟨fun other hother => (hkept.probes other hother).trans hrow.symm, nofun⟩

end Steps

theorem kept_start (row : BinlogEntry (InstanceConfig Value)) : Kept schema { row } where
  probes := by simp
  alter := by simp

/-- Along every interleaving of probes with `ALTER` statements that do not overlap, the row
has the option values last set exactly if each probe that gets to write has read them. -/
theorem always_latest_iff (row : BinlogEntry (InstanceConfig Value)) (steps : List RowStep) :
    Always (step schema) (Good schema) { row } steps ↔
      Along (step schema) (WritesLatest schema) { row } steps :=
  always_iff_along (fun shared next => good_step_iff schema shared next)
    (fun shared next => kept_step schema shared next)
    (kept_start schema row) nofun steps

end SharedRow

end Steps

/-- `failover` as a flag, the only option that is known. -/
def failoverSchema : OptionSchema Bool where
  isBinlogMember key := key = "failover".toList
  isCdcMember _ := false
  setParse _ text := some (text = "1".toList)

def probedInstance : BinlogEntry (InstanceConfig Bool) where
  nodeId := "n1".toList
  ip := "10.0.0.1".toList
  port := 8100
  instanceName := "i1".toList
  cluster := "c1".toList
  tenant := "t1".toList
  pid := 4000
  workPath := "/i1".toList
  state := .running
  config := ⟨fun _ => true, fun _ => true, 10⟩
  heartbeat := 1000
  delay := 3
  minDumpCheckpoint := 900

/-- A probe has read the row before failover is switched off, and switches it on again. -/
theorem probe_undoes_alter :
    let steps := [.probeRead, .alterRead [("failover".toList, "0".toList)], .alterWrite,
      .probeWrite 0 (.reported 1010 2 905 true)]
    let shared := steps.foldl (SharedRow.step failoverSchema) { row := probedInstance }
    shared.latest "failover".toList = some false ∧
      shared.row.config.get failoverSchema "failover".toList = true ∧
      ¬ shared.Good failoverSchema := by
  intro steps shared
  have hlatest : shared.latest "failover".toList = some false := by decide +kernel
  have hvalue : shared.row.config.get failoverSchema "failover".toList = true := by decide +kernel
  refine ⟨hlatest, hvalue, fun hgood => ?_⟩
  have hcontains := hgood _ _ hlatest
  cases hcontains

inductive UpdateResult
  | ok
  | failed
deriving DecidableEq

/-- The number of rows that satisfy the condition: there is one row with the name of the
instance, or it is gone. -/
def matchedRows {Config : Type} (row : Option (BinlogEntry Config))
    (condition : BinlogEntry Config) : ℕ :=
  if row.any fun entry => entry.satisfies condition then 1 else 0

/-- `update_instance` fails if the statement does or if no row is matched. -/
def updateInstanceRow {Config : Type} (row : Option (BinlogEntry Config))
    (entry condition : BinlogEntry Config) (throws : Bool) :
    Option (BinlogEntry Config) × UpdateResult :=
  if throws then (row, .failed)
  else
    (row.map fun present => present.updateInstanceIf entry condition,
      if matchedRows row condition = 0 then .failed else .ok)

/-- The instance sends no report and is not known to be alive. -/
def ProbeOutcome.isDown : ProbeOutcome → Bool
  | .reported .. => false
  | .unreported _ isAlive => !isAlive

section Exploration

/-- The update of `binlog_instance_exploration` for the row it has read, and the instances for
which it then calls `instance_failover_cb`. -/
def binlogInstanceExploration (row : Option (BinlogEntry (InstanceConfig Value)))
    (read : BinlogEntry (InstanceConfig Value)) (outcome : ProbeOutcome) (throws : Bool) :
    Option (BinlogEntry (InstanceConfig Value)) × List (BinlogEntry (InstanceConfig Value)) :=
  match explore read outcome with
  | none => (row, [])
  | some entry =>
    let result := updateInstanceRow row entry read throws
    (result.1, if outcome.isDown ∧ result.2 = .ok then [read] else [])

variable {read entry : BinlogEntry (InstanceConfig Value)} {outcome : ProbeOutcome}

/-- A probe of a running instance that is down writes `OFFLINE`, any other one `RUNNING`. -/
theorem explore_state (hentry : explore read outcome = some entry) :
    (outcome.isDown = true ∧ read.state = .running ∧ entry.state = .offline) ∨
      (outcome.isDown = false ∧ entry.state = .running) := by
  cases outcome with
  | reported now delay minDumpCheckpoint gtidSeqsUpdated =>
    simp only [explore, ite_none_right_eq_some, some.injEq] at hentry
    obtain ⟨-, rfl⟩ := hentry
    have hcompared : read.state ≠ .grayscale ∨ read.state ≠ .paused := by
      by_cases hstate : read.state = .grayscale
      · exact .inr (by rw [hstate]; decide)
      · exact .inl hstate
    exact .inr ⟨rfl, if_pos hcompared⟩
  | unreported now isAlive =>
    simp only [explore, ite_none_right_eq_some] at hentry
    obtain ⟨⟨-, hrunning⟩, hentry⟩ := hentry
    cases isAlive with
    | true =>
      obtain rfl := some.inj hentry
      exact .inr ⟨rfl, hrunning⟩
    | false =>
      obtain rfl := some.inj hentry
      exact .inl ⟨rfl, hrunning, rfl⟩

theorem state_of_satisfies {Config : Type} {row condition : BinlogEntry Config}
    (hsatisfies : row.satisfies condition = true) (hdefined : condition.state ≠ .undefined) :
    row.state = condition.state := by
  simp only [satisfies, Bool.and_eq_true] at hsatisfies
  have hcompared : compared .undefined condition.state row.state = true := by tauto
  simpa [compared, hdefined] using hcompared

/-- The statement matches the row and writes it, or it changes nothing and fails. -/
theorem updateInstanceRow_cases {Config : Type} (row : Option (BinlogEntry Config))
    (entry condition : BinlogEntry Config) (throws : Bool) :
    (∃ present, row = some present ∧ present.satisfies condition = true ∧
        updateInstanceRow row entry condition throws = (some (present.overwrite entry), .ok)) ∨
      updateInstanceRow row entry condition throws = (row, .failed) := by
  unfold updateInstanceRow matchedRows updateInstanceIf
  cases throws with
  | true => exact .inr rfl
  | false =>
    cases row with
    | none => exact .inr rfl
    | some present =>
      cases hsatisfies : present.satisfies condition with
      | false => exact .inr (by simp [hsatisfies])
      | true => exact .inl ⟨present, rfl, hsatisfies, by simp [hsatisfies]⟩

/-- A probe changes nothing and calls nothing; or it takes a running instance that is down
offline and calls the callback; or it leaves the row `RUNNING`. -/
theorem binlogInstanceExploration_cases (row : Option (BinlogEntry (InstanceConfig Value)))
    (read : BinlogEntry (InstanceConfig Value)) (outcome : ProbeOutcome) (throws : Bool) :
    binlogInstanceExploration row read outcome throws = (row, []) ∨
      (∃ present after, row = some present ∧ present.state = .running ∧ after.state = .offline ∧
        binlogInstanceExploration row read outcome throws = (some after, [read])) ∨
      ∃ after, after.state = .running ∧
        binlogInstanceExploration row read outcome throws = (some after, []) := by
  unfold binlogInstanceExploration
  cases hentry : explore read outcome with
  | none => exact .inl rfl
  | some entry =>
    dsimp only
    rcases updateInstanceRow_cases row entry read throws with
      ⟨present, rfl, hsatisfies, hresult⟩ | hresult
    · rw [hresult]
      rcases explore_state hentry with ⟨hdown, hread, hstate⟩ | ⟨hup, hstate⟩
      · have hpresent := state_of_satisfies hsatisfies (by rw [hread]; decide)
        refine .inr (.inl ⟨present, present.overwrite entry, rfl, hpresent.trans hread, ?_,
          by simp [hdown]⟩)
        rw [overwrite_state (by rw [hstate]; decide), hstate]
      · refine .inr (.inr ⟨present.overwrite entry, ?_, by simp [hup]⟩)
        rw [overwrite_state (by rw [hstate]; decide), hstate]
    · exact .inl (by simp [hresult])

end Exploration

/-- The row of an instance, and what the probes of all nodes have read and not yet written. -/
structure ProbedRow (Value : Type) where
  row : Option (BinlogEntry (InstanceConfig Value))
  probes : List (BinlogEntry (InstanceConfig Value)) := []

/-- The accesses of a probe, and any other change of the row. -/
inductive ProbedRowStep (Value : Type)
  | probeRead
  | probeWrite (index : ℕ) (outcome : ProbeOutcome) (throws : Bool)
  | otherWrite (row : Option (BinlogEntry (InstanceConfig Value)))

def ProbedRowStep.isProbeWrite : ProbedRowStep Value → Bool
  | .probeWrite .. => true
  | _ => false

namespace ProbedRow

/-- The row, the open probes and the calls of the callback that a step makes.  A probe reads
only a row that is there. -/
def access (shared : ProbedRow Value) :
    ProbedRowStep Value → ProbedRow Value × List (BinlogEntry (InstanceConfig Value))
  | .probeRead => ({ shared with probes := shared.probes ++ shared.row.toList }, [])
  | .probeWrite index outcome throws =>
    match shared.probes[index]? with
    | none => (shared, [])
    | some read =>
      let result := binlogInstanceExploration shared.row read outcome throws
      ({ row := result.1, probes := shared.probes.eraseIdx index }, result.2)
  | .otherWrite row => ({ shared with row }, [])

def step (shared : ProbedRow Value) (next : ProbedRowStep Value) : ProbedRow Value :=
  (shared.access next).1

def failovers (shared : ProbedRow Value) (next : ProbedRowStep Value) :
    List (BinlogEntry (InstanceConfig Value)) :=
  (shared.access next).2

def Running (shared : ProbedRow Value) : Prop :=
  shared.row.map state = some .running

def Offline (shared : ProbedRow Value) : Prop :=
  shared.row.map state = some .offline

instance (shared : ProbedRow Value) : Decidable shared.Running :=
  inferInstanceAs (Decidable (_ = _))

instance (shared : ProbedRow Value) : Decidable shared.Offline :=
  inferInstanceAs (Decidable (_ = _))

/-- The step is the update of a probe and takes the row from `RUNNING` to `OFFLINE`. -/
def TakesOffline (shared : ProbedRow Value) (next : ProbedRowStep Value) : Prop :=
  next.isProbeWrite = true ∧ shared.Running ∧ (shared.step next).Offline

instance (shared : ProbedRow Value) (next : ProbedRowStep Value) :
    Decidable (shared.TakesOffline next) :=
  inferInstanceAs (Decidable (_ ∧ _))

variable {shared : ProbedRow Value}

theorem access_of_none {index : ℕ} (hnone : shared.probes[index]? = none) (outcome : ProbeOutcome)
    (throws : Bool) : shared.access (.probeWrite index outcome throws) = (shared, []) := by
  rw [access, hnone]

theorem access_of_some {index : ℕ} {read : BinlogEntry (InstanceConfig Value)}
    (hsome : shared.probes[index]? = some read) (outcome : ProbeOutcome) (throws : Bool) :
    shared.access (.probeWrite index outcome throws) =
      (⟨(binlogInstanceExploration shared.row read outcome throws).1, shared.probes.eraseIdx index⟩,
        (binlogInstanceExploration shared.row read outcome throws).2) := by
  rw [access, hsome]

theorem not_takesOffline_of_row {next : ProbedRowStep Value}
    (hrow : (shared.step next).row = shared.row) : ¬ shared.TakesOffline next := by
  rintro ⟨-, hrunning, hoffline⟩
  rw [Offline, hrow, hrunning] at hoffline
  cases hoffline

/-- The number of calls in a step is that of the changes from `RUNNING` to `OFFLINE`. -/
theorem length_failovers (shared : ProbedRow Value) (next : ProbedRowStep Value) :
    (shared.failovers next).length = if shared.TakesOffline next then 1 else 0 := by
  cases next with
  | probeRead => rfl
  | otherWrite row => rfl
  | probeWrite index outcome throws =>
    cases hread : shared.probes[index]? with
    | none =>
      have haccess := access_of_none hread outcome throws
      rw [failovers, haccess, if_neg (not_takesOffline_of_row (by rw [step, haccess]))]
      rfl
    | some read =>
      have haccess := access_of_some hread outcome throws
      rcases binlogInstanceExploration_cases shared.row read outcome throws with
        hresult | ⟨present, after, hrow, hbefore, hafter, hresult⟩ | ⟨after, hafter, hresult⟩
      · rw [hresult] at haccess
        rw [failovers, haccess, if_neg (not_takesOffline_of_row (by rw [step, haccess]))]
        rfl
      · rw [hresult] at haccess
        have htakes : shared.TakesOffline (.probeWrite index outcome throws) := by
          refine ⟨rfl, ?_, ?_⟩
          · rw [Running, hrow, map_some, hbefore]
          · rw [Offline, step, haccess, map_some, hafter]
        rw [failovers, haccess, if_pos htakes]
        rfl
      · rw [hresult] at haccess
        have hnot : ¬ shared.TakesOffline (.probeWrite index outcome throws) := by
          rintro ⟨-, -, hoffline⟩
          rw [Offline, step, haccess, map_some, hafter] at hoffline
          cases hoffline
        rw [failovers, haccess, if_neg hnot]
        rfl

theorem takesOffline_of_failovers {next : ProbedRowStep Value}
    (hcalls : shared.failovers next ≠ []) : shared.TakesOffline next := by
  by_contra hnot
  have hlength := shared.length_failovers next
  rw [if_neg hnot, List.length_eq_zero_iff] at hlength
  exact hcalls hlength

/-- Along every interleaving of any number of probes with any other changes of the row, the
failover callback is called once by each update of a probe that takes the row from `RUNNING` to
`OFFLINE` and by no other step, and between two calls some step sets the row back to
`RUNNING`. -/
theorem one_failover_per_outage (start : ProbedRow Value) (steps : List (ProbedRowStep Value)) :
    Along step (fun shared next =>
        (shared.failovers next).length = if shared.TakesOffline next then 1 else 0) start steps ∧
      ∀ before first between second after,
        steps = before ++ first :: (between ++ second :: after) →
        (before.foldl step start).failovers first ≠ [] →
        ((before ++ first :: between).foldl step start).failovers second ≠ [] →
        ∃ front turn back, between = front ++ turn :: back ∧
          ¬ ((before ++ first :: front).foldl step start).Running ∧
          (((before ++ first :: front).foldl step start).step turn).Running := by
  refine ⟨along_of_forall length_failovers start steps, ?_⟩
  intro before first between second after _ hfirst hsecond
  obtain ⟨-, -, hoffline⟩ := takesOffline_of_failovers hfirst
  obtain ⟨-, hrunning, -⟩ := takesOffline_of_failovers hsecond
  have hnot : ¬ ((before.foldl step start).step first).Running := by
    intro hstill
    rw [Running, hoffline] at hstill
    cases hstill
  simp only [List.foldl_append, List.foldl_cons] at hrunning ⊢
  exact exists_turn hnot hrunning

end ProbedRow

end OblogProxy.Cluster
