import OblogProxy.Cluster.Probe

/-!
# The master instance of a tenant

The table `primary_instance` has at most one row for a tenant, with the name of its master
instance or an empty name.  `determine_primary_instance` reads the row and then inserts it or
updates it under the condition that the name is empty, whatever it has read;
`reset_master_instance` makes a name empty under the condition that it is still there.  The
statements of all calls interleave.
-/

namespace OblogProxy.Cluster

open Gtid Runs List

/-- A row of `primary_instance`, or an object that is written to rows or compared with them. -/
structure PrimaryInstance where
  cluster : Text := []
  tenant : Text := []
  masterInstance : Text := []
deriving DecidableEq

abbrev PrimaryTable := List PrimaryInstance

namespace PrimaryInstance

def key (row : PrimaryInstance) : Text × Text :=
  (row.cluster, row.tenant)

/-- `primary_instance_where`: an empty master is a condition only outside of queries. -/
def primaryInstanceWhere (condition : PrimaryInstance) (query : Bool) (row : PrimaryInstance) :
    Bool :=
  compared [] condition.cluster row.cluster && compared [] condition.tenant row.tenant &&
    if condition.masterInstance ≠ [] ∨ query = false then
      decide (row.masterInstance = condition.masterInstance)
    else true

def overwrite (row primary : PrimaryInstance) : PrimaryInstance where
  cluster := written [] primary.cluster row.cluster
  tenant := written [] primary.tenant row.tenant
  masterInstance := primary.masterInstance

end PrimaryInstance

namespace PrimaryTable

open PrimaryInstance

/-- The object behind `query_primary_instance`: each row that is found replaces it. -/
def queryPrimaryInstance (table : PrimaryTable) (primary condition : PrimaryInstance) :
    PrimaryInstance :=
  (table.filter (primaryInstanceWhere condition true)).foldl (fun _ row => row) primary

/-- An insert fails on a duplicate key. -/
def addPrimaryInstance (table : PrimaryTable) (primary : PrimaryInstance) :
    PrimaryTable × UpdateResult :=
  if primary.key ∈ table.map key then (table, .failed) else (table ++ [primary], .ok)

def updatePrimaryInstance (table : PrimaryTable) (primary condition : PrimaryInstance) :
    PrimaryTable × UpdateResult :=
  (table.map fun row =>
      if primaryInstanceWhere condition false row then row.overwrite primary else row,
    if table.countP (primaryInstanceWhere condition false) ≠ 1 then .failed else .ok)

def masterOf (table : PrimaryTable) (cluster tenant : Text) : Option Text :=
  (table.find? fun row => row.key = (cluster, tenant)).map masterInstance

end PrimaryTable

structure Candidate where
  cluster : Text
  tenant : Text
  instanceName : Text
  cluster_ne : cluster ≠ []
  tenant_ne : tenant ≠ []
  instanceName_ne : instanceName ≠ []

namespace Candidate

variable (candidate : Candidate)

def tenantCondition : PrimaryInstance :=
  { cluster := candidate.cluster, tenant := candidate.tenant }

/-- The row that makes the candidate the master, and the condition of
`reset_master_instance`. -/
def entry : PrimaryInstance :=
  ⟨candidate.cluster, candidate.tenant, candidate.instanceName⟩

end Candidate

/-- How far a call of `determine_primary_instance` is: behind its first query, behind an update
that has failed, or at its end, with a master if it returns `OMS_OK`. -/
inductive DeterminePhase
  | begun
  | queried (primary : PrimaryInstance)
  | refused (primary : PrimaryInstance)
  | failed
  | determined (master : Text)
deriving DecidableEq

structure DetermineCall where
  candidate : Candidate
  phase : DeterminePhase := .begun

def DetermineCall.advance (call : DetermineCall) (table : PrimaryTable) :
    PrimaryTable × DeterminePhase :=
  match call.phase with
  | .begun => (table, .queried (table.queryPrimaryInstance {} call.candidate.tenantCondition))
  | .queried primary =>
    if primary.cluster = [] ∨ primary.tenant = [] then
      match table.addPrimaryInstance call.candidate.entry with
      | (table, .ok) => (table, .determined call.candidate.instanceName)
      | (table, .failed) => (table, .failed)
    else
      match table.updatePrimaryInstance call.candidate.entry call.candidate.tenantCondition with
      | (table, .ok) => (table, .determined call.candidate.instanceName)
      | (table, .failed) => (table, .refused primary)
  | .refused primary =>
    (table, .determined
      (table.queryPrimaryInstance primary call.candidate.tenantCondition).masterInstance)
  | .failed => (table, .failed)
  | .determined master => (table, .determined master)

def PrimaryTable.resetMasterInstance (table : PrimaryTable) (candidate : Candidate) :
    PrimaryTable :=
  (table.updatePrimaryInstance candidate.tenantCondition candidate.entry).1

structure Election where
  table : PrimaryTable
  calls : List DetermineCall := []

/-- A node calls `determine_primary_instance`, a call executes its next statement, or a node
calls `reset_master_instance`. -/
inductive ElectionStep
  | determine (candidate : Candidate)
  | advance (index : ℕ)
  | reset (candidate : Candidate)

namespace Election

def step (election : Election) : ElectionStep → Election
  | .determine candidate => { election with calls := election.calls ++ [{ candidate }] }
  | .advance index =>
    match election.calls[index]? with
    | none => election
    | some call =>
      { table := (call.advance election.table).1
        calls := election.calls.set index
          { call with phase := (call.advance election.table).2 } }
  | .reset candidate => { election with table := election.table.resetMasterInstance candidate }

/-- What one step does to the master of any tenant.  A call returns with its own instance right
behind its last statement. -/
structure CompareAndSwap (election : Election) (next : ElectionStep) : Prop where
  replaced : ∀ cluster tenant master, master ≠ [] →
    election.table.masterOf cluster tenant = some master →
    (election.step next).table.masterOf cluster tenant ≠ some master →
    ∃ candidate, next = .reset candidate ∧ candidate.cluster = cluster ∧
      candidate.tenant = tenant ∧ candidate.instanceName = master
  elected : ∀ cluster tenant master, master ≠ [] →
    (election.step next).table.masterOf cluster tenant = some master →
    election.table.masterOf cluster tenant ≠ some master →
    election.table.masterOf cluster tenant = none ∨
      election.table.masterOf cluster tenant = some []
  returned : ∀ index call, next = .advance index → election.calls[index]? = some call →
    (∀ master, call.phase ≠ .determined master) →
    (call.advance election.table).2 = .determined call.candidate.instanceName →
    (election.step next).table.masterOf call.candidate.cluster call.candidate.tenant =
      some call.candidate.instanceName

end Election

section Statements

open PrimaryInstance PrimaryTable

variable {table : PrimaryTable} {candidate : Candidate}

/-- The statement gives one tenant a master and leaves the others as they are. -/
def SetsMaster (before after : PrimaryTable) (candidate : Candidate) (master : Text) : Prop :=
  ∀ cluster tenant, after.masterOf cluster tenant =
    if (candidate.cluster, candidate.tenant) = (cluster, tenant) then some master
    else before.masterOf cluster tenant

theorem primaryInstanceWhere_iff {condition row : PrimaryInstance} {query : Bool}
    (hcluster : condition.cluster ≠ []) (htenant : condition.tenant ≠ []) :
    primaryInstanceWhere condition query row = true ↔
      row.key = condition.key ∧ (condition.masterInstance ≠ [] ∨ query = false →
        row.masterInstance = condition.masterInstance) := by
  rw [primaryInstanceWhere, Bool.and_eq_true, Bool.and_eq_true]
  refine and_congr ?_ ?_
  · simp [compared, key, hcluster, htenant]
  · split_ifs with hcompared <;> simp [hcompared]

theorem masterOf_eq_none_iff {cluster tenant : Text} :
    table.masterOf cluster tenant = none ↔ (cluster, tenant) ∉ table.map key := by
  rw [masterOf, Option.map_eq_none_iff, find?_eq_none]
  simp

/-- With unique keys the rows of a tenant are the one that is found first. -/
theorem filter_key (hunique : (table.map key).Nodup) (tenantKey : Text × Text) :
    table.filter (fun row => row.key = tenantKey) =
      (table.find? fun row => row.key = tenantKey).toList := by
  induction table with
  | nil => rfl
  | cons row rows ih =>
    obtain ⟨hnew, hrows⟩ := nodup_cons.mp hunique
    by_cases hkey : row.key = tenantKey
    · have hnone : rows.filter (fun row => row.key = tenantKey) = [] := by
        rw [filter_eq_nil_iff]
        intro other hother heq
        exact hnew (hkey ▸ of_decide_eq_true heq ▸ mem_map_of_mem hother)
      rw [filter_cons_of_pos (by simpa using hkey), hnone,
        find?_cons_of_pos (by simpa using hkey), Option.toList_some]
    · rw [filter_cons_of_neg (by simpa using hkey),
        find?_cons_of_neg (by simpa using hkey), ih hrows]

theorem queryPrimaryInstance_eq (hunique : (table.map key).Nodup) (primary : PrimaryInstance)
    (candidate : Candidate) :
    table.queryPrimaryInstance primary candidate.tenantCondition =
      (table.find? fun row => row.key = (candidate.cluster, candidate.tenant)).getD primary := by
  have hwhere : primaryInstanceWhere candidate.tenantCondition true =
      fun row => decide (row.key = (candidate.cluster, candidate.tenant)) := by
    funext row
    rw [Bool.eq_iff_iff, primaryInstanceWhere_iff candidate.cluster_ne candidate.tenant_ne]
    simp [Candidate.tenantCondition, key]
  rw [queryPrimaryInstance, hwhere, filter_key hunique]
  cases table.find? fun row => row.key = (candidate.cluster, candidate.tenant) <;> rfl

/-- An insert succeeds if the tenant has no row. -/
theorem addPrimaryInstance_cases (table : PrimaryTable) (candidate : Candidate) :
    (table.masterOf candidate.cluster candidate.tenant = none ∧
        table.addPrimaryInstance candidate.entry = (table ++ [candidate.entry], .ok) ∧
        SetsMaster table (table ++ [candidate.entry]) candidate candidate.instanceName) ∨
      table.addPrimaryInstance candidate.entry = (table, .failed) := by
  by_cases hmem : candidate.entry.key ∈ table.map key
  · exact .inr (if_pos hmem)
  · have hnone : table.masterOf candidate.cluster candidate.tenant = none :=
      masterOf_eq_none_iff.mpr hmem
    refine .inl ⟨hnone, if_neg hmem, fun cluster tenant => ?_⟩
    rw [masterOf, find?_append]
    split_ifs with hkey
    · obtain ⟨rfl, rfl⟩ := Prod.mk.inj hkey
      have hfind := Option.map_eq_none_iff.mp hnone
      rw [hfind, Option.none_or, find?_cons_of_pos (by simp [Candidate.entry, key])]
      rfl
    · have hother : candidate.entry.key ≠ (cluster, tenant) := hkey
      simp [masterOf, hother]

section Update

variable {primary condition : PrimaryInstance}

theorem key_overwrite (hcluster : condition.cluster ≠ []) (htenant : condition.tenant ≠ [])
    (hkey : primary.key = condition.key) (row : PrimaryInstance) :
    (if primaryInstanceWhere condition false row then row.overwrite primary else row).key =
      row.key := by
  split_ifs with hwhere
  · obtain ⟨hrow, -⟩ := (primaryInstanceWhere_iff hcluster htenant).mp hwhere
    obtain ⟨hprimaryCluster, hprimaryTenant⟩ := Prod.mk.inj hkey
    rw [hrow]
    simp [key, overwrite, written, hprimaryCluster, hprimaryTenant, hcluster, htenant]
  · rfl

theorem keys_updatePrimaryInstance (table : PrimaryTable) (hcluster : condition.cluster ≠ [])
    (htenant : condition.tenant ≠ []) (hkey : primary.key = condition.key) :
    (table.updatePrimaryInstance primary condition).1.map key = table.map key := by
  rw [updatePrimaryInstance, map_map]
  exact map_congr_left fun row _ => key_overwrite hcluster htenant hkey row

/-- The update reaches the row of the tenant if it has the master of the condition. -/
theorem masterOf_updatePrimaryInstance (table : PrimaryTable)
    (hcluster : condition.cluster ≠ []) (htenant : condition.tenant ≠ [])
    (hkey : primary.key = condition.key) (cluster tenant : Text) :
    (table.updatePrimaryInstance primary condition).1.masterOf cluster tenant =
      if condition.key = (cluster, tenant) ∧
          table.masterOf cluster tenant = some condition.masterInstance
      then some primary.masterInstance else table.masterOf cluster tenant := by
  rw [masterOf, updatePrimaryInstance, find?_map, masterOf]
  simp only [Function.comp_def, key_overwrite hcluster htenant hkey]
  cases hfind : table.find? fun row => row.key = (cluster, tenant) with
  | none => simp
  | some row =>
    have hrow : row.key = (cluster, tenant) := by simpa using find?_some hfind
    simp only [Option.map_some, Option.some.injEq]
    by_cases hmatch : primaryInstanceWhere condition false row = true
    · have hboth := (primaryInstanceWhere_iff hcluster htenant).mp hmatch
      rw [if_pos hmatch, if_pos ⟨hboth.1 ▸ hrow, hboth.2 (.inr rfl)⟩, overwrite]
    · have hnot : ¬ (condition.key = (cluster, tenant) ∧
          row.masterInstance = condition.masterInstance) := fun hboth =>
        hmatch ((primaryInstanceWhere_iff hcluster htenant).mpr
          ⟨hrow.trans hboth.1.symm, fun _ => hboth.2⟩)
      rw [if_neg hmatch, if_neg hnot]

/-- One row is matched if the tenant has the master of the condition, otherwise none is. -/
theorem countP_where (hunique : (table.map key).Nodup) (hcluster : condition.cluster ≠ [])
    (htenant : condition.tenant ≠ []) :
    table.countP (primaryInstanceWhere condition false) =
      if table.masterOf condition.cluster condition.tenant = some condition.masterInstance
      then 1 else 0 := by
  have hwhere : primaryInstanceWhere condition false = fun row =>
      decide (row.masterInstance = condition.masterInstance) &&
        decide (row.key = condition.key) := by
    funext row
    rw [Bool.eq_iff_iff, primaryInstanceWhere_iff hcluster htenant]
    simp [and_comm]
  have hmaster : table.masterOf condition.cluster condition.tenant =
      (table.find? fun row => row.key = condition.key).map masterInstance := rfl
  rw [countP_eq_length_filter, hwhere, ← filter_filter, filter_key hunique, hmaster]
  cases table.find? fun row => row.key = condition.key with
  | none => simp
  | some row =>
    by_cases hmaster : row.masterInstance = condition.masterInstance <;> simp [hmaster]

theorem updatePrimaryInstance_cases (primary : PrimaryInstance)
    (hunique : (table.map key).Nodup) (hcluster : condition.cluster ≠ [])
    (htenant : condition.tenant ≠ []) :
    (table.masterOf condition.cluster condition.tenant = some condition.masterInstance ∧
        (table.updatePrimaryInstance primary condition).2 = .ok) ∨
      table.updatePrimaryInstance primary condition = (table, .failed) := by
  have hcount := countP_where hunique hcluster htenant
  unfold updatePrimaryInstance
  split_ifs at hcount with hmaster
  · exact .inl ⟨hmaster, by simp [hcount]⟩
  · refine .inr (Prod.ext ?_ (by simp [hcount]))
    refine map_congr_left (fun row hrow => ?_) |>.trans (map_id _)
    exact if_neg (countP_eq_zero.mp hcount row hrow)

end Update

/-- The update of `determine_primary_instance` succeeds if the master is empty. -/
theorem electing_update_cases (hunique : (table.map key).Nodup) (candidate : Candidate) :
    (table.masterOf candidate.cluster candidate.tenant = some [] ∧
        (table.updatePrimaryInstance candidate.entry candidate.tenantCondition).2 = .ok ∧
        SetsMaster table
          (table.updatePrimaryInstance candidate.entry candidate.tenantCondition).1 candidate
          candidate.instanceName) ∨
      table.updatePrimaryInstance candidate.entry candidate.tenantCondition =
        (table, .failed) := by
  rcases @updatePrimaryInstance_cases _ candidate.tenantCondition candidate.entry hunique
    candidate.cluster_ne candidate.tenant_ne with ⟨hmaster, hok⟩ | hfailed
  · refine .inl ⟨hmaster, hok, fun cluster tenant => ?_⟩
    rw [@masterOf_updatePrimaryInstance candidate.entry candidate.tenantCondition table
      candidate.cluster_ne candidate.tenant_ne rfl]
    refine if_congr ⟨And.left, fun hkey => ⟨hkey, ?_⟩⟩ rfl rfl
    obtain ⟨rfl, rfl⟩ := Prod.mk.inj hkey
    exact hmaster
  · exact .inr hfailed

theorem resetMasterInstance_cases (hunique : (table.map key).Nodup) (candidate : Candidate) :
    (table.masterOf candidate.cluster candidate.tenant = some candidate.instanceName ∧
        SetsMaster table (table.resetMasterInstance candidate) candidate []) ∨
      table.resetMasterInstance candidate = table := by
  rcases @updatePrimaryInstance_cases _ candidate.entry candidate.tenantCondition hunique
    candidate.cluster_ne candidate.tenant_ne with ⟨hmaster, -⟩ | hfailed
  · refine .inl ⟨hmaster, fun cluster tenant => ?_⟩
    rw [resetMasterInstance, @masterOf_updatePrimaryInstance candidate.tenantCondition
      candidate.entry table candidate.cluster_ne candidate.tenant_ne rfl]
    refine if_congr ⟨And.left, fun hkey => ⟨hkey, ?_⟩⟩ rfl rfl
    obtain ⟨rfl, rfl⟩ := Prod.mk.inj hkey
    exact hmaster
  · rw [resetMasterInstance, hfailed]
    exact .inr rfl

end Statements

section Interleavings

open PrimaryInstance PrimaryTable

/-- A call that is behind its first query and is going to update has seen the row of its
tenant, which is never deleted. -/
def DetermineCall.Knows (call : DetermineCall) (table : PrimaryTable) : Prop :=
  match call.phase with
  | .queried primary => primary.cluster ≠ [] → primary.tenant ≠ [] →
      table.masterOf call.candidate.cluster call.candidate.tenant ≠ none
  | .refused _ => table.masterOf call.candidate.cluster call.candidate.tenant ≠ none
  | _ => True

/-- No tenant loses its row. -/
def Grows (before after : PrimaryTable) : Prop :=
  ∀ cluster tenant, before.masterOf cluster tenant ≠ none → after.masterOf cluster tenant ≠ none

structure Election.Kept (election : Election) : Prop where
  unique : (election.table.map key).Nodup
  knows : ∀ call ∈ election.calls, call.Knows election.table

variable {table : PrimaryTable} {call : DetermineCall}

theorem SetsMaster.grows {after : PrimaryTable} {candidate : Candidate} {master : Text}
    (hsets : SetsMaster table after candidate master) : Grows table after := by
  intro cluster tenant hbefore
  rw [hsets]
  split_ifs
  · exact Option.some_ne_none master
  · exact hbefore

theorem DetermineCall.Knows.grow {after : PrimaryTable} (hknows : call.Knows table)
    (hgrows : Grows table after) : call.Knows after := by
  unfold Knows at hknows ⊢
  cases hphase : call.phase with
  | begun => trivial
  | queried primary =>
    rw [hphase] at hknows
    exact fun hcluster htenant => hgrows _ _ (hknows hcluster htenant)
  | refused primary =>
    rw [hphase] at hknows
    exact hgrows _ _ hknows
  | failed => trivial
  | determined master => trivial

/-- What a statement of a call can do: it makes the candidate the master and is the last one,
or it leaves the table. -/
theorem advance_cases (hunique : (table.map key).Nodup) (hknows : call.Knows table) :
    ((table.masterOf call.candidate.cluster call.candidate.tenant = none ∨
          table.masterOf call.candidate.cluster call.candidate.tenant = some []) ∧
        SetsMaster table (call.advance table).1 call.candidate call.candidate.instanceName ∧
        ((call.advance table).1.map key).Nodup ∧
        (call.advance table).2 = .determined call.candidate.instanceName) ∨
      ((call.advance table).1 = table ∧
        { call with phase := (call.advance table).2 }.Knows table ∧
        ∀ master, (call.advance table).2 = .determined master →
          call.phase = .determined master ∨
            table.masterOf call.candidate.cluster call.candidate.tenant = some master) := by
  obtain ⟨candidate, phase⟩ := call
  unfold DetermineCall.advance
  cases phase with
  | begun =>
    refine .inr ⟨rfl, ?_, nofun⟩
    intro hcluster _ hnone
    rw [queryPrimaryInstance_eq hunique, Option.map_eq_none_iff.mp hnone] at hcluster
    exact hcluster rfl
  | queried primary =>
    dsimp only
    split_ifs with habsent
    · rcases addPrimaryInstance_cases table candidate with ⟨hnone, hadd, hsets⟩ | hadd
      · rw [hadd]
        refine .inl ⟨.inl hnone, hsets, ?_, rfl⟩
        rw [map_append, map_singleton, nodup_append_comm]
        exact nodup_cons.mpr ⟨masterOf_eq_none_iff.mp hnone, hunique⟩
      · rw [hadd]
        exact .inr ⟨rfl, trivial, nofun⟩
    · rcases electing_update_cases hunique candidate with ⟨hempty, hok, hsets⟩ | hfailed
      · have hupdate : table.updatePrimaryInstance candidate.entry candidate.tenantCondition =
            ((table.updatePrimaryInstance candidate.entry candidate.tenantCondition).1, .ok) :=
          Prod.ext rfl hok
        rw [hupdate]
        refine .inl ⟨.inr hempty, hsets, ?_, rfl⟩
        rw [@keys_updatePrimaryInstance candidate.entry candidate.tenantCondition table
          candidate.cluster_ne candidate.tenant_ne rfl]
        exact hunique
      · rw [hfailed]
        push Not at habsent
        exact .inr ⟨rfl, hknows habsent.1 habsent.2, nofun⟩
  | refused primary =>
    refine .inr ⟨rfl, trivial, ?_⟩
    rintro master hmaster
    obtain rfl := DeterminePhase.determined.inj hmaster
    obtain ⟨row, hrow⟩ := Option.ne_none_iff_exists'.mp fun hnone =>
      hknows (Option.map_eq_none_iff.mpr hnone)
    exact .inr (by rw [masterOf, queryPrimaryInstance_eq hunique, hrow]; rfl)
  | failed => exact .inr ⟨rfl, trivial, nofun⟩
  | determined master => exact .inr ⟨rfl, trivial, fun _ hmaster => .inl hmaster⟩

namespace Election

variable {election : Election}

theorem step_advance_of_none {index : ℕ} (hnone : election.calls[index]? = none) :
    election.step (.advance index) = election := by
  rw [step, hnone]

theorem step_advance_of_some {index : ℕ} {call : DetermineCall}
    (hcall : election.calls[index]? = some call) :
    election.step (.advance index) =
      { table := (call.advance election.table).1
        calls := election.calls.set index
          { call with phase := (call.advance election.table).2 } } := by
  rw [step, hcall]

section Kept

variable (hkept : election.Kept) (next : ElectionStep)

include hkept

/-- What a step can do to the table: nothing, or it gives a tenant without a master one, or it
is a reset of the master that it names. -/
theorem table_step_cases :
    (election.step next).table = election.table ∨
      (∃ candidate, (election.table.masterOf candidate.cluster candidate.tenant = none ∨
          election.table.masterOf candidate.cluster candidate.tenant = some []) ∧
        SetsMaster election.table (election.step next).table candidate candidate.instanceName) ∨
      ∃ candidate, next = .reset candidate ∧
        election.table.masterOf candidate.cluster candidate.tenant =
          some candidate.instanceName ∧
        SetsMaster election.table (election.step next).table candidate [] := by
  cases next with
  | determine candidate => exact .inl rfl
  | reset candidate =>
    rcases resetMasterInstance_cases hkept.unique candidate with ⟨hmaster, hsets⟩ | hsame
    · exact .inr (.inr ⟨candidate, rfl, hmaster, hsets⟩)
    · exact .inl hsame
  | advance index =>
    cases hcall : election.calls[index]? with
    | none => exact .inl (by rw [step_advance_of_none hcall])
    | some call =>
      rw [step_advance_of_some hcall]
      rcases advance_cases hkept.unique (hkept.knows call (mem_of_getElem? hcall)) with
        ⟨hfree, hsets, -, -⟩ | ⟨hsame, -, -⟩
      · exact .inr (.inl ⟨call.candidate, hfree, hsets⟩)
      · exact .inl hsame

theorem grows_step : Grows election.table (election.step next).table := by
  rcases table_step_cases hkept next with hsame | ⟨_, -, hsets⟩ | ⟨_, -, -, hsets⟩
  · rw [hsame]
    exact fun _ _ hsome => hsome
  · exact hsets.grows
  · exact hsets.grows

theorem compareAndSwap :
    election.CompareAndSwap next where
  replaced := by
    intro cluster tenant master hne hbefore hafter
    rcases table_step_cases hkept next with
      hsame | ⟨candidate, hfree, hsets⟩ | ⟨candidate, rfl, hmaster, hsets⟩
    · exact absurd (hsame ▸ hbefore) hafter
    · rw [hsets cluster tenant] at hafter
      split_ifs at hafter with hkey
      · obtain ⟨rfl, rfl⟩ := Prod.mk.inj hkey
        rw [hbefore, or_iff_right (Option.some_ne_none master), Option.some.injEq] at hfree
        exact absurd hfree hne
      · exact absurd hbefore hafter
    · rw [hsets cluster tenant] at hafter
      split_ifs at hafter with hkey
      · obtain ⟨rfl, rfl⟩ := Prod.mk.inj hkey
        rw [hbefore] at hmaster
        exact ⟨candidate, rfl, rfl, rfl, (Option.some.inj hmaster).symm⟩
      · exact absurd hbefore hafter
  elected := by
    intro cluster tenant master hne hafter hbefore
    rcases table_step_cases hkept next with
      hsame | ⟨candidate, hfree, hsets⟩ | ⟨candidate, rfl, -, hsets⟩
    · exact absurd (hsame ▸ hafter) hbefore
    · rw [hsets cluster tenant] at hafter
      split_ifs at hafter with hkey
      · obtain ⟨rfl, rfl⟩ := Prod.mk.inj hkey
        exact hfree
      · exact absurd hafter hbefore
    · rw [hsets cluster tenant] at hafter
      split_ifs at hafter with hkey
      · exact absurd (Option.some.inj hafter).symm hne
      · exact absurd hafter hbefore
  returned := by
    rintro index call rfl hcall hopen hreturns
    rw [step_advance_of_some hcall]
    rcases advance_cases hkept.unique (hkept.knows call (mem_of_getElem? hcall)) with
      ⟨-, hsets, -, -⟩ | ⟨hsame, -, hmaster⟩
    · rw [hsets, if_pos rfl]
    · rw [hsame]
      exact (hmaster _ hreturns).resolve_left (hopen _)

theorem kept_step : (election.step next).Kept := by
  have hgrows := grows_step hkept next
  cases next with
  | determine candidate =>
    refine ⟨hkept.unique, fun call hcall => ?_⟩
    rcases mem_append.mp hcall with hold | hnew
    · exact hkept.knows call hold
    · rw [mem_singleton.mp hnew]
      trivial
  | reset candidate =>
    refine ⟨?_, fun call hcall => (hkept.knows call hcall).grow hgrows⟩
    have hkeys := @keys_updatePrimaryInstance candidate.tenantCondition candidate.entry
      election.table candidate.cluster_ne candidate.tenant_ne rfl
    rw [step, resetMasterInstance, hkeys]
    exact hkept.unique
  | advance index =>
    cases hcall : election.calls[index]? with
    | none =>
      rw [step_advance_of_none hcall]
      exact hkept
    | some call =>
      rw [step_advance_of_some hcall] at hgrows ⊢
      have hothers : ∀ other ∈ election.calls, other.Knows (call.advance election.table).1 :=
        fun other hother => (hkept.knows other hother).grow hgrows
      have hadvance := advance_cases hkept.unique
        (hkept.knows call (mem_of_getElem? hcall))
      refine ⟨?_, fun other hother => ?_⟩
      · rcases hadvance with ⟨-, -, hunique, -⟩ | ⟨hsame, -, -⟩
        · exact hunique
        · rw [hsame]
          exact hkept.unique
      · rcases mem_or_eq_of_mem_set hother with hold | rfl
        · exact hothers other hold
        · rcases hadvance with ⟨-, -, -, hreturns⟩ | ⟨hsame, hknows, -⟩
          · rw [DetermineCall.Knows, hreturns]
            trivial
          · rw [hsame]
            exact hknows

end Kept

/-- Along every interleaving of the statements of any number of calls for any tenants, from a
table with at most one row for a tenant: a master is replaced only by a reset that names it, a
new master takes the place of none, and a call that returns with its own instance leaves it in
the row. -/
theorem election_compareAndSwap (table : PrimaryTable) (steps : List ElectionStep)
    (hunique : (table.map key).Nodup) : Along step CompareAndSwap { table } steps := by
  have hstart : Kept { table } := ⟨hunique, fun call hcall => absurd hcall not_mem_nil⟩
  exact @along_of_kept _ _ step CompareAndSwap Kept { table }
    (fun _ next hkept => compareAndSwap hkept next) (fun _ next hkept => kept_step hkept next)
    hstart steps

def sampleCandidate (name : Char) : Candidate where
  cluster := ['c']
  tenant := ['t']
  instanceName := [name]
  cluster_ne := cons_ne_nil _ _
  tenant_ne := cons_ne_nil _ _
  instanceName_ne := cons_ne_nil _ _

/-- Two instances have found no row; the insert of the second fails. -/
theorem election_two_inserts :
    let steps := [.determine (sampleCandidate 'a'), .determine (sampleCandidate 'b'), .advance 0,
      .advance 1, .advance 0, .advance 1, .reset (sampleCandidate 'a')]
    Along step CompareAndSwap { table := [] } steps ∧
      (steps.dropLast.foldl step { table := [] }).table = [(sampleCandidate 'a').entry] ∧
      (steps.foldl step { table := [] }).calls.map DetermineCall.phase =
        [.determined ['a'], .failed] :=
  ⟨election_compareAndSwap [] _ nodup_nil, by decide, by decide⟩

end Election

end Interleavings

open PrimaryInstance PrimaryTable Election

/-- How far the command is: behind the query for the previous master, or behind the reset, with
the call of `determine_primary_instance`. -/
inductive SwitchStage
  | begun
  | queried (prevMaster : Text)
  | determining (phase : DeterminePhase)

/-- The command among the calls of other nodes.  `named` tells whether the row of the tenant has
named the requested instance since the command began. -/
structure SwitchRun where
  election : Election
  stage : SwitchStage := .begun
  named : Bool := false

/-- Another node takes a step, or the command executes its next statement, where the query for
the previous master may fail. -/
inductive SwitchStep
  | other (next : ElectionStep)
  | own (queryFails : Bool)

/-- The condition of the reset, where the name may be empty. -/
def Candidate.named (requested : Candidate) (prevMaster : Text) : PrimaryInstance :=
  ⟨requested.cluster, requested.tenant, prevMaster⟩

namespace SwitchRun

variable (requested : Candidate)

def observe (run : SwitchRun) : SwitchRun :=
  { run with named := run.named || decide (
      run.election.table.masterOf requested.cluster requested.tenant =
        some requested.instanceName) }

/-- The next statement of the command: the table and the stage behind it. -/
def advance (run : SwitchRun) (queryFails : Bool) : PrimaryTable × SwitchStage :=
  let table := run.election.table
  match run.stage with
  | .begun =>
    (table, .queried (if queryFails then []
      else (table.queryPrimaryInstance {} requested.tenantCondition).masterInstance))
  | .queried prevMaster =>
    ((table.updatePrimaryInstance requested.tenantCondition (requested.named prevMaster)).1,
      .determining .begun)
  | .determining phase =>
    let after := DetermineCall.advance ⟨requested, phase⟩ table
    (after.1, .determining after.2)

def step (run : SwitchRun) : SwitchStep → SwitchRun
  | .other next => observe requested { run with election := run.election.step next }
  | .own queryFails =>
    let after := run.advance requested queryFails
    observe requested
      { run with election := { run.election with table := after.1 }, stage := after.2 }

/-- The table has one row for a tenant at most. -/
def start (table : { table : PrimaryTable // (table.map key).Nodup }) : SwitchRun :=
  observe requested { election := { table := table.val } }

def SendsOk (run : SwitchRun) : Prop :=
  ∃ master, run.stage = .determining (.determined master)

/-- What the statements keep: a call that returned with the requested instance has seen it in
the row. -/
structure Kept (run : SwitchRun) : Prop where
  election : run.election.Kept
  knows : ∀ phase, run.stage = .determining phase →
    DetermineCall.Knows ⟨requested, phase⟩ run.election.table
  returned : run.stage = .determining (.determined requested.instanceName) → run.named

variable {requested} {run : SwitchRun}

theorem kept_observe (helection : run.election.Kept)
    (hknows : ∀ phase, run.stage = .determining phase →
      DetermineCall.Knows ⟨requested, phase⟩ run.election.table)
    (hreturned : run.stage = .determining (.determined requested.instanceName) → run.named ∨
      run.election.table.masterOf requested.cluster requested.tenant =
        some requested.instanceName) : (run.observe requested).Kept requested :=
  ⟨helection, hknows, fun hstage => by simpa [observe] using hreturned hstage⟩

theorem reset_keeps (table : PrimaryTable) (prevMaster : Text) :
    let after := (table.updatePrimaryInstance requested.tenantCondition
      (requested.named prevMaster)).1
    after.map key = table.map key ∧ Grows table after := by
  refine ⟨keys_updatePrimaryInstance _ requested.cluster_ne requested.tenant_ne rfl, ?_⟩
  intro cluster tenant hsome
  rw [@masterOf_updatePrimaryInstance requested.tenantCondition (requested.named prevMaster) _
    requested.cluster_ne requested.tenant_ne rfl]
  split_ifs
  · exact Option.some_ne_none _
  · exact hsome

theorem Kept.own (hkept : run.Kept requested) (queryFails : Bool) :
    (run.step requested (.own queryFails)).Kept requested := by
  obtain ⟨helection, hknows, hreturned⟩ := hkept
  rw [step, SwitchRun.advance]
  cases hstage : run.stage with
  | begun => exact kept_observe helection (by simp) (by simp)
  | queried prevMaster =>
    obtain ⟨hkeys, hgrows⟩ := @reset_keeps requested run.election.table prevMaster
    refine kept_observe ⟨?_, fun call hcall => (helection.knows call hcall).grow hgrows⟩ ?_
      (by simp)
    · exact hkeys ▸ helection.unique
    · intro phase hphase
      cases hphase
      trivial
  | determining phase =>
    have hcases := advance_cases helection.unique (hknows phase hstage)
    dsimp only
    generalize DetermineCall.advance ⟨requested, phase⟩ run.election.table = result at hcases ⊢
    obtain ⟨after, next⟩ := result
    rcases hcases with ⟨-, hsets, hunique, rfl⟩ | ⟨rfl, hknown, hmaster⟩
    · refine kept_observe ⟨hunique, fun call hcall =>
        (helection.knows call hcall).grow hsets.grows⟩ ?_ fun _ => .inr ?_
      · intro next hnext
        cases hnext
        trivial
      · exact (hsets _ _).trans (if_pos rfl)
    · refine kept_observe helection ?_ fun hdetermined => ?_
      · intro next hnext
        cases hnext
        exact hknown
      · rcases hmaster _ (SwitchStage.determining.inj hdetermined) with hbefore | hnow
        · exact .inl (hreturned (hbefore ▸ hstage))
        · exact .inr hnow

theorem Kept.step (hkept : run.Kept requested) (next : SwitchStep) :
    (run.step requested next).Kept requested := by
  cases next with
  | own queryFails => exact hkept.own queryFails
  | other next =>
    have hgrows := grows_step hkept.election next
    exact kept_observe (kept_step hkept.election next)
      (fun phase hphase => (hkept.knows phase hphase).grow hgrows)
      fun hstage => .inl (hkept.returned hstage)

theorem kept_run (table : { table : PrimaryTable // (table.map key).Nodup })
    (steps : List SwitchStep) :
    (steps.foldl (SwitchRun.step requested) (start requested table)).Kept requested := by
  induction steps using List.reverseRecOn with
  | nil => exact kept_observe ⟨table.property, by simp⟩ (by simp) (by simp)
  | append_singleton steps next ih =>
    rw [List.foldl_concat]
    exact ih.step next

end SwitchRun

end OblogProxy.Cluster
