import OblogProxy.Core.Runs
import OblogProxy.Gtid.Text

/-!
# Ids of tables

The events of a row carry the id of its table, which has six bytes.  Ids are given by a counter.
When it comes to zero again, all tables are forgotten.
-/

namespace OblogProxy.Convert

open Gtid Runs

def tableIdMax : ℕ := 2 ^ 48 - 1

/-- `TableId::operator++`. -/
def nextTableId (tableId : ℕ) : ℕ :=
  if tableId = tableIdMax then 0 else tableId + 1

abbrev TableName := Text × Text

/-- A cache with the counter, which all caches share. -/
structure TableCache where
  lastTableId : ℕ
  cache : TableName → Option ℕ := fun _ => none

inductive TableRequest
  | get (name : TableName) : TableRequest
  | refresh (name : TableName) : TableRequest

namespace TableCache

/-- The id zero is not given: another one is taken, and the entries are dropped. -/
def skipZero (tables : TableCache) : TableCache :=
  if tables.lastTableId = 0 then { lastTableId := nextTableId 0 } else tables

def assignNewTableId (tables : TableCache) : ℕ × TableCache :=
  let tables := tables.skipZero
  (tables.lastTableId, { tables with lastTableId := nextTableId tables.lastTableId })

def insertNew (tables : TableCache) (name : TableName) : ℕ × TableCache :=
  let (tableId, tables) := tables.assignNewTableId
  (tableId, { tables with cache := Function.update tables.cache name (some tableId) })

def getTableId (tables : TableCache) (name : TableName) : ℕ × TableCache :=
  match tables.cache name with
  | some tableId => (tableId, tables)
  | none => tables.insertNew name

def refreshTableId (tables : TableCache) (name : TableName) : TableCache :=
  if name.1 = [] ∨ name.2 = [] then tables else (tables.insertNew name).2

def step (tables : TableCache) : TableRequest → TableCache
  | .get name => (tables.getTableId name).2
  | .refresh name => tables.refreshTableId name

/-- The tables have ids of their own. -/
structure Sound (tables : TableCache) : Prop where
  distinct : ∀ left right tableId, tables.cache left = some tableId →
    tables.cache right = some tableId → left = right
  bounds : ∀ name tableId, tables.cache name = some tableId → 0 < tableId ∧ tableId ≤ tableIdMax

/-- The counter is above all ids, or about to begin again. -/
structure Counted (tables : TableCache) : Prop extends tables.Sound where
  counter : tables.lastTableId ≤ tableIdMax
  below : tables.lastTableId ≠ 0 →
    ∀ name tableId, tables.cache name = some tableId → tableId < tables.lastTableId

/-- The table is not refreshed, and the counter does not begin again. -/
def Undisturbed (name : TableName) (tables : TableCache) (request : TableRequest) : Prop :=
  request ≠ .refresh name ∧ (tables.lastTableId = 0 → (tables.step request).lastTableId = 0)

variable {tables : TableCache} {name : TableName}

theorem counted_new {start : ℕ} (hstart : start ≤ tableIdMax) :
    Counted { lastTableId := start } :=
  ⟨⟨by simp, by simp⟩, hstart, by simp⟩

theorem Counted.skipZero (hcounted : tables.Counted) :
    tables.skipZero.Counted ∧ tables.skipZero.lastTableId ≠ 0 := by
  rw [TableCache.skipZero]
  split_ifs with hzero
  · exact ⟨counted_new (by decide), by decide⟩
  · exact ⟨hcounted, hzero⟩

theorem Counted.insertNew (hcounted : tables.Counted) (name : TableName) :
    (tables.insertNew name).2.Counted := by
  obtain ⟨hstart, hzero⟩ := hcounted.skipZero
  have hnext : nextTableId tables.skipZero.lastTableId ≤ tableIdMax ∧
      (nextTableId tables.skipZero.lastTableId ≠ 0 →
        tables.skipZero.lastTableId < nextTableId tables.skipZero.lastTableId) := by
    have hcounter := hstart.counter
    rw [nextTableId]
    split_ifs <;> omega
  have hcases (other given) (hcached : (tables.insertNew name).2.cache other = some given) :
      other = name ∧ given = tables.skipZero.lastTableId ∨
        tables.skipZero.cache other = some given ∧ given < tables.skipZero.lastTableId := by
    change Function.update _ _ _ _ = _ at hcached
    rw [Function.update_apply] at hcached
    split_ifs at hcached with hown
    · exact .inl ⟨hown, (Option.some.inj hcached).symm⟩
    · exact .inr ⟨hcached, hstart.below hzero other given hcached⟩
  refine ⟨⟨fun left right given hleft hright => ?_, fun other given hcached => ?_⟩, hnext.1,
    fun hne other given hcached => ?_⟩
  · rcases hcases left given hleft with ⟨rfl, hgiven⟩ | ⟨hleft, hlt⟩ <;>
      rcases hcases right given hright with ⟨hown, hother⟩ | ⟨hright, hbelow⟩
    · exact hown.symm
    · exact absurd hgiven hbelow.ne
    · exact absurd hother hlt.ne
    · exact hstart.distinct left right given hleft hright
  · rcases hcases other given hcached with ⟨-, rfl⟩ | ⟨hcached, -⟩
    · exact ⟨Nat.pos_of_ne_zero hzero, hstart.counter⟩
    · exact hstart.bounds other given hcached
  · have hlt := hnext.2 hne
    rcases hcases other given hcached with ⟨-, rfl⟩ | ⟨-, hbelow⟩
    · exact hlt
    · exact hbelow.trans hlt

/-- A request leaves the tables as they are, or gives an id to a table that needs one. -/
theorem step_cases (tables : TableCache) (request : TableRequest) :
    tables.step request = tables ∨ ∃ name, tables.step request = (tables.insertNew name).2 ∧
      (tables.cache name = none ∨ request = .refresh name) := by
  cases request with
  | get name =>
    cases hcached : tables.cache name with
    | some tableId => exact .inl (by simp [step, getTableId, hcached])
    | none => exact .inr ⟨name, by simp [step, getTableId, hcached], .inl hcached⟩
  | refresh name =>
    rw [step, refreshTableId]
    split_ifs
    · exact .inl rfl
    · exact .inr ⟨name, rfl, .inr rfl⟩

theorem Counted.step (hcounted : tables.Counted) (request : TableRequest) :
    (tables.step request).Counted := by
  rcases tables.step_cases request with hsame | ⟨name, hinsert, -⟩
  · rwa [hsame]
  · rw [hinsert]
    exact hcounted.insertNew name

theorem Counted.run (hcounted : tables.Counted) (requests : List TableRequest) :
    (requests.foldl TableCache.step tables).Counted := by
  induction requests generalizing tables with
  | nil => exact hcounted
  | cons request requests ih => exact ih (hcounted.step request)

theorem cache_getTableId (tables : TableCache) (name : TableName) :
    (tables.getTableId name).2.cache name = some (tables.getTableId name).1 := by
  rw [getTableId]
  split
  · assumption
  · exact Function.update_self ..

theorem cache_step {tableId : ℕ} (hcached : tables.cache name = some tableId)
    {request : TableRequest} (hundisturbed : Undisturbed name tables request) :
    (tables.step request).cache name = some tableId := by
  obtain ⟨hrefresh, hcounter⟩ := hundisturbed
  rcases tables.step_cases request with hsame | ⟨other, hinsert, hneeds⟩
  · rwa [hsame]
  · have hne : name ≠ other := by
      rintro rfl
      rcases hneeds with hnone | rfl
      · simp [hcached] at hnone
      · exact hrefresh rfl
    by_cases hzero : tables.lastTableId = 0
    · have hagain := hcounter hzero
      rw [hinsert, insertNew, assignNewTableId, skipZero, if_pos hzero] at hagain
      cases hagain
    · rw [hinsert, insertNew, assignNewTableId, skipZero, if_neg hzero]
      exact (Function.update_of_ne hne ..).trans hcached

theorem getTableId_run {tableId : ℕ} (hcached : tables.cache name = some tableId)
    {requests : List TableRequest} (hrequests : Along step (Undisturbed name) tables requests) :
    ((requests.foldl step tables).getTableId name).1 = tableId := by
  induction requests generalizing tables with
  | nil => rw [List.foldl_nil, getTableId, hcached]
  | cons request requests ih => exact ih (cache_step hcached hrequests.1) hrequests.2

/-- The ids that a cache gives, whatever value the counter has when the cache is made. -/
theorem ids_run {start : ℕ} (hstart : start ≤ tableIdMax) (requests : List TableRequest) :
    let tables := requests.foldl step { lastTableId := start }
    tables.Sound ∧
      (∀ name later, Along step (Undisturbed name) (tables.step (.get name)) later →
        ((later.foldl step (tables.step (.get name))).getTableId name).1 =
          (tables.getTableId name).1) ∧
      ∀ name : TableName, name.1 ≠ [] → name.2 ≠ [] →
        ∃ tableId, (tables.refreshTableId name).cache name = some tableId ∧
          (∀ other ≠ name, (tables.refreshTableId name).cache other ≠ some tableId) ∧
          (tables.lastTableId ≠ 0 → ∀ other, tables.cache other ≠ some tableId) := by
  intro tables
  have hcounted : tables.Counted := (counted_new hstart).run requests
  refine ⟨hcounted.toSound, fun name later => ?_, fun name hdatabase htable => ?_⟩
  · exact getTableId_run (cache_getTableId tables name)
  · have hgiven : (tables.insertNew name).2.cache name = some (tables.insertNew name).1 :=
      Function.update_self ..
    rw [refreshTableId, if_neg (not_or.mpr ⟨hdatabase, htable⟩)]
    refine ⟨_, hgiven, fun other hother hcached => ?_, fun hzero other hcached => ?_⟩
    · exact hother ((hcounted.insertNew name).distinct _ _ _ hcached hgiven)
    · rw [insertNew, assignNewTableId, skipZero, if_neg hzero] at hcached
      exact (hcounted.below hzero other _ hcached).ne rfl

theorem ids_run_wrapped :
    (([.get ([], []), .refresh (['d'], ['t'])] : List TableRequest).foldl step
      { lastTableId := tableIdMax }).Sound :=
  (ids_run le_rfl _).1

/-- A table without a name keeps its id when it is refreshed, and when the counter begins again, a
table gets another one. -/
theorem not_ids_run :
    (let tables := ({ lastTableId := 0 } : TableCache).step (.get ([], ['t']));
      (tables.refreshTableId ([], ['t'])).cache ([], ['t']) = tables.cache ([], ['t'])) ∧
    let tables : TableCache := { lastTableId := tableIdMax };
    (((tables.step (.get ([], []))).step (.get (['d'], ['t']))).getTableId ([], [])).1 ≠
      (tables.getTableId ([], [])).1 := by
  decide

end TableCache

end OblogProxy.Convert
