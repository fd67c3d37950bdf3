import OblogProxy.Gtid.Text

/-!
# Options of a tenant

`ALTER BINLOG` stores the options of a tenant in the table `config_template`, under a key, a
granularity and a scope.  A statement that creates an instance reads the table again, from the
global level down to the instance, and uses what it finds for the options it does not give.

The statement that writes names the tenant by `full_tenant`, the one that reads by its name
alone.
-/

namespace OblogProxy.Cluster

open Gtid List

inductive Granularity
  | global : Granularity
  | group : Granularity
  | cluster : Granularity
  | tenant : Granularity
  | instance : Granularity
  | undefined : Granularity
deriving DecidableEq

/-- A row of `config_template`; a key has one value at each granularity and scope. -/
structure ConfigItem where
  keyName : Text
  value : Text
  granularity : Granularity
  scope : Text
deriving DecidableEq

abbrev ConfigTable : Type := List ConfigItem

abbrev Configs : Type := Text → Option Text

namespace ConfigTable

/-- `replace_config`: the row takes the place of the one with the same unique key. -/
def replaceConfig (table : ConfigTable) (item : ConfigItem) : ConfigTable :=
  (table.filter fun row =>
    ¬ (row.keyName = item.keyName ∧ row.granularity = item.granularity ∧
      row.scope = item.scope)) ++ [item]

/-- `query_config_items`: the rows of a granularity and, unless it is empty, of a scope
overwrite what has been collected. -/
def queryConfigItems (table : ConfigTable) (granularity : Granularity) (scope : Text)
    (configs : Configs) : Configs :=
  (table.filter fun row =>
      row.granularity = granularity ∧ (scope = [] ∨ row.scope = scope)).foldl
    (fun configs row => Function.update configs row.keyName (some row.value)) configs

/-- A level below the global one is read only if its scope is known. -/
def queryLevel (table : ConfigTable) (granularity : Granularity) (scope : Text)
    (configs : Configs) : Configs :=
  if scope = [] then configs else table.queryConfigItems granularity scope configs

def queryInstanceConfigs (table : ConfigTable) (group cluster tenant instanceName : Text) :
    Configs :=
  table.queryLevel .instance instanceName <|
    table.queryLevel .tenant tenant <|
      table.queryLevel .cluster cluster <|
        table.queryLevel .group group <|
          table.queryConfigItems .global [] fun _ => none

end ConfigTable

def fullTenant (cluster tenant : Text) : Text :=
  cluster ++ ['.'] ++ tenant

/-- `ALTER BINLOG` of a tenant; `tenantExists` tells whether the tenant has an instance that is
not dropped. -/
structure AlterBinlog where
  cluster : Text
  tenant : Text
  instanceOptions : List (Text × Text)
  tenantExists : Bool
deriving DecidableEq

/-- What `AlterBinlogProcessor` does to the table. -/
def AlterBinlog.process (table : ConfigTable) (alter : AlterBinlog) : ConfigTable :=
  if alter.tenantExists then
    alter.instanceOptions.foldl
      (fun table option => table.replaceConfig
        ⟨option.1, option.2, .tenant, fullTenant alter.cluster alter.tenant⟩) table
  else table

/-- `CREATE BINLOG`, which gives no name, or `CREATE BINLOG INSTANCE`. -/
structure CreateInstance where
  cluster : Text
  tenant : Text
  instanceName : Text
  binlogOptions : Configs

namespace CreateInstance

/-- The lookup `binlog_options["group"]` adds the empty group to options without one. -/
def withGroup (create : CreateInstance) : Configs :=
  match create.binlogOptions "group".toList with
  | none => Function.update create.binlogOptions "group".toList (some [])
  | some _ => create.binlogOptions

/-- The options with which `BaseCreateProcessor` calls `init_meta`, and `init_meta` initialises
the instance: those of the statement, and for the others what the table has. -/
def initMeta (create : CreateInstance) (table : ConfigTable) : Configs := fun key =>
  let options := create.withGroup
  (options key).orElse fun _ =>
    table.queryInstanceConfigs ((options "group".toList).getD []) create.cluster create.tenant
      create.instanceName key

end CreateInstance

/-- The row may be read for an instance of the tenant: it does not belong to another one. -/
def ConfigItem.VisibleTo (tenant : Text) (row : ConfigItem) : Prop :=
  row.granularity = .tenant → row.scope = tenant

instance (tenant : Text) : DecidablePred (ConfigItem.VisibleTo tenant) := fun row =>
  inferInstanceAs (Decidable (row.granularity = .tenant → row.scope = tenant))

/-- Tables from which an instance of the tenant reads the same. -/
def ConfigTable.SameFor (tenant : Text) (left right : ConfigTable) : Prop :=
  left.filter (ConfigItem.VisibleTo tenant ·) = right.filter (ConfigItem.VisibleTo tenant ·)

namespace ConfigTable

variable {tenant : Text} {left right : ConfigTable}

section SameFor

variable (hsame : left.SameFor tenant right)

include hsame

theorem SameFor.filter_eq {keeps : ConfigItem → Bool}
    (hvisible : ∀ row, keeps row = true → row.VisibleTo tenant) :
    left.filter keeps = right.filter keeps := by
  have hfilter : ∀ table : ConfigTable,
      table.filter keeps = (table.filter (ConfigItem.VisibleTo tenant ·)).filter keeps := by
    intro table
    rw [filter_filter]
    refine filter_congr fun row _ => ?_
    cases hkeeps : keeps row with
    | false => simp
    | true => simp [hvisible row hkeeps]
  rw [hfilter left, hfilter right, hsame]

theorem SameFor.queryConfigItems_eq (granularity : Granularity) (scope : Text) (configs : Configs)
    (hscope : granularity = .tenant → scope ≠ [] ∧ scope = tenant) :
    left.queryConfigItems granularity scope configs =
      right.queryConfigItems granularity scope configs := by
  rw [queryConfigItems, queryConfigItems, hsame.filter_eq]
  intro row hkeeps hrow
  obtain ⟨hgranularity, hmatches⟩ := of_decide_eq_true hkeeps
  obtain ⟨hne, rfl⟩ := hscope (hgranularity ▸ hrow)
  exact hmatches.resolve_left hne

theorem SameFor.queryLevel_eq (granularity : Granularity) (scope : Text) (configs : Configs)
    (hscope : granularity = .tenant → scope = tenant) :
    left.queryLevel granularity scope configs = right.queryLevel granularity scope configs := by
  unfold queryLevel
  split_ifs with hempty
  · rfl
  · exact hsame.queryConfigItems_eq _ _ configs fun htenant => ⟨hempty, hscope htenant⟩

theorem SameFor.queryInstanceConfigs_eq (group cluster instanceName : Text) :
    left.queryInstanceConfigs group cluster tenant instanceName =
      right.queryInstanceConfigs group cluster tenant instanceName := by
  unfold queryInstanceConfigs
  rw [hsame.queryConfigItems_eq .global [] _ nofun, hsame.queryLevel_eq .group group _ nofun,
    hsame.queryLevel_eq .cluster cluster _ nofun,
    hsame.queryLevel_eq .tenant tenant _ fun _ => rfl,
    hsame.queryLevel_eq .instance instanceName _ nofun]

end SameFor

/-- What is visible after a replacement: the rows with the unique key of a visible row are
visible too. -/
theorem filter_replaceConfig (table : ConfigTable) (item : ConfigItem) :
    (table.replaceConfig item).filter (ConfigItem.VisibleTo tenant ·) =
      if item.VisibleTo tenant then
        replaceConfig (table.filter (ConfigItem.VisibleTo tenant ·)) item
      else table.filter (ConfigItem.VisibleTo tenant ·) := by
  rw [replaceConfig, filter_append]
  split_ifs with hvisible
  · rw [replaceConfig, filter_filter, filter_filter]
    simp [hvisible, Bool.and_comm]
  · simp only [filter_cons, hvisible, decide_false, Bool.false_eq_true, if_false,
      filter_nil, append_nil]
    rw [filter_filter]
    refine filter_congr fun row _ => ?_
    by_cases hrow : row.VisibleTo tenant
    · have hother : ¬ (row.keyName = item.keyName ∧ row.granularity = item.granularity ∧
          row.scope = item.scope) := by
        rintro ⟨-, hgranularity, hscope⟩
        exact hvisible fun htenant => hscope ▸ hrow (hgranularity.trans htenant)
      simp [hrow, hother]
    · simp [hrow]

theorem SameFor.replaceConfig (hsame : left.SameFor tenant right) (item : ConfigItem) :
    (left.replaceConfig item).SameFor tenant (right.replaceConfig item) := by
  unfold SameFor
  rw [filter_replaceConfig, filter_replaceConfig, hsame]

theorem SameFor.replaceConfig_hidden (hsame : left.SameFor tenant right) {item : ConfigItem}
    (hhidden : ¬ item.VisibleTo tenant) : (left.replaceConfig item).SameFor tenant right := by
  unfold SameFor
  rw [filter_replaceConfig, if_neg hhidden, hsame]

end ConfigTable

theorem fullTenant_ne (cluster tenant : Text) : fullTenant cluster tenant ≠ tenant := by
  intro heq
  have hlength := congrArg List.length heq
  simp only [fullTenant, length_append, length_cons, length_nil] at hlength
  omega

namespace AlterBinlog

variable {tenant : Text} {left right : ConfigTable}

theorem process_sameFor (alter : AlterBinlog) (hsame : left.SameFor tenant right) :
    (alter.process left).SameFor tenant (alter.process right) := by
  unfold process
  split_ifs
  · induction alter.instanceOptions generalizing left right with
    | nil => exact hsame
    | cons option rest ih => exact ih (hsame.replaceConfig _)
  · exact hsame

/-- An instance reads nothing that is stored for a tenant of its tenant's name. -/
theorem process_hidden (alter : AlterBinlog) (htenant : alter.tenant = tenant)
    (hsame : left.SameFor tenant right) : (alter.process left).SameFor tenant right := by
  unfold process
  split_ifs
  · induction alter.instanceOptions generalizing left with
    | nil => exact hsame
    | cons option rest ih =>
      refine ih (hsame.replaceConfig_hidden fun hvisible => ?_)
      exact fullTenant_ne alter.cluster alter.tenant ((hvisible rfl).trans htenant.symm)
  · exact hsame

/-- Statements for tenants of one name may be left out, whatever their cluster, for an
instance of a tenant of that name. -/
theorem foldl_process_sameFor (keeps : AlterBinlog → Bool) (alters : List AlterBinlog)
    (hkeeps : ∀ alter ∈ alters, keeps alter = false → alter.tenant = tenant)
    (hsame : left.SameFor tenant right) :
    ConfigTable.SameFor tenant (alters.foldl process left)
      ((alters.filter keeps).foldl process right) := by
  induction alters generalizing left right with
  | nil => exact hsame
  | cons alter rest ih =>
    have hrest := fun other hother => hkeeps other (mem_cons_of_mem _ hother)
    cases hkept : keeps alter with
    | true =>
      rw [filter_cons_of_pos hkept]
      exact ih hrest (process_sameFor alter hsame)
    | false =>
      rw [filter_cons_of_neg (by simp [hkept])]
      exact ih hrest
        (process_hidden alter (hkeeps alter mem_cons_self hkept) hsame)

/-- The value that the last accepted statement for exactly this tenant gives the option. -/
def lastAltered (alters : List AlterBinlog) (cluster tenant key : Text) : Option Text :=
  (((alters.filter fun alter =>
      alter.tenantExists ∧ alter.cluster = cluster ∧ alter.tenant = tenant).flatMap
    (·.instanceOptions)).reverse.find? fun option => option.1 = key).map Prod.snd

end AlterBinlog

open AlterBinlog

namespace CreateInstance

theorem initMeta_eq_of_sameFor (create : CreateInstance) {left right : ConfigTable}
    (hsame : left.SameFor create.tenant right) : create.initMeta left = create.initMeta right := by
  funext key
  simp only [initMeta, hsame.queryInstanceConfigs_eq]

/-- The instance is initialised with the value last set for its tenant, and values for a
tenant of the same name in another cluster do not matter. -/
structure OptionApplies (create : CreateInstance) (table : ConfigTable)
    (alters : List AlterBinlog) (key : Text) : Prop where
  latest : ∀ value,
    lastAltered alters create.cluster create.tenant key = some value →
      create.initMeta (alters.foldl process table) key = some value
  otherClusters :
    create.initMeta (alters.foldl process table) key =
      create.initMeta ((alters.filter fun alter =>
        ¬ (alter.tenant = create.tenant ∧ alter.cluster ≠ create.cluster)).foldl
          process table) key

/-- No statement for a tenant of that name reaches the instance, its own tenant's included:
an option applies exactly if the instance has its value without any of them. -/
theorem optionApplies_iff (create : CreateInstance) (table : ConfigTable)
    (alters : List AlterBinlog) (key : Text) :
    create.OptionApplies table alters key ↔
      ∀ value, lastAltered alters create.cluster create.tenant key = some value →
        create.initMeta ((alters.filter fun alter => alter.tenant ≠ create.tenant).foldl
          process table) key = some value := by
  have hignored : create.initMeta (alters.foldl process table) =
      create.initMeta ((alters.filter fun alter => alter.tenant ≠ create.tenant).foldl
        process table) :=
    create.initMeta_eq_of_sameFor
      (foldl_process_sameFor _ alters (fun alter _ hdropped => by simpa using hdropped)
        rfl)
  have hothers : create.initMeta (alters.foldl process table) =
      create.initMeta ((alters.filter fun alter =>
        ¬ (alter.tenant = create.tenant ∧ alter.cluster ≠ create.cluster)).foldl
          process table) :=
    create.initMeta_eq_of_sameFor
      (foldl_process_sameFor _ alters
        (fun alter _ hdropped => (of_not_not (of_decide_eq_false hdropped)).1) rfl)
  rw [← hignored]
  exact ⟨OptionApplies.latest, fun hlatest => ⟨hlatest, congrFun hothers key⟩⟩

end CreateInstance

/-- A failover that is switched off for a tenant stays on for its next instance. -/
theorem altered_failover_ignored :
    let create : CreateInstance := ⟨"c1".toList, "t1".toList, "i2".toList,
      Function.update (fun _ => none) "cluster_url".toList (some "url".toList)⟩
    let table : ConfigTable := [⟨"failover".toList, "1".toList, .global, []⟩]
    let alters : List AlterBinlog :=
      [⟨"c1".toList, "t1".toList, [("failover".toList, "0".toList)], true⟩]
    lastAltered alters create.cluster create.tenant "failover".toList =
        some "0".toList ∧
      create.initMeta (alters.foldl process table) "failover".toList =
        some "1".toList ∧
      ¬ create.OptionApplies table alters "failover".toList := by
  intro create table alters
  have hvalue : create.initMeta (alters.foldl process table) "failover".toList =
      some "1".toList := by decide +kernel
  have hlast : lastAltered alters create.cluster create.tenant "failover".toList =
      some "0".toList := by decide +kernel
  refine ⟨hlast, hvalue, fun happlies => ?_⟩
  have hlatest := happlies.latest _ hlast
  exact absurd hlatest (by decide +kernel)

namespace ConfigTable

/-- The value of the row that a level has for a key, of the one read last if there were several.
Every row of the global level counts, below it only those of the scope, if that is known. -/
def levelValue (table : ConfigTable) (granularity : Granularity) (scope key : Text) :
    Option Text :=
  (table.filter fun row => row.keyName = key ∧ row.granularity = granularity ∧
    (granularity = .global ∨ scope ≠ [] ∧ row.scope = scope)).getLast?.map ConfigItem.value

theorem foldl_update_apply (rows : List ConfigItem) (configs : Configs) (key : Text) :
    rows.foldl (fun (configs : Configs) row =>
        Function.update configs row.keyName (some row.value)) configs key =
      ((rows.filter (·.keyName = key)).getLast?.map ConfigItem.value).or (configs key) := by
  induction rows using List.reverseRecOn with
  | nil => rfl
  | append_singleton front row ih =>
    rw [foldl_concat, filter_append]
    by_cases hkey : row.keyName = key
    · simp [hkey]
    · rw [Function.update_of_ne (Ne.symm hkey), ih, filter_cons_of_neg (by simpa using hkey),
        filter_nil, append_nil]

theorem queryConfigItems_apply {table : ConfigTable} {granularity : Granularity} {scope : Text}
    (hscope : scope = [] ↔ granularity = .global) (configs : Configs) (key : Text) :
    table.queryConfigItems granularity scope configs key =
      (table.levelValue granularity scope key).or (configs key) := by
  rw [queryConfigItems, foldl_update_apply, filter_filter, levelValue]
  congr 3
  refine filter_congr fun row _ => ?_
  by_cases hglobal : granularity = .global <;> simp [hscope, hglobal]

theorem queryLevel_apply {table : ConfigTable} {granularity : Granularity}
    (hbelow : granularity ≠ .global) (scope : Text) (configs : Configs) (key : Text) :
    table.queryLevel granularity scope configs key =
      (table.levelValue granularity scope key).or (configs key) := by
  unfold queryLevel
  split_ifs with hempty
  · simp [levelValue, hempty, hbelow]
  · exact queryConfigItems_apply (by simp [hempty, hbelow]) configs key

end ConfigTable

/-- `init_meta`: what was collected is inserted where the statement gives nothing. -/
def mergeOptions (instanceConfigs instanceOptions : Configs) : Configs := fun key =>
  (instanceOptions key).or (instanceConfigs key)

/-- The statement comes first, and then the levels from the instance up to the global one. -/
theorem mergeOptions_mostSpecific (table : ConfigTable) (group cluster tenant instanceName : Text)
    (instanceOptions : Configs) (key : Text) :
    mergeOptions (table.queryInstanceConfigs group cluster tenant instanceName) instanceOptions
        key =
      (instanceOptions key).or ((table.levelValue .instance instanceName key).or
        ((table.levelValue .tenant tenant key).or ((table.levelValue .cluster cluster key).or
          ((table.levelValue .group group key).or (table.levelValue .global [] key))))) := by
  rw [mergeOptions, ConfigTable.queryInstanceConfigs]
  iterate 4 rw [ConfigTable.queryLevel_apply (by simp)]
  rw [ConfigTable.queryConfigItems_apply (by simp), Option.or_none]

end OblogProxy.Cluster
