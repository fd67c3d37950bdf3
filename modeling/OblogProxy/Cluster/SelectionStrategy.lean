import OblogProxy.DataType.Decimal

/-!
# Choosing the node of an instance

A new instance is placed on one of the online nodes.  Filters narrow the nodes down, in the
order in which they are listed: the address, zone and group given by the user, the resources
that a node has left, the region, and at last a weighted random choice.

What floating point decides is a parameter: the ratios that a node reports are rationals, or
no number at all, and `stopsAt` tells where the loop of the weighted choice stops.  The four
weights are appended to a vector that has four elements already, and the first four are read.

A node writes its heartbeat to the table `nodes`.  The report asks for the row of the node, is to
register the node if there is none and to update the row otherwise.  The query takes an empty
result for a failure, so that the report ends before it comes to the registration.  The query
for several nodes assigns the text of an id where it should append it.
-/

namespace OblogProxy.Cluster

open DataType Gtid List

/-- `SlotConfig`: where the user wants the instance; an empty text is not given. -/
structure SlotConfig where
  ip : Text
  zone : Text
  region : Text
  group : Text
deriving DecidableEq

/-- What a node reports about itself; a ratio that is no number is below no limit. -/
structure SysMetric where
  cpuUsedRatio : Option ℚ
  memUsedRatio : Option ℚ
  diskUsedRatio : Option ℚ
  memTotalSizeMb : ℕ
  memUsedSizeMb : ℕ
  diskTotalSizeMb : ℕ
  diskUsedSizeMb : ℕ
deriving DecidableEq

structure Node where
  id : Text
  ip : Text
  region : Text
  zone : Text
  group : Text
  metric : SysMetric
deriving DecidableEq

/-- The fields of `InstanceMeta` that the filters read. -/
structure InstanceMeta where
  slotConfig : SlotConfig
  memoryLimit : Text
  binlogExpireLogsSize : ℕ

structure TenantInstance where
  ip : Text
  nodeId : Text
  isDropped : Bool

/-- What the filters read besides the instance and the nodes.  The limits are the configured
percentages as ratios, and `queryInstances` is `none` if the query fails. -/
structure SelectionContext where
  enableResourceCheck : Bool
  nodeCpuRatioLimit : ℚ
  nodeMemRatioLimit : ℚ
  nodeDiskRatioLimit : ℚ
  queryInstances : Option (List TenantInstance)
  stopsAt : List Node → Text → Bool

structure Filter where
  canFilter : List Node → Bool
  doFilter : List Node → Except Text (List Node)

def Filter.apply (filter : Filter) (nodes : List Node) : Except Text (List Node) :=
  if filter.canFilter nodes then filter.doFilter nodes else .ok nodes

/-- A filter that keeps the nodes with a property, and fails if there is none. -/
structure Requirement where
  isGiven : Bool
  meets : Node → Bool
  errMsg : Text

namespace Requirement

def toFilter (requirement : Requirement) : Filter where
  canFilter nodes := !nodes.isEmpty && requirement.isGiven
  doFilter nodes :=
    let kept := nodes.filter requirement.meets
    if kept.isEmpty then .error requirement.errMsg else .ok kept

def admits (requirement : Requirement) (node : Node) : Bool :=
  !requirement.isGiven || requirement.meets node

/-- The check that `IpFilter`, `ZoneFilter`, `GroupFilter` and `RegionFilter` make of one
field. -/
def field (given : Text) (get : Node → Text) (label : String) : Requirement where
  isGiven := !given.isEmpty
  meets node := given = get node
  errMsg := ("Not matched any node with " ++ label ++ ": ").toList ++ given

end Requirement

open Requirement

section Filters

variable (context : SelectionContext) (instanceMeta : InstanceMeta)

def ipFilter : Requirement :=
  .field instanceMeta.slotConfig.ip Node.ip "ip"

def zoneFilter : Requirement :=
  .field instanceMeta.slotConfig.zone Node.zone "zone"

def groupFilter : Requirement :=
  .field instanceMeta.slotConfig.group Node.group "group"

def isBelow (ratio : Option ℚ) (limit : ℚ) : Bool :=
  match ratio with
  | none => false
  | some value => value < limit

/-- `ResourcesFilter::meet_resource_needs`.  The differences are unsigned: a node that uses
more than it has seems to have plenty left. -/
def meetResourceNeeds (node : Node) : Bool :=
  let metric := node.metric
  let meetRequiredThreshold :=
    isBelow metric.cpuUsedRatio context.nodeCpuRatioLimit &&
      isBelow metric.memUsedRatio context.nodeMemRatioLimit &&
      isBelow metric.diskUsedRatio context.nodeDiskRatioLimit
  let memoryLimitGb : UInt32 :=
    if instanceMeta.memoryLimit.isEmpty then 20 else toUint32 (atoi instanceMeta.memoryLimit.dropLast)
  let availableMemoryGb : UInt32 :=
    toUint32 (toUint64 ((metric.memTotalSizeMb : ℤ) - metric.memUsedSizeMb) / 1024 : ℕ)
  let binlogSizeGb := instanceMeta.binlogExpireLogsSize / 1024 / 1024 / 1024
  let availableDiskGb := toUint64 ((metric.diskTotalSizeMb : ℤ) - metric.diskUsedSizeMb) / 1024
  meetRequiredThreshold &&
    (decide (memoryLimitGb ≤ availableMemoryGb) && decide (binlogSizeGb ≤ availableDiskGb))

def resourcesFilter : Requirement where
  isGiven := context.enableResourceCheck
  meets := meetResourceNeeds context instanceMeta
  errMsg := "Node resources are insufficient".toList

/-- `ip_region_mapping[ip]`: the region of the last node with the address, the empty text for
an address of no node. -/
def ipRegionMapping (nodes : List Node) (ip : Text) : Text :=
  ((nodes.reverse.find? fun node => node.ip = ip).map Node.region).getD []

def availableRegions (existing : List TenantInstance) (nodes : List Node) : List Text :=
  (nodes.map Node.region).dedup.filter fun region =>
    region ∉ existing.map fun entry => ipRegionMapping nodes entry.ip

/-- The nodes that `RegionFilter` prefers for a tenant with the instances `existing`: those in
a region without one, or else those without one, or else all. -/
def awayFrom (existing : List TenantInstance) (nodes : List Node) : List Node :=
  if existing = [] then nodes
  else
    let regions := availableRegions existing nodes
    let nodesForExisting := (existing.map TenantInstance.nodeId).dedup
    if regions ≠ [] then nodes.filter fun node => node.region ∈ regions
    else if nodesForExisting.length < (nodes.map Node.id).dedup.length then
      nodes.filter fun node => node.id ∉ nodesForExisting
    else nodes

/-- A failed query leaves the message as it was. -/
def regionFilter : Filter where
  canFilter nodes := 1 < nodes.length
  doFilter nodes :=
    if instanceMeta.slotConfig.region ≠ [] then
      (field instanceMeta.slotConfig.region Node.region "region").toFilter.doFilter nodes
    else
      match context.queryInstances with
      | none => .error []
      | some instances => .ok (awayFrom (instances.filter fun entry => !entry.isDropped) nodes)

/-- The identifiers in the order of `node_id_weight_mapping`. -/
def weightedIds (nodes : List Node) : List Text :=
  (nodes.map Node.id).mergeSort fun left right => left ≤ right

/-- `weighted_selection`: the first identifier at which the loop stops; if there is none, or
if it is empty, the first of the mapping. -/
def weightedSelection (nodes : List Node) : Text :=
  let nodeId := ((weightedIds nodes).find? (context.stopsAt nodes)).getD []
  if nodeId.isEmpty then (weightedIds nodes).headD [] else nodeId

def weightedRandomFilter : Filter where
  canFilter nodes := 1 < nodes.length
  doFilter nodes := .ok (nodes.filter fun node => weightedSelection context nodes = node.id)

def requirements : List Requirement :=
  [ipFilter instanceMeta, zoneFilter instanceMeta, groupFilter instanceMeta, resourcesFilter context instanceMeta]

def loadBalancingFilters : List Filter :=
  (requirements context instanceMeta).map toFilter ++
    [regionFilter context instanceMeta, weightedRandomFilter context]

def loadBalancingNode (nodes : List Node) : Except Text (List Node) :=
  if nodes.isEmpty then .error "No nodes in running status".toList
  else (loadBalancingFilters context instanceMeta).foldlM (fun nodes filter => filter.apply nodes) nodes

end Filters

theorem bind_eq_ok {α β : Type} {result : Except Text α} {next : α → Except Text β} {value : β} :
    (result >>= next) = .ok value ↔ ∃ middle, result = .ok middle ∧ next middle = .ok value := by
  cases result with
  | error message => simp [Bind.bind, Except.bind]
  | ok middle => simp [Bind.bind, Except.bind]

variable {nodes left : List Node} {node : Node}

namespace Requirement

theorem doFilter_eq_ok_iff (requirement : Requirement) :
    requirement.toFilter.doFilter nodes = .ok left ↔
      left = nodes.filter requirement.meets ∧ left ≠ [] := by
  simp only [toFilter, List.isEmpty_iff]
  split
  case isTrue hkept =>
    simp only [reduceCtorEq, false_iff, not_and, not_not]
    exact fun hleft => hleft.trans hkept
  case isFalse hkept =>
    rw [Except.ok.injEq]
    constructor
    · rintro rfl
      exact ⟨rfl, hkept⟩
    · rintro ⟨rfl, -⟩
      rfl

theorem apply_eq_ok_iff (requirement : Requirement) (hnodes : nodes ≠ []) :
    requirement.toFilter.apply nodes = .ok left ↔
      left = nodes.filter requirement.admits ∧ left ≠ [] := by
  have hcan : requirement.toFilter.canFilter nodes = requirement.isGiven := by
    simp [toFilter, hnodes]
  rw [Filter.apply, hcan]
  by_cases hgiven : requirement.isGiven
  · have hadmits : requirement.admits = requirement.meets := by
      funext node
      simp [admits, hgiven]
    rw [if_pos hgiven, doFilter_eq_ok_iff, hadmits]
  · have hadmits : nodes.filter requirement.admits = nodes := by
      simp [admits, hgiven]
    rw [if_neg hgiven, hadmits, Except.ok.injEq]
    constructor
    · rintro rfl
      exact ⟨rfl, hnodes⟩
    · rintro ⟨rfl, -⟩
      rfl

/-- Requirements in a row keep the nodes that meet them all. -/
theorem foldlM_eq_ok_iff (requirements : List Requirement) (hnodes : nodes ≠ []) :
    (requirements.map toFilter).foldlM (fun nodes filter => filter.apply nodes) nodes =
        .ok left ↔
      left = (nodes.filter fun node => requirements.all (·.admits node)) ∧ left ≠ [] := by
  induction requirements generalizing nodes with
  | nil =>
    simp only [map_nil, foldlM_nil, all_nil, filter_true]
    constructor
    · rintro ⟨⟩
      exact ⟨rfl, hnodes⟩
    · rintro ⟨rfl, -⟩
      rfl
  | cons requirement rest ih =>
    have hfilter : (nodes.filter fun node => (requirement :: rest).all (·.admits node)) =
        (nodes.filter requirement.admits).filter fun node => rest.all (·.admits node) := by
      rw [filter_filter]
      simp [Bool.and_comm]
    rw [map_cons, foldlM_cons, bind_eq_ok, hfilter]
    constructor
    · rintro ⟨middle, hmiddle, hrest⟩
      obtain ⟨rfl, hne⟩ := (requirement.apply_eq_ok_iff hnodes).mp hmiddle
      exact (ih hne).mp hrest
    · rintro ⟨hleft, hne⟩
      have hmiddle : nodes.filter requirement.admits ≠ [] := by
        intro hempty
        rw [hempty, filter_nil] at hleft
        exact hne hleft
      exact ⟨_, (requirement.apply_eq_ok_iff hnodes).mpr ⟨rfl, hmiddle⟩,
        (ih hmiddle).mpr ⟨hleft, hne⟩⟩

theorem admits_field_iff {given : Text} {get : Node → Text} {label : String} :
    (field given get label).admits node = true ↔ (given ≠ [] → get node = given) := by
  rw [eq_comm (a := get node)]
  by_cases hgiven : given = []
  · simp [field, admits, hgiven]
  · simp [field, admits, hgiven]

end Requirement

theorem exists_available {existing : List TenantInstance}
    (havailable : availableRegions existing nodes ≠ []) :
    (nodes.filter fun node => node.region ∈ availableRegions existing nodes) ≠ [] := by
  obtain ⟨region, hregion⟩ := exists_mem_of_ne_nil _ havailable
  have hmem : region ∈ nodes.map Node.region :=
    mem_dedup.mp (mem_of_mem_filter hregion)
  obtain ⟨node, hnode, rfl⟩ := mem_map.mp hmem
  exact ne_nil_of_mem (mem_filter.mpr ⟨hnode, decide_eq_true hregion⟩)

/-- With more nodes than nodes in use, some node is not in use. -/
theorem exists_unused {used : List Text} (hcount : used.length < (nodes.map Node.id).dedup.length) :
    (nodes.filter fun node => node.id ∉ used) ≠ [] := by
  intro hempty
  have hsubset : (nodes.map Node.id).dedup ⊆ used := by
    intro id hid
    obtain ⟨node, hnode, rfl⟩ := mem_map.mp (mem_dedup.mp hid)
    have := filter_eq_nil_iff.mp hempty node hnode
    simpa using this
  exact absurd ((nodup_dedup _).subperm hsubset).length_le (not_le.mpr hcount)

theorem awayFrom_sublist (existing : List TenantInstance) (nodes : List Node) :
    (awayFrom existing nodes).Sublist nodes := by
  rw [awayFrom]
  dsimp only
  split_ifs
  · exact List.Sublist.refl _
  · exact filter_sublist
  · exact filter_sublist
  · exact List.Sublist.refl _

theorem awayFrom_ne_nil (existing : List TenantInstance) (hnodes : nodes ≠ []) :
    awayFrom existing nodes ≠ [] := by
  rw [awayFrom]
  dsimp only
  split_ifs with hexisting havailable hcount
  · exact hnodes
  · exact exists_available havailable
  · exact exists_unused hcount
  · exact hnodes

section Region

variable {context : SelectionContext} {instanceMeta : InstanceMeta}

/-- What `RegionFilter` leaves of at least two nodes. -/
theorem regionFilter_eq_ok (hmany : 1 < nodes.length)
    (hleft : (regionFilter context instanceMeta).apply nodes = .ok left) :
    left.Sublist nodes ∧ left ≠ [] ∧
      (instanceMeta.slotConfig.region ≠ [] →
        ∀ node ∈ left, node.region = instanceMeta.slotConfig.region) := by
  have hnodes : nodes ≠ [] := ne_nil_of_length_pos (by omega)
  have hcan : (regionFilter context instanceMeta).canFilter nodes = true := decide_eq_true hmany
  rw [Filter.apply, if_pos hcan] at hleft
  simp only [regionFilter] at hleft
  split_ifs at hleft with hregion
  · obtain ⟨rfl, hne⟩ := (doFilter_eq_ok_iff _).mp hleft
    refine ⟨filter_sublist, hne, fun _ node hnode => ?_⟩
    have hmeets := (mem_filter.mp hnode).2
    simpa [field, eq_comm] using hmeets
  · split at hleft
    case h_1 => cases hleft
    case h_2 instances hinstances =>
      cases hleft
      exact ⟨awayFrom_sublist _ _, awayFrom_ne_nil _ hnodes, fun hgiven => absurd hgiven hregion⟩

end Region

section Weighted

variable (context : SelectionContext)

theorem mem_weightedIds {id : Text} : id ∈ weightedIds nodes ↔ id ∈ nodes.map Node.id := by
  rw [weightedIds, mem_mergeSort]

theorem weightedSelection_mem (hnodes : nodes ≠ []) :
    weightedSelection context nodes ∈ nodes.map Node.id := by
  rw [← mem_weightedIds]
  have hids : weightedIds nodes ≠ [] := by
    obtain ⟨node, hnode⟩ := exists_mem_of_ne_nil _ hnodes
    exact ne_nil_of_mem (mem_weightedIds.mpr (mem_map_of_mem hnode))
  rw [weightedSelection]
  split
  case isTrue =>
    rw [headD_eq_head?_getD, head?_eq_some_head hids]
    exact head_mem hids
  case isFalse hnonempty =>
    cases hfind : (weightedIds nodes).find? (context.stopsAt nodes) with
    | none => simp [hfind] at hnonempty
    | some id => exact mem_of_find?_eq_some hfind

theorem filter_id_eq_singleton (hids : (nodes.map Node.id).Nodup) (hnode : node ∈ nodes) :
    (nodes.filter fun other => node.id = other.id) = [node] := by
  induction nodes with
  | nil => cases hnode
  | cons head tail ih =>
    rw [map_cons, nodup_cons] at hids
    rcases mem_cons.mp hnode with rfl | htail
    · have hothers : (tail.filter fun other => node.id = other.id) = [] := by
        rw [filter_eq_nil_iff]
        intro other hother heq
        exact hids.1 (of_decide_eq_true heq ▸ mem_map_of_mem hother)
      rw [filter_cons_of_pos (by simp), hothers]
    · have hne : node.id ≠ head.id := by
        intro heq
        exact hids.1 (heq ▸ mem_map_of_mem htail)
      rw [filter_cons_of_neg (by simpa using hne), ih hids.2 htail]

theorem weightedRandomFilter_eq (hids : (nodes.map Node.id).Nodup) (hnodes : nodes ≠ []) :
    ∃ node ∈ nodes, (weightedRandomFilter context).apply nodes = .ok [node] := by
  rw [Filter.apply]
  by_cases hmany : (weightedRandomFilter context).canFilter nodes = true
  · obtain ⟨node, hnode, hid⟩ := mem_map.mp (weightedSelection_mem context hnodes)
    refine ⟨node, hnode, ?_⟩
    rw [if_pos hmany, weightedRandomFilter, ← filter_id_eq_singleton hids hnode]
    simp only [hid]
  · match nodes with
    | [] => exact absurd rfl hnodes
    | [node] => exact ⟨node, mem_cons_self, if_neg hmany⟩
    | first :: second :: rest => exact absurd (by simp [weightedRandomFilter]) hmany

end Weighted

structure SlotConfig.Accepts (slot : SlotConfig) (node : Node) : Prop where
  ip : slot.ip ≠ [] → node.ip = slot.ip
  zone : slot.zone ≠ [] → node.zone = slot.zone
  group : slot.group ≠ [] → node.group = slot.group
  region : slot.region ≠ [] → node.region = slot.region

section Selection

variable (context : SelectionContext) (instanceMeta : InstanceMeta)

/-- The candidates with the given address, zone and group, and with resources left if these
are checked. -/
def placeable (nodes : List Node) : List Node :=
  nodes.filter fun node => (requirements context instanceMeta).all (·.admits node)

/-- The selection meets its purpose on these candidates: a node that it returns is the only
one left, a candidate, and as the slot asks, and without such a candidate it fails. -/
def SelectsAsAsked (nodes : List Node) : Prop :=
  (∀ left, loadBalancingNode context instanceMeta nodes = .ok left →
      ∃ node ∈ nodes, left = [node] ∧ instanceMeta.slotConfig.Accepts node) ∧
    ((∀ node ∈ nodes, ¬ instanceMeta.slotConfig.Accepts node) →
      ∃ errMsg, loadBalancingNode context instanceMeta nodes = .error errMsg)

variable {context instanceMeta}

theorem loadBalancingNode_eq_ok_iff :
    loadBalancingNode context instanceMeta nodes = .ok left ↔
      placeable context instanceMeta nodes ≠ [] ∧
        ∃ inRegion, (regionFilter context instanceMeta).apply
            (placeable context instanceMeta nodes) = .ok inRegion ∧
          (weightedRandomFilter context).apply inRegion = .ok left := by
  by_cases hnodes : nodes = []
  · simp [loadBalancingNode, placeable, hnodes]
  rw [loadBalancingNode, if_neg (by simpa using hnodes), loadBalancingFilters,
    foldlM_append, bind_eq_ok]
  simp only [foldlM_eq_ok_iff _ hnodes, foldlM_cons, foldlM_nil, bind_eq_ok]
  constructor
  · rintro ⟨kept, ⟨rfl, hne⟩, inRegion, hregion, last, hlast, ⟨⟩⟩
    exact ⟨hne, inRegion, hregion, hlast⟩
  · rintro ⟨hne, inRegion, hregion, hlast⟩
    exact ⟨_, ⟨rfl, hne⟩, inRegion, hregion, left, hlast, rfl⟩

theorem mem_placeable (hnode : node ∈ placeable context instanceMeta nodes) :
    node ∈ nodes ∧
      (instanceMeta.slotConfig.ip ≠ [] → node.ip = instanceMeta.slotConfig.ip) ∧
      (instanceMeta.slotConfig.zone ≠ [] → node.zone = instanceMeta.slotConfig.zone) ∧
      (instanceMeta.slotConfig.group ≠ [] → node.group = instanceMeta.slotConfig.group) := by
  obtain ⟨hmem, hall⟩ := mem_filter.mp hnode
  simp only [requirements, all_cons, all_nil, Bool.and_true, Bool.and_eq_true] at hall
  exact ⟨hmem, admits_field_iff.mp hall.1, admits_field_iff.mp hall.2.1,
    admits_field_iff.mp hall.2.2.1⟩

theorem accepts_of_placeable (hnode : node ∈ placeable context instanceMeta nodes)
    (hregion : instanceMeta.slotConfig.region ≠ [] → node.region = instanceMeta.slotConfig.region) :
    instanceMeta.slotConfig.Accepts node :=
  have ⟨_, hip, hzone, hgroup⟩ := mem_placeable hnode
  ⟨hip, hzone, hgroup, hregion⟩

/-- The selection returns the only placeable node whatever its region is. -/
theorem loadBalancingNode_single (hsingle : placeable context instanceMeta nodes = [node]) :
    loadBalancingNode context instanceMeta nodes = .ok [node] := by
  rw [loadBalancingNode_eq_ok_iff, hsingle]
  exact ⟨by simp, [node], by simp [Filter.apply, regionFilter],
    by simp [Filter.apply, weightedRandomFilter]⟩

/-- Of several placeable nodes the selection returns one in the given region. -/
theorem loadBalancingNode_many (hids : (nodes.map Node.id).Nodup)
    (hmany : 1 < (placeable context instanceMeta nodes).length)
    (hleft : loadBalancingNode context instanceMeta nodes = .ok left) :
    ∃ node ∈ nodes, left = [node] ∧ instanceMeta.slotConfig.Accepts node := by
  obtain ⟨-, inRegion, hregion, hlast⟩ := loadBalancingNode_eq_ok_iff.mp hleft
  obtain ⟨hsublist, hne, hinRegion⟩ := regionFilter_eq_ok hmany hregion
  have hidsRegion : (inRegion.map Node.id).Nodup :=
    hids.sublist ((hsublist.trans filter_sublist).map Node.id)
  obtain ⟨node, hnode, hchosen⟩ := weightedRandomFilter_eq context hidsRegion hne
  have hplaceable := hsublist.subset hnode
  rw [hchosen, Except.ok.injEq] at hlast
  exact ⟨node, (mem_placeable hplaceable).1, hlast.symm,
    accepts_of_placeable hplaceable fun hgiven => hinRegion hgiven node hnode⟩

variable (context instanceMeta)

/-- The selection is as asked exactly if the only node that is left before the regions are
compared, should there be just one, is in the given region: `RegionFilter` looks at two nodes
or more. -/
theorem selectsAsAsked_iff {nodes : List Node} (hids : (nodes.map Node.id).Nodup) :
    SelectsAsAsked context instanceMeta nodes ↔
      ∀ node, placeable context instanceMeta nodes = [node] →
        instanceMeta.slotConfig.region ≠ [] → node.region = instanceMeta.slotConfig.region := by
  constructor
  · rintro ⟨hselected, -⟩ node hsingle
    obtain ⟨other, -, hother, haccepts⟩ := hselected _ (loadBalancingNode_single hsingle)
    obtain rfl := singleton_inj.mp hother
    exact haccepts.region
  · intro hregion
    have hselected : ∀ left, loadBalancingNode context instanceMeta nodes = .ok left →
        ∃ node ∈ nodes, left = [node] ∧ instanceMeta.slotConfig.Accepts node := by
      intro left hleft
      have hne := (loadBalancingNode_eq_ok_iff.mp hleft).1
      cases hplaceable : placeable context instanceMeta nodes with
      | nil => exact absurd hplaceable hne
      | cons node rest =>
        have hnode : node ∈ placeable context instanceMeta nodes :=
          hplaceable ▸ mem_cons_self
        cases rest with
        | nil =>
          rw [loadBalancingNode_single hplaceable, Except.ok.injEq] at hleft
          exact ⟨node, (mem_placeable hnode).1, hleft.symm,
            accepts_of_placeable hnode (hregion node hplaceable)⟩
        | cons second others =>
          exact loadBalancingNode_many hids (by simp [hplaceable]) hleft
    refine ⟨hselected, fun hnone => ?_⟩
    cases hresult : loadBalancingNode context instanceMeta nodes with
    | error errMsg => exact ⟨errMsg, rfl⟩
    | ok left =>
      obtain ⟨node, hnode, -, haccepts⟩ := hselected left hresult
      exact absurd haccepts (hnone node hnode)

end Selection

def sampleNode (id region : Text) : Node where
  id := id
  ip := "10.0.0.1".toList
  region := region
  zone := "z1".toList
  group := "g1".toList
  metric := ⟨some (1 / 4), some (1 / 4), some (1 / 4), 131072, 32768, 1048576, 262144⟩

def sampleContext : SelectionContext :=
  ⟨true, 4 / 5, 17 / 20, 7 / 10, some [], fun _ _ => true⟩

def sampleMeta (region : Text) : InstanceMeta :=
  ⟨⟨[], "z1".toList, region, []⟩, "20G".toList, 53687091200⟩

theorem selectsAsAsked_iff_twoRegions :
    SelectsAsAsked sampleContext (sampleMeta "hangzhou".toList)
      [sampleNode "1".toList "hangzhou".toList, sampleNode "2".toList "beijing".toList] :=
  (selectsAsAsked_iff _ _ (by decide +kernel)).mpr fun node hsingle =>
    absurd (congrArg List.length hsingle)
      (by decide +kernel : ¬ List.length (placeable sampleContext (sampleMeta "hangzhou".toList)
        [sampleNode "1".toList "hangzhou".toList, sampleNode "2".toList "beijing".toList]) = 1)

/-- The only node is in another region than asked, and it is returned. -/
theorem single_node_ignores_region :
    loadBalancingNode sampleContext (sampleMeta "hangzhou".toList)
        [sampleNode "1".toList "beijing".toList] =
      .ok [sampleNode "1".toList "beijing".toList] ∧
    ¬ SelectsAsAsked sampleContext (sampleMeta "hangzhou".toList)
      [sampleNode "1".toList "beijing".toList] := by
  have hselected : loadBalancingNode sampleContext (sampleMeta "hangzhou".toList)
      [sampleNode "1".toList "beijing".toList] = .ok [sampleNode "1".toList "beijing".toList] :=
    loadBalancingNode_single (by decide +kernel)
  refine ⟨hselected, fun hasAsked => ?_⟩
  obtain ⟨node, -, hnode, haccepts⟩ := hasAsked.1 _ hselected
  obtain rfl := singleton_inj.mp hnode
  exact absurd (haccepts.region (by decide +kernel)) (by decide +kernel)

/-- What is read of a node; the ratios are those in use. -/
structure NodeLoad where
  id : Text
  cpuUsedRatio : ℚ
  memUsedRatio : ℚ
  diskUsedRatio : ℚ
  networkRxBytes : ℕ
  networkWxBytes : ℕ

def NodeLoad.netKb (node : NodeLoad) : ℚ :=
  (node.networkRxBytes + node.networkWxBytes) / 1024

def totalNetKb (nodes : List NodeLoad) : ℚ :=
  (nodes.map NodeLoad.netKb).sum

/-- `std::vector<float>(4)`, and the configured numbers behind it. -/
def cpuMemDiskNetWeighted (configured : Text) : List ℚ :=
  List.replicate 4 0 ++ (split configured ':').map fun weight => (atoi weight : ℚ)

def NodeLoad.weight (node : NodeLoad) (totalNetKb cpu mem disk net : ℚ) : ℚ :=
  cpu * (1 - node.cpuUsedRatio) + mem * (1 - node.memUsedRatio) +
    disk * (1 - node.diskUsedRatio) + net * (1 - node.netKb / totalNetKb)

/-- `weighted_nodes` for nodes with distinct ids: the map in its order, and the sum. -/
def weightedNodes (configured : Text) (nodes : List NodeLoad) : List (Text × ℚ) × ℚ :=
  let weighted := cpuMemDiskNetWeighted configured
  let mapping := (nodes.mergeSort fun left right => left.id ≤ right.id).map fun node =>
    (node.id, node.weight (totalNetKb nodes) (weighted.getD 0 0) (weighted.getD 1 0)
      (weighted.getD 2 0) (weighted.getD 3 0))
  (mapping, (mapping.map Prod.snd).sum)

def selectedNode : ℚ → List (Text × ℚ) → Option Text
  | _, [] => none
  | random, (id, weight) :: mapping =>
    if random - weight ≤ 0 then some id else selectedNode (random - weight) mapping

def selectWeighted (mapping : List (Text × ℚ)) (random : ℚ) : Text :=
  let nodeId := (selectedNode random mapping).getD []
  if nodeId = [] then (mapping.map Prod.fst).headD [] else nodeId

/-- The loop stops at the node in whose interval the number is. -/
theorem selectedNode_interval {mapping : List (Text × ℚ)} {random : ℚ} (hlow : 0 ≤ random)
    (hhigh : random < (mapping.map Prod.snd).sum) :
    ∃ front id weight back, mapping = front ++ (id, weight) :: back ∧
      selectedNode random mapping = some id ∧ (front.map Prod.snd).sum ≤ random ∧
      random ≤ (front.map Prod.snd).sum + weight := by
  induction mapping generalizing random with
  | nil => exact absurd hhigh hlow.not_gt
  | cons entry mapping ih =>
    rw [selectedNode]
    split_ifs with hstops
    · exact ⟨[], entry.1, entry.2, mapping, rfl, rfl, hlow, by simpa using hstops⟩
    · rw [List.map_cons, List.sum_cons] at hhigh
      obtain ⟨front, id, weight, back, rfl, hselected, hfrom, hto⟩ :=
        @ih (random - entry.2) (not_le.mp hstops).le (by linarith)
      refine ⟨entry :: front, id, weight, back, rfl, hselected, ?_, ?_⟩ <;>
        rw [List.map_cons, List.sum_cons] <;> linarith

def weightsText (cpu mem disk net : ℕ) : Text :=
  Nat.toDigits 10 cpu ++ ':' :: (Nat.toDigits 10 mem ++ ':' :: (Nat.toDigits 10 disk ++
    ':' :: Nat.toDigits 10 net))

/-- Nodes get the weights that are configured, and a number selects the node in whose interval
it is. -/
def BalancesAsConfigured (cpu mem disk net : ℕ) (nodes : List NodeLoad) : Prop :=
  (∀ node ∈ nodes, (node.id, node.weight (totalNetKb nodes) cpu mem disk net) ∈
      (weightedNodes (weightsText cpu mem disk net) nodes).1) ∧
    (weightedNodes (weightsText cpu mem disk net) nodes).2 =
      (nodes.map fun node => node.weight (totalNetKb nodes) cpu mem disk net).sum ∧
    ∀ (mapping : List (Text × ℚ)) (random : ℚ), (∀ entry ∈ mapping, entry.1 ≠ []) →
      0 ≤ random → random < (mapping.map Prod.snd).sum →
      ∃ front weight back,
        mapping = front ++ (selectWeighted mapping random, weight) :: back ∧
          (front.map Prod.snd).sum ≤ random ∧ random ≤ (front.map Prod.snd).sum + weight

theorem weightedNodes_eq (configured : Text) (nodes : List NodeLoad) :
    weightedNodes configured nodes =
      ((nodes.mergeSort fun left right => left.id ≤ right.id).map fun node => (node.id, 0), 0) := by
  simp [weightedNodes, cpuMemDiskNetWeighted, NodeLoad.weight, Function.comp_def]

/-- All weights that are used are zero, so those that are configured must come to nothing. -/
theorem balancesAsConfigured_iff (cpu mem disk net : ℕ) (nodes : List NodeLoad) :
    BalancesAsConfigured cpu mem disk net nodes ↔
      ∀ node ∈ nodes, node.weight (totalNetKb nodes) cpu mem disk net = 0 := by
  rw [BalancesAsConfigured, weightedNodes_eq]
  constructor
  · rintro ⟨hweights, -⟩ node hnode
    obtain ⟨other, -, heq⟩ := List.mem_map.mp (hweights node hnode)
    exact (congrArg Prod.snd heq).symm
  · intro hzero
    refine ⟨fun node hnode => ?_, ?_, fun mapping random hids hlow hhigh => ?_⟩
    · rw [hzero node hnode]
      exact List.mem_map.mpr ⟨node, List.mem_mergeSort.mpr hnode, rfl⟩
    · rw [List.map_congr_left hzero]
      simp
    · obtain ⟨front, id, weight, back, hsplit, hselected, hfrom, hto⟩ :=
        selectedNode_interval hlow hhigh
      have hid : id ≠ [] := hids (id, weight) (by simp [hsplit])
      have hselect : selectWeighted mapping random = id := by
        rw [selectWeighted, hselected, Option.getD_some, if_neg hid]
      exact ⟨front, weight, back, hselect ▸ hsplit, hfrom, hto⟩

/-- An idle node should have the weight of its processor. -/
theorem not_balancesAsConfigured_idle :
    ¬BalancesAsConfigured 1 0 0 0 [⟨['a'], 0, 0, 0, 1024, 0⟩] := by
  intro hbalances
  have hweight := hbalances.2.1
  rw [weightedNodes_eq] at hweight
  norm_num [NodeLoad.weight] at hweight

inductive NodeState
  | online : NodeState
  | suspect : NodeState
  | offline : NodeState
  | paused : NodeState
  | grayscale : NodeState
  | undefined : NodeState
deriving DecidableEq

/-- A row of `nodes`; `Info` is what else it has. -/
structure NodeRow (Info : Type) where
  id : Text
  state : NodeState
  lastModify : ℕ
  info : Info

/-- `get_node_info`: the local node as it was set up at the start. -/
structure LocalNode (Info : Type) extends NodeRow Info where
  named : id ≠ []

variable {Info : Type}

/-- `NodeDAO::query_node` by an id, which is no condition if it is empty; it fails unless it has
a row. -/
def queryNode (table : List (NodeRow Info)) (id : Text) : Option (NodeRow Info) :=
  table.find? fun row => id = [] ∨ row.id = id

/-- `NodeDAO::update_node`; a state that is not defined is not written, nor a time of zero. -/
def updateNode (table : List (NodeRow Info)) (node : NodeRow Info) : List (NodeRow Info) :=
  table.map fun row =>
    if node.id = [] ∨ row.id = node.id then
      { node with
        state := if node.state = .undefined then row.state else node.state
        lastModify := if node.lastModify = 0 then row.lastModify else node.lastModify }
    else row

namespace LocalNode

/-- `node_report` of a row that was found, with the metric of now. -/
def reportFound (now : ℕ) (metric : Info → Info) (table : List (NodeRow Info))
    (node : NodeRow Info) : List (NodeRow Info) :=
  let state := if node.state ≠ .grayscale ∧ node.state ≠ .paused then .online else .undefined
  updateNode table { node with state, lastModify := now, info := metric node.info }

/-- `node_report`, which does nothing more if the query fails. -/
def nodeReport (own : LocalNode Info) (table : List (NodeRow Info))
    (report : ℕ × (Info → Info)) : List (NodeRow Info) :=
  match queryNode table own.id with
  | none => table
  | some node =>
    if node.state = .undefined then table ++ [own.toNodeRow]
    else reportFound report.1 report.2 table node

/-- A first report inserts the node, and after every further one it has one row, with the time
of the last report. -/
def RegistersAgain (own : LocalNode Info) (table : List (NodeRow Info)) : Prop :=
  ∀ first later, (∃ row ∈ own.nodeReport table first, row.id = own.id) ∧
    ∃ row, ((first :: later).foldl own.nodeReport table).filter (·.id = own.id) = [row] ∧
      (first :: later).getLast?.map Prod.fst = some row.lastModify

structure Vanished (own : LocalNode Info) where
  table : List (NodeRow Info)
  gone : ∀ row ∈ table, row.id ≠ own.id

variable {own : LocalNode Info}

theorem Vanished.nodeReport (vanished : Vanished own) (report : ℕ × (Info → Info)) :
    own.nodeReport vanished.table report = vanished.table := by
  have hnone : queryNode vanished.table own.id = none := by
    rw [queryNode, find?_eq_none]
    intro row hrow
    simpa [own.named] using vanished.gone row hrow
  rw [LocalNode.nodeReport, hnone]

end LocalNode

open Option

variable {Node : Type}

abbrev IdSet := { ids : List Text // ids.Pairwise (· < ·) }

/-- The rows that `id IN (…)` selects, for the text between the brackets; nothing if it is no
list of values. -/
structure NodeServer where
  selected : Text → Option (Text → Bool)
  selected_plain : ∀ id : Text, '\'' ∉ id → '\\' ∉ id →
    selected ('\'' :: (id ++ ['\''])) = some fun row => decide (row = id)

/-- The last comma is taken off, of an empty text nothing can be. -/
def nodeIdsStr (nodeIds : IdSet) : Option Text :=
  let str : Text := nodeIds.val.foldl (fun _ id => '\'' :: (id ++ ['\'', ','])) []
  if str = [] then none else some str.dropLast

/-- The nodes that are read, of a table with a row for each id. -/
def queryNodes (server : NodeServer) (table : Text → Option Node) (nodeIds : IdSet) :
    Option (Text → Option Node) := do
  let selected ← server.selected (← nodeIdsStr nodeIds)
  return fun id => if selected id then table id else none

/-- Only the greatest id is in the statement. -/
theorem nodeIdsStr_eq (nodeIds : IdSet) :
    nodeIdsStr nodeIds =
      nodeIds.val.getLast?.map fun id => '\'' :: (id ++ ['\'']) := by
  rw [nodeIdsStr]
  induction nodeIds.val using List.reverseRecOn with
  | nil => rfl
  | append_singleton ids id => simp [List.dropLast_cons_of_ne_nil, List.dropLast_append_of_ne_nil]

def ReturnsRequested (server : NodeServer) (table : Text → Option Node) (nodeIds : IdSet) :
    Prop :=
  queryNodes server table nodeIds = some fun id => if id ∈ nodeIds.val then table id else none

/-- What the greatest id selects must be all that was requested. -/
theorem returnsRequested_iff (server : NodeServer) (table : Text → Option Node) (nodeIds : IdSet) :
    ReturnsRequested server table nodeIds ↔
      ∃ greatest ∈ nodeIds.val.getLast?,
        ∃ selected ∈ server.selected ('\'' :: (greatest ++ ['\''])),
          ∀ id, (table id).isSome → (selected id ↔ id ∈ nodeIds.val) := by
  rw [ReturnsRequested, queryNodes, nodeIdsStr_eq]
  cases nodeIds.val.getLast? with
  | none => simp
  | some greatest =>
    cases hselected : server.selected ('\'' :: (greatest ++ ['\''])) with
    | none => simp [hselected]
    | some selected =>
      simp only [map_some, bind_eq_bind, bind_some, hselected,
        Option.pure_def, some.injEq, mem_def, exists_eq_left']
      rw [funext_iff]
      refine forall_congr' fun id => ?_
      cases table id <;> by_cases hmem : id ∈ nodeIds.val <;> simp [hmem]

def sampleServer : NodeServer where
  selected str := some fun row => '\'' :: (row ++ ['\'']) = str
  selected_plain id _ _ := by simp

/-- Of two nodes that the table has the second one is returned alone. -/
theorem not_returnsRequested_two :
    ¬ReturnsRequested sampleServer
      (fun id => if id = ['a'] ∨ id = ['b'] then some () else none) ⟨[['a'], ['b']], by decide⟩ := by
  intro hreturns
  have hfirst := congrArg (Option.map fun nodes => nodes ['a']) hreturns
  revert hfirst
  decide +kernel

end OblogProxy.Cluster
