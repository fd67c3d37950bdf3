import OblogProxy.Recovery.GtidManager

/-!
# The table of GTID checkpoints

The manager of a cluster keeps the checkpoints of all instances in the table
`instances_gtid_seq`.  When it probes an instance it adds the checkpoints that the instance
reports, and removes those that the instance has purged.

The instances of a tenant must give a transaction the same GTID.  `check_consistency` compares
each checkpoint with the first one of its tenant and GTID.  It knows a tenant by the name of
the cluster and its own one, joined with a dot.
-/

namespace OblogProxy.Cluster

open BatchDelete Gtid Recovery

/-- What a checkpoint takes from the instance it belongs to. -/
structure InstanceKey where
  cluster : Text
  tenant : Text
  instanceName : Text
deriving DecidableEq

structure InstanceGtidSeq extends GtidSeq where
  key : InstanceKey
deriving DecidableEq

abbrev GtidSeqTable : Type := List InstanceGtidSeq

/-- One piece of `deserialize_gtid_seq_str`; a piece that does not have four fields is
skipped. -/
def deserializePiece (key : InstanceKey) (piece : Text) : Option InstanceGtidSeq :=
  match split piece '#' with
  | [commitVersion, xid, gtid, trxs] =>
    some ⟨⟨toUint64 (atoll commitVersion), xid, toUint64 (atoll gtid), toUint64 (atoll trxs)⟩, key⟩
  | _ => none

def deserializeGtidSeqStr (key : InstanceKey) (gtidSeqStr : Text) : List InstanceGtidSeq :=
  (split gtidSeqStr '|').filterMap (deserializePiece key)

namespace GtidSeqTable

variable (table : GtidSeqTable)

def ofInstance (instanceName : Text) : List GtidSeq :=
  (table.filter fun row => row.key.instanceName = instanceName).map InstanceGtidSeq.toGtidSeq

/-- `get_instance_boundary_gtid_seq`: the rows with the least and the greatest commit
version, new objects if there is none. -/
def getInstanceBoundaryGtidSeq (instanceName : Text) : GtidSeq × GtidSeq :=
  let rows := table.ofInstance instanceName
  ((rows.argmin GtidSeq.commitVersionStart).getD GtidSeq.empty,
    (rows.argmax GtidSeq.commitVersionStart).getD GtidSeq.empty)

def addGtidSeqBatch (gtidSeqs : List InstanceGtidSeq) : GtidSeqTable :=
  table ++ gtidSeqs

section Remove

variable (maxDeleteRows : ℕ) (instanceName : Text)

def removeInstanceGtidSeqBeforeGtid (gtid : ℕ) : GtidSeqTable :=
  deleteAll (fun row => row.key.instanceName = instanceName ∧ row.gtidStart ≤ gtid)
    maxDeleteRows table

def removeInstanceGtidSeqBeforeCheckpoint (checkpoint : ℕ) : GtidSeqTable :=
  deleteAll (fun row => row.key.instanceName = instanceName ∧
    row.commitVersionStart < checkpoint ∧ row.xidStart = []) maxDeleteRows table

end Remove

section Update

variable (maxDeleteRows : ℕ) (key : InstanceKey) (heartbeat : ℕ) (boundary : GtidSeq × GtidSeq)
  (lastPurgedGtid lastPurgedCheckpoint : ℕ) (incrGtidSeqStr : Text)

/-- The first part of `update_instance_gtid_seq`.  The report is not expected to have no
piece that can be read. -/
def addIncrGtidSeqs : GtidSeqTable :=
  if incrGtidSeqStr = [] then table
  else
    match deserializeGtidSeqStr key incrGtidSeqStr with
    | [] => table
    | first :: gtidSeqs =>
      if boundary.2.commitVersionStart < first.commitVersionStart then
        table.addGtidSeqBatch (first :: gtidSeqs)
      else table

def removePurgedGtids : GtidSeqTable :=
  if boundary.1.gtidStart < lastPurgedGtid then
    table.removeInstanceGtidSeqBeforeGtid maxDeleteRows key.instanceName lastPurgedGtid
  else table

/-- Checkpoints are purged in the first seconds of every ten minutes. -/
def removePurgedCheckpoints : GtidSeqTable :=
  if boundary.1.commitVersionStart < lastPurgedCheckpoint ∧ heartbeat % 600 < 5 then
    table.removeInstanceGtidSeqBeforeCheckpoint maxDeleteRows key.instanceName lastPurgedCheckpoint
  else table

def updateInstanceGtidSeq : GtidSeqTable :=
  ((table.addIncrGtidSeqs key boundary incrGtidSeqStr).removePurgedGtids maxDeleteRows key boundary
    lastPurgedGtid).removePurgedCheckpoints maxDeleteRows key heartbeat boundary
      lastPurgedCheckpoint

end Update

end GtidSeqTable

/-- The result and what the loop collects: the checkpoints that were the first ones, the
instances of the tenants, and the tenants that do not pass. -/
structure Inspection where
  passed : Bool := true
  gtidCheckpoints : List InstanceGtidSeq := []
  tenantInstances : List (Text × Text) := []
  inconsistentTenants : List Text := []

def joinedTenant (entry : InstanceGtidSeq) : Text :=
  entry.key.cluster ++ '.' :: entry.key.tenant

/-- The place of a checkpoint in the nested maps. -/
def slot (entry : InstanceGtidSeq) : Text × ℕ :=
  (joinedTenant entry, entry.gtidStart)

/-- `strcmp` finds no difference. -/
def SameXid (left right : InstanceGtidSeq) : Prop :=
  cStr left.xidStart = cStr right.xidStart

instance (left right : InstanceGtidSeq) : Decidable (SameXid left right) :=
  inferInstanceAs (Decidable (_ = _))

def Inspection.visit (inspection : Inspection) (entry : InstanceGtidSeq) : Inspection :=
  let inspection := { inspection with
    tenantInstances := (joinedTenant entry, entry.key.instanceName) :: inspection.tenantInstances }
  match inspection.gtidCheckpoints.find? (slot · = slot entry) with
  | none => { inspection with gtidCheckpoints := entry :: inspection.gtidCheckpoints }
  | some base =>
    if SameXid base entry then inspection
    else { inspection with
      passed := false
      inconsistentTenants := joinedTenant entry :: inspection.inconsistentTenants }

def checkConsistency (entries : List InstanceGtidSeq) : Bool :=
  (entries.foldl Inspection.visit {}).passed

def Agrees (entries : List InstanceGtidSeq) : Prop :=
  ∀ left ∈ entries, ∀ right ∈ entries, slot left = slot right → SameXid left right

theorem agrees_concat {entries : List InstanceGtidSeq} {entry : InstanceGtidSeq} :
    Agrees (entries ++ [entry]) ↔
      Agrees entries ∧ ∀ other ∈ entries, slot other = slot entry → SameXid other entry := by
  simp only [Agrees, SameXid]
  grind

/-- The first checkpoint of a place stands for all others. -/
theorem foldl_visit_agrees (entries : List InstanceGtidSeq) :
    let inspection := entries.foldl Inspection.visit {}
    (∀ base ∈ inspection.gtidCheckpoints, base ∈ entries) ∧
      (∀ entry ∈ entries, ∃ base ∈ inspection.gtidCheckpoints, slot base = slot entry) ∧
      (inspection.passed ↔ Agrees entries) := by
  induction entries using List.reverseRecOn with
  | nil => simp [Agrees]
  | append_singleton entries entry ih =>
    obtain ⟨hbases, hcovered, hpassed⟩ := ih
    rw [List.foldl_concat]
    simp only [Inspection.visit]
    split
    case h_1 hnone =>
      have hnew : ∀ other ∈ entries, slot other ≠ slot entry := by
        intro other hother hslot
        obtain ⟨base, hbase, heq⟩ := hcovered other hother
        exact List.find?_eq_none.mp hnone base hbase (decide_eq_true (heq.trans hslot))
      have hagrees : Agrees (entries ++ [entry]) ↔ Agrees entries := by
        rw [agrees_concat, and_iff_left]
        exact fun other hother hslot => absurd hslot (hnew other hother)
      grind
    case h_2 base hsome =>
      have hbase := List.mem_of_find?_eq_some hsome
      have hslot : slot base = slot entry := by simpa using List.find?_some hsome
      split_ifs with hsame
      · have hagrees : Agrees (entries ++ [entry]) ↔ Agrees entries := by
          rw [agrees_concat, and_iff_left_iff_imp]
          intro hentries other hother hplace
          exact (hentries other hother base (hbases base hbase) (hplace.trans hslot.symm)).trans hsame
        grind
      · have hagrees : ¬Agrees (entries ++ [entry]) := by
          rw [agrees_concat]
          exact fun hboth => hsame (hboth.2 base (hbases base hbase) hslot)
        grind

theorem checkConsistency_iff (entries : List InstanceGtidSeq) :
    checkConsistency entries ↔ Agrees entries :=
  (foldl_visit_agrees entries).2.2

/-- Two checkpoints of one tenant give one GTID to two transactions. -/
def Conflict (left right : InstanceGtidSeq) : Prop :=
  left.key.cluster = right.key.cluster ∧ left.key.tenant = right.key.tenant ∧
    left.gtidStart = right.gtidStart ∧ left.xidStart ≠ right.xidStart

/-- The inspector finds the conflicts and nothing else, in whatever order it reads. -/
def DetectsExactly (entries : List InstanceGtidSeq) : Prop :=
  (checkConsistency entries ↔ ¬∃ left ∈ entries, ∃ right ∈ entries, Conflict left right) ∧
    ∀ reordered, entries.Perm reordered → checkConsistency reordered = checkConsistency entries

/-- The order is of no importance.  Names that are equal when they are joined and transactions
that `strcmp` takes for the same must not hide a conflict nor make one. -/
theorem detectsExactly_iff (entries : List InstanceGtidSeq) :
    DetectsExactly entries ↔
      ((∃ left ∈ entries, ∃ right ∈ entries,
          joinedTenant left = joinedTenant right ∧ left.gtidStart = right.gtidStart ∧
            ¬SameXid left right) ↔
        ∃ left ∈ entries, ∃ right ∈ entries, Conflict left right) := by
  have hperm : ∀ reordered, entries.Perm reordered →
      checkConsistency reordered = checkConsistency entries := by
    intro reordered hperm
    rw [Bool.eq_iff_iff, checkConsistency_iff, checkConsistency_iff]
    simp only [Agrees, hperm.mem_iff]
  have hagrees : Agrees entries ↔ ¬∃ left ∈ entries, ∃ right ∈ entries,
      joinedTenant left = joinedTenant right ∧ left.gtidStart = right.gtidStart ∧
        ¬SameXid left right := by
    simp [Agrees, slot]
  rw [DetectsExactly, and_iff_left hperm, checkConsistency_iff, hagrees, not_iff_not]

def sampleInspected (cluster tenant xid : String) : InstanceGtidSeq where
  commitVersionStart := 0
  xidStart := xid.toList
  gtidStart := 1
  trxsNum := 1
  key := ⟨cluster.toList, tenant.toList, []⟩

/-- The tenant `c` of the cluster `a.b` is taken for the tenant `b.c` of the cluster `a`. -/
theorem not_detectsExactly_joined :
    ¬DetectsExactly [sampleInspected "a.b" "c" "x", sampleInspected "a" "b.c" "y"] := by
  rintro ⟨hdetects, -⟩
  revert hdetects
  simp only [Conflict]
  decide +kernel

end OblogProxy.Cluster
