import OblogProxy.Gtid.GtidSetText

/-!
# What deserialization stores

`deserialization` merges each part with itself and puts a repeated uuid's new
ranges in front of the old ones before it merges again.  The merge walks its
input once and never sorts it, so the ranges stored for a uuid are always in
canonical form but need not cover everything that was written.  This module
determines exactly which numbers survive.
-/

namespace OblogProxy.Gtid

open BinlogFunction Intervals SortedMap List

def storedRanges (map : GtidMap) (uuid : List UInt8) : List TxnRange :=
  match map.find (dumphex uuid) with
  | some message => message.txnRange
  | none => []

/-- Among the lists written for one uuid, the last one with a range that ends at
or above `number` has `number` in the first such range. -/
def KeptByLast (parts : List (List TxnRange)) (number : ℕ) : Prop :=
  ∃ part, parts.reverse.find? (fun part => decide (Reaches part number)) = some part ∧
    Keeps part number

@[simp]
theorem keptByLast_nil (number : ℕ) : ¬KeptByLast [] number := by
  simp [KeptByLast]

theorem keptByLast_append_singleton (parts : List (List TxnRange)) (part : List TxnRange)
    (number : ℕ) :
    KeptByLast (parts ++ [part]) number ↔
      if Reaches part number then Keeps part number else KeptByLast parts number := by
  by_cases hreach : Reaches part number
  · simp [KeptByLast, hreach]
  · simp [KeptByLast, hreach]

theorem KeptByLast.mem_members {parts : List (List TxnRange)} {number : ℕ}
    (hkept : KeptByLast parts number) : number ∈ members parts.flatten := by
  obtain ⟨part, hfind, hkeeps⟩ := hkept
  obtain ⟨range, hrange, hmem⟩ := hkeeps.mem_members
  have hpart : part ∈ parts := mem_reverse.mp (mem_of_find?_eq_some hfind)
  exact ⟨range, mem_flatten.mpr ⟨part, hpart, hrange⟩, hmem⟩

/-- The lists of ranges a well-formed text can write, with numbers below the
bound. -/
structure ValidRanges (bound : ℕ) (ranges : List TxnRange) : Prop where
  proper : Proper ranges
  bounded : ∀ range ∈ ranges, 0 < range.1 ∧ range.2 < bound

variable {text : Text}

section Represents

variable {bound : ℕ}

variable {ranges : List TxnRange}

theorem ValidRanges.inRange (hlong : bound ≤ 2 ^ 63) (hvalid : ValidRanges bound ranges) :
    InRange ranges := fun range hrange => by
  obtain ⟨hfirst, hlast⟩ := hvalid.bounded range hrange
  omega

theorem ValidRanges.append {left right : List TxnRange} (hleft : ValidRanges bound left)
    (hright : ValidRanges bound right) : ValidRanges bound (left ++ right) :=
  ⟨forall_mem_append.mpr ⟨hleft.proper, hright.proper⟩,
    forall_mem_append.mpr ⟨hleft.bounded, hright.bounded⟩⟩

theorem ValidRanges.mergeAll (hvalid : ValidRanges bound ranges) :
    ValidRanges bound (mergeAll ranges) :=
  ⟨(canonical_mergeAll hvalid.proper).proper,
    forall_mem_mergeAll (P := fun first => 0 < first) (Q := fun last => last < bound)
      hvalid.bounded⟩

/-- `stored` is what merging `parts` one after the other leaves. -/
structure Represents (bound : ℕ) (parts : List (List TxnRange)) (stored : List TxnRange) : Prop where
  valid : ValidRanges bound stored
  canonical : Canonical stored
  reaches_iff : ∀ number, Reaches stored number ↔ ∃ part ∈ parts, Reaches part number
  mem_iff : ∀ number, number ∈ members stored ↔ KeptByLast parts number

theorem represents_nil : Represents bound [] [] where
  valid := ⟨forall_mem_nil _, forall_mem_nil _⟩
  canonical := ⟨forall_mem_nil _, List.Pairwise.nil⟩
  reaches_iff := by simp
  mem_iff := by simp

theorem keeps_mergeAll_self {part : List TxnRange} (hpart : ValidRanges bound part) (number : ℕ) :
    Keeps (mergeAll (part ++ part)) number ↔ Keeps part number := by
  have hproper := (hpart.append hpart).proper
  rw [(canonical_mergeAll hproper).increasing.keeps_iff, mem_members_mergeAll hproper, keeps_append, ite_self]

theorem reaches_mergeAll_self (part : List TxnRange) (number : ℕ) :
    Reaches (mergeAll (part ++ part)) number ↔ Reaches part number := by
  rw [reaches_mergeAll, reaches_append, or_self]

theorem Represents.merge {parts : List (List TxnRange)} {stored part : List TxnRange}
    (hstored : Represents bound parts stored) (hpart : ValidRanges bound part) :
    Represents bound (parts ++ [part]) (mergeAll (mergeAll (part ++ part) ++ stored)) := by
  have hvalid := (hpart.append hpart).mergeAll.append hstored.valid
  refine ⟨hvalid.mergeAll, canonical_mergeAll hvalid.proper, fun number => ?_, fun number => ?_⟩
  · rw [reaches_mergeAll, reaches_append, reaches_mergeAll_self, hstored.reaches_iff]
    simp [or_and_right, exists_or, or_comm]
  · rw [mem_members_mergeAll hvalid.proper, keeps_append, keptByLast_append_singleton]
    simp only [reaches_mergeAll_self, keeps_mergeAll_self hpart, hstored.canonical.increasing.keeps_iff,
      hstored.mem_iff]

/-- The first part for a uuid is stored without a second merge. -/
theorem represents_singleton {part : List TxnRange} (hpart : ValidRanges bound part) :
    Represents bound [part] (mergeAll (part ++ part)) := by
  have hvalid := hpart.append hpart
  have hcanonical := canonical_mergeAll hvalid.proper
  refine ⟨hvalid.mergeAll, hcanonical, fun number => ?_, fun number => ?_⟩
  · simp [reaches_mergeAll_self]
  · rw [← hcanonical.increasing.keeps_iff, keeps_mergeAll_self hpart, ← nil_append [part],
      keptByLast_append_singleton]
    split_ifs with hreach
    · exact Iff.rfl
    · simp only [keptByLast_nil, iff_false]
      exact fun hkeeps => hreach (reaches_of_mem_members hkeeps.mem_members)

variable {part : Text}

theorem ValidPartBelow.uuid_length (hvalid : ValidPartBelow bound part) :
    (readPart part).1.length = serverUuidLen := by
  obtain ⟨uuid, hhead, huuid, _⟩ := hvalid
  rw [readPart, ← cons_head?_tail hhead]
  exact (uuidStrToHexBin_eq huuid).2

theorem ValidPartBelow.validRanges (hvalid : ValidPartBelow bound part) :
    ValidRanges bound (readPart part).2 := by
  obtain ⟨uuid, hhead, _, _, hintervals⟩ := hvalid
  rw [readPart, ← cons_head?_tail hhead]
  constructor
  · exact forall_mem_map.mpr fun interval hinterval => (hintervals interval hinterval).2.2.2.1
  · refine forall_mem_map.mpr fun interval hinterval => ?_
    obtain ⟨_, _, hpositive, _, hbound⟩ := hintervals interval hinterval
    exact ⟨hpositive, hbound⟩

theorem ValidPartBelow.ranges_ne_nil (hvalid : ValidPartBelow bound part) :
    (readPart part).2 ≠ [] := by
  obtain ⟨uuid, hhead, _, htail, _⟩ := hvalid
  rw [readPart, ← cons_head?_tail hhead]
  simpa only [ne_eq, map_eq_nil_iff] using htail

def rangesFor (uuid : List UInt8) (parts : List (List UInt8 × List TxnRange)) :
    List (List TxnRange) :=
  (parts.filter fun part => part.1 = uuid).map Prod.snd

/-- The map holds, for every uuid, what merging its parts leaves. -/
structure MapRepresents (bound : ℕ) (parts : List (List UInt8 × List TxnRange)) (map : GtidMap) : Prop where
  represents : ∀ uuid, Represents bound (rangesFor uuid parts) (storedRanges map uuid)
  absent : ∀ uuid, map.find (dumphex uuid) = none → rangesFor uuid parts = []
  keyed : ∀ key message, map.find key = some message →
    ∃ uuid, uuid.length = serverUuidLen ∧ key = dumphex uuid ∧
      message.gtidUuid = some uuid ∧ message.txnRange ≠ []

theorem mapRepresents_empty : MapRepresents bound [] empty where
  represents := fun _ => represents_nil
  absent := fun _ _ => rfl
  keyed := by simp

theorem rangesFor_append_of_ne (parts : List (List UInt8 × List TxnRange))
    {part : List UInt8 × List TxnRange} {uuid : List UInt8} (hne : part.1 ≠ uuid) :
    rangesFor uuid (parts ++ [part]) = rangesFor uuid parts := by
  simp [rangesFor, hne]

theorem mergeAll_ne_nil (hne : ranges ≠ []) : mergeAll ranges ≠ [] := by
  intro hnil
  have hreaches : Reaches (mergeAll ranges) 0 := by
    obtain ⟨range, hrange⟩ := exists_mem_of_ne_nil ranges hne
    exact (reaches_mergeAll ranges 0).mpr ⟨range, hrange, Nat.zero_le _⟩
  rw [hnil] at hreaches
  exact reaches_nil 0 hreaches

section Represents

variable {parts : List (List UInt8 × List TxnRange)} {map : GtidMap}
  (hmap : MapRepresents bound parts map)

include hmap

/-- Inserting, under the part's own key, a message that stands for the part and
everything stored before it. -/
theorem MapRepresents.insert {part : List UInt8 × List TxnRange} {message : GtidMessage}
    (huuid : message.gtidUuid = some part.1) (hlength : part.1.length = serverUuidLen)
    (hne : message.txnRange ≠ [])
    (hmessage : Represents bound (rangesFor part.1 parts ++ [part.2]) message.txnRange) :
    MapRepresents bound (parts ++ [part]) (map.insert (dumphex part.1) message) where
  represents := by
    intro uuid
    by_cases hsame : part.1 = uuid
    · subst hsame
      rw [storedRanges, find_insert, if_pos rfl]
      simpa [rangesFor] using hmessage
    · rw [rangesFor_append_of_ne parts hsame, storedRanges, find_insert,
        if_neg fun heq => hsame (dumphex_injective heq).symm]
      exact hmap.represents uuid
  absent := by
    intro uuid hnone
    rw [find_insert] at hnone
    split_ifs at hnone with hkey
    rw [rangesFor_append_of_ne parts fun heq => hkey (heq ▸ rfl)]
    exact hmap.absent uuid hnone
  keyed := by
    intro key found hfound
    rw [find_insert] at hfound
    split_ifs at hfound with hkey
    · obtain rfl := Option.some.inj hfound
      exact ⟨part.1, hlength, hkey, huuid, hne⟩
    · exact hmap.keyed key found hfound

theorem storeSet_represents (hlong : bound ≤ 2 ^ 63) (hpart : ValidPartBelow bound part) :
    ∃ stored, storeSet map part = some stored ∧
      MapRepresents bound (parts ++ [readPart part]) stored := by
  have hkey : (readPart part).1.take serverUuidLen = (readPart part).1 :=
    take_of_length_le hpart.uuid_length.le
  have hself : mergeAll ((readPart part).2 ++ (readPart part).2) ≠ [] :=
    mergeAll_ne_nil (by simp [hpart.ranges_ne_nil])
  have hstored := hmap.represents (readPart part).1
  have hnew : ({} : GtidMessage).txnRange = [] := rfl
  simp only [storeSet, deserializeGtidSet_eq hlong hnew hpart,
    GtidMessage.getGtidUuidStr, Option.map_some, hkey, Option.pure_def, Option.bind_eq_bind, Option.bind_some]
  cases hfind : map.find (dumphex (readPart part).1) with
  | none =>
    refine ⟨_, rfl, hmap.insert rfl hpart.uuid_length hself ?_⟩
    rw [hmap.absent _ hfind]
    exact represents_singleton hpart.validRanges
  | some target =>
    obtain ⟨uuid, -, hdump, huuid, -⟩ := hmap.keyed _ _ hfind
    rw [← dumphex_injective hdump] at huuid
    rw [storedRanges, hfind] at hstored
    have hvalid := (hpart.validRanges.append hpart.validRanges).mergeAll.append hstored.valid
    refine ⟨_, rfl, hmap.insert huuid hpart.uuid_length ?_ ?_⟩
    · rw [mergeTxnRange, mergeLoop_eq_mergeAll (hvalid.inRange hlong)]
      exact mergeAll_ne_nil (by simp [hself])
    · rw [mergeTxnRange, mergeLoop_eq_mergeAll (hvalid.inRange hlong)]
      exact hstored.merge hpart.validRanges

theorem foldlM_storeSet_represents (hlong : bound ≤ 2 ^ 63) {sets : List Text}
    (hsets : ∀ set ∈ sets, ValidPartBelow bound set) :
    ∃ stored, sets.foldlM storeSet map = some stored ∧
      MapRepresents bound (parts ++ sets.map readPart) stored := by
  induction sets generalizing parts map with
  | nil => exact ⟨map, rfl, by simpa using hmap⟩
  | cons set sets ih =>
    obtain ⟨hset, hrest⟩ := forall_mem_cons.mp hsets
    obtain ⟨next, hnext, hnextMap⟩ := storeSet_represents hmap hlong hset
    obtain ⟨stored, hstored, hstoredMap⟩ := ih hnextMap hrest
    refine ⟨stored, ?_, by simpa using hstoredMap⟩
    rw [foldlM_cons, hnext]
    exact hstored

end Represents

theorem ValidBelow.split_eq (hvalid : ValidBelow bound text) : split text ',' = setParts text := by
  by_cases hne : text = []
  · simp [split, setParts, hne]
  · rw [setParts, if_neg hne]
    refine split_of_le_toNat ',' hne (le_toNat_of_splitOn ',' (by decide) fun piece hpiece => ?_)
    exact (hvalid piece (by rwa [setParts, if_neg hne])).le_toNat

/-- On a well-formed text `deserialization` never fails, and the map it returns
holds for every uuid what merging its parts leaves. -/
theorem deserialization_represents (hlong : bound ≤ 2 ^ 63) (hvalid : ValidBelow bound text) :
    ∃ map, deserialization text empty = some map ∧
      MapRepresents bound (written text) map := by
  rw [deserialization, hvalid.split_eq]
  exact foldlM_storeSet_represents mapRepresents_empty hlong hvalid

end Represents

theorem rangesFor_nodup {parts : List (List UInt8 × List TxnRange)}
    (hnodup : (parts.map Prod.fst).Nodup) (uuid : List UInt8) :
    rangesFor uuid parts = [] ∨ ∃ ranges, (uuid, ranges) ∈ parts ∧ rangesFor uuid parts = [ranges] := by
  induction parts with
  | nil => exact Or.inl rfl
  | cons part parts ih =>
    obtain ⟨hfresh, hnodup⟩ := nodup_cons.mp hnodup
    by_cases huuid : part.1 = uuid
    · have hrest : rangesFor uuid parts = [] := by
        simp only [rangesFor, map_eq_nil_iff, filter_eq_nil_iff, decide_eq_true_eq]
        rintro other hother rfl
        exact hfresh (mem_map.mpr ⟨other, hother, huuid.symm⟩)
      refine Or.inr ⟨part.2, ?_, ?_⟩
      · subst huuid
        exact mem_cons_self
      · rw [rangesFor] at hrest ⊢
        rw [filter_cons_of_pos (by simpa using huuid), map_cons, hrest]
    · have hskip : rangesFor uuid (part :: parts) = rangesFor uuid parts := by
        rw [rangesFor, filter_cons_of_neg (by simpa using huuid), rangesFor]
      rw [hskip]
      refine (ih hnodup).imp_right ?_
      rintro ⟨ranges, hmem, hranges⟩
      exact ⟨ranges, mem_cons_of_mem part hmem, hranges⟩

theorem written_validRanges {bound : ℕ} (hvalid : ValidBelow bound text)
    {part : List UInt8 × List TxnRange} (hpart : part ∈ written text) :
    ValidRanges bound part.2 := by
  obtain ⟨piece, hpiece, rfl⟩ := mem_map.mp hpart
  exact (hvalid piece hpiece).validRanges

/-- A text that names each uuid once is stored whole if no range hides a number
of a later one. -/
theorem MapRepresents.members_stored {bound : ℕ} {map : GtidMap}
    (hmap : MapRepresents bound (written text) map) (hnodup : ((written text).map Prod.fst).Nodup)
    (hkeeps : ∀ part ∈ written text, ∀ number, Keeps part.2 number ↔ number ∈ members part.2)
    (uuid : List UInt8) : members (storedRanges map uuid) = denote text uuid := by
  have hranges : rangesOf text uuid = rangesFor uuid (written text) := rfl
  ext number
  rw [(hmap.represents uuid).mem_iff, denote, hranges]
  rcases rangesFor_nodup hnodup uuid with hnone | ⟨ranges, hmem, hone⟩
  · simp [hnone]
  · have hpart := hkeeps _ hmem number
    rw [hone, flatten_singleton, ← hpart, ← nil_append [ranges], keptByLast_append_singleton]
    split_ifs with hreach
    · exact Iff.rfl
    · simp only [keptByLast_nil, false_iff]
      exact fun hkept => hreach (reaches_of_mem_members hkept.mem_members)

/-- `deserialization` stores, for every uuid, canonical ranges that denote the
union of everything written for it, exactly when every written number is in the
first range reaching it of the last part that reaches it. -/
theorem deserialization_denotes_iff (text : Text) (hvalid : Valid text) :
    (∃ map, deserialization text empty = some map ∧
      ∀ uuid, Canonical (storedRanges map uuid) ∧
        members (storedRanges map uuid) = denote text uuid) ↔
      ∀ uuid, ∀ number ∈ denote text uuid, KeptByLast (rangesOf text uuid) number := by
  obtain ⟨map, hmap, hrepresents⟩ := deserialization_represents (by decide) hvalid.below
  constructor
  · rintro ⟨other, hother, hdenotes⟩ uuid number hnumber
    obtain rfl : map = other := Option.some.inj (hmap.symm.trans hother)
    rw [← (hdenotes uuid).2] at hnumber
    exact ((hrepresents.represents uuid).mem_iff number).mp hnumber
  · intro hkept
    refine ⟨map, hmap, fun uuid => ⟨(hrepresents.represents uuid).canonical, ?_⟩⟩
    ext number
    rw [(hrepresents.represents uuid).mem_iff]
    exact ⟨KeptByLast.mem_members, hkept uuid number⟩

/-- Overlapping, adjacent and repeated ranges in increasing order are all kept. -/
theorem deserialization_denotes_increasing :
    Valid "00000000-0000-0000-0000-00000000000a:1-2:2-4:5:9".toList ∧
      ∃ map, deserialization
          "00000000-0000-0000-0000-00000000000a:1-2:2-4:5:9".toList empty = some map ∧
        ∀ uuid, Canonical (storedRanges map uuid) ∧
          members (storedRanges map uuid) =
            denote "00000000-0000-0000-0000-00000000000a:1-2:2-4:5:9".toList uuid := by
  refine ⟨by decide, (deserialization_denotes_iff _ (by decide)).mpr fun uuid number hmem => ?_⟩
  have hwritten : written "00000000-0000-0000-0000-00000000000a:1-2:2-4:5:9".toList =
      [([0, 0, 0, 0, 0, 0, 0, 0, 0, 0, 0, 0, 0, 0, 0, 10],
        [(1, 2), (2, 4), (5, 5), (9, 9)])] := by decide
  rw [denote, rangesOf_singleton hwritten] at hmem
  rw [rangesOf_singleton hwritten]
  split_ifs at hmem ⊢
  · rw [← nil_append [_], keptByLast_append_singleton]
    rw [flatten_singleton] at hmem
    rw [if_pos (reaches_of_mem_members hmem)]
    obtain ⟨range, hrange, hfirst, hlast⟩ := hmem
    simp only [mem_cons, not_mem_nil, or_false] at hrange
    simp only [keeps_cons]
    rcases hrange with rfl | rfl | rfl | rfl <;> simp only at hfirst hlast <;> split_ifs <;> omega
  · simp at hmem

/-- `uuid:5-6:1-2`: the second range lies below the running one, so the merge
takes it for a part of it and it is lost. -/
theorem deserialization_drops_lower_range :
    Valid "00000000-0000-0000-0000-00000000000a:5-6:1-2".toList ∧
      ¬∃ map, deserialization
          "00000000-0000-0000-0000-00000000000a:5-6:1-2".toList empty = some map ∧
        ∀ uuid, Canonical (storedRanges map uuid) ∧
          members (storedRanges map uuid) =
            denote "00000000-0000-0000-0000-00000000000a:5-6:1-2".toList uuid := by
  refine ⟨by decide, ?_⟩
  rintro ⟨map, hmap, hdenotes⟩
  have hstored : (deserialization
      "00000000-0000-0000-0000-00000000000a:5-6:1-2".toList empty).map
        (fun map => storedRanges map [0, 0, 0, 0, 0, 0, 0, 0, 0, 0, 0, 0, 0, 0, 0, 10]) =
      some [(5, 6)] := by decide
  rw [hmap, Option.map_some, Option.some.injEq] at hstored
  obtain ⟨-, hmembers⟩ := hdenotes [0, 0, 0, 0, 0, 0, 0, 0, 0, 0, 0, 0, 0, 0, 0, 10]
  have hone : 1 ∈ denote "00000000-0000-0000-0000-00000000000a:5-6:1-2".toList
      [0, 0, 0, 0, 0, 0, 0, 0, 0, 0, 0, 0, 0, 0, 0, 10] := ⟨(1, 2), by decide, by decide⟩
  rw [← hmembers, hstored] at hone
  simp at hone

/-- A GTID set that names each uuid once, with its intervals in the order of
their first numbers. -/
structure OrderedForm (text : Text) : Prop where
  valid : ValidBelow (2 ^ 63) text
  nodup : ((written text).map Prod.fst).Nodup
  ordered : ∀ part ∈ written text, part.2.Pairwise fun left right => left.1 ≤ right.1

/-- Every transaction of the first set belongs to the second. -/
def Included (subset target : Text) : Prop :=
  ∀ uuid, denote subset uuid ⊆ denote target uuid

theorem OrderedForm.exists_map {text : Text} (hordered : OrderedForm text) :
    ∃ map, deserialization text SortedMap.empty = some map ∧
      MapRepresents (2 ^ 63) (written text) map ∧
      ∀ uuid, members (storedRanges map uuid) = denote text uuid := by
  obtain ⟨map, hmap, hrepresents⟩ := deserialization_represents (by decide) hordered.valid
  refine ⟨map, hmap, hrepresents, hrepresents.members_stored hordered.nodup ?_⟩
  exact fun part hpart number => keeps_iff_of_ordered (hordered.ordered part hpart) number

theorem isSubset_iff {subset target : List TxnRange} (hproper : Proper subset)
    (hcanonical : Canonical target) :
    isSubset subset target = true ↔ members subset ⊆ members target := by
  simp only [isSubset, List.all_eq_true, List.any_eq_true, Bool.and_eq_true, decide_eq_true_eq]
  constructor
  · rintro hall number ⟨range, hrange, hfirst, hlast⟩
    obtain ⟨wider, hwider, hbelow, habove⟩ := hall range hrange
    exact ⟨wider, hwider, hbelow.trans hfirst, hlast.trans habove⟩
  · intro hsubset range hrange
    apply hcanonical.exists_range (hproper range hrange)
    exact fun number hnumber => hsubset ⟨range, hrange, hnumber.1, hnumber.2⟩

theorem all_isSubset_iff {bound : ℕ} {subParts targetParts : List (List UInt8 × List TxnRange)}
    {subMsg targetMsg : GtidMap} (hsub : MapRepresents bound subParts subMsg)
    (htarget : MapRepresents bound targetParts targetMsg) :
    (subMsg.entries.all fun sub =>
        match targetMsg.find sub.1 with
        | none => false
        | some target => isSubset sub.2.txnRange target.txnRange) = true ↔
      ∀ uuid, members (storedRanges subMsg uuid) ⊆ members (storedRanges targetMsg uuid) := by
  rw [List.all_eq_true]
  constructor
  · intro hall uuid
    have hleft := hsub.represents uuid
    have hright := htarget.represents uuid
    rw [storedRanges] at hleft hright ⊢
    cases hfind : subMsg.find (dumphex uuid) with
    | none => simp
    | some message =>
      have hentry := hall _ ((SortedMap.mem_entries_iff _ _ _).mpr hfind)
      rw [hfind] at hleft
      rw [storedRanges]
      cases hother : targetMsg.find (dumphex uuid) with
      | none => simp [hother] at hentry
      | some target =>
        rw [hother] at hright
        simp only [hother] at hentry
        exact (isSubset_iff hleft.valid.proper hright.canonical).mp hentry
  · rintro hsubset ⟨key, message⟩ hentry
    have hfind := (SortedMap.mem_entries_iff _ _ _).mp hentry
    obtain ⟨uuid, -, rfl, -, hne⟩ := hsub.keyed key message hfind
    have hleft := hsub.represents uuid
    have hright := htarget.represents uuid
    have huuid := hsubset uuid
    simp only [storedRanges, hfind] at hleft huuid
    rw [storedRanges] at hright
    cases hother : targetMsg.find (dumphex uuid) with
    | none =>
      -- the ranges of an entry are not empty, so they need an entry in the target
      obtain ⟨range, hrange⟩ := List.exists_mem_of_ne_nil _ hne
      have hmem := huuid ⟨range, hrange, le_rfl, hleft.valid.proper range hrange⟩
      simp [hother] at hmem
    | some target =>
      rw [hother] at hright huuid
      exact (isSubset_iff hleft.valid.proper hright.canonical).mpr huuid

/-- `gtid_subset` returns 1 if every transaction of the first set belongs to the
second, and 0 otherwise. -/
theorem gtidSubset_decides_inclusion {subset target : Text} (hsubset : OrderedForm subset)
    (htarget : OrderedForm target) :
    (gtidSubset subset target = some 1 ↔ Included subset target) ∧
      (gtidSubset subset target = some 0 ↔ ¬Included subset target) := by
  obtain ⟨subMsg, hsubMsg, hsubMap, hsubMembers⟩ := hsubset.exists_map
  obtain ⟨targetMsg, htargetMsg, htargetMap, htargetMembers⟩ := htarget.exists_map
  have hall := all_isSubset_iff hsubMap htargetMap
  simp only [hsubMembers, htargetMembers] at hall
  rw [gtidSubset, hsubMsg, htargetMsg, Included, ← hall]
  simp only [Option.bind_eq_bind, Option.bind_some, Option.pure_def, Option.some.injEq]
  generalize subMsg.entries.all _ = contained
  cases contained <;> simp

/-- Overlapping and adjacent intervals on both sides. -/
theorem gtidSubset_overlapping :
    gtidSubset "00000000-0000-0000-0000-00000000000a:2-5:4-6".toList
        "00000000-0000-0000-0000-00000000000A:1-3:4-9:12".toList = some 1 ∧
      Included "00000000-0000-0000-0000-00000000000a:2-5:4-6".toList
        "00000000-0000-0000-0000-00000000000A:1-3:4-9:12".toList := by
  have hdecides := (@gtidSubset_decides_inclusion
    "00000000-0000-0000-0000-00000000000a:2-5:4-6".toList
    "00000000-0000-0000-0000-00000000000A:1-3:4-9:12".toList
    ⟨by decide, by decide, by decide⟩ ⟨by decide, by decide, by decide⟩).1
  have hone : gtidSubset "00000000-0000-0000-0000-00000000000a:2-5:4-6".toList
      "00000000-0000-0000-0000-00000000000A:1-3:4-9:12".toList = some 1 := by decide
  exact ⟨hone, hdecides.mp hone⟩

end OblogProxy.Gtid
