import Mathlib

/-!
# Ordered finite maps

An association list whose keys strictly increase, the iteration order of a
`std::map`.  The ordering is part of the type, so every operation below
returns a well-formed map by construction.
-/

namespace OblogProxy

open List

/-- A finite map kept as its list of entries in increasing key order. -/
structure SortedMap (Key Value : Type*) [LinearOrder Key] where
  entries : List (Key × Value)
  sorted : entries.Pairwise fun left right => left.1 < right.1

namespace SortedMap

variable {Key Value : Type*} [LinearOrder Key]

instance [DecidableEq Value] : DecidableEq (SortedMap Key Value) := fun left right =>
  decidable_of_iff (left.entries = right.entries) (by
    cases left
    cases right
    simp)

def empty : SortedMap Key Value :=
  ⟨[], List.Pairwise.nil⟩

def find (map : SortedMap Key Value) (key : Key) : Option Value :=
  map.entries.lookup key

def insertEntry (key : Key) (value : Value) : List (Key × Value) → List (Key × Value)
  | [] => [(key, value)]
  | entry :: entries =>
    if key < entry.1 then (key, value) :: entry :: entries
    else if entry.1 < key then entry :: insertEntry key value entries
    else (key, value) :: entries

variable {key : Key} {entries : List (Key × Value)}

theorem mem_insertEntry {value : Value} {entry : Key × Value}
    (hmem : entry ∈ insertEntry key value entries) : entry = (key, value) ∨ entry ∈ entries := by
  induction entries with
  | nil => exact Or.inl (mem_singleton.mp hmem)
  | cons head entries ih =>
    rw [insertEntry] at hmem
    split_ifs at hmem with hbefore hafter
    · exact mem_cons.mp hmem
    · rcases mem_cons.mp hmem with rfl | hmem
      · exact Or.inr mem_cons_self
      · exact (ih hmem).imp_right (mem_cons_of_mem head)
    · exact (mem_cons.mp hmem).imp_right (mem_cons_of_mem head)

theorem insertEntry_sorted (key : Key) (value : Value)
    (hsorted : entries.Pairwise fun left right => left.1 < right.1) :
    (insertEntry key value entries).Pairwise fun left right => left.1 < right.1 := by
  induction entries with
  | nil => exact pairwise_singleton _ _
  | cons head entries ih =>
    obtain ⟨hhead, htail⟩ := pairwise_cons.mp hsorted
    rw [insertEntry]
    split_ifs with hbefore hafter
    · refine pairwise_cons.mpr ⟨?_, hsorted⟩
      exact forall_mem_cons.mpr ⟨hbefore, fun entry hentry =>
        hbefore.trans (hhead entry hentry)⟩
    · refine pairwise_cons.mpr ⟨fun entry hentry => ?_, ih htail⟩
      rcases mem_insertEntry hentry with rfl | hentry
      · exact hafter
      · exact hhead entry hentry
    · have hkey : key = head.1 := le_antisymm (not_lt.mp hafter) (not_lt.mp hbefore)
      exact pairwise_cons.mpr ⟨fun entry hentry => hkey ▸ hhead entry hentry, htail⟩

def insert (map : SortedMap Key Value) (key : Key) (value : Value) :
    SortedMap Key Value :=
  ⟨insertEntry key value map.entries, insertEntry_sorted key value map.sorted⟩

@[simp]
theorem find_empty (key : Key) : (empty : SortedMap Key Value).find key = none :=
  rfl

theorem lookup_insertEntry (key other : Key) (value : Value) (entries : List (Key × Value)) :
    (insertEntry key value entries).lookup other =
      if other = key then some value else entries.lookup other := by
  induction entries with
  | nil => grind [insertEntry]
  | cons head entries ih =>
    rw [insertEntry]
    all_goals grind

@[simp]
theorem find_insert (map : SortedMap Key Value) (key other : Key) (value : Value) :
    (map.insert key value).find other =
      if other = key then some value else map.find other :=
  lookup_insertEntry key other value map.entries

/-- Iterating the map visits exactly the entries that `find` returns. -/
theorem mem_entries_iff (map : SortedMap Key Value) (key : Key) (value : Value) :
    (key, value) ∈ map.entries ↔ map.find key = some value := by
  obtain ⟨entries, hsorted⟩ := map
  induction entries with
  | nil => simp [find]
  | cons head entries ih =>
    obtain ⟨hhead, htail⟩ := pairwise_cons.mp hsorted
    obtain ⟨headKey, headValue⟩ := head
    simp only [find] at ih ⊢
    by_cases hkey : key = headKey
    · subst hkey
      have hnot : (key, value) ∉ entries := fun hmem =>
        lt_irrefl key (hhead (key, value) hmem)
      simp [hnot, eq_comm]
    · have hbeq : (key == headKey) = false := beq_false_of_ne hkey
      simp [lookup_cons, hbeq, hkey, ih htail]

/-- A loop over the entries of a map that puts at most one value under each
visited key. -/
theorem find_foldl_entries {Other : Type*} {f : Key → Value → Option Other}
    {step : SortedMap Key Other → Key × Value → SortedMap Key Other}
    (hself : ∀ result entry, (step result entry).find entry.1 =
      (f entry.1 entry.2).or (result.find entry.1))
    (hother : ∀ result entry key, key ≠ entry.1 →
      (step result entry).find key = result.find key)
    (map : SortedMap Key Value) (result : SortedMap Key Other) (key : Key) :
    (map.entries.foldl step result).find key =
      ((map.find key).bind (f key)).or (result.find key) := by
  obtain ⟨entries, hsorted⟩ := map
  simp only [find] at hself hother ⊢
  induction entries generalizing result with
  | nil => simp
  | cons entry entries ih =>
    obtain ⟨entryKey, value⟩ := entry
    obtain ⟨hfresh, htail⟩ := pairwise_cons.mp hsorted
    rw [foldl_cons, ih _ htail]
    by_cases hkey : key = entryKey
    · subst hkey
      have hnone : entries.lookup key = none := by
        rw [lookup_eq_none_iff]
        intro other hother
        simpa using (hfresh other hother).ne
      simpa [hnone] using hself result (key, value)
    · have hbeq : (key == entryKey) = false := beq_false_of_ne hkey
      simp [lookup_cons, hbeq, hother _ (entryKey, value) key hkey]

/-- `map.emplace(key, value)`: an entry that is there is kept. -/
def emplace (map : SortedMap Key Value) (key : Key) (value : Value) : SortedMap Key Value :=
  if (map.find key).isSome then map else map.insert key value

theorem insertEntry_perm (value : Value) (hfresh : key ∉ entries.map Prod.fst) :
    (insertEntry key value entries).Perm ((key, value) :: entries) := by
  induction entries with
  | nil => exact List.Perm.refl _
  | cons head entries ih =>
    rw [map_cons, mem_cons, not_or] at hfresh
    rw [insertEntry]
    split_ifs with hbefore hafter
    · exact List.Perm.refl _
    · exact ((ih hfresh.2).cons head).trans (List.Perm.swap _ _ _)
    · exact absurd (le_antisymm (not_lt.mp hafter) (not_lt.mp hbefore)) hfresh.1

theorem emplace_perm {map : SortedMap Key Value} (value : Value)
    (hfresh : key ∉ map.entries.map Prod.fst) :
    (map.emplace key value).entries.Perm ((key, value) :: map.entries) := by
  have hnone : map.find key = none := by
    rw [Option.eq_none_iff_forall_ne_some]
    intro found hfound
    exact hfresh (mem_map.mpr ⟨_, (map.mem_entries_iff key found).mpr hfound, rfl⟩)
  rw [emplace, hnone]
  exact insertEntry_perm value hfresh

/-- Values with distinct keys are all kept, each under its key. -/
theorem foldl_emplace_perm (keyOf : Value → Key) {values : List Value}
    (map : SortedMap Key Value) (hdistinct : (values.map keyOf).Nodup)
    (hfresh : ∀ value ∈ values, keyOf value ∉ map.entries.map Prod.fst) :
    (values.foldl (fun map value => map.emplace (keyOf value) value) map).entries.Perm
      (values.map (fun value => (keyOf value, value)) ++ map.entries) := by
  induction values generalizing map with
  | nil => exact List.Perm.refl _
  | cons value values ih =>
    obtain ⟨hvalue, hrest⟩ := nodup_cons.mp hdistinct
    obtain ⟨hfirst, hothers⟩ := forall_mem_cons.mp hfresh
    have hplaced := emplace_perm value hfirst
    have hfreshRest : ∀ other ∈ values,
        keyOf other ∉ (map.emplace (keyOf value) value).entries.map Prod.fst := by
      intro other hother hmem
      rw [(hplaced.map Prod.fst).mem_iff, map_cons, mem_cons] at hmem
      rcases hmem with heq | hmem
      · exact hvalue (mem_map.mpr ⟨other, hother, heq⟩)
      · exact hothers other hother hmem
    have hmoved := (ih _ hrest hfreshRest).trans (hplaced.append_left _)
    exact hmoved.trans perm_middle

/-- A map is determined by its entries in any order. -/
theorem eq_of_perm {left right : SortedMap Key Value} (hperm : left.entries.Perm right.entries) :
    left = right := by
  obtain ⟨leftEntries, hleft⟩ := left
  obtain ⟨rightEntries, hright⟩ := right
  have heq : leftEntries = rightEntries := by
    refine List.Perm.eq_of_pairwise (fun first second _ _ hlt hgt => ?_) hleft hright hperm
    exact absurd (hlt.trans hgt) (lt_irrefl _)
  subst heq
  rfl

/-- Emplacing the values of a map one by one builds it again. -/
theorem foldl_emplace_entries {keyOf : Value → Key} {map : SortedMap Key Value}
    (hkeys : ∀ entry ∈ map.entries, keyOf entry.2 = entry.1) :
    (map.entries.map Prod.snd).foldl (fun map value => map.emplace (keyOf value) value) empty =
      map := by
  have hkeyed : (map.entries.map Prod.snd).map keyOf = map.entries.map Prod.fst := by
    rw [map_map]
    exact map_congr_left hkeys
  have hentries : (map.entries.map Prod.snd).map (fun value => (keyOf value, value)) =
      map.entries := by
    rw [map_map]
    conv_rhs => rw [← map_id map.entries]
    exact map_congr_left fun entry hentry => Prod.ext (hkeys entry hentry) rfl
  have hdistinct : ((map.entries.map Prod.snd).map keyOf).Nodup := by
    rw [hkeyed, List.Nodup, pairwise_map]
    exact map.sorted.imp fun hlt => hlt.ne
  apply eq_of_perm
  have hperm := foldl_emplace_perm keyOf empty hdistinct (by simp [empty])
  rwa [hentries, empty, append_nil] at hperm

end SortedMap

end OblogProxy
