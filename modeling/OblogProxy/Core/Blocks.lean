import Mathlib.Algebra.Order.Group.Nat
import Mathlib.Data.List.Basic

/-!
# Sorted lists in blocks

A list that is sorted by a key is made of blocks, one for each value of the key.  Which
entries stand first behind a bound, up to some number, is decided by how the blocks behind it
begin.
-/

namespace OblogProxy.Blocks

open List

variable {α : Type*} (key : α → ℕ)

def block (items : List α) (value : ℕ) : List α :=
  items.filter fun item => key item = value

/-- The items behind a bound. -/
def later (items : List α) (bound : ℕ) : List α :=
  items.filter fun item => bound < key item

def Sorted (items : List α) : Prop :=
  items.Pairwise fun left right => key left ≤ key right

variable {key} {items others : List α} {item : α} {bound value count : ℕ}

theorem block_cons_self (item : α) (items : List α) :
    block key (item :: items) (key item) = item :: block key items (key item) :=
  filter_cons_of_pos (by simp)

theorem block_cons_of_ne (hne : key item ≠ value) :
    block key (item :: items) value = block key items value :=
  filter_cons_of_neg (by simpa using hne)

theorem block_append (front back : List α) (value : ℕ) :
    block key (front ++ back) value = block key front value ++ block key back value :=
  filter_append ..

theorem block_eq_nil (hother : ∀ item ∈ items, key item ≠ value) :
    block key items value = [] := by
  rw [block, filter_eq_nil_iff]
  intro item hitem heq
  exact hother item hitem (of_decide_eq_true heq)

theorem block_later (hlater : bound < value) :
    block key (later key items bound) value = block key items value := by
  rw [block, later, filter_filter]
  refine filter_congr fun item _ => ?_
  rw [Bool.and_eq_left_iff_imp]
  intro heq
  rw [of_decide_eq_true heq]
  exact decide_eq_true hlater

theorem block_later_of_le (hle : value ≤ bound) :
    block key (later key items bound) value = [] :=
  block_eq_nil fun _ hitem =>
    (hle.trans_lt (of_decide_eq_true (mem_filter.mp hitem).2)).ne'

theorem Sorted.later (hsorted : Sorted key items) (bound : ℕ) :
    Sorted key (Blocks.later key items bound) :=
  List.Pairwise.filter _ hsorted

theorem block_take (hsorted : Sorted key items) (hfirst : ∀ item ∈ items, value ≤ key item)
    (count : ℕ) : block key (items.take count) value = (block key items value).take count := by
  induction items generalizing count with
  | nil => simp [block]
  | cons item items ih =>
    obtain ⟨hitem, hitems⟩ := forall_mem_cons.mp hfirst
    obtain ⟨hle, hsortedItems⟩ := pairwise_cons.mp hsorted
    cases count with
    | zero => rfl
    | succ count =>
      rcases hitem.eq_or_lt with rfl | hlt
      · rw [take_succ_cons, block_cons_self, block_cons_self, take_succ_cons,
          ih hsortedItems hitems]
      · have hnone : block key (item :: items) value = [] :=
          block_eq_nil (forall_mem_cons.mpr
            ⟨hlt.ne', fun other hother => (hlt.trans_le (hle other hother)).ne'⟩)
        have htaken : block key ((item :: items).take (count + 1)) value = [] := by
          rw [block, filter_eq_nil_iff]
          exact fun other hother => filter_eq_nil_iff.mp hnone other
            (take_subset _ _ hother)
        rw [htaken, hnone, take_nil]

/-- A list whose first item has a key that the other list begins with. -/
theorem key_le_of_blocks {other : α} (hsorted : Sorted key (item :: items))
    (hblock : (block key (item :: items) (key other)).take (count + 1) =
      (block key (other :: others) (key other)).take (count + 1)) : key item ≤ key other := by
  rw [block_cons_self, take_succ_cons] at hblock
  have hmem : other ∈ block key (item :: items) (key other) :=
    take_subset _ _ (hblock ▸ mem_cons_self)
  rcases mem_cons.mp (mem_of_mem_filter hmem) with rfl | hitems
  · exact le_rfl
  · exact (pairwise_cons.mp hsorted).1 other hitems

/-- Sorted lists whose blocks begin alike begin alike. -/
theorem take_eq_of_blocks (hitems : Sorted key items) (hothers : Sorted key others)
    (hblocks : ∀ value, (block key items value).take count = (block key others value).take count) :
    items.take count = others.take count := by
  induction count generalizing items others with
  | zero => rfl
  | succ count ih =>
    cases items with
    | nil =>
      cases others with
      | nil => rfl
      | cons other others =>
        have hblock := hblocks (key other)
        rw [block_cons_self] at hblock
        cases hblock
    | cons item items =>
      cases others with
      | nil =>
        have hblock := hblocks (key item)
        rw [block_cons_self] at hblock
        cases hblock
      | cons other others =>
        have hkey : key item = key other :=
          le_antisymm (key_le_of_blocks hitems (hblocks (key other)))
            (key_le_of_blocks hothers (hblocks (key item)).symm)
        have hblock := hblocks (key item)
        rw [block_cons_self, take_succ_cons] at hblock
        rw [hkey, block_cons_self, take_succ_cons, ← hkey, cons.injEq] at hblock
        obtain ⟨rfl, htail⟩ := hblock
        rw [take_succ_cons, take_succ_cons,
          ih (pairwise_cons.mp hitems).2 (pairwise_cons.mp hothers).2]
        intro value
        rcases eq_or_ne (key item) value with rfl | hne
        · exact htail
        · have hvalue := congrArg (take count) (hblocks value)
          rw [block_cons_of_ne hne, block_cons_of_ne hne, take_take, take_take,
            Nat.min_eq_left (Nat.le_succ count)] at hvalue
          exact hvalue

/-- The first items behind each bound are the same in both lists exactly if each block behind
the least bound begins alike. -/
theorem take_later_iff (hitems : Sorted key items) (hothers : Sorted key others) (front count : ℕ) :
    (∀ bound, front ≤ bound →
        (later key items bound).take count = (later key others bound).take count) ↔
      ∀ value, front < value →
        (block key items value).take count = (block key others value).take count := by
  constructor
  · intro hlater value hvalue
    have hbound : value - 1 < value := by omega
    have hfirst : ∀ list : List α, ∀ item ∈ later key list (value - 1), value ≤ key item := by
      intro list item hitem
      have := of_decide_eq_true (mem_filter.mp hitem).2
      omega
    have htaken := congrArg (fun list => block key list value) (hlater (value - 1) (by omega))
    rw [block_take (hitems.later _) (hfirst items), block_take (hothers.later _) (hfirst others),
      block_later hbound, block_later hbound] at htaken
    exact htaken
  · intro hblocks bound hbound
    refine take_eq_of_blocks (hitems.later bound) (hothers.later bound) fun value => ?_
    rcases Nat.lt_or_ge bound value with hvalue | hvalue
    · rw [block_later hvalue, block_later hvalue]
      exact hblocks value (by omega)
    · rw [block_later_of_le hvalue, block_later_of_le hvalue]

theorem Sorted.le_last (hsorted : Sorted key items) {last : α} (hlast : last ∈ items.getLast?) :
    ∀ item ∈ items, key item ≤ key last := by
  obtain ⟨front, rfl⟩ := getLast?_eq_some_iff.mp hlast
  intro item hitem
  rcases mem_append.mp hitem with hfront | hend
  · exact (pairwise_append.mp hsorted).2.2 item hfront last mem_cons_self
  · rw [mem_singleton.mp hend]

theorem sorted_append_iff (hitems : Sorted key items) (hothers : Sorted key others) :
    Sorted key (items ++ others) ↔
      ∀ other ∈ others, ∀ last ∈ items.getLast?, key last ≤ key other := by
  constructor
  · intro hsorted other hother last hlast
    exact (pairwise_append.mp hsorted).2.2 last (mem_of_getLast? hlast) other hother
  · intro hall
    refine pairwise_append.mpr ⟨hitems, hothers, fun item hitem other hother => ?_⟩
    have hlast := getLast?_eq_some_getLast (ne_nil_of_mem hitem)
    exact (hitems.le_last hlast item hitem).trans (hall other hother _ hlast)

/-- Where a condition goes over from each item to the later ones, it holds at the end of the
list. -/
theorem filter_isSuffix {condition : α → Bool}
    (hlater : items.Pairwise fun left right => condition left = true → condition right = true) :
    items.filter condition <:+ items := by
  induction items with
  | nil => exact suffix_refl _
  | cons item items ih =>
    obtain ⟨hitem, hitems⟩ := pairwise_cons.mp hlater
    cases hcondition : condition item with
    | true =>
      have hall : ∀ other ∈ item :: items, condition other = true :=
        forall_mem_cons.mpr
          ⟨hcondition, fun other hother => hitem other hother hcondition⟩
      exact ⟨[], filter_eq_self.mpr hall⟩
    | false =>
      rw [filter_cons_of_neg (by simp [hcondition])]
      exact (ih hitems).trans (suffix_cons item items)

/-- Lists that begin alike still do with one more item behind each. -/
theorem take_append_congr (htake : items.take count = others.take count) (more : List α) :
    (items ++ more).take count = (others ++ more).take count := by
  have hlength := congrArg length htake
  rw [length_take, length_take] at hlength
  rw [take_append, take_append, htake, show count - items.length = count - others.length by omega]

end OblogProxy.Blocks
