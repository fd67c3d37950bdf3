import Mathlib

/-!
# Lists of closed intervals

A list of pairs `(first, last)` denotes the union of its closed intervals.
This module develops that reading: the canonical lists (increasing, disjoint,
non-adjacent), the running merge that turns a list into a canonical one, and
the exact set of numbers the merge keeps when its input is not sorted.
-/

namespace OblogProxy.Intervals

open List

/-- The numbers covered by a list of closed intervals. -/
def members (ranges : List (ℕ × ℕ)) : Set ℕ :=
  {number | ∃ range ∈ ranges, range.1 ≤ number ∧ number ≤ range.2}

variable {ranges : List (ℕ × ℕ)} {number : ℕ}

theorem mem_members :
    number ∈ members ranges ↔
      ∃ range ∈ ranges, range.1 ≤ number ∧ number ≤ range.2 :=
  Iff.rfl

@[simp]
theorem members_nil : members [] = ∅ := by
  simp [members]

@[simp]
theorem members_cons (range : ℕ × ℕ) (ranges : List (ℕ × ℕ)) :
    members (range :: ranges) = Set.Icc range.1 range.2 ∪ members ranges := by
  ext number
  simp [members]

theorem members_perm {left right : List (ℕ × ℕ)} (hperm : left.Perm right) :
    members left = members right := by
  ext number
  simp only [mem_members, hperm.mem_iff]

/-- No interval of the list is empty. -/
def Proper (ranges : List (ℕ × ℕ)) : Prop :=
  ∀ range ∈ ranges, range.1 ≤ range.2

/-- Non-empty, increasing and pairwise disjoint. -/
structure Increasing (ranges : List (ℕ × ℕ)) : Prop where
  proper : Proper ranges
  ordered : ranges.Pairwise fun left right => left.2 < right.1

/-- Increasing, pairwise disjoint and with a gap between neighbours. -/
structure Canonical (ranges : List (ℕ × ℕ)) : Prop where
  proper : Proper ranges
  separated : ranges.Pairwise fun left right => left.2 + 1 < right.1

variable {range : ℕ × ℕ}

section Canonical

variable {ranges : List (ℕ × ℕ)}

theorem Canonical.increasing (hcanonical : Canonical ranges) : Increasing ranges :=
  ⟨hcanonical.proper, hcanonical.separated.imp fun hgap => by omega⟩

theorem increasing_cons :
    Increasing (range :: ranges) ↔
      range.1 ≤ range.2 ∧ (∀ next ∈ ranges, range.2 < next.1) ∧ Increasing ranges := by
  constructor
  · rintro ⟨hproper, hordered⟩
    rw [pairwise_cons] at hordered
    exact ⟨hproper range mem_cons_self, hordered.1,
      fun next hnext => hproper next (mem_cons_of_mem range hnext), hordered.2⟩
  · rintro ⟨hrange, hnext, hproper, hordered⟩
    exact ⟨forall_mem_cons.mpr ⟨hrange, hproper⟩, pairwise_cons.mpr ⟨hnext, hordered⟩⟩

theorem canonical_cons :
    Canonical (range :: ranges) ↔
      range.1 ≤ range.2 ∧ (∀ next ∈ ranges, range.2 + 1 < next.1) ∧
        Canonical ranges := by
  constructor
  · rintro ⟨hproper, hseparated⟩
    rw [pairwise_cons] at hseparated
    exact ⟨hproper range mem_cons_self, hseparated.1,
      fun next hnext => hproper next (mem_cons_of_mem range hnext), hseparated.2⟩
  · rintro ⟨hrange, hgap, hproper, hseparated⟩
    exact ⟨forall_mem_cons.mpr ⟨hrange, hproper⟩, pairwise_cons.mpr ⟨hgap, hseparated⟩⟩

section Gaps

variable (hcanonical : Canonical ranges)

include hcanonical

theorem Canonical.eq_or_gap {left right : ℕ × ℕ} (hleft : left ∈ ranges) (hright : right ∈ ranges) :
    left = right ∨ left.2 + 1 < right.1 ∨ right.2 + 1 < left.1 := by
  induction ranges with
  | nil => simp at hleft
  | cons range ranges ih =>
    obtain ⟨_, hgap, hrest⟩ := canonical_cons.mp hcanonical
    rcases mem_cons.mp hleft with rfl | hleftTail <;>
      rcases mem_cons.mp hright with rfl | hrightTail
    · exact Or.inl rfl
    · exact Or.inr (Or.inl (hgap right hrightTail))
    · exact Or.inr (Or.inr (hgap left hleftTail))
    · exact ih hrest hleftTail hrightTail

/-- Nothing of the set lies right after one of its intervals. -/
theorem Canonical.succ_notMem (hrange : range ∈ ranges) : range.2 + 1 ∉ members ranges := by
  rintro ⟨other, hother, hfirst, hlast⟩
  have := hcanonical.proper range hrange
  rcases hcanonical.eq_or_gap hrange hother with rfl | hgap | hgap
  · omega
  · omega
  · omega

/-- A run of numbers that a canonical list has lies in one of its intervals. -/
theorem Canonical.exists_range {first last : ℕ} (hle : first ≤ last)
    (hsubset : Set.Icc first last ⊆ members ranges) :
    ∃ range ∈ ranges, range.1 ≤ first ∧ last ≤ range.2 := by
  obtain ⟨range, hrange, hfirst, hlast⟩ := hsubset (Set.left_mem_Icc.mpr hle)
  refine ⟨range, hrange, hfirst, ?_⟩
  by_contra hpast
  exact hcanonical.succ_notMem hrange (hsubset ⟨by omega, by omega⟩)

/-- Nothing of the set lies right before one of its intervals. -/
theorem Canonical.pred_notMem (hrange : range ∈ ranges) (hpositive : 0 < range.1) :
    range.1 - 1 ∉ members ranges := by
  rintro ⟨other, hother, hfirst, hlast⟩
  have := hcanonical.proper range hrange
  rcases hcanonical.eq_or_gap hrange hother with rfl | hgap | hgap
  · omega
  · omega
  · omega

end Gaps

end Canonical

/-- Walk the list with a running interval: an interval that starts inside it or
right after it extends it, any other closes it and becomes the running one. -/
def coalesce (running : ℕ × ℕ) : List (ℕ × ℕ) → List (ℕ × ℕ)
  | [] => [running]
  | range :: ranges =>
    if range.1 ≤ running.2 + 1 then
      coalesce (running.1, max running.2 range.2) ranges
    else running :: coalesce range ranges

/-- The first interval that reaches up to `number` contains it. -/
def Keeps (ranges : List (ℕ × ℕ)) (number : ℕ) : Prop :=
  ∃ range, ranges.find? (fun range => decide (number ≤ range.2)) = some range ∧
    range.1 ≤ number

/-- Some interval of the list ends at or above `number`. -/
def Reaches (ranges : List (ℕ × ℕ)) (number : ℕ) : Prop :=
  ∃ range ∈ ranges, number ≤ range.2

instance (ranges : List (ℕ × ℕ)) (number : ℕ) : Decidable (Reaches ranges number) :=
  inferInstanceAs (Decidable (∃ range ∈ ranges, number ≤ range.2))

@[simp]
theorem keeps_nil (number : ℕ) : ¬Keeps [] number := by
  simp [Keeps]

theorem keeps_cons (range : ℕ × ℕ) (ranges : List (ℕ × ℕ)) (number : ℕ) :
    Keeps (range :: ranges) number ↔
      if number ≤ range.2 then range.1 ≤ number else Keeps ranges number := by
  by_cases hreach : number ≤ range.2
  · simp [Keeps, hreach]
  · simp [Keeps, hreach]

@[simp]
theorem reaches_nil (number : ℕ) : ¬Reaches [] number := by
  simp [Reaches]

@[simp]
theorem reaches_cons (range : ℕ × ℕ) (ranges : List (ℕ × ℕ)) (number : ℕ) :
    Reaches (range :: ranges) number ↔ number ≤ range.2 ∨ Reaches ranges number := by
  simp [Reaches]

theorem reaches_append (left right : List (ℕ × ℕ)) (number : ℕ) :
    Reaches (left ++ right) number ↔ Reaches left number ∨ Reaches right number := by
  simp [Reaches, or_and_right, exists_or]

theorem Keeps.mem_members (hkeeps : Keeps ranges number) : number ∈ members ranges := by
  obtain ⟨range, hfind, hfirst⟩ := hkeeps
  have hreach := find?_some hfind
  exact ⟨range, mem_of_find?_eq_some hfind, hfirst, by simpa using hreach⟩

theorem reaches_of_mem_members (hmem : number ∈ members ranges) : Reaches ranges number := by
  obtain ⟨range, hrange, _, hlast⟩ := hmem
  exact ⟨range, hrange, hlast⟩

theorem keeps_append (left right : List (ℕ × ℕ)) (number : ℕ) :
    Keeps (left ++ right) number ↔
      if Reaches left number then Keeps left number else Keeps right number := by
  induction left with
  | nil => simp
  | cons range left ih =>
    rw [cons_append, keeps_cons, keeps_cons, ih]
    by_cases hreach : number ≤ range.2
    · simp [hreach]
    · simp [hreach]

/-- On an increasing list the first interval that reaches a number is the only
one that can contain it. -/
theorem Increasing.keeps_iff (hincreasing : Increasing ranges) (number : ℕ) :
    Keeps ranges number ↔ number ∈ members ranges := by
  induction ranges with
  | nil => simp
  | cons range ranges ih =>
    obtain ⟨_, hnext, hrest⟩ := increasing_cons.mp hincreasing
    rw [keeps_cons, members_cons]
    split_ifs with hreach
    · constructor
      · intro hfirst
        exact Or.inl ⟨hfirst, hreach⟩
      · rintro (hhead | ⟨next, hmem, hfirst, _⟩)
        · exact hhead.1
        · have := hnext next hmem
          omega
    · rw [ih hrest]
      constructor
      · exact Or.inr
      · rintro (hhead | htail)
        · exact absurd hhead.2 hreach
        · exact htail

/-- Intervals in the order of their first numbers may overlap, and none hides a
number of a later one. -/
theorem keeps_iff_of_ordered (hordered : ranges.Pairwise fun left right => left.1 ≤ right.1)
    (number : ℕ) : Keeps ranges number ↔ number ∈ members ranges := by
  induction ranges with
  | nil => simp
  | cons range ranges ih =>
    obtain ⟨hnext, hrest⟩ := pairwise_cons.mp hordered
    rw [keeps_cons, members_cons, Set.mem_union, Set.mem_Icc]
    split_ifs with hreach
    · refine ⟨fun hfirst => Or.inl ⟨hfirst, hreach⟩, ?_⟩
      rintro (⟨hfirst, -⟩ | ⟨later, hlater, hfirst, -⟩)
      · exact hfirst
      · exact (hnext later hlater).trans hfirst
    · rw [ih hrest]
      exact ⟨Or.inr, fun hmem => hmem.resolve_left fun hrange => hreach hrange.2⟩

theorem reaches_coalesce (running : ℕ × ℕ) (ranges : List (ℕ × ℕ)) (number : ℕ) :
    Reaches (coalesce running ranges) number ↔ Reaches (running :: ranges) number := by
  induction ranges generalizing running with
  | nil => rfl
  | cons range ranges ih =>
    rw [coalesce]
    split_ifs with htouch
    · rw [ih]
      simp [or_assoc]
    · rw [reaches_cons, ih, reaches_cons running]

section Proper

variable {running : ℕ × ℕ} {ranges : List (ℕ × ℕ)} (hproper : Proper (running :: ranges))

include hproper

/-- The merge keeps a number exactly when the first interval reaching it
contains it.  For a sorted input this is every covered number; for an unsorted
one an interval hidden behind a later-ending one is lost. -/
theorem mem_members_coalesce (number : ℕ) :
    number ∈ members (coalesce running ranges) ↔ Keeps (running :: ranges) number := by
  induction ranges generalizing running with
  | nil =>
    rw [keeps_cons]
    simp only [coalesce, members_cons, members_nil, Set.union_empty, Set.mem_Icc]
    split_ifs with hreach
    · exact and_iff_left hreach
    · simp [hreach]
  | cons range ranges ih =>
    simp only [Proper, forall_mem_cons] at hproper ih
    obtain ⟨hrunning, hrange, hranges⟩ := hproper
    rw [coalesce]
    split_ifs with htouch
    · rw [ih ⟨le_max_of_le_left hrunning, hranges⟩]
      simp only [keeps_cons]
      by_cases hrun : number ≤ running.2
      · simp [hrun]
      · by_cases hnew : number ≤ range.2
        · have hfirst : running.1 ≤ number := by omega
          have hlow : range.1 ≤ number := by omega
          simp [hrun, hnew, hfirst, hlow]
        · simp [hrun, hnew]
    · rw [members_cons, Set.mem_union, ih ⟨hrange, hranges⟩, keeps_cons running,
        Set.mem_Icc, keeps_cons range]
      by_cases hrun : number ≤ running.2
      · have hlast : number ≤ range.2 := by omega
        have hlow : ¬range.1 ≤ number := by omega
        simp [hrun, hlast, hlow]
      · simp [hrun]

theorem first_le_of_mem_coalesce : ∀ merged ∈ coalesce running ranges, running.1 ≤ merged.1 := by
  induction ranges generalizing running with
  | nil => simp [coalesce]
  | cons range ranges ih =>
    simp only [Proper, forall_mem_cons] at hproper ih
    obtain ⟨hrunning, hrange, hranges⟩ := hproper
    rw [coalesce]
    split_ifs with htouch
    · exact ih ⟨le_max_of_le_left hrunning, hranges⟩
    · rw [forall_mem_cons]
      refine ⟨le_rfl, fun merged hmerged => ?_⟩
      have := ih ⟨hrange, hranges⟩ merged hmerged
      omega

theorem canonical_coalesce : Canonical (coalesce running ranges) := by
  induction ranges generalizing running with
  | nil => exact ⟨hproper, pairwise_singleton _ _⟩
  | cons range ranges ih =>
    have hrest : Proper (range :: ranges) := (forall_mem_cons.mp hproper).2
    have hrunning : running.1 ≤ running.2 := hproper running mem_cons_self
    rw [coalesce]
    split_ifs with htouch
    · refine ih (forall_mem_cons.mpr ⟨?_, (forall_mem_cons.mp hrest).2⟩)
      exact le_max_of_le_left hrunning
    · refine canonical_cons.mpr ⟨hrunning, fun merged hmerged => ?_, ih hrest⟩
      have := first_le_of_mem_coalesce hrest merged hmerged
      omega

end Proper

variable {running : ℕ × ℕ}

/-- Every end point of the merge is an end point of the input. -/
theorem forall_mem_coalesce {P Q : ℕ → Prop}
    (hends : ∀ range ∈ running :: ranges, P range.1 ∧ Q range.2) :
    ∀ merged ∈ coalesce running ranges, P merged.1 ∧ Q merged.2 := by
  induction ranges generalizing running with
  | nil => exact hends
  | cons range ranges ih =>
    obtain ⟨hrunning, hrange, hrest⟩ : _ ∧ _ ∧ _ := by
      simpa only [forall_mem_cons] using hends
    rw [coalesce]
    split_ifs with htouch
    · refine ih (forall_mem_cons.mpr ⟨⟨hrunning.1, ?_⟩, hrest⟩)
      rcases max_choice running.2 range.2 with hmax | hmax
      · rw [hmax]
        exact hrunning.2
      · rw [hmax]
        exact hrange.2
    · exact forall_mem_cons.mpr
        ⟨hrunning, ih (forall_mem_cons.mpr ⟨hrange, hrest⟩)⟩

/-- The merge of a whole list, started from its first interval. -/
def mergeAll : List (ℕ × ℕ) → List (ℕ × ℕ)
  | [] => []
  | range :: ranges => coalesce range ranges

theorem mem_members_mergeAll (hproper : Proper ranges) (number : ℕ) :
    number ∈ members (mergeAll ranges) ↔ Keeps ranges number := by
  cases ranges with
  | nil => simp [mergeAll]
  | cons range ranges => exact mem_members_coalesce hproper number

theorem canonical_mergeAll (hproper : Proper ranges) : Canonical (mergeAll ranges) := by
  cases ranges with
  | nil => exact ⟨hproper, List.Pairwise.nil⟩
  | cons range ranges => exact canonical_coalesce hproper

theorem reaches_mergeAll (ranges : List (ℕ × ℕ)) (number : ℕ) :
    Reaches (mergeAll ranges) number ↔ Reaches ranges number := by
  cases ranges with
  | nil => rfl
  | cons range ranges => exact reaches_coalesce range ranges number

theorem forall_mem_mergeAll {P Q : ℕ → Prop} (hends : ∀ range ∈ ranges, P range.1 ∧ Q range.2) :
    ∀ merged ∈ mergeAll ranges, P merged.1 ∧ Q merged.2 := by
  cases ranges with
  | nil => simp [mergeAll]
  | cons range ranges => exact forall_mem_coalesce hends

/-- Intervals inside the running one are absorbed. -/
theorem coalesce_absorbed (hproper : Proper ranges)
    (hinside : ∀ range ∈ ranges, range.2 ≤ running.2) : coalesce running ranges = [running] := by
  induction ranges with
  | nil => rfl
  | cons range ranges ih =>
    obtain ⟨hrange, hrest⟩ := forall_mem_cons.mp hproper
    obtain ⟨hlast, hothers⟩ := forall_mem_cons.mp hinside
    rw [coalesce, if_pos (by omega), max_eq_left hlast]
    exact ih hrest hothers

/-- A canonical list stays as it is, whatever follows that does not reach beyond it. -/
theorem coalesce_append {more : List (ℕ × ℕ)} (hcanonical : Canonical (running :: ranges))
    (hproper : Proper more) (hreached : ∀ range ∈ more, Reaches (running :: ranges) range.2) :
    coalesce running (ranges ++ more) = running :: ranges := by
  induction ranges generalizing running with
  | nil =>
    refine coalesce_absorbed hproper fun range hrange => ?_
    obtain ⟨last, hlast, hle⟩ := hreached range hrange
    rwa [mem_singleton.mp hlast] at hle
  | cons next ranges ih =>
    obtain ⟨-, hgap, hrest⟩ := canonical_cons.mp hcanonical
    have hapart := hgap next mem_cons_self
    have hnext := hrest.proper next mem_cons_self
    rw [cons_append, coalesce, if_neg (by omega), ih hrest]
    intro range hrange
    obtain ⟨last, hlast, hle⟩ := hreached range hrange
    rcases mem_cons.mp hlast with rfl | hlater
    · exact ⟨next, mem_cons_self, by omega⟩
    · exact ⟨last, hlater, hle⟩

/-- Merging a canonical list with itself changes nothing. -/
theorem mergeAll_append_self (hcanonical : Canonical ranges) :
    mergeAll (ranges ++ ranges) = ranges := by
  cases ranges with
  | nil => rfl
  | cons range ranges =>
    exact coalesce_append hcanonical hcanonical.proper fun other hother =>
      ⟨other, hother, le_rfl⟩

/-- Two intervals without a common number. -/
def Apart (left right : ℕ × ℕ) : Prop :=
  left.2 < right.1 ∨ right.2 < left.1

theorem Apart.symm {left right : ℕ × ℕ} (hapart : Apart left right) : Apart right left :=
  Or.symm hapart

instance : Std.Symm Apart :=
  ⟨fun _ _ => Apart.symm⟩

/-- What is left of `range` without `target`: the part below and the part above. -/
def cutOut (target range : ℕ × ℕ) : List (ℕ × ℕ) :=
  (if range.1 < target.1 then [(range.1, min range.2 (target.1 - 1))] else []) ++
    if target.2 < range.2 then [(max range.1 (target.2 + 1), range.2)] else []

variable {target : ℕ × ℕ}

theorem mem_cutOut {piece : ℕ × ℕ} :
    piece ∈ cutOut target range ↔
      (range.1 < target.1 ∧ piece = (range.1, min range.2 (target.1 - 1))) ∨
        (target.2 < range.2 ∧ piece = (max range.1 (target.2 + 1), range.2)) := by
  rw [cutOut, mem_append]
  split_ifs with hbelow habove habove
  all_goals simp [hbelow, habove]

theorem cutOut_of_apart (htarget : target.1 ≤ target.2) (hrange : range.1 ≤ range.2)
    (hapart : Apart range target) : cutOut target range = [range] := by
  rcases hapart with hbelow | habove
  · rw [cutOut, if_pos (by omega), if_neg (by omega), min_eq_left (by omega), append_nil]
  · rw [cutOut, if_neg (by omega), if_pos (by omega), max_eq_left (by omega), nil_append]

theorem members_cutOut (target range : ℕ × ℕ) :
    members (cutOut target range) = Set.Icc range.1 range.2 \ Set.Icc target.1 target.2 := by
  ext number
  simp only [mem_members, mem_cutOut, Set.mem_sdiff, Set.mem_Icc]
  constructor
  · rintro ⟨piece, ⟨hbelow, rfl⟩ | ⟨habove, rfl⟩, hfirst, hlast⟩
    · omega
    · omega
  · rintro ⟨⟨hfirst, hlast⟩, houtside⟩
    rcases lt_or_ge number target.1 with hbelow | hbelow
    · exact ⟨_, Or.inl ⟨by omega, rfl⟩, by omega, by omega⟩
    · exact ⟨_, Or.inr ⟨by omega, rfl⟩, by omega, by omega⟩

theorem members_flatMap (ranges : List (ℕ × ℕ)) (pieces : ℕ × ℕ → List (ℕ × ℕ)) (number : ℕ) :
    number ∈ members (ranges.flatMap pieces) ↔
      ∃ range ∈ ranges, number ∈ members (pieces range) := by
  simp only [mem_members, mem_flatMap]
  constructor
  · rintro ⟨piece, ⟨range, hrange, hpiece⟩, hnumber⟩
    exact ⟨range, hrange, piece, hpiece, hnumber⟩
  · rintro ⟨range, hrange, piece, hpiece, hnumber⟩
    exact ⟨piece, ⟨range, hrange, hpiece⟩, hnumber⟩

/-- Cutting the same interval out of every interval removes it from the union. -/
theorem members_flatMap_cutOut (target : ℕ × ℕ) (ranges : List (ℕ × ℕ)) :
    members (ranges.flatMap (cutOut target)) =
      members ranges \ Set.Icc target.1 target.2 := by
  ext number
  rw [members_flatMap]
  simp only [members_cutOut, Set.mem_sdiff, Set.mem_Icc, mem_members]
  constructor
  · rintro ⟨range, hrange, hinside, houtside⟩
    exact ⟨⟨range, hrange, hinside⟩, houtside⟩
  · rintro ⟨⟨range, hrange, hinside⟩, houtside⟩
    exact ⟨range, hrange, hinside, houtside⟩

theorem apart_flatMap_cutOut (htarget : target.1 ≤ target.2) (hapart : ranges.Pairwise Apart) :
    (ranges.flatMap (cutOut target)).Pairwise Apart := by
  rw [pairwise_flatMap]
  constructor
  · intro range _
    rw [cutOut]
    split_ifs with hbelow habove habove
    · simp only [singleton_append, pairwise_cons, mem_singleton, forall_eq, Apart]
      refine ⟨by omega, by simp⟩
    all_goals simp
  · refine hapart.imp fun {left right} hdisjoint => ?_
    intro leftPiece hleft rightPiece hright
    rw [mem_cutOut] at hleft hright
    rcases hleft with ⟨_, rfl⟩ | ⟨_, rfl⟩ <;> rcases hright with ⟨_, rfl⟩ | ⟨_, rfl⟩ <;>
      · simp only [Apart] at hdisjoint ⊢
        omega

end OblogProxy.Intervals
