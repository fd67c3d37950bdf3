import Mathlib

/-!
# Loops over a position

A loop is a partial function on its states: it gives the state after one more
iteration, or nothing when the loop ends.  A loop that moves a position below
some size forward ends within that size; one that comes back to the position it
is at repeats itself.
-/

namespace OblogProxy.Loop

variable {State : Type*} (step : State → Option State)

/-- The state the loop ends in; `none` is a loop that does not end within the fuel. -/
def finish : ℕ → State → Option State
  | 0, _ => none
  | fuel + 1, state =>
    match step state with
    | none => some state
    | some next => finish fuel next

def EndsWithin : ℕ → State → Prop
  | 0, state => step state = none
  | bound + 1, state => ∀ next, step state = some next → EndsWithin bound next

inductive Reaches (start : State) : State → Prop
  | refl : Reaches start start
  | next {state next : State} (hreaches : Reaches start state) (hstep : step state = some next) :
      Reaches start next

variable {step} {start : State}

variable {bound : ℕ} {state : State}

theorem EndsWithin.succ (hends : EndsWithin step bound state) :
    EndsWithin step (bound + 1) state := by
  induction bound generalizing state with
  | zero =>
    intro next hstep
    rw [hends] at hstep
    cases hstep
  | succ bound ih => exact fun next hstep => ih (hends next hstep)

theorem EndsWithin.mono {other : ℕ} (hle : bound ≤ other) (hends : EndsWithin step bound state) :
    EndsWithin step other state := by
  induction hle with
  | refl => exact hends
  | step _ ih => exact ih.succ

theorem EndsWithin.of_reaches (hends : EndsWithin step bound start)
    (hreaches : Reaches step start state) : EndsWithin step bound state := by
  induction hreaches with
  | refl => exact hends
  | next _ hstep ih => exact (ih.succ _ hstep)

/-- What is repeated never ends. -/
theorem not_endsWithin {Stuck : State → Prop}
    (hstuck : ∀ state, Stuck state → ∃ next, step state = some next ∧ Stuck next)
    (hstate : Stuck state) (bound : ℕ) : ¬EndsWithin step bound state := by
  induction bound generalizing state with
  | zero =>
    intro hends
    obtain ⟨next, hstep, -⟩ := hstuck state hstate
    rw [EndsWithin, hstep] at hends
    cases hends
  | succ bound ih =>
    intro hends
    obtain ⟨next, hstep, hnext⟩ := hstuck state hstate
    exact ih hnext (hends next hstep)

section Position

variable {position : State → ℕ} {size bound : ℕ}

/-- Every iteration moves the position forward, unless it is the last one and keeps
it. -/
def Advances (step : State → Option State) (position : State → ℕ) (start : State) : Prop :=
  ∀ state next, Reaches step start state → step state = some next →
    position state < position next ∨ position next = position state ∧ step next = none

/-- The loop ends within the bound and never moves its position backwards. -/
structure Bounded (step : State → Option State) (position : State → ℕ) (bound : ℕ)
    (start : State) : Prop where
  ends : EndsWithin step bound start
  forward : ∀ state next, Reaches step start state → step state = some next →
    position state ≤ position next

theorem Advances.endsWithin (hadvances : Advances step position start)
    (hsize : ∀ state next, step state = some next → position state < size)
    (hreaches : Reaches step start state) (hbound : size + 1 - position state ≤ bound) :
    EndsWithin step bound state := by
  induction bound generalizing state with
  | zero =>
    rw [EndsWithin, Option.eq_none_iff_forall_ne_some]
    intro next hstep
    have hlt := hsize state next hstep
    omega
  | succ bound ih =>
    intro next hstep
    rcases hadvances state next hreaches hstep with hlt | ⟨-, hend⟩
    · exact ih (Reaches.next hreaches hstep) (by omega)
    · have hnow : EndsWithin step 0 next := hend
      exact hnow.mono (Nat.zero_le bound)

/-- A loop that repeats itself once it keeps its position is bounded exactly if it
advances. -/
theorem bounded_iff_advances
    (hsize : ∀ state next, step state = some next → position state < size)
    (hrepeats : ∀ state next later, Reaches step start state → step state = some next →
      position next = position state → step next = some later →
        position later = position next ∧ (step later).isSome)
    (hbound : size + 1 - position start ≤ bound) :
    Bounded step position bound start ↔ Advances step position start := by
  constructor
  · intro hbounded state next hreaches hstep
    rcases Nat.lt_or_eq_of_le (hbounded.forward state next hreaches hstep) with hlt | heq
    · exact Or.inl hlt
    · refine Or.inr ⟨heq.symm, ?_⟩
      by_contra hgoes
      -- the loop stays where it is, and each iteration is followed by another
      have hstuck : ∀ state, (Reaches step start state ∧ ∃ next, step state = some next ∧
          position next = position state ∧ (step next).isSome) →
          ∃ next, step state = some next ∧ Reaches step start next ∧ ∃ later,
            step next = some later ∧ position later = position next ∧ (step later).isSome := by
        rintro state ⟨hreaches, next, hstep, hsame, hsome⟩
        obtain ⟨later, hlater⟩ := Option.isSome_iff_exists.mp hsome
        exact ⟨next, hstep, hreaches.next hstep, later, hlater,
          hrepeats state next later hreaches hstep hsame hlater⟩
      exact not_endsWithin hstuck
        ⟨hreaches, next, hstep, heq.symm, Option.isSome_iff_ne_none.mpr hgoes⟩ bound
        (hbounded.ends.of_reaches hreaches)
  · intro hadvances
    refine ⟨hadvances.endsWithin hsize Reaches.refl hbound, ?_⟩
    intro state next hreaches hstep
    rcases hadvances state next hreaches hstep with hlt | ⟨heq, -⟩
    · exact hlt.le
    · exact heq.ge

end Position

end OblogProxy.Loop

namespace OblogProxy.Bisect

variable {α : Type*} (wrapped : ℕ) (beyond : α → Bool)

/-- The index before; `wrapped` stands for the one before zero. -/
def pred (index : ℕ) : ℕ :=
  if index = 0 then wrapped else index - 1

/-- The upper index behind the loop.  `none` is an index that is not in the list, or a
loop that has not ended within the turns. -/
def bisect (items : List α) : ℕ → ℕ → ℕ → Option ℕ
  | 0, _, _ => none
  | turns + 1, low, high =>
    if low ≤ high then
      let middle := low + (high - low) / 2
      match items[middle]? with
      | none => none
      | some item =>
        if beyond item then bisect items turns low (pred wrapped middle)
        else bisect items turns (middle + 1) high
    else some high

variable {wrapped beyond} {front back : List α}

section Bisected

variable (hfront : ∀ item ∈ front, beyond item = false)
  (hback : ∀ item ∈ back, beyond item = true) (hne : front ≠ [])

include hfront hback hne

/-- The upper index stays above an item that is not beyond, so it does not wrap around,
and the items that are not yet decided become fewer with every turn. -/
theorem bisect_append {turns low high : ℕ} (hlow : low ≤ front.length)
    (hhigh : front.length ≤ high + 1) (hinside : high < (front ++ back).length)
    (hturns : high + 1 - low < turns) :
    bisect wrapped beyond (front ++ back) turns low high = some (front.length - 1) := by
  have hpositive := List.length_pos_iff.mpr hne
  induction turns generalizing low high with
  | zero => omega
  | succ turns ih =>
    rw [bisect]
    split_ifs with hle
    · dsimp only
      set middle := low + (high - low) / 2 with hmiddle
      have hmiddleLt : middle < (front ++ back).length := by omega
      rw [List.getElem?_eq_getElem hmiddleLt]
      dsimp only
      by_cases hside : middle < front.length
      · rw [List.getElem_append_left hside, hfront _ (List.getElem_mem hside),
          if_neg Bool.false_ne_true]
        exact ih (by omega) (by omega) (by omega) (by omega)
      · rw [List.getElem_append_right (by omega), hback _ (List.getElem_mem _), if_pos rfl,
          pred, if_neg (by omega)]
        exact ih (by omega) (by omega) (by omega) (by omega)
    · congr 1
      omega

/-- The whole list, within as many turns as it has items. -/
theorem bisect_eq :
    bisect wrapped beyond (front ++ back) ((front ++ back).length + 1) 0
      ((front ++ back).length - 1) = some (front.length - 1) := by
  have hpositive := List.length_pos_iff.mpr hne
  have hlength := @List.length_append _ front back
  exact bisect_append hfront hback hne (by omega) (by omega) (by omega) (by omega)

end Bisected

end OblogProxy.Bisect

namespace OblogProxy.BatchDelete

variable {Row : Type*} (condition : Row → Bool)

/-- The rows that are left when at most `limit` rows that meet the condition are
deleted. -/
def deleteSome : ℕ → List Row → List Row
  | 0, rows => rows
  | _ + 1, [] => []
  | limit + 1, row :: rows =>
    if condition row then deleteSome limit rows else row :: deleteSome (limit + 1) rows

/-- The loop; a turn that deletes nothing is the last one. -/
def deleteLoop (limit : ℕ) : ℕ → List Row → List Row
  | 0, rows => rows
  | fuel + 1, rows =>
    let left := deleteSome condition limit rows
    if left.length < rows.length then deleteLoop limit fuel left else left

/-- A turn that deletes nothing leaves at most as many turns as there are rows. -/
def deleteAll (limit : ℕ) (rows : List Row) : List Row :=
  deleteLoop condition limit (rows.length + 1) rows

variable {condition}

variable (condition) in
theorem deleteSome_sublist (limit : ℕ) (rows : List Row) :
    (deleteSome condition limit rows).Sublist rows := by
  induction rows generalizing limit with
  | nil => cases limit <;> exact List.Sublist.refl _
  | cons row rows ih =>
    cases limit with
    | zero => exact List.Sublist.refl _
    | succ limit =>
      rw [deleteSome]
      split_ifs
      · exact (ih limit).cons row
      · exact (ih (limit + 1)).cons_cons row

/-- A turn keeps the rows that do not meet the condition. -/
theorem filter_deleteSome (limit : ℕ) (rows : List Row) :
    (deleteSome condition limit rows).filter (fun row => !condition row) =
      rows.filter fun row => !condition row := by
  induction rows generalizing limit with
  | nil => cases limit <;> rfl
  | cons row rows ih =>
    cases limit with
    | zero => rfl
    | succ limit =>
      rw [deleteSome]
      split_ifs with hrow
      · rw [ih, List.filter_cons_of_neg (by simp [hrow])]
      · rw [List.filter_cons_of_pos (by simp [hrow]), List.filter_cons_of_pos (by simp [hrow]), ih]

theorem condition_eq_false {limit : ℕ} (hlimit : 0 < limit) {rows : List Row}
    (hkept : ¬(deleteSome condition limit rows).length < rows.length) :
    ∀ row ∈ rows, condition row = false := by
  obtain ⟨limit, rfl⟩ := Nat.exists_eq_succ_of_ne_zero hlimit.ne'
  induction rows with
  | nil => simp
  | cons row rows ih =>
    rw [deleteSome] at hkept
    split_ifs at hkept with hrow
    · have hle := (deleteSome_sublist condition limit rows).length_le
      rw [List.length_cons] at hkept
      omega
    · rw [List.length_cons, List.length_cons, Nat.succ_lt_succ_iff] at hkept
      rw [List.forall_mem_cons]
      exact ⟨by simpa using hrow, ih hkept⟩

theorem deleteLoop_eq_filter {limit : ℕ} (hlimit : 0 < limit) {fuel : ℕ} {rows : List Row}
    (hfuel : rows.length < fuel) :
    deleteLoop condition limit fuel rows = rows.filter fun row => !condition row := by
  induction fuel generalizing rows with
  | zero => cases hfuel
  | succ fuel ih =>
    rw [deleteLoop]
    split_ifs with hdeleted
    · rw [ih (by omega), filter_deleteSome]
    · have hnone := condition_eq_false hlimit hdeleted
      have hsame : deleteSome condition limit rows = rows :=
        (deleteSome_sublist condition limit rows).eq_of_length_le (by omega)
      rw [hsame]
      symm
      rw [List.filter_eq_self]
      intro row hrow
      rw [hnone row hrow, Bool.not_false]

/-- In the end the rows that do not meet the condition are left. -/
theorem deleteAll_eq_filter {limit : ℕ} (hlimit : 0 < limit) (rows : List Row) :
    deleteAll condition limit rows = rows.filter fun row => !condition row :=
  deleteLoop_eq_filter hlimit (Nat.lt_succ_self _)

theorem deleteAll_zero (rows : List Row) : deleteAll condition 0 rows = rows := by
  simp [deleteAll, deleteLoop, deleteSome]

end OblogProxy.BatchDelete
