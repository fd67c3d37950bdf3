import Mathlib

/-!
# Feeds behind a cursor

A source saves entries in the order of their keys.  A sink asks for the entries whose
keys are beyond the greatest key it has stored, and stores a bounded number of them.
Entries may share a key, so an entry whose key the sink has already reached is lost; this
is the only way to lose one.
-/

namespace OblogProxy.Feed

open List

structure State (Entry : Type*) where
  saved : List Entry
  stored : List Entry

inductive Step (Entry : Type*) where
  | save (entry : Entry)
  | report

variable {Entry Key : Type*} [LinearOrder Key] [OrderBot Key] (key : Entry → Key)

/-- The greatest key that is stored. -/
def cursor (stored : List Entry) : Key :=
  stored.foldr (fun entry greatest => max (key entry) greatest) ⊥

/-- What the sink has not reached. -/
def pending (state : State Entry) : List Entry :=
  state.saved.filter fun entry => cursor key state.stored < key entry

def step (limit : ℕ) (state : State Entry) : Step Entry → State Entry
  | .save entry => { state with saved := state.saved ++ [entry] }
  | .report => { state with stored := state.stored ++ (pending key state).take limit }

def run (limit : ℕ) (state : State Entry) (steps : List (Step Entry)) : State Entry :=
  steps.foldl (step key limit) state

def saves (steps : List (Step Entry)) : List Entry :=
  steps.filterMap fun
    | .save entry => some entry
    | .report => none

/-- The step leaves no entry behind the cursor: what is saved is beyond it, and a report
does not end between entries of one key. -/
def Clean (limit : ℕ) (state : State Entry) : Step Entry → Prop
  | .save entry => cursor key state.stored < key entry
  | .report => ∀ last ∈ ((pending key state).take limit).getLast?,
      ∀ next ∈ ((pending key state).drop limit).head?, key last < key next

def CleanRun (limit : ℕ) : State Entry → List (Step Entry) → Prop
  | _, [] => True
  | state, first :: steps =>
    Clean key limit state first ∧ CleanRun limit (step key limit state first) steps

/-- What is not pending is stored, each entry once. -/
def Complete (state : State Entry) : Prop :=
  state.saved = state.stored ++ pending key state

/-- Some entry up to the cursor is not stored. -/
def Lost (state : State Entry) : Prop :=
  state.stored.length < state.saved.countP fun entry => key entry ≤ cursor key state.stored

variable {key}

variable {entry : Entry}

theorem le_cursor {stored : List Entry} (hentry : entry ∈ stored) :
    key entry ≤ cursor key stored := by
  induction stored with
  | nil => cases hentry
  | cons head stored ih =>
    rcases mem_cons.mp hentry with rfl | hmem
    · exact le_max_left _ _
    · exact (ih hmem).trans (le_max_right _ _)

theorem cursor_le {stored : List Entry} {bound : Key}
    (hbound : ∀ entry ∈ stored, key entry ≤ bound) : cursor key stored ≤ bound := by
  induction stored with
  | nil => exact bot_le
  | cons head stored ih =>
    rw [forall_mem_cons] at hbound
    exact max_le hbound.1 (ih hbound.2)

theorem cursor_append (front back : List Entry) :
    cursor key (front ++ back) = max (cursor key front) (cursor key back) := by
  induction front with
  | nil => exact (max_eq_right bot_le).symm
  | cons head front ih =>
    change max _ (cursor key (front ++ back)) = max (max _ (cursor key front)) _
    rw [ih, max_assoc]

theorem cursor_concat {front : List Entry} {last : Entry}
    (hsorted : (front ++ [last]).Pairwise fun left right => key left ≤ key right) :
    cursor key (front ++ [last]) = key last := by
  apply le_antisymm
  · refine cursor_le fun entry hentry => ?_
    rcases mem_append.mp hentry with hfront | hlast
    · exact (pairwise_append.mp hsorted).2.2 entry hfront last mem_cons_self
    · rw [mem_singleton.mp hlast]
  · exact le_cursor (mem_append_right _ mem_cons_self)

section Steps

variable {limit : ℕ} {state : State Entry}

theorem sorted_pending (hsorted : state.saved.Pairwise fun left right => key left ≤ key right) :
    (pending key state).Pairwise fun left right => key left ≤ key right :=
  hsorted.sublist filter_sublist

theorem cursor_lt_of_mem_pending (hentry : entry ∈ pending key state) :
    cursor key state.stored < key entry :=
  of_decide_eq_true (mem_filter.mp hentry).2

/-- The entries up to a later cursor are those up to the cursor and some pending ones. -/
theorem countP_le_cursor {later : Key} (hlater : cursor key state.stored ≤ later) :
    state.saved.countP (fun entry => key entry ≤ later) =
      state.saved.countP (fun entry => key entry ≤ cursor key state.stored) +
        (pending key state).countP fun entry => key entry ≤ later := by
  rw [pending]
  induction state.saved with
  | nil => rfl
  | cons entry saved ih =>
    by_cases hpast : key entry ≤ cursor key state.stored
    · simp [hpast, hpast.trans hlater, not_lt.mpr hpast]
      omega
    · simp [hpast, not_le.mp hpast, countP_cons]
      omega

theorem countP_stored {later : Key} (hlater : cursor key state.stored ≤ later) :
    state.stored.countP (fun entry => key entry ≤ later) = state.stored.length := by
  rw [countP_eq_length]
  intro entry hentry
  exact decide_eq_true ((le_cursor hentry).trans hlater)

variable (key) in
theorem cursor_le_append (front back : List Entry) :
    cursor key front ≤ cursor key (front ++ back) := by
  rw [cursor_append]
  exact le_max_left _ _

variable (key) in
theorem countP_take (limit : ℕ) (state : State Entry) :
    ((pending key state).take limit).countP (fun entry =>
      key entry ≤ cursor key (state.stored ++ (pending key state).take limit)) =
        ((pending key state).take limit).length := by
  rw [countP_eq_length]
  intro entry hentry
  exact decide_eq_true (le_cursor (mem_append_right _ hentry))

theorem Lost.step (hlost : Lost key state) (next : Step Entry) :
    Lost key (Feed.step key limit state next) := by
  rw [Lost] at hlost
  cases next with
  | save entry =>
    rw [Lost, Feed.step, countP_append]
    exact Nat.lt_add_right _ hlost
  | report =>
    have hbatch := (take_sublist limit (pending key state)).countP_le (p := fun entry =>
      key entry ≤ cursor key (state.stored ++ (pending key state).take limit))
    rw [countP_take key] at hbatch
    rw [Lost, Feed.step, length_append, countP_le_cursor (cursor_le_append key _ _)]
    omega

theorem Complete.save (hcomplete : Complete key state)
    (hclean : Clean key limit state (.save entry)) :
    Complete key (step key limit state (.save entry)) := by
  have hbeyond : cursor key state.stored < key entry := hclean
  have hpending : pending key (step key limit state (.save entry)) =
      pending key state ++ [entry] := by
    change (state.saved ++ [entry]).filter (fun entry => cursor key state.stored < key entry) = _
    simp [pending, hbeyond]
  rw [Complete, hpending, ← append_assoc]
  exact congrArg (· ++ [entry]) hcomplete

theorem Complete.lost_save (hcomplete : Complete key state)
    (hclean : ¬Clean key limit state (.save entry)) :
    Lost key (step key limit state (.save entry)) := by
  have hpast : key entry ≤ cursor key state.stored := not_lt.mp hclean
  have hstored := countP_stored (le_refl (cursor key state.stored))
  change state.stored.length <
    (state.saved ++ [entry]).countP fun entry => key entry ≤ cursor key state.stored
  rw [hcomplete, countP_append, countP_append, hstored, countP_singleton,
    if_pos (decide_eq_true hpast)]
  omega

theorem cursor_report (hsorted : state.saved.Pairwise fun left right => key left ≤ key right)
    {last : Entry} (hlast : last ∈ ((pending key state).take limit).getLast?) :
    cursor key (state.stored ++ (pending key state).take limit) = key last := by
  obtain ⟨front, hfront⟩ := getLast?_eq_some_iff.mp hlast
  have hbatch : ((pending key state).take limit).Pairwise fun left right => key left ≤ key right :=
    (sorted_pending hsorted).sublist (take_sublist _ _)
  have hmem : last ∈ pending key state := take_subset _ _ (mem_of_getLast? hlast)
  rw [hfront] at hbatch ⊢
  rw [cursor_append, cursor_concat hbatch]
  exact max_eq_right (cursor_lt_of_mem_pending hmem).le

/-- Behind a clean report everything that is left is beyond the cursor. -/
theorem Clean.lt_of_mem_drop (hclean : Clean key limit state .report)
    (hsorted : state.saved.Pairwise fun left right => key left ≤ key right)
    (hentry : entry ∈ (pending key state).drop limit) :
    cursor key (state.stored ++ (pending key state).take limit) < key entry := by
  cases hbatch : ((pending key state).take limit).getLast? with
  | none =>
    rw [getLast?_eq_none_iff.mp hbatch, append_nil]
    exact cursor_lt_of_mem_pending (drop_subset _ _ hentry)
  | some last =>
    rw [cursor_report hsorted hbatch]
    have hdrop := (sorted_pending hsorted).sublist (drop_sublist limit _)
    cases hrest : (pending key state).drop limit with
    | nil =>
      rw [hrest] at hentry
      cases hentry
    | cons next rest =>
      have hnext := hclean last hbatch next (by rw [hrest]; rfl)
      rw [hrest] at hentry hdrop
      rcases mem_cons.mp hentry with rfl | hmem
      · exact hnext
      · exact hnext.trans_le ((pairwise_cons.mp hdrop).1 entry hmem)

theorem Complete.split (hcomplete : Complete key state) (limit : ℕ) :
    state.saved =
      (state.stored ++ (pending key state).take limit) ++ (pending key state).drop limit := by
  rw [append_assoc, take_append_drop]
  exact hcomplete

section Sorted

variable (hcomplete : Complete key state)
  (hsorted : state.saved.Pairwise fun left right => key left ≤ key right)

include hcomplete hsorted

theorem Complete.pending_report (hclean : Clean key limit state .report) :
    pending key (step key limit state .report) = (pending key state).drop limit := by
  have hstored : ∀ entry ∈ state.stored ++ (pending key state).take limit,
      ¬decide (cursor key (state.stored ++ (pending key state).take limit) < key entry) = true :=
    fun entry hentry => by simpa using le_cursor hentry
  have hrest : ∀ entry ∈ (pending key state).drop limit,
      decide (cursor key (state.stored ++ (pending key state).take limit) < key entry) = true :=
    fun entry hentry => decide_eq_true (hclean.lt_of_mem_drop hsorted hentry)
  change state.saved.filter (fun entry =>
    cursor key (state.stored ++ (pending key state).take limit) < key entry) = _
  rw [hcomplete.split limit, filter_append, filter_eq_nil_iff.mpr hstored, nil_append,
    filter_eq_self.mpr hrest]

theorem Complete.report (hclean : Clean key limit state .report) :
    Complete key (step key limit state .report) := by
  rw [Complete, hcomplete.pending_report hsorted hclean]
  exact hcomplete.split limit

/-- A report that ends between entries of one key loses those it does not bring. -/
theorem Complete.lost_report (hclean : ¬Clean key limit state .report) :
    Lost key (step key limit state .report) := by
  simp only [Clean, not_forall] at hclean
  obtain ⟨last, hlast, next, hnext, hle⟩ := hclean
  have hstored := countP_stored (cursor_le_append key state.stored ((pending key state).take limit))
  have htake := countP_take key limit state
  have hrest : 0 < ((pending key state).drop limit).countP fun entry =>
      key entry ≤ cursor key (state.stored ++ (pending key state).take limit) := by
    rw [countP_pos_iff]
    refine ⟨next, mem_of_head? hnext, decide_eq_true ?_⟩
    rw [cursor_report hsorted hlast]
    exact not_lt.mp hle
  change (state.stored ++ (pending key state).take limit).length < state.saved.countP fun entry =>
    key entry ≤ cursor key (state.stored ++ (pending key state).take limit)
  rw [hcomplete.split limit, countP_append, countP_append, hstored, htake, length_append]
  omega

end Sorted

end Steps

section Runs

variable {limit : ℕ} {state : State Entry} {steps : List (Step Entry)}

theorem saves_append (front back : List (Step Entry)) :
    saves (front ++ back) = saves front ++ saves back :=
  filterMap_append

theorem saves_reports (count : ℕ) : saves (replicate count (.report : Step Entry)) = [] := by
  induction count with
  | zero => rfl
  | succ count ih => exact ih

variable (key) in
theorem saved_run (limit : ℕ) (state : State Entry) (steps : List (Step Entry)) :
    (run key limit state steps).saved = state.saved ++ saves steps := by
  induction steps generalizing state with
  | nil => exact (append_nil _).symm
  | cons first steps ih =>
    rw [run, foldl_cons]
    refine (ih (step key limit state first)).trans ?_
    cases first with
    | save entry => exact append_assoc state.saved [entry] (saves steps)
    | report => rfl

variable (key) in
theorem run_append (limit : ℕ) (state : State Entry) (front back : List (Step Entry)) :
    run key limit state (front ++ back) = run key limit (run key limit state front) back :=
  foldl_append

theorem Lost.run (hlost : Lost key state) (limit : ℕ) (steps : List (Step Entry)) :
    Lost key (Feed.run key limit state steps) := by
  induction steps generalizing state with
  | nil => exact hlost
  | cons first steps ih => exact ih (hlost.step first)

/-- A run without a step that leaves an entry behind stays complete, and every other run
loses an entry. -/
theorem Complete.run (hcomplete : Complete key state)
    (hsorted : (state.saved ++ saves steps).Pairwise fun left right => key left ≤ key right) :
    (CleanRun key limit state steps → Complete key (Feed.run key limit state steps)) ∧
      (¬CleanRun key limit state steps → Lost key (Feed.run key limit state steps)) := by
  induction steps generalizing state with
  | nil => exact ⟨fun _ => hcomplete, fun hdirty => absurd trivial hdirty⟩
  | cons first steps ih =>
    have hnext : ((step key limit state first).saved ++ saves steps).Pairwise
        fun left right => key left ≤ key right := by
      cases first with
      | save entry => simpa [step, saves] using hsorted
      | report => exact hsorted
    have hnow : state.saved.Pairwise fun left right => key left ≤ key right :=
      (pairwise_append.mp hsorted).1
    by_cases hclean : Clean key limit state first
    · have hstep : Complete key (step key limit state first) := by
        cases first with
        | save entry => exact hcomplete.save hclean
        | report => exact hcomplete.report hnow hclean
      refine ⟨fun hrun => (ih hstep hnext).1 hrun.2, fun hdirty => (ih hstep hnext).2 ?_⟩
      exact fun hrest => hdirty ⟨hclean, hrest⟩
    · have hstep : Lost key (step key limit state first) := by
        cases first with
        | save entry => exact hcomplete.lost_save hclean
        | report => exact hcomplete.lost_report hnow hclean
      exact ⟨fun hrun => absurd hrun.1 hclean, fun _ => hstep.run limit steps⟩

theorem cleanRun_append (front back : List (Step Entry)) :
    CleanRun key limit state (front ++ back) ↔
      CleanRun key limit state front ∧ CleanRun key limit (run key limit state front) back := by
  induction front generalizing state with
  | nil => exact (and_iff_right trivial).symm
  | cons first front ih =>
    rw [cons_append, CleanRun, CleanRun, ih, and_assoc]
    rfl

theorem Complete.stored_reports (hcomplete : Complete key state)
    (hsorted : state.saved.Pairwise fun left right => key left ≤ key right) (hlimit : 0 < limit)
    {count : ℕ} (hcount : (pending key state).length ≤ count)
    (hclean : CleanRun key limit state (replicate count .report)) :
    (Feed.run key limit state (replicate count .report)).stored = state.saved := by
  induction count generalizing state with
  | zero =>
    have hnone : pending key state = [] := length_eq_zero_iff.mp (Nat.le_zero.mp hcount)
    rw [Complete, hnone, append_nil] at hcomplete
    exact hcomplete.symm
  | succ count ih =>
    have hpending := hcomplete.pending_report hsorted hclean.1
    refine ih (hcomplete.report hsorted hclean.1) hsorted ?_ hclean.2
    rw [hpending, length_drop]
    omega

variable (key) in
theorem length_stored_reports (limit : ℕ) (state : State Entry) (count : ℕ) :
    state.stored.length ≤
      (run key limit state (replicate count .report)).stored.length := by
  induction count generalizing state with
  | zero => exact le_rfl
  | succ count ih =>
    refine le_trans ?_ (ih (step key limit state .report))
    rw [step, length_append]
    exact Nat.le_add_right _ _

/-- With enough reports behind it, a run brings every entry exactly once if and only if no
step and none of the reports leaves an entry behind. -/
theorem exists_stored_iff (hcomplete : Complete key state) (hlimit : 0 < limit)
    (hsorted : (state.saved ++ saves steps).Pairwise fun left right => key left ≤ key right) :
    (∃ enough, ∀ count ≥ enough,
        (run key limit state (steps ++ replicate count .report)).stored.Perm
          (state.saved ++ saves steps)) ↔
      ∀ count, CleanRun key limit state (steps ++ replicate count .report) := by
  have hreports (count : ℕ) : (state.saved ++ saves (steps ++ replicate count
      (.report : Step Entry))).Pairwise fun left right => key left ≤ key right := by
    rwa [saves_append, saves_reports, append_nil]
  constructor
  · rintro ⟨count, henough⟩ other
    have hperm := henough count le_rfl
    by_contra hdirty
    -- what is lost after `other` reports is still missing after `count` more of them
    have hlost := ((hcomplete.run (hreports other)).2 hdirty).run limit
      (replicate count .report)
    have hmore := length_stored_reports key limit
      (run key limit state (steps ++ replicate count .report)) other
    rw [← run_append, append_assoc, replicate_append_replicate] at hlost hmore
    rw [hperm.length_eq, Nat.add_comm count other] at hmore
    have hfew := countP_le_length (p := fun entry => key entry ≤ cursor key
      (run key limit state (steps ++ replicate (other + count) .report)).stored)
      (l := (run key limit state (steps ++ replicate (other + count) .report)).saved)
    rw [Lost] at hlost
    rw [saved_run, saves_append, saves_reports, append_nil] at hlost hfew
    omega
  · intro hclean
    have hrun : Complete key (run key limit state steps) :=
      (hcomplete.run hsorted).1 ((cleanRun_append steps _).mp (hclean 0)).1
    refine ⟨(pending key (run key limit state steps)).length, fun count hcount => ?_⟩
    rw [run_append, hrun.stored_reports ?_ hlimit hcount
      ((cleanRun_append steps _).mp (hclean count)).2, saved_run]
    rw [saved_run]
    exact hsorted

end Runs

end OblogProxy.Feed
