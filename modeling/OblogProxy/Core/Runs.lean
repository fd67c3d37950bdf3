import Mathlib.Data.List.Basic

/-!
# Runs of a machine

A machine takes one step after the other, in whatever order they come.  Two conditions on a
step that agree in the states that the steps keep agree along a run, and a property that each
step keeps exactly under a condition holds along a run exactly if every step meets it.
-/

namespace OblogProxy.Runs

variable {State Step : Type*} (step : State → Step → State)

/-- Every step of the run meets the condition in the state from which it is taken. -/
def Along (Meets : State → Step → Prop) : State → List Step → Prop
  | _, [] => True
  | state, first :: rest => Meets state first ∧ Along Meets (step state first) rest

instance Along.decidable {Meets : State → Step → Prop} [∀ state next, Decidable (Meets state next)] :
    (state : State) → (steps : List Step) → Decidable (Along step Meets state steps)
  | _, [] => .isTrue trivial
  | state, first :: rest =>
    have : Decidable (Along step Meets (step state first) rest) := Along.decidable _ rest
    inferInstanceAs (Decidable (Meets state first ∧ Along step Meets (step state first) rest))

/-- Every state of the run has the property. -/
def Always (Good : State → Prop) (state : State) (steps : List Step) : Prop :=
  Good state ∧ Along step (fun before next => Good (step before next)) state steps

variable {step} {Assumed Meets Other : State → Step → Prop} {Good Kept : State → Prop}
  {state : State}

/-- The conditions may be compared under an assumption about the steps, and `Kept` is what a
step that meets them keeps. -/
theorem along_iff_along
    (hstep : ∀ state next, Kept state → Assumed state next →
      (Meets state next ↔ Other state next))
    (hkept : ∀ state next, Kept state → Assumed state next → Meets state next →
      Kept (step state next))
    (hstart : Kept state) {steps : List Step} (hassumed : Along step Assumed state steps) :
    Along step Meets state steps ↔ Along step Other state steps := by
  induction steps generalizing state with
  | nil => rfl
  | cons first rest ih =>
    obtain ⟨hfirst, hrest⟩ := hassumed
    constructor
    · rintro ⟨hmeets, hmeetsRest⟩
      have hnext := hkept state first hstart hfirst hmeets
      exact ⟨(hstep state first hstart hfirst).mp hmeets, (ih hnext hrest).mp hmeetsRest⟩
    · rintro ⟨hother, hotherRest⟩
      have hmeets := (hstep state first hstart hfirst).mpr hother
      have hnext := hkept state first hstart hfirst hmeets
      exact ⟨hmeets, (ih hnext hrest).mpr hotherRest⟩

/-- An invariant under which every step meets the condition. -/
theorem along_of_kept (hmeets : ∀ state next, Kept state → Meets state next)
    (hkept : ∀ state next, Kept state → Kept (step state next)) (hstart : Kept state)
    (steps : List Step) : Along step Meets state steps := by
  induction steps generalizing state with
  | nil => trivial
  | cons first rest ih => exact ⟨hmeets state first hstart, ih (hkept state first hstart)⟩

theorem kept_of_along (hkept : ∀ state next, Kept state → Meets state next → Kept (step state next))
    (hstart : Kept state) {steps : List Step} (hmeets : Along step Meets state steps) :
    Kept (steps.foldl step state) := by
  induction steps generalizing state with
  | nil => exact hstart
  | cons first rest ih => exact ih (hkept state first hstart hmeets.1) hmeets.2

theorem along_of_forall (hmeets : ∀ state next, Meets state next) (state : State)
    (steps : List Step) : Along step Meets state steps :=
  @along_of_kept _ _ step Meets (fun _ => True) state (fun state next _ => hmeets state next)
    (fun _ _ _ => trivial) trivial steps

/-- `Kept` is what the steps keep besides, as long as the property holds. -/
theorem always_iff_along_assuming
    (hstep : ∀ state next, Kept state → Good state → Assumed state next →
      (Good (step state next) ↔ Meets state next))
    (hkept : ∀ state next, Kept state → Good state → Assumed state next →
      Good (step state next) → Kept (step state next))
    (hstart : Kept state) (hgood : Good state) {steps : List Step}
    (hassumed : Along step Assumed state steps) :
    Always step Good state steps ↔ Along step Meets state steps := by
  have halong := @along_iff_along _ _ step Assumed
    (fun before next => Good (step before next)) Meets (fun state => Kept state ∧ Good state) state
    (fun state next hboth => hstep state next hboth.1 hboth.2) (fun state next hboth hnext hafter =>
      ⟨hkept state next hboth.1 hboth.2 hnext hafter, hafter⟩)
    ⟨hstart, hgood⟩ steps hassumed
  exact ⟨fun halways => halong.mp halways.2, fun hmeets => ⟨hgood, halong.mpr hmeets⟩⟩

theorem always_iff_along
    (hstep : ∀ state next, Kept state → Good state → (Good (step state next) ↔ Meets state next))
    (hkept : ∀ state next, Kept state → Good state → Kept (step state next))
    (hstart : Kept state) (hgood : Good state) (steps : List Step) :
    Always step Good state steps ↔ Along step Meets state steps :=
  @always_iff_along_assuming _ _ step (fun _ _ => True) Meets Good Kept state
    (fun state next hbefore hgood _ => hstep state next hbefore hgood)
    (fun state next hbefore hgood _ _ => hkept state next hbefore hgood) hstart hgood steps
    (along_of_forall (fun _ _ => trivial) state steps)

/-- A property that holds behind a run and not in front of it is brought about by one of the
steps. -/
theorem exists_turn {steps : List Step} (hbefore : ¬ Good state)
    (hafter : Good (steps.foldl step state)) :
    ∃ front turn back, steps = front ++ turn :: back ∧ ¬ Good (front.foldl step state) ∧
      Good (step (front.foldl step state) turn) := by
  induction steps generalizing state with
  | nil => exact absurd hafter hbefore
  | cons first rest ih =>
    by_cases hfirst : Good (step state first)
    · exact ⟨[], first, rest, rfl, hbefore, hfirst⟩
    · obtain ⟨front, turn, back, rfl, hfront, hturn⟩ := ih hfirst hafter
      exact ⟨first :: front, turn, back, rfl, hfront, hturn⟩

end OblogProxy.Runs
