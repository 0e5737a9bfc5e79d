import Mathlib.Logic.Basic

/-!
# Loops given by their turns

A loop is given by what one turn does: it goes on from a new state or leaves
the loop with a result.  Running it takes fuel; a loop that is given up on
returns a result of its own, so whether a loop ends is a statement and not an
assumption.

The rules are an invariant rule, a rule that relates two loops turn by turn, a
termination rule by a measure that every turn decreases, and the converse for a
state that its own turn returns to.
-/

namespace Yimmo.Lib.TurnLoop

variable
    {State Result State' Result' : Type*}
    {result : Result}

/-- What one turn of a loop does. -/
inductive Turn (State Result : Type*) where
  | again (state : State)
  | done (result : Result)

/-- The loop, given up on when the fuel runs out. -/
def loop (turn : State → Turn State Result) (giveUp : State → Result) :
    Nat → State → Result
  | 0, state => giveUp state
  | fuel + 1, state =>
      match turn state with
      | .again later => loop turn giveUp fuel later
      | .done result => result

/-- A property of the state a turn goes on from, or of its result. -/
def Turn.Satisfies (invariant : State → Prop) (post : Result → Prop) :
    Turn State Result → Prop
  | .again state => invariant state
  | .done result => post result

/-- Two turns that both go on, or both leave, in relation. -/
inductive Turn.Rel
    (related : State → State' → Prop)
    (results : Result → Result' → Prop) :
    Turn State Result → Turn State' Result' → Prop where
  | again
      {left : State}
      {right : State'}
      (hold : related left right) :
      Turn.Rel related results (.again left) (.again right)
  | done
      {left : Result}
      {right : Result'}
      (hold : results left right) :
      Turn.Rel related results (.done left) (.done right)

variable
    {turn : State → Turn State Result}
    {giveUp : State → Result}

theorem loop_of_again {state later : State}
    (goesOn : turn state = .again later)
    (fuel : Nat) :
    loop turn giveUp (fuel + 1) state = loop turn giveUp fuel later := by
  rw [loop, goesOn]

theorem loop_of_done {state : State} (leaves : turn state = .done result)
    (fuel : Nat) :
    loop turn giveUp (fuel + 1) state = result := by
  rw [loop, leaves]

/-- What every turn keeps holds of the result, also of a loop given up on. -/
theorem loop_satisfies (invariant : State → Prop) (post : Result → Prop)
    (turns : ∀ state, invariant state → (turn state).Satisfies invariant post)
    (givenUp : ∀ state, invariant state → post (giveUp state))
    (fuel : Nat)
    {state : State}
    (initially : invariant state) :
    post (loop turn giveUp fuel state) := by
  induction fuel generalizing state with
  | zero => exact givenUp state initially
  | succ fuel ih =>
      have satisfied := turns state initially
      rw [loop]
      cases next : turn state with
      | again later =>
          rw [next] at satisfied
          exact ih satisfied
      | done result =>
          rw [next] at satisfied
          exact satisfied

/-- Two loops whose turns correspond have corresponding results. -/
theorem loop_rel {turn' : State' → Turn State' Result'}
    {giveUp' : State' → Result'}
    (related : State → State' → Prop)
    (results : Result → Result' → Prop)
    (turns :
      ∀ left right,
        related left right →
          Turn.Rel related results (turn left) (turn' right))
    (givenUp :
      ∀ left right, related left right → results (giveUp left) (giveUp' right))
    (fuel : Nat)
    {left : State}
    {right : State'}
    (initially : related left right) :
    results (loop turn giveUp fuel left) (loop turn' giveUp' fuel right) := by
  induction fuel generalizing left right with
  | zero => exact givenUp left right initially
  | succ fuel ih =>
      have step := turns left right initially
      rw [loop, loop]
      generalize turn left = first at step ⊢
      generalize turn' right = second at step ⊢
      cases step with
      | again hold => exact ih hold
      | done hold => exact hold

/-- Every turn of the loop is taken in a state that satisfies the guard. -/
def AllTurns (turn : State → Turn State Result) (guard : State → Prop) :
    Nat → State → Prop
  | 0, _ => True
  | fuel + 1, state =>
      guard state ∧
        match turn state with
        | .again later => AllTurns turn guard fuel later
        | .done _ => True

instance decidableAllTurns
    (guard : State → Prop)
    [∀ state, Decidable (guard state)] :
    ∀ fuel state, Decidable (AllTurns turn guard fuel state)
  | 0, _ => .isTrue trivial
  | fuel + 1, state =>
      have :
          Decidable
            (match turn state with
              | .again later => AllTurns turn guard fuel later
              | .done _ => True) :=
        match turn state with
        | .again later => decidableAllTurns guard fuel later
        | .done _ => .isTrue trivial
      inferInstanceAs (Decidable (_ ∧ _))

theorem allTurns_of_again {guard : State → Prop} {fuel : Nat}
    {state later : State}
    (here : guard state)
    (goesOn : turn state = .again later)
    (rest : AllTurns turn guard fuel later) :
    AllTurns turn guard (fuel + 1) state := by
  refine ⟨here, ?_⟩
  rw [goesOn]
  exact rest

theorem allTurns_of_done {guard : State → Prop} {state : State}
    (here : guard state)
    (leaves : turn state = .done result)
    (fuel : Nat) :
    AllTurns turn guard (fuel + 1) state := by
  refine ⟨here, ?_⟩
  rw [leaves]
  trivial

/-- Loops whose turns agree wherever the guard holds have the same result. -/
theorem AllTurns.loop_eq {guard : State → Prop} {fuel : Nat} {state : State}
    (along : AllTurns turn guard fuel state)
    {turn' : State → Turn State Result}
    (same : ∀ state, guard state → turn' state = turn state) :
    loop turn' giveUp fuel state = loop turn giveUp fuel state := by
  induction fuel generalizing state with
  | zero => rfl
  | succ fuel ih =>
      rcases along with ⟨here, later⟩
      rw [loop, loop, same state here]
      cases next : turn state with
      | again state' =>
          rw [next] at later
          exact ih later
      | done result => rfl

/-- A state reached from another by turns that go on. -/
inductive Reaches
    (turn : State → Turn State Result) :
    State → State → Prop where
  | refl
      (state : State) :
      Reaches turn state state
  | step
      {state next later : State}
      (goesOn : turn state = .again next)
      (rest : Reaches turn next later) :
      Reaches turn state later

theorem Reaches.invariant {invariant : State → Prop}
    (preserved :
      ∀ state next,
        invariant state → turn state = .again next → invariant next)
    {state later : State}
    (reaches : Reaches turn state later)
    (initially : invariant state) :
    invariant later := by
  induction reaches with
  | refl state => exact initially
  | step goesOn rest ih => exact ih (preserved _ _ initially goesOn)

/--
A measure that every turn which goes on decreases bounds the fuel: with more
fuel than the measure the loop leaves by a turn of its own.
-/
theorem loop_ends
    (invariant : State → Prop)
    (measure : State → Nat)
    (decreases :
      ∀ state next,
        invariant state →
          turn state = .again next →
            invariant next ∧ measure next < measure state)
    (giveUp : State → Result)
    (fuel : Nat)
    {state : State}
    (initially : invariant state)
    (enough : measure state < fuel) :
    ∃ last,
      Reaches turn state last ∧
        invariant last ∧
          turn last = .done (loop turn giveUp fuel state) := by
  induction fuel generalizing state with
  | zero => exact absurd enough (Nat.not_lt_zero _)
  | succ fuel ih =>
      rw [loop]
      cases next : turn state with
      | again later =>
          have smaller := decreases state later initially next
          rcases ih smaller.1
              (Nat.lt_of_lt_of_le smaller.2 (Nat.le_of_lt_succ enough))
            with ⟨last, reaches, held, ended⟩
          exact ⟨last, .step next reaches, held, ended⟩
      | done result => exact ⟨state, .refl state, initially, next⟩

/-- What holds of the result that a turn leaves with holds of the result of the
loop, if every turn that goes on keeps the invariant and decreases the measure. -/
theorem loop_leaves
    (invariant : State → Prop)
    (measure : State → Nat)
    (post : Result → Prop)
    (turns :
      ∀ state,
        invariant state →
          (turn state).Satisfies
            (fun next => invariant next ∧ measure next < measure state)
            post)
    (giveUp : State → Result)
    (fuel : Nat)
    {state : State}
    (initially : invariant state)
    (enough : measure state < fuel) :
    post (loop turn giveUp fuel state) := by
  have decreases :
      ∀ state next,
        invariant state →
          turn state = .again next →
            invariant next ∧ measure next < measure state := by
    intro state next held goesOn
    have satisfied := turns state held
    rw [goesOn] at satisfied
    exact satisfied
  rcases loop_ends invariant measure decreases giveUp fuel initially enough
    with ⟨last, -, held, ended⟩
  have satisfied := turns last held
  rw [ended] at satisfied
  exact satisfied

/-- With more fuel than the measure, the amount of fuel does not matter. -/
theorem loop_enough
    (invariant : State → Prop)
    (measure : State → Nat)
    (decreases :
      ∀ state next,
        invariant state →
          turn state = .again next →
            invariant next ∧ measure next < measure state)
    {fuel fuel' : Nat}
    {state : State}
    (initially : invariant state)
    (enough : measure state < fuel)
    (enough' : measure state < fuel') :
    loop turn giveUp fuel state = loop turn giveUp fuel' state := by
  induction fuel generalizing fuel' state with
  | zero => exact absurd enough (Nat.not_lt_zero _)
  | succ fuel ih =>
      cases fuel' with
      | zero => exact absurd enough' (Nat.not_lt_zero _)
      | succ fuel' =>
          cases next : turn state with
          | again later =>
              have smaller := decreases state later initially next
              rw [loop_of_again next, loop_of_again next]
              exact
                ih smaller.1
                  (Nat.lt_of_lt_of_le smaller.2 (Nat.le_of_lt_succ enough))
                  (Nat.lt_of_lt_of_le smaller.2 (Nat.le_of_lt_succ enough'))
          | done result => rw [loop_of_done next, loop_of_done next]

/-- A loop that was not given up on comes to the same with more fuel. -/
theorem loop_more {fuel : Nat} {state : State}
    (ended : loop turn giveUp fuel state = result)
    (own : ∀ last, giveUp last ≠ result)
    (more : Nat) :
    loop turn giveUp (fuel + more) state = result := by
  induction fuel generalizing state with
  | zero => exact absurd ended (own state)
  | succ fuel ih =>
      rw [Nat.add_right_comm]
      cases next : turn state with
      | again later =>
          rw [loop_of_again next] at ended ⊢
          exact ih ended
      | done _ =>
          rw [loop_of_done next] at ended ⊢
          exact ended

/-- A turn that returns to its own state never leaves the loop. -/
theorem loop_stuck {state : State} (stuck : turn state = .again state)
    (fuel : Nat) :
    loop turn giveUp fuel state = giveUp state := by
  induction fuel with
  | zero => rfl
  | succ fuel ih =>
      rw [loop, stuck]
      exact ih

end Yimmo.Lib.TurnLoop
