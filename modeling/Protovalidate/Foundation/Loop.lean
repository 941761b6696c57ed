/-! Loops of a pure step function. The round bound only makes the recursion
structural: a body that shrinks a measure on every further round leaves the
loop before the bound is reached. -/

namespace Protovalidate.Foundation

universe u v

/-- One pass through a loop body: leave with a result, or go round again. -/
inductive Control (State : Type u) (Result : Type v) where
  | leave (result : Result)
  | again (state : State)

namespace Control

variable {State : Type u} {Result : Type v}

/-- Apply the body at most a fixed number of times. -/
def iterate (body : State → Control State Result) (exhausted : Result) : Nat → State → Result
  | 0, _ => exhausted
  | rounds + 1, state =>
    match body state with
    | .leave result => result
    | .again next => iterate body exhausted rounds next

/-- Every further round starts from a smaller state. -/
def Decreases (body : State → Control State Result) (size : State → Nat) : Prop :=
  ∀ state next, body state = .again next → size next < size state

/-- The loop, with the measure of the initial state as its round bound. -/
def loop (body : State → Control State Result) (size : State → Nat) (exhausted : Result)
    (state : State) : Result :=
  iterate body exhausted (size state + 1) state

variable {body : State → Control State Result} {size : State → Nat} {exhausted : Result}

theorem iterate_enough (decreases : Decreases body size) (state : State) (rounds : Nat)
    (enough : size state < rounds) :
    iterate body exhausted rounds state = loop body size exhausted state := by
  induction rounds using Nat.strongRecOn generalizing state with
  | ind rounds ih =>
    cases rounds with
    | zero => omega
    | succ rounds =>
      simp only [loop, iterate]
      cases step : body state with
      | leave result => rfl
      | again next =>
        have smaller := decreases state next step
        by_cases same : rounds = size state
        · rw [same]
        · simp only
          rw [ih rounds (by omega) next (by omega), ih (size state) (by omega) next smaller]

/-- The defining equation of the unbounded loop. -/
theorem loop_eq (decreases : Decreases body size) (state : State) :
    loop body size exhausted state =
      match body state with
      | .leave result => result
      | .again next => loop body size exhausted next := by
  rw [loop, iterate]
  cases step : body state with
  | leave result => rfl
  | again next => exact iterate_enough decreases next _ (decreases state next step)

theorem loop_leave (decreases : Decreases body size) {state : State} {result : Result}
    (step : body state = .leave result) : loop body size exhausted state = result := by
  rw [loop_eq decreases, step]

theorem loop_again (decreases : Decreases body size) {state next : State}
    (step : body state = .again next) :
    loop body size exhausted state = loop body size exhausted next := by
  rw [loop_eq decreases, step]

/-- Induction along the rounds of a loop. -/
theorem loop_induction {motive : State → Prop} (decreases : Decreases body size)
    (round : ∀ state, (∀ next, body state = .again next → motive next) → motive state)
    (state : State) : motive state := by
  induction bound : size state using Nat.strongRecOn generalizing state with
  | ind bound ih =>
    exact round state fun next step =>
      ih (size next) (bound ▸ decreases state next step) next rfl

section Simulation

variable {State' : Type u} {Result' : Type v} {body' : State' → Control State' Result'}
variable {size' : State' → Nat} {exhausted' : Result'}

/-- Two rounds leave with matching results, or go on from related states. -/
inductive Matches (related : State → State' → Prop) (answers : Result → Result' → Prop) :
    Control State Result → Control State' Result' → Prop where
  | leave {result result'} (same : answers result result') : Matches related answers (leave result) (leave result')
  | again {next next'} (same : related next next') : Matches related answers (again next) (again next')

/-- Loops whose rounds match from related states have matching results. -/
theorem loop_simulates (related : State → State' → Prop) (answers : Result → Result' → Prop)
    (decreases : Decreases body size) (decreases' : Decreases body' size')
    (round : ∀ state state', related state state' → Matches related answers (body state) (body' state'))
    {state : State} {state' : State'} (start : related state state') :
    answers (loop body size exhausted state) (loop body' size' exhausted' state') := by
  induction state using loop_induction decreases generalizing state' with
  | round state ih =>
    have matched := round state state' start
    cases step : body state with
    | leave result =>
      cases step' : body' state' with
      | leave result' =>
        rw [step, step'] at matched
        cases matched with
        | leave same => rwa [loop_leave decreases step, loop_leave decreases' step']
      | again next' =>
        rw [step, step'] at matched
        cases matched
    | again next =>
      cases step' : body' state' with
      | leave result' =>
        rw [step, step'] at matched
        cases matched
      | again next' =>
        rw [step, step'] at matched
        cases matched with
        | again same =>
          rw [loop_again decreases step, loop_again decreases' step']
          exact ih next step same

end Simulation

end Control
end Protovalidate.Foundation
