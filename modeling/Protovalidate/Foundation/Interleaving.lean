import Mathlib.Data.List.Induction
import Mathlib.Logic.Function.Basic

/-! Threads that take turns at one shared state: runs of any schedule, and the rules
for what holds in every state they reach. -/

namespace Protovalidate.Foundation

/-- What a thread does in a step, with the action chosen for it. -/
abbrev Program (σ τ α : Type) := σ → τ → α → σ × τ

/-- A shared state, and the state of every thread. -/
structure Threads (ι σ τ : Type) where
  shared : σ
  thread : ι → τ

namespace Threads

variable {ι σ τ α : Type} [DecidableEq ι]

/-- One thread takes a step. -/
def step (program : Program σ τ α) (system : Threads ι σ τ) (move : ι × α) : Threads ι σ τ :=
  let (shared, thread) := program system.shared (system.thread move.1) move.2
  { shared := shared, thread := Function.update system.thread move.1 thread }

/-- The threads of a schedule take their steps one after the other. -/
def execute (program : Program σ τ α) (system : Threads ι σ τ) (schedule : List (ι × α)) : Threads ι σ τ :=
  schedule.foldl (step program) system

variable {program : Program σ τ α} {system : Threads ι σ τ} {move : ι × α} {schedule : List (ι × α)}

theorem execute_append (first second : List (ι × α)) :
    execute program system (first ++ second) = execute program (execute program system first) second :=
  List.foldl_append

theorem execute_snoc : execute program system (schedule ++ [move]) = step program (execute program system schedule) move := by
  rw [execute_append]
  rfl

theorem step_shared : (step program system move).shared = (program system.shared (system.thread move.1) move.2).1 := rfl

theorem step_self : (step program system move).thread move.1 = (program system.shared (system.thread move.1) move.2).2 :=
  Function.update_self _ _ _

theorem step_other {other : ι} (different : other ≠ move.1) :
    (step program system move).thread other = system.thread other :=
  Function.update_of_ne different _ _

/-- What every step preserves holds wherever a run ends. -/
theorem execute_invariant (invariant : Threads ι σ τ → Prop)
    (preserves : ∀ system move, invariant system → invariant (step program system move)) (initially : invariant system)
    (schedule : List (ι × α)) : invariant (execute program system schedule) := by
  induction schedule generalizing system with
  | nil => exact initially
  | cons move schedule ih => exact ih (preserves system move initially)

/-- What the steps of one schedule preserve holds in every state on its way. -/
theorem execute_prefix (invariant : Threads ι σ τ → Prop) (initially : invariant system)
    (preserves : ∀ before move after, schedule = before ++ move :: after →
      invariant (execute program system before) → invariant (execute program system (before ++ [move])))
    (before after : List (ι × α)) (same : schedule = before ++ after) : invariant (execute program system before) := by
  induction before using List.reverseRecOn generalizing after with
  | nil => exact initially
  | append_singleton before move ih =>
    have split : schedule = before ++ move :: after := by rw [same, List.append_assoc]; rfl
    exact preserves before move after split (ih (move :: after) split)

/-- Steps that only move the shared state up an order never take it down. -/
theorem execute_monotone (order : σ → σ → Prop) (refl : ∀ shared, order shared shared)
    (trans : ∀ first second third, order first second → order second third → order first third)
    (upwards : ∀ shared thread action, order shared (program shared thread action).1) (schedule : List (ι × α)) :
    order system.shared (execute program system schedule).shared := by
  induction schedule generalizing system with
  | nil => exact refl _
  | cons move schedule ih =>
    refine trans _ _ _ (upwards system.shared (system.thread move.1) move.2) ?_
    rw [← step_shared]
    exact ih

/-- An assertion about the shared state and a thread holds for every thread if a step
keeps it for the thread that takes it and for all others. -/
theorem execute_assertion (assertion : σ → τ → Prop)
    (keeps : ∀ shared thread action, assertion shared thread →
      assertion (program shared thread action).1 (program shared thread action).2)
    (stable : ∀ shared thread action other, assertion shared other → assertion (program shared thread action).1 other)
    (initially : ∀ index, assertion system.shared (system.thread index)) (schedule : List (ι × α)) (index : ι) :
    assertion (execute program system schedule).shared ((execute program system schedule).thread index) := by
  refine execute_invariant (fun system => ∀ index, assertion system.shared (system.thread index))
    (fun system move before index => ?_) initially schedule index
  by_cases same : index = move.1
  · rw [same, step_self]
    exact keeps _ _ _ (before move.1)
  · rw [step_other same]
    exact stable _ _ _ _ (before index)

/-- No step of a schedule is an event. -/
def Avoids (program : Program σ τ α) (event : Threads ι σ τ → ι × α → Prop) (system : Threads ι σ τ) :
    List (ι × α) → Prop
  | [] => True
  | move :: schedule => ¬event system move ∧ Avoids program event (step program system move) schedule

end Threads
end Protovalidate.Foundation
