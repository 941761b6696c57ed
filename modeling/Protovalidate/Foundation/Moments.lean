import Protovalidate.Foundation.Interleaving

/-! Moments of a schedule: what held at one of them while a thread was inside of a call,
and what a thread has done after enough steps of its own. -/

namespace Protovalidate.Foundation

namespace Threads

variable {ι σ τ α : Type} [DecidableEq ι] {program : Program σ τ α} {system : Threads ι σ τ}

/-- What further steps preserve holds of every schedule and the state that it leads to. -/
theorem execute_history (invariant : List (ι × α) → Threads ι σ τ → Prop) (initially : invariant [] system)
    (preserves : ∀ schedule move, invariant schedule (execute program system schedule) →
      invariant (schedule ++ [move]) (step program (execute program system schedule) move)) (schedule : List (ι × α)) :
    invariant schedule (execute program system schedule) := by
  induction schedule using List.reverseRecOn with
  | nil => exact initially
  | append_singleton schedule move ih =>
    rw [execute_snoc]
    exact preserves schedule move ih

section Moments

variable {index : ι} {inside : τ → Prop} {held : σ → Prop} {schedule : List (ι × α)} {move : ι × α}

/-- There was a moment at which the shared state was so, and since then the thread has
been inside. -/
def Since (program : Program σ τ α) (system : Threads ι σ τ) (index : ι) (inside : τ → Prop) (held : σ → Prop)
    (schedule : List (ι × α)) : Prop :=
  ∃ before after, schedule = before ++ after ∧ held (execute program system before).shared ∧
    ∀ middle last, after = middle ++ last → inside ((execute program system (before ++ middle)).thread index)

theorem since_now (holds : held (execute program system schedule).shared)
    (within : inside ((execute program system schedule).thread index)) : Since program system index inside held schedule := by
  refine ⟨schedule, [], (List.append_nil schedule).symm, holds, fun middle last same => ?_⟩
  obtain ⟨rfl, -⟩ := List.append_eq_nil_iff.mp same.symm
  rwa [List.append_nil]

theorem Since.later (since : Since program system index inside held schedule)
    (still : inside ((execute program system (schedule ++ [move])).thread index)) :
    Since program system index inside held (schedule ++ [move]) := by
  obtain ⟨before, after, rfl, holds, within⟩ := since
  refine ⟨before, after ++ [move], List.append_assoc before after [move], holds, fun middle last same => ?_⟩
  rcases List.eq_nil_or_concat last with rfl | ⟨last, other, rfl⟩
  · rw [List.append_nil] at same
    rwa [← same, ← List.append_assoc]
  · rw [List.concat_eq_append, ← List.append_assoc] at same
    exact within middle last (List.append_inj' same rfl).1

end Moments

section Progress

variable {index : ι} {own : α → Bool} {left : τ → Nat → Prop} {goal : τ → Prop} {steps : Nat}

/-- A thread that every step of its own takes closer to a goal gets there after enough of
them, whatever the other threads do. -/
theorem execute_reaches
    (closer : ∀ shared thread action steps, left thread steps → ¬goal thread → own action = true →
      ∃ fewer, steps = fewer + 1 ∧ left (program shared thread action).2 fewer)
    (waits : ∀ shared thread action steps, left thread steps → ¬goal thread → own action = false →
      (program shared thread action).2 = thread)
    (ends : ∀ thread, left thread 0 → goal thread) (start : left (system.thread index) steps) (schedule : List (ι × α))
    (enough : steps ≤ schedule.countP fun move => decide (move.1 = index) && own move.2) :
    ∃ before after, schedule = before ++ after ∧ goal ((execute program system before).thread index) := by
  induction schedule generalizing system steps with
  | nil =>
    obtain rfl := Nat.le_zero.mp enough
    exact ⟨[], [], rfl, ends _ start⟩
  | cons move schedule ih =>
    by_cases arrived : goal (system.thread index)
    · exact ⟨[], _, rfl, arrived⟩
    · suffices further : ∃ fewer, left ((step program system move).thread index) fewer ∧
          fewer ≤ schedule.countP fun move => decide (move.1 = index) && own move.2 by
        obtain ⟨fewer, start, enough⟩ := further
        obtain ⟨before, after, rfl, reached⟩ := ih start enough
        exact ⟨move :: before, after, rfl, reached⟩
      rw [List.countP_cons] at enough
      by_cases same : move.1 = index
      · subst same
        rw [step_self]
        cases turn : own move.2 with
        | true =>
          obtain ⟨fewer, rfl, nearer⟩ := closer system.shared _ move.2 steps start arrived turn
          rw [turn, decide_eq_true (Eq.refl move.1), Bool.and_self, if_pos rfl] at enough
          exact ⟨fewer, nearer, Nat.le_of_succ_le_succ enough⟩
        | false =>
          rw [waits system.shared _ move.2 steps start arrived turn]
          rw [turn, Bool.and_false, if_neg Bool.false_ne_true] at enough
          exact ⟨steps, start, enough⟩
      · rw [step_other (Ne.symm same)]
        rw [decide_eq_false same, Bool.false_and, if_neg Bool.false_ne_true] at enough
        exact ⟨steps, start, enough⟩

end Progress
end Threads
end Protovalidate.Foundation
