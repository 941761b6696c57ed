import Protovalidate.Foundation.Journal

/-! What a check adds to the trace: whether all its events are good, and whether its
success tells that they were. -/

namespace Protovalidate.Foundation
namespace Check

variable {α ω β γ ε ι : Type} {good : ω → Prop} {okay : β → Prop} {okay' : γ → Prop}

section Logs

variable {part : Check α ω β} {first rest : Check α ω (Except ε Unit)}

/-- A check adds good events to the trace, whether it fails fast or not. -/
def Logs (good : ω → Prop) (part : Check α ω β) : Prop := ∀ (failFast : Bool) (journal : Journal α ω),
  ∃ late, (part failFast journal).2.trace = journal.trace ++ late ∧ ∀ event ∈ late, good event

theorem logs_of_same {part : Check α ω β} (same : ∀ failFast journal, (part failFast journal).2.trace = journal.trace) :
    Logs good part :=
  fun failFast journal => ⟨[], by rw [same, List.append_nil], fun _ impossible => by cases impossible⟩

theorem logs_pure (value : β) : Logs good (pure value : Check α ω β) := logs_of_same fun _ _ => rfl

theorem logs_add (entry : α) : Logs good (add entry : Check α ω Unit) := logs_of_same fun _ _ => rfl

theorem logs_edit (start : Nat) (change : α → α) : Logs good (edit start change : Check α ω Unit) :=
  logs_of_same fun _ _ => rfl

theorem logs_exits (status : Except ε Unit) : Logs good (exits status : Check α ω Bool) := logs_of_same fun _ _ => rfl

theorem logs_failsFast : Logs good (failsFast : Check α ω Bool) := logs_of_same fun _ _ => rfl

theorem logs_note {event : ω} (fine : good event) : Logs good (note event : Check α ω Unit) :=
  fun _ _ => ⟨[event], rfl, fun _ member => List.mem_singleton.mp member ▸ fine⟩

theorem Logs.bind {next : β → Check α ω γ} (first : Logs good part) (second : ∀ value, Logs good (next value)) :
    Logs good (part >>= next) := by
  intro failFast journal
  obtain ⟨early, trace, fine⟩ := first failFast journal
  obtain ⟨late, trace', fine'⟩ := second (part failFast journal).1 failFast (part failFast journal).2
  refine ⟨early ++ late, ?_, fun event member => (List.mem_append.mp member).elim (fine event) (fine' event)⟩
  rw [bind_apply, trace', trace, List.append_assoc]

theorem Logs.scope {part : Nat → Check α ω β} (inside : ∀ start, Logs good (part start)) : Logs good (scope part) :=
  fun failFast journal => inside _ failFast journal

theorem Logs.grown (inside : Logs good part) : Logs good (grown part) := inside

theorem Logs.framedIf (inside : Logs good part) (allows : β → Bool) (change : α → α) :
    Logs good (framedIf allows change part) := by
  refine Logs.scope fun start => Logs.bind inside fun result => ?_
  cases allows result with
  | true => exact Logs.bind (logs_edit start change) fun _ => logs_pure result
  | false => exact logs_pure result

theorem Logs.framed (inside : Logs good part) (change : α → α) : Logs good (framed change part) :=
  inside.framedIf _ change

theorem Logs.orFail (before : Logs good first) (after : Logs good rest) : Logs good (orFail first rest) := by
  refine Logs.bind before fun status => ?_
  cases status with
  | error failure => exact logs_pure _
  | ok _ => exact after

theorem Logs.orExit (before : Logs good first) (after : Logs good rest) : Logs good (orExit first rest) := by
  refine Logs.bind before fun status => Logs.bind (logs_exits status) fun exit => ?_
  cases exit with
  | true => exact logs_pure status
  | false => exact after

theorem Logs.eachThen {body : ι → Check α ω (Except ε Unit)} {elements : List ι}
    (inside : ∀ element ∈ elements, Logs good (body element)) (after : Logs good rest) :
    Logs good (eachThen body elements rest) := by
  induction elements with
  | nil => exact after
  | cons element elements ih =>
    exact (inside element (by simp)).orExit (ih fun later member => inside later (by simp [member]))

/-- The events of a check on its own. -/
theorem Logs.alone (logs : Logs good part) : ∀ event ∈ part.alone.2.trace, good event := by
  obtain ⟨late, trace, fine⟩ := logs false {}
  rw [Check.alone, trace]
  exact fine

end Logs

section Honesty

variable {part : Check α ω β}

/-- A result that is okay tells that all events of the check were good. -/
def Honest (good : ω → Prop) (okay : β → Prop) (part : Check α ω β) : Prop := ∀ journal : Journal α ω,
  okay (part false journal).1 → (∀ event ∈ journal.trace, good event) →
    ∀ event ∈ (part false journal).2.trace, good event

theorem honest_pure (value : β) : Honest good okay (pure value : Check α ω β) := fun _ _ before => before

theorem honest_add (entry : α) {okay : Unit → Prop} : Honest good okay (add entry : Check α ω Unit) :=
  fun _ _ before => before

theorem honest_edit (start : Nat) (change : α → α) {okay : Unit → Prop} :
    Honest good okay (edit start change : Check α ω Unit) := fun _ _ before => before

theorem honest_exits (status : Except ε Unit) {okay : Bool → Prop} :
    Honest good okay (exits status : Check α ω Bool) := fun _ _ before => before

theorem honest_note {event : ω} {okay : Unit → Prop} (fine : okay () → good event) :
    Honest good okay (note event : Check α ω Unit) := by
  intro journal result before later member
  rcases List.mem_append.mp member with old | new
  · exact before later old
  · exact List.mem_singleton.mp new ▸ fine result

/-- The result of the rest must tell whether the first part was okay. -/
theorem Honest.bind {next : β → Check α ω γ} (first : Honest good okay part)
    (second : ∀ value, okay value → Honest good okay' (next value))
    (tells : ∀ value journal, okay' (next value false journal).1 → okay value) :
    Honest good okay' (part >>= next) := by
  intro journal result before
  have firstOkay := tells _ _ result
  exact second _ firstOkay _ result (first journal firstOkay before)

/-- A first part whose result does not matter. -/
theorem Honest.andThen {next : β → Check α ω γ} (first : Honest good (fun _ => True) part)
    (second : ∀ value, Honest good okay' (next value)) : Honest good okay' (part >>= next) :=
  first.bind (fun value _ => second value) fun _ _ _ => trivial

theorem Honest.orFail {first rest : Check α ω (Except ε Unit)} (before : Honest good Succeeds first)
    (after : Honest good Succeeds rest) : Honest good Succeeds (orFail first rest) := by
  refine before.bind (fun status succeeds => ?_) fun status journal succeeds => ?_
  · cases succeeds
    exact after
  · cases status with
    | error failure => cases succeeds
    | ok _ => rfl

theorem Honest.framedIf (inside : Honest good okay part) (allows : β → Bool) (change : α → α) :
    Honest good okay (framedIf allows change part) := by
  intro journal result before
  rw [framedIf_result] at result
  have kept : (Check.framedIf allows change part false journal).2.trace = (part false journal).2.trace := by
    change ((if allows (part false journal).1 = true then
      edit journal.entries.length change >>= fun _ => pure (part false journal).1
      else pure (part false journal).1 : Check α ω β) false (part false journal).2).2.trace = _
    split <;> rfl
  rw [kept]
  exact inside journal result before

theorem Honest.grown (inside : Honest good okay part) : Honest good (fun result => okay result.1) (grown part) := inside

theorem Honest.alone (honest : Honest good okay part) (result : okay part.alone.1) :
    ∀ event ∈ part.alone.2.trace, good event := honest {} result fun _ impossible => by cases impossible

end Honesty

section Flaws

variable {first rest : Check α ω (Except ε Unit)} {flaw flaw' : Prop}

/-- A check that succeeds tells that all its events were good, but for a flaw. -/
def Reveals (good : ω → Prop) (flaw : Prop) (part : Check α ω (Except ε Unit)) : Prop :=
  part.alone.1 = .ok () → ((∀ event ∈ part.alone.2.trace, good event) ↔ ¬flaw)

theorem Honest.reveals (honest : Honest good Succeeds first) : Reveals good False first := by
  intro succeeds
  exact ⟨fun _ impossible => impossible, fun _ => honest.alone succeeds⟩

theorem Reveals.of_iff (before : Reveals good flaw first) (same : flaw ↔ flaw') : Reveals good flaw' first := by
  intro succeeds
  rw [before succeeds, same]

theorem Reveals.framed (inside : Reveals good flaw first) (change : α → α) : Reveals good flaw (framed change first) := by
  intro succeeds
  rw [alone_framed] at succeeds ⊢
  exact inside succeeds

theorem Reveals.orFail (before : Reveals good flaw first) (after : Reveals good flaw' rest) (steady : Steady rest) :
    Reveals good (flaw ∨ flaw') (orFail first rest) := by
  intro succeeds
  obtain ⟨firstOk, restOk⟩ := (alone_orFail_ok steady).mp succeeds
  rw [alone_orFail_journal steady firstOk, not_or, ← before firstOk, ← after restOk]
  simp only [Journal.extend, List.mem_append]
  exact ⟨fun all => ⟨fun event early => all event (.inl early), fun event late => all event (.inr late)⟩,
    fun both event member => member.elim (both.1 event) (both.2 event)⟩

theorem Reveals.orExit (before : Reveals good flaw first) (after : Reveals good flaw' rest) (steady : Steady rest) :
    Reveals good (flaw ∨ flaw') (orExit first rest) := by
  have orFail := before.orFail after steady
  rwa [Reveals, ← alone_orExit] at orFail

theorem Reveals.eachThen {body : ι → Check α ω (Except ε Unit)} {elements : List ι} {flaws : ι → Prop}
    (inside : ∀ element ∈ elements, Reveals good (flaws element) (body element))
    (steady : ∀ element ∈ elements, Steady (body element)) (after : Reveals good flaw rest) (steadyRest : Steady rest) :
    Reveals good ((∃ element ∈ elements, flaws element) ∨ flaw) (eachThen body elements rest) := by
  induction elements with
  | nil => exact after.of_iff (by simp)
  | cons element elements ih =>
    have tail : ∀ later ∈ elements, Steady (body later) := fun later member => steady later (by simp [member])
    have others := ih (fun later member => inside later (by simp [member])) tail
    exact ((inside element (by simp)).orExit others (Steady.eachThen tail steadyRest)).of_iff (by simp [or_assoc])

end Flaws

end Check
end Protovalidate.Foundation
