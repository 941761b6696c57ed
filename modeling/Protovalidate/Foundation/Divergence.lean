import Protovalidate.Foundation.Events

/-! Two runs from the same journal that do the same up to a point, and from there on
have traces that stay apart. -/

namespace Protovalidate.Foundation
namespace Check

variable {α ω β β' γ γ' : Type}

section Traces

variable {trace trace' : List ω}

/-- Traces that differ at some event. -/
def Apart (trace trace' : List ω) : Prop := ∃ common event event' rest rest',
  trace = common ++ event :: rest ∧ trace' = common ++ event' :: rest' ∧ event ≠ event'

theorem Apart.ne (apart : Apart trace trace') : trace ≠ trace' := by
  obtain ⟨common, event, event', rest, rest', rfl, rfl, different⟩ := apart
  intro same
  exact different (List.cons.inj (List.append_cancel_left same)).1

theorem Apart.append (apart : Apart trace trace') (late late' : List ω) : Apart (trace ++ late) (trace' ++ late') := by
  obtain ⟨common, event, event', rest, rest', rfl, rfl, different⟩ := apart
  exact ⟨common, event, event', rest ++ late, rest' ++ late', by simp, by simp, different⟩

end Traces

/-- The trace of a check only grows. -/
abbrev Grows (part : Check α ω β) : Prop := Logs (fun _ => True) part

section Runs

variable {apart apart' : Prop} {matched : β × Journal α ω → β' → Prop} {matched' : γ × Journal α ω → γ' → Prop}

/-- Two runs whose traces come apart under a condition; otherwise the journals are the
same and the results match. -/
structure Diverge (apart : Prop) (matched : β × Journal α ω → β' → Prop) (run : β × Journal α ω)
    (run' : β' × Journal α ω) : Prop where
  parts : apart → Apart run.2.trace run'.2.trace
  same : ¬apart → run.2 = run'.2
  results : ¬apart → matched run run'.1

variable {failFast : Bool} {journal : Journal α ω} {part : Check α ω β} {part' : Check α ω β'}

theorem diverge_never {run : β × Journal α ω} {run' : β' × Journal α ω} (same : run.2 = run'.2)
    (results : matched run run'.1) : Diverge False matched run run' where
  parts impossible := impossible.elim
  same _ := same
  results _ := results

theorem Diverge.of_iff {run : β × Journal α ω} {run' : β' × Journal α ω} (inside : Diverge apart matched run run')
    (same : apart ↔ apart') : Diverge apart' matched run run' := by
  rwa [← propext same]

theorem Diverge.imp {run : β × Journal α ω} {run' : β' × Journal α ω} {weaker : β × Journal α ω → β' → Prop}
    (inside : Diverge apart matched run run') (implies : ∀ run result, matched run result → weaker run result) :
    Diverge apart weaker run run' where
  parts := inside.parts
  same := inside.same
  results never := implies _ _ (inside.results never)

theorem Diverge.bind {next : β → Check α ω γ} {next' : β' → Check α ω γ'}
    (first : Diverge apart matched (part failFast journal) (part' failFast journal)) (apart' : Prop)
    (second : ∀ run value', matched run value' →
      Diverge apart' matched' (next run.1 failFast run.2) (next' value' failFast run.2))
    (grows : ∀ value, Grows (next value)) (grows' : ∀ value, Grows (next' value)) :
    Diverge (apart ∨ apart') matched' ((part >>= next) failFast journal) ((part' >>= next') failFast journal) := by
  by_cases early : apart
  · have parts : Apart ((part >>= next) failFast journal).2.trace ((part' >>= next') failFast journal).2.trace := by
      obtain ⟨late, same, _⟩ := grows (part failFast journal).1 failFast (part failFast journal).2
      obtain ⟨late', same', _⟩ := grows' (part' failFast journal).1 failFast (part' failFast journal).2
      rw [bind_apply, bind_apply, same, same']
      exact (first.parts early).append late late'
    exact ⟨fun _ => parts, fun never => (never (.inl early)).elim, fun never => (never (.inl early)).elim⟩
  · have later := second _ _ (first.results early)
    rw [bind_apply, bind_apply, ← first.same early]
    exact ⟨fun either => later.parts (either.resolve_left early), fun never => later.same fun late => never (.inr late),
      fun never => later.results fun late => never (.inr late)⟩

theorem Diverge.framedIf (inside : Diverge apart matched (part failFast journal) (part' failFast journal))
    (allows : β → Bool) (allows' : β' → Bool) (change : α → α)
    (agree : ∀ run result, matched run result → allows run.1 = allows' result)
    (keeps : ∀ value before after result, before.entries.length = after.entries.length →
      matched (value, before) result → matched (value, after) result) :
    Diverge apart matched (framedIf allows change part failFast journal)
      (framedIf allows' change part' failFast journal) := by
  rw [framedIf_apply, framedIf_apply]
  refine ⟨fun early => ?_, fun never => ?_, fun never => ?_⟩
  · rw [apply_ite Journal.trace, apply_ite Journal.trace]
    simpa [Journal.editFrom] using inside.parts early
  · rw [inside.same never, agree _ _ (inside.results never)]
  · refine keeps _ _ _ _ ?_ (inside.results never)
    split
    · rw [Journal.editFrom_length]
    · rfl

theorem Diverge.grown (inside : Diverge apart matched (part failFast journal) (part' failFast journal)) :
    Diverge apart (fun run result => matched (run.1.1, run.2) result.1 ∧ run.1.2 = result.2 ∧
      run.1.2 = decide (run.2.entries.length > journal.entries.length))
      (grown part failFast journal) (grown part' failFast journal) where
  parts := inside.parts
  same := inside.same
  results never := ⟨inside.results never, by simp only [Check.grown, inside.same never], rfl⟩

end Runs

end Check
end Protovalidate.Foundation
