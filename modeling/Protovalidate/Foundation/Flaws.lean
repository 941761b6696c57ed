import Protovalidate.Foundation.Additions
import Protovalidate.Foundation.Halting

/-! When a check that succeeds has added an entry with a flaw: each check has an exact
cause, and the causes compose along the part of a run that is reached. -/

namespace Protovalidate.Foundation
namespace Check

variable {α ω ε ι : Type} {flaw : α → Prop} {failFast : Bool} {cause cause' : Prop} {first rest part : Check α ω (Except ε Unit)}

/-- If the check succeeds, it has added an entry with a flaw if and only if there is a
cause. A run that fails fast only gets to it without entries. -/
def Flawed (flaw : α → Prop) (failFast : Bool) (cause : Prop) (part : Check α ω (Except ε Unit)) : Prop :=
  ∀ journal : Journal α ω, (failFast = true → journal.entries = []) → (part failFast journal).1 = .ok () →
    ∃ late, (part failFast journal).2.entries = journal.entries ++ late ∧ ((∃ entry ∈ late, flaw entry) ↔ cause)

theorem Flawed.of_iff (flawed : Flawed flaw failFast cause part) (same : cause ↔ cause') : Flawed flaw failFast cause' part := by
  rwa [← propext same]

theorem flawed_pure (status : Except ε Unit) : Flawed flaw failFast False (pure status : Check α ω (Except ε Unit)) :=
  fun _ _ _ => ⟨[], (List.append_nil _).symm, by simp⟩

/-- A check that adds no entry with a flaw. -/
theorem Adds.flawless (adds : Adds (fun _ => True) Succeeds (fun entry => ¬flaw entry) part) :
    Flawed flaw failFast False part := by
  intro journal _ succeeds
  obtain ⟨late, events, run, fine⟩ := adds failFast journal
  refine ⟨late, by rw [run], iff_of_false ?_ not_false⟩
  rintro ⟨entry, member, flawed⟩
  exact fine (fun _ _ => trivial) succeeds entry member flawed

/-- For a steady check a run without entries tells all. -/
theorem Steady.flawed (steady : Steady part)
    (runs : ∀ trace, (part failFast ⟨[], trace⟩).1 = .ok () →
      ((∃ entry ∈ (part failFast ⟨[], trace⟩).2.entries, flaw entry) ↔ cause)) :
    Flawed flaw failFast cause part := by
  intro journal empty succeeds
  obtain ⟨entries, trace⟩ := journal
  cases failFast with
  | true =>
    obtain rfl : entries = [] := empty rfl
    exact ⟨_, rfl, runs trace succeeds⟩
  | false =>
    rw [steady.apply] at succeeds ⊢
    exact ⟨(alone part).2.entries, rfl, runs [] succeeds⟩

/-- Behind a part that adds no entry with a flaw, the rest tells all. -/
theorem Steady.flawedBehind (steady : Steady (orFail first rest))
    (clean : Adds (fun _ => True) Succeeds (fun entry => ¬flaw entry) first)
    (behind : ∀ trace after, first failFast ⟨[], trace⟩ = (.ok (), after) → (rest failFast after).1 = .ok () →
      ∃ late, (rest failFast after).2.entries = after.entries ++ late ∧ ((∃ entry ∈ late, flaw entry) ↔ cause)) :
    Flawed flaw failFast cause (orFail first rest) := by
  refine steady.flawed fun trace succeeds => ?_
  obtain ⟨early, events, run, fine⟩ := clean failFast ⟨[], trace⟩
  have behind := behind trace
  rw [orFail_apply] at succeeds ⊢
  generalize first failFast ⟨[], trace⟩ = ended at run fine behind succeeds ⊢
  obtain ⟨status, after⟩ := ended
  cases status with
  | error failure => cases succeeds
  | ok _ =>
    obtain rfl : after = ⟨[] ++ early, trace ++ events⟩ := run
    obtain ⟨late, grown, flawed⟩ := behind _ rfl succeeds
    refine Iff.trans ?_ flawed
    simp only
    rw [grown]
    constructor
    · rintro ⟨entry, member, flawed⟩
      rcases List.mem_append.mp member with old | new
      · exact absurd flawed (fine (fun _ _ => trivial) rfl entry old)
      · exact ⟨entry, new, flawed⟩
    · rintro ⟨entry, new, flawed⟩
      exact ⟨entry, List.mem_append_right _ new, flawed⟩

theorem Flawed.framed (inside : Flawed flaw failFast cause part) {change : α → α}
    (same : ∀ entry, flaw (change entry) ↔ flaw entry) : Flawed flaw failFast cause (framed change part) := by
  intro journal empty succeeds
  obtain ⟨late, run, flawed⟩ := inside journal empty succeeds
  refine ⟨late.map change, ?_, ?_⟩
  · change ((part failFast journal).2.editFrom journal.entries.length change).entries = _
    simp [Journal.editFrom, run]
  · rw [← flawed]
    constructor
    · rintro ⟨_, member, flawed⟩
      obtain ⟨entry, inside, rfl⟩ := List.mem_map.mp member
      exact ⟨entry, inside, (same entry).mp flawed⟩
    · rintro ⟨entry, inside, flawed⟩
      exact ⟨change entry, List.mem_map_of_mem inside, (same entry).mpr flawed⟩

/-- The rest is reached unless a run that fails fast has found something. -/
theorem Flawed.orExit (front : Flawed flaw failFast cause first) (back : Flawed flaw failFast cause' rest)
    (tells : ∀ trace, Passed first trace ↔ Passes first) :
    Flawed flaw failFast (cause ∨ ((failFast = true → Passes first) ∧ cause')) (orExit first rest) := by
  intro journal empty succeeds
  have front := front journal empty
  rw [orExit_apply] at succeeds ⊢
  generalize ran : first failFast journal = ended at front succeeds ⊢
  obtain ⟨status, after⟩ := ended
  cases status with
  | error failure => cases succeeds
  | ok _ =>
    obtain ⟨early, run, flawed⟩ := front rfl
    simp only at run succeeds ⊢
    have passes (fast : failFast = true) : Passes first ↔ early = [] := by
      subst fast
      obtain ⟨entries, trace⟩ := journal
      obtain rfl : entries = [] := empty rfl
      rw [← tells trace, Passed, ran]
      simp [run]
    by_cases exit : (failFast && !after.entries.isEmpty) = true
    · rw [if_pos exit] at succeeds ⊢
      obtain ⟨fast, some⟩ := Bool.and_eq_true_iff.mp exit
      have found : early ≠ [] := by
        rintro rfl
        rw [run, empty fast] at some
        cases some
      exact ⟨early, run, flawed.trans (by simp [fast, passes fast, found])⟩
    · rw [if_neg exit] at succeeds ⊢
      have still (fast : failFast = true) : after.entries = [] := by simpa [fast] using exit
      obtain ⟨late, run', flawed'⟩ := back after still succeeds
      refine ⟨early ++ late, by rw [run', run, List.append_assoc], ?_⟩
      have reached : failFast = true → Passes first := fun fast => by
        rw [passes fast]
        have none := still fast
        rw [run, empty fast, List.nil_append] at none
        exact none
      rw [← flawed, ← flawed']
      simp only [List.mem_append, or_and_right, exists_or, and_iff_right reached]

/-- The elements before the one that is the cause pass, if the run fails fast. -/
theorem Flawed.eachThen {body : ι → Check α ω (Except ε Unit)} {elements : List ι} {causes : ι → Prop}
    (inside : ∀ element ∈ elements, Flawed flaw failFast (causes element) (body element))
    (tells : ∀ element ∈ elements, ∀ trace, Passed (body element) trace ↔ Passes (body element))
    (back : Flawed flaw failFast cause rest) :
    Flawed flaw failFast (Meets (fun element => failFast = true → Passes (body element)) causes elements ∨
      ((∀ element ∈ elements, failFast = true → Passes (body element)) ∧ cause)) (eachThen body elements rest) := by
  induction elements with
  | nil => exact back.of_iff (by simp [meets_nil])
  | cons element elements ih =>
    have later := ih (fun other among => inside other (by simp [among])) fun other among => tells other (by simp [among])
    refine ((inside element (by simp)).orExit later (tells element (by simp))).of_iff ?_
    rw [meets_cons, List.forall_mem_cons]
    grind

end Check
end Protovalidate.Foundation
