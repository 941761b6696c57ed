import Mathlib.Data.List.Forall2
import Protovalidate.Foundation.Journal

/-! Two checks side by side: from journals whose entries have the same keys they get to
journals whose entries have the same keys, with related results, in either mode. -/

namespace Protovalidate.Foundation
namespace Check

variable {α ω β β' γ γ' ε ι ι' κ : Type} {key : α → κ}

/-- Lists with the same images, element by element. -/
theorem forall₂_of_map_eq {image : ι → κ} {image' : ι' → κ} {elements : List ι} {elements' : List ι'}
    (same : elements.map image = elements'.map image') :
    List.Forall₂ (fun element element' => element ∈ elements ∧ image element = image' element') elements elements' := by
  have images : List.Forall₂ Eq (elements.map image) (elements'.map image') := by
    rw [same]
    exact List.forall₂_refl _
  exact (List.forall₂_and_left _ _).mpr
    ⟨fun _ member => member, List.forall₂_map_right_iff.mp (List.forall₂_map_left_iff.mp images)⟩

section Journals

def SameKeys (key : α → κ) (journal journal' : Journal α ω) : Prop :=
  journal.entries.map key = journal'.entries.map key

variable {journal journal' : Journal α ω} {change change' : α → α}

theorem SameKeys.length (same : SameKeys key journal journal') : journal.entries.length = journal'.entries.length := by
  simpa using congrArg List.length same

theorem SameKeys.isEmpty (same : SameKeys key journal journal') : journal.entries.isEmpty = journal'.entries.isEmpty := by
  rw [← List.isEmpty_map (f := key), same, List.isEmpty_map]

theorem Respects.map (respects : Respects key change change') {entries entries' : List α}
    (same : entries.map key = entries'.map key) : (entries.map change).map key = (entries'.map change').map key := by
  induction entries generalizing entries' with
  | nil =>
    cases entries' with
    | nil => rfl
    | cons entry' entries' => cases same
  | cons entry entries ih =>
    cases entries' with
    | nil => cases same
    | cons entry' entries' =>
      obtain ⟨head, tail⟩ := List.cons.inj same
      exact List.cons_eq_cons.mpr ⟨respects entry entry' head, ih tail⟩

theorem SameKeys.editFrom (same : SameKeys key journal journal') (respects : Respects key change change') (start : Nat) :
    SameKeys key (journal.editFrom start change) (journal'.editFrom start change') := by
  have front : (journal.entries.take start).map key = (journal'.entries.take start).map key := by
    rw [List.map_take, List.map_take, same]
  have back : (journal.entries.drop start).map key = (journal'.entries.drop start).map key := by
    rw [List.map_drop, List.map_drop, same]
  simp only [SameKeys, Journal.editFrom, List.map_append, front, respects.map back]

end Journals

section Runs

variable {related : β → β' → Prop} {related' : γ → γ' → Prop} {part : Check α ω β} {part' : Check α ω β'}
variable {first rest first' rest' : Check α ω (Except ε Unit)} {change change' : α → α}

structure RunsAlike (key : α → κ) (related : β → β' → Prop)
    (run : β × Journal α ω) (run' : β' × Journal α ω) : Prop where
  results : related run.1 run'.1
  entries : SameKeys key run.2 run'.2

def Parallel (key : α → κ) (related : β → β' → Prop) (part : Check α ω β) (part' : Check α ω β') : Prop :=
  ∀ (failFast : Bool) (journal journal' : Journal α ω), SameKeys key journal journal' →
    RunsAlike key related (part failFast journal) (part' failFast journal')

theorem parallel_pure {value : β} {value' : β'} (holds : related value value') :
    Parallel key related (pure value : Check α ω β) (pure value') := fun _ _ _ same => ⟨holds, same⟩

theorem parallel_add {entry entry' : α} (matching : key entry = key entry') :
    Parallel key Eq (add entry : Check α ω Unit) (add entry') := by
  intro failFast journal journal' same
  refine ⟨rfl, ?_⟩
  simp only [SameKeys, add, List.map_append, List.map_cons, List.map_nil, matching]
  rw [same]

theorem parallel_note (event event' : ω) : Parallel key Eq (note event : Check α ω Unit) (note event') :=
  fun _ _ _ same => ⟨rfl, same⟩

theorem parallel_edit (start : Nat) (respects : Respects key change change') :
    Parallel key Eq (edit start change : Check α ω Unit) (edit start change') :=
  fun _ _ _ same => ⟨rfl, same.editFrom respects start⟩

theorem parallel_exits (status : Except ε Unit) : Parallel key Eq (exits status : Check α ω Bool) (exits status) :=
  fun _ _ _ same => ⟨by simp only [exits, same.isEmpty], same⟩

theorem parallel_failsFast : Parallel key Eq (failsFast : Check α ω Bool) failsFast := fun _ _ _ same => ⟨rfl, same⟩

theorem Parallel.bind {next : β → Check α ω γ} {next' : β' → Check α ω γ'} (before : Parallel key related part part')
    (after : ∀ value value', related value value' → Parallel key related' (next value) (next' value')) :
    Parallel key related' (part >>= next) (part' >>= next') := by
  intro failFast journal journal' same
  obtain ⟨results, entries⟩ := before failFast journal journal' same
  exact after _ _ results failFast _ _ entries

/-- Parts with equal results. -/
theorem Parallel.then {part part' : Check α ω β} {next : β → Check α ω γ} {next' : β → Check α ω γ'}
    (before : Parallel key Eq part part') (after : ∀ value, Parallel key related' (next value) (next' value)) :
    Parallel key related' (part >>= next) (part' >>= next') :=
  before.bind fun value _ same => same ▸ after value

theorem Parallel.scope {part : Nat → Check α ω β} {part' : Nat → Check α ω β'}
    (inside : ∀ start, Parallel key related (part start) (part' start)) :
    Parallel key related (scope part) (scope part') := by
  intro failFast journal journal' same
  rw [Check.scope, Check.scope, same.length]
  exact inside _ failFast journal journal' same

theorem Parallel.grown (inside : Parallel key related part part') :
    Parallel key (fun result result' => related result.1 result'.1 ∧ result.2 = result'.2) (grown part) (grown part') := by
  intro failFast journal journal' same
  obtain ⟨results, entries⟩ := inside failFast journal journal' same
  exact ⟨⟨results, by simp only [Check.grown, same.length, entries.length]⟩, entries⟩

theorem Parallel.framedIf (inside : Parallel key related part part') {allows : β → Bool} {allows' : β' → Bool}
    (agree : ∀ value value', related value value' → allows value = allows' value') (respects : Respects key change change') :
    Parallel key related (framedIf allows change part) (framedIf allows' change' part') := by
  refine Parallel.scope fun start => inside.bind fun value value' holds => ?_
  rw [agree value value' holds]
  cases allows' value' with
  | true => exact (parallel_edit start respects).then fun _ => parallel_pure holds
  | false => exact parallel_pure holds

theorem Parallel.framed (inside : Parallel key related part part') (respects : Respects key change change') :
    Parallel key related (framed change part) (framed change' part') :=
  inside.framedIf (fun _ _ _ => rfl) respects

/-- A part at whose end the run may be left. -/
theorem Parallel.exiting {stop : Except ε Unit → Check α ω γ} {stop' : Except ε Unit → Check α ω γ'}
    {next : Check α ω γ} {next' : Check α ω γ'} (before : Parallel key Eq first first')
    (leaves : ∀ status, Parallel key related' (stop status) (stop' status)) (after : Parallel key related' next next') :
    Parallel key related'
      (do
        let status ← first
        if ← exits status then stop status else next)
      (do
        let status ← first'
        if ← exits status then stop' status else next') := by
  refine before.then fun status => (parallel_exits status).then fun answer => ?_
  cases answer with
  | true => exact leaves status
  | false => exact after

theorem Parallel.orExit (before : Parallel key Eq first first') (after : Parallel key Eq rest rest') :
    Parallel key Eq (orExit first rest) (orExit first' rest') :=
  before.exiting (fun _ => parallel_pure rfl) after

theorem Parallel.orFail (before : Parallel key Eq first first') (after : Parallel key Eq rest rest') :
    Parallel key Eq (orFail first rest) (orFail first' rest') := by
  refine before.then fun status => ?_
  cases status with
  | error failure => exact parallel_pure rfl
  | ok _ => exact after

theorem Parallel.eachThen {body : ι → Check α ω (Except ε Unit)} {body' : ι' → Check α ω (Except ε Unit)}
    {elements : List ι} {elements' : List ι'}
    (pairs : List.Forall₂ (fun element element' => Parallel key Eq (body element) (body' element')) elements elements')
    (after : Parallel key Eq rest rest') : Parallel key Eq (eachThen body elements rest) (eachThen body' elements' rest') := by
  induction pairs with
  | nil => exact after
  | cons pair _ ih => exact pair.orExit ih

end Runs

end Check
end Protovalidate.Foundation
