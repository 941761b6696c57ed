import Protovalidate.Foundation.Journal

/-! Two runs of a check, one that fails fast and one that does not: they add
nothing together, or start with the same entry up to what its key leaves out. -/

namespace Protovalidate.Foundation
namespace Check

variable {α ω β γ ε ι κ : Type} {key : α → κ}

section Heads

variable {part : Check α ω β} {first rest : Check α ω (Except ε Unit)}

/-- Where there are entries, the first one keeps its key. -/
def KeepsHead (key : α → κ) (part : Check α ω β) : Prop := ∀ (failFast : Bool) (journal : Journal α ω),
  journal.entries ≠ [] → (part failFast journal).2.entries ≠ [] ∧
    (part failFast journal).2.entries.head?.map key = journal.entries.head?.map key

theorem Steady.keepsHead (steady : Steady part) : KeepsHead key part := by
  intro failFast journal nonempty
  obtain ⟨late, same⟩ := steady.extends failFast journal
  rw [same]
  cases present : journal.entries with
  | nil => exact (nonempty present).elim
  | cons entry entries => exact ⟨List.cons_ne_nil _ _, rfl⟩

theorem keepsHead_edit (start : Nat) {change : α → α} (respects : ∀ entry, key (change entry) = key entry) :
    KeepsHead key (edit start change : Check α ω Unit) := by
  intro failFast journal nonempty
  cases present : journal.entries with
  | nil => exact (nonempty present).elim
  | cons entry entries =>
    cases start with
    | zero => simp [edit, Journal.editFrom, present, respects]
    | succ start => simp [edit, Journal.editFrom, present]

theorem KeepsHead.bind {next : β → Check α ω γ} (before : KeepsHead key part)
    (after : ∀ value, KeepsHead key (next value)) : KeepsHead key (part >>= next) := by
  intro failFast journal nonempty
  obtain ⟨some_, same⟩ := before failFast journal nonempty
  obtain ⟨some', same'⟩ := after (part failFast journal).1 failFast _ some_
  exact ⟨some', same'.trans same⟩

theorem KeepsHead.grown (inside : KeepsHead key part) : KeepsHead key (grown part) := inside

end Heads

section Modes

variable {part : Check α ω β}

/-- A check that does not look at the mode. -/
def Modeless (part : Check α ω β) : Prop := ∀ journal, part true journal = part false journal

theorem modeless_pure (value : β) : Modeless (pure value : Check α ω β) := fun _ => rfl

theorem modeless_add (entry : α) : Modeless (add entry : Check α ω Unit) := fun _ => rfl

theorem modeless_edit (start : Nat) (change : α → α) : Modeless (edit start change : Check α ω Unit) := fun _ => rfl

theorem modeless_note (event : ω) : Modeless (note event : Check α ω Unit) := fun _ => rfl

theorem Modeless.bind {next : β → Check α ω γ} (first : Modeless part) (second : ∀ value, Modeless (next value)) :
    Modeless (part >>= next) := by
  intro journal
  rw [bind_apply, bind_apply, first journal]
  exact second _ _

end Modes

/-- From a journal without entries the two modes do the same until an entry is
added, and then have the same first entry, up to what the key of an entry
leaves out, unless one of them fails. -/
def Agrees (key : α → κ) (okay : β → Prop) (part : Check α ω β) : Prop := ∀ trace : List ω,
  (part true ⟨[], trace⟩ = part false ⟨[], trace⟩ ∧ (part false ⟨[], trace⟩).2.entries = []) ∨
    ((part true ⟨[], trace⟩).2.entries ≠ [] ∧ (part false ⟨[], trace⟩).2.entries ≠ [] ∧
      (okay (part true ⟨[], trace⟩).1 → okay (part false ⟨[], trace⟩).1 →
        (part true ⟨[], trace⟩).2.entries.head?.map key = (part false ⟨[], trace⟩).2.entries.head?.map key))

/-- Entries that are changed alike. -/
theorem Respects.head {entries entries' : List α} {change : α → α} (respects : Respects key change change)
    (same : entries.head?.map key = entries'.head?.map key) :
    (entries.map change).head?.map key = (entries'.map change).head?.map key := by
  cases entries with
  | nil =>
    cases entries' with
    | nil => rfl
    | cons entry' entries' => cases same
  | cons entry entries =>
    cases entries' with
    | nil => cases same
    | cons entry' entries' => exact congrArg some (respects entry entry' (Option.some.inj same))

section Agreement

variable {okay : β → Prop} {okay' : γ → Prop} {part : Check α ω β} {first rest : Check α ω (Except ε Unit)}

theorem Modeless.agrees (modeless : Modeless part) : Agrees key okay part := by
  intro trace
  rw [modeless]
  by_cases empty : (part false ⟨[], trace⟩).2.entries = []
  · exact .inl ⟨rfl, empty⟩
  · exact .inr ⟨empty, empty, fun _ _ => rfl⟩

theorem agrees_pure (value : β) : Agrees key okay (pure value : Check α ω β) := (modeless_pure value).agrees

theorem Agrees.mono {okay' : β → Prop} (inside : Agrees key okay part) (weaker : ∀ value, okay' value → okay value) :
    Agrees key okay' part := by
  intro trace
  obtain same | ⟨fastSome, fullSome, heads⟩ := inside trace
  · exact .inl same
  · exact .inr ⟨fastSome, fullSome, fun fastOk fullOk => heads (weaker _ fastOk) (weaker _ fullOk)⟩

/-- The result of the rest must tell whether the first part was okay. -/
theorem Agrees.bind {next : β → Check α ω γ} (before : Agrees key okay part)
    (after : ∀ value, Agrees key okay' (next value)) (keeps : ∀ value, KeepsHead key (next value))
    (tells : ∀ value failFast journal, okay' (next value failFast journal).1 → okay value) :
    Agrees key okay' (part >>= next) := by
  intro trace
  simp only [bind_apply]
  obtain ⟨same, empty⟩ | ⟨fastSome, fullSome, heads⟩ := before trace
  · rw [same]
    generalize part false ⟨[], trace⟩ = run at empty ⊢
    obtain ⟨value, ⟨entries, events⟩⟩ := run
    obtain rfl : entries = [] := empty
    exact after value events
  · right
    obtain ⟨fastNext, fastHead⟩ := keeps (part true ⟨[], trace⟩).1 true _ fastSome
    obtain ⟨fullNext, fullHead⟩ := keeps (part false ⟨[], trace⟩).1 false _ fullSome
    refine ⟨fastNext, fullNext, fun fastOk fullOk => ?_⟩
    rw [fastHead, fullHead]
    exact heads (tells _ _ _ fastOk) (tells _ _ _ fullOk)

/-- A part at whose end the run may be left. -/
theorem Agrees.exiting {okay : Except ε Unit → Prop} {stop : Except ε Unit → γ} {rest : Check α ω γ}
    (before : Agrees key okay first) (after : Agrees key okay' rest) (keeps : KeepsHead key rest)
    (succeeds : okay (.ok ())) (tells : ∀ status, okay' (stop status) → okay status) :
    Agrees key okay' (do
      let status ← first
      if ← exits status then pure (stop status) else rest) := by
  intro trace
  have run (failFast : Bool) (status : Except ε Unit) (journal : Journal α ω) : (do
      if ← exits status then pure (stop status) else rest : Check α ω γ) failFast journal =
        if (!status.isOk || (failFast && !journal.entries.isEmpty)) = true then (stop status, journal)
        else rest failFast journal := by
    change (if (!status.isOk || (failFast && !journal.entries.isEmpty)) = true then pure (stop status) else rest :
      Check α ω γ) failFast journal = _
    split <;> rfl
  rw [bind_apply, run, bind_apply, run]
  obtain ⟨same, empty⟩ | ⟨fastSome, fullSome, heads⟩ := before trace
  · rw [same]
    generalize first false ⟨[], trace⟩ = ended at empty ⊢
    obtain ⟨status, ⟨entries, events⟩⟩ := ended
    obtain rfl : entries = [] := empty
    cases status with
    | error failure => exact .inl ⟨rfl, rfl⟩
    | ok _ => exact after events
  · right
    generalize first true ⟨[], trace⟩ = fast at fastSome heads ⊢
    generalize first false ⟨[], trace⟩ = full at fullSome heads ⊢
    obtain ⟨fastStatus, fastAfter⟩ := fast
    obtain ⟨fullStatus, fullAfter⟩ := full
    have leaves : (!fastStatus.isOk || (true && !fastAfter.entries.isEmpty)) = true := by simp [fastSome]
    rw [if_pos leaves]
    cases fullStatus with
    | error failure => exact ⟨fastSome, fullSome, fun fastOk fullOk => heads (tells _ fastOk) (tells _ fullOk)⟩
    | ok _ =>
      obtain ⟨fullNext, fullHead⟩ := keeps false _ fullSome
      refine ⟨fastSome, fullNext, fun fastOk _ => ?_⟩
      exact (heads (tells _ fastOk) succeeds).trans fullHead.symm

theorem Agrees.orExit (before : Agrees key Succeeds first) (after : Agrees key Succeeds rest)
    (keeps : KeepsHead key rest) : Agrees key Succeeds (orExit first rest) :=
  before.exiting after keeps rfl fun _ succeeds => succeeds

theorem Agrees.orFail (before : Agrees key Succeeds first) (after : Agrees key Succeeds rest)
    (steady : Steady rest) : Agrees key Succeeds (orFail first rest) := by
  refine before.bind (fun status => ?_) (fun status => ?_) fun status failFast journal succeeds => ?_
  · cases status with
    | error failure => exact agrees_pure _
    | ok _ => exact after
  · cases status with
    | error failure => exact (steady_pure _).keepsHead
    | ok _ => exact steady.keepsHead
  · cases status with
    | error failure => cases succeeds
    | ok _ => rfl

theorem Agrees.eachThen {body : ι → Check α ω (Except ε Unit)} {elements : List ι}
    (inside : ∀ element ∈ elements, Agrees key Succeeds (body element))
    (steady : ∀ element ∈ elements, Steady (body element)) (after : Agrees key Succeeds rest)
    (steadyRest : Steady rest) : Agrees key Succeeds (eachThen body elements rest) := by
  induction elements with
  | nil => exact after
  | cons element elements ih =>
    have tail : ∀ later ∈ elements, Steady (body later) := fun later member => steady later (by simp [member])
    exact (inside element (by simp)).orExit (ih (fun later member => inside later (by simp [member])) tail)
      (Steady.eachThen tail steadyRest).keepsHead

/-- A check that ends with a change of all its entries, if there are any. -/
theorem Agrees.finish {part' : Check α ω γ} {change : α → α} (inside : Agrees key okay part)
    (ending : Bool → β × Journal α ω → γ × Journal α ω)
    (run : ∀ failFast trace, part' failFast ⟨[], trace⟩ = ending failFast (part failFast ⟨[], trace⟩))
    (quiet : ∀ value trace, ending true (value, ⟨[], trace⟩) = ending false (value, ⟨[], trace⟩) ∧
      (ending false (value, ⟨[], trace⟩)).2.entries = [])
    (keeps : ∀ failFast value journal, journal.entries ≠ [] → (ending failFast (value, journal)).2.entries ≠ [])
    (changes : ∀ failFast value journal, okay' (ending failFast (value, journal)).1 →
      okay value ∧ (ending failFast (value, journal)).2.entries = journal.entries.map change)
    (respects : Respects key change change) :
    Agrees key okay' part' := by
  intro trace
  rw [run, run]
  obtain ⟨same, empty⟩ | ⟨fastSome, fullSome, heads⟩ := inside trace
  · rw [same]
    generalize part false ⟨[], trace⟩ = ended at empty ⊢
    obtain ⟨value, ⟨entries, events⟩⟩ := ended
    obtain rfl : entries = [] := empty
    exact .inl (quiet value events)
  · generalize part true ⟨[], trace⟩ = fast at fastSome heads ⊢
    generalize part false ⟨[], trace⟩ = full at fullSome heads ⊢
    obtain ⟨fastValue, fastAfter⟩ := fast
    obtain ⟨fullValue, fullAfter⟩ := full
    refine .inr ⟨keeps _ _ _ fastSome, keeps _ _ _ fullSome, fun fastOk fullOk => ?_⟩
    obtain ⟨fastOkay, fastChanged⟩ := changes _ _ _ fastOk
    obtain ⟨fullOkay, fullChanged⟩ := changes _ _ _ fullOk
    rw [fastChanged, fullChanged]
    exact respects.head (heads fastOkay fullOkay)

/-- Edits that respect the key keep the agreement. -/
theorem Agrees.framedIf (inside : Agrees key okay part) (allows : β → Bool) {change : α → α}
    (respects : Respects key change change) (allowed : ∀ result, okay result → allows result = true) :
    Agrees key okay (framedIf allows change part) := by
  refine inside.finish (fun _ run => (run.1, if allows run.1 = true then run.2.editFrom 0 change else run.2))
    (fun failFast trace => ?_) (fun value trace => ⟨rfl, ?_⟩) (fun _ value journal nonempty => ?_)
    (fun _ value journal okayed => ⟨okayed, ?_⟩) respects
  · simp only [Check.framedIf, Check.scope, bind_apply, List.length_nil]
    split <;> rfl
  · simp only
    split <;> rfl
  · simp only
    split
    · simpa [Journal.editFrom] using nonempty
    · exact nonempty
  · simp [allowed value okayed, Journal.editFrom]

theorem Agrees.framed (inside : Agrees key okay part) {change : α → α} (respects : Respects key change change) :
    Agrees key okay (framed change part) := inside.framedIf _ respects fun _ _ => rfl

theorem Agrees.grown (inside : Agrees key okay part) : Agrees key (fun result => okay result.1) (grown part) := by
  intro trace
  obtain ⟨same, empty⟩ | ⟨fastSome, fullSome, heads⟩ := inside trace
  · exact .inl ⟨by simp only [Check.grown, same], empty⟩
  · exact .inr ⟨fastSome, fullSome, heads⟩

end Agreement

end Check
end Protovalidate.Foundation
