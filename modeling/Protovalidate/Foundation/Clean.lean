import Protovalidate.Foundation.FailFast

/-! Checks that are clean: on their own they end in a result that is fine, and add
nothing. A composed check is clean if and only if its parts are. -/

namespace Protovalidate.Foundation.Check

variable {α ω β γ ε ι κ : Type} {okay : β → Prop} {part : Check α ω β} {first rest : Check α ω (Except ε Unit)}

/-- A check that adds nothing on its own. -/
def Silent (part : Check α ω β) : Prop := part.alone.2.entries = []

/-- A check that adds nothing on its own, and ends in a result that is fine. -/
def CleanIf (okay : β → Prop) (part : Check α ω β) : Prop := okay part.alone.1 ∧ Silent part

/-- A check that succeeds on its own and adds nothing. -/
abbrev Clean (part : Check α ω (Except ε Unit)) : Prop := CleanIf Succeeds part

theorem silent_pure (value : β) : Silent (pure value : Check α ω β) := rfl

theorem cleanIf_pure (value : β) : CleanIf okay (pure value : Check α ω β) ↔ okay value :=
  and_iff_left (silent_pure value)

theorem clean_ok : Clean (pure (.ok ()) : Check α ω (Except ε Unit)) := (cleanIf_pure _).mpr rfl

theorem not_clean_error (failure : ε) : ¬Clean (pure (.error failure) : Check α ω (Except ε Unit)) := by
  intro clean
  cases (cleanIf_pure _).mp clean

theorem silent_bind {next : β → Check α ω γ} (steady : ∀ value, Steady (next value)) :
    Silent (part >>= next) ↔ Silent part ∧ Silent (next part.alone.1) := by
  rw [Silent, alone_bind steady]
  exact List.append_eq_nil_iff

/-- The second part is run on the result of the first. -/
theorem cleanIf_bind {okay : γ → Prop} {next : β → Check α ω γ} (steady : ∀ value, Steady (next value)) :
    CleanIf okay (part >>= next) ↔ Silent part ∧ CleanIf okay (next part.alone.1) := by
  rw [CleanIf, silent_bind steady, alone_bind steady]
  exact and_left_comm

/-- The same for a second part that edits all entries there are, but removes none. -/
theorem cleanIf_bindAt {okay : γ → Prop} {next : Nat → β → Check α ω γ} {key : α → κ}
    (steady : ∀ value, SteadyAt fun start => next start value) (keeps : ∀ value, KeepsHead key (next 0 value)) :
    CleanIf okay (part >>= next 0) ↔ Silent part ∧ CleanIf okay (next 0 part.alone.1) := by
  by_cases silent : Silent part
  · have run : alone (part >>= next 0) =
        ((next 0 part.alone.1).alone.1, part.alone.2.extend (next 0 part.alone.1).alone.2) := by
      have moved := (steady part.alone.1).moves part.alone.2 {} 0
      rwa [show part.alone.2.entries = [] from silent, Journal.extend_nil] at moved
    rw [and_iff_right silent, CleanIf, CleanIf, Silent, run]
    exact and_congr_right fun _ => List.append_eq_nil_iff.trans (and_iff_right silent)
  · refine iff_of_false (fun clean => ?_) fun both => silent both.1
    exact (keeps part.alone.1 false part.alone.2 silent).1 clean.2

theorem silent_framedIf (allows : β → Bool) (change : α → α) : Silent (framedIf allows change part) ↔ Silent part := by
  rw [Silent, alone_framedIf]
  split
  · exact List.map_eq_nil_iff
  · exact Iff.rfl

/-- A frame changes what a check adds, not whether it adds something. -/
theorem cleanIf_framedIf (allows : β → Bool) (change : α → α) :
    CleanIf okay (framedIf allows change part) ↔ CleanIf okay part := by
  rw [CleanIf, silent_framedIf, alone_framedIf]
  rfl

theorem clean_framed (change : α → α) : Clean (framed change first) ↔ Clean first := cleanIf_framedIf _ change

theorem clean_orFail (steady : Steady rest) : Clean (orFail first rest) ↔ Clean first ∧ Clean rest := by
  constructor
  · rintro ⟨succeeds, silent⟩
    obtain ⟨early, late⟩ := (alone_orFail_ok steady).mp succeeds
    rw [Silent, alone_orFail_journal steady early] at silent
    obtain ⟨before, after⟩ := List.append_eq_nil_iff.mp silent
    exact ⟨⟨early, before⟩, late, after⟩
  · rintro ⟨⟨early, before⟩, late, after⟩
    refine ⟨(alone_orFail_ok steady).mpr ⟨early, late⟩, ?_⟩
    rw [Silent, alone_orFail_journal steady early]
    exact List.append_eq_nil_iff.mpr ⟨before, after⟩

theorem clean_orExit (steady : Steady rest) : Clean (orExit first rest) ↔ Clean first ∧ Clean rest := by
  rw [← clean_orFail steady]
  unfold Clean CleanIf Silent
  rw [alone_orExit]

theorem clean_eachThen {body : ι → Check α ω (Except ε Unit)} {elements : List ι}
    (steady : ∀ element ∈ elements, Steady (body element)) (steadyRest : Steady rest) :
    Clean (eachThen body elements rest) ↔ (∀ element ∈ elements, Clean (body element)) ∧ Clean rest := by
  induction elements with
  | nil => simp [eachThen]
  | cons element elements ih =>
    have tail : ∀ later ∈ elements, Steady (body later) := fun later member => steady later (List.mem_cons_of_mem _ member)
    rw [eachThen, clean_orExit (Steady.eachThen tail steadyRest), ih tail, List.forall_mem_cons, and_assoc]

end Protovalidate.Foundation.Check
