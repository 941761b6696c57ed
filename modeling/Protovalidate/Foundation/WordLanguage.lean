import Mathlib.Computability.Language

/-! Small languages over an arbitrary alphabet, and two facts about a language
that decide where a reader of it may stop: the first symbol of its words, and
the symbols its words are made of. -/

namespace Protovalidate.Foundation

open scoped Computability

universe u

variable {α : Type u}

/-- Words of one symbol of a class. -/
def symbols (accepts : α → Bool) : Language α := {w | ∃ symbol, accepts symbol = true ∧ w = [symbol]}

/-- The language of one word. -/
def literal (expected : List α) : Language α := {w | w = expected}

theorem mem_symbols {accepts : α → Bool} {w : List α} :
    w ∈ symbols accepts ↔ ∃ symbol, accepts symbol = true ∧ w = [symbol] := Iff.rfl

@[simp] theorem mem_literal {expected w : List α} : w ∈ literal expected ↔ w = expected := Iff.rfl

theorem symbols_or (accepts accepts' : α → Bool) :
    symbols (fun symbol => accepts symbol || accepts' symbol) = symbols accepts + symbols accepts' := by
  ext w
  simp only [mem_symbols, Language.mem_add, Bool.or_eq_true, or_and_right, exists_or]

theorem symbols_beq [DecidableEq α] (expected : α) : symbols (· == expected) = literal [expected] := by
  ext w
  simp only [mem_symbols, mem_literal, beq_iff_eq, exists_eq_left]

/-- Every word starts with a symbol of the class. -/
def Leads (accepts : α → Bool) (l : Language α) : Prop :=
  ∀ w ∈ l, ∃ symbol rest, w = symbol :: rest ∧ accepts symbol = true

/-- Every word is made of symbols of the class. -/
def Within (accepts : α → Bool) (l : Language α) : Prop :=
  ∀ w ∈ l, ∀ symbol ∈ w, accepts symbol = true

variable {accepts accepts' : α → Bool} {l m : Language α}

section Leads

theorem leads_symbols : Leads accepts (symbols accepts) := by
  rintro w ⟨symbol, accepted, rfl⟩
  exact ⟨symbol, [], rfl, accepted⟩

theorem leads_literal {symbol : α} {rest : List α} (accepted : accepts symbol = true) :
    Leads accepts (literal (symbol :: rest)) := by
  rintro w rfl
  exact ⟨symbol, rest, rfl, accepted⟩

theorem Leads.mono (leads : Leads accepts l) (weaker : ∀ symbol, accepts symbol = true → accepts' symbol = true) :
    Leads accepts' l := by
  intro w member
  obtain ⟨symbol, rest, rfl, accepted⟩ := leads w member
  exact ⟨symbol, rest, rfl, weaker symbol accepted⟩

theorem Leads.mul (leads : Leads accepts l) : Leads accepts (l * m) := by
  intro w member
  obtain ⟨u, inFirst, v, -, rfl⟩ := Language.mem_mul.mp member
  obtain ⟨symbol, rest, rfl, accepted⟩ := leads u inFirst
  exact ⟨symbol, rest ++ v, rfl, accepted⟩

theorem Leads.add (left : Leads accepts l) (right : Leads accepts m) : Leads accepts (l + m) := by
  rintro w (inLeft | inRight)
  · exact left w inLeft
  · exact right w inRight

theorem Leads.nonempty (leads : Leads accepts l) : [] ∉ l := by
  intro member
  obtain ⟨symbol, rest, empty, -⟩ := leads [] member
  cases empty

end Leads

section Within

theorem within_symbols : Within accepts (symbols accepts) := by
  rintro w ⟨symbol, accepted, rfl⟩ other member
  obtain rfl := List.mem_singleton.mp member
  exact accepted

theorem within_literal {word : List α} (accepted : word.all accepts = true) :
    Within accepts (literal word) := by
  rintro w rfl
  exact List.all_eq_true.mp accepted

theorem within_one : Within accepts 1 := by
  rintro w rfl symbol member
  cases member

theorem Within.mono (within : Within accepts l)
    (weaker : ∀ symbol, accepts symbol = true → accepts' symbol = true) : Within accepts' l :=
  fun w member symbol inWord => weaker symbol (within w member symbol inWord)

theorem Within.mul (left : Within accepts l) (right : Within accepts m) : Within accepts (l * m) := by
  intro w member symbol inWord
  obtain ⟨u, inLeft, v, inRight, rfl⟩ := Language.mem_mul.mp member
  rcases List.mem_append.mp inWord with inU | inV
  · exact left u inLeft symbol inU
  · exact right v inRight symbol inV

theorem Within.add (left : Within accepts l) (right : Within accepts m) : Within accepts (l + m) := by
  rintro w (inLeft | inRight)
  · exact left w inLeft
  · exact right w inRight

theorem Within.kstar (within : Within accepts l) : Within accepts l∗ := by
  intro w member symbol inWord
  obtain ⟨parts, rfl, tokens⟩ := Language.mem_kstar.mp member
  obtain ⟨part, inParts, inPart⟩ := List.mem_flatten.mp inWord
  exact within part (tokens part inParts) symbol inPart

theorem Within.pow (within : Within accepts l) (n : Nat) : Within accepts (l ^ n) := by
  induction n with
  | zero =>
    rw [pow_zero]
    exact within_one
  | succ n ih =>
    rw [pow_succ]
    exact ih.mul within

end Within

/-- Repetitions of single symbols are the words over the class. -/
theorem mem_kstar_symbols {w : List α} : w ∈ (symbols accepts)∗ ↔ ∀ symbol ∈ w, accepts symbol = true := by
  constructor
  · exact within_symbols.kstar w
  · intro accepted
    refine Language.mem_kstar.mpr ⟨w.map fun symbol => [symbol], ?_, fun part member => ?_⟩
    · rw [← List.flatMap_def, List.flatMap_singleton']
    · obtain ⟨symbol, inWord, rfl⟩ := List.mem_map.mp member
      exact ⟨symbol, accepted symbol inWord, rfl⟩

end Protovalidate.Foundation
