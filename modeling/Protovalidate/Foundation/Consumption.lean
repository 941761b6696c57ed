import Protovalidate.Foundation.Recognizer

/-! What a recognizer consumes, whether or not its language is known: symbols
of a class, and something at all. -/

namespace Protovalidate.Foundation

open Consumer
open scoped Computability

universe u

variable {α : Type u}

/-- A positive answer consumes symbols of the class only. -/
def Consumes (accepts : α → Bool) (p : Consumer α) : Prop :=
  ∀ input rest, p input = (true, rest) → ∃ word, word ++ rest = input ∧ ∀ symbol ∈ word, accepts symbol = true

section Consumption

variable {accepts : α → Bool} {p q : Consumer α} {l : Language α} {F : List α → Prop}

theorem both_eq_true_iff {input rest : List α} :
    both p q input = (true, rest) ↔ ∃ middle, p input = (true, middle) ∧ q middle = (true, rest) := by
  simp only [both]
  constructor
  · intro found
    split at found
    · rename_i middle first
      exact ⟨middle, first, found⟩
    · cases found
  · rintro ⟨middle, first, second⟩
    simp only [first, second]

theorem restoring_eq_true_iff {input rest : List α} : restoring p input = (true, rest) ↔ p input = (true, rest) := by
  simp only [restoring]
  constructor
  · intro found
    split at found
    · rename_i middle inside
      rw [← found, inside]
    · cases found
  · intro found
    simp only [found]

/-- Either the first alternative is found, or the second at the same place. -/
theorem either_eq_true_iff (restores : Restores p) {input rest : List α} : either p q input = (true, rest) ↔
    p input = (true, rest) ∨ (p input = (false, input) ∧ q input = (true, rest)) := by
  simp only [either]
  constructor
  · intro found
    split at found
    · rename_i middle first
      exact .inl (first.trans found)
    · rename_i middle missed
      obtain rfl := restores input middle missed
      exact .inr ⟨missed, found⟩
  · rintro (first | ⟨missed, second⟩)
    · simp only [first]
    · simp only [missed, second]

theorem either_cases (restores : Restores p) {input rest : List α} (found : either p q input = (true, rest)) :
    p input = (true, rest) ∨ q input = (true, rest) :=
  ((either_eq_true_iff restores).mp found).imp_right And.right

/-- The whole input is consumed. -/
theorem both_isEmpty_iff {input : List α} :
    (both p (test List.isEmpty) input).1 = true ↔ p input = (true, []) := by
  constructor
  · intro read
    obtain ⟨middle, found, ends⟩ := both_eq_true_iff.mp (Prod.ext read rfl)
    obtain ⟨empty, -⟩ := Prod.mk.inj ends
    rw [found, List.isEmpty_iff.mp empty]
  · intro found
    simp only [both, found, test, List.isEmpty_nil]

theorem RecognizesAt.emptied {input rest : List α} (reads : RecognizesAt p l (fun rest => rest.isEmpty = true) input)
    (found : p input = (true, rest)) : rest = [] := by
  obtain ⟨-, -, -, empty⟩ := (reads rest).mp found
  exact List.isEmpty_iff.mp empty

theorem RecognizesAt.whole_iff {input : List α} (reads : RecognizesAt p l (fun rest => rest.isEmpty = true) input) :
    p input = (true, []) ↔ input ∈ l := by
  rw [reads []]
  constructor
  · rintro ⟨u, member, rfl, -⟩
    rwa [List.append_nil]
  · intro member
    exact ⟨input, member, List.append_nil input, rfl⟩

/-- An optional part was found behind its lead, or nothing was consumed. -/
theorem whenever_cases (restores : Restores p) {input rest : List α} (found : whenever p q input = (true, rest)) :
    (∃ middle, p input = (true, middle) ∧ q middle = (true, rest)) ∨ (p input = (false, input) ∧ rest = input) := by
  simp only [whenever] at found
  split at found
  · rename_i middle leads
    exact .inl ⟨middle, leads, found⟩
  · rename_i middle missed
    obtain ⟨-, rfl⟩ := Prod.mk.inj found
    obtain rfl := restores input _ missed
    exact .inr ⟨missed, rfl⟩

theorem Shrinks.either (first : Shrinks p) (restores : Restores p) (second : Shrinks q) :
    Shrinks (Consumer.either p q) := by
  intro input rest found
  rcases either_cases restores found with found | found
  · exact first input rest found
  · exact second input rest found

theorem Recognizes.consumes (reads : Recognizes p l F) (within : Within accepts l) : Consumes accepts p := by
  intro input rest found
  obtain ⟨word, member, same, -⟩ := (reads input rest).mp found
  exact ⟨word, same, within word member⟩

theorem consumes_test (holds : List α → Bool) : Consumes accepts (test holds) :=
  (recognizes_test holds).consumes within_one

/-- What is consumed one after the other is consumed. -/
theorem Consumes.follow (first : Consumes accepts p) (second : Consumes accepts q) {input middle rest : List α}
    (found : p input = (true, middle)) (found' : q middle = (true, rest)) :
    ∃ word, word ++ rest = input ∧ ∀ symbol ∈ word, accepts symbol = true := by
  obtain ⟨front, rfl, inFront⟩ := first input middle found
  obtain ⟨back, rfl, inBack⟩ := second middle rest found'
  refine ⟨front ++ back, List.append_assoc front back rest, fun symbol member => ?_⟩
  exact (List.mem_append.mp member).elim (inFront symbol) (inBack symbol)

theorem Consumes.both (first : Consumes accepts p) (second : Consumes accepts q) :
    Consumes accepts (Consumer.both p q) := by
  intro input rest found
  obtain ⟨middle, found, found'⟩ := both_eq_true_iff.mp found
  exact first.follow second found found'

theorem Consumes.either (first : Consumes accepts p) (restores : Restores p) (second : Consumes accepts q) :
    Consumes accepts (Consumer.either p q) := by
  intro input rest found
  rcases either_cases restores found with found | found
  · exact first input rest found
  · exact second input rest found

theorem Consumes.restoring (body : Consumes accepts p) : Consumes accepts (Consumer.restoring p) := by
  intro input rest found
  simp only [Consumer.restoring] at found
  split at found
  · rename_i middle inside
    rw [found] at inside
    exact body input rest inside
  · cases found

theorem Consumes.whenever (lead : Consumes accepts p) (restores : Restores p) (body : Consumes accepts q) :
    Consumes accepts (Consumer.whenever p q) := by
  intro input rest found
  rcases whenever_cases restores found with ⟨middle, leads, found⟩ | ⟨-, rfl⟩
  · exact lead.follow body leads found
  · exact ⟨[], rfl, by simp⟩

theorem Consumes.skip (token : Consumes accepts p) (restores : Restores p) (shrinks : Shrinks p)
    (input : List α) : ∃ word, word ++ skip p input = input ∧ ∀ symbol ∈ word, accepts symbol = true := by
  induction input using skip_induction shrinks with
  | token input rest found ih =>
    obtain ⟨front, rfl, inFront⟩ := token input rest found
    obtain ⟨back, same, inBack⟩ := ih
    refine ⟨front ++ back, ?_, fun symbol member => (List.mem_append.mp member).elim (inFront symbol) (inBack symbol)⟩
    rw [skip_again shrinks found, List.append_assoc, same]
  | missed input missed => exact ⟨[], skip_leave shrinks restores missed, by simp⟩

/-- Two recognizers that find the same tokens skip the same. -/
theorem skip_congr (good : List α → Prop) (shrinks : Shrinks p) (shrinks' : Shrinks q) (restores : Restores p)
    (restores' : Restores q) (agree : ∀ input, good input → p input = q input)
    (kept : ∀ input rest, good input → p input = (true, rest) → good rest) (input : List α) (start : good input) :
    Consumer.skip p input = Consumer.skip q input := by
  induction input using skip_induction shrinks with
  | token input rest found ih =>
    rw [skip_again shrinks found, skip_again shrinks' ((agree input start).symm.trans found)]
    exact ih (kept input rest start found)
  | missed input missed =>
    rw [skip_leave shrinks restores missed, skip_leave shrinks' restores']
    exact fun rest found => missed rest ((agree input start).trans found)

theorem Consumes.many (token : Consumes accepts p) (restores : Restores p) (shrinks : Shrinks p) :
    Consumes accepts (Consumer.many p) := by
  intro input rest found
  obtain ⟨-, rfl⟩ := Prod.mk.inj found
  exact token.skip restores shrinks input

theorem Consumes.atLeastOne [DecidableEq α] (token : Consumes accepts p) (restores : Restores p)
    (shrinks : Shrinks p) : Consumes accepts (Consumer.atLeastOne p) := by
  intro input rest found
  obtain ⟨-, rfl⟩ := Prod.mk.inj found
  exact token.skip restores shrinks input

end Consumption
end Protovalidate.Foundation
