import Protovalidate.Foundation.Loop
import Protovalidate.Foundation.WordLanguage

/-! Hand-written recognizers over an arbitrary alphabet: functions that answer
yes or no and move a cursor. A recognizer is related to a language together
with the condition its caller may rely on at the cursor it leaves behind. -/

namespace Protovalidate.Foundation

open scoped Computability

universe u

variable {α : Type u}

/-- The answer, and the input that is left. A negative answer may leave the
cursor anywhere; whoever tries an alternative has to restore it. -/
abbrev Consumer (α : Type u) := List α → Bool × List α

namespace Consumer

/-- Consume one symbol of a class. -/
def one (accepts : α → Bool) : Consumer α
  | [] => (false, [])
  | symbol :: rest => if accepts symbol then (true, rest) else (false, symbol :: rest)

/-- Consume a fixed word. -/
def word [BEq α] (expected : List α) : Consumer α := fun input =>
  if expected.isPrefixOf input then (true, input.drop expected.length) else (false, input)

/-- Look at the input without consuming any of it. -/
def test (holds : List α → Bool) : Consumer α := fun input => (holds input, input)

/-- Short-circuit conjunction. -/
def both (first second : Consumer α) : Consumer α := fun input =>
  match first input with
  | (true, rest) => second rest
  | (false, rest) => (false, rest)

/-- Short-circuit disjunction. -/
def either (first second : Consumer α) : Consumer α := fun input =>
  match first input with
  | (true, rest) => (true, rest)
  | (false, rest) => second rest

/-- Remember the cursor and put it back on a negative answer. -/
def restoring (body : Consumer α) : Consumer α := fun input =>
  match body input with
  | (true, rest) => (true, rest)
  | (false, _) => (false, input)

/-- An optional lead that, once consumed, has to be followed by a body. -/
def whenever (lead body : Consumer α) : Consumer α := fun input =>
  match lead input with
  | (true, rest) => body rest
  | (false, rest) => (true, rest)

/-- One round of a loop that consumes for as long as it can. -/
def skipRound (body : Consumer α) (input : List α) : Control (List α) (List α) :=
  match body input with
  | (true, rest) => .again rest
  | (false, rest) => .leave rest

/-- Consume for as long as possible; what is left. -/
def skip (body : Consumer α) (input : List α) : List α :=
  Control.loop (skipRound body) List.length [] input

/-- Any number of repetitions. -/
def many (body : Consumer α) : Consumer α := fun input => (true, skip body input)

/-- At least one repetition, told by the cursor having moved. -/
def atLeastOne [DecidableEq α] (body : Consumer α) : Consumer α := fun input =>
  (decide (skip body input ≠ input), skip body input)

end Consumer

open Consumer

/-- Acceptance at one input: exactly the words of the language that leave a
remainder satisfying the follow condition. -/
def RecognizesAt (p : Consumer α) (l : Language α) (follow : List α → Prop) (input : List α) : Prop :=
  ∀ rest, p input = (true, rest) ↔ ∃ u ∈ l, u ++ rest = input ∧ follow rest

def Recognizes (p : Consumer α) (l : Language α) (follow : List α → Prop) : Prop :=
  ∀ input, RecognizesAt p l follow input

/-- The cursor is back where it was after a negative answer. -/
def Restores (p : Consumer α) : Prop := ∀ input rest, p input = (false, rest) → rest = input

/-- No follow condition at all. -/
def Anything (_ : List α) : Prop := True

/-- A positive answer consumes something. -/
def Shrinks (p : Consumer α) : Prop := ∀ input rest, p input = (true, rest) → rest.length < input.length

/-- The recognizer finds nothing here. -/
def Misses (p : Consumer α) (input : List α) : Prop := ∀ rest, p input ≠ (true, rest)

section Runs

variable {accepts : α → Bool} {word rest : List α} {symbol : α}

/-- No symbol of the class comes next. -/
def Stops (accepts : α → Bool) (rest : List α) : Prop :=
  ∀ symbol, rest.head? = some symbol → accepts symbol = false

@[simp] theorem stops_nil : Stops accepts [] := by simp [Stops]

@[simp] theorem stops_cons : Stops accepts (symbol :: rest) ↔ accepts symbol = false := by
  simp [Stops]

/-- Every input starts with a maximal run of a class. -/
theorem exists_run (accepts : α → Bool) (input : List α) :
    ∃ word rest, word ++ rest = input ∧ (∀ symbol ∈ word, accepts symbol = true) ∧ Stops accepts rest := by
  refine ⟨input.takeWhile accepts, input.dropWhile accepts, List.takeWhile_append_dropWhile,
    List.all_eq_true.mp List.all_takeWhile, ?_⟩
  intro symbol next
  have missed := List.head?_dropWhile_not accepts input
  rw [next] at missed
  simpa using missed

theorem run_unique {word' rest' : List α} (same : word ++ rest = word' ++ rest')
    (run : ∀ symbol ∈ word, accepts symbol = true) (stops : Stops accepts rest)
    (run' : ∀ symbol ∈ word', accepts symbol = true) (stops' : Stops accepts rest') :
    word = word' ∧ rest = rest' := by
  induction word generalizing word' with
  | nil =>
    cases word' with
    | nil => exact ⟨rfl, same⟩
    | cons symbol tail =>
      obtain rfl : rest = symbol :: (tail ++ rest') := same
      have accepted := run' symbol (by simp)
      rw [stops_cons.mp stops] at accepted
      cases accepted
  | cons symbol tail ih =>
    cases word' with
    | nil =>
      obtain rfl : symbol :: (tail ++ rest) = rest' := same
      have accepted := run symbol (by simp)
      rw [stops_cons.mp stops'] at accepted
      cases accepted
    | cons symbol' tail' =>
      obtain ⟨rfl, tails⟩ := List.cons.inj same
      obtain ⟨rfl, rfl⟩ := ih tails (fun later member => run later (by simp [member]))
        (fun later member => run' later (by simp [member]))
      exact ⟨rfl, rfl⟩

end Runs

section Restoring

theorem one_restores (accepts : α → Bool) : Restores (one accepts) := by
  intro input rest failed
  cases input with
  | nil => simp only [one, Prod.mk.injEq] at failed; exact failed.2.symm
  | cons symbol tail =>
    simp only [one] at failed
    split at failed <;> simp at failed
    exact failed.symm

theorem word_restores [BEq α] (expected : List α) : Restores (word expected) := by
  intro input rest failed
  simp only [word] at failed
  split at failed <;> simp at failed
  exact failed.symm

theorem restoring_restores (p : Consumer α) : Restores (restoring p) := by
  intro input rest failed
  simp only [restoring] at failed
  split at failed <;> simp at failed
  exact failed.symm

theorem Restores.either {p q : Consumer α} (first : Restores p) (second : Restores q) :
    Restores (either p q) := by
  intro input rest failed
  simp only [Consumer.either] at failed
  split at failed
  · simp at failed
  · rename_i middle missed
    have same := first input middle missed
    subst same
    exact second _ rest failed

/-- A conjunction restores where only its first part can fail. -/
theorem Restores.both_many {p : Consumer α} (first : Restores p) (q : Consumer α) :
    Restores (Consumer.both p (Consumer.many q)) := by
  intro input rest failed
  simp only [Consumer.both, Consumer.many] at failed
  split at failed
  · simp at failed
  · rename_i middle missed
    obtain ⟨-, rfl⟩ := Prod.mk.inj failed
    exact first input _ missed

/-- Only what an alternative does at this input matters. -/
theorem either_congr {p q r : Consumer α} (restores : Restores p) {input : List α} (same : q input = r input) :
    either p q input = either p r input := by
  simp only [either]
  cases answer : p input with
  | mk found rest =>
    cases found with
    | true => rfl
    | false =>
      rw [restores input rest answer]
      exact same

end Restoring

section Rules

variable {p q : Consumer α} {l m : Language α} {F G : List α → Prop} {input rest : List α}

theorem recognizes_one (accepts : α → Bool) : Recognizes (one accepts) (symbols accepts) Anything := by
  intro input rest
  cases input with
  | nil => simp [one, mem_symbols]
  | cons symbol tail =>
    simp only [one, mem_symbols]
    constructor
    · intro matched
      split at matched <;> simp at matched
      rename_i accepted
      exact ⟨[symbol], ⟨symbol, accepted, rfl⟩, by simp [matched], trivial⟩
    · rintro ⟨_, ⟨first, accepted, rfl⟩, same, -⟩
      obtain ⟨rfl, rfl⟩ := List.cons.inj same
      simp [accepted]

theorem recognizes_word [BEq α] [LawfulBEq α] (expected : List α) :
    Recognizes (word expected) (literal expected) Anything := by
  intro input rest
  simp only [word, mem_literal]
  constructor
  · intro matched
    split at matched <;> simp at matched
    rename_i found
    obtain ⟨tail, rfl⟩ := List.isPrefixOf_iff_prefix.mp found
    exact ⟨expected, rfl, by simpa using matched.symm, trivial⟩
  · rintro ⟨_, rfl, rfl, -⟩
    simp

theorem recognizes_test (holds : List α → Bool) :
    Recognizes (test holds) 1 (fun rest => holds rest = true) := by
  intro input rest
  simp only [test, Prod.mk.injEq, Language.mem_one]
  constructor
  · rintro ⟨found, rfl⟩
    exact ⟨[], rfl, rfl, found⟩
  · rintro ⟨_, rfl, rfl, found⟩
    exact ⟨found, rfl⟩

/-- Sequencing, where every word of the second language, with what may follow
it, may follow the first. -/
theorem RecognizesAt.both (first : RecognizesAt p l F input)
    (second : ∀ rest, p input = (true, rest) → RecognizesAt q m G rest)
    (compatible : ∀ v ∈ m, ∀ rest, G rest → F (v ++ rest)) :
    RecognizesAt (both p q) (l * m) G input := by
  intro rest
  simp only [Consumer.both]
  constructor
  · intro matched
    split at matched
    · rename_i middle found
      obtain ⟨u, inFirst, rfl, -⟩ := (first middle).mp found
      obtain ⟨v, inSecond, rfl, follows⟩ := (second middle found rest).mp matched
      exact ⟨u ++ v, Language.append_mem_mul inFirst inSecond, List.append_assoc u v rest, follows⟩
    · simp at matched
  · rintro ⟨w, inBoth, rfl, follows⟩
    obtain ⟨u, inFirst, v, inSecond, rfl⟩ := Language.mem_mul.mp inBoth
    have found : p (u ++ v ++ rest) = (true, v ++ rest) :=
      (first _).mpr ⟨u, inFirst, (List.append_assoc u v rest).symm, compatible v inSecond rest follows⟩
    rw [found]
    exact (second _ found rest).mpr ⟨v, inSecond, rfl, follows⟩

/-- Ordered choice between alternatives that never match the same input. -/
theorem RecognizesAt.either (first : RecognizesAt p l F input) (restores : Restores p)
    (second : RecognizesAt q m F input)
    (exclusive : ∀ rest, p input = (true, rest) → ∀ v ∈ m, ∀ after, v ++ after = input → F after → False) :
    RecognizesAt (either p q) (l + m) F input := by
  intro rest
  simp only [Consumer.either, Language.mem_add]
  constructor
  · intro matched
    split at matched
    · rename_i middle found
      rw [matched] at found
      obtain ⟨u, inFirst, same, follows⟩ := (first rest).mp found
      exact ⟨u, .inl inFirst, same, follows⟩
    · rename_i middle missed
      rw [restores input middle missed] at matched
      obtain ⟨v, inSecond, same, follows⟩ := (second rest).mp matched
      exact ⟨v, .inr inSecond, same, follows⟩
  · rintro ⟨w, inFirst | inSecond, same, follows⟩
    · rw [(first rest).mpr ⟨w, inFirst, same, follows⟩]
    · split
      · rename_i middle found
        exact (exclusive middle found w inSecond rest same follows).elim
      · rename_i middle missed
        rw [restores input middle missed]
        exact (second rest).mpr ⟨w, inSecond, same, follows⟩

theorem RecognizesAt.restoring (body : RecognizesAt p l F input) :
    RecognizesAt (restoring p) l F input := by
  intro rest
  rw [← body rest]
  simp only [Consumer.restoring]
  split <;> simp_all

/-- Alternatives told apart by the first symbol. -/
theorem RecognizesAt.either_leads {accepts accepts' : α → Bool} (first : RecognizesAt p l F input)
    (restores : Restores p) (second : RecognizesAt q m F input) (leads : Leads accepts l)
    (leads' : Leads accepts' m) (disjoint : ∀ symbol, accepts symbol = true → accepts' symbol = false) :
    RecognizesAt (Consumer.either p q) (l + m) F input := by
  refine first.either restores second fun rest found v inSecond after same _ => ?_
  obtain ⟨u, inFirst, same', -⟩ := (first rest).mp found
  obtain ⟨symbol, tail, rfl, accepted⟩ := leads u inFirst
  obtain ⟨symbol', tail', rfl, accepted'⟩ := leads' v inSecond
  obtain ⟨rfl, -⟩ := List.cons.inj (same.trans same'.symm)
  rw [disjoint _ accepted] at accepted'
  cases accepted'

/-- Nothing is found where no word of the language can start. -/
theorem RecognizesAt.misses {accepts : α → Bool} (first : RecognizesAt p l F input) (leads : Leads accepts l)
    (stops : Stops accepts input) : Misses p input := by
  intro rest found
  obtain ⟨u, member, rfl, -⟩ := (first rest).mp found
  obtain ⟨symbol, tail, rfl, accepted⟩ := leads u member
  rw [stops symbol rfl] at accepted
  cases accepted

/-- An optional part. Without the lead the follow condition already holds, and
the follow condition rules the lead out. -/
theorem RecognizesAt.whenever (lead : RecognizesAt p l F input) (restores : Restores p)
    (body : ∀ rest, p input = (true, rest) → RecognizesAt q m G rest)
    (compatible : ∀ v ∈ m, ∀ rest, G rest → F (v ++ rest))
    (settled : Misses p input ↔ G input) :
    RecognizesAt (Consumer.whenever p q) (1 + l * m) G input := by
  intro rest
  have present := lead.both body compatible rest
  simp only [Consumer.both] at present
  simp only [Consumer.whenever, Language.mem_add, Language.mem_one]
  constructor
  · intro matched
    split at matched
    · rename_i middle found
      rw [found] at present
      obtain ⟨w, inBoth, same, follows⟩ := present.mp matched
      exact ⟨w, .inr inBoth, same, follows⟩
    · rename_i middle missed
      obtain ⟨-, rfl⟩ := Prod.mk.inj matched
      have same := restores input _ missed
      subst same
      exact ⟨[], .inl rfl, rfl, settled.mp fun other found => by simp [missed] at found⟩
  · rintro ⟨w, rfl | inBoth, same, follows⟩
    · obtain rfl : rest = input := same
      split
      · rename_i middle found
        exact (settled.mpr follows middle found).elim
      · rename_i middle missed
        rw [restores _ middle missed]
    · split
      · rename_i middle found
        rw [found] at present
        exact present.mpr ⟨w, inBoth, same, follows⟩
      · rename_i middle missed
        rw [missed] at present
        simpa using present.mpr ⟨w, inBoth, same, follows⟩

/-- An optional part in front of a required one that never matches where the
lead of the optional part does. -/
theorem RecognizesAt.whenever_both {r : Consumer α} {n : Language α} {H : List α → Prop}
    (lead : RecognizesAt p l F input) (restores : Restores p)
    (present : ∀ rest, p input = (true, rest) → RecognizesAt (Consumer.both q r) m H rest)
    (absent : Misses p input → RecognizesAt r n H input)
    (compatible : ∀ v ∈ m, ∀ rest, H rest → F (v ++ rest))
    (exclusive : ∀ rest, p input = (true, rest) → ∀ w ∈ n, ∀ after, w ++ after = input → H after → False) :
    RecognizesAt (Consumer.both (Consumer.whenever p q) r) (l * m + n) H input := by
  intro rest
  have withLead := lead.both present compatible rest
  simp only [Consumer.both, Consumer.whenever, Language.mem_add] at withLead ⊢
  cases leads : p input with
  | mk answer middle =>
    cases answer with
    | true =>
      simp only [leads] at withLead ⊢
      rw [withLead]
      constructor
      · rintro ⟨w, inBoth, same, follows⟩
        exact ⟨w, .inl inBoth, same, follows⟩
      · rintro ⟨w, inBoth | alone, same, follows⟩
        · exact ⟨w, inBoth, same, follows⟩
        · exact (exclusive middle leads w alone rest same follows).elim
    | false =>
      have same := restores input middle leads
      subst same
      simp only [leads] at withLead ⊢
      rw [absent (fun other found => by simp [leads] at found) rest]
      constructor
      · rintro ⟨w, alone, same, follows⟩
        exact ⟨w, .inr alone, same, follows⟩
      · rintro ⟨w, inBoth | alone, same, follows⟩
        · simpa using withLead.mpr ⟨w, inBoth, same, follows⟩
        · exact ⟨w, alone, same, follows⟩

end Rules

section Repetition

variable {p : Consumer α} {l : Language α} {F G : List α → Prop}

theorem Shrinks.decreases (shrinks : Shrinks p) : Control.Decreases (skipRound p) List.length := by
  intro input next round
  simp only [skipRound] at round
  split at round <;> cases round
  exact shrinks input _ (by assumption)

theorem skip_again (shrinks : Shrinks p) {input rest : List α} (found : p input = (true, rest)) :
    skip p input = skip p rest :=
  Control.loop_again shrinks.decreases (by simp [skipRound, found])

theorem skip_leave (shrinks : Shrinks p) (restores : Restores p) {input : List α} (missed : Misses p input) :
    skip p input = input := by
  apply Control.loop_leave shrinks.decreases
  simp only [skipRound]
  split
  · rename_i rest found
    exact (missed rest found).elim
  · rename_i rest failed
    rw [restores input rest failed]

/-- Induction along the tokens of a greedy repetition. -/
theorem skip_induction {motive : List α → Prop} (shrinks : Shrinks p)
    (token : ∀ input rest, p input = (true, rest) → motive rest → motive input)
    (missed : ∀ input, Misses p input → motive input) (input : List α) : motive input := by
  induction input using Control.loop_induction shrinks.decreases with
  | round input ih =>
    by_cases found : ∃ rest, p input = (true, rest)
    · obtain ⟨rest, found⟩ := found
      exact token input rest found (ih rest (by simp [skipRound, found]))
    · exact missed input fun rest same => found ⟨rest, same⟩

/-- A recognizer of non-empty words makes progress. -/
theorem Recognizes.shrinks (token : Recognizes p l F) (nonempty : [] ∉ l) : Shrinks p := by
  intro input rest found
  obtain ⟨u, member, rfl, -⟩ := (token input rest).mp found
  cases u with
  | nil => exact (nonempty member).elim
  | cons symbol tail => simp only [List.length_append, List.length_cons]; omega

/-- The skipped part is a repetition of tokens, and no token follows it. -/
theorem skip_sound (token : Recognizes p l F) (nonempty : [] ∉ l) (restores : Restores p)
    (input : List α) : ∃ u ∈ l∗, u ++ skip p input = input ∧ Misses p (skip p input) := by
  have shrinks := token.shrinks nonempty
  induction input using skip_induction shrinks with
  | token input rest found ih =>
    obtain ⟨u, member, same, stops⟩ := ih
    obtain ⟨t, isToken, rfl, -⟩ := (token input rest).mp found
    rw [skip_again shrinks found]
    refine ⟨t ++ u, ?_, by rw [List.append_assoc, same], stops⟩
    obtain ⟨parts, rfl, tokens⟩ := Language.mem_kstar.mp member
    refine Language.mem_kstar.mpr ⟨t :: parts, rfl, fun part inParts => ?_⟩
    rcases List.mem_cons.mp inParts with rfl | inParts
    · exact isToken
    · exact tokens part inParts
  | missed input missed =>
    rw [skip_leave shrinks restores missed]
    exact ⟨[], Language.nil_mem_kstar l, rfl, missed⟩

/-- Where tokens may follow one another, a repetition is skipped as a whole. -/
theorem skip_complete (token : Recognizes p l F) (nonempty : [] ∉ l) (restores : Restores p)
    (adjacent : ∀ u ∈ l, ∀ rest, F (u ++ rest)) {rest : List α} (follows : F rest)
    (stops : Misses p rest) {u : List α} (member : u ∈ l∗) :
    skip p (u ++ rest) = rest := by
  obtain ⟨parts, rfl, tokens⟩ := Language.mem_kstar.mp member
  clear member
  induction parts with
  | nil => exact skip_leave (token.shrinks nonempty) restores stops
  | cons part parts ih =>
    have restTokens : ∀ y ∈ parts, y ∈ l := fun y inParts => tokens y (List.mem_cons_of_mem part inParts)
    have joined : F (parts.flatten ++ rest) := by
      cases parts with
      | nil => exact follows
      | cons next parts =>
        simpa [List.append_assoc] using adjacent next (restTokens next (by simp)) (parts.flatten ++ rest)
    have found : p (part ++ (parts.flatten ++ rest)) = (true, parts.flatten ++ rest) :=
      (token _ _).mpr ⟨part, tokens part (by simp), rfl, joined⟩
    rw [List.flatten_cons, List.append_assoc, skip_again (token.shrinks nonempty) found]
    exact ih restTokens

/-- A greedy repetition where a token could have ended just before. -/
theorem Recognizes.many (token : Recognizes p l F) (nonempty : [] ∉ l) (restores : Restores p)
    (adjacent : ∀ u ∈ l, ∀ rest, F (u ++ rest)) {input : List α} (fits : F input) :
    RecognizesAt (Consumer.many p) l∗ (fun rest => F rest ∧ Misses p rest) input := by
  have follows : F (skip p input) := by
    clear adjacent
    induction input using skip_induction (token.shrinks nonempty) with
    | token input rest found ih =>
      obtain ⟨u, -, -, fitsRest⟩ := (token input rest).mp found
      rw [skip_again (token.shrinks nonempty) found]
      exact ih fitsRest
    | missed input missed =>
      rw [skip_leave (token.shrinks nonempty) restores missed]
      exact fits
  intro rest
  simp only [Consumer.many, Prod.mk.injEq, true_and]
  constructor
  · rintro rfl
    obtain ⟨u, member, same, stops⟩ := skip_sound token nonempty restores input
    exact ⟨u, member, same, follows, stops⟩
  · rintro ⟨u, member, rfl, fitsRest, stops⟩
    exact skip_complete token nonempty restores adjacent fitsRest stops member

/-- A greedy repetition followed by a look at the remainder, for remainders at
which no token starts. -/
theorem Recognizes.many_test (token : Recognizes p l F) (nonempty : [] ∉ l) (restores : Restores p)
    (adjacent : ∀ u ∈ l, ∀ rest, F (u ++ rest)) {holds : List α → Bool}
    (stops : ∀ rest, holds rest = true → F rest ∧ Misses p rest) :
    Recognizes (Consumer.both (Consumer.many p) (test holds)) l∗ (fun rest => holds rest = true) := by
  intro input rest
  simp only [Consumer.both, Consumer.many, test, Prod.mk.injEq]
  constructor
  · rintro ⟨follows, rfl⟩
    obtain ⟨u, member, split, -⟩ := skip_sound token nonempty restores input
    exact ⟨u, member, split, follows⟩
  · rintro ⟨u, member, rfl, follows⟩
    obtain ⟨fits, ends⟩ := stops rest follows
    rw [skip_complete token nonempty restores adjacent fits ends member]
    exact ⟨follows, rfl⟩

theorem skip_length_le (shrinks : Shrinks p) (restores : Restores p) (input : List α) :
    (skip p input).length ≤ input.length := by
  induction input using skip_induction shrinks with
  | token input rest found ih =>
    rw [skip_again shrinks found]
    exact Nat.le_trans ih (Nat.le_of_lt (shrinks input rest found))
  | missed input missed => rw [skip_leave shrinks restores missed]

/-- A repetition that has to move the cursor starts with one token. -/
theorem atLeastOne_eq [DecidableEq α] (shrinks : Shrinks p) (restores : Restores p) :
    Consumer.atLeastOne p = both p (many p) := by
  funext input
  simp only [Consumer.atLeastOne, Consumer.both, Consumer.many]
  cases answer : p input with
  | mk found rest =>
    cases found with
    | false =>
      have missed : Misses p input := fun rest same => by simp [answer] at same
      rw [skip_leave shrinks restores missed, restores input rest answer]
      simp
    | true =>
      have moved : skip p input ≠ input := by
        have shorter := shrinks input rest answer
        have shrunk := skip_length_le shrinks restores rest
        intro same
        rw [skip_again shrinks answer] at same
        rw [same] at shrunk
        omega
      rw [skip_again shrinks answer] at moved ⊢
      simp [moved]

theorem Recognizes.atLeastOne [DecidableEq α] (token : Recognizes p l F) (nonempty : [] ∉ l)
    (restores : Restores p) (adjacent : ∀ u ∈ l, ∀ rest, F (u ++ rest)) :
    Recognizes (Consumer.atLeastOne p) (l * l∗) (fun rest => F rest ∧ Misses p rest) := by
  intro input
  rw [atLeastOne_eq (token.shrinks nonempty) restores]
  refine (token input).both (fun rest found => ?_) fun u member rest follows => ?_
  · obtain ⟨-, -, -, fits⟩ := (token input rest).mp found
    exact token.many nonempty restores adjacent fits
  · obtain ⟨parts, rfl, tokens⟩ := Language.mem_kstar.mp member
    cases parts with
    | nil => exact follows.1
    | cons part parts =>
      simpa [List.append_assoc] using adjacent part (tokens part (by simp)) (parts.flatten ++ rest)

end Repetition

end Protovalidate.Foundation
