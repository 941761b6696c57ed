import Protovalidate.Foundation.WordLanguage
import Protovalidate.Foundation.Numeral

/-! Regular expressions: the words they match, a matcher by derivatives, and a
reader for a part of the usual notation. -/

namespace Protovalidate.Foundation

open scoped Computability

universe u

/-- Words that are put together from a number of words of a language. -/
def repetitions {α : Type u} (l : Language α) (least : Nat) (most : Option Nat) : Language α :=
  {w | ∃ n, least ≤ n ∧ (∀ bound ∈ most, n ≤ bound) ∧ w ∈ l ^ n}

section Languages

variable {α : Type u} {l m : Language α} {accepts : α → Bool} {symbol : α} {w : List α} {least n : Nat} {most : Option Nat}

theorem repetitions_any : repetitions l 0 none = l∗ := by
  ext w
  rw [Language.kstar_eq_iSup_pow, Language.mem_iSup]
  constructor
  · rintro ⟨n, -, -, member⟩
    exact ⟨n, member⟩
  · rintro ⟨n, member⟩
    exact ⟨n, Nat.zero_le n, (by rintro bound ⟨⟩), member⟩

theorem repetitions_optional : repetitions l 0 (some 1) = 1 + l := by
  ext w
  rw [Language.mem_add]
  constructor
  · rintro ⟨n, -, bounded, member⟩
    have short : n ≤ 1 := bounded 1 rfl
    obtain rfl | rfl : n = 0 ∨ n = 1 := by omega
    · exact Or.inl (by rwa [pow_zero] at member)
    · exact Or.inr (by rwa [pow_one] at member)
  · have bounded (n : Nat) (short : n ≤ 1) : ∀ bound ∈ some 1, n ≤ bound := by
      rintro bound ⟨⟩
      exact short
    rintro (empty | member)
    · exact ⟨0, Nat.zero_le 0, bounded 0 (Nat.zero_le 1), by rwa [pow_zero]⟩
    · exact ⟨1, Nat.zero_le 1, bounded 1 (Nat.le_refl 1), by rwa [pow_one]⟩

theorem mem_pow_symbols : w ∈ symbols accepts ^ n ↔ w.length = n ∧ ∀ symbol ∈ w, accepts symbol = true := by
  induction n generalizing w with
  | zero =>
    rw [pow_zero, Language.mem_one, List.length_eq_zero_iff]
    constructor
    · rintro rfl
      exact ⟨rfl, List.forall_mem_nil _⟩
    · exact And.left
  | succ n ih =>
    rw [pow_succ', Language.mem_mul]
    constructor
    · rintro ⟨front, ⟨symbol, accepted, rfl⟩, back, member, rfl⟩
      obtain ⟨length, all⟩ := ih.mp member
      exact ⟨congrArg (· + 1) length, List.forall_mem_cons.mpr ⟨accepted, all⟩⟩
    · rintro ⟨length, all⟩
      obtain ⟨symbol, back, rfl⟩ := List.exists_cons_of_length_eq_add_one length
      obtain ⟨accepted, all⟩ := List.forall_mem_cons.mp all
      exact ⟨[symbol], ⟨symbol, accepted, rfl⟩, back, ih.mpr ⟨Nat.succ.inj length, all⟩, rfl⟩

/-- Repetitions of single symbols are words over the class, of these lengths. -/
theorem mem_repetitions_symbols : w ∈ repetitions (symbols accepts) least most ↔
    least ≤ w.length ∧ (∀ bound ∈ most, w.length ≤ bound) ∧ ∀ symbol ∈ w, accepts symbol = true := by
  constructor
  · rintro ⟨n, enough, bounded, member⟩
    obtain ⟨rfl, all⟩ := mem_pow_symbols.mp member
    exact ⟨enough, bounded, all⟩
  · rintro ⟨enough, bounded, all⟩
    exact ⟨w.length, enough, bounded, mem_pow_symbols.mpr ⟨rfl, all⟩⟩

theorem nil_mem_pow : [] ∈ l ^ n ↔ n = 0 ∨ [] ∈ l := by
  rw [Language.mem_pow]
  constructor
  · rintro ⟨words, empty, rfl, all⟩
    cases words with
    | nil => exact Or.inl rfl
    | cons word words =>
      obtain rfl : word = [] := List.flatten_eq_nil_iff.mp empty.symm word List.mem_cons_self
      exact Or.inr (all [] List.mem_cons_self)
  · rintro (rfl | member)
    · exact ⟨[], rfl, rfl, List.forall_mem_nil _⟩
    · refine ⟨List.replicate n [], (List.flatten_replicate_nil).symm, List.length_replicate, ?_⟩
      intro word inWords
      rwa [List.eq_of_mem_replicate inWords]

theorem cons_mem_mul : symbol :: w ∈ l * m ↔
    (∃ front back, symbol :: front ∈ l ∧ back ∈ m ∧ front ++ back = w) ∨ [] ∈ l ∧ symbol :: w ∈ m := by
  rw [Language.mem_mul]
  constructor
  · rintro ⟨front, inFirst, back, inSecond, same⟩
    cases front with
    | nil =>
      rw [List.nil_append] at same
      exact Or.inr ⟨inFirst, same ▸ inSecond⟩
    | cons head front =>
      obtain ⟨rfl, rfl⟩ := List.cons.inj same
      exact Or.inl ⟨front, back, inFirst, inSecond, rfl⟩
  · rintro (⟨front, back, inFirst, inSecond, rfl⟩ | ⟨inFirst, inSecond⟩)
    · exact ⟨symbol :: front, inFirst, back, inSecond, rfl⟩
    · exact ⟨[], inFirst, symbol :: w, inSecond, rfl⟩

/-- The symbol belongs to the first of the words that is not empty; the empty ones in
front of it can as well stand behind it. -/
theorem cons_mem_pow : symbol :: w ∈ l ^ (n + 1) ↔
    ∃ front back, symbol :: front ∈ l ∧ back ∈ l ^ n ∧ front ++ back = w := by
  rw [pow_succ', cons_mem_mul, or_iff_left_iff_imp]
  rintro ⟨empty, member⟩
  induction n with
  | zero =>
    rw [pow_zero] at member
    cases member
  | succ n ih =>
    rw [pow_succ', cons_mem_mul] at member
    have found : ∃ front back, symbol :: front ∈ l ∧ back ∈ l ^ n ∧ front ++ back = w := member.elim id fun later => ih later.2
    obtain ⟨front, back, inFirst, inRest, rfl⟩ := found
    refine ⟨front, back, inFirst, ?_, rfl⟩
    rw [pow_succ']
    exact Language.append_mem_mul empty inRest

theorem cons_mem_repetitions : symbol :: w ∈ repetitions l least most ↔ most ≠ some 0 ∧
    ∃ front back, symbol :: front ∈ l ∧ back ∈ repetitions l (least - 1) (most.map (· - 1)) ∧ front ++ back = w := by
  constructor
  · rintro ⟨n, enough, bounded, member⟩
    cases n with
    | zero =>
      rw [pow_zero] at member
      cases member
    | succ n =>
      obtain ⟨front, back, inFirst, inRest, rfl⟩ := cons_mem_pow.mp member
      refine ⟨fun none_ => ?_, front, back, inFirst, ⟨n, Nat.sub_le_of_le_add enough, ?_, inRest⟩, rfl⟩
      · exact absurd (bounded 0 none_) (Nat.not_succ_le_zero n)
      · intro bound isBound
        obtain ⟨given, isGiven, rfl⟩ := Option.mem_map.mp isBound
        exact Nat.le_sub_of_add_le (bounded given isGiven)
  · rintro ⟨some_, front, back, inFirst, ⟨n, enough, bounded, inRest⟩, rfl⟩
    refine ⟨n + 1, Nat.le_add_of_sub_le enough, ?_, cons_mem_pow.mpr ⟨front, back, inFirst, inRest, rfl⟩⟩
    intro bound isBound
    have bounded : n ≤ bound - 1 := bounded (bound - 1) (Option.mem_map.mpr ⟨bound, isBound, rfl⟩)
    have positive : bound ≠ 0 := by
      rintro rfl
      exact some_ isBound
    omega

end Languages

/-- A regular expression over characters; a set is given by its ranges. -/
inductive Pattern where
  | empty
  | set (ranges : List (Char × Char))
  | concat (first second : Pattern)
  | choice (first second : Pattern)
  | repeated (body : Pattern) (least : Nat) (most : Option Nat)
  deriving DecidableEq

namespace Pattern

def inRanges (ranges : List (Char × Char)) (c : Char) : Bool :=
  ranges.any fun range => decide (range.1 ≤ c) && decide (c ≤ range.2)

/-- The ranges of single characters. -/
def characters (chars : List Char) : List (Char × Char) := chars.map fun c => (c, c)

/-- The texts that match as a whole. -/
def language : Pattern → Language Char
  | empty => 1
  | set ranges => symbols (inRanges ranges)
  | concat first second => first.language * second.language
  | choice first second => first.language + second.language
  | repeated body least most => repetitions body.language least most

@[simp] theorem language_empty : empty.language = 1 := rfl

@[simp] theorem language_set (ranges : List (Char × Char)) : (set ranges).language = symbols (inRanges ranges) := rfl

@[simp] theorem language_concat (first second : Pattern) :
    (concat first second).language = first.language * second.language := rfl

@[simp] theorem language_repeated (body : Pattern) (least : Nat) (most : Option Nat) :
    (repeated body least most).language = repetitions body.language least most := rfl

section Ranges

variable {c : Char}

theorem inRanges_append (ranges more : List (Char × Char)) :
    inRanges (ranges ++ more) c = (inRanges ranges c || inRanges more c) := List.any_append

theorem inRanges_characters (chars : List Char) : inRanges (characters chars) c = chars.contains c := by
  induction chars with
  | nil => rfl
  | cons char chars ih =>
    rw [characters, List.map_cons, List.contains_cons, ← ih]
    have same : (decide (char ≤ c) && decide (c ≤ char)) = (c == char) := by
      rw [← Bool.decide_and, Bool.beq_eq_decide_eq, decide_eq_decide]
      constructor
      · rintro ⟨lower, upper⟩
        exact Char.le_antisymm upper lower
      · rintro rfl
        exact ⟨Char.le_refl c, Char.le_refl c⟩
    exact congrArg (· || inRanges (characters chars) c) same

theorem symbols_character (c : Char) : symbols (inRanges (characters [c])) = literal [c] := by
  have single : inRanges (characters [c]) = (· == c) := by
    funext symbol
    rw [inRanges_characters, List.contains_cons, List.contains_nil, Bool.or_false]
  rw [single, symbols_beq]

end Ranges

section Matcher

def nullable : Pattern → Bool
  | empty => true
  | set _ => false
  | concat first second => first.nullable && second.nullable
  | choice first second => first.nullable || second.nullable
  | repeated body least most => (least == 0 || body.nullable) && most.all fun bound => decide (least ≤ bound)

/-- What has to follow a character. -/
def derivative (c : Char) : Pattern → Pattern
  | empty => set []
  | set ranges => if inRanges ranges c then empty else set []
  | concat first second =>
    if first.nullable then choice (concat (first.derivative c) second) (second.derivative c)
    else concat (first.derivative c) second
  | choice first second => choice (first.derivative c) (second.derivative c)
  | repeated body least most =>
    if most = some 0 then set [] else concat (body.derivative c) (repeated body (least - 1) (most.map (· - 1)))

def accepts (pattern : Pattern) : List Char → Bool
  | [] => pattern.nullable
  | c :: text => (pattern.derivative c).accepts text

variable {c : Char} {text : List Char}

theorem nullable_iff (pattern : Pattern) : pattern.nullable = true ↔ [] ∈ pattern.language := by
  induction pattern with
  | empty => exact iff_of_true rfl Language.nil_mem_one
  | set ranges =>
    refine iff_of_false Bool.false_ne_true ?_
    rintro ⟨symbol, -, empty⟩
    cases empty
  | concat first second first_ih second_ih =>
    rw [nullable, language, Bool.and_eq_true, first_ih, second_ih, Language.mem_mul]
    constructor
    · rintro ⟨inFirst, inSecond⟩
      exact ⟨[], inFirst, [], inSecond, rfl⟩
    · rintro ⟨front, inFirst, back, inSecond, empty⟩
      obtain ⟨rfl, rfl⟩ := List.append_eq_nil_iff.mp empty
      exact ⟨inFirst, inSecond⟩
  | choice first second first_ih second_ih =>
    rw [nullable, language, Bool.or_eq_true, first_ih, second_ih, Language.mem_add]
  | repeated body least most ih =>
    rw [nullable, language, Bool.and_eq_true, Bool.or_eq_true, beq_iff_eq, ih]
    have bounds : most.all (fun bound => decide (least ≤ bound)) = true ↔ ∀ bound ∈ most, least ≤ bound := by
      cases most <;> simp
    rw [bounds]
    constructor
    · rintro ⟨none_, bounded⟩
      exact ⟨least, Nat.le_refl least, bounded, nil_mem_pow.mpr none_⟩
    · rintro ⟨n, enough, bounded, member⟩
      refine ⟨(nil_mem_pow.mp member).imp (fun zero => ?_) id, fun bound isBound => ?_⟩
      · exact Nat.le_zero.mp (zero ▸ enough)
      · exact Nat.le_trans enough (bounded bound isBound)

theorem notMem_nothing : text ∉ (set []).language := by
  rintro ⟨symbol, accepted, -⟩
  cases accepted

/-- The derivative matches what the pattern matches behind the character. -/
theorem derivative_iff (pattern : Pattern) : text ∈ (pattern.derivative c).language ↔ c :: text ∈ pattern.language := by
  induction pattern generalizing text with
  | empty => exact iff_of_false notMem_nothing (List.cons_ne_nil c text)
  | set ranges =>
    rw [derivative]
    split
    · rename_i accepted
      constructor
      · rintro rfl
        exact ⟨c, accepted, rfl⟩
      · rintro ⟨symbol, -, same⟩
        exact (List.cons.inj same).2
    · rename_i rejected
      refine iff_of_false notMem_nothing ?_
      rintro ⟨symbol, accepted, same⟩
      obtain ⟨rfl, -⟩ := List.cons.inj same
      exact rejected accepted
  | concat first second first_ih second_ih =>
    have behind : text ∈ (first.derivative c).language * second.language ↔
        ∃ front back, c :: front ∈ first.language ∧ back ∈ second.language ∧ front ++ back = text := by
      simp only [Language.mem_mul, first_ih, ← exists_and_left]
    rw [derivative, language, cons_mem_mul, ← nullable_iff, ← behind, ← second_ih]
    split
    · rename_i empty
      rw [language, language, Language.mem_add, empty]
      simp
    · rename_i some_
      rw [language]
      simp [some_]
  | choice first second first_ih second_ih =>
    rw [derivative, language, language, Language.mem_add, Language.mem_add, first_ih, second_ih]
  | repeated body least most ih =>
    rw [derivative, language, cons_mem_repetitions]
    split
    · rename_i none_
      exact iff_of_false notMem_nothing fun found => found.1 none_
    · rename_i some_
      rw [language, Language.mem_mul]
      constructor
      · rintro ⟨front, inFirst, back, inRest, rfl⟩
        exact ⟨some_, front, back, ih.mp inFirst, inRest, rfl⟩
      · rintro ⟨-, front, back, inFirst, inRest, rfl⟩
        exact ⟨front, ih.mpr inFirst, back, inRest, rfl⟩

theorem accepts_iff (pattern : Pattern) : pattern.accepts text = true ↔ text ∈ pattern.language := by
  induction text generalizing pattern with
  | nil => exact nullable_iff pattern
  | cons c text ih =>
    rw [accepts, ih]
    exact derivative_iff pattern

end Matcher

section Reader

/-- A character of a notation; a backslash makes the next one an ordinary one. -/
inductive Mark where
  | plain (c : Char)
  | escaped (c : Char)
  deriving DecidableEq

def Mark.char : Mark → Char
  | plain c => c
  | escaped c => c

/-- What an escaped character may be to stand for itself. -/
def punctuation (c : Char) : Bool := decide (c.toNat < 128) && !c.isAlphanum && c != '_'

def marks : List Char → Option (List Mark)
  | [] => some []
  | ['\\'] => none
  | '\\' :: c :: rest => if punctuation c then (marks rest).map (.escaped c :: ·) else none
  | c :: rest => (marks rest).map (.plain c :: ·)

/-- The ranges of a set, up to its bracket. A hyphen in front of the bracket is a
character of the set. -/
def readRanges : List Mark → Option (List (Char × Char) × List Mark)
  | [] => none
  | .plain ']' :: rest => some ([], rest)
  | .plain '[' :: _ => none
  | first :: .plain '-' :: .plain ']' :: rest => some ([(first.char, first.char), ('-', '-')], rest)
  | first :: .plain '-' :: last :: rest =>
    if last = .plain '[' ∨ last.char < first.char then none
    else (readRanges rest).map fun (ranges, rest) => ((first.char, last.char) :: ranges, rest)
  | only :: rest => (readRanges rest).map fun (ranges, rest) => ((only.char, only.char) :: ranges, rest)

def plainDigit : Mark → Option Char
  | .plain c => if c.isDigit then some c else none
  | .escaped _ => none

/-- A number without leading zeros. -/
def readNumber (marks : List Mark) : Option (Nat × List Mark) :=
  let digits := (marks.map plainDigit).takeWhile Option.isSome |>.reduceOption
  if digits = [] ∨ digits.head? = some '0' ∧ digits ≠ ['0'] then none
  else some (positional 10 (fun c => c.toNat - '0'.toNat) 0 digits, marks.drop digits.length)

/-- The numbers of a repetition, at most 1000 each. -/
def readBounds (body : Pattern) (marks : List Mark) : Option (Pattern × List Mark) := do
  let (least, rest) ← readNumber marks
  match rest with
  | .plain '\x7d' :: rest => if least ≤ 1000 then some (repeated body least (some least), rest) else none
  | .plain ',' :: .plain '\x7d' :: rest => if least ≤ 1000 then some (repeated body least none, rest) else none
  | .plain ',' :: rest => do
    let (most, rest) ← readNumber rest
    match rest with
    | .plain '\x7d' :: rest => if least ≤ most ∧ most ≤ 1000 then some (repeated body least (some most), rest) else none
    | _ => none
  | _ => none

/-- At most one repetition stands behind an atom. -/
def readRepetition (body : Pattern) : List Mark → Option (Pattern × List Mark)
  | .plain '*' :: rest => some (repeated body 0 none, rest)
  | .plain '+' :: rest => some (repeated body 1 none, rest)
  | .plain '?' :: rest => some (repeated body 0 (some 1), rest)
  | .plain '\x7b' :: rest => readBounds body rest
  | rest => some (body, rest)

def operators : List Char := "\\.+*?()|[]\x7b\x7d^$".toList

/-- A group, a set or a character. -/
def readAtom (readGroup : List Mark → Option (Pattern × List Mark)) : List Mark → Option (Pattern × List Mark)
  | [] => none
  | .plain '(' :: .plain '?' :: .plain ':' :: rest =>
    match readGroup rest with
    | some (group, .plain ')' :: rest) => some (group, rest)
    | _ => none
  | .plain '[' :: rest =>
    if rest.head? = some (.plain '^') ∨ rest.head? = some (.plain ']') then none
    else (readRanges rest).map fun (ranges, rest) => (set ranges, rest)
  | .plain c :: rest => if c ∈ operators then none else some (set [(c, c)], rest)
  | .escaped c :: rest => some (set [(c, c)], rest)

/-- Read on behind a pattern, up to a closing parenthesis or the end; every round
takes a mark. -/
def readOn : Nat → Pattern → List Mark → Option (Pattern × List Mark)
  | 0, _, _ => none
  | _ + 1, before, [] => some (before, [])
  | _ + 1, before, .plain ')' :: rest => some (before, .plain ')' :: rest)
  | fuel + 1, before, .plain '|' :: rest => (readOn fuel empty rest).map fun (other, rest) => (choice before other, rest)
  | fuel + 1, before, marks => do
    let (atom, rest) ← readAtom (readOn fuel empty) marks
    let (item, rest) ← readRepetition atom rest
    readOn fuel (concat before item) rest

/-- The anchors say nothing about texts that are to match as a whole. -/
def unanchored (marks : List Mark) : List Mark :=
  let marks := if marks.head? = some (.plain '^') then marks.tail else marks
  if marks.getLast? = some (.plain '$') then marks.dropLast else marks

/-- The part of the notation without captures, flags, named classes, negated sets
and lazy repetitions. -/
def read (text : String) : Option Pattern := do
  let marks ← marks text.toList
  match readOn (marks.length + 1) empty (unanchored marks) with
  | some (pattern, []) => some pattern
  | _ => none

end Reader
end Pattern

end Protovalidate.Foundation
