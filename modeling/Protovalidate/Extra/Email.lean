import Protovalidate.Foundation.Pattern
import Protovalidate.Extra.CelFunctions
import Protovalidate.Extra.Hostname

/-! The language of `isEmail`, and its domains among the names of `isHostname`. -/

namespace Protovalidate.Extra

open scoped Computability
open Foundation Lib

/-- A character of a local part. -/
def atext (c : Char) : Bool := c.isAlphanum || ".!#$%&'*+/=?^_`\x7b|\x7d~-".toList.contains c

structure LocalPart (str : StringView) : Prop where
  nonempty : str ≠ []
  chars : ∀ c ∈ str, atext c = true

/-- The pieces between the dots are labels. -/
def Dotted (domain : StringView) : Prop := ∀ label ∈ domain.splitOn '.', HostLabel label

/-- `RE2::FullMatch` goes by the notation of the pattern. -/
def Library.Matches {M : Type} (library : Library M) (text : String) : Prop :=
  ∀ pattern, Pattern.read text = some pattern → ∀ str, library.fullMatch str text = true ↔ str ∈ pattern.language

section Syntax

open Pattern

def alphanumerics : List (Char × Char) := [('a', 'z'), ('A', 'Z'), ('0', '9')]

def localPattern : Pattern :=
  repeated (set (alphanumerics ++ characters ".!#$%&'*+/=?^_`\x7b|\x7d~-".toList)) 1 none

/-- What stands behind the first character of a label. -/
def labelRest : Pattern :=
  repeated (concat (concat empty (repeated (set (alphanumerics ++ characters ['-'])) 0 (some 61))) (set alphanumerics)) 0 (some 1)

def furtherLabels : Pattern :=
  repeated (concat (concat (concat empty (set (characters ['.']))) (set alphanumerics)) labelRest) 0 none

def emailSyntax : Pattern :=
  concat (concat (concat (concat (concat empty localPattern) (set (characters ['@']))) (set alphanumerics)) labelRest)
    furtherLabels

theorem read_emailPattern : Pattern.read Cel.emailPattern = some emailSyntax := by decide +kernel

end Syntax

section Labels

variable {c : Char} {label domain : StringView} {labels : List StringView}

theorem inRanges_alphanumerics : Pattern.inRanges alphanumerics = Char.isAlphanum := by
  funext c
  have alphanum : c.isAlphanum = ((decide (c.val ≥ 'A'.val ∧ c.val ≤ 'Z'.val) ||
      (decide (c.val ≥ 'a'.val) && decide (c.val ≤ 'z'.val))) || (decide (c.val ≥ '0'.val) && decide (c.val ≤ '9'.val))) := rfl
  rw [alphanum, Bool.eq_iff_iff]
  simp only [Pattern.inRanges, alphanumerics, List.any_cons, List.any_nil, Char.le_def, Bool.or_false, Bool.or_eq_true,
    Bool.and_eq_true, decide_eq_true_eq, ge_iff_le]
  tauto

theorem inRanges_or (chars : List Char) :
    Pattern.inRanges (alphanumerics ++ Pattern.characters chars) = fun c => c.isAlphanum || chars.contains c := by
  funext c
  rw [Pattern.inRanges_append, Pattern.inRanges_characters, inRanges_alphanumerics]

theorem language_labelRest : labelRest.language =
    1 + repetitions (symbols fun c => c.isAlphanum || ['-'].contains c) 0 (some 61) * symbols Char.isAlphanum := by
  simp only [labelRest, Pattern.language_repeated, Pattern.language_concat, Pattern.language_empty, Pattern.language_set,
    repetitions_optional, inRanges_alphanumerics, inRanges_or, one_mul]

theorem mem_label : label ∈ symbols Char.isAlphanum * labelRest.language ↔ HostLabel label := by
  rw [language_labelRest, Language.mem_mul]
  constructor
  · rintro ⟨_, ⟨first, alphanum, rfl⟩, rest, inRest, rfl⟩
    have notHyphen {c : Char} (alphanum : c.isAlphanum = true) : c ≠ '-' := by
      rintro rfl
      cases alphanum
    rcases inRest with rfl | ⟨inner, inInner, _, ⟨last, lastAlphanum, rfl⟩, rfl⟩
    · refine ⟨List.cons_ne_nil _ _, ?_, ?_, ?_, ?_⟩
      · simp
      · simp [alphanum]
      · simpa using notHyphen alphanum
      · simpa using notHyphen alphanum
    · obtain ⟨-, bounded, all⟩ := mem_repetitions_symbols.mp inInner
      have short : inner.length ≤ 61 := bounded 61 rfl
      refine ⟨List.cons_ne_nil _ _, ?_, ?_, ?_, ?_⟩
      · simp only [List.length_append, List.length_singleton]
        omega
      · intro c member
        simp only [List.mem_append, List.mem_singleton] at member
        rcases member with rfl | inInner | rfl
        · exact Or.inl alphanum
        · simpa using all c inInner
        · exact Or.inl lastAlphanum
      · simpa using notHyphen alphanum
      · rw [← List.append_assoc, List.getLast?_concat]
        simpa using notHyphen lastAlphanum
  · rintro ⟨nonempty, short, chars, first, last⟩
    obtain ⟨head, rest, rfl⟩ := List.exists_cons_of_ne_nil nonempty
    have headAlphanum : head.isAlphanum = true := (chars head List.mem_cons_self).resolve_right (by simpa using first)
    refine ⟨[head], ⟨head, headAlphanum, rfl⟩, rest, ?_, rfl⟩
    rcases List.eq_nil_or_concat rest with rfl | ⟨inner, final, rfl⟩
    · exact Or.inl rfl
    · rw [List.concat_eq_append] at *
      have finalAlphanum : final.isAlphanum = true := by
        refine (chars final (by simp)).resolve_right ?_
        rw [← List.cons_append, List.getLast?_concat] at last
        simpa using last
      refine Or.inr (Language.append_mem_mul ?_ ⟨final, finalAlphanum, rfl⟩)
      refine mem_repetitions_symbols.mpr ⟨Nat.zero_le _, ?_, ?_⟩
      · rintro bound ⟨⟩
        simp only [List.length_cons, List.length_append, List.length_nil] at short
        omega
      · intro c member
        simpa using chars c (by simp [member])

theorem dotted_iff : Dotted domain ↔ ∃ labels, labels ≠ [] ∧ domain = ['.'].intercalate labels ∧ ∀ label ∈ labels, HostLabel label := by
  constructor
  · intro valid
    exact ⟨domain.splitOn '.', List.splitOn_ne_nil '.' domain, (List.intercalate_splitOn '.').symm, valid⟩
  · rintro ⟨labels, some_, rfl, valid⟩
    rw [Dotted, List.splitOn_intercalate '.' (fun label member => (valid label member).undotted) some_]
    exact valid

/-- A separator in front of each of the further pieces. -/
theorem intercalate_cons (separator piece : StringView) (pieces : List StringView) :
    separator.intercalate (piece :: pieces) = piece ++ (pieces.map (separator ++ ·)).flatten := by
  induction pieces generalizing piece with
  | nil => simp
  | cons next pieces ih => rw [List.intercalate_cons_cons, ih, List.map_cons, List.flatten_cons, List.append_assoc, List.append_assoc]

theorem language_furtherLabels :
    furtherLabels.language = (literal ['.'] * (symbols Char.isAlphanum * labelRest.language))∗ := by
  simp only [furtherLabels, Pattern.language_repeated, Pattern.language_concat, Pattern.language_empty, Pattern.language_set,
    repetitions_any, inRanges_alphanumerics, Pattern.symbols_character, one_mul, mul_assoc]

theorem mem_domain : domain ∈ symbols Char.isAlphanum * labelRest.language * furtherLabels.language ↔ Dotted domain := by
  rw [dotted_iff, language_furtherLabels, Language.mem_mul]
  constructor
  · rintro ⟨label, inLabel, further, inFurther, rfl⟩
    obtain ⟨parts, rfl, all⟩ := Language.mem_kstar.mp inFurther
    have labelled : ∀ part ∈ parts, HostLabel part.tail ∧ ['.'] ++ part.tail = part := by
      intro part member
      obtain ⟨_, rfl, label, inLabel, rfl⟩ := Language.mem_mul.mp (all part member)
      exact ⟨mem_label.mp inLabel, rfl⟩
    refine ⟨label :: parts.map List.tail, List.cons_ne_nil _ _, ?_, ?_⟩
    · have rebuilt : (parts.map List.tail).map (['.'] ++ ·) = parts := by
        rw [List.map_map]
        exact (List.map_congr_left fun part member => (labelled part member).2).trans (List.map_id parts)
      rw [intercalate_cons, rebuilt]
    · refine List.forall_mem_cons.mpr ⟨mem_label.mp inLabel, List.forall_mem_map.mpr ?_⟩
      exact fun part member => (labelled part member).1
  · rintro ⟨labels, some_, rfl, valid⟩
    obtain ⟨label, labels, rfl⟩ := List.exists_cons_of_ne_nil some_
    obtain ⟨first, valid⟩ := List.forall_mem_cons.mp valid
    refine ⟨label, mem_label.mpr first, _, ?_, (intercalate_cons ['.'] label labels).symm⟩
    refine Language.join_mem_kstar fun part member => ?_
    obtain ⟨label, inLabels, rfl⟩ := List.mem_map.mp member
    exact Language.append_mem_mul rfl (mem_label.mpr (valid label inLabels))

theorem Dotted.undotted (valid : Dotted domain) : domain.getLast? ≠ some '.' := by
  intro dot
  obtain ⟨front, rfl⟩ := List.getLast?_eq_some_iff.mp dot
  rw [Dotted, List.splitOn_append_cons_self, List.splitOn_nil] at valid
  exact (valid [] (List.mem_append_right _ List.mem_cons_self)).nonempty rfl

/-- The names that are accepted without a trailing dot. -/
theorem isHostname_undotted_iff : isHostname domain = true ∧ domain.getLast? ≠ some '.' ↔
    Dotted domain ∧ domain.length ≤ 253 ∧ ∃ last ∈ (domain.splitOn '.').getLast?, ∃ c ∈ last, c.isDigit = false := by
  have plain (noDot : domain.getLast? ≠ some '.') : withoutDot domain = domain := if_neg noDot
  rw [isHostname_eq_true_iff]
  constructor
  · rintro ⟨⟨bound, valid⟩, noDot⟩
    obtain ⟨labels, same, all, last⟩ := valid.labels
    rw [plain noDot] at same
    have some_ : labels ≠ [] := by
      rintro rfl
      obtain ⟨last, isLast, -⟩ := last
      cases isLast
    have pieces : domain.splitOn '.' = labels := by
      rw [same]
      exact List.splitOn_intercalate '.' (fun label member => (all label member).undotted) some_
    rw [Dotted, pieces]
    exact ⟨all, bound, last⟩
  · rintro ⟨valid, bound, last⟩
    refine ⟨⟨bound, ?_⟩, valid.undotted⟩
    constructor <;> rw [plain valid.undotted]
    · rintro rfl
      exact (valid [] List.mem_cons_self).nonempty rfl
    · exact bound
    · exact ⟨domain.splitOn '.', (List.intercalate_splitOn '.').symm, valid, last⟩

end Labels

section Addresses

variable {M : Type} {library : Library M} {localPart domain : StringView}

theorem mem_localPart : localPart ∈ localPattern.language ↔ LocalPart localPart := by
  rw [localPattern, Pattern.language_repeated, Pattern.language_set, inRanges_or, mem_repetitions_symbols]
  constructor
  · rintro ⟨enough, -, all⟩
    exact ⟨List.length_pos_iff.mp enough, all⟩
  · rintro ⟨nonempty, all⟩
    exact ⟨List.length_pos_iff.mpr nonempty, (by rintro bound ⟨⟩), all⟩

theorem mem_emailSyntax {str : StringView} : str ∈ emailSyntax.language ↔
    ∃ localPart domain, str = localPart ++ '@' :: domain ∧ LocalPart localPart ∧ Dotted domain := by
  have parts : emailSyntax.language =
      localPattern.language * (literal ['@'] * (symbols Char.isAlphanum * labelRest.language * furtherLabels.language)) := by
    simp only [emailSyntax, Pattern.language_concat, Pattern.language_empty, Pattern.language_set, Pattern.symbols_character,
      inRanges_alphanumerics, one_mul, mul_assoc]
  rw [parts, Language.mem_mul]
  constructor
  · rintro ⟨localPart, inLocal, _, ⟨_, rfl, domain, inDomain, rfl⟩, rfl⟩
    exact ⟨localPart, domain, rfl, mem_localPart.mp inLocal, mem_domain.mp inDomain⟩
  · rintro ⟨localPart, domain, rfl, valid, dotted⟩
    exact ⟨localPart, mem_localPart.mpr valid, _, ⟨['@'], rfl, domain, mem_domain.mpr dotted, rfl⟩, rfl⟩

theorem LocalPart.noAt (valid : LocalPart localPart) : '@' ∉ localPart := fun member =>
  absurd (valid.chars '@' member) (by decide)

theorem isEmail_eq_true_iff (matched : library.Matches Cel.emailPattern) {str : StringView} :
    Cel.isEmail library str = .ok (.bool true) ↔
      ∃ localPart domain, str = localPart ++ '@' :: domain ∧ LocalPart localPart ∧ Dotted domain := by
  rw [← mem_emailSyntax, ← matched emailSyntax read_emailPattern str, Cel.isEmail]
  constructor
  · intro same
    cases found : library.fullMatch str Cel.emailPattern with
    | false =>
      rw [found] at same
      cases same
    | true => rfl
  · exact fun found => congrArg (fun answer => Except.ok (CelValue.bool answer)) found

/-- An address is a local part and labels behind the first `@`; its domain is a name of
`isHostname` unless it is too long or ends with a number. -/
theorem isEmail_iff (matched : library.Matches Cel.emailPattern) :
    (∀ str, Cel.isEmail library str = .ok (.bool true) ↔
      ∃ localPart domain, str = localPart ++ '@' :: domain ∧ LocalPart localPart ∧ Dotted domain) ∧
    ∀ localPart domain, LocalPart localPart → (isHostname domain = true ∧ domain.getLast? ≠ some '.' ↔
      Cel.isEmail library (localPart ++ '@' :: domain) = .ok (.bool true) ∧ domain.length ≤ 253 ∧
        ∃ last ∈ (domain.splitOn '.').getLast?, ∃ c ∈ last, c.isDigit = false) := by
  refine ⟨fun str => isEmail_eq_true_iff matched, fun localPart domain valid => ?_⟩
  have address : Cel.isEmail library (localPart ++ '@' :: domain) = .ok (.bool true) ↔ Dotted domain := by
    rw [isEmail_eq_true_iff matched]
    constructor
    · rintro ⟨otherLocal, otherDomain, same, otherValid, dotted⟩
      have pieces := congrArg (List.splitOn '@') same
      rw [List.splitOn_append_cons_self_of_not_mem valid.noAt, List.splitOn_append_cons_self_of_not_mem otherValid.noAt] at pieces
      obtain ⟨rfl, -⟩ := List.cons.inj pieces
      obtain ⟨-, rfl⟩ := List.cons.inj (List.append_cancel_left same)
      exact dotted
    · intro dotted
      exact ⟨localPart, domain, rfl, valid, dotted⟩
  rw [isHostname_undotted_iff, address]

/-- A library that reads and matches patterns. -/
def mailLibrary : Library Unit where
  platform := .lp64
  Field := Unit
  findFieldByName _ _ := none
  isRepeated _ := false
  fieldBackedList _ _ := []
  createValueFromSingleField _ _ := none
  CelMapBuilder := Nat
  newMapBuilder := 0
  add celMap _ _ := some (celMap + 1)
  size celMap := celMap
  fullMatch str text := (Pattern.read text).any (·.accepts str)

theorem mailLibrary_matches (text : String) : mailLibrary.Matches text := by
  intro pattern found str
  rw [← Pattern.accepts_iff]
  simp [mailLibrary, found]

/-- The domain of an address may end with a number, a host name may not. -/
theorem isEmail_iff_number : Cel.isEmail mailLibrary "o'neil@host.7".toList = .ok (.bool true) ∧
    isHostname "host.7".toList = false ∧
    ∃ localPart domain, "o'neil@host.7".toList = localPart ++ '@' :: domain ∧ LocalPart localPart ∧ Dotted domain := by
  have matched : mailLibrary.fullMatch "o'neil@host.7".toList Cel.emailPattern = true := by decide +kernel
  have accepted : Cel.isEmail mailLibrary "o'neil@host.7".toList = .ok (.bool true) :=
    congrArg (fun answer => Except.ok (CelValue.bool answer)) matched
  exact ⟨accepted, by decide +kernel, ((isEmail_iff (mailLibrary_matches _)).1 _).mp accepted⟩

end Addresses
end Protovalidate.Extra
