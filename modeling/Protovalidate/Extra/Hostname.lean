import Protovalidate.Extra.ExtraFunc

/-! The language of `isHostname`, and the one length at which the trailing dot
counts. -/

namespace Protovalidate.Extra

open Foundation Lib

section Names

/-- One to 63 letters, digits and hyphens, with no hyphen at either end. -/
structure HostLabel (label : StringView) : Prop where
  nonempty : label ≠ []
  length_le : label.length ≤ 63
  chars : ∀ c ∈ label, c.isAlphanum = true ∨ c = '-'
  first : label.head? ≠ some '-'
  last : label.getLast? ≠ some '-'

/-- A name without its trailing dot, if it has one. -/
def withoutDot (str : StringView) : StringView := if str.getLast? = some '.' then str.dropLast else str

/-- At most 253 characters, a trailing dot not counted, which are labels joined by
dots; the last label is not all digits. -/
structure HostName (str : StringView) : Prop where
  nonempty : withoutDot str ≠ []
  length_le : (withoutDot str).length ≤ 253
  labels : ∃ labels, withoutDot str = ['.'].intercalate labels ∧ (∀ label ∈ labels, HostLabel label) ∧
    ∃ last ∈ labels.getLast?, ∃ c ∈ last, c.isDigit = false

end Names

section Labels

variable {label : StringView} {labels : List StringView} {c : Char}

theorem num_eq_isDigit (c : Char) : num c = c.isDigit := by
  simp only [num, charRange, Char.isDigit, Char.le_def]

theorem hostnameChar_iff : hostnameChar c = true ↔ c.isAlphanum = true ∨ c = '-' := by
  have alphanum : c.isAlphanum = ((decide (c.val ≥ 'A'.val ∧ c.val ≤ 'Z'.val) ||
      (decide (c.val ≥ 'a'.val) && decide (c.val ≤ 'z'.val))) || (decide (c.val ≥ '0'.val) && decide (c.val ≤ '9'.val))) := rfl
  have hyphen : c = '-' ↔ c.toNat = 45 := Char.toNat_inj.symm
  rw [alphanum, hyphen]
  simp only [hostnameChar, Char.lt_def, hyphen, UInt32.lt_iff_toNat_lt, UInt32.le_iff_toNat_le, Bool.not_eq_true',
    Bool.and_eq_false_iff, Bool.or_eq_false_iff, decide_eq_false_iff_not, bne_eq_false_iff_eq, Bool.or_eq_true,
    Bool.and_eq_true, decide_eq_true_eq, ge_iff_le, Char.toNat_val]
  omega

theorem hostLabel_iff : HostLabel label ↔ (label.isEmpty || decide (label.length > 63) || ['-'].isPrefixOf label ||
    ['-'].isSuffixOf label) = false ∧ label.all hostnameChar = true := by
  have starts : ['-'].isPrefixOf label = false ↔ label.head? ≠ some '-' := by
    rw [← Bool.not_eq_true, List.isPrefixOf_iff_prefix, List.singleton_prefix_iff_head?_eq_some]
  have ends : ['-'].isSuffixOf label = false ↔ label.getLast? ≠ some '-' := by
    rw [← Bool.not_eq_true, List.isSuffixOf_iff_suffix, List.singleton_suffix_iff_getLast?_eq_some]
  simp only [Bool.or_eq_false_iff, decide_eq_false_iff_not, Nat.not_lt, gt_iff_lt, List.isEmpty_eq_false_iff, starts, ends,
    List.all_eq_true, hostnameChar_iff]
  constructor
  · rintro ⟨nonempty, width, chars, first, last⟩
    exact ⟨⟨⟨⟨nonempty, width⟩, first⟩, last⟩, chars⟩
  · rintro ⟨⟨⟨⟨nonempty, width⟩, first⟩, last⟩, chars⟩
    exact ⟨nonempty, width, chars, first, last⟩

/-- The flag describes the last label that was read. -/
theorem hostnameLoop_eq_true_iff (labels : List StringView) (allDigits : Bool) :
    hostnameLoop labels allDigits = true ↔
      (∀ label ∈ labels, HostLabel label) ∧ (labels.getLast?.elim allDigits fun last => last.all num) = false := by
  induction labels generalizing allDigits with
  | nil => simp [hostnameLoop]
  | cons label labels ih =>
    have last : ((label :: labels).getLast?.elim allDigits fun last => last.all num) =
        labels.getLast?.elim (label.all num) fun last => last.all num := by
      rw [List.getLast?_cons, Option.elim_some]
      cases labels.getLast? <;> rfl
    rw [hostnameLoop, last, List.forall_mem_cons, hostLabel_iff]
    split
    · rename_i malformed
      simp [malformed]
    · rename_i shaped
      split
      · rename_i chars
        rw [ih]
        simp [shaped, chars]
      · rename_i chars
        simp [chars]

theorem HostLabel.undotted (valid : HostLabel label) : '.' ∉ label := fun member =>
  absurd (valid.chars '.' member) (by decide)

/-- The labels are the pieces between the dots. -/
theorem labels_iff {body : StringView} : (∃ labels, body = ['.'].intercalate labels ∧ (∀ label ∈ labels, HostLabel label) ∧
    ∃ last ∈ labels.getLast?, ∃ c ∈ last, c.isDigit = false) ↔ hostnameLoop (body.splitOn '.') false = true := by
  rw [hostnameLoop_eq_true_iff]
  constructor
  · rintro ⟨labels, rfl, valid, last, isLast, c, member, nonDigit⟩
    have some_ : labels ≠ [] := by
      rintro rfl
      cases isLast
    rw [List.splitOn_intercalate '.' (fun label member => (valid label member).undotted) some_]
    refine ⟨valid, ?_⟩
    rw [Option.mem_def.mp isLast, Option.elim_some, List.all_eq_false]
    exact ⟨c, member, by simp [num_eq_isDigit, nonDigit]⟩
  · rintro ⟨valid, last⟩
    refine ⟨body.splitOn '.', (List.intercalate_splitOn '.').symm, valid, ?_⟩
    cases found : (body.splitOn '.').getLast? with
    | none => exact absurd (List.getLast?_eq_none_iff.mp found) (List.splitOn_ne_nil '.' body)
    | some label =>
      rw [found, Option.elim_some, List.all_eq_false] at last
      obtain ⟨c, member, nonDigit⟩ := last
      exact ⟨label, rfl, c, member, by simpa [num_eq_isDigit] using nonDigit⟩

end Labels

section Hostnames

variable {str : StringView}

theorem stripSuffix_dot (str : StringView) : stripSuffix str ['.'] = withoutDot str := by
  have ends : ['.'].isSuffixOf str = true ↔ str.getLast? = some '.' := by
    rw [List.isSuffixOf_iff_suffix, List.singleton_suffix_iff_getLast?_eq_some]
  simp only [stripSuffix, withoutDot, ends, List.dropLast_eq_take, List.length_singleton]

theorem withoutDot_length (str : StringView) :
    (withoutDot str).length ≤ str.length ∧ str.length ≤ (withoutDot str).length + 1 := by
  rw [withoutDot]
  split
  · rw [List.length_dropLast]
    omega
  · omega

theorem withoutDot_dot (noDot : str.getLast? ≠ some '.') : withoutDot (str ++ ['.']) = withoutDot str := by
  simp [withoutDot, noDot]

theorem HostName.length (valid : HostName str) : str.length ≤ 254 := by
  have bound := valid.length_le
  have strip := withoutDot_length str
  omega

/-- The length is tested with the trailing dot, everything else without it. -/
theorem isHostname_eq_true_iff : isHostname str = true ↔ str.length ≤ 253 ∧ HostName str := by
  have strip := withoutDot_length str
  rw [isHostname, stripSuffix_dot]
  constructor
  · intro accepted
    split at accepted
    · cases accepted
    · rename_i shaped
      simp only [Bool.or_eq_true, List.isEmpty_iff, decide_eq_true_eq, not_or] at shaped
      have labels := labels_iff.mpr accepted
      refine ⟨by omega, fun empty => ?_, by omega, labels⟩
      rw [empty] at accepted
      cases accepted
  · rintro ⟨bound, valid⟩
    have some_ : str ≠ [] := by
      rintro rfl
      exact valid.nonempty rfl
    rw [if_neg (by simpa [some_] using bound)]
    exact labels_iff.mp valid.labels

/-- The accepted names are the host names, but for those that have 253 characters
and a trailing dot; with the dot they are rejected and without it accepted. -/
theorem isHostname_iff (str : StringView) :
    ((isHostname str = true ↔ HostName str) ↔ ¬ (str.length = 254 ∧ HostName str)) ∧
      (str ≠ [] → str.getLast? ≠ some '.' →
        (isHostname (str ++ ['.']) = isHostname str ↔ ¬ (str.length = 253 ∧ HostName str))) := by
  refine ⟨?_, fun _ noDot => ?_⟩
  · rw [isHostname_eq_true_iff]
    constructor
    · rintro agree ⟨long, valid⟩
      have bound := (agree.mpr valid).1
      omega
    · intro short
      refine ⟨And.right, fun valid => ⟨?_, valid⟩⟩
      have bound := valid.length
      have notLong : str.length ≠ 254 := fun long => short ⟨long, valid⟩
      omega
  · have same : HostName (str ++ ['.']) ↔ HostName str := by
      have strip := withoutDot_dot noDot
      constructor <;> rintro ⟨nonempty, width, labels⟩
      · rw [strip] at nonempty width labels
        exact ⟨nonempty, width, labels⟩
      · rw [← strip] at nonempty width labels
        exact ⟨nonempty, width, labels⟩
    rw [Bool.eq_iff_iff, isHostname_eq_true_iff, isHostname_eq_true_iff, same, List.length_append, List.length_singleton]
    constructor
    · rintro agree ⟨long, valid⟩
      have bound := (agree.mpr ⟨by omega, valid⟩).1
      omega
    · intro short
      constructor
      · exact fun accepted => ⟨by omega, accepted.2⟩
      · rintro ⟨bound, valid⟩
        have notLong : str.length ≠ 253 := fun long => short ⟨long, valid⟩
        exact ⟨by omega, valid⟩

/-- Three labels of 63 letters and one of 61. -/
def longName : StringView := ['.'].intercalate [List.replicate 63 'a', List.replicate 63 'a', List.replicate 63 'a', List.replicate 61 'a']

/-- A trailing dot turns a name of 253 characters into an error. -/
theorem longName_dot : isHostname longName = true ∧ isHostname (longName ++ ['.']) = false := by
  decide +kernel

end Hostnames
end Protovalidate.Extra
