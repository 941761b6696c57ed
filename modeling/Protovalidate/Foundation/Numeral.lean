import Mathlib.Data.List.Induction
import Mathlib.Tactic.Ring

/-! Positional numerals over an arbitrary digit alphabet, most significant
digit first, and the canonical decimal text of a natural number. -/

namespace Protovalidate.Foundation

universe u

section Positional

variable {α : Type u} {base init width : Nat} {digit : α → Nat} {word : List α}

/-- Read a word of digits behind an already read value. -/
def positional (base : Nat) (digit : α → Nat) (init : Nat) (word : List α) : Nat :=
  word.foldl (fun value symbol => value * base + digit symbol) init

@[simp] theorem positional_nil : positional base digit init [] = init := rfl

@[simp] theorem positional_cons (symbol : α) :
    positional base digit init (symbol :: word) =
      positional base digit (init * base + digit symbol) word := rfl

theorem positional_append (left right : List α) :
    positional base digit init (left ++ right) =
      positional base digit (positional base digit init left) right :=
  List.foldl_append

theorem positional_congr {other : α → Nat} (same : ∀ symbol ∈ word, digit symbol = other symbol) :
    positional base digit init word = positional base other init word := by
  induction word generalizing init with
  | nil => rfl
  | cons symbol rest ih =>
    simp only [positional_cons, same symbol (by simp)]
    exact ih fun later member => same later (by simp [member])

theorem positional_lt (digits : ∀ symbol ∈ word, digit symbol < base) (bound : init < base ^ width) :
    positional base digit init word < base ^ (width + word.length) := by
  induction word generalizing init width with
  | nil => simpa using bound
  | cons symbol rest ih =>
    have small := digits symbol (by simp)
    have next : init * base + digit symbol < base ^ (width + 1) := by
      calc init * base + digit symbol < init * base + base := by omega
        _ = (init + 1) * base := by ring
        _ ≤ base ^ width * base := Nat.mul_le_mul_right base bound
        _ = base ^ (width + 1) := (pow_succ base width).symm
    have read := ih (fun later member => digits later (by simp [member])) next
    rw [positional_cons, List.length_cons]
    rwa [show width + (rest.length + 1) = width + 1 + rest.length by omega]

theorem le_positional : init * base ^ word.length ≤ positional base digit init word := by
  induction word generalizing init with
  | nil => simp
  | cons symbol rest ih =>
    rw [positional_cons, List.length_cons]
    calc init * base ^ (rest.length + 1) = init * base * base ^ rest.length := by ring
      _ ≤ (init * base + digit symbol) * base ^ rest.length :=
        Nat.mul_le_mul_right _ (Nat.le_add_right _ _)
      _ ≤ positional base digit (init * base + digit symbol) rest := ih

end Positional

/-- The value of a decimal digit character. -/
def decimalDigit (c : Char) : Nat := c.toNat - '0'.toNat

def decimalValue (word : List Char) : Nat := positional 10 decimalDigit 0 word

theorem isDigit_bounds {c : Char} (isDigit : c.isDigit = true) : 48 ≤ c.toNat ∧ c.toNat ≤ 57 := by
  simpa [Char.isDigit, UInt32.le_iff_toNat_le] using isDigit

theorem decimalDigit_lt {c : Char} (isDigit : c.isDigit = true) : decimalDigit c < 10 := by
  have bounds := isDigit_bounds isDigit
  simp only [decimalDigit, show '0'.toNat = 48 from rfl]
  omega

theorem digitChar_decimalDigit {c : Char} (isDigit : c.isDigit = true) :
    Nat.digitChar (decimalDigit c) = c := by
  have bounds := isDigit_bounds isDigit
  apply Char.toNat_inj.mp
  rw [Nat.toNat_digitChar_of_lt_ten (decimalDigit_lt isDigit)]
  simp only [decimalDigit, show '0'.toNat = 48 from rfl]
  omega

theorem decimalDigit_digitChar {n : Nat} (small : n < 10) : decimalDigit (Nat.digitChar n) = n :=
  Nat.toNat_digitChar_sub_48_of_lt_ten small

theorem decimalDigit_eq_zero {c : Char} (isDigit : c.isDigit = true) :
    decimalDigit c = 0 ↔ c = '0' := by
  constructor
  · intro zero
    rw [← digitChar_decimalDigit isDigit, zero]
    rfl
  · rintro rfl
    rfl

/-- Decimal digits without a superfluous leading zero. -/
structure CanonicalDecimal (word : List Char) : Prop where
  nonempty : word ≠ []
  digits : ∀ c ∈ word, c.isDigit = true
  leading : word.head? = some '0' → word.length = 1

/-- Without a leading zero the value has as many digits as the text. -/
theorem le_decimalValue {first : Char} {rest : List Char} (isDigit : first.isDigit = true)
    (nonzero : first ≠ '0') : 10 ^ rest.length ≤ decimalValue (first :: rest) := by
  have positive : decimalDigit first ≠ 0 := mt (decimalDigit_eq_zero isDigit).mp nonzero
  calc 10 ^ rest.length = 1 * 10 ^ rest.length := by simp
    _ ≤ decimalDigit first * 10 ^ rest.length := Nat.mul_le_mul_right _ (by omega)
    _ ≤ positional 10 decimalDigit (decimalDigit first) rest := le_positional
    _ = decimalValue (first :: rest) := by simp [decimalValue]

theorem decimalValue_append (front : List Char) (last : Char) :
    decimalValue (front ++ [last]) = 10 * decimalValue front + decimalDigit last := by
  rw [decimalValue, positional_append]
  simp [decimalValue, Nat.mul_comm]

/-- A canonical text is the one the standard digit printer produces. -/
theorem CanonicalDecimal.eq_toDigits {word : List Char} (canonical : CanonicalDecimal word) :
    word = Nat.toDigits 10 (decimalValue word) := by
  induction word using List.reverseRecOn with
  | nil => exact absurd rfl canonical.nonempty
  | append_singleton front last ih =>
    have lastDigit := canonical.digits last (by simp)
    have small := decimalDigit_lt lastDigit
    cases front with
    | nil =>
      simp [decimalValue, Nat.toDigits_of_lt_base small, digitChar_decimalDigit lastDigit]
    | cons first rest =>
      have nonzero : first ≠ '0' := by
        rintro rfl
        have single := canonical.leading rfl
        simp at single
      have frontCanonical : CanonicalDecimal (first :: rest) :=
        ⟨by simp, fun c member => canonical.digits c (List.mem_append_left _ member),
          fun zero => absurd (by simpa using zero) nonzero⟩
      have positive : 0 < decimalValue (first :: rest) :=
        Nat.lt_of_lt_of_le (Nat.pow_pos (by omega))
          (le_decimalValue (frontCanonical.digits first (by simp)) nonzero)
      rw [decimalValue_append, ← Nat.toDigits_append_toDigits (by omega) positive small,
        ← ih frontCanonical, Nat.toDigits_of_lt_base small, digitChar_decimalDigit lastDigit]

theorem canonicalDecimal_toDigits (n : Nat) : CanonicalDecimal (Nat.toDigits 10 n) := by
  induction n using Nat.strongRecOn with
  | ind n ih =>
    refine ⟨Nat.toDigits_ne_nil, fun c member =>
      Nat.isDigit_of_mem_toDigits (by omega) (by omega) member, ?_⟩
    by_cases small : n < 10
    · simp [Nat.toDigits_of_lt_base small]
    · rw [Nat.toDigits_of_base_le (by omega) (by omega)]
      have front := ih (n / 10) (by omega)
      intro zero
      cases text : Nat.toDigits 10 (n / 10) with
      | nil => exact absurd text Nat.toDigits_ne_nil
      | cons first rest =>
        rw [text] at front zero
        have isZero : first = '0' := by simpa using zero
        have single := front.leading (by simp [isZero])
        have empty : rest = [] := by simpa using single
        have value : n / 10 = 0 := by
          rw [← Nat.ofDigitChars_ten_toDigits (n := n / 10), text, empty, isZero]
          rfl
        omega

theorem decimalValue_toDigits (n : Nat) : decimalValue (Nat.toDigits 10 n) = n := by
  induction n using Nat.strongRecOn with
  | ind n ih =>
    by_cases small : n < 10
    · simp [Nat.toDigits_of_lt_base small, decimalValue, decimalDigit_digitChar small]
    · rw [Nat.toDigits_of_base_le (by omega) (by omega), decimalValue_append, ih _ (by omega),
        decimalDigit_digitChar (Nat.mod_lt n (by omega))]
      omega

end Protovalidate.Foundation
