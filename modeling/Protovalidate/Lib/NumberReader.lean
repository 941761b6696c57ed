import Protovalidate.Lib.ParserCommon

/-! What the number readers accept: a maximal run of digits, canonical for
decimal numbers and of bounded width for hexadecimal ones. -/

namespace Protovalidate.Lib

open Foundation

theorem decimalDigitValue_eq (c : Char) :
    decimalDigitValue c = if c.isDigit = true then some (decimalDigit c) else none := by
  simp only [decimalDigitValue, decimalDigit, Char.isDigit, Char.le_def, Bool.and_eq_true,
    decide_eq_true_eq]

theorem isSome_decimalDigitValue (c : Char) : (decimalDigitValue c).isSome = c.isDigit := by
  rw [decimalDigitValue_eq]
  split <;> simp_all

theorem isSome_hexadecimalDigitValue (c : Char) :
    (hexadecimalDigitValue c).isSome = hexDigit c := by
  simp only [hexadecimalDigitValue, hexDigit, num, concatRanges, charRange, List.any_cons,
    List.any_nil, Bool.or_false]
  split
  · simp_all
  · split
    · simp_all
    · split <;> simp_all

/-- The value of a hexadecimal digit character. -/
def hexadecimalDigit (c : Char) : Nat := (hexadecimalDigitValue c).getD 0

def hexadecimalValue (word : List Char) : Nat := positional 16 hexadecimalDigit 0 word

theorem hexadecimalDigitValue_lt {c : Char} {digit : Nat}
    (read : hexadecimalDigitValue c = some digit) : digit < 16 := by
  simp only [hexadecimalDigitValue, Char.le_def, UInt32.le_iff_toNat_le] at read
  have values : '0'.val.toNat = 48 ∧ '9'.val.toNat = 57 ∧ 'a'.val.toNat = 97 ∧
      'f'.val.toNat = 102 ∧ 'A'.val.toNat = 65 ∧ 'F'.val.toNat = 70 := by decide
  simp only [Char.toNat] at read
  split at read
  · simp only [Option.some.injEq] at read; omega
  · split at read
    · simp only [Option.some.injEq] at read; omega
    · split at read
      · simp only [Option.some.injEq] at read; omega
      · cases read

theorem hexadecimalDigit_lt (c : Char) : hexadecimalDigit c < 16 := by
  cases read : hexadecimalDigitValue c with
  | none => simp [hexadecimalDigit, read]
  | some digit => simpa [hexadecimalDigit, read] using hexadecimalDigitValue_lt read

/-- The digit loop of one base, with an accumulator wide enough for the digits
it may read. -/
structure DigitReader (digitValue : Char → Option Nat) (scale : Nat → Nat) (base maxDigits : Nat) : Prop where
  scales : ∀ value, scale value = value * base % 2 ^ 32
  digits : ∀ c digit, digitValue c = some digit → digit < base
  room : base ^ (maxDigits + 1) ≤ 2 ^ 32

section DigitLoop

variable {digitValue : Char → Option Nat} {scale : Nat → Nat} {base maxDigits : Nat}
variable {word rest : List Char} {i value : Nat}

/-- One accumulator step never wraps within the digits the loop may read. -/
theorem DigitReader.step (reader : DigitReader digitValue scale base maxDigits) (i value : Nat)
    (bound : value < base ^ i) (within : i ≤ maxDigits) {digit : Nat} (small : digit < base) :
    (scale value + digit) % 2 ^ 32 = value * base + digit ∧ value * base + digit < base ^ (i + 1) := by
  have next : value * base + digit < base ^ (i + 1) := by
    calc value * base + digit < (value + 1) * base := by rw [Nat.add_mul]; omega
      _ ≤ base ^ i * base := Nat.mul_le_mul_right base bound
      _ = base ^ (i + 1) := (pow_succ base i).symm
  have positive : 0 < base := by omega
  have room : base ^ (i + 1) ≤ 2 ^ 32 :=
    Nat.le_trans (Nat.pow_le_pow_right positive (by omega)) reader.room
  refine ⟨?_, next⟩
  rw [reader.scales, Nat.mod_eq_of_lt (by omega : value * base < 2 ^ 32), Nat.mod_eq_of_lt (by omega)]

/-- A run within the digit bound is read to its end, without wrapping. -/
theorem DigitReader.loop_run (reader : DigitReader digitValue scale base maxDigits)
    (bound : value < base ^ i) (fits : i + word.length ≤ maxDigits + 1)
    (run : ∀ c ∈ word, (digitValue c).isSome = true)
    (stops : Stops (fun c => (digitValue c).isSome) rest) :
    digitLoop digitValue scale maxDigits i value (word ++ rest) =
      (i + word.length, positional base (fun c => (digitValue c).getD 0) value word, rest) := by
  induction word generalizing i value with
  | nil =>
    cases rest with
    | nil => simp [digitLoop]
    | cons c tail =>
      have missed : digitValue c = none := by simpa using stops_cons.mp stops
      simp [digitLoop, missed]
  | cons c word ih =>
    obtain ⟨digit, read⟩ := Option.isSome_iff_exists.mp (run c (by simp))
    have within : i ≤ maxDigits := by simp only [List.length_cons] at fits; omega
    obtain ⟨exact_, next⟩ := reader.step i value bound within (reader.digits c digit read)
    simp only [List.cons_append, digitLoop, read, within, ↓reduceIte, exact_]
    rw [ih next (by simp only [List.length_cons] at fits; omega)
      (fun later member => run later (by simp [member]))]
    simp [read, Nat.add_assoc, Nat.add_comm 1]

/-- A longer run is noticed by reading one digit too many. -/
theorem digitLoop_overflow (scale : Nat → Nat) (rest : List Char) (i value : Nat)
    (early : i ≤ maxDigits + 1) (long : maxDigits + 1 < i + word.length)
    (run : ∀ c ∈ word, (digitValue c).isSome = true) :
    (digitLoop digitValue scale maxDigits i value (word ++ rest)).1 = maxDigits + 1 := by
  induction word generalizing i value with
  | nil => simp only [List.length_nil] at long; omega
  | cons c word ih =>
    obtain ⟨digit, read⟩ := Option.isSome_iff_exists.mp (run c (by simp))
    simp only [List.cons_append, digitLoop, read]
    split
    · exact ih _ _ (by omega) (by simp only [List.length_cons] at long; omega)
        (fun later member => run later (by simp [member]))
    · simp only
      omega

end DigitLoop

theorem digitCount_decreases : Control.Decreases (digitCountRound fun value => value / 10) Prod.fst := by
  intro state next round
  simp only [digitCountRound] at round
  split at round <;> simp at round
  subst round
  simp only
  omega

theorem digitCount_eq (value i : Nat) :
    Control.loop (digitCountRound fun value => value / 10) Prod.fst 0 (value, i) =
      if value = 0 then i else i + (Nat.toDigits 10 value).length := by
  induction value using Nat.strongRecOn generalizing i with
  | ind value ih =>
    by_cases zero : value = 0
    · rw [Control.loop_leave digitCount_decreases
        (show digitCountRound _ (value, i) = .leave i by simp [digitCountRound, zero])]
      simp [zero]
    · rw [Control.loop_again digitCount_decreases
        (show digitCountRound _ (value, i) = .again (value / 10, i + 1) by simp [digitCountRound, zero]), ih (value / 10) (by omega)]
      by_cases small : value < 10
      · simp [Nat.div_eq_of_lt small, zero, Nat.toDigits_of_lt_base small]
      · have more : value / 10 ≠ 0 := by omega
        rw [Nat.toDigits_of_base_le (by omega : 1 < 10) (by omega : 10 ≤ value)]
        simp only [more, zero, ↓reduceIte, List.length_append, List.length_cons, List.length_nil]
        omega

/-- The compile-time digit count is the width of the decimal text. -/
theorem calculateDecimalDigits_eq (value : Nat) :
    calculateDecimalDigits value = (Nat.toDigits 10 value).length := by
  have positive := Nat.length_toDigits_pos (b := 10) (n := value)
  rw [calculateDecimalDigits, digitCount_eq]
  split
  · rename_i zero
    simp [zero]
  · omega

theorem decimalReader {maxDigits : Nat} (small : maxDigits ≤ 8) :
    DigitReader decimalDigitValue scaleDecimal 10 maxDigits where
  scales _ := rfl
  digits c digit read := by
    rw [decimalDigitValue_eq] at read
    split at read <;> simp at read
    rename_i isDigit
    exact read ▸ decimalDigit_lt isDigit
  room := Nat.le_trans (Nat.pow_le_pow_right (by omega) (by omega : maxDigits + 1 ≤ 9)) (by decide)

theorem hexadecimalReader {maxDigits : Nat} (small : maxDigits ≤ 7) :
    DigitReader hexadecimalDigitValue scaleHexadecimal 16 maxDigits where
  scales value := by simp [scaleHexadecimal, Nat.shiftLeft_eq]
  digits _ _ := hexadecimalDigitValue_lt
  room := Nat.le_trans (Nat.pow_le_pow_right (by omega) (by omega : maxDigits + 1 ≤ 8)) (by decide)

section Decimal

variable {maxValue : Nat} {word rest : List Char}

theorem lt_pow_calculateDecimalDigits (value : Nat) : value < 10 ^ calculateDecimalDigits value := by
  rw [calculateDecimalDigits_eq]
  exact (Nat.length_toDigits_le_iff (by omega) Nat.length_toDigits_pos).mp (Nat.le_refl _)

theorem calculateDecimalDigits_pos (value : Nat) : 1 ≤ calculateDecimalDigits value := by
  rw [calculateDecimalDigits_eq]
  exact Nat.length_toDigits_pos

theorem calculateDecimalDigits_le (small : maxValue < 10 ^ 8) : calculateDecimalDigits maxValue ≤ 8 := by
  rw [calculateDecimalDigits_eq]
  exact (Nat.length_toDigits_le_iff (by omega) (by omega)).mpr small

theorem stops_decimal (stops : Stops Char.isDigit rest) :
    Stops (fun c => (decimalDigitValue c).isSome) rest := by
  simpa only [isSome_decimalDigitValue] using stops

/-- The reader on a one-digit run. -/
theorem parseDecimalNumber_single {c : Char} (isDigit : c.isDigit = true)
    (stops : Stops Char.isDigit rest) :
    parseDecimalNumber maxValue (c :: rest) =
      if decimalDigit c ≤ maxValue then some (decimalDigit c, rest) else none := by
  have enough := calculateDecimalDigits_pos maxValue
  have finish : (1 > calculateDecimalDigits maxValue ∨ decimalDigit c > maxValue) ↔
      ¬ decimalDigit c ≤ maxValue := by omega
  simp only [parseDecimalNumber, decimalDigitValue_eq c, isDigit, ↓reduceIte]
  cases rest with
  | nil => simp only [finish, ite_not]
  | cons next tail =>
    have missed : next.isDigit = false := stops_cons.mp stops
    simp only [decimalDigitValue_eq next, missed, Bool.false_eq_true, ↓reduceIte, finish, ite_not]

/-- The reader on a longer run: a leading zero is rejected, and otherwise the
width and the value are checked. -/
theorem parseDecimalNumber_long (small : maxValue < 10 ^ 8) {c d : Char}
    (run : ∀ x ∈ c :: d :: word, x.isDigit = true) (stops : Stops Char.isDigit rest) :
    parseDecimalNumber maxValue (c :: d :: word ++ rest) =
      if c ≠ '0' ∧ word.length + 2 ≤ calculateDecimalDigits maxValue ∧
          decimalValue (c :: d :: word) ≤ maxValue then
        some (decimalValue (c :: d :: word), rest)
      else none := by
  have cDigit := run c (by simp)
  have dDigit := run d (by simp)
  have tail : ∀ x ∈ word, (decimalDigitValue x).isSome = true := fun x member => by
    rw [isSome_decimalDigitValue]
    exact run x (by simp [member])
  have reader := decimalReader (calculateDecimalDigits_le small)
  have enough := calculateDecimalDigits_pos maxValue
  obtain ⟨exact_, bound⟩ := reader.step 1 (decimalDigit c) (by simpa using decimalDigit_lt cDigit)
    enough (decimalDigit_lt dDigit)
  simp only [List.cons_append, parseDecimalNumber, decimalDigitValue_eq c, decimalDigitValue_eq d, cDigit,
    dDigit, ↓reduceIte, decimalDigit_eq_zero cDigit, exact_]
  by_cases zero : c = '0'
  · simp [zero]
  · by_cases fits : word.length + 2 ≤ calculateDecimalDigits maxValue + 1
    · have value : positional 10 (fun c => (decimalDigitValue c).getD 0)
          (decimalDigit c * 10 + decimalDigit d) word = decimalValue (c :: d :: word) := by
        simp only [decimalValue, positional_cons, Nat.zero_mul, Nat.zero_add]
        apply positional_congr
        intro x member
        simp [decimalDigitValue_eq, run x (by simp [member])]
      rw [reader.loop_run bound (by omega) tail (stops_decimal stops), value]
      simp only [zero, not_false_eq_true, ne_eq, true_and, ↓reduceIte]
      split <;> split <;> first | rfl | omega
    · have overflow := digitLoop_overflow scaleDecimal rest 2 (decimalDigit c * 10 + decimalDigit d)
        (by omega : 2 ≤ calculateDecimalDigits maxValue + 1) (by omega) tail
      simp only [zero, ↓reduceIte, overflow]
      split <;> split <;> first | rfl | omega

theorem parseDecimalNumber_canonical (small : maxValue < 10 ^ 8) (canonical : CanonicalDecimal word)
    (bound : decimalValue word ≤ maxValue) (stops : Stops Char.isDigit rest) :
    parseDecimalNumber maxValue (word ++ rest) = some (decimalValue word, rest) := by
  match word, canonical with
  | [], canonical => exact absurd rfl canonical.nonempty
  | [c], canonical =>
    have value : decimalValue [c] = decimalDigit c := by simp [decimalValue]
    rw [value] at bound ⊢
    rw [List.singleton_append, parseDecimalNumber_single (canonical.digits c (by simp)) stops]
    simp [bound]
  | c :: d :: word, canonical =>
    have nonzero : c ≠ '0' := by
      rintro rfl
      simpa using canonical.leading rfl
    have width : (c :: d :: word).length ≤ calculateDecimalDigits maxValue := by
      rw [canonical.eq_toDigits, Nat.length_toDigits_le_iff (by omega) (calculateDecimalDigits_pos maxValue)]
      exact Nat.lt_of_le_of_lt bound (lt_pow_calculateDecimalDigits maxValue)
    rw [parseDecimalNumber_long small canonical.digits stops]
    simp only [List.length_cons] at width
    simp [nonzero, bound, width]

theorem parseDecimalNumber_sound (small : maxValue < 10 ^ 8) (run : ∀ c ∈ word, c.isDigit = true)
    (stops : Stops Char.isDigit rest) {value : Nat} {left : StringView}
    (parsed : parseDecimalNumber maxValue (word ++ rest) = some (value, left)) :
    CanonicalDecimal word ∧ value = decimalValue word ∧ value ≤ maxValue ∧ left = rest := by
  match word, run, parsed with
  | [], _, parsed =>
    cases rest with
    | nil => simp [parseDecimalNumber] at parsed
    | cons c tail =>
      have missed : c.isDigit = false := stops_cons.mp stops
      simp [parseDecimalNumber, decimalDigitValue_eq, missed] at parsed
  | [c], run, parsed =>
    rw [List.singleton_append, parseDecimalNumber_single (run c (by simp)) stops] at parsed
    split at parsed
    · simp only [Option.some.injEq, Prod.mk.injEq] at parsed
      obtain ⟨rfl, rfl⟩ := parsed
      exact ⟨⟨by simp, run, fun _ => rfl⟩, by simp [decimalValue], by assumption, rfl⟩
    · cases parsed
  | c :: d :: word, run, parsed =>
    rw [parseDecimalNumber_long small run stops] at parsed
    split at parsed
    · rename_i accepted
      simp only [Option.some.injEq, Prod.mk.injEq] at parsed
      obtain ⟨rfl, rfl⟩ := parsed
      refine ⟨⟨by simp, run, fun zero => ?_⟩, rfl, accepted.2.2, rfl⟩
      exact absurd (by simpa using zero) accepted.1
    · cases parsed

/-- The decimal reader accepts exactly the canonical texts of the numbers up to
its maximum, with no further digit behind them. -/
theorem parseDecimalNumber_eq_some_iff (small : maxValue < 10 ^ 8) {str : StringView} {value : Nat} :
    parseDecimalNumber maxValue str = some (value, rest) ↔
      value ≤ maxValue ∧ str = Nat.toDigits 10 value ++ rest ∧ Stops Char.isDigit rest := by
  constructor
  · intro parsed
    obtain ⟨word, tail, rfl, run, stops⟩ := exists_run Char.isDigit str
    obtain ⟨canonical, rfl, bound, rfl⟩ := parseDecimalNumber_sound small run stops parsed
    exact ⟨bound, by rw [← canonical.eq_toDigits], stops⟩
  · rintro ⟨bound, rfl, stops⟩
    have parsed := parseDecimalNumber_canonical small (canonicalDecimal_toDigits value)
      (by rwa [decimalValue_toDigits]) stops
    rwa [decimalValue_toDigits] at parsed

end Decimal

section Hexadecimal

variable {word rest : List Char}

theorem stops_hexadecimal (stops : Stops hexDigit rest) :
    Stops (fun c => (hexadecimalDigitValue c).isSome) rest := by
  simpa only [isSome_hexadecimalDigitValue] using stops

/-- A word that is no longer than the text of the bound does not exceed it. -/
theorem hexadecimalValue_le {maxValue : Nat} (width : maxValue + 1 = 16 ^ calculateHexadecimalDigits maxValue)
    (within : word.length ≤ calculateHexadecimalDigits maxValue) : hexadecimalValue word ≤ maxValue := by
  have bound : hexadecimalValue word < 16 ^ (0 + word.length) :=
    positional_lt (fun x _ => hexadecimalDigit_lt x) (by simp)
  rw [Nat.zero_add] at bound
  have := Nat.pow_le_pow_right (n := 16) (by omega) within
  omega

theorem parseHexadecimalNumber_empty (maxValue minDigits : Nat) (stops : Stops hexDigit rest) :
    parseHexadecimalNumber maxValue minDigits rest = none := by
  cases rest with
  | nil => simp [parseHexadecimalNumber]
  | cons c tail =>
    have missed : hexadecimalDigitValue c = none := by
      have := stops_cons.mp (stops_hexadecimal stops)
      simpa using this
    simp [parseHexadecimalNumber, missed]

/-- The hexadecimal reader on a maximal run: only the width of the run counts. -/
theorem parseHexadecimalNumber_run (maxValue minDigits : Nat)
    (width : maxValue + 1 = 16 ^ calculateHexadecimalDigits maxValue)
    (small : calculateHexadecimalDigits maxValue ≤ 7) (run : ∀ c ∈ word, hexDigit c = true)
    (stops : Stops hexDigit rest) :
    parseHexadecimalNumber maxValue minDigits (word ++ rest) =
      if word ≠ [] ∧ minDigits ≤ word.length ∧ word.length ≤ calculateHexadecimalDigits maxValue then
        some (hexadecimalValue word, rest)
      else none := by
  cases word with
  | nil => simp [parseHexadecimalNumber_empty maxValue minDigits stops]
  | cons c word =>
    have isHex := run c (by simp)
    rw [← isSome_hexadecimalDigitValue] at isHex
    obtain ⟨first, read⟩ := Option.isSome_iff_exists.mp isHex
    have tail : ∀ x ∈ word, (hexadecimalDigitValue x).isSome = true := fun x member => by
      rw [isSome_hexadecimalDigitValue]
      exact run x (by simp [member])
    have reader := hexadecimalReader small
    simp only [List.cons_append, parseHexadecimalNumber, read]
    by_cases fits : 1 + word.length ≤ calculateHexadecimalDigits maxValue + 1
    · have value : positional 16 (fun c => (hexadecimalDigitValue c).getD 0) first word =
          hexadecimalValue (c :: word) := by
        simp [hexadecimalValue, hexadecimalDigit, read]
        rfl
      rw [reader.loop_run (by simpa using hexadecimalDigitValue_lt read) fits tail
        (stops_hexadecimal stops), value]
      by_cases within : 1 + word.length ≤ calculateHexadecimalDigits maxValue
      · have inRange : hexadecimalValue (c :: word) ≤ maxValue :=
          hexadecimalValue_le width (by simpa [Nat.add_comm] using within)
        simp only [List.length_cons, ne_eq, reduceCtorEq, not_false_eq_true, true_and]
        split
        · omega
        · split <;> split <;> first | rfl | omega
      · simp only [List.length_cons]
        split
        · split <;> first | rfl | omega
        · omega
    · have overflow := digitLoop_overflow scaleHexadecimal rest 1 first
        (by omega : 1 ≤ calculateHexadecimalDigits maxValue + 1) (by omega) tail
      simp only [overflow, List.length_cons]
      split
      · split <;> first | rfl | omega
      · omega

end Hexadecimal

end Protovalidate.Lib
