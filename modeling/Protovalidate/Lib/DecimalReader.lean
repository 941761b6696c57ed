import Mathlib.Data.BitVec
import Protovalidate.Lib.NumberReader

/-! `ParserCommon::parseDecimalNumber` with its variables: the cursor, the 32-bit
accumulator, and what it does to the input and the output. -/

namespace Protovalidate.Lib

open Foundation

/-- The integer type `T` of the output. -/
structure OutputType where
  width : Nat
  signed : Bool

namespace OutputType

variable (type : OutputType)

/-- The values from zero that the type holds are less than this. -/
def bound : Nat := if type.signed then 2 ^ (type.width - 1) else 2 ^ type.width

/-- `static_cast<T>(value)` -/
def cast (value : Nat) : Int :=
  let bits := BitVec.ofNat type.width value
  if type.signed then bits.toInt else bits.toNat

variable {type}

theorem cast_eq {value : Nat} (holds : value < type.bound) : type.cast value = value := by
  rw [bound] at holds
  rw [cast]
  split at holds
  · rename_i signed
    have room : 2 * value < 2 ^ type.width := by
      cases width : type.width with
      | zero =>
        rw [width] at holds
        omega
      | succ width' =>
        rw [width, Nat.add_sub_cancel] at holds
        rw [pow_succ]
        omega
    have small : (BitVec.ofNat type.width value).toNat = value := by
      rw [BitVec.toNat_ofNat, Nat.mod_eq_of_lt (by omega)]
    rw [if_pos signed, BitVec.toInt_eq_toNat_of_lt (by rwa [small]), small]
  · rename_i unsigned
    rw [if_neg unsigned, BitVec.toNat_ofNat, Nat.mod_eq_of_lt holds]

end OutputType

/-- The variables `i` and `value`, and whether an operation on `value` has wrapped. -/
structure DecimalState where
  i : Nat
  value : Nat
  wrapped : Bool

/-- `str.length() > i && decimalDigitValue(str[i], digitValue)` -/
def digitAt (str : StringView) (i : Nat) : Option Nat := str[i]?.bind decimalDigitValue

/-- The body of the loop: `i++`, `value *= 10U`, `value += digitValue`. -/
def DecimalState.push (state : DecimalState) (digitValue : Nat) : DecimalState where
  i := state.i + 1
  value := (scaleDecimal state.value + digitValue) % 2 ^ 32
  wrapped := state.wrapped || decide (2 ^ 32 ≤ state.value * 10) || decide (2 ^ 32 ≤ scaleDecimal state.value + digitValue)

/-- The body, and the condition behind it. -/
def decimalRound (str : StringView) (maxDigits : Nat) (config : DecimalState × Nat) :
    Control (DecimalState × Nat) DecimalState :=
  let state := config.1.push config.2
  if state.i ≤ maxDigits then
    match digitAt str state.i with
    | none => .leave state
    | some digitValue => .again (state, digitValue)
  else .leave state

def decimalLoop (str : StringView) (maxDigits : Nat) (state : DecimalState) (digitValue : Nat) : DecimalState :=
  Control.loop (decimalRound str maxDigits) (fun config => str.length - config.1.i) ⟨0, 0, true⟩ (state, digitValue)

/-- What a call returns and leaves in `str` and `outputValue`. -/
structure DecimalCall where
  returned : Bool
  str : StringView
  outputValue : Int
  wrapped : Bool
deriving DecidableEq, Repr

def ParserCommon.parseDecimalNumber (type : OutputType) (maxValue : Nat) (str : StringView) (outputValue : Int) :
    DecimalCall :=
  let maxDigits := calculateDecimalDigits maxValue
  let finish (state : DecimalState) : DecimalCall :=
    if state.i > maxDigits ∨ state.value > maxValue then ⟨false, str, outputValue, state.wrapped⟩
    else ⟨true, str.drop state.i, type.cast state.value, state.wrapped⟩
  match digitAt str 0 with
  | none => ⟨false, str, outputValue, false⟩
  | some value =>
    match digitAt str 1 with
    | none => finish ⟨1, value, false⟩
    | some digitValue =>
      if value = 0 then ⟨false, str, outputValue, false⟩
      else finish (decimalLoop str maxDigits ⟨1, value, false⟩ digitValue)

section Loop

variable {str : StringView} {maxDigits : Nat}

theorem digitAt_lt {i digitValue : Nat} (read : digitAt str i = some digitValue) : i < str.length := by
  rw [digitAt] at read
  by_contra beyond
  rw [List.getElem?_eq_none (by omega)] at read
  cases read

theorem digitAt_digit {i digitValue : Nat} (read : digitAt str i = some digitValue) : digitValue < 10 := by
  obtain ⟨c, -, digit⟩ := Option.bind_eq_some_iff.mp read
  exact (decimalReader (Nat.zero_le 8)).digits c digitValue digit

theorem decimalRound_decreases :
    Control.Decreases (decimalRound str maxDigits) fun config => str.length - config.1.i := by
  intro config next again
  simp only [decimalRound] at again
  split at again
  · cases read : digitAt str (config.1.push config.2).i with
    | none =>
      rw [read] at again
      cases again
    | some digitValue =>
      rw [read] at again
      cases again
      have inside := digitAt_lt read
      simp only [DecimalState.push] at inside ⊢
      omega
  · cases again

/-- Within the digits that the loop reads, no operation wraps. -/
theorem push_exact {state : DecimalState} {digitValue : Nat} (reader : DigitReader decimalDigitValue scaleDecimal 10 maxDigits)
    (within : state.i ≤ maxDigits) (bound : state.value < 10 ^ state.i) (unwrapped : state.wrapped = false)
    (digit : digitValue < 10) :
    (state.push digitValue).wrapped = false ∧ (state.push digitValue).value < 10 ^ (state.i + 1) := by
  obtain ⟨exact_, next⟩ := reader.step state.i state.value bound within digit
  have room : 10 ^ (state.i + 1) ≤ 2 ^ 32 := Nat.le_trans (Nat.pow_le_pow_right (by omega) (by omega)) reader.room
  have scaled : scaleDecimal state.value = state.value * 10 := by
    rw [scaleDecimal, Nat.mod_eq_of_lt (by omega)]
  simp only [DecimalState.push, unwrapped, exact_, next, Bool.false_or, Bool.or_eq_false_iff, decide_eq_false_iff_not, and_true]
  rw [scaled]
  omega

/-- Behind the last digit, or one digit after the bound, the digit loop stops. -/
theorem digitLoop_stops {i value : Nat} (scale : Nat → Nat) (stops : digitAt str i = none ∨ maxDigits < i) :
    digitLoop decimalDigitValue scale maxDigits i value (str.drop i) = (i, value, str.drop i) := by
  rw [digitAt, ← List.head?_drop] at stops
  cases left : str.drop i with
  | nil => rfl
  | cons c rest =>
    rw [left] at stops
    rw [digitLoop]
    rcases stops with missed | beyond
    · have other : decimalDigitValue c = none := missed
      rw [other]
    · cases decimalDigitValue c with
      | none => rfl
      | some digit => exact if_neg (by omega)

theorem digitLoop_reads {i value digitValue : Nat} (scale : Nat → Nat) (read : digitAt str i = some digitValue)
    (within : i ≤ maxDigits) : digitLoop decimalDigitValue scale maxDigits i value (str.drop i) =
      digitLoop decimalDigitValue scale maxDigits (i + 1) ((scale value + digitValue) % 2 ^ 32) (str.drop (i + 1)) := by
  have rest := List.drop_drop (i := 1) (j := i) (l := str)
  rw [digitAt, ← List.head?_drop] at read
  rw [← rest]
  cases left : str.drop i with
  | nil =>
    rw [left] at read
    cases read
  | cons c tail =>
    rw [left] at read
    have digit : decimalDigitValue c = some digitValue := read
    rw [digitLoop, digit]
    exact if_pos within

/-- The loop does not wrap, and reads what the digit loop reads behind the cursor. -/
theorem decimalLoop_digitLoop (reader : DigitReader decimalDigitValue scaleDecimal 10 maxDigits) {state : DecimalState}
    {digitValue : Nat} (within : state.i ≤ maxDigits) (bound : state.value < 10 ^ state.i) (unwrapped : state.wrapped = false)
    (digit : digitValue < 10) :
    (decimalLoop str maxDigits state digitValue).wrapped = false ∧
      digitLoop decimalDigitValue scaleDecimal maxDigits (state.push digitValue).i (state.push digitValue).value
          (str.drop (state.push digitValue).i) =
        ((decimalLoop str maxDigits state digitValue).i, (decimalLoop str maxDigits state digitValue).value,
          str.drop (decimalLoop str maxDigits state digitValue).i) := by
  induction config : (state, digitValue) using Control.loop_induction (@decimalRound_decreases str maxDigits)
    generalizing state digitValue with
  | round config ih =>
    subst config
    obtain ⟨exact_, next⟩ := push_exact reader within bound unwrapped digit
    by_cases more : (state.push digitValue).i ≤ maxDigits
    · cases read : digitAt str (state.push digitValue).i with
      | none =>
        have leaves : decimalRound str maxDigits (state, digitValue) = .leave (state.push digitValue) := by
          simp only [decimalRound, more, read, if_true]
        rw [decimalLoop, Control.loop_leave decimalRound_decreases leaves]
        exact ⟨exact_, digitLoop_stops _ (.inl read)⟩
      | some following =>
        have goesOn : decimalRound str maxDigits (state, digitValue) = .again (state.push digitValue, following) := by
          simp only [decimalRound, more, read, if_true]
        have rest := ih _ goesOn more next exact_ (digitAt_digit read) rfl
        rw [decimalLoop, Control.loop_again decimalRound_decreases goesOn]
        rw [digitLoop_reads _ read more]
        exact rest
    · have leaves : decimalRound str maxDigits (state, digitValue) = .leave (state.push digitValue) := by
        simp only [decimalRound, more, if_false]
      rw [decimalLoop, Control.loop_leave decimalRound_decreases leaves]
      exact ⟨exact_, digitLoop_stops _ (.inr (by omega))⟩

end Loop

section Call

/-- What a call that finds some number returns, and one that finds none. -/
def answer (type : OutputType) (str : StringView) (outputValue : Int) : Option (Nat × StringView) → DecimalCall
  | none => ⟨false, str, outputValue, false⟩
  | some (value, rest) => ⟨true, rest, type.cast value, false⟩

variable {type : OutputType} {maxValue : Nat} {str : StringView} {outputValue : Int}

/-- The cursor and the accumulator find what the reader on lists finds. -/
theorem ParserCommon.parseDecimalNumber_eq (small : maxValue < 10 ^ 8) :
    ParserCommon.parseDecimalNumber type maxValue str outputValue =
      answer type str outputValue (Lib.parseDecimalNumber maxValue str) := by
  have reader := decimalReader (calculateDecimalDigits_le small)
  have enough := calculateDecimalDigits_pos maxValue
  cases str with
  | nil => rfl
  | cons c rest =>
    have atFirst : digitAt (c :: rest) 0 = decimalDigitValue c := rfl
    simp only [ParserCommon.parseDecimalNumber, Lib.parseDecimalNumber, atFirst]
    cases first : decimalDigitValue c with
    | none => rfl
    | some value =>
      have bound : value < 10 ^ 1 := reader.digits c value first
      cases rest with
      | nil =>
        have behind : digitAt [c] 1 = none := rfl
        simp only [behind]
        split <;> rfl
      | cons next tail =>
        have behind : digitAt (c :: next :: tail) 1 = decimalDigitValue next := rfl
        simp only [behind]
        cases second : decimalDigitValue next with
        | none =>
          simp only
          split <;> rfl
        | some digit =>
          simp only
          by_cases zero : value = 0
          · rw [if_pos zero, if_pos zero]
            rfl
          · rw [if_neg zero, if_neg zero]
            have looped := @decimalLoop_digitLoop (c :: next :: tail) _ reader ⟨1, value, false⟩ digit enough bound rfl
              (reader.digits next digit second)
            generalize decimalLoop _ _ _ digit = final at looped ⊢
            have same : digitLoop decimalDigitValue scaleDecimal (calculateDecimalDigits maxValue) 2
                ((scaleDecimal value + digit) % 2 ^ 32) tail = _ := looped.2
            rw [same, looped.1]
            simp only
            split <;> rfl

variable {word rest : List Char}

theorem answer_canonical (small : maxValue < 10 ^ 8) (holds : maxValue < type.bound) (canonical : CanonicalDecimal word)
    (bound : decimalValue word ≤ maxValue) (stops : Stops Char.isDigit rest) :
    ParserCommon.parseDecimalNumber type maxValue (word ++ rest) outputValue = ⟨true, rest, decimalValue word, false⟩ := by
  rw [ParserCommon.parseDecimalNumber_eq small, parseDecimalNumber_canonical small canonical bound stops, answer]
  rw [OutputType.cast_eq (Nat.lt_of_le_of_lt bound holds)]

theorem answer_other (small : maxValue < 10 ^ 8) (run : ∀ c ∈ word, c.isDigit = true) (stops : Stops Char.isDigit rest)
    (other : ¬(CanonicalDecimal word ∧ decimalValue word ≤ maxValue)) :
    ParserCommon.parseDecimalNumber type maxValue (word ++ rest) outputValue = ⟨false, word ++ rest, outputValue, false⟩ := by
  rw [ParserCommon.parseDecimalNumber_eq small]
  cases parsed : Lib.parseDecimalNumber maxValue (word ++ rest) with
  | none => rfl
  | some found =>
    obtain ⟨canonical, value, bound, -⟩ := parseDecimalNumber_sound small run stops parsed
    exact absurd ⟨canonical, value ▸ bound⟩ other

/-- The digits in front of a text, up to the first other character. -/
def digitRun (str : StringView) : StringView := str.takeWhile Char.isDigit

theorem digitRun_append (str : StringView) : digitRun str ++ str.dropWhile Char.isDigit = str :=
  List.takeWhile_append_dropWhile

theorem digitRun_digits (str : StringView) : ∀ c ∈ digitRun str, c.isDigit = true :=
  List.all_eq_true.mp List.all_takeWhile

theorem digitRun_stops (str : StringView) : Stops Char.isDigit (str.dropWhile Char.isDigit) := by
  intro c next
  have missed := List.head?_dropWhile_not Char.isDigit str
  rw [next] at missed
  simpa using missed

theorem canonicalDecimal_iff (run : ∀ c ∈ word, c.isDigit = true) :
    CanonicalDecimal word ↔ word ≠ [] ∧ (word.head? = some '0' → word = ['0']) := by
  constructor
  · intro canonical
    refine ⟨canonical.nonempty, fun leading => ?_⟩
    obtain ⟨c, single⟩ := List.length_eq_one_iff.mp (canonical.leading leading)
    subst single
    cases leading
    rfl
  · rintro ⟨nonempty, leading⟩
    refine ⟨nonempty, run, fun zero => ?_⟩
    rw [leading zero]
    rfl

/-- For every maximum of at most eight digits, and an output type that holds it: a call
succeeds if and only if the maximal run of digits in front is not empty, has no leading
zero unless it is a zero, and is not greater. Then it takes this run away and outputs its
value; otherwise it changes nothing. The accumulator never wraps. -/
theorem parseDecimalNumber_exact (type : OutputType) (maxValue : Nat) (small : maxValue < 10 ^ 8)
    (holds : maxValue < type.bound) (str : StringView) (outputValue : Int) :
    ((ParserCommon.parseDecimalNumber type maxValue str outputValue).returned = true ↔
        digitRun str ≠ [] ∧ ((digitRun str).head? = some '0' → digitRun str = ['0']) ∧
          decimalValue (digitRun str) ≤ maxValue) ∧
      ((ParserCommon.parseDecimalNumber type maxValue str outputValue).returned = true →
        digitRun str ++ (ParserCommon.parseDecimalNumber type maxValue str outputValue).str = str ∧
          (ParserCommon.parseDecimalNumber type maxValue str outputValue).outputValue = decimalValue (digitRun str)) ∧
      ((ParserCommon.parseDecimalNumber type maxValue str outputValue).returned = false →
        (ParserCommon.parseDecimalNumber type maxValue str outputValue).str = str ∧
          (ParserCommon.parseDecimalNumber type maxValue str outputValue).outputValue = outputValue) ∧
      (ParserCommon.parseDecimalNumber type maxValue str outputValue).wrapped = false := by
  have split := digitRun_append str
  have canonical := canonicalDecimal_iff (digitRun_digits str)
  rw [← @and_assoc (digitRun str ≠ []), ← canonical]
  by_cases accepted : CanonicalDecimal (digitRun str) ∧ decimalValue (digitRun str) ≤ maxValue
  · have call : ParserCommon.parseDecimalNumber type maxValue (digitRun str ++ str.dropWhile Char.isDigit) outputValue = _ :=
      answer_canonical small holds accepted.1 accepted.2 (digitRun_stops str)
    rw [split] at call
    rw [call]
    exact ⟨iff_of_true rfl accepted, fun _ => ⟨split, rfl⟩, (fun impossible => by cases impossible), rfl⟩
  · have call : ParserCommon.parseDecimalNumber type maxValue (digitRun str ++ str.dropWhile Char.isDigit) outputValue = _ :=
      answer_other small (digitRun_digits str) (digitRun_stops str) accepted
    rw [split] at call
    rw [call]
    exact ⟨iff_of_false Bool.false_ne_true accepted, (fun impossible => by cases impossible), fun _ => ⟨rfl, rfl⟩, rfl⟩

/-- The maximum of an octet, read into a `uint8_t`. -/
theorem parseDecimalNumber_exactOctet :
    ((ParserCommon.parseDecimalNumber ⟨8, false⟩ 255 "2550.1".toList 7).returned = true ↔
        digitRun "2550.1".toList ≠ [] ∧
          ((digitRun "2550.1".toList).head? = some '0' → digitRun "2550.1".toList = ['0']) ∧
          decimalValue (digitRun "2550.1".toList) ≤ 255) ∧
      ParserCommon.parseDecimalNumber ⟨8, false⟩ 255 "250.1".toList 7 = ⟨true, ".1".toList, 250, false⟩ :=
  ⟨(parseDecimalNumber_exact ⟨8, false⟩ 255 (by decide) (by decide) "2550.1".toList 7).1, by decide⟩

end Call
end Protovalidate.Lib
