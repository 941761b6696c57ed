import Protovalidate.Foundation.Numeral
import Protovalidate.Foundation.Recognizer

/-! `internal/lib/parser_common.h`: character ranges, the cursor operations
shared by the parsers, and the two number readers. -/

namespace Protovalidate.Lib

open Foundation

/-- A `std::string_view`; one character stands for one byte. -/
abbrev StringView := List Char

def charRange (start stop : Char) (c : Char) : Bool := start ≤ c && c ≤ stop

def char (n : Char) (c : Char) : Bool := c == n

def concatRanges (ranges : List (Char → Bool)) (c : Char) : Bool := ranges.any fun range => range c

def num : Char → Bool := charRange '0' '9'
def alpha : Char → Bool := concatRanges [charRange 'a' 'z', charRange 'A' 'Z']
def alphaNum : Char → Bool := concatRanges [alpha, num]
def hexDigit : Char → Bool := concatRanges [num, charRange 'a' 'f', charRange 'A' 'F']

/-- One round of `for (; value != 0; i++)`, with what it does to `value`. -/
def digitCountRound (shrink : Nat → Nat) (state : Nat × Nat) : Control (Nat × Nat) Nat :=
  if state.1 = 0 then .leave state.2 else .again (shrink state.1, state.2 + 1)

def calculateDecimalDigits (value : Nat) : Nat :=
  max 1 (Control.loop (digitCountRound fun value => value / 10) Prod.fst 0 (value, 0))

def calculateHexadecimalDigits (value : Nat) : Nat :=
  max 1 (Control.loop (digitCountRound fun value => value >>> 4) Prod.fst 0 (value, 0))

def decimalDigitValue (c : Char) : Option Nat :=
  if '0' ≤ c ∧ c ≤ '9' then some (c.toNat - '0'.toNat) else none

def hexadecimalDigitValue (c : Char) : Option Nat :=
  if '0' ≤ c ∧ c ≤ '9' then some (c.toNat - '0'.toNat)
  else if 'a' ≤ c ∧ c ≤ 'f' then some (c.toNat - 'a'.toNat + 10)
  else if 'A' ≤ c ∧ c ≤ 'F' then some (c.toNat - 'A'.toNat + 10)
  else none

def consume (range : Char → Bool) : Consumer Char := Consumer.one range

def consumeSequence (sequence : StringView) : Consumer Char := Consumer.word sequence

/-- The common loop of the number readers. `i` digits have been read; one more
than `maxDigits` may be, which is how an overlong number is noticed. The
accumulator is a 32-bit `unsigned`. -/
def digitLoop (digitValue : Char → Option Nat) (scale : Nat → Nat) (maxDigits : Nat) :
    Nat → Nat → StringView → Nat × Nat × StringView
  | i, value, [] => (i, value, [])
  | i, value, c :: rest =>
    match digitValue c with
    | none => (i, value, c :: rest)
    | some digit =>
      if i ≤ maxDigits then
        digitLoop digitValue scale maxDigits (i + 1) ((scale value + digit) % 2 ^ 32) rest
      else (i, value, c :: rest)

/-- `value *= 10U` -/
def scaleDecimal (value : Nat) : Nat := value * 10 % 2 ^ 32

/-- `value <<= 4U` -/
def scaleHexadecimal (value : Nat) : Nat := (value <<< 4) % 2 ^ 32

/-- The value and the input left; `none` answers false with nothing changed. -/
def parseDecimalNumber (maxValue : Nat) (str : StringView) : Option (Nat × StringView) :=
  let maxDigits := calculateDecimalDigits maxValue
  let finish : Nat × Nat × StringView → Option (Nat × StringView) := fun (i, value, rest) =>
    if i > maxDigits ∨ value > maxValue then none else some (value, rest)
  match str with
  | [] => none
  | c :: rest =>
    match decimalDigitValue c with
    | none => none
    | some value =>
      match rest with
      | [] => finish (1, value, [])
      | next :: tail =>
        match decimalDigitValue next with
        | none => finish (1, value, next :: tail)
        | some digit =>
          if value = 0 then none
          else finish (digitLoop decimalDigitValue scaleDecimal maxDigits 2
            ((scaleDecimal value + digit) % 2 ^ 32) tail)

def parseHexadecimalNumber (maxValue minDigits : Nat) (str : StringView) : Option (Nat × StringView) :=
  let maxDigits := calculateHexadecimalDigits maxValue
  match str with
  | [] => none
  | c :: rest =>
    match hexadecimalDigitValue c with
    | none => none
    | some first =>
      let (i, value, rest) := digitLoop hexadecimalDigitValue scaleHexadecimal maxDigits 1 first rest
      if i > maxDigits ∨ value > maxValue then none
      else if i < minDigits then none
      else some (value, rest)

def parseDecimalOctet : StringView → Option (Nat × StringView) := parseDecimalNumber 255

def parseHexadecimalHexadecatet : StringView → Option (Nat × StringView) :=
  parseHexadecimalNumber 0xffff 1

end Protovalidate.Lib
