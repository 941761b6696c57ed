import Mathlib.Data.BitVec
import Protovalidate.Foundation.Numeral

/-! A bit vector assembled from words of a fixed width, by shifting an
accumulator and filling in the next word. -/

namespace Protovalidate.Foundation

variable {size width : Nat}

/-- Shift in the words one after the other. -/
def shiftIn (width : Nat) (init : BitVec size) (words : List Nat) : BitVec size :=
  words.foldl (fun bits word => bits <<< width ||| BitVec.ofNat size word) init

@[simp] theorem shiftIn_nil (init : BitVec size) : shiftIn width init [] = init := rfl

@[simp] theorem shiftIn_cons (init : BitVec size) (word : Nat) (words : List Nat) :
    shiftIn width init (word :: words) = shiftIn width (init <<< width ||| BitVec.ofNat size word) words :=
  rfl

theorem shiftIn_append (init : BitVec size) (front back : List Nat) :
    shiftIn width init (front ++ back) = shiftIn width (shiftIn width init front) back :=
  List.foldl_append

/-- What was read before ends up in front of the words. -/
theorem shiftIn_init (init : BitVec size) (words : List Nat) :
    shiftIn width init words = init <<< (width * words.length) ||| shiftIn width 0 words := by
  induction words generalizing init with
  | nil => simp
  | cons word words ih =>
    rw [shiftIn_cons, ih, shiftIn_cons, ih ((0 : BitVec size) <<< width ||| _), BitVec.shiftLeft_or_distrib, BitVec.or_assoc,
      ← BitVec.shiftLeft_add, List.length_cons]
    simp [Nat.mul_succ, Nat.add_comm]

theorem shiftIn_zeros (count : Nat) : shiftIn width (0 : BitVec size) (List.replicate count 0) = 0 := by
  induction count with
  | zero => rfl
  | succ count ih => simpa [List.replicate_succ] using ih

theorem ofNat_shiftLeft_or (size value : Nat) {word : Nat} (small : word < 2 ^ width) :
    BitVec.ofNat size value <<< width ||| BitVec.ofNat size word =
      BitVec.ofNat size (value * 2 ^ width + word) := by
  rw [← Nat.shiftLeft_eq, Nat.shiftLeft_add_eq_or_of_lt small, BitVec.ofNat_or]
  congr 1
  apply BitVec.eq_of_toNat_eq
  simp [Nat.shiftLeft_eq]

/-- Shifting in words reads them as the digits of a number. -/
theorem shiftIn_eq_positional {words : List Nat} (small : ∀ word ∈ words, word < 2 ^ width) (value : Nat) :
    shiftIn width (BitVec.ofNat size value) words =
      BitVec.ofNat size (positional (2 ^ width) id value words) := by
  induction words generalizing value with
  | nil => rfl
  | cons word words ih =>
    rw [shiftIn_cons, ofNat_shiftLeft_or size value (small word (by simp)),
      ih (fun later member => small later (by simp [member]))]
    rfl

end Protovalidate.Foundation
