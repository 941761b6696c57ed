import Mathlib.Data.BitVec

/-! Masks that select the bits of a word from a position on, and the words whose
bits below the position are all zero. -/

namespace Protovalidate.Foundation

variable {width wide count : Nat} {bits mask : BitVec width}

/-- The mask has exactly the bits from the position on. -/
def SelectsFrom (mask : BitVec width) (count : Nat) : Prop :=
  ∀ i < width, mask.getLsbD i = decide (count ≤ i)

theorem selectsFrom_shiftLeft (width count : Nat) : SelectsFrom (BitVec.allOnes width <<< count) count := by
  intro i inside
  have shifted : i - count < width := by omega
  simp only [BitVec.getLsbD_shiftLeft, BitVec.getLsbD_allOnes, inside, shifted, decide_true, Bool.true_and, Bool.and_true]
  by_cases above : count ≤ i
  · simp [above]
  · simp [above, Nat.not_le.mp above]

/-- Nothing is selected from the end on. -/
theorem selectsFrom_zero (past : width ≤ count) : SelectsFrom (0 : BitVec width) count := by
  intro i inside
  have below : ¬ count ≤ i := by omega
  simp [below]

/-- Truncating a mask keeps what it selects. -/
theorem SelectsFrom.setWidth {mask : BitVec wide} (selects : SelectsFrom mask count) (narrow : width ≤ wide) :
    SelectsFrom (mask.setWidth width) count := by
  intro i inside
  rw [BitVec.getLsbD_setWidth, selects i (by omega)]
  simp [inside]

/-- A power of two divides a word when the bits below it are zero. -/
theorem toNat_mod_eq_zero_iff : bits.toNat % 2 ^ count = 0 ↔ ∀ i < count, bits.getLsbD i = false := by
  have low (i : Nat) : (bits.toNat % 2 ^ count).testBit i = (decide (i < count) && bits.getLsbD i) := by
    rw [Nat.testBit_mod_two_pow, BitVec.testBit_toNat]
  constructor
  · intro divisible i below
    have bit := low i
    rw [divisible, Nat.zero_testBit] at bit
    simpa only [below, decide_true, Bool.true_and] using bit.symm
  · intro clear
    apply Nat.eq_of_testBit_eq
    intro i
    rw [low, Nat.zero_testBit]
    by_cases below : i < count
    · rw [clear i below, Bool.and_false]
    · rw [decide_eq_false below, Bool.false_and]

/-- What the mask leaves out is zero when the power of two divides the word. -/
theorem SelectsFrom.and_not_eq_zero (selects : SelectsFrom mask count) :
    bits &&& ~~~mask = 0 ↔ bits.toNat % 2 ^ count = 0 := by
  have out (i : Nat) (inside : i < width) : (bits &&& ~~~mask).getLsbD i = (bits.getLsbD i && !decide (count ≤ i)) := by
    rw [BitVec.getLsbD_and, BitVec.getLsbD_not, selects i inside, decide_eq_true inside, Bool.true_and]
  rw [toNat_mod_eq_zero_iff]
  constructor
  · intro empty i below
    by_cases inside : i < width
    · have bit := out i inside
      have unselected : ¬ count ≤ i := by omega
      rw [empty, decide_eq_false unselected, Bool.not_false, Bool.and_true] at bit
      exact bit.symm.trans BitVec.getLsbD_zero
    · exact BitVec.getLsbD_of_ge bits i (by omega)
  · intro clear
    apply BitVec.eq_of_getLsbD_eq
    intro i inside
    rw [out i inside]
    by_cases below : i < count
    · simp [clear i below]
    · simp [Nat.not_lt.mp below]

end Protovalidate.Foundation
