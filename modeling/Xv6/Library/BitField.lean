import Mathlib

/-! Little-endian fields inside a fixed-width word of memory. Bit `i` of a block of bytes is
bit `i % 8` of byte `i / 8`, so a C array element or struct member is a range of bits. At the end,
steps of a C `int` that stay in its range.
-/

namespace Xv6.Library

variable {n width : Nat}

/-- The `width` bits that start at bit `start`. -/
def getField {n : Nat} (x : BitVec n) (start width : Nat) : BitVec width :=
  x.extractLsb' start width

/-- Overwrites the bits that start at bit `start` by `value`. -/
def setField {n width : Nat} (x : BitVec n) (start : Nat) (value : BitVec width) : BitVec n :=
  (x &&& ~~~((BitVec.allOnes width).setWidth n <<< start)) ||| (value.setWidth n <<< start)

theorem getLsbD_getField (x : BitVec n) (start width i : Nat)
    : (getField x start width).getLsbD i = (decide (i < width) && x.getLsbD (start + i)) := by
  simp [getField]

@[simp] theorem getField_zero (start width : Nat)
    : getField (0 : BitVec n) start width = 0 := by
  apply BitVec.eq_of_getLsbD_eq
  intro i _
  rw [getLsbD_getField]
  simp

/-- A bit after an update comes from the new value inside the field, else from the old
word.
-/
theorem getLsbD_setField (x : BitVec n) (start : Nat) (value : BitVec width) {i : Nat}
    (bound : i < n)
    : (setField x start value).getLsbD i
      = if start ≤ i ∧ i < start + width then value.getLsbD (i - start) else x.getLsbD i := by
  simp only [setField, BitVec.getLsbD_or, BitVec.getLsbD_and, BitVec.getLsbD_not,
    BitVec.getLsbD_shiftLeft, bound]
  by_cases low : i < start
  · have outside : ¬(start ≤ i ∧ i < start + width) := by omega
    simp [low]
  · have lower : i - start < n := by omega
    by_cases high : i < start + width
    · have inside : start ≤ i ∧ i < start + width := by omega
      have width_bound : i - start < width := by omega
      simp [low, lower, inside, width_bound]
    · have outside : ¬(start ≤ i ∧ i < start + width) := by omega
      have past : ¬i - start < width := by omega
      simp [outside, past, BitVec.getLsbD_of_ge value (i - start) (by omega)]

/-- A field reads back what was written to it. -/
theorem getField_setField_same (x : BitVec n) (start : Nat) (value : BitVec width)
    (fits : start + width ≤ n)
    : getField (setField x start value) start width = value := by
  apply BitVec.eq_of_getLsbD_eq
  intro i bound
  rw [getLsbD_getField, getLsbD_setField x start value (by omega)]
  simp [bound]

/-- Writing one field leaves every disjoint field alone. -/
theorem getField_setField_disjoint (x : BitVec n) (start : Nat) (value : BitVec width)
    {other otherWidth : Nat} (fits : other + otherWidth ≤ n)
    (disjoint : other + otherWidth ≤ start ∨ start + width ≤ other)
    : getField (setField x start value) other otherWidth = getField x other otherWidth := by
  apply BitVec.eq_of_getLsbD_eq
  intro i bound
  have outside : ¬(start ≤ other + i ∧ other + i < start + width) := by omega
  rw [getLsbD_getField, getLsbD_getField, getLsbD_setField x start value (by omega)]
  simp [outside]

/-- Taking one from a positive C `int`. -/
theorem toInt_pred {value : BitVec 32} (positive : 0 < value.toInt)
    : (value - 1).toInt = value.toInt - 1 := by
  have bound := value.toInt_lt
  rw [BitVec.toInt_sub, show (1 : BitVec 32).toInt = 1 from rfl, Int.bmod_eq_of_le] <;> omega

/-- Adding one to a C `int` that is not the largest. -/
theorem toInt_succ {value : BitVec 32} (room : value.toInt + 1 < 2 ^ 31)
    : (value + 1).toInt = value.toInt + 1 := by
  have bound := value.le_toInt
  rw [BitVec.toInt_add, show (1 : BitVec 32).toInt = 1 from rfl, Int.bmod_eq_of_le] <;> omega

end Xv6.Library
