import Mathlib.Data.Int.Basic
import Mathlib.Tactic.Common
import Mathlib.Tactic.NormNum

/-!
# 32-bit integers

Values of `int32_t` and `uint32_t` as integers, and the two conversions.  Sums
and products may be converted once at the end or after every operation.
-/

namespace VcuCodec

/-- Conversion of a 32-bit pattern to `int32_t`. -/
def toInt32 (x : ℤ) : ℤ := x.bmod (2 ^ 32)

/-- Conversion to `uint32_t`. -/
def toUInt32 (x : ℤ) : ℕ := (x % 2 ^ 32).toNat

/-- Conversion to `size_t`. -/
def toSizeT (x : ℤ) : ℕ := (x % 2 ^ 64).toNat

/-- The values of `int32_t`. -/
def FitsInt32 (x : ℤ) : Prop := -2 ^ 31 ≤ x ∧ x < 2 ^ 31
deriving Decidable

/-- The result of an `int` operation; `none` is an overflow. -/
def checkInt32 (x : ℤ) : Option ℤ := if FitsInt32 x then some x else none

theorem checkInt32_eq_some {x y : ℤ} : checkInt32 x = some y ↔ FitsInt32 x ∧ x = y := by
  unfold checkInt32
  split
  · next h => simp [h]
  · next h => simp [h]

theorem toInt32_of_fits {x : ℤ} (h : FitsInt32 x) : toInt32 x = x := by
  obtain ⟨hlo, hhi⟩ := h
  apply Int.bmod_eq_of_le_mul_two <;> omega

theorem toUInt32_of_fits {x : ℤ} (h0 : 0 ≤ x) (h : FitsInt32 x) : (toUInt32 x : ℤ) = x := by
  obtain ⟨-, hhi⟩ := h
  unfold toUInt32
  omega

theorem toSizeT_of_lt {n : ℕ} (h : n < 2 ^ 64) : toSizeT n = n := by
  unfold toSizeT
  omega

@[simp] theorem toInt32_zero : toInt32 0 = 0 := rfl

@[simp] theorem toInt32_toInt32_add (x y : ℤ) : toInt32 (toInt32 x + y) = toInt32 (x + y) :=
  Int.bmod_add_bmod

@[simp] theorem toInt32_add_toInt32 (x y : ℤ) : toInt32 (x + toInt32 y) = toInt32 (x + y) :=
  Int.add_bmod_bmod

@[simp] theorem toInt32_toInt32_sub (x y : ℤ) : toInt32 (toInt32 x - y) = toInt32 (x - y) :=
  Int.bmod_sub_bmod

@[simp] theorem toInt32_mul_toInt32 (x y : ℤ) : toInt32 (x * toInt32 y) = toInt32 (x * y) :=
  Int.mul_bmod_bmod

end VcuCodec
