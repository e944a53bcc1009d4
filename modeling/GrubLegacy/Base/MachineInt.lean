import Mathlib

/-!
# Two's-complement machine integers

`toInt32` and `toUInt32` give the value a 32-bit C `int` or `unsigned` holds
after an assignment, `toInt64` and `toUInt64` those of 64 bits; inside their ranges they
change nothing.
-/

namespace GrubLegacy.Base

/-- The value of a 32-bit signed variable after storing `value`. -/
def toInt32 (value : Int) : Int := (value + 2 ^ 31) % 2 ^ 32 - 2 ^ 31

/-- The value of a 32-bit unsigned variable after storing `value`. -/
def toUInt32 (value : Int) : Nat := (value % 2 ^ 32).toNat

/-- The value of a 64-bit signed variable after storing `value`. -/
def toInt64 (value : Int) : Int := (value + 2 ^ 63) % 2 ^ 64 - 2 ^ 63

/-- The value of a 64-bit unsigned variable after storing `value`. -/
def toUInt64 (value : Int) : Nat := (value % 2 ^ 64).toNat

/-- An `int` is itself. -/
theorem toInt32_of_range {value : Int} (low : -2 ^ 31 ≤ value) (high : value < 2 ^ 31) :
    toInt32 value = value := by
  unfold toInt32
  omega

/-- A sum just past the largest `int` turns negative. -/
theorem toInt32_of_overflow {value : Int} (low : 2 ^ 31 ≤ value) (high : value < 2 ^ 32) :
    toInt32 value = value - 2 ^ 32 := by
  unfold toInt32
  omega

/-- An `int` is at least -2^31, -/
theorem toInt32_lower (value : Int) : -2 ^ 31 ≤ toInt32 value := by
  unfold toInt32
  omega

/-- and below 2^31. -/
theorem toInt32_upper (value : Int) : toInt32 value < 2 ^ 31 := by
  unfold toInt32
  omega

/-- A value that is not far behind an `int` is stored as that one only if it is the same. -/
theorem toInt32_eq_iff {value other : Int} (low : -2 ^ 31 ≤ other) (high : other < 2 ^ 31)
    (behind : other ≤ value) (near : value < other + 2 ^ 32) :
    toInt32 value = other ↔ value = other := by
  unfold toInt32
  omega

/-- Only the value modulo 2^32 counts. -/
theorem toInt32_congr {value other : Int} (same : value % 2 ^ 32 = other % 2 ^ 32) :
    toInt32 value = toInt32 other := by
  unfold toInt32
  omega

/-- An `int` has the lower 32 bits of the number. -/
theorem toInt32_emod (value : Int) : toInt32 value % 2 ^ 32 = value % 2 ^ 32 := by
  unfold toInt32
  omega

/-- A summand may be cut off before the sum. -/
@[simp]
theorem toInt32_add_toInt32 (value other : Int) :
    toInt32 (value + toInt32 other) = toInt32 (value + other) := by
  apply toInt32_congr
  rw [Int.add_emod, toInt32_emod, ← Int.add_emod]

/-- So may the first one. -/
theorem toInt32_toInt32_add (value other : Int) :
    toInt32 (toInt32 value + other) = toInt32 (value + other) := by
  rw [Int.add_comm, toInt32_add_toInt32, Int.add_comm]

/-- Cutting off twice is cutting off once. -/
@[simp]
theorem toInt32_toInt32 (value : Int) : toInt32 (toInt32 value) = toInt32 value :=
  toInt32_congr (toInt32_emod value)

/-- A factor may be cut off before the product. -/
@[simp]
theorem toInt32_toInt32_mul (value factor : Int) :
    toInt32 (toInt32 value * factor) = toInt32 (value * factor) := by
  apply toInt32_congr
  rw [Int.mul_emod, toInt32_emod, ← Int.mul_emod]

/-- An unsigned number is below 2^32, -/
theorem toUInt32_lt (value : Int) : toUInt32 value < 2 ^ 32 := by
  unfold toUInt32
  omega

/-- and one below is itself. -/
theorem toUInt32_of_range {value : Nat} (high : value < 2 ^ 32) :
    toUInt32 (value : Int) = value := by
  unfold toUInt32
  omega

/-- A 64-bit `int` is itself, -/
theorem toInt64_of_range {value : Int} (low : -2 ^ 63 ≤ value) (high : value < 2 ^ 63) :
    toInt64 value = value := by
  unfold toInt64
  omega

/-- and so is an unsigned one. -/
theorem toUInt64_of_range {value : Nat} (high : value < 2 ^ 64) :
    toUInt64 (value : Int) = value := by
  unfold toUInt64
  omega

end GrubLegacy.Base
