import Mathlib.Data.Nat.Bitwise
import Mathlib.Tactic.Ring

/-!
# Bits in the reverse order

The bits of a prefix code come with the first one lowest, while codes are counted with the first one
highest. The reversal goes from the one to the other, and here is the increment that counts up codes
without reversing them.
-/

namespace GrubLegacy.Base

/-- The low `k` bits in the reverse order. -/
def reversed : (k : Nat) → Nat → Nat
  | 0, _ => 0
  | k + 1, b => 2 * reversed k b + b / 2 ^ k % 2

/-- A reversed number has as many bits. -/
theorem reversed_lt (k b : Nat) : reversed k b < 2 ^ k := by
  induction k with
  | zero => simp [reversed]
  | succ k ih =>
      simp only [reversed, Nat.pow_succ]
      omega

/-- Reversing looks at the lower bits only. -/
@[simp] theorem reversed_mod {k m : Nat} (low : k ≤ m) (b : Nat) :
    reversed k (b % 2 ^ m) = reversed k b := by
  induction k with
  | zero => rfl
  | succ k ih =>
      have bit : b % 2 ^ m / 2 ^ k % 2 = b / 2 ^ k % 2 := by
        obtain ⟨rest, rfl⟩ := Nat.exists_eq_add_of_lt low
        rw [Nat.add_assoc, Nat.pow_add, Nat.mod_mul_right_div_self, Nat.pow_succ',
          Nat.mod_mul_right_mod]
      simp [reversed, ih (by omega), bit]

/-- The first bits are the high ones. -/
theorem reversed_div (k m b : Nat) : reversed (k + m) b / 2 ^ m = reversed k b := by
  induction m with
  | zero => simp
  | succ m ih =>
      have half : reversed (k + m + 1) b / 2 = reversed (k + m) b := by
        simp only [reversed]
        omega
      rw [← Nat.add_assoc, Nat.pow_succ', ← Nat.div_div_eq_div_mul, half, ih]

/-- More bits than a number has are zeroes in front. -/
theorem reversed_of_lt {k b : Nat} (small : b < 2 ^ k) (m : Nat) :
    reversed (k + m) b = reversed k b * 2 ^ m := by
  induction m with
  | zero => simp
  | succ m ih =>
      have zero : b / 2 ^ (k + m) = 0 :=
        Nat.div_eq_of_lt (small.trans_le (Nat.pow_le_pow_right (by decide) (Nat.le_add_right k m)))
      rw [← Nat.add_assoc, reversed, ih, zero, Nat.pow_succ']
      ring

/-- Numbers that are reversed to the same agree in these bits, -/
theorem mod_eq_of_reversed {k b c : Nat} (same : reversed k b = reversed k c) :
    b % 2 ^ k = c % 2 ^ k := by
  induction k with
  | zero => simp [Nat.mod_one]
  | succ k ih =>
      simp only [reversed] at same
      have low := ih (by omega)
      have high : b / 2 ^ k % 2 = c / 2 ^ k % 2 := by omega
      rw [Nat.pow_succ, Nat.mod_mul, Nat.mod_mul, low, high]

/-- and the other way round. -/
theorem reversed_congr {k b c : Nat} (same : b % 2 ^ k = c % 2 ^ k) :
    reversed k b = reversed k c := by
  rw [← reversed_mod (Nat.le_refl k) b, same, reversed_mod (Nat.le_refl k)]

/-! ## The increment -/

/-- Set bits are cleared from bit `k - 1` down, up to a bit that is not set, which is set. -/
def backwardsIncrement : (k : Nat) → Nat → Nat
  | 0, i => i
  | k + 1, i => if i.testBit k then backwardsIncrement k (i ^^^ 2 ^ k) else i ^^^ 2 ^ k

/-- A bit above is set by the exclusive or, -/
theorem xor_two_pow_of_lt {k i : Nat} (small : i < 2 ^ k) : i ^^^ 2 ^ k = i + 2 ^ k := by
  apply Nat.eq_of_testBit_eq
  intro j
  rw [Nat.testBit_xor, Nat.testBit_two_pow, Nat.add_comm]
  rcases Nat.lt_trichotomy j k with below | rfl | above
  · simp [Nat.testBit_two_pow_add_gt below, Nat.ne_of_gt below]
  · simp [Nat.testBit_two_pow_add_eq, Nat.testBit_lt_two_pow small]
  · have i_small : i < 2 ^ j := small.trans_le (Nat.pow_le_pow_right (by decide) (by omega))
    have sum_small : 2 ^ k + i < 2 ^ j :=
      calc 2 ^ k + i < 2 ^ (k + 1) := by rw [Nat.pow_succ]; omega
        _ ≤ 2 ^ j := Nat.pow_le_pow_right (by decide) above
    simp [Nat.testBit_lt_two_pow i_small, Nat.testBit_lt_two_pow sum_small, Nat.ne_of_lt above]

/-- and cleared again. -/
theorem add_two_pow_xor {k i : Nat} (small : i < 2 ^ k) : (i + 2 ^ k) ^^^ 2 ^ k = i := by
  rw [← xor_two_pow_of_lt small, Nat.xor_assoc, Nat.xor_self, Nat.xor_zero]

/-- A highest bit that is clear gets set. -/
theorem backwardsIncrement_clear {k i : Nat} (small : i < 2 ^ k) :
    backwardsIncrement (k + 1) i = i + 2 ^ k := by
  simp [backwardsIncrement, Nat.testBit_lt_two_pow small, xor_two_pow_of_lt small]

/-- One that is set is cleared, and the carry goes down. -/
theorem backwardsIncrement_set {k i : Nat} (small : i < 2 ^ k) :
    backwardsIncrement (k + 1) (i + 2 ^ k) = backwardsIncrement k i := by
  have set : (i + 2 ^ k).testBit k = true := by
    rw [Nat.add_comm, Nat.testBit_two_pow_add_eq, Nat.testBit_lt_two_pow small]
    rfl
  rw [backwardsIncrement, if_pos set, add_two_pow_xor small]

/-- A number of `k + 1` bits has its highest bit clear or set. -/
theorem highBit_cases {k i : Nat} (small : i < 2 ^ (k + 1)) :
    i < 2 ^ k ∨ ∃ j < 2 ^ k, i = j + 2 ^ k := by
  rw [Nat.pow_succ] at small
  by_cases below : i < 2 ^ k
  · exact .inl below
  · exact .inr ⟨i - 2 ^ k, by omega, by omega⟩

/-- The result has as many bits. -/
theorem backwardsIncrement_lt {k i : Nat} (small : i < 2 ^ k) : backwardsIncrement k i < 2 ^ k := by
  induction k generalizing i with
  | zero => simpa [backwardsIncrement] using small
  | succ k ih =>
      rcases highBit_cases small with clear | ⟨j, below, rfl⟩
      · rw [backwardsIncrement_clear clear, Nat.pow_succ]
        omega
      · rw [backwardsIncrement_set below]
        exact (ih below).trans_le (Nat.pow_le_pow_right (by decide) (Nat.le_succ k))

/-- The reversed number is the next one. -/
theorem reversed_backwardsIncrement {k i : Nat} (small : i < 2 ^ k)
    (more : reversed k i + 1 < 2 ^ k) :
    reversed k (backwardsIncrement k i) = reversed k i + 1 := by
  induction k generalizing i with
  | zero => simp at more
  | succ k ih =>
      rcases highBit_cases small with clear | ⟨j, below, rfl⟩
      · have low : reversed k (i + 2 ^ k) = reversed k i := reversed_congr (by simp)
        have bit : (i + 2 ^ k) / 2 ^ k = 1 := by
          rw [Nat.add_div_right _ (Nat.two_pow_pos k), Nat.div_eq_of_lt clear]
        rw [backwardsIncrement_clear clear, reversed, reversed, low, bit, Nat.div_eq_of_lt clear]
      · have low : reversed k (j + 2 ^ k) = reversed k j := reversed_congr (by simp)
        have bit : (j + 2 ^ k) / 2 ^ k = 1 := by
          rw [Nat.add_div_right _ (Nat.two_pow_pos k), Nat.div_eq_of_lt below]
        have next_small := backwardsIncrement_lt below
        rw [reversed, low, bit, Nat.pow_succ] at more
        rw [backwardsIncrement_set below, reversed, reversed, ih below (by omega), low, bit,
          Nat.div_eq_of_lt next_small]
        omega

/-- Where a low part changes, nothing is left above it. -/
theorem backwardsIncrement_low {k i : Nat} (small : i < 2 ^ k) {m : Nat} (le : m ≤ k) :
    backwardsIncrement k i % 2 ^ m = i % 2 ^ m ∨ backwardsIncrement k i < 2 ^ m := by
  induction k generalizing i with
  | zero => exact .inl rfl
  | succ k ih =>
      rcases Nat.eq_or_lt_of_le le with rfl | lt
      · exact .inr (backwardsIncrement_lt small)
      have divides : 2 ^ m ∣ 2 ^ k := Nat.pow_dvd_pow 2 (by omega)
      rcases highBit_cases small with clear | ⟨j, below, rfl⟩
      · rw [backwardsIncrement_clear clear, Nat.add_mod, Nat.mod_eq_zero_of_dvd divides]
        simp
      · rw [backwardsIncrement_set below, Nat.add_mod, Nat.mod_eq_zero_of_dvd divides]
        simpa using ih below (by omega)

end GrubLegacy.Base
