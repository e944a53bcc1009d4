import Mathlib

/-!
# Roots of primes, digit by digit

The items of a filtered range are the first numbers with a property, and the digits of a root are
found by comparing powers.
-/

namespace GrubLegacy.Base

section

variable {p : Nat → Prop} [DecidablePred p]

/-- Filtering a range counts. -/
theorem length_filter_range (bound : Nat) :
    ((List.range bound).filter p).length = Nat.count p bound := by
  rw [← List.countP_eq_length_filter, Nat.count]

/-- The filtered numbers up to a bound are the first ones with the property. -/
theorem nth_eq_of_filter_range (bound : Nat) {t : Nat} (small : t < Nat.count p bound) :
    Nat.nth p t = ((List.range bound).filter p).getD t 0 := by
  induction bound with
  | zero => simp at small
  | succ bound ih =>
      rw [List.range_succ, List.filter_append]
      by_cases here : p bound
      · rw [Nat.count_succ, if_pos here] at small
        have length := length_filter_range (p := p) bound
        rcases Nat.lt_or_ge t (Nat.count p bound) with earlier | last
        · rw [List.getD_append _ _ _ _ (by omega)]
          exact ih earlier
        · obtain rfl : t = Nat.count p bound := by omega
          rw [List.getD_append_right _ _ _ _ (by omega), length, Nat.nth_count here]
          simp [here]
      · rw [Nat.count_succ, if_neg here] at small
        simpa [here] using ih small

end

/-- The digits of a root, up to a place that is a power of two. -/
theorem floor_root {degree number shift digits : Nat} (positive : degree ≠ 0)
    (low : digits ^ degree ≤ number * (2 ^ shift) ^ degree)
    (high : number * (2 ^ shift) ^ degree < (digits + 1) ^ degree) :
    ⌊((2 ^ shift : Nat) : ℝ) * (number : ℝ) ^ ((degree : ℝ)⁻¹)⌋₊ = digits := by
  rw [Nat.cast_pow, Nat.cast_ofNat]
  have nonneg : (0 : ℝ) ≤ 2 ^ shift * (number : ℝ) ^ ((degree : ℝ)⁻¹) := by positivity
  have power : (2 ^ shift * (number : ℝ) ^ ((degree : ℝ)⁻¹)) ^ degree =
      ((number * (2 ^ shift) ^ degree : Nat) : ℝ) := by
    rw [mul_pow, Real.rpow_inv_natCast_pow (Nat.cast_nonneg number) positive]
    push_cast
    ring
  rw [Nat.floor_eq_iff nonneg]
  constructor
  · rw [← pow_le_pow_iff_left₀ (Nat.cast_nonneg digits) nonneg positive, power]
    exact_mod_cast low
  · rw [← pow_lt_pow_iff_left₀ nonneg (by positivity) positive, power]
    exact_mod_cast high

end GrubLegacy.Base
