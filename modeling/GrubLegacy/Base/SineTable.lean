import Mathlib

/-!
# Digits of sines

The sines of the natural numbers are the imaginary parts of the powers of one complex number. The
start of its series is a fraction of a Gaussian integer, whose powers can be computed exactly, and
what the rest of the series makes of them is small.
-/

namespace GrubLegacy.Base

open GaussianInt

/-- The first terms of the exponential series at the imaginary unit, times the last factorial. -/
def seriesStart : Nat → GaussianInt
  | 0 => 1
  | n + 1 => (n + 1 : Nat) * seriesStart n + ⟨0, 1⟩ ^ (n + 1)

/-- The numerator of a sine, and its denominator. -/
def sineNumerator (n : Nat) : Nat := (seriesStart 22 ^ n).im.natAbs

def sineDenominator (n : Nat) : Nat := Nat.factorial 22 ^ n

/-- The unit of the table is the imaginary one. -/
theorem toComplex_unit : toComplex ⟨0, 1⟩ = Complex.I := by
  simp [toComplex_def]

/-- The start of the series is that of the exponential. -/
theorem toComplex_seriesStart (n : Nat) : toComplex (seriesStart n) / n.factorial =
    ∑ m ∈ Finset.range (n + 1), Complex.I ^ m / m.factorial := by
  induction n with
  | zero => simp [seriesStart]
  | succ n ih =>
      have positive : (n.factorial : ℂ) ≠ 0 := Nat.cast_ne_zero.mpr n.factorial_ne_zero
      have positive' : (n + 1 : ℂ) ≠ 0 := Nat.cast_add_one_ne_zero n
      rw [Finset.sum_range_succ, ← ih, seriesStart, map_add, map_mul, map_pow, toComplex_unit,
        map_natCast, Nat.factorial_succ]
      push_cast
      field_simp

/-- The start of the series is near. -/
theorem norm_exp_sub_le :
    ‖Complex.exp Complex.I - toComplex (seriesStart 22) / (Nat.factorial 22 : ℕ)‖ ≤ 1 / 2 ^ 70 := by
  rw [toComplex_seriesStart]
  refine (Complex.exp_bound (by simp) (by decide)).trans ?_
  norm_num [Nat.factorial]

/-- Powers of near numbers are near. -/
theorem norm_pow_sub_pow_le {z w : ℂ} {bound : ℝ} (unit : ‖z‖ = 1) (near : ‖z - w‖ ≤ bound)
    (n : Nat) : ‖z ^ n - w ^ n‖ ≤ (1 + bound) ^ n - 1 := by
  have length : ‖w‖ ≤ 1 + bound := by
    calc ‖w‖ = ‖z - (z - w)‖ := by rw [sub_sub_cancel]
      _ ≤ ‖z‖ + ‖z - w‖ := norm_sub_le _ _
      _ ≤ 1 + bound := by rw [unit]; gcongr
  induction n with
  | zero => simp
  | succ n ih =>
      calc ‖z ^ (n + 1) - w ^ (n + 1)‖ = ‖z ^ n * (z - w) + (z ^ n - w ^ n) * w‖ := by ring_nf
        _ ≤ ‖z ^ n * (z - w)‖ + ‖(z ^ n - w ^ n) * w‖ := norm_add_le _ _
        _ = ‖z - w‖ + ‖z ^ n - w ^ n‖ * ‖w‖ := by rw [norm_mul, norm_mul, norm_pow, unit, one_pow, one_mul]
        _ ≤ bound + ((1 + bound) ^ n - 1) * (1 + bound) := by
            have := norm_nonneg (z ^ n - w ^ n)
            gcongr
            exact this.trans ih
        _ = (1 + bound) ^ (n + 1) - 1 := by ring

/-- The sine of a number up to 64 is near its fraction. -/
theorem abs_sin_sub_le {n : Nat} (small : n ≤ 64) :
    |(|Real.sin n| - sineNumerator n / sineDenominator n)| ≤ 1 / 2 ^ 60 := by
  have unit : ‖Complex.exp Complex.I‖ = 1 := by
    simpa using Complex.norm_exp_ofReal_mul_I 1
  have powers := norm_pow_sub_pow_le unit norm_exp_sub_le n
  have isSine : (Complex.exp Complex.I ^ n).im = Real.sin n := by
    rw [← Complex.exp_nat_mul]
    exact_mod_cast Complex.exp_ofReal_mul_I_im n
  have isFraction : |((toComplex (seriesStart 22) / (Nat.factorial 22 : ℕ)) ^ n).im| =
      sineNumerator n / sineDenominator n := by
    rw [div_pow, ← map_pow, ← Nat.cast_pow, Complex.div_natCast_im, toComplex_def₂, abs_div,
      Nat.abs_cast, sineNumerator, Nat.cast_natAbs, Int.cast_abs]
    rfl
  rw [← isSine, ← isFraction]
  refine (abs_abs_sub_abs_le _ _).trans ?_
  rw [← Complex.sub_im]
  refine ((Complex.abs_im_le_norm _).trans powers).trans ?_
  have largest : (1 + 1 / 2 ^ 70 : ℝ) ^ n ≤ (1 + 1 / 2 ^ 70) ^ 64 :=
    pow_le_pow_right₀ (by norm_num) small
  have bound : (1 + 1 / 2 ^ 70 : ℝ) ^ 64 - 1 ≤ 1 / 2 ^ 60 := by norm_num
  linarith

/-- The digits of a sine behind its point can be read off its fraction. -/
theorem floor_sin {n digits : Nat} (small : n ≤ 64)
    (low : 2 ^ 28 * digits * sineDenominator n + sineDenominator n ≤ 2 ^ 60 * sineNumerator n)
    (high : 2 ^ 60 * sineNumerator n + sineDenominator n < 2 ^ 28 * (digits + 1) * sineDenominator n) :
    ⌊2 ^ 32 * |Real.sin n|⌋₊ = digits := by
  have positive : (0 : ℝ) < sineDenominator n :=
    Nat.cast_pos.mpr (Nat.pow_pos (Nat.factorial_pos 22))
  obtain ⟨above, below⟩ := abs_le.mp (abs_sin_sub_le small)
  obtain ⟨fraction, isFraction⟩ : ∃ q : ℝ, q = sineNumerator n / sineDenominator n := ⟨_, rfl⟩
  have numerator : (sineNumerator n : ℝ) = fraction * sineDenominator n := by
    rw [isFraction, div_mul_cancel₀ _ positive.ne']
  have low : (2 ^ 28 * digits + 1) * (sineDenominator n : ℝ) ≤ 2 ^ 60 * fraction * sineDenominator n := by
    have cast : (2 ^ 28 * digits * sineDenominator n + sineDenominator n : ℝ) ≤
        2 ^ 60 * sineNumerator n := by exact_mod_cast low
    rw [numerator] at cast
    linarith
  have high : 2 ^ 60 * fraction * sineDenominator n <
      (2 ^ 28 * (digits + 1) - 1) * (sineDenominator n : ℝ) := by
    have cast : (2 ^ 60 * sineNumerator n + sineDenominator n : ℝ) <
        2 ^ 28 * (digits + 1) * sineDenominator n := by exact_mod_cast high
    rw [numerator] at cast
    linarith
  have low := le_of_mul_le_mul_right low positive
  have high := lt_of_mul_lt_mul_right high positive.le
  rw [← isFraction] at above below
  rw [Nat.floor_eq_iff (by positivity)]
  constructor <;> linarith

end GrubLegacy.Base
