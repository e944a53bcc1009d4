import GrubLegacy.Base.BitReversal
import Mathlib.Algebra.BigOperators.Intervals
import Mathlib.Algebra.Order.BigOperators.Group.Finset

/-!
# Canonical prefix codes

The codes of a canonical prefix code are counted up, from the shortest to the longest. With each code
goes a part of the patterns of `g` bits, the ones that start with it, and these parts follow each
other.
-/

namespace GrubLegacy.Base

/-- The first code of `k` bits, where there are `count` codes of each length from one on. -/
def firstCode (count : Nat → Nat) : (k : Nat) → Nat
  | 0 => 0
  | 1 => 0
  | k + 2 => 2 * (firstCode count (k + 1) + count (k + 1))

variable {count : Nat → Nat} {g k : Nat}

/-- The first code of a length follows the last one before, with a bit more. -/
theorem firstCode_succ (some_ : 0 < k) :
    firstCode count (k + 1) = 2 * (firstCode count k + count k) := by
  obtain ⟨k, rfl⟩ := Nat.exists_eq_succ_of_ne_zero some_.ne'
  rfl

/-- It depends on the shorter lengths only. -/
theorem firstCode_congr {count' : Nat → Nat} (same : ∀ j, 0 < j → j < k → count j = count' j) :
    firstCode count k = firstCode count' k := by
  induction k with
  | zero => rfl
  | succ k ih =>
      rcases Nat.eq_zero_or_pos k with rfl | some_
      · rfl
      · rw [firstCode_succ some_, firstCode_succ some_, same k some_ (Nat.lt_succ_self k),
          ih fun j some_ below => same j some_ (Nat.lt_succ_of_lt below)]

/-- There are no codes of less bits than the first ones. -/
theorem firstCode_eq_zero (none : ∀ j, 0 < j → j < k → count j = 0) : firstCode count k = 0 := by
  induction k with
  | zero => rfl
  | succ k ih =>
      rcases Nat.eq_zero_or_pos k with rfl | some_
      · rfl
      · rw [firstCode_succ some_, none k some_ (Nat.lt_succ_self k),
          ih fun j some_ below => none j some_ (Nat.lt_succ_of_lt below)]

/-- The code of a value, where the lengths of the codes of all values are given. A value of length
zero has no code. -/
def codeOf (lens : List Nat) (value : Nat) : Nat :=
  firstCode (fun k => lens.count k) (lens.getD value 0) +
    (lens.take value).count (lens.getD value 0)

/-- The part of the patterns of `max` bits that the codes take up. -/
def kraftSum (max : Nat) (lens : List Nat) : Nat :=
  (lens.map fun k => if k = 0 then 0 else 2 ^ (max - k)).sum

/-! ## The patterns of a code -/

/-- Where the patterns of code `m` of `k` bits begin among the ones of `g` bits. -/
def codeStart (count : Nat → Nat) (g k m : Nat) : Nat := (firstCode count k + m) * 2 ^ (g - k)

/-- A later code starts later, -/
theorem codeStart_mono {m m' : Nat} (le : m ≤ m') :
    codeStart count g k m ≤ codeStart count g k m' :=
  Nat.mul_le_mul_right _ (Nat.add_le_add_left le _)

/-- by the numbers that start with the code. -/
theorem codeStart_succ (m : Nat) :
    codeStart count g k (m + 1) = codeStart count g k m + 2 ^ (g - k) := by
  simp only [codeStart]
  ring

/-- The codes of a length are followed by the ones of the next length. -/
theorem codeStart_next (some_ : 0 < k) (below : k < g) :
    codeStart count g (k + 1) 0 = codeStart count g k (count k) := by
  have twice : 2 ^ (g - k) = 2 * 2 ^ (g - (k + 1)) := by
    rw [← Nat.pow_succ']
    congr 1
    omega
  rw [codeStart, codeStart, firstCode_succ some_, twice]
  ring

/-- Shorter codes end before longer ones start, -/
theorem codeStart_shorter {k' : Nat} (some_ : 0 < k') (shorter : k' < k) (le : k ≤ g) :
    codeStart count g k' (count k') ≤ codeStart count g k 0 := by
  induction k with
  | zero => exact absurd shorter (Nat.not_lt_zero _)
  | succ k ih =>
      rcases Nat.eq_or_lt_of_le (Nat.le_of_lt_succ shorter) with rfl | lt
      · exact (codeStart_next some_ (by omega)).ge
      · rw [codeStart_next (by omega) (by omega)]
        exact (ih lt (by omega)).trans (codeStart_mono (Nat.zero_le _))

/-- The patterns before the end of a length. -/
theorem codeStart_eq_sum (le : k ≤ g) (some_ : 0 < k) :
    codeStart count g k (count k) = ∑ j ∈ Finset.Ico 1 (k + 1), count j * 2 ^ (g - j) := by
  induction k with
  | zero => exact absurd some_ (Nat.lt_irrefl 0)
  | succ k ih =>
      have moved : codeStart count g (k + 1) (count (k + 1)) =
          codeStart count g (k + 1) 0 + count (k + 1) * 2 ^ (g - (k + 1)) := by
        simp only [codeStart]
        ring
      rw [Finset.sum_Ico_succ_top (Nat.succ_le_succ (Nat.zero_le _)), moved]
      rcases Nat.eq_zero_or_pos k with rfl | positive
      · simp [codeStart, firstCode]
      · rw [codeStart_next positive le, ih (by omega) positive]

/-- All of them together. -/
theorem codeStart_eq_kraftSum {max : Nat} {lens : List Nat} (bounded : ∀ k ∈ lens, k ≤ max)
    (some_ : 0 < max) :
    codeStart (fun k => lens.count k) max max (lens.count max) = kraftSum max lens := by
  rw [@codeStart_eq_sum (fun k => lens.count k) max max (Nat.le_refl max) some_]
  induction lens with
  | nil => simp [kraftSum]
  | cons k lens ih =>
      have sum : kraftSum max (k :: lens) =
          (if k = 0 then 0 else 2 ^ (max - k)) + kraftSum max lens := rfl
      have single : ∑ j ∈ Finset.Ico 1 (max + 1), (if k = j then 1 else 0) * 2 ^ (max - j) =
          if k = 0 then 0 else 2 ^ (max - k) := by
        have le := bounded k (List.mem_cons_self ..)
        simp only [ite_mul, one_mul, zero_mul, Finset.sum_ite_eq, Finset.mem_Ico]
        rcases Nat.eq_zero_or_pos k with rfl | positive
        · simp
        · rw [if_pos ⟨positive, Nat.lt_succ_of_le le⟩, if_neg positive.ne']
      rw [sum, ← ih fun k member => bounded k (List.mem_cons_of_mem _ member), ← single,
        ← Finset.sum_add_distrib]
      refine Finset.sum_congr rfl fun j _ => ?_
      rw [List.count_cons, ← Nat.add_mul, Nat.add_comm]
      simp

/-- A code that comes earlier. -/
def Earlier (k' m' k m : Nat) : Prop := k' < k ∨ (k' = k ∧ m' < m)

/-- and so does every earlier code. -/
theorem codeStart_earlier {k' m' m : Nat} (some_ : 0 < k') (le : k ≤ g) (isCode : m' < count k')
    (earlier : Earlier k' m' k m) : codeStart count g k' (m' + 1) ≤ codeStart count g k m := by
  rcases earlier with shorter | ⟨rfl, lt⟩
  · calc codeStart count g k' (m' + 1) ≤ codeStart count g k' (count k') := codeStart_mono isCode
      _ ≤ codeStart count g k 0 := codeStart_shorter some_ shorter le
      _ ≤ codeStart count g k m := codeStart_mono (Nat.zero_le m)
  · exact codeStart_mono lt

/-- The patterns that start with a code. -/
theorem codeStart_le_reversed {m b : Nat} (le : k ≤ g)
    (starts : reversed k b = firstCode count k + m) :
    codeStart count g k m ≤ reversed g b ∧ reversed g b < codeStart count g k (m + 1) := by
  obtain ⟨rest, rfl⟩ := Nat.exists_eq_add_of_le le
  have high := reversed_div k rest b
  have below := Nat.div_mul_le_self (reversed (k + rest) b) (2 ^ rest)
  have above := Nat.lt_div_mul_add (Nat.two_pow_pos rest) (a := reversed (k + rest) b)
  rw [high, starts] at below above
  rw [codeStart_succ, codeStart, Nat.add_sub_cancel_left]
  exact ⟨below, above⟩

/-! ## Complete codes -/

/-- The codes use up all patterns, and some of them have the full length. -/
structure Complete (count : Nat → Nat) (g : Nat) : Prop where
  longest : 0 < count g
  some_ : 0 < g
  full : firstCode count g + count g = 2 ^ g

namespace Complete

variable (complete : Complete count g)

include complete

/-- A full set of codes ends with the last number, -/
theorem codeStart_full : codeStart count g g (count g) = 2 ^ g := by
  simp [codeStart, complete.full]

/-- so every code starts before. -/
theorem codeStart_lt (some_ : 0 < k) (le : k ≤ g) {m : Nat} (isCode : m < count k) :
    codeStart count g k m < 2 ^ g := by
  have before : codeStart count g k (m + 1) ≤ codeStart count g g (count g) := by
    rcases Nat.eq_or_lt_of_le le with rfl | lt
    · exact codeStart_mono isCode
    · exact codeStart_earlier some_ (Nat.le_refl g) isCode (.inl lt)
  rw [complete.codeStart_full, codeStart_succ] at before
  exact (Nat.lt_add_of_pos_right (Nat.two_pow_pos _)).trans_le before

/-- Before the full length there are more codes. -/
theorem firstCode_add_lt (some_ : 0 < k) (lt : k < g) : firstCode count k + count k < 2 ^ k := by
  have before := (codeStart_shorter some_ lt (Nat.le_refl g)).trans_lt
    (complete.codeStart_lt complete.some_ (Nat.le_refl g) complete.longest)
  have split : 2 ^ g = 2 ^ k * 2 ^ (g - k) := by
    rw [← Nat.pow_add]
    congr 1
    omega
  rw [codeStart, split] at before
  exact Nat.lt_of_mul_lt_mul_right before

/-- So many codes are needed for what is left. -/
theorem left_le (some_ : 0 < k) (le : k ≤ g) :
    2 ^ g ≤ codeStart count g k 0 + (∑ j ∈ Finset.Ico k (g + 1), count j) * 2 ^ (g - k) := by
  induction le using Nat.decreasingInduction with
  | self =>
      have full := complete.codeStart_full
      simp only [codeStart, Nat.sub_self, pow_zero, Nat.mul_one] at full ⊢
      simp [full.ge]
  | of_succ k lt ih =>
      have half : 2 ^ (g - (k + 1)) ≤ 2 ^ (g - k) := Nat.pow_le_pow_right (by decide) (by omega)
      have next := ih (Nat.succ_pos k)
      rw [codeStart_next some_ lt] at next
      have moved : codeStart count g k (count k) = codeStart count g k 0 + count k * 2 ^ (g - k) := by
        simp only [codeStart]
        ring
      rw [Finset.sum_eq_sum_Ico_succ_bot (by omega), Nat.add_mul]
      calc 2 ^ g ≤ codeStart count g k (count k) +
            (∑ j ∈ Finset.Ico (k + 1) (g + 1), count j) * 2 ^ (g - (k + 1)) := next
        _ ≤ codeStart count g k (count k) +
            (∑ j ∈ Finset.Ico (k + 1) (g + 1), count j) * 2 ^ (g - k) := by gcongr
        _ = _ := by rw [moved]; ring

end Complete

end GrubLegacy.Base
