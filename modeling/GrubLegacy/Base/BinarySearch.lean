import Mathlib

/-!
# Searching a table for the last key up to a bound

The search keeps a range of candidates, between a part of the table whose keys are up
to the bound and a part whose keys are above it. The first key of the table is
taken without a look at it, so on a table whose keys are all above the bound the
search ends there.
-/

namespace GrubLegacy.Base

universe u

variable {Key : Type u} [LinearOrder Key]

/-- The last key up to `bound` among the first `count`, or the first of them. -/
structure LastUpTo (key : Nat → Key) (count : Nat) (bound : Key) (i : Nat) : Prop where
  inside : i = 0 ∨ i < count
  upTo : 0 < i → key i ≤ bound
  above : ∀ j, i < j → j < count → bound < key j

/-- There is only one. -/
theorem LastUpTo.unique {key : Nat → Key} {count : Nat} {bound : Key} {i j : Nat}
    (left : LastUpTo key count bound i) (right : LastUpTo key count bound j) : i = j := by
  rcases Nat.lt_trichotomy i j with before | same | after
  · have inside := right.inside.resolve_left (Nat.ne_zero_of_lt before)
    exact absurd (right.upTo (Nat.zero_lt_of_lt before)) (not_le.mpr (left.above j before inside))
  · exact same
  · have inside := left.inside.resolve_left (Nat.ne_zero_of_lt after)
    exact absurd (left.upTo (Nat.zero_lt_of_lt after)) (not_le.mpr (right.above i after inside))

/-- The search with the candidates from `l` to `r` left, for at most that many rounds. -/
def searchLast (key : Nat → Key) (bound : Key) : (rounds : Nat) → (l r : Int) → Int
  | 0, l, _ => l - 1
  | rounds + 1, l, r =>
    if l ≤ r then
      let m := l + (r - l) / 2
      if bound < key m.toNat then searchLast key bound rounds l (m - 1)
      else searchLast key bound rounds (m + 1) r
    else l - 1

/-- The keys do not decrease. -/
def Ascending (key : Nat → Key) (count : Nat) : Prop :=
  ∀ i j, i ≤ j → j < count → key i ≤ key j

/-- What holds of the candidates from `l` to `r`. -/
structure Candidates (key : Nat → Key) (count : Nat) (bound : Key) (l r : Int) : Prop where
  low : 1 ≤ l
  high : r < count
  adjoin : l ≤ r + 1 ∨ l = 1
  upTo : ∀ j : Nat, 0 < j → j < l → key j ≤ bound
  above : ∀ j : Nat, r < j → j < count → bound < key j

/-- The search begins with all keys but the first. -/
theorem candidates_all (key : Nat → Key) (count : Nat) (bound : Key) :
    Candidates key count bound 1 (count - 1) where
  low := by omega
  high := by omega
  adjoin := .inr rfl
  upTo := by
    intro j positive small
    omega
  above := by
    intro j past inside
    omega

section Search

variable {key : Nat → Key} {count : Nat} {bound : Key} {l r : Int}

/-- Without candidates the key before them is the one. -/
theorem Candidates.lastUpTo (candidates : Candidates key count bound l r) (none : r < l) :
    ∃ i : Nat, l - 1 = i ∧ LastUpTo key count bound i := by
  obtain ⟨low, high, adjoin, upTo, above⟩ := candidates
  refine ⟨(l - 1).toNat, by omega, ?_, fun positive => ?_, fun j past inside => ?_⟩
  · omega
  · exact upTo _ positive (by omega)
  · exact above j (by omega) inside

/-- With enough rounds the search comes to the last key up to the bound. -/
theorem searchLast_lastUpTo (ascending : Ascending key count) {rounds : Nat}
    (enough : r < l + rounds) (candidates : Candidates key count bound l r) :
    ∃ i : Nat, searchLast key bound rounds l r = i ∧ LastUpTo key count bound i := by
  induction rounds generalizing l r with
  | zero => exact candidates.lastUpTo (by omega)
  | succ rounds inductionHypothesis =>
      rw [searchLast]
      by_cases some_ : l ≤ r
      · rw [if_pos some_]
        obtain ⟨low, high, adjoin, upTo, above⟩ := candidates
        dsimp only
        by_cases before : bound < key (l + (r - l) / 2).toNat
        · rw [if_pos before]
          refine inductionHypothesis (by omega) ⟨low, by omega, by omega, upTo, ?_⟩
          intro j past inside
          exact lt_of_lt_of_le before (ascending _ j (by omega) inside)
        · rw [if_neg before]
          refine inductionHypothesis (by omega) ⟨by omega, high, by omega, ?_, above⟩
          intro j positive small
          exact le_trans (ascending j _ (by omega) (by omega)) (not_lt.mp before)
      · rw [if_neg some_]
        exact candidates.lastUpTo (by omega)

end Search

end GrubLegacy.Base
