import GrubLegacy.Base.CanonicalCodes
import GrubLegacy.Inflate.Huft
import Mathlib.Tactic.Linarith

/-!
# What the tables of a complete code find

The codes are placed in their order, so that the patterns of the codes that are placed are the ones
before the next code. An entry that is written is for patterns from there on only, so what was found
before is found after.
-/

namespace GrubLegacy.Inflate

open Base

/-! ## Finding an entry -/

/-- The entry that is found for the bits in `b`, lowest first, from a table that is looked up with
`bits` of them, and how many of them it uses. A link uses all the bits it is looked up with. -/
inductive Finds (tables : Tables) : (table bits b : Nat) → Huft → (used : Nat) → Prop
  | entry {table bits b : Nat} {r : Huft} (short : bits ≤ bmax)
      (isEntry : tables table (b % 2 ^ bits) = r) (final : r.e ≤ 16 ∨ r.e = 99) (uses : 0 < r.b)
      (le : r.b ≤ bits) : Finds tables table bits b r r.b
  | link {table bits b next more used : Nat} {r : Huft} (some_ : 0 < bits) (short : bits ≤ bmax)
      (isLink : tables table (b % 2 ^ bits) = { e := 16 + more, b := bits, v := next })
      (nextSome : 0 < more) (nextShort : more ≤ bmax)
      (found : Finds tables next more (b / 2 ^ bits) r used) :
      Finds tables table bits b r (bits + used)

/-- What is found uses a bit at least. -/
theorem Finds.uses {tables : Tables} {table bits b used : Nat} {r : Huft}
    (found : Finds tables table bits b r used) : 0 < used := by
  cases found with
  | entry _ _ _ uses => exact uses
  | link some_ => exact Nat.add_pos_left some_ _

/-- A code that is no longer than the bits that are looked up is in the first table. -/
theorem Finds.direct {tables : Tables} {table bits b used : Nat} {r : Huft}
    (found : Finds tables table bits b r used) (short : used ≤ bits) :
    tables table (b % 2 ^ bits) = r ∧ used = r.b := by
  cases found with
  | entry _ isEntry => exact ⟨isEntry, rfl⟩
  | link _ _ _ _ _ found =>
      have := found.uses
      omega

/-- What a table is for: the bits `x` that come before it, and the number of bits that it is looked
up with. -/
structure Label where
  w : Nat
  x : Nat
  bits : Nat

namespace Label

variable (label : Label)

/-- The bits come to the table. -/
def On (b : Nat) : Prop := b % 2 ^ label.w = label.x

/-- The place in it that is looked up. -/
def slot (b : Nat) : Nat := b / 2 ^ label.w % 2 ^ label.bits

end Label

/-- The way through the tables to an entry, and the bits before the last table. -/
inductive Walk (tables : Tables) (labels : Nat → Label) (allocated l : Nat) :
    (table b : Nat) → Huft → (w : Nat) → Prop
  | entry {table b : Nat} {r : Huft} (known : table < allocated) (on : (labels table).On b)
      (isEntry : tables table ((labels table).slot b) = r) (le : r.b ≤ (labels table).bits) :
      Walk tables labels allocated l table b r (labels table).w
  | link {table b next w : Nat} {r : Huft} (known : table < allocated) (on : (labels table).On b)
      (isLink : tables table ((labels table).slot b) =
        { e := 16 + (labels next).bits, b := l, v := next })
      (deeper : (labels next).w = (labels table).w + l) (full : (labels table).bits = l)
      (walk : Walk tables labels allocated l next b r w) :
      Walk tables labels allocated l table b r w

section Walks

variable {tables tables' : Tables} {labels labels' : Nat → Label} {allocated allocated' l : Nat}
  {table b w : Nat} {r : Huft}

/-- A walk starts in a table there is. -/
theorem Walk.known (walk : Walk tables labels allocated l table b r w) : table < allocated := by
  cases walk with
  | entry known => exact known
  | link known => exact known

/-- A way stays if the entries on it do. -/
theorem Walk.frame (walk : Walk tables labels allocated l table b r w)
    (more : allocated ≤ allocated') (same : ∀ t < allocated, labels' t = labels t)
    (kept : ∀ t < allocated, (labels t).On b →
      tables' t ((labels t).slot b) = tables t ((labels t).slot b)) :
    Walk tables' labels' allocated' l table b r w := by
  induction walk with
  | entry known on isEntry le =>
      rw [← same _ known]
      refine .entry (known.trans_le more) ?_ ?_ ?_
      · rwa [same _ known]
      · rw [same _ known, kept _ known on, isEntry]
      · rwa [same _ known]
  | link known on isLink deeper full walk ih =>
      refine .link (known.trans_le more) ?_ ?_ ?_ ?_ (ih kept)
      · rwa [same _ known]
      · rw [same _ known, same _ walk.known, kept _ known on, isLink]
      · rw [same _ known, same _ walk.known, deeper]
      · rw [same _ known, full]

/-- A walk finds its entry, with the bits it uses. -/
theorem Walk.finds (walk : Walk tables labels allocated l table b r w) (positive : 0 < l)
    (sizes : ∀ t < allocated, 0 < (labels t).bits ∧ (labels t).bits ≤ bmax)
    (final : r.e ≤ 16 ∨ r.e = 99) (uses : 0 < r.b) :
    (labels table).w ≤ w ∧
      Finds tables table (labels table).bits (b / 2 ^ (labels table).w) r
        (w - (labels table).w + r.b) := by
  induction walk with
  | entry known on isEntry le =>
      refine ⟨Nat.le_refl _, ?_⟩
      simpa using Finds.entry (sizes _ known).2 isEntry final uses le
  | @link table b next w r known on isLink deeper full walk ih =>
      obtain ⟨le, found⟩ := ih final uses
      refine ⟨by omega, ?_⟩
      have used : w - (labels table).w + r.b =
          (labels table).bits + (w - (labels next).w + r.b) := by omega
      rw [used]
      have link : tables table (b / 2 ^ (labels table).w % 2 ^ (labels table).bits) =
          { e := 16 + (labels next).bits, b := (labels table).bits, v := next } :=
        isLink.trans (by rw [full])
      refine .link (sizes _ known).1 (sizes _ known).2 link (sizes _ walk.known).1 (sizes _ walk.known).2 ?_
      rwa [Nat.div_div_eq_div_mul, ← Nat.pow_add, full, ← deeper]

end Walks

/-! ## Patterns -/

section Patterns

variable {count : Nat → Nat} {g k m w i b : Nat}

/-- A reversed number lies between those with its start. -/
theorem reversed_bounds (le : w ≤ g) (b : Nat) :
    reversed w b * 2 ^ (g - w) ≤ reversed g b ∧
      reversed g b < (reversed w b + 1) * 2 ^ (g - w) := by
  obtain ⟨rest, rfl⟩ := Nat.exists_eq_add_of_le le
  have below := Nat.div_mul_le_self (reversed (w + rest) b) (2 ^ rest)
  have above := Nat.lt_div_mul_add (Nat.two_pow_pos rest) (a := reversed (w + rest) b)
  rw [reversed_div] at below above
  rw [Nat.add_sub_cancel_left, Nat.add_mul, Nat.one_mul]
  exact ⟨below, above⟩

/-- A code with nothing but zeros from bit `w` on is the first one with its first `w` bits. -/
theorem codeStart_of_lt (le : w ≤ k) (le_g : k ≤ g) (small : i < 2 ^ w)
    (code : reversed k i = firstCode count k + m) :
    codeStart count g k m = reversed w i * 2 ^ (g - w) := by
  obtain ⟨rest, rfl⟩ := Nat.exists_eq_add_of_le le
  rw [codeStart, ← code, reversed_of_lt small, Nat.mul_assoc, ← Nat.pow_add]
  congr 2
  omega

/-- So its patterns and all others with these bits are not before it. -/
theorem codeStart_le_of_mod (le : w ≤ k) (le_g : k ≤ g) (small : i < 2 ^ w)
    (code : reversed k i = firstCode count k + m) (low : b % 2 ^ w = i) :
    codeStart count g k m ≤ reversed g b := by
  have same : reversed w b = reversed w i := by rw [← low, reversed_mod (Nat.le_refl w)]
  rw [codeStart_of_lt le le_g small code, ← same]
  exact (reversed_bounds (le.trans le_g) b).1

/-- The lower bits of a number, in two pieces. -/
theorem mod_pow_add (b w n : Nat) : b % 2 ^ (w + n) = b % 2 ^ w + 2 ^ w * (b / 2 ^ w % 2 ^ n) := by
  rw [Nat.pow_add, Nat.mod_mul]

/-- The bits from `w` to `k` of a pattern. -/
theorem mod_eq_of_parts (le : w ≤ k) (small : i < 2 ^ k) (low : b % 2 ^ w = i % 2 ^ w)
    (high : b / 2 ^ w % 2 ^ (k - w) = i / 2 ^ w) : b % 2 ^ k = i := by
  obtain ⟨rest, rfl⟩ := Nat.exists_eq_add_of_le le
  rw [Nat.add_sub_cancel_left] at high
  rw [mod_pow_add, low, high, Nat.mod_add_div]

end Patterns

/-! ## The size of a table -/

namespace CodeSet

/-- What the tables are made for: a complete code, of which `real` codes of each length have a value.
A table after the first one has no more than `l` bits if the lengths are at most twice that, or if
there are too few codes for more. -/
structure Sound (set : CodeSet) (real : Nat → Nat) : Prop where
  complete : Complete set.c set.g
  max : set.g ≤ bmax
  positive : 0 < set.l
  width : set.l ≤ set.g
  least : ∃ k, 0 < k ∧ k ≤ set.l ∧ 0 < set.c k
  fits : set.g ≤ 2 * set.l ∨ ∑ k ∈ Finset.Ico 1 (set.g + 1), set.c k < 2 ^ set.l
  shorter : ∀ k < set.g, real k = set.c k
  real_le : real set.g ≤ set.c set.g
  values : ∀ k m, 0 < k → k ≤ set.g → m < real k → valueOffset set.c k + m < set.n

variable {set : CodeSet} {real : Nat → Nat} {k m w : Nat}

/-- The loop stops where the table holds all codes, or at the largest size. -/
theorem growBits_spec {c : Nat → Nat} {g z fuel f xp j w stop : Nat} (at_ : xp = w + j)
    (some_ : 0 < xp) (below : j < z) (le : w + z ≤ g) (enough : z ≤ j + fuel)
    (isStop : stop = codeStart c g xp (c xp) + f * 2 ^ (g - xp)) :
    j < growBits c z fuel f xp j ∧ growBits c z fuel f xp j ≤ z ∧
      (growBits c z fuel f xp j = z ∨
        stop ≤ codeStart c g (w + growBits c z fuel f xp j) (c (w + growBits c z fuel f xp j))) := by
  induction fuel generalizing f xp j with
  | zero => omega
  | succ fuel ih =>
      rw [growBits]
      by_cases next : j + 1 < z
      · have twice : 2 ^ (g - xp) = 2 * 2 ^ (g - (xp + 1)) := by
          rw [← Nat.pow_succ']
          congr 1
          omega
        have after : codeStart c g (xp + 1) (c (xp + 1)) =
            codeStart c g xp (c xp) + c (xp + 1) * 2 ^ (g - (xp + 1)) := by
          rw [← codeStart_next some_ (by omega)]
          simp only [codeStart]
          ring
        rw [if_pos next]
        by_cases enough_ : 2 * f ≤ c (xp + 1)
        · have covered : f * 2 ^ (g - xp) ≤ c (xp + 1) * 2 ^ (g - (xp + 1)) := by
            rw [twice, ← Nat.mul_assoc, Nat.mul_comm f 2]
            exact Nat.mul_le_mul_right _ enough_
          rw [if_pos enough_]
          refine ⟨by omega, by omega, .inr ?_⟩
          rw [← Nat.add_assoc, ← at_, after, isStop]
          omega
        · have left : stop = codeStart c g (xp + 1) (c (xp + 1)) +
              (2 * f - c (xp + 1)) * 2 ^ (g - (xp + 1)) := by
            rw [after, isStop, twice, Nat.add_assoc, ← Nat.add_mul,
              Nat.add_sub_cancel' (Nat.le_of_not_le enough_)]
            ring
          rw [if_neg enough_]
          obtain ⟨lt, le_z, wide⟩ := @ih (2 * f - c (xp + 1)) (xp + 1) (j + 1) (by omega)
            (Nat.succ_pos xp) next (by omega) left
          exact ⟨by omega, le_z, wide⟩
      · rw [if_neg next]
        exact ⟨by omega, by omega, .inl (by omega)⟩

/-- A table whose codes begin with code `m` of `k` bits has enough bits for all of them. -/
theorem tableBits_spec (sound : Sound set real) (some_ : 0 < k) (le : k ≤ set.g)
    (isCode : m < set.c k) (lt : w < k)
    (inside : codeStart set.c set.g k m + 2 ^ (set.g - w) ≤ 2 ^ set.g) (le_l : k - w ≤ set.l)
    (room : set.c k - m < 2 ^ (k - w) → k - w < min (set.g - w) set.l) :
    k - w ≤ set.tableBits w k (set.c k - m - 1) ∧ set.tableBits w k (set.c k - m - 1) ≤ set.l ∧
      (set.tableBits w k (set.c k - m - 1) = set.l ∨
        codeStart set.c set.g k m + 2 ^ (set.g - w) ≤
          codeStart set.c set.g (w + set.tableBits w k (set.c k - m - 1))
            (set.c (w + set.tableBits w k (set.c k - m - 1)))) := by
  obtain ⟨rest, left⟩ := Nat.exists_eq_add_of_lt isCode
  have split : 2 ^ (set.g - w) = 2 ^ (k - w) * 2 ^ (set.g - k) := by
    rw [← Nat.pow_add]
    congr 1
    omega
  have a_succ : set.c k - m - 1 + 1 = set.c k - m := by omega
  have after : codeStart set.c set.g k (set.c k) =
      codeStart set.c set.g k m + (set.c k - m) * 2 ^ (set.g - k) := by
    have whole : set.c k - m + m = set.c k := by omega
    rw [codeStart, codeStart, ← Nat.add_mul, Nat.add_assoc, Nat.add_comm m, whole]
  rw [tableBits, a_succ]
  by_cases few : set.c k - m < 2 ^ (k - w)
  · have below := room few
    have isStop : codeStart set.c set.g k m + 2 ^ (set.g - w) =
        codeStart set.c set.g k (set.c k) + (2 ^ (k - w) - (set.c k - m)) * 2 ^ (set.g - k) := by
      rw [after, Nat.add_assoc, ← Nat.add_mul, Nat.add_sub_cancel' few.le, split]
    obtain ⟨lt_bits, le_z, wide⟩ := @growBits_spec set.c set.g (min (set.g - w) set.l)
      (min (set.g - w) set.l + 1) _ k (k - w) w _ (by omega) some_ below (by omega) (by omega) isStop
    simp only [if_pos few]
    refine ⟨lt_bits.le, le_z.trans (Nat.min_le_right _ _), ?_⟩
    rcases wide with isMax | wide
    · rcases Nat.le_total (set.g - w) set.l with short | long
      · refine .inr ?_
        rw [isMax, Nat.min_eq_left short, Nat.add_sub_cancel' (by omega : w ≤ set.g),
          sound.complete.codeStart_full]
        exact inside
      · exact .inl (by rw [isMax, Nat.min_eq_right long])
    · exact .inr wide
  · simp only [if_neg few]
    refine ⟨Nat.le_refl _, le_l, .inr ?_⟩
    rw [Nat.add_sub_cancel' lt.le, after, split]
    have enough : 2 ^ (k - w) ≤ set.c k - m := Nat.le_of_not_lt few
    gcongr

/-- The first table has `l` bits, or more than are looked up. -/
theorem le_tableBits_root (sound : Sound set real) (some_ : 0 < k) (le : k ≤ set.l)
    (isCode : 0 < set.c k) (isFirst : firstCode set.c k = 0) :
    set.l ≤ set.tableBits 0 k (set.c k - 1) := by
  have width := sound.width
  have zero : codeStart set.c set.g k 0 = 0 := by simp [codeStart, isFirst]
  by_cases room : set.c k < 2 ^ k → k < set.l
  · obtain ⟨enough, -, wide⟩ := @tableBits_spec set real k 0 0 sound some_ (le.trans width) isCode
      some_ (by simp [zero]) le (by simpa [width] using room)
    simp only [Nat.sub_zero, zero, Nat.zero_add] at enough wide
    rcases wide with isMax | wide
    · exact isMax.ge
    · generalize set.tableBits 0 k (set.c k - 1) = bits at enough wide ⊢
      by_contra short
      have before := (codeStart_shorter (by omega : 0 < bits) (by omega : bits < set.g)
        (Nat.le_refl _)).trans_lt
          (sound.complete.codeStart_lt sound.complete.some_ (Nat.le_refl _) sound.complete.longest)
      omega
  · push Not at room
    obtain ⟨few, long⟩ := room
    obtain rfl : k = set.l := by omega
    have more : ¬ set.l + 1 < min set.g set.l := by omega
    have fewer : set.c set.l - 1 + 1 < 2 ^ set.l := by omega
    simp only [tableBits, Nat.sub_zero, if_pos fewer, growBits, if_neg more]
    omega

/-- The codes that begin at a table of a lower level have at most `l` bits after it, and a table of
`l` bits is only made where there are as many codes. -/
theorem Sound.room (sound : Sound set real) (some_ : 0 < k) (le : k ≤ set.g) (isCode : m < set.c k)
    (lt : w < k) (deep : set.l ≤ w)
    (inside : codeStart set.c set.g k m + 2 ^ (set.g - w) ≤ 2 ^ set.g) :
    k - w ≤ set.l ∧ (set.c k - m < 2 ^ (k - w) → k - w < min (set.g - w) set.l) := by
  -- With the full length there are codes for all patterns.
  have not_last : set.c k - m < 2 ^ (k - w) → k ≠ set.g := by
    rintro few rfl
    have full := sound.complete.full
    simp only [codeStart, Nat.sub_self, pow_zero, Nat.mul_one] at inside
    omega
  rcases sound.fits with short | few
  · exact ⟨by omega, fun less => by have := not_last less; omega⟩
  · have left := sound.complete.left_le some_ le
    have split : 2 ^ (set.g - w) = 2 ^ (k - w) * 2 ^ (set.g - k) := by
      rw [← Nat.pow_add]
      congr 1
      omega
    have begun : codeStart set.c set.g k 0 ≤ codeStart set.c set.g k m :=
      codeStart_mono (Nat.zero_le m)
    have fewer : ∑ j ∈ Finset.Ico k (set.g + 1), set.c j < 2 ^ set.l :=
      (Finset.sum_le_sum_of_subset (Finset.Ico_subset_Ico_left some_)).trans_lt few
    have patterns : 2 ^ (k - w) * 2 ^ (set.g - k) ≤
        (∑ j ∈ Finset.Ico k (set.g + 1), set.c j) * 2 ^ (set.g - k) := by omega
    have codes := Nat.le_of_mul_le_mul_right patterns (Nat.two_pow_pos _)
    have less : k - w < set.l :=
      (Nat.pow_lt_pow_iff_right (by decide : 1 < 2)).mp (codes.trans_lt fewer)
    exact ⟨less.le, fun less => by have := not_last less; omega⟩

end CodeSet

end GrubLegacy.Inflate
