import GrubLegacy.Base.ByteArea
import GrubLegacy.Fsys.PathNames

/-!
# Comparing strings without case

`grub_strncasecmp` of `char_io.c` clears one bit of each character. That is right for
letters, but it also makes a blank look like the end, and an at sign like a backquote.
-/

namespace GrubLegacy.Stage2

open Base

/-! ## The function -/

/-- `c & ~0x20`, for a `char` with a sign. -/
def foldCase (c : UInt8) : Int :=
  let folded := (c &&& 0xDF).toNat
  if folded < 0x80 then folded else folded - 0x100

/-- The result of a comparison, and how many characters of each string were read. -/
structure CaseCompared where
  value : Int
  reads : Nat
deriving DecidableEq, Repr

/-- `c0 > c1 ? 1 : c0 < c1 ? -1 : 0` -/
def signOf (c0 c1 : Int) : Int := if c0 > c1 then 1 else if c0 < c1 then -1 else 0

/-- The loop, from a position on, with one more than `n` characters left. -/
def strncasecmpLoop (memory : Area) (s0 s1 : Nat) : (n i : Nat) → CaseCompared
  | 0, i => ⟨signOf (foldCase (memory (s0 + i))) (foldCase (memory (s1 + i))), i + 1⟩
  | n + 1, i =>
    let c0 := foldCase (memory (s0 + i))
    let c1 := foldCase (memory (s1 + i))
    if c0 ≠ 0 ∧ c0 = c1 then strncasecmpLoop memory s0 s1 n (i + 1)
    else ⟨signOf c0 c1, i + 1⟩

/-- `grub_strncasecmp` -/
def grubStrncasecmp (memory : Area) (s0 s1 n : Nat) : CaseCompared :=
  if s0 = s1 ∨ n = 0 then ⟨0, 0⟩ else strncasecmpLoop memory s0 s1 (n - 1) 0

/-! ## Folding -/

/-- Folding the case does not see the case. -/
theorem foldCase_tolower (c : UInt8) : foldCase (Fsys.tolower c) = foldCase c := by
  obtain ⟨⟨c⟩⟩ := c
  revert c
  decide +kernel

/-- Equal letters of either case are folded to one code. -/
theorem foldCase_of_tolower {c d : UInt8} (same : Fsys.tolower c = Fsys.tolower d) :
    foldCase c = foldCase d := by
  rw [← foldCase_tolower c, same, foldCase_tolower]

/-- A NUL is folded to itself. -/
@[simp] theorem foldCase_nul : foldCase 0 = 0 := rfl

/-- What is folded to zero is a NUL or a blank. -/
theorem foldCase_eq_zero {c : UInt8} : foldCase c = 0 ↔ c = 0 ∨ c = 0x20 := by
  obtain ⟨⟨c⟩⟩ := c
  revert c
  decide +kernel

/-- The sign is zero just for equal characters, -/
theorem signOf_eq_zero {c0 c1 : Int} : signOf c0 c1 = 0 ↔ c0 = c1 := by
  rw [signOf]
  split_ifs
  · simp only [one_ne_zero, false_iff]
    omega
  · rw [false_iff]
    omega
  · simp only [true_iff]
    omega

/-- and the other one for swapped ones. -/
theorem signOf_swap (c0 c1 : Int) : signOf c1 c0 = -signOf c0 c1 := by
  rw [signOf, signOf]
  split_ifs <;> omega

/-! ## The loop -/

section Loop

variable {memory : Area} {s0 s1 n i : Nat}

/-- At a position the two strings are folded to different codes, and up to it they are
folded to the same codes, none of them zero. -/
structure FoldsApart (memory : Area) (s0 s1 first n : Nat) (place : Nat) : Prop where
  behind : first ≤ place
  inside : place < first + n
  before : ∀ i, first ≤ i → i < place →
    foldCase (memory (s0 + i)) ≠ 0 ∧ foldCase (memory (s0 + i)) = foldCase (memory (s1 + i))
  apart : foldCase (memory (s0 + place)) ≠ foldCase (memory (s1 + place))

/-- The strings differ where they differ at once. -/
theorem foldsApart_here (apart : foldCase (memory (s0 + i)) ≠ foldCase (memory (s1 + i))) :
    FoldsApart memory s0 s1 i (n + 1) i :=
  ⟨le_rfl, by omega, fun j later earlier => by omega, apart⟩

/-- Where they agree at once they differ further on. -/
theorem foldsApart_succ (here : foldCase (memory (s0 + i)) ≠ 0)
    (same : foldCase (memory (s0 + i)) = foldCase (memory (s1 + i))) {place : Nat} :
    FoldsApart memory s0 s1 i (n + 1) place ↔ FoldsApart memory s0 s1 (i + 1) n place := by
  constructor
  · rintro ⟨behind, inside, before, apart⟩
    have other : place ≠ i := by
      rintro rfl
      exact apart same
    exact ⟨by omega, by omega, fun j later earlier => before j (by omega) earlier, apart⟩
  · rintro ⟨behind, inside, before, apart⟩
    refine ⟨by omega, by omega, ?_, apart⟩
    intro j later earlier
    rcases later.lt_or_eq with later | rfl
    · exact before j later earlier
    · exact ⟨here, same⟩

/-- The loop finds a difference where there is one. -/
theorem strncasecmpLoop_ne_zero :
    (strncasecmpLoop memory s0 s1 n i).value ≠ 0 ↔
      ∃ place, FoldsApart memory s0 s1 i (n + 1) place := by
  induction n generalizing i with
  | zero =>
      rw [strncasecmpLoop, Ne, signOf_eq_zero]
      constructor
      · exact fun apart => ⟨i, foldsApart_here apart⟩
      · rintro ⟨place, behind, inside, _, apart⟩
        obtain rfl : place = i := by omega
        exact apart
  | succ n ih =>
      rw [strncasecmpLoop]
      split
      · next goesOn =>
          rw [ih]
          simp only [foldsApart_succ goesOn.1 goesOn.2]
      · next stops =>
          rw [Ne, signOf_eq_zero]
          constructor
          · exact fun apart => ⟨i, foldsApart_here apart⟩
          · rintro ⟨place, behind, _, before, apart⟩
            rcases behind.lt_or_eq with later | rfl
            · exact absurd (before i le_rfl later) stops
            · exact apart

/-- What it read before the last character is no NUL. -/
theorem strncasecmpLoop_reads {j : Nat} (later : i ≤ j)
    (read : j + 1 < (strncasecmpLoop memory s0 s1 n i).reads) :
    memory (s0 + j) ≠ 0 ∧ memory (s1 + j) ≠ 0 := by
  induction n generalizing i with
  | zero =>
      rw [strncasecmpLoop] at read
      dsimp only at read
      omega
  | succ n ih =>
      rw [strncasecmpLoop] at read
      split at read
      · next goesOn =>
          rcases later.lt_or_eq with later | rfl
          · exact ih later read
          · obtain ⟨some_, same⟩ := goesOn
            refine ⟨?_, ?_⟩
            · intro nul
              exact some_ (by rw [nul, foldCase_nul])
            · intro nul
              exact some_ (by rw [same, nul, foldCase_nul])
      · dsimp only at read
        omega

/-- The loop gives the other sign for swapped strings. -/
theorem strncasecmpLoop_swap :
    (strncasecmpLoop memory s1 s0 n i).value = -(strncasecmpLoop memory s0 s1 n i).value := by
  induction n generalizing i with
  | zero =>
      rw [strncasecmpLoop, strncasecmpLoop]
      exact signOf_swap _ _
  | succ n ih =>
      rw [strncasecmpLoop, strncasecmpLoop]
      by_cases same : foldCase (memory (s0 + i)) = foldCase (memory (s1 + i))
      · simp only [same, and_true]
        split
        · exact ih
        · exact signOf_swap _ _
      · rw [if_neg (fun both => same both.2.symm), if_neg (fun both => same both.2)]
        exact signOf_swap _ _

end Loop

/-! ## What a comparison should say -/

/-- The first `n` characters, or all up to the first NUL, are equal up to the case of
letters. -/
def EqualUpToCase (memory : Area) (s0 s1 n : Nat) : Prop :=
  ∀ i < n, (∀ j < i, memory (s0 + j) ≠ 0 ∧ memory (s1 + j) ≠ 0) →
    Fsys.tolower (memory (s0 + i)) = Fsys.tolower (memory (s1 + i))

/-- The comparison is zero for equal strings and no others, reads nothing behind a NUL, and
changes its sign with the order of the strings. -/
structure ComparesCaseless (memory : Area) (s0 s1 n : Nat) : Prop where
  zero_iff : (grubStrncasecmp memory s0 s1 n).value = 0 ↔ EqualUpToCase memory s0 s1 n
  reads : ∀ i < (grubStrncasecmp memory s0 s1 n).reads, ∀ j < i,
    memory (s0 + j) ≠ 0 ∧ memory (s1 + j) ≠ 0
  swaps : (grubStrncasecmp memory s1 s0 n).value = -(grubStrncasecmp memory s0 s1 n).value

/-- Two characters differ in one bit at most, and the first is no blank and no NUL. -/
structure Goes (c d : UInt8) : Prop where
  visible : c ≠ 0 ∧ c ≠ 0x20
  close : foldCase c = foldCase d

/-- There is a character in which the strings differ by more than that bit, and none before
it that ends the comparison. -/
def ToldApart (memory : Area) (s0 s1 n : Nat) : Prop :=
  ∃ place < n, (∀ i < place, Goes (memory (s0 + i)) (memory (s1 + i))) ∧
    foldCase (memory (s0 + place)) ≠ foldCase (memory (s1 + place))

section Claims

variable {memory : Area} {s0 s1 n : Nat}

/-- Two strings compare as different just when they are told apart. -/
theorem grubStrncasecmp_ne_zero (other : s0 ≠ s1) :
    (grubStrncasecmp memory s0 s1 n).value ≠ 0 ↔ ToldApart memory s0 s1 n := by
  cases n with
  | zero => simp [grubStrncasecmp, ToldApart]
  | succ n =>
      rw [grubStrncasecmp, if_neg (by simp [other]), Nat.add_sub_cancel, strncasecmpLoop_ne_zero]
      refine exists_congr fun place => ?_
      constructor
      · rintro ⟨_, inside, before, apart⟩
        refine ⟨by omega, ?_, apart⟩
        intro i earlier
        obtain ⟨some_, same⟩ := before i (Nat.zero_le i) earlier
        exact ⟨not_or.mp (mt foldCase_eq_zero.mpr some_), same⟩
      · rintro ⟨inside, before, apart⟩
        refine ⟨Nat.zero_le _, by omega, ?_, apart⟩
        intro i _ earlier
        obtain ⟨visible, close⟩ := before i earlier
        exact ⟨mt foldCase_eq_zero.mp (not_or.mpr visible), close⟩

/-- Strings that are told apart are different. -/
theorem ToldApart.not_equal (told : ToldApart memory s0 s1 n) :
    ¬ EqualUpToCase memory s0 s1 n := by
  obtain ⟨place, inside, before, apart⟩ := told
  intro equal
  refine apart (foldCase_of_tolower (equal place inside ?_))
  intro j earlier
  obtain ⟨visible, close⟩ := before j earlier
  refine ⟨visible.1, ?_⟩
  intro nul
  rw [nul, foldCase_nul, foldCase_eq_zero] at close
  exact close.elim visible.1 visible.2

/-- A character is read only behind ones that are no NUL. -/
theorem grubStrncasecmp_reads {i j : Nat} (read : i < (grubStrncasecmp memory s0 s1 n).reads)
    (earlier : j < i) : memory (s0 + j) ≠ 0 ∧ memory (s1 + j) ≠ 0 := by
  rw [grubStrncasecmp] at read
  split at read
  · exact absurd read (Nat.not_lt_zero i)
  · exact @strncasecmpLoop_reads memory s0 s1 (n - 1) 0 j (Nat.zero_le j) (by omega)

/-- Swapped strings compare the other way. -/
theorem grubStrncasecmp_swap :
    (grubStrncasecmp memory s1 s0 n).value = -(grubStrncasecmp memory s0 s1 n).value := by
  rw [grubStrncasecmp, grubStrncasecmp]
  by_cases none : s0 = s1 ∨ n = 0
  · rw [if_pos none, if_pos (none.imp_left Eq.symm)]
    rfl
  · rw [if_neg none, if_neg (mt (Or.imp_left Eq.symm) none)]
    exact strncasecmpLoop_swap

/-- The comparison is right about equal strings and those that it tells apart. -/
theorem comparesCaseless_iff (memory : Area) (s0 s1 n : Nat) :
    ComparesCaseless memory s0 s1 n ↔
      EqualUpToCase memory s0 s1 n ∨ ToldApart memory s0 s1 n := by
  by_cases same : s0 = s1
  · subst same
    have equal : EqualUpToCase memory s0 s0 n := fun _ _ _ => rfl
    refine iff_of_true ⟨?_, fun i read j => grubStrncasecmp_reads read, grubStrncasecmp_swap⟩
      (.inl equal)
    rw [grubStrncasecmp, if_pos (.inl rfl)]
    exact iff_of_true rfl equal
  · have zero_iff : (grubStrncasecmp memory s0 s1 n).value = 0 ↔ ¬ ToldApart memory s0 s1 n := by
      rw [← grubStrncasecmp_ne_zero same, not_not]
    constructor
    · intro compares
      rw [← compares.zero_iff, zero_iff]
      exact em' _
    · intro decided
      refine ⟨?_, fun i read j => grubStrncasecmp_reads read, grubStrncasecmp_swap⟩
      rw [zero_iff]
      constructor
      · exact fun close => decided.resolve_right close
      · exact fun equal told => told.not_equal equal

/-- An at sign and a backquote. -/
theorem atSign_backquote :
    ¬ ∀ (memory : Area) (s0 s1 n : Nat), EndsWithin memory s0 n → EndsWithin memory s1 n →
      ComparesCaseless memory s0 s1 n := by
  intro compares
  have wrong := compares (areaOf [0x40, 0, 0x60, 0]) 0 2 2 ⟨1, by omega, rfl⟩ ⟨1, by omega, rfl⟩
  have equal := wrong.zero_iff.mp (by decide) 0 (by omega) (fun j none => absurd none (by omega))
  exact absurd equal (by decide)

end Claims

end GrubLegacy.Stage2
