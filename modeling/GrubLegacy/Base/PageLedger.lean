import Mathlib

/-!
# A ledger of pages

Ranges of pages, and a list of the ranges that are given out, each to an owner. What is
given back may be one of them, or else it is cut out of those it touches.
-/

namespace GrubLegacy.Base

/-- A range of pages of 0x1000 bytes: where it starts, and how many there are. -/
structure PageRange where
  start : Nat
  pages : Nat
deriving DecidableEq, Repr

/-- Where a range ends. -/
def PageRange.stop (range : PageRange) : Nat := range.start + range.pages * 0x1000

/-- No byte lies in both. -/
def PageRange.Apart (left right : PageRange) : Prop :=
  left.stop ≤ right.start ∨ right.stop ≤ left.start

instance (left right : PageRange) : Decidable (left.Apart right) :=
  inferInstanceAs (Decidable (_ ∨ _))

/-- What is left of a range when some pages are given back. -/
def PageRange.without (range freed : PageRange) : List PageRange :=
  if range.Apart freed then [range]
  else
    (if range.start < freed.start then [⟨range.start, (freed.start - range.start) / 0x1000⟩]
      else []) ++
    if freed.stop < range.stop then [⟨freed.stop, (range.stop - freed.stop) / 0x1000⟩] else []

section Ranges

variable {range other freed piece : PageRange}

/-- Being apart is symmetric. -/
theorem PageRange.Apart.symm (apart : range.Apart other) : other.Apart range := Or.symm apart

/-- What is left lies within the range. -/
theorem within_of_mem_without (member : piece ∈ range.without freed) :
    range.start ≤ piece.start ∧ piece.stop ≤ range.stop := by
  rw [PageRange.without] at member
  split at member
  · rw [List.mem_singleton.mp member]
    exact ⟨Nat.le_refl _, Nat.le_refl _⟩
  next touches =>
    simp only [PageRange.Apart, not_or, Nat.not_le] at touches
    rcases List.mem_append.mp member with below | above
    · split at below
      next before =>
        rw [List.mem_singleton.mp below]
        dsimp only [PageRange.stop] at touches ⊢
        omega
      · cases below
    · split at above
      next behind =>
        rw [List.mem_singleton.mp above]
        dsimp only [PageRange.stop] at touches behind ⊢
        omega
      · cases above

/-- A piece of a range is apart from what this is apart from. -/
theorem apart_of_within (within : range.start ≤ piece.start ∧ piece.stop ≤ range.stop)
    (apart : range.Apart other) : piece.Apart other := by
  rcases apart with before | behind
  · exact .inl (Nat.le_trans within.2 before)
  · exact .inr (Nat.le_trans behind within.1)

/-- The two parts that can be left do not overlap. -/
theorem apart_of_mem_without (first : piece ∈ range.without freed)
    (second : other ∈ range.without freed) (different : piece ≠ other) : piece.Apart other := by
  rw [PageRange.without] at first second
  split at first
  · rw [if_pos ‹_›] at second
    exact absurd ((List.mem_singleton.mp first).trans (List.mem_singleton.mp second).symm) different
  next touches =>
    rw [if_neg touches] at second
    simp only [PageRange.Apart, PageRange.stop, not_or, Nat.not_le] at touches
    simp only [List.mem_append, List.mem_ite_nil_right, List.mem_singleton] at first second
    rcases first with ⟨before, rfl⟩ | ⟨behind, rfl⟩ <;>
      rcases second with ⟨before', rfl⟩ | ⟨behind', rfl⟩
    · exact absurd rfl different
    · left
      dsimp only [PageRange.stop]
      omega
    · right
      dsimp only [PageRange.stop]
      omega
    · exact absurd rfl different

/-- Giving back the first page leaves the others. -/
theorem without_first {start pages : Nat} :
    (⟨start, pages + 2⟩ : PageRange).without ⟨start, 1⟩ = [⟨start + 0x1000, pages + 1⟩] := by
  have touches : ¬ (⟨start, pages + 2⟩ : PageRange).Apart ⟨start, 1⟩ := by
    dsimp only [PageRange.Apart, PageRange.stop]
    omega
  have behind : (⟨start, 1⟩ : PageRange).stop < (⟨start, pages + 2⟩ : PageRange).stop := by
    dsimp only [PageRange.stop]
    omega
  have rest : (start + (pages + 2) * 0x1000 - (start + 1 * 0x1000)) / 0x1000 = pages + 1 := by omega
  rw [PageRange.without, if_neg touches, if_neg (Nat.lt_irrefl _), if_pos behind]
  dsimp only [PageRange.stop]
  rw [rest, Nat.one_mul]
  rfl

end Ranges

/-- Pages that were given out to an owner. -/
structure Holding (κ : Type) where
  owner : κ
  range : PageRange
deriving DecidableEq

/-- The ledger after some pages were given back. -/
def giveBack {κ : Type} [DecidableEq κ] (freed : Holding κ) (live : List (Holding κ)) :
    List (Holding κ) :=
  if freed ∈ live then live.filter (· ≠ freed)
  else live.flatMap fun held => (held.range.without freed.range).map (⟨held.owner, ·⟩)

/-- Ranges given out do not overlap. -/
def Exclusive {κ : Type} (live : List (Holding κ)) : Prop :=
  ∀ first ∈ live, ∀ second ∈ live, first ≠ second → first.range.Apart second.range

section Ledger

variable {κ : Type} [DecidableEq κ] {freed held : Holding κ} {live : List (Holding κ)}

/-- Giving back a range that was given out. -/
theorem mem_giveBack_live (isLive : freed ∈ live) :
    held ∈ giveBack freed live ↔ held ∈ live ∧ held ≠ freed := by
  rw [giveBack, if_pos isLive, List.mem_filter, decide_eq_true_eq]

/-- Giving back something else. -/
theorem mem_giveBack_cut (notLive : freed ∉ live) :
    held ∈ giveBack freed live ↔
      ∃ whole ∈ live, whole.owner = held.owner ∧ held.range ∈ whole.range.without freed.range := by
  rw [giveBack, if_neg notLive, List.mem_flatMap]
  constructor
  · rintro ⟨whole, member, piece⟩
    obtain ⟨range, left, rfl⟩ := List.mem_map.mp piece
    exact ⟨whole, member, rfl, left⟩
  · rintro ⟨whole, member, owner, left⟩
    refine ⟨whole, member, List.mem_map.mpr ⟨held.range, left, ?_⟩⟩
    rw [owner]

/-- A range that is apart from what is given back stays. -/
theorem mem_giveBack_of_apart (member : held ∈ live) (other : held ≠ freed)
    (apart : held.range.Apart freed.range) : held ∈ giveBack freed live := by
  by_cases isLive : freed ∈ live
  · exact (mem_giveBack_live isLive).mpr ⟨member, other⟩
  · refine (mem_giveBack_cut isLive).mpr ⟨held, member, rfl, ?_⟩
    rw [PageRange.without, if_pos apart]
    exact List.mem_singleton.mpr rfl

omit [DecidableEq κ] in
/-- A fresh range keeps the holdings exclusive, -/
theorem Exclusive.cons (exclusive : Exclusive live)
    (fresh : ∀ other ∈ live, other.range.Apart held.range) : Exclusive (held :: live) := by
  intro first isFirst second isSecond different
  rcases List.mem_cons.mp isFirst with firstNew | firstOld
  · rcases List.mem_cons.mp isSecond with secondNew | secondOld
    · exact absurd (firstNew.trans secondNew.symm) different
    · rw [firstNew]
      exact (fresh second secondOld).symm
  · rcases List.mem_cons.mp isSecond with secondNew | secondOld
    · rw [secondNew]
      exact fresh first firstOld
    · exact exclusive first firstOld second secondOld different

/-- and so does one that is given back. -/
theorem Exclusive.giveBack (exclusive : Exclusive live) : Exclusive (giveBack freed live) := by
  by_cases isLive : freed ∈ live
  · intro first isFirst second isSecond
    exact exclusive first ((mem_giveBack_live isLive).mp isFirst).1 second
      ((mem_giveBack_live isLive).mp isSecond).1
  · intro first isFirst second isSecond different
    obtain ⟨whole, given, owner, piece⟩ := (mem_giveBack_cut isLive).mp isFirst
    obtain ⟨whole', given', owner', piece'⟩ := (mem_giveBack_cut isLive).mp isSecond
    by_cases same : whole = whole'
    · subst same
      refine apart_of_mem_without piece piece' fun range => different ?_
      cases first
      cases second
      exact congrArg₂ _ (owner.symm.trans owner') range
    · have apart := exclusive whole given whole' given' same
      have first := apart_of_within (within_of_mem_without piece) apart
      exact (apart_of_within (within_of_mem_without piece') first.symm).symm

end Ledger

end GrubLegacy.Base
