import Mathlib

/-!
# The highest of several offers

A search goes through a list of items, each of which may offer a range of one fixed
size by the end of it. What is kept is the start of a range, and an end above this
start takes its place. Over disjoint ranges this ends at the highest of them.
-/

namespace GrubLegacy.Base

variable {α : Type*} {size start : Nat} {offer : α → Option Nat} {items : List α} {item : α}

/-- The start that is kept after one more item. -/
def keepHighest (size : Nat) (offer : α → Option Nat) (start : Nat) (item : α) : Nat :=
  match offer item with
  | none => start
  | some top => if start < top then top - size else start

/-- The start is the one of an offer, or still 0, and no offer ends higher. -/
structure HighestOf (size : Nat) (offer : α → Option Nat) (items : List α) (start : Nat) :
    Prop where
  offered : start = 0 ∨ ∃ item ∈ items, offer item = some (start + size)
  highest : ∀ item ∈ items, ∀ top, offer item = some top → top ≤ start + size

/-- The ranges two items offer have no number in common. -/
def OffersApart (size : Nat) (offer : α → Option Nat) (item item' : α) : Prop :=
  ∀ top top', offer item = some top → offer item' = some top' →
    Disjoint (Set.Ico (top - size) top) (Set.Ico (top' - size) top')

/-- Without regions nothing fits. -/
theorem HighestOf.nil : HighestOf size offer [] 0 where
  offered := .inl rfl
  highest := by simp

/-- A range that ends above the start of another one apart from it lies above it. -/
theorem le_of_apart {top : Nat} (fits : size ≤ top) (above : start < top)
    (apart : Disjoint (Set.Ico start (start + size)) (Set.Ico (top - size) top)) :
    start + size ≤ top := by
  by_contra! below
  have inFirst : top - 1 ∈ Set.Ico start (start + size) := by
    constructor
    · omega
    · omega
  have inSecond : top - 1 ∈ Set.Ico (top - size) top := by
    constructor
    · omega
    · omega
  exact Set.disjoint_left.mp apart inFirst inSecond

/-- One item more keeps what the search is after. -/
theorem HighestOf.step (kept : HighestOf size offer items start)
    (fits : ∀ top, offer item = some top → size ≤ top)
    (apart : ∀ earlier ∈ items, OffersApart size offer earlier item) :
    HighestOf size offer (items ++ [item]) (keepHighest size offer start item) := by
  cases offers : offer item with
  | none =>
      rw [keepHighest, offers]
      constructor
      · refine kept.offered.imp_right ?_
        rintro ⟨earlier, listed, offered⟩
        exact ⟨earlier, List.mem_append_left _ listed, offered⟩
      · intro other listed top offered
        rcases List.mem_append.mp listed with earlier | last
        · exact kept.highest other earlier top offered
        · rw [List.mem_singleton.mp last, offers] at offered
          cases offered
  | some top =>
      have roomy := fits top offers
      rw [keepHighest, offers]
      dsimp only
      by_cases above : start < top
      · rw [if_pos above]
        have lower : start + size ≤ top := by
          rcases kept.offered with rfl | ⟨earlier, listed, offered⟩
          · simpa using roomy
          · have clear := apart earlier listed _ _ offered offers
            rw [Nat.add_sub_cancel] at clear
            exact le_of_apart roomy above clear
        constructor
        · exact .inr ⟨item, by simp, by rw [Nat.sub_add_cancel roomy, offers]⟩
        · intro other listed top' offered
          rw [Nat.sub_add_cancel roomy]
          rcases List.mem_append.mp listed with earlier | last
          · exact (kept.highest other earlier top' offered).trans lower
          · rw [List.mem_singleton.mp last, offers] at offered
            exact (Option.some.inj offered).ge
      · rw [if_neg above]
        constructor
        · refine kept.offered.imp_right ?_
          rintro ⟨earlier, listed, offered⟩
          exact ⟨earlier, List.mem_append_left _ listed, offered⟩
        · intro other listed top' offered
          rcases List.mem_append.mp listed with earlier | last
          · exact kept.highest other earlier top' offered
          · rw [List.mem_singleton.mp last, offers] at offered
            obtain rfl := Option.some.inj offered
            omega

/-- The whole search ends at the highest offer. -/
theorem highestOf_foldl (fits : ∀ item ∈ items, ∀ top, offer item = some top → size ≤ top)
    (apart : items.Pairwise (OffersApart size offer)) :
    HighestOf size offer items (items.foldl (keepHighest size offer) 0) := by
  induction items using List.reverseRecOn with
  | nil => exact .nil
  | append_singleton items item ih =>
      obtain ⟨apart, -, crossed⟩ := List.pairwise_append.mp apart
      rw [List.foldl_append]
      refine HighestOf.step (ih ?_ apart) ?_ ?_
      · exact fun earlier listed => fits earlier (List.mem_append_left _ listed)
      · exact fits item (by simp)
      · exact fun earlier listed => crossed earlier listed item (by simp)

end GrubLegacy.Base
