import Mathlib

/-!
# Three-way comparisons and ascending lists

A C comparison returns a negative number, zero or a positive one. `ComparesTo` says that such
a number is the order of two keys. A list that elements are inserted into by a comparison is
strictly ascending in their keys, and its keys are those of the elements, in whatever order
they come.
-/

namespace GrubLegacy.Base

universe u v w

section Comparisons

variable {Key : Type u} {Second : Type v} [LinearOrder Key] [LinearOrder Second]

/-- A comparison of two keys has this result. -/
def ComparesTo (result : Int) (first second : Key) : Prop :=
  (result < 0 ↔ first < second) ∧ (result = 0 ↔ first = second)

namespace ComparesTo

variable {result : Int} {first second : Key}

/-- The result is positive just when the second key is less. -/
theorem pos_iff (compares : ComparesTo result first second) : 0 < result ↔ second < first := by
  obtain ⟨below, equal⟩ := compares
  have total := lt_trichotomy first second
  constructor
  · intro positive
    rcases total with lower | same | higher
    · exact absurd (below.mpr lower) (by omega)
    · exact absurd (equal.mpr same) (by omega)
    · exact higher
  · intro higher
    have notBelow : ¬ result < 0 := fun negative => absurd (below.mp negative) higher.not_gt
    have notEqual : result ≠ 0 := fun zero => absurd (equal.mp zero) higher.ne'
    omega

/-- A key is equal to itself. -/
theorem self (key : Key) : ComparesTo 0 key key := by
  refine ⟨iff_of_false (lt_irrefl 0) (lt_irrefl key), iff_of_true rfl rfl⟩

/-- A difference compares. -/
theorem sub (first second : Int) : ComparesTo (first - second) first second := by
  constructor <;> omega

/-- Two tests compare. -/
theorem tests (first second : Key) :
    ComparesTo (if first < second then -1 else if second < first then 1 else 0) first second := by
  rcases lt_trichotomy first second with lower | rfl | higher
  · rw [if_pos lower]
    exact ⟨iff_of_true (by decide) lower, iff_of_false (by decide) lower.ne⟩
  · rw [if_neg (lt_irrefl _), if_neg (lt_irrefl _)]
    exact self first
  · rw [if_neg higher.not_gt, if_pos higher]
    exact ⟨iff_of_false (by decide) higher.not_gt, iff_of_false (by decide) higher.ne'⟩

/-- The second comparison counts where the first one finds no difference. -/
theorem thenBy (compares : ComparesTo result first second) {differ : Prop} [Decidable differ]
    (differ_iff : differ ↔ first ≠ second) {result' : Int} {first' second' : Second}
    (compares' : first = second → ComparesTo result' first' second') :
    ComparesTo (if differ then result else result') (toLex (first, first'))
      (toLex (second, second')) := by
  by_cases same : first = second
  · obtain ⟨below', equal'⟩ := compares' same
    subst same
    rw [if_neg (by simpa using differ_iff)]
    constructor
    · rw [Prod.Lex.toLex_lt_toLex, below']
      simp
    · rw [toLex_inj, Prod.mk.injEq, equal']
      simp
  · rw [if_pos (differ_iff.mpr same)]
    constructor
    · rw [Prod.Lex.toLex_lt_toLex, compares.1]
      simp [same]
    · rw [toLex_inj, Prod.mk.injEq, compares.2]
      simp [same]

/-- The order of lists. -/
theorem cons (compares : ComparesTo result first second) {differ : Prop} [Decidable differ]
    (differ_iff : differ ↔ first ≠ second) {result' : Int} {rest rest' : List Key}
    (later : first = second → ComparesTo result' rest rest') :
    ComparesTo (if differ then result else result') (first :: rest) (second :: rest') := by
  obtain ⟨below, equal⟩ := compares.thenBy differ_iff later
  rw [Prod.Lex.toLex_lt_toLex] at below
  rw [toLex_inj, Prod.mk.injEq] at equal
  exact ⟨below.trans List.cons_lt_cons_iff.symm, equal.trans (List.cons.injEq _ _ _ _ ▸ Iff.rfl)⟩

end ComparesTo

end Comparisons

/-! ## Ascending lists -/

section Ascending

variable {Element : Type v} {Key : Type u}

/-- Insert an element in front of the first one that is greater, unless an equal one is met. -/
def insertAscending (compare : Element → Element → Int) : List Element → Element → List Element
  | [], element => [element]
  | first :: rest, element =>
      let result := compare first element
      if result = 0 then first :: rest
      else if 0 < result then element :: first :: rest
      else first :: insertAscending compare rest element

/-- Lists of elements that their keys tell apart are the same if their keys are. -/
theorem eq_of_map_eq {key : Element → Key} {first second elements : List Element}
    (apart : ∀ a ∈ elements, ∀ b ∈ elements, key a = key b → a = b)
    (among : first ⊆ elements) (among' : second ⊆ elements)
    (same : first.map key = second.map key) : first = second := by
  induction first generalizing second with
  | nil => exact (List.map_eq_nil_iff.mp same.symm).symm
  | cons a rest ih =>
      obtain ⟨b, others, rfl⟩ : ∃ b others, second = b :: others := by
        cases second with
        | nil => exact absurd same (by simp)
        | cons b others => exact ⟨b, others, rfl⟩
      obtain ⟨head, tail⟩ := List.cons.inj same
      rw [apart a (among List.mem_cons_self) b (among' List.mem_cons_self) head,
        ih (fun c member => among (List.mem_cons_of_mem a member))
          (fun c member => among' (List.mem_cons_of_mem b member)) tail]

variable [LinearOrder Key] {key : Element → Key} {compare : Element → Element → Int}
  (compares : ∀ first second, ComparesTo (compare first second) (key first) (key second))

/-- The keys are strictly ascending. -/
def AscendingBy (key : Element → Key) (elements : List Element) : Prop :=
  elements.Pairwise fun first second => key first < key second

/-- Ascending keys are different ones. -/
theorem AscendingBy.nodup {elements : List Element} (ascending : AscendingBy key elements) :
    (elements.map key).Nodup := by
  rw [List.Nodup, List.pairwise_map]
  exact ascending.imp ne_of_lt

/-- Behind an insertion there is the new element and the old ones. -/
theorem mem_insertAscending {elements : List Element} {element other : Element}
    (member : other ∈ insertAscending compare elements element) :
    other = element ∨ other ∈ elements := by
  induction elements with
  | nil => exact Or.inl (List.mem_singleton.mp member)
  | cons first rest ih =>
      rw [insertAscending] at member
      split at member
      · exact Or.inr member
      · split at member
        · exact List.mem_cons.mp member
        · rcases List.mem_cons.mp member with rfl | later
          · exact Or.inr List.mem_cons_self
          · exact (ih later).imp_right (List.mem_cons_of_mem first)

include compares in
/-- The keys are the old ones and that of the element. -/
theorem keys_insertAscending (elements : List Element) (element : Element) (k : Key) :
    k ∈ (insertAscending compare elements element).map key ↔
      k = key element ∨ k ∈ elements.map key := by
  induction elements with
  | nil => simp [insertAscending]
  | cons first rest ih =>
      rw [insertAscending]
      split
      case isTrue same =>
        have equal := (compares first element).2.mp same
        rw [List.map_cons, List.mem_cons, ← equal]
        tauto
      case isFalse =>
        split
        case isTrue => rw [List.map_cons, List.mem_cons]
        case isFalse =>
          rw [List.map_cons, List.mem_cons, ih, List.map_cons, List.mem_cons]
          tauto

include compares in
/-- An insertion keeps the order. -/
theorem ascending_insertAscending {elements : List Element}
    (ascending : AscendingBy key elements) (element : Element) :
    AscendingBy key (insertAscending compare elements element) := by
  induction elements with
  | nil => exact List.pairwise_singleton _ _
  | cons first rest ih =>
      obtain ⟨least, later⟩ := List.pairwise_cons.mp ascending
      rw [insertAscending]
      split
      case isTrue => exact ascending
      case isFalse different =>
        split
        case isTrue positive =>
          have below := (compares first element).pos_iff.mp positive
          refine List.pairwise_cons.mpr ⟨fun other member => ?_, ascending⟩
          rcases List.mem_cons.mp member with rfl | among
          · exact below
          · exact below.trans (least other among)
        case isFalse negative =>
          have above : key first < key element := (compares first element).1.mp (by omega)
          refine List.pairwise_cons.mpr ⟨fun other member => ?_, ih later⟩
          rcases mem_insertAscending member with rfl | among
          · exact above
          · exact least other among

/-! ## Inserting several elements -/

/-- Behind several of them there is nothing else, -/
theorem mem_foldl_insertAscending {elements added : List Element} {element : Element}
    (member : element ∈ added.foldl (insertAscending compare) elements) :
    element ∈ elements ∨ element ∈ added := by
  induction added generalizing elements with
  | nil => exact Or.inl member
  | cons first rest ih =>
      rcases ih member with earlier | later
      · rcases mem_insertAscending earlier with rfl | old
        · exact Or.inr List.mem_cons_self
        · exact Or.inl old
      · exact Or.inr (List.mem_cons_of_mem first later)

include compares in
/-- the order is kept, -/
theorem ascending_foldl {elements : List Element} (ascending : AscendingBy key elements)
    (added : List Element) :
    AscendingBy key (added.foldl (insertAscending compare) elements) := by
  induction added generalizing elements with
  | nil => exact ascending
  | cons first rest ih => exact ih (ascending_insertAscending compares ascending first)

include compares in
/-- and every key is there. -/
theorem keys_foldl (elements added : List Element) (k : Key) :
    k ∈ (added.foldl (insertAscending compare) elements).map key ↔
      k ∈ elements.map key ∨ k ∈ added.map key := by
  induction added generalizing elements with
  | nil => simp
  | cons first rest ih =>
      rw [List.foldl_cons, ih, keys_insertAscending compares, List.map_cons, List.mem_cons]
      tauto

/-- Ascending lists with the same keys have them in the same order. -/
theorem AscendingBy.keys_eq {first second : List Element} (ascending : AscendingBy key first)
    (ascending' : AscendingBy key second)
    (same : ∀ k, k ∈ first.map key ↔ k ∈ second.map key) : first.map key = second.map key := by
  have perm : (first.map key).Perm (second.map key) :=
    (List.perm_ext_iff_of_nodup ascending.nodup ascending'.nodup).mpr same
  have below : (first.map key).Pairwise (· < ·) := List.pairwise_map.mpr ascending
  have below' : (second.map key).Pairwise (· < ·) := List.pairwise_map.mpr ascending'
  exact perm.eq_of_pairwise (fun a b _ _ lower higher => absurd higher lower.not_gt) below below'

include compares in
/-- The order in which the elements come does not show in the keys. -/
theorem keys_foldl_perm {added added' : List Element} (perm : added.Perm added') :
    (added.foldl (insertAscending compare) []).map key =
      (added'.foldl (insertAscending compare) []).map key := by
  apply AscendingBy.keys_eq (ascending_foldl compares List.Pairwise.nil added)
    (ascending_foldl compares List.Pairwise.nil added')
  intro k
  rw [keys_foldl compares, keys_foldl compares, (perm.map key).mem_iff]

end Ascending

end GrubLegacy.Base
