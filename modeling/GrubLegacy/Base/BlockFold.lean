import Mathlib

/-!
# Folds over the blocks of a list

The items of a list are taken in blocks of one size; what does not fill a block is left over. A
list that comes in parts can be folded part by part, if what is left over of the first part goes
before the next one.
-/

namespace GrubLegacy.Base

universe u v

section

variable {State : Type u} {α : Type v} (size : Nat) (compress : State → List α → State)

/-- The first so many blocks of a list. -/
def foldCount : Nat → State → List α → State
  | 0, state, _ => state
  | count + 1, state, items => foldCount count (compress state (items.take size)) (items.drop size)

/-- All blocks of a list that are filled. -/
def foldBlocks (state : State) (items : List α) : State :=
  foldCount size compress (items.length / size) state items

/-- The items that do not fill a block. -/
def leftOver (items : List α) : List α := items.drop (size * (items.length / size))

end

section

variable {State : Type u} {α : Type v} {size : Nat} {compress : State → List α → State}

/-- What is left over is a remainder. -/
@[simp] theorem length_leftOver (items : List α) :
    (leftOver size items).length = items.length % size := by
  have split := Nat.mod_add_div items.length size
  rw [leftOver, List.length_drop]
  omega

/-- Less than a block changes nothing, -/
theorem foldBlocks_of_lt {state : State} {items : List α} (short : items.length < size) :
    foldBlocks size compress state items = state := by
  rw [foldBlocks, Nat.div_eq_of_lt short]
  rfl

/-- and nothing does not either. -/
@[simp] theorem foldBlocks_nil (state : State) : foldBlocks size compress state [] = state := by
  rw [foldBlocks, List.length_nil, Nat.zero_div]
  rfl

/-- Less than a block is left over as it is. -/
theorem leftOver_of_lt {items : List α} (short : items.length < size) :
    leftOver size items = items := by
  simp [leftOver, Nat.div_eq_of_lt short]

/-- A block at the start is the first one. -/
theorem foldBlocks_block (positive : 0 < size) {state : State} {block rest : List α}
    (filled : block.length = size) :
    foldBlocks size compress state (block ++ rest) =
      foldBlocks size compress (compress state block) rest := by
  have count : (block ++ rest).length / size = rest.length / size + 1 := by
    rw [List.length_append, filled, Nat.add_div_left _ positive]
  rw [foldBlocks, count, foldCount, List.take_left' filled, List.drop_left' filled]
  rfl

/-- Behind a block the same is left over. -/
theorem leftOver_block (positive : 0 < size) {block rest : List α} (filled : block.length = size) :
    leftOver size (block ++ rest) = leftOver size rest := by
  have count : (block ++ rest).length / size = rest.length / size + 1 := by
    rw [List.length_append, filled, Nat.add_div_left _ positive]
  rw [leftOver, count, Nat.mul_succ, Nat.add_comm, ← List.drop_drop, List.drop_left' filled]
  rfl

/-- The blocks of a list that comes in two parts. -/
theorem foldBlocks_append (positive : 0 < size) (state : State) (first second : List α) :
    foldBlocks size compress state (first ++ second) =
        foldBlocks size compress (foldBlocks size compress state first)
          (leftOver size first ++ second) ∧
      leftOver size (first ++ second) = leftOver size (leftOver size first ++ second) := by
  induction isLength : first.length using Nat.strongRecOn generalizing state first with
  | _ length inductionHypothesis =>
    rcases Nat.lt_or_ge first.length size with short | long
    · rw [foldBlocks_of_lt short, leftOver_of_lt short]
      exact ⟨rfl, rfl⟩
    · obtain ⟨block, rest, rfl, filled⟩ :
          ∃ block rest, first = block ++ rest ∧ block.length = size :=
        ⟨first.take size, first.drop size, (List.take_append_drop size first).symm, by simp [long]⟩
      rw [List.append_assoc, foldBlocks_block positive filled, leftOver_block positive filled,
        foldBlocks_block positive filled, leftOver_block positive filled]
      rw [List.length_append] at isLength
      exact inductionHypothesis rest.length (by omega) _ rest rfl

/-- Nothing is left over of a number of blocks. -/
theorem foldBlocks_whole (positive : 0 < size) (state : State) {first : List α}
    (whole : first.length % size = 0) (second : List α) :
    foldBlocks size compress state (first ++ second) =
      foldBlocks size compress (foldBlocks size compress state first) second := by
  have nothing : leftOver size first = [] := by
    rw [← List.length_eq_zero_iff, length_leftOver, whole]
  rw [(foldBlocks_append positive state first second).1, nothing, List.nil_append]

end

end GrubLegacy.Base
