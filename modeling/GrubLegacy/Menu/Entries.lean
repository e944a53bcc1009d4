import GrubLegacy.Base.CStrings

/-!
# Finding an entry

`get_entry` of `stage2.c` walks over the bytes of the menu and configuration
heaps. Running off the end of a heap is `none`.
-/

namespace GrubLegacy.Menu

open CStrings

/-- Where the loops of `get_entry` stand: inside a string, or at the test that
looks for another string of the same group. -/
inductive EntryScan where
  | string
  | test

/-- One turn of the outer loop of `get_entry`. The test consumes a byte, which is
the first of the next string when it is not a NUL. -/
def skipEntry (nested : Bool) : EntryScan → List UInt8 → Option (List UInt8)
  | _, [] => none
  | .string, c :: list =>
    if c ≠ 0 then skipEntry nested .string list
    else if nested then skipEntry nested .test list
    else some list
  | .test, c :: list => if c ≠ 0 then skipEntry nested .string list else some list

/-- `get_entry`: where entry `num` starts. -/
def getEntry (list : List UInt8) : (num : Nat) → (nested : Bool) → Option (List UInt8)
  | 0, _ => some list
  | num + 1, nested =>
    match skipEntry nested .string list with
    | none => none
    | some list => getEntry list num nested

/-- The text of a string is skipped. -/
private theorem skipEntry_text (nested : Bool) {text : List UInt8} (free : NulFree text)
    (rest : List UInt8) :
    skipEntry nested .string (text ++ rest) = skipEntry nested .string rest := by
  induction text with
  | nil => rfl
  | cons c text ih =>
      have notNul : c ≠ 0 := free c (by simp)
      rw [List.cons_append, skipEntry, if_pos notNul]
      exact ih fun other member => free other (by simp [member])

/-- A plain entry is one string. -/
theorem skipEntry_encodeString {text : List UInt8} (free : NulFree text) (rest : List UInt8) :
    skipEntry false .string (encodeString text ++ rest) = some rest := by
  rw [encodeString, List.append_assoc, skipEntry_text false free]
  simp [skipEntry]

/-- A nested entry is a group, if its strings are not empty. -/
theorem skipEntry_encodeGroup {texts : List (List UInt8)} (free : ∀ text ∈ texts, NulFree text)
    (nonempty : [] ∉ texts) (some_ : texts ≠ []) (rest : List UInt8) :
    skipEntry true .string (encodeGroup texts ++ rest) = some rest := by
  have toTest : ∀ text, NulFree text → ∀ rest,
      skipEntry true .string (encodeString text ++ rest) = skipEntry true .test rest := by
    intro text textFree rest
    rw [encodeString, List.append_assoc, skipEntry_text true textFree]
    simp [skipEntry]
  have fromTest : ∀ texts : List (List UInt8), (∀ text ∈ texts, NulFree text) → [] ∉ texts →
      skipEntry true .test (encodeGroup texts ++ rest) = some rest := by
    intro texts free nonempty
    induction texts with
    | nil => simp [encodeGroup, encodeStrings, skipEntry]
    | cons text texts ih =>
        cases text with
        | nil => simp at nonempty
        | cons c text =>
            have textFree : NulFree (c :: text) := free _ (by simp)
            have split : encodeGroup ((c :: text) :: texts) ++ rest =
                c :: (encodeString text ++ (encodeGroup texts ++ rest)) := by
              simp [encodeGroup, encodeStrings, encodeString]
            rw [split, skipEntry, if_pos (textFree c (by simp)),
              toTest text (fun other member => textFree other (by simp [member]))]
            exact ih (fun other member => free other (by simp [member])) (by simp at nonempty; exact nonempty)
  cases texts with
  | nil => exact absurd rfl some_
  | cons text texts =>
      have split : encodeGroup (text :: texts) ++ rest =
          encodeString text ++ (encodeGroup texts ++ rest) := by
        simp [encodeGroup, encodeStrings]
      rw [split, toTest text (free text (by simp))]
      exact fromTest texts (fun other member => free other (by simp [member]))
        (fun member => nonempty (by simp [member]))

/-- Entry `num` of several stored entries is where the `num`-th of them starts, if
a turn of the loop passes over each. -/
theorem getEntry_flatMap {α : Type} {encode : α → List UInt8} {nested : Bool}
    {entries : List α}
    (skips : ∀ entry ∈ entries, ∀ rest,
      skipEntry nested .string (encode entry ++ rest) = some rest)
    {num : Nat} (inRange : num ≤ entries.length) (rest : List UInt8) :
    getEntry (entries.flatMap encode ++ rest) num nested =
      some ((entries.drop num).flatMap encode ++ rest) := by
  induction entries generalizing num with
  | nil =>
      obtain rfl : num = 0 := by simpa using inRange
      rfl
  | cons entry entries ih =>
      cases num with
      | zero => rfl
      | succ num =>
          rw [getEntry, List.flatMap_cons, List.append_assoc, skips entry (by simp)]
          exact ih (fun other member => skips other (by simp [member])) (by simpa using inRange)

end GrubLegacy.Menu
