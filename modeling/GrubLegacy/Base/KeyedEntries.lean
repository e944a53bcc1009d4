import Mathlib

/-!
# Lists of entries with keys

A list has at most one entry for each key. An entry is deleted or overwritten where the
first entry with its key is, and a new one comes behind all others.
-/

namespace GrubLegacy.Base

universe u v

variable {Key : Type u} {Value : Type v} [DecidableEq Key]

/-- Where the entry of a key is; the length of the list if there is none. -/
def slotOf (entries : List (Key × Value)) (key : Key) : Nat :=
  entries.findIdx fun entry => entry.1 = key

def UniqueKeys (entries : List (Key × Value)) : Prop := (entries.map Prod.fst).Nodup

def removeKey (entries : List (Key × Value)) (key : Key) : List (Key × Value) :=
  entries.eraseIdx (slotOf entries key)

def putKey (entries : List (Key × Value)) (key : Key) (value : Value) : List (Key × Value) :=
  if slotOf entries key < entries.length then entries.set (slotOf entries key) (key, value)
  else entries ++ [(key, value)]

section

variable {entries : List (Key × Value)} {entry : Key × Value} {key : Key} {value : Value}

/-- The slot of a key is in the list or behind it. -/
theorem slotOf_le (entries : List (Key × Value)) (key : Key) :
    slotOf entries key ≤ entries.length :=
  List.findIdx_le_length

/-- The first entry is in slot zero. -/
@[simp] theorem slotOf_cons_self (rest : List (Key × Value)) :
    slotOf ((key, value) :: rest) key = 0 := by
  simp [slotOf, List.findIdx_cons]

/-- Behind an entry of another key the slot is one further. -/
theorem slotOf_cons_ne (other : entry.1 ≠ key) (rest : List (Key × Value)) :
    slotOf (entry :: rest) key = slotOf rest key + 1 := by
  simp [slotOf, List.findIdx_cons, other]

omit [DecidableEq Key] in
/-- Keys are unique if the first one is not among the others and these are. -/
theorem uniqueKeys_cons (rest : List (Key × Value)) :
    UniqueKeys (entry :: rest) ↔ (∀ other ∈ rest, other.1 ≠ entry.1) ∧ UniqueKeys rest := by
  simp only [UniqueKeys, List.map_cons, List.nodup_cons, List.mem_map, not_exists, not_and]

/-- The first entry of a key is removed, -/
theorem removeKey_cons_self (rest : List (Key × Value)) :
    removeKey ((key, value) :: rest) key = rest := by
  simp [removeKey]

/-- and entries of other keys are kept. -/
theorem removeKey_cons_ne (other : entry.1 ≠ key) (rest : List (Key × Value)) :
    removeKey (entry :: rest) key = entry :: removeKey rest key := by
  simp [removeKey, slotOf_cons_ne other]

/-- The first entry of a key gets the value, -/
theorem putKey_cons_self {old : Value} (rest : List (Key × Value)) :
    putKey ((key, old) :: rest) key value = (key, value) :: rest := by
  simp [putKey]

/-- and entries of other keys are kept. -/
theorem putKey_cons_ne (other : entry.1 ≠ key) (rest : List (Key × Value)) :
    putKey (entry :: rest) key value = entry :: putKey rest key value := by
  simp only [putKey, slotOf_cons_ne other, List.length_cons, Nat.add_lt_add_iff_right]
  split
  · rw [List.set_cons_succ]
  · rw [List.cons_append]

/-- Only the entries of other keys are left. -/
theorem mem_removeKey (unique : UniqueKeys entries) :
    entry ∈ removeKey entries key ↔ entry ∈ entries ∧ entry.1 ≠ key := by
  induction entries with
  | nil => simp [removeKey]
  | cons first rest ih =>
      obtain ⟨apart, others⟩ := (uniqueKeys_cons rest).mp unique
      by_cases same : first.1 = key
      · obtain ⟨_, value⟩ := first
        obtain rfl : _ = key := same
        rw [removeKey_cons_self, List.mem_cons]
        constructor
        · exact fun member => ⟨.inr member, apart entry member⟩
        · rintro ⟨rfl | member, other⟩
          · exact absurd rfl other
          · exact member
      · rw [removeKey_cons_ne same, List.mem_cons, List.mem_cons, ih others]
        constructor
        · rintro (rfl | ⟨member, other⟩)
          · exact ⟨.inl rfl, same⟩
          · exact ⟨.inr member, other⟩
        · rintro ⟨rfl | member, other⟩
          · exact .inl rfl
          · exact .inr ⟨member, other⟩

/-- Unique keys stay unique without one, -/
theorem UniqueKeys.removeKey (unique : UniqueKeys entries) : UniqueKeys (removeKey entries key) := by
  apply List.Nodup.sublist _ unique
  exact (List.eraseIdx_sublist entries _).map Prod.fst

/-- The key has its new entry, and the others have theirs. -/
theorem mem_putKey (unique : UniqueKeys entries) :
    entry ∈ putKey entries key value ↔ entry = (key, value) ∨ entry ∈ entries ∧ entry.1 ≠ key := by
  induction entries with
  | nil => simp [putKey, slotOf]
  | cons first rest ih =>
      obtain ⟨apart, others⟩ := (uniqueKeys_cons rest).mp unique
      by_cases same : first.1 = key
      · obtain ⟨_, old⟩ := first
        obtain rfl : _ = key := same
        rw [putKey_cons_self, List.mem_cons, List.mem_cons]
        constructor
        · rintro (rfl | member)
          · exact .inl rfl
          · exact .inr ⟨.inr member, apart entry member⟩
        · rintro (rfl | ⟨rfl | member, other⟩)
          · exact .inl rfl
          · exact absurd rfl other
          · exact .inr member
      · rw [putKey_cons_ne same, List.mem_cons, List.mem_cons, ih others]
        constructor
        · rintro (rfl | rfl | ⟨member, other⟩)
          · exact .inr ⟨.inl rfl, same⟩
          · exact .inl rfl
          · exact .inr ⟨.inr member, other⟩
        · rintro (rfl | ⟨rfl | member, other⟩)
          · exact .inr (.inl rfl)
          · exact .inl rfl
          · exact .inr (.inr ⟨member, other⟩)

/-- and with one that is put. -/
theorem UniqueKeys.putKey (unique : UniqueKeys entries) : UniqueKeys (putKey entries key value) := by
  induction entries with
  | nil => simp [Base.putKey, slotOf, UniqueKeys]
  | cons first rest ih =>
      obtain ⟨apart, others⟩ := (uniqueKeys_cons rest).mp unique
      by_cases same : first.1 = key
      · obtain ⟨_, old⟩ := first
        obtain rfl : _ = key := same
        rw [putKey_cons_self, uniqueKeys_cons]
        exact ⟨apart, others⟩
      · rw [putKey_cons_ne same, uniqueKeys_cons]
        refine ⟨?_, ih others⟩
        intro entry member
        rcases (mem_putKey others).mp member with rfl | ⟨member, _⟩
        · exact Ne.symm same
        · exact apart entry member

/-- The list gets longer only for a new key. -/
theorem length_putKey :
    (putKey entries key value).length =
      if slotOf entries key < entries.length then entries.length else entries.length + 1 := by
  rw [putKey]
  split
  · exact List.length_set
  · simp

end

end GrubLegacy.Base
