import Mathlib

/-!
# Lists of NUL-terminated strings

A string is stored as its bytes and a NUL, a group of strings as its members and
one more NUL. Reading a group back gives its members as long as none is empty.
-/

namespace GrubLegacy.CStrings

/-- The byte of an ASCII character. -/
def charOf (c : Char) : UInt8 := c.toNat.toUInt8

/-- The bytes of an ASCII literal. -/
def ascii (text : String) : List UInt8 := text.toList.map charOf

/-- The string at the start of some bytes. -/
def readString (bytes : List UInt8) : List UInt8 := bytes.takeWhile (· ≠ 0)

/-- A string with its terminator. -/
def encodeString (text : List UInt8) : List UInt8 := text ++ [0]

/-- Strings with their terminators, one after the other. -/
def encodeStrings (texts : List (List UInt8)) : List UInt8 := texts.flatMap encodeString

/-- A group of strings, ended by an extra NUL. -/
def encodeGroup (texts : List (List UInt8)) : List UInt8 := encodeStrings texts ++ [0]

/-- The strings up to an empty one, the first of them begun already. -/
def readStrings (begun : List UInt8) : List UInt8 → List (List UInt8)
  | [] => []
  | c :: rest =>
    if c = 0 then if begun = [] then [] else begun :: readStrings [] rest
    else readStrings (begun ++ [c]) rest

/-- The strings of the group at the start of some bytes. -/
def readGroup (bytes : List UInt8) : List (List UInt8) := readStrings [] bytes

/-- A string contains no terminator. -/
def NulFree (text : List UInt8) : Prop := ∀ c ∈ text, c ≠ 0

/-- Whether a text has a NUL can be decided. -/
theorem nulFree_of_all {text : List UInt8} (all : text.all (· ≠ 0) = true) : NulFree text :=
  fun c among => of_decide_eq_true (List.all_eq_true.mp all c among)

/-- What is read as a string has none. -/
theorem nulFree_readString (bytes : List UInt8) : NulFree (readString bytes) := by
  intro c member
  simpa using List.mem_takeWhile_imp member

/-- A stored string is read back. -/
theorem readString_encodeString {text : List UInt8} (free : NulFree text) (rest : List UInt8) :
    readString (encodeString text ++ rest) = text := by
  have kept : ∀ c ∈ text, decide (c ≠ 0) = true := fun c member => by simpa using free c member
  rw [readString, encodeString, List.append_assoc, List.takeWhile_append_of_pos kept]
  simp

attribute [local simp] readStrings

/-- Characters are read behind those of the string that is begun. -/
private theorem readStrings_append {text : List UInt8} (free : NulFree text)
    (begun rest : List UInt8) :
    readStrings begun (text ++ rest) = readStrings (begun ++ text) rest := by
  induction text generalizing begun with
  | nil => simp
  | cons c text ih =>
      have notNul : c ≠ 0 := free c (by simp)
      rw [List.cons_append, readStrings, if_neg notNul,
        ih (fun other member => free other (by simp [member]))]
      simp

/-- A stored string that is not empty is the first one read. -/
theorem readGroup_encodeString {text : List UInt8} (free : NulFree text) (nonempty : text ≠ [])
    (rest : List UInt8) : readGroup (encodeString text ++ rest) = text :: readGroup rest := by
  rw [readGroup, encodeString, List.append_assoc, readStrings_append free]
  simp [readStrings, nonempty, readGroup]

/-- A stored group without empty strings is read back. -/
theorem readGroup_encodeGroup {texts : List (List UInt8)} (free : ∀ text ∈ texts, NulFree text)
    (nonempty : [] ∉ texts) (rest : List UInt8) :
    readGroup (encodeGroup texts ++ rest) = texts := by
  induction texts with
  | nil => simp [encodeGroup, encodeStrings, readGroup, readStrings]
  | cons text texts ih =>
      obtain ⟨textNonempty, restNonempty⟩ := not_or.mp (mt List.mem_cons.mpr nonempty)
      have tail := ih (fun other member => free other (by simp [member])) restNonempty
      have split : encodeGroup (text :: texts) ++ rest =
          encodeString text ++ (encodeGroup texts ++ rest) := by
        simp [encodeGroup, encodeStrings]
      rw [split, readGroup_encodeString (free text (by simp)) (Ne.symm textNonempty), tail]

/-- No string read from a group is empty. -/
theorem nil_notMem_readStrings (begun bytes : List UInt8) : [] ∉ readStrings begun bytes := by
  induction bytes generalizing begun with
  | nil => simp [readStrings]
  | cons c rest ih =>
      rw [readStrings]
      split
      · split
        · simp
        next stored => simp [ih, Ne.symm stored]
      · exact ih _

end GrubLegacy.CStrings
