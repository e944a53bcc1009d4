import GrubLegacy.Efi.FixPathName

/-!
# The directory of a path

`grub_strrchr` finds the last slash of a path; what lies before it and the slash itself
are the directory.
-/

namespace GrubLegacy.Efi

open Base CStrings

/-- `grub_strrchr`, as a position. -/
def strrchr (c : UInt8) : List UInt8 → Option Nat
  | [] => none
  | d :: rest => ((strrchr c rest).map (· + 1)).or (if d = c then some 0 else none)

/-- A path up to its last slash. -/
def directory (path : List UInt8) : List UInt8 := path.rdropWhile (· ≠ slash)

/-- No place is found for a character that is not there. -/
theorem strrchr_eq_none_iff {c : UInt8} {text : List UInt8} :
    strrchr c text = none ↔ c ∉ text := by
  induction text with
  | nil => simp [strrchr]
  | cons d rest ih => simp [strrchr, ih, eq_comm (a := d), and_comm]

/-- The character is found where it is not found again behind. -/
theorem strrchr_append {c : UInt8} {front back : List UInt8} (absent : c ∉ back) :
    strrchr c (front ++ c :: back) = some front.length := by
  induction front with
  | nil => simp [strrchr, strrchr_eq_none_iff.mpr absent]
  | cons d front ih => simp [strrchr, ih]

/-- A text is split at the last such character. -/
theorem exists_of_strrchr {c : UInt8} {text : List UInt8} {place : Nat}
    (found : strrchr c text = some place) :
    ∃ front back, text = front ++ c :: back ∧ c ∉ back ∧ front.length = place := by
  have listed : c ∈ text := by
    by_contra absent
    rw [strrchr_eq_none_iff.mpr absent] at found
    cases found
  obtain ⟨back, front, split, absent⟩ := List.eq_append_cons_of_mem (List.mem_reverse.mpr listed)
  have parts : text = front.reverse ++ c :: back.reverse := by
    rw [← List.reverse_reverse text, split]
    simp
  have plain : c ∉ back.reverse := by simpa using absent
  refine ⟨front.reverse, back.reverse, parts, plain, ?_⟩
  rw [parts, strrchr_append plain] at found
  exact Option.some.inj found

/-- A name without slashes does not count. -/
@[simp] theorem directory_append {name : List UInt8} (path : List UInt8) (plain : slash ∉ name) :
    directory (path ++ name) = directory path := by
  rw [directory, List.rdropWhile, List.reverse_append, List.dropWhile_append_of_pos]
  · rfl
  · intro c member
    have other : c ≠ slash := by
      rintro rfl
      exact plain (List.mem_reverse.mp member)
    simpa using other

/-- A path that ends in a slash is a directory. -/
@[simp] theorem directory_concat (path : List UInt8) : directory (path ++ [slash]) = path ++ [slash] := by
  simp [directory]

/-- The empty path is in no directory, -/
@[simp] theorem directory_nil : directory [] = [] := rfl

/-- nor is a plain name. -/
theorem directory_of_plain {name : List UInt8} (plain : slash ∉ name) : directory name = [] :=
  directory_append [] plain

end GrubLegacy.Efi
