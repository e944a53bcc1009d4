import GrubLegacy.Base.CStrings
import GrubLegacy.BlockFiles.BlockFile

/-!
# Components of path names

`substring`, `tolower` and `subcasestring` of `char_io.c`, and the characters of a component of
a path name.
-/

namespace GrubLegacy.Fsys

open CStrings BlockFiles

/-- `substring` -/
def substring : (s1 s2 : List UInt8) → Int
  | [], [] => 0
  | [], _ :: _ => -1
  | _ :: _, [] => 1
  | c1 :: s1, c2 :: s2 => if c1 = c2 then substring s1 s2 else 1

/-- `tolower` -/
def tolower (c : UInt8) : UInt8 := if charOf 'A' ≤ c ∧ c ≤ charOf 'Z' then c + 32 else c

/-- `subcasestring` -/
def subcasestring (s1 s2 : List UInt8) : Int := substring (s1.map tolower) (s2.map tolower)

/-- A character of a component. -/
def inComponent (c : UInt8) : Bool := !isspace c && c != charOf '/'

/-- The name behind its leading slashes. -/
def skipSlashes (dirname : List UInt8) : List UInt8 := dirname.dropWhile fun c => c = charOf '/'

/-- Behind a component less of the name is left, as it begins with a slash or the component is
not empty. -/
theorem rest_length_lt {dirname : List UInt8} (name : dirname ≠ [])
    (space : isspace (first dirname) = false) :
    ((skipSlashes dirname).dropWhile inComponent).length < dirname.length := by
  obtain ⟨c, text, rfl⟩ := List.exists_cons_of_ne_nil name
  by_cases slash : c = charOf '/'
  · rw [skipSlashes, List.dropWhile_cons_of_pos (by simpa using slash)]
    exact Nat.lt_succ_of_le (Nat.le_trans (List.dropWhile_suffix _).length_le
      (List.dropWhile_suffix _).length_le)
  · rw [skipSlashes, List.dropWhile_cons_of_neg (by simpa using slash),
      List.dropWhile_cons_of_pos (by simpa [inComponent, slash, first] using space)]
    exact Nat.lt_succ_of_le (List.dropWhile_suffix _).length_le

end GrubLegacy.Fsys
