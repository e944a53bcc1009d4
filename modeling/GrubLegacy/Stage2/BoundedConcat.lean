import GrubLegacy.Base.ByteArea

/-!
# Concatenation with a bound

`grub_strncat` of `char_io.c`, and `cln_get_sbh_fs_path` of `asset.c` that calls it twice.
The index of the copy is moved on before the copied character is looked at, so a text that
just fits leaves it where one that was cut off does.
-/

namespace GrubLegacy.Stage2

open Base CStrings

/-! ## The functions -/

/-- The second loop of `grub_strncat`: the buffer and the index after it. -/
def copyText (n : Nat) : (s2 : List UInt8) → (s1 : Area) → (i : Nat) → Area × Nat
  | [], s1, i => if i < n then (setByte s1 i 0, i + 1) else (s1, i)
  | c :: s2, s1, i => if i < n then copyText n s2 (setByte s1 i c) (i + 1) else (s1, i)

/-- The buffer after a call, and what it returns. -/
structure Concatenated where
  buffer : Area
  value : Int

/-- `grub_strncat` -/
def grubStrncat (s1 : Area) (s2 : List UInt8) (n : Nat) : Concatenated :=
  let copied := copyText n s2 s1 (spanLength isText s1 n 0)
  let s1 := setByte copied.1 (n - 1) 0
  if copied.2 ≥ n then ⟨s1, 0⟩ else ⟨setByte s1 copied.2 0, 1⟩

/-- GRUB_CLN_SBH_FILE_EXT -/
def grubClnSbhFileExt : List UInt8 := ascii ".csbh"

/-- GRUB_CLN_SBH_FILE_PATHMAX -/
def grubClnSbhFilePathmax : Nat := 1024

/-- The first token `grub_strtok_r` finds in a text, if there is one. -/
def firstToken (string : List UInt8) : Option (List UInt8) :=
  let token := (string.dropWhile (· = charOf ' ')).takeWhile (· ≠ charOf ' ')
  if token = [] then none else some token

/-- What `cln_get_sbh_fs_path` makes of `cln_sbh_path` for a path. -/
def sbhFsPath (clnSbhPath : Area) (path : List UInt8) : Area :=
  let clnSbhPath := setByte clnSbhPath 0 0
  if path.length + grubClnSbhFileExt.length < grubClnSbhFilePathmax then
    let clnSbhPath := (grubStrncat clnSbhPath path grubClnSbhFilePathmax).buffer
    (grubStrncat clnSbhPath grubClnSbhFileExt grubClnSbhFilePathmax).buffer
  else clnSbhPath

/-- `cln_get_sbh_fs_path`. Without a token it asks for the length of a null pointer. -/
def clnGetSbhFsPath (clnSbhPath : Area) (string : List UInt8) : Option Area :=
  (firstToken string).map (sbhFsPath clnSbhPath)

/-! ## The copy -/

section Copy

variable {n i : Nat} {s1 : Area} {s2 : List UInt8}

/-- The loop ends behind the copied NUL, or at the bound. -/
theorem copyText_place (inside : i ≤ n) :
    (copyText n s2 s1 i).2 = min n (i + s2.length + 1) := by
  induction s2 generalizing s1 i with
  | nil =>
      rw [copyText]
      split
      · simp only [List.length_nil]
        omega
      · simp only [List.length_nil]
        omega
  | cons c s2 ih =>
      rw [copyText]
      split
      · next room =>
          rw [ih (by omega), List.length_cons]
          omega
      · simp only [List.length_cons]
        omega

/-- It leaves the text and its NUL there, as far as there is room. -/
theorem copyText_byte (position : Nat) :
    (copyText n s2 s1 i).1 position =
      if i ≤ position ∧ position < min n (i + s2.length + 1) then areaOf s2 (position - i)
      else s1 position := by
  induction s2 generalizing s1 i with
  | nil =>
      rw [copyText, List.length_nil]
      split
      · next room =>
          dsimp only
          by_cases here : position = i
          · subst here
            rw [setByte_same, if_pos (by omega)]
            simp [areaOf]
          · rw [setByte_other here, if_neg (by omega)]
      · rw [if_neg (by omega)]
  | cons c s2 ih =>
      rw [copyText]
      split
      · next room =>
          rw [ih, List.length_cons]
          by_cases here : position = i
          · subst here
            rw [if_neg (by omega), if_pos (by omega), setByte_same]
            simp [areaOf]
          · rw [setByte_other here]
            by_cases copied : i ≤ position ∧ position < min n (i + (s2.length + 1) + 1)
            · rw [if_pos (by omega), if_pos copied]
              obtain ⟨distance, rfl⟩ := Nat.exists_eq_add_of_lt (show i < position by omega)
              rw [show i + distance + 1 - (i + 1) = distance by omega,
                show i + distance + 1 - i = distance + 1 by omega]
              simp [areaOf]
            · rw [if_neg (by omega), if_neg copied]
      · rw [if_neg (by omega)]

end Copy

/-! ## What the concatenation should be -/

/-- Only the first `n` bytes are written, they hold as much of the two texts as fits with a
NUL, and the result says whether that is all. -/
structure ConcatenatesBounded (s1 : Area) (text s2 : List UInt8) (n : Nat) : Prop where
  outside : ∀ position, n ≤ position → (grubStrncat s1 s2 n).buffer position = s1 position
  holds : Holds (grubStrncat s1 s2 n).buffer 0 ((text ++ s2).take (n - 1))
  value : (grubStrncat s1 s2 n).value ≠ 0 ↔ (text ++ s2).take (n - 1) = text ++ s2

section Concatenation

variable {n : Nat} {s1 : Area} {text s2 : List UInt8}

/-- The text is spanned up to its NUL. -/
theorem spanLength_text (holds : Holds s1 0 text) (fits : text.length < n) :
    spanLength isText s1 n 0 = text.length := by
  apply spanLength_eq fits
  · intro distance inside
    rw [holds.bytes distance inside.le]
    simpa [isText] using areaOf_ne_zero holds.free inside
  · exact isText_eq_false.mpr holds.nul

/-- Where the copy ends, and what is in the buffer then. -/
theorem copied_byte (holds : Holds s1 0 text) (position : Nat) (inside : position < n)
    (within : position ≤ text.length + s2.length) :
    (copyText n s2 s1 text.length).1 position = areaOf (text ++ s2) position := by
  rw [copyText_byte, areaOf_append]
  by_cases old : position < text.length
  · have byte := holds.bytes position old.le
    rw [Nat.zero_add] at byte
    rw [if_neg (by omega), if_pos old, byte]
  · rw [if_pos (by omega), if_neg old]

/-- The buffer, behind all of what is stored last. -/
theorem grubStrncat_buffer (holds : Holds s1 0 text) (fits : text.length < n) (position : Nat) :
    (grubStrncat s1 s2 n).buffer position =
      if position = n - 1 ∨ (position < n ∧ position = text.length + s2.length + 1) then 0
      else (copyText n s2 s1 text.length).1 position := by
  rw [grubStrncat, spanLength_text holds fits]
  rw [copyText_place fits.le]
  split
  · next full =>
      dsimp only
      by_cases last : position = n - 1
      · rw [if_pos (.inl last), last, setByte_same]
      · rw [if_neg (by omega), setByte_other last]
  · next room =>
      dsimp only
      rw [Nat.min_eq_right (by omega)]
      by_cases behind : position = text.length + s2.length + 1
      · rw [if_pos (by omega), behind, setByte_same]
      · rw [setByte_other behind]
        by_cases last : position = n - 1
        · rw [if_pos (.inl last), last, setByte_same]
        · rw [if_neg (by omega), setByte_other last]

/-- It returns a pointer just when both texts and a NUL fit with a byte to spare. -/
theorem grubStrncat_value (holds : Holds s1 0 text) (fits : text.length < n) :
    (grubStrncat s1 s2 n).value ≠ 0 ↔ text.length + s2.length + 1 < n := by
  rw [grubStrncat, spanLength_text holds fits]
  rw [copyText_place fits.le]
  split
  · simp only [ne_eq, not_true_eq_false, false_iff]
    omega
  · simp only [ne_eq, one_ne_zero, not_false_eq_true, true_iff]
    omega

/-- Nothing is stored outside the buffer. -/
theorem grubStrncat_outside (holds : Holds s1 0 text) (fits : text.length < n) {position : Nat}
    (outside : n ≤ position) : (grubStrncat s1 s2 n).buffer position = s1 position := by
  rw [grubStrncat_buffer holds fits, if_neg (by omega), copyText_byte, if_neg (by omega)]

/-- The buffer holds as much of the texts as fits. -/
theorem grubStrncat_holds (holds : Holds s1 0 text) (free : NulFree s2) (fits : text.length < n) :
    Holds (grubStrncat s1 s2 n).buffer 0 ((text ++ s2).take (n - 1)) where
  bytes position inside := by
    rw [List.length_take, List.length_append] at inside
    rw [Nat.zero_add, grubStrncat_buffer holds fits, areaOf_take]
    by_cases last : position = n - 1
    · rw [if_pos (.inl last), if_neg (by omega)]
    · rw [if_neg (by omega), if_pos (by omega)]
      exact copied_byte holds position (by omega) (by omega)
  free c member := by
    rcases List.mem_append.mp (List.mem_of_mem_take member) with first | second
    · exact holds.free c first
    · exact free c second

/-- The texts are concatenated unless they fill the buffer exactly. -/
theorem concatenatesBounded_iff_ne (holds : Holds s1 0 text) (free : NulFree s2)
    (fits : text.length < n) :
    ConcatenatesBounded s1 text s2 n ↔ text.length + s2.length + 1 ≠ n := by
  have whole : (text ++ s2).take (n - 1) = text ++ s2 ↔ text.length + s2.length + 1 ≤ n := by
    rw [List.take_eq_self_iff, List.length_append]
    omega
  constructor
  · intro concatenates
    have told := concatenates.value
    rw [grubStrncat_value holds fits, whole] at told
    omega
  · intro apart
    refine ⟨fun position => grubStrncat_outside holds fits, grubStrncat_holds holds free fits, ?_⟩
    rw [grubStrncat_value holds fits, whole]
    omega

/-- A path that is accepted gets the extension. -/
theorem sbhFsPath_holds (clnSbhPath : Area) {path : List UInt8} (free : NulFree path)
    (accepted : path.length + grubClnSbhFileExt.length < grubClnSbhFilePathmax) :
    Holds (sbhFsPath clnSbhPath path) 0 (path ++ grubClnSbhFileExt) := by
  have empty : Holds (setByte clnSbhPath 0 0) 0 [] := by
    refine ⟨?_, by simp [NulFree]⟩
    intro i none
    obtain rfl := Nat.le_zero.mp none
    exact setByte_same
  have first := grubStrncat_holds empty free (show ([] : List UInt8).length <
    grubClnSbhFilePathmax by decide)
  rw [List.nil_append, List.take_of_length_le (by omega)] at first
  have extFree : NulFree grubClnSbhFileExt := nulFree_of_all (by decide)
  have second := grubStrncat_holds first extFree (show path.length < grubClnSbhFilePathmax by omega)
  rw [List.take_of_length_le (by rw [List.length_append]; omega)] at second
  rwa [sbhFsPath, if_pos accepted]

/-- A token of a text without NULs has none. -/
theorem nulFree_firstToken {string path : List UInt8} (free : NulFree string)
    (token : firstToken string = some path) : NulFree path := by
  rw [firstToken] at token
  split at token
  · cases token
  · obtain rfl := Option.some.inj token
    intro c member
    exact free c ((List.dropWhile_suffix _).subset ((List.takeWhile_prefix _).subset member))

/-- A concatenation is right unless the texts and the NUL fill the bound exactly, and the path
of a signed header is right whenever it is accepted. -/
theorem concatenatesBounded_iff (holds : Holds s1 0 text) (free : NulFree s2)
    (fits : text.length < n) :
    (ConcatenatesBounded s1 text s2 n ↔ text.length + s2.length + 1 ≠ n) ∧
      ∀ (clnSbhPath : Area) (string path : List UInt8), NulFree string →
        firstToken string = some path →
        path.length + grubClnSbhFileExt.length < grubClnSbhFilePathmax →
          ∃ buffer, clnGetSbhFsPath clnSbhPath string = some buffer ∧
            Holds buffer 0 (path ++ grubClnSbhFileExt) := by
  refine ⟨concatenatesBounded_iff_ne holds free fits, ?_⟩
  intro clnSbhPath string path stringFree token accepted
  refine ⟨sbhFsPath clnSbhPath path, ?_, ?_⟩
  · rw [clnGetSbhFsPath, token, Option.map_some]
  · exact sbhFsPath_holds clnSbhPath (nulFree_firstToken stringFree token) accepted

/-- A device and its partition are concatenated. -/
theorem concatenatesBounded_hd0 :
    ConcatenatesBounded (areaOf (ascii "(hd0")) (ascii "(hd0") (ascii ",1)") 16 :=
  (concatenatesBounded_iff (holds_areaOf (nulFree_of_all (by decide)))
    (nulFree_of_all (by decide)) (by decide)).1.mpr (by decide)

/-- Texts that just fit are reported to be cut off. -/
theorem exactFit_reported :
    ¬ ∀ (s1 : Area) (text s2 : List UInt8) (n : Nat), Holds s1 0 text → NulFree s2 →
      text.length < n → ConcatenatesBounded s1 text s2 n := by
  intro concatenates
  have wrong := concatenates (areaOf (ascii "a")) (ascii "a") (ascii "b") 3
    (holds_areaOf (nulFree_of_all (by decide))) (nulFree_of_all (by decide)) (by decide)
  exact absurd (wrong.value.mpr (by decide)) (by decide)

end Concatenation

end GrubLegacy.Stage2
