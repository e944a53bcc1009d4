import Mathlib

/-!
# Conversions between UTF-8 and UTF-16

`grub_utf8_to_utf16` and `grub_utf16_to_utf8` of `efimisc.c`. The first keeps account of what it
reads of `src` and writes to `dst`; the second is a function of the units it is given.
-/

namespace GrubLegacy.Efi

/-! ## From UTF-8 -/

/-- `grub_utf8_char_len` -/
def grubUtf8CharLen (ch : UInt8) : Nat := ((0xe5000000 >>> ((ch.toNat >>> 3) &&& 0x1e)) &&& 3) + 1

/-- UTF8_SHIFT_AND_MASK -/
def utf8ShiftAndMask (unicode : Nat) (byte : UInt8) : Nat :=
  (unicode <<< 6) ||| (0x3f &&& byte.toNat)

/-- `grub_utf8_to_utf32` -/
def grubUtf8ToUtf32 (src : Nat → UInt8) (start : Nat) : (length : Nat) → Nat
  | 1 => (src start).toNat
  | 2 => utf8ShiftAndMask ((src start).toNat &&& 0x1f) (src (start + 1))
  | 3 =>
    utf8ShiftAndMask (utf8ShiftAndMask ((src start).toNat &&& 0x0f) (src (start + 1)))
      (src (start + 2))
  | 4 =>
    utf8ShiftAndMask
      (utf8ShiftAndMask (utf8ShiftAndMask ((src start).toNat &&& 0x07) (src (start + 1)))
        (src (start + 2))) (src (start + 3))
  | _ => 0xffff

/-- The two pointers, the array, and the places that were read and written. -/
structure Conversion where
  src : Nat
  dst : Nat
  array : Nat → UInt16
  reads : List Nat
  writes : List Nat

/-- A unit is stored. -/
def Conversion.put (state : Conversion) (unit : Nat) : Conversion where
  src := state.src
  dst := state.dst + 1
  array := Function.update state.array state.dst (UInt16.ofNat unit)
  reads := state.reads
  writes := state.dst :: state.writes

/-- The units of a code point are stored. -/
def Conversion.putCodepoint (state : Conversion) (codepoint : Nat) : Conversion :=
  if codepoint ≤ 0xffff then state.put codepoint
  else
    (state.put (((codepoint - 0x10000) >>> 10) + 0xd800)).put
      (((codepoint - 0x10000) &&& 0x3ff) + 0xdc00)

section

variable (src : Nat → UInt8) (srclen dstlen : Nat)

/-- The code point at a place, with the bytes that its first byte asks for. -/
def codepointAt (start : Nat) : Nat := grubUtf8ToUtf32 src start (grubUtf8CharLen (src start))

/-- A round of the loop. -/
def convertChar (state : Conversion) : Conversion :=
  let len := grubUtf8CharLen (src state.src)
  let written := state.putCodepoint (codepointAt src state.src)
  { written with
    src := state.src + len
    reads := (List.range len).map (state.src + ·) ++ state.reads }

def convertLoop : (rounds : Nat) → Conversion → Conversion
  | 0, state => state
  | rounds + 1, state =>
    if state.src < srclen ∧ state.dst < dstlen then convertLoop rounds (convertChar src state)
    else state

/-- Behind the loop, `*dst = 0`. -/
def convertEnd (state : Conversion) : Conversion :=
  if state.dst < dstlen then
    { state with
      array := Function.update state.array state.dst 0
      writes := state.dst :: state.writes }
  else state

/-- `grub_utf8_to_utf16`; a round takes a byte at least. -/
def grubUtf8ToUtf16 (array : Nat → UInt16) : Conversion :=
  convertEnd dstlen (convertLoop src srclen dstlen srclen
    { src := 0, dst := 0, array, reads := [], writes := [] })

end

/-! ## From UTF-16 -/

/-- The four bytes of a code point. -/
def fourBytes (code : Nat) : List UInt8 :=
  [UInt8.ofNat ((code >>> 18) ||| 0xf0), UInt8.ofNat (((code >>> 12) &&& 0x3f) ||| 0x80),
    UInt8.ofNat (((code >>> 6) &&& 0x3f) ||| 0x80), UInt8.ofNat ((code &&& 0x3f) ||| 0x80)]

/-- `grub_utf16_to_utf8`, what it stores at `dest`. -/
def grubUtf16ToUtf8 : (codeHigh : Nat) → (units : List UInt16) → List UInt8
  | _, [] => []
  | codeHigh, unit :: units =>
    let code := unit.toNat
    if codeHigh ≠ 0 then
      if 0xdc00 ≤ code ∧ code ≤ 0xdfff then
        fourBytes (((codeHigh - 0xd800) <<< 12) + (code - 0xdc00) + 0x10000) ++
          grubUtf16ToUtf8 0 units
      else '?'.toUInt8 :: grubUtf16ToUtf8 0 units
    else if code ≤ 0x7f then UInt8.ofNat code :: grubUtf16ToUtf8 0 units
    else if code ≤ 0x7ff then
      UInt8.ofNat ((code >>> 6) ||| 0xc0) :: UInt8.ofNat ((code &&& 0x3f) ||| 0x80) ::
        grubUtf16ToUtf8 0 units
    else if 0xd800 ≤ code ∧ code ≤ 0xdbff then grubUtf16ToUtf8 code units
    else if 0xdc00 ≤ code ∧ code ≤ 0xdfff then '?'.toUInt8 :: grubUtf16ToUtf8 0 units
    else
      UInt8.ofNat ((code >>> 16) ||| 0xe0) :: UInt8.ofNat (((code >>> 12) &&& 0x3f) ||| 0x80) ::
        UInt8.ofNat ((code &&& 0x3f) ||| 0x80) :: grubUtf16ToUtf8 0 units

/-! ## Characters -/

/-- The units of a character in UTF-16. -/
def utf16Units (c : Char) : List UInt16 :=
  if c.toNat ≤ 0xffff then [UInt16.ofNat c.toNat]
  else [UInt16.ofNat ((c.toNat - 0x10000) / 2 ^ 10 + 0xd800),
    UInt16.ofNat ((c.toNat - 0x10000) % 2 ^ 10 + 0xdc00)]

/-- The bytes of a text in UTF-8. -/
def utf8Bytes (text : List Char) : List UInt8 := text.flatMap String.utf8EncodeChar

/-- The units that a conversion has stored. -/
def storedUnits (array : Nat → UInt16) (count : Nat) : List UInt16 := (List.range count).map array

/-- A text comes back from an array that has room for its units. -/
def RoundTrips (text : List Char) : Prop :=
  ∀ (src : Nat → UInt8) (array : Nat → UInt16) (dstlen : Nat),
    (∀ i, ∀ inside : i < (utf8Bytes text).length, src i = (utf8Bytes text)[i]) →
    (text.flatMap utf16Units).length ≤ dstlen →
    grubUtf16ToUtf8 0 (storedUnits (grubUtf8ToUtf16 src (utf8Bytes text).length dstlen array).array
      (text.flatMap utf16Units).length) = utf8Bytes text

/-- A conversion reads `src` and writes `dst` only where they are. -/
def StaysInside (srclen dstlen : Nat) (done : Conversion) : Prop :=
  (∀ i ∈ done.reads, i < srclen) ∧ ∀ j ∈ done.writes, j < dstlen

/-- The characters that come back as they were. -/
def ComesBack (c : Char) : Prop := c.toNat ≤ 0x7ff ∨ (0x10000 ≤ c.toNat ∧ c.toNat ≤ 0x103ff)

instance (c : Char) : Decidable (ComesBack c) := inferInstanceAs (Decidable (_ ∨ _))

section

variable (src : Nat → UInt8)

/-- Where a character starts. -/
def charStart : Nat → Nat
  | 0 => 0
  | n + 1 => charStart n + grubUtf8CharLen (src (charStart n))

/-- Where the units of a character start. -/
def unitStart : Nat → Nat
  | 0 => 0
  | n + 1 => unitStart n + if codepointAt src (charStart src n) ≤ 0xffff then 1 else 2

/-- No character that is begun ends behind the source or behind the array. -/
def NoneCutOff (srclen dstlen : Nat) : Prop :=
  ∀ n, charStart src n < srclen → unitStart src n < dstlen →
    charStart src (n + 1) ≤ srclen ∧ unitStart src (n + 1) ≤ dstlen

end

/-! ## Bits -/

/-- The length of a character by its first byte, -/
theorem grubUtf8CharLen_cases (ch : UInt8) :
    (ch.toNat < 0xc0 → grubUtf8CharLen ch = 1) ∧
      (0xc0 ≤ ch.toNat → ch.toNat < 0xe0 → grubUtf8CharLen ch = 2) ∧
      (0xe0 ≤ ch.toNat → ch.toNat < 0xf0 → grubUtf8CharLen ch = 3) ∧
      (0xf0 ≤ ch.toNat → grubUtf8CharLen ch = 4) := by
  have every : ∀ n < 256,
      (n < 0xc0 → ((0xe5000000 >>> ((n >>> 3) &&& 0x1e)) &&& 3) + 1 = 1) ∧
        (0xc0 ≤ n → n < 0xe0 → ((0xe5000000 >>> ((n >>> 3) &&& 0x1e)) &&& 3) + 1 = 2) ∧
        (0xe0 ≤ n → n < 0xf0 → ((0xe5000000 >>> ((n >>> 3) &&& 0x1e)) &&& 3) + 1 = 3) ∧
        (0xf0 ≤ n → ((0xe5000000 >>> ((n >>> 3) &&& 0x1e)) &&& 3) + 1 = 4) := by
    decide +kernel
  exact every ch.toNat ch.toNat_lt

/-- which is one at least. -/
theorem grubUtf8CharLen_pos (ch : UInt8) : 0 < grubUtf8CharLen ch := Nat.succ_pos _

/-- Another byte puts six bits behind those there are. -/
theorem utf8ShiftAndMask_eq (unicode : Nat) (byte : UInt8) :
    utf8ShiftAndMask unicode byte = unicode * 64 + byte.toNat % 64 := by
  have mask : 0x3f &&& byte.toNat = byte.toNat % 2 ^ 6 := by
    rw [Nat.and_comm]
    exact Nat.and_two_pow_sub_one_eq_mod byte.toNat 6
  rw [utf8ShiftAndMask, mask, ← Nat.shiftLeft_add_eq_or_of_lt (Nat.mod_lt _ (Nat.two_pow_pos 6)),
    Nat.shiftLeft_eq]

/-- The mask of six bits is a remainder, -/
theorem low_six (code : Nat) : code &&& 0x3f = code % 64 := Nat.and_two_pow_sub_one_eq_mod code 6

/-- the mark of a following byte a sum, -/
theorem tail_bits {bits : Nat} (few : bits < 64) : bits ||| 0x80 = bits + 0x80 := by
  have every : ∀ n < 64, n ||| 0x80 = n + 0x80 := by decide +kernel
  exact every bits few

/-- and that of two bytes too. -/
theorem two_bits {bits : Nat} (few : bits < 32) : bits ||| 0xc0 = bits + 0xc0 := by
  have every : ∀ n < 32, n ||| 0xc0 = n + 0xc0 := by decide +kernel
  exact every bits few

/-- Of the bits above the lowest four nothing is seen. -/
theorem four_bits {bits : Nat} (few : bits ≤ 16) : bits ||| 0xf0 = bits % 16 + 0xf0 := by
  have every : ∀ n < 17, n ||| 0xf0 = n % 16 + 0xf0 := by decide +kernel
  exact every bits (Nat.lt_succ_of_le few)

/-- A number below 256 is a byte as it is, -/
theorem toNat_ofNat_small {value : Nat} (small : value < 256) :
    (UInt8.ofNat value).toNat = value := by
  rw [UInt8.toNat_ofNat']
  exact Nat.mod_eq_of_lt small

/-- so two of them are equal as bytes if they are as numbers. -/
theorem ofNat_inj {left right : Nat} (small : left < 256) (small' : right < 256) :
    UInt8.ofNat left = UInt8.ofNat right ↔ left = right := by
  constructor
  · intro same
    rw [← toNat_ofNat_small small, ← toNat_ofNat_small small', same]
  · rintro rfl
    rfl

/-! ## One character -/

/-- No character is half of a surrogate pair. -/
theorem toNat_scalar (c : Char) : c.toNat < 0xd800 ∨ (0xdfff < c.toNat ∧ c.toNat < 0x110000) :=
  c.valid

/-- The bytes of a character. -/
theorem utf8EncodeChar_eq (c : Char) :
    String.utf8EncodeChar c =
      if c.toNat ≤ 0x7f then [UInt8.ofNat c.toNat]
      else if c.toNat ≤ 0x7ff then
        [UInt8.ofNat (c.toNat / 64 % 0x20 + 0xc0), UInt8.ofNat (c.toNat % 0x40 + 0x80)]
      else if c.toNat ≤ 0xffff then
        [UInt8.ofNat (c.toNat / 4096 % 0x10 + 0xe0), UInt8.ofNat (c.toNat / 64 % 0x40 + 0x80),
          UInt8.ofNat (c.toNat % 0x40 + 0x80)]
      else
        [UInt8.ofNat (c.toNat / 262144 % 0x08 + 0xf0), UInt8.ofNat (c.toNat / 4096 % 0x40 + 0x80),
          UInt8.ofNat (c.toNat / 64 % 0x40 + 0x80), UInt8.ofNat (c.toNat % 0x40 + 0x80)] := rfl

/-- The bytes of a character are decoded. -/
theorem codepointAt_char (src : Nat → UInt8) (start : Nat) (c : Char)
    (holds : ∀ i, ∀ inside : i < (String.utf8EncodeChar c).length,
      src (start + i) = (String.utf8EncodeChar c)[i]) :
    grubUtf8CharLen (src start) = (String.utf8EncodeChar c).length ∧
      codepointAt src start = c.toNat := by
  have scalar := toNat_scalar c
  have encoded := utf8EncodeChar_eq c
  rw [codepointAt]
  generalize String.utf8EncodeChar c = bytes at *
  generalize c.toNat = v at *
  by_cases one : v ≤ 0x7f
  · rw [if_pos one] at encoded
    subst encoded
    have first : src start = UInt8.ofNat v := holds 0 (by simp)
    have size := @toNat_ofNat_small v (by omega)
    rw [← first] at size
    have len := (grubUtf8CharLen_cases (src start)).1 (by omega)
    rw [len]
    exact ⟨rfl, size⟩
  by_cases two : v ≤ 0x7ff
  · rw [if_neg one, if_pos two] at encoded
    subst encoded
    have first : src start = UInt8.ofNat (v / 64 % 0x20 + 0xc0) := holds 0 (by simp)
    have second : src (start + 1) = UInt8.ofNat (v % 0x40 + 0x80) := holds 1 (by simp)
    have size := @toNat_ofNat_small (v / 64 % 0x20 + 0xc0) (by omega)
    have sizeSecond := @toNat_ofNat_small (v % 0x40 + 0x80) (by omega)
    rw [← first] at size
    rw [← second] at sizeSecond
    have len := (grubUtf8CharLen_cases (src start)).2.1 (by omega) (by omega)
    have high : (src start).toNat &&& 0x1f = (src start).toNat % 32 :=
      Nat.and_two_pow_sub_one_eq_mod _ 5
    rw [len]
    refine ⟨rfl, ?_⟩
    rw [grubUtf8ToUtf32, utf8ShiftAndMask_eq, high, size, sizeSecond]
    omega
  by_cases three : v ≤ 0xffff
  · rw [if_neg one, if_neg two, if_pos three] at encoded
    subst encoded
    have first : src start = UInt8.ofNat (v / 4096 % 0x10 + 0xe0) := holds 0 (by simp)
    have second : src (start + 1) = UInt8.ofNat (v / 64 % 0x40 + 0x80) := holds 1 (by simp)
    have third : src (start + 2) = UInt8.ofNat (v % 0x40 + 0x80) := holds 2 (by simp)
    have size := @toNat_ofNat_small (v / 4096 % 0x10 + 0xe0) (by omega)
    have sizeSecond := @toNat_ofNat_small (v / 64 % 0x40 + 0x80) (by omega)
    have sizeThird := @toNat_ofNat_small (v % 0x40 + 0x80) (by omega)
    rw [← first] at size
    rw [← second] at sizeSecond
    rw [← third] at sizeThird
    have len := (grubUtf8CharLen_cases (src start)).2.2.1 (by omega) (by omega)
    have high : (src start).toNat &&& 0x0f = (src start).toNat % 16 :=
      Nat.and_two_pow_sub_one_eq_mod _ 4
    rw [len]
    refine ⟨rfl, ?_⟩
    rw [grubUtf8ToUtf32, utf8ShiftAndMask_eq, utf8ShiftAndMask_eq, high, size, sizeSecond, sizeThird]
    omega
  · rw [if_neg one, if_neg two, if_neg three] at encoded
    subst encoded
    have first : src start = UInt8.ofNat (v / 262144 % 0x08 + 0xf0) := holds 0 (by simp)
    have second : src (start + 1) = UInt8.ofNat (v / 4096 % 0x40 + 0x80) := holds 1 (by simp)
    have third : src (start + 2) = UInt8.ofNat (v / 64 % 0x40 + 0x80) := holds 2 (by simp)
    have fourth : src (start + 3) = UInt8.ofNat (v % 0x40 + 0x80) := holds 3 (by simp)
    have size := @toNat_ofNat_small (v / 262144 % 0x08 + 0xf0) (by omega)
    have sizeSecond := @toNat_ofNat_small (v / 4096 % 0x40 + 0x80) (by omega)
    have sizeThird := @toNat_ofNat_small (v / 64 % 0x40 + 0x80) (by omega)
    have sizeFourth := @toNat_ofNat_small (v % 0x40 + 0x80) (by omega)
    rw [← first] at size
    rw [← second] at sizeSecond
    rw [← third] at sizeThird
    rw [← fourth] at sizeFourth
    have len := (grubUtf8CharLen_cases (src start)).2.2.2 (by omega)
    have high : (src start).toNat &&& 0x07 = (src start).toNat % 8 :=
      Nat.and_two_pow_sub_one_eq_mod _ 3
    rw [len]
    refine ⟨rfl, ?_⟩
    rw [grubUtf8ToUtf32, utf8ShiftAndMask_eq, utf8ShiftAndMask_eq, utf8ShiftAndMask_eq, high, size,
      sizeSecond, sizeThird, sizeFourth]
    omega

/-- A text starts with the bytes of its first character. -/
theorem utf8Bytes_cons (c : Char) (text : List Char) :
    utf8Bytes (c :: text) = String.utf8EncodeChar c ++ utf8Bytes text := by
  rw [utf8Bytes, utf8Bytes, List.flatMap_cons]

/-- A character has a unit at least -/
theorem utf16Units_pos (c : Char) : 0 < (utf16Units c).length := by
  rw [utf16Units]
  split
  · exact Nat.one_pos
  · exact Nat.two_pos

/-- and a byte, -/
theorem utf8EncodeChar_pos (c : Char) : 0 < (String.utf8EncodeChar c).length :=
  List.length_pos_iff.mpr String.utf8EncodeChar_ne_nil

/-- The units of a code point are stored one after the other, and nothing before them changes. -/
theorem putCodepoint_units (state : Conversion) (c : Char) :
    (state.putCodepoint c.toNat).dst = state.dst + (utf16Units c).length ∧
      (∀ j < state.dst, (state.putCodepoint c.toNat).array j = state.array j) ∧
      ∀ j, ∀ inside : j < (utf16Units c).length,
        (state.putCodepoint c.toNat).array (state.dst + j) = (utf16Units c)[j] := by
  rw [Conversion.putCodepoint]
  by_cases single : c.toNat ≤ 0xffff
  · have units : utf16Units c = [UInt16.ofNat c.toNat] := if_pos single
    rw [if_pos single, units]
    refine ⟨rfl, fun j before => Function.update_of_ne (Nat.ne_of_lt before) _ _, ?_⟩
    intro j inside
    obtain rfl : j = 0 := Nat.lt_one_iff.mp inside
    exact Function.update_self _ _ _
  · have units : utf16Units c = [UInt16.ofNat ((c.toNat - 0x10000) / 2 ^ 10 + 0xd800),
        UInt16.ofNat ((c.toNat - 0x10000) % 2 ^ 10 + 0xdc00)] := if_neg single
    have low : (c.toNat - 0x10000) &&& 0x3ff = (c.toNat - 0x10000) % 2 ^ 10 :=
      Nat.and_two_pow_sub_one_eq_mod _ 10
    rw [if_neg single, units, low, Nat.shiftRight_eq_div_pow]
    refine ⟨rfl, fun j before => ?_, fun j inside => ?_⟩
    · refine (Function.update_of_ne (Nat.ne_of_lt (Nat.lt_succ_of_lt before)) _ _).trans ?_
      exact Function.update_of_ne (Nat.ne_of_lt before) _ _
    · match j, inside with
      | 0, _ =>
        refine (Function.update_of_ne (Nat.ne_of_lt (Nat.lt_succ_self _)) _ _).trans ?_
        exact Function.update_self _ _ _
      | 1, _ => exact Function.update_self _ _ _

/-! ## The loop -/

section

variable {src : Nat → UInt8} {srclen dstlen : Nat}

/-- The rounds for the characters that are left store their units. -/
theorem convertLoop_chars (text : List Char) {state : Conversion} {rounds : Nat}
    (holds : ∀ i, ∀ inside : i < (utf8Bytes text).length,
      src (state.src + i) = (utf8Bytes text)[i])
    (length : state.src + (utf8Bytes text).length = srclen)
    (room : state.dst + (text.flatMap utf16Units).length ≤ dstlen) (enough : text.length ≤ rounds) :
    (convertLoop src srclen dstlen rounds state).dst =
        state.dst + (text.flatMap utf16Units).length ∧
      (∀ j < state.dst, (convertLoop src srclen dstlen rounds state).array j = state.array j) ∧
      ∀ j, ∀ inside : j < (text.flatMap utf16Units).length,
        (convertLoop src srclen dstlen rounds state).array (state.dst + j) =
          (text.flatMap utf16Units)[j] := by
  induction text generalizing state rounds with
  | nil =>
      have stops : convertLoop src srclen dstlen rounds state = state := by
        cases rounds with
        | zero => rfl
        | succ rounds =>
            refine if_neg fun goesOn => Nat.ne_of_lt goesOn.1 ?_
            exact length
      rw [stops]
      exact ⟨rfl, fun _ _ => rfl, fun j inside => absurd inside (Nat.not_lt_zero j)⟩
  | cons c text inductionHypothesis =>
      obtain ⟨rounds, rfl⟩ : ∃ less, rounds = less + 1 :=
        Nat.exists_eq_add_one.mpr (Nat.lt_of_lt_of_le (Nat.succ_pos _) enough)
      have bytes := utf8Bytes_cons c text
      have units : (c :: text).flatMap utf16Units = utf16Units c ++ text.flatMap utf16Units := rfl
      rw [bytes, List.length_append] at length
      rw [units, List.length_append] at room
      have some_ := utf8EncodeChar_pos c
      have someUnit := utf16Units_pos c
      obtain ⟨len, codepoint⟩ := codepointAt_char src state.src c fun i inside => by
        have here := holds i (by rw [bytes, List.length_append]; omega)
        rw [here]
        exact List.getElem_append_left inside
      obtain ⟨dst, before, stored⟩ := putCodepoint_units state c
      have next : (convertChar src state).src = state.src + (String.utf8EncodeChar c).length := by
        rw [← len]
        rfl
      have put : (convertChar src state).dst = (state.putCodepoint c.toNat).dst ∧
          (convertChar src state).array = (state.putCodepoint c.toNat).array := by
        rw [← codepoint]
        exact ⟨rfl, rfl⟩
      have goesOn : convertLoop src srclen dstlen (rounds + 1) state =
          convertLoop src srclen dstlen rounds (convertChar src state) :=
        if_pos ⟨by omega, by omega⟩
      obtain ⟨dst', before', stored'⟩ := @inductionHypothesis (convertChar src state) rounds
        (fun i inside => by
          have there := holds ((String.utf8EncodeChar c).length + i)
            (by rw [bytes, List.length_append]; omega)
          rw [next, Nat.add_assoc, there]
          simp only [bytes, List.getElem_append_right (Nat.le_add_right _ _),
            Nat.add_sub_cancel_left])
        (by omega) (by omega) (Nat.le_of_succ_le_succ enough)
      rw [put.1, dst] at dst' before' stored'
      rw [put.2] at before'
      rw [goesOn]
      refine ⟨?_, fun j earlier => ?_, fun j inside => ?_⟩
      · rw [dst', units, List.length_append, Nat.add_assoc]
      · rw [before' j (Nat.lt_of_lt_of_le earlier (Nat.le_add_right _ _)), before j earlier]
      · rw [units, List.length_append] at inside
        by_cases own : j < (utf16Units c).length
        · rw [before' _ (Nat.add_lt_add_left own _), stored j own]
          exact (List.getElem_append_left own).symm
        · obtain ⟨behind, rfl⟩ := Nat.exists_eq_add_of_le (Nat.not_lt.mp own)
          rw [← Nat.add_assoc, stored' behind (by omega)]
          simp only [units, List.getElem_append_right (Nat.le_add_right _ _),
            Nat.add_sub_cancel_left]

/-- so a text has no more characters than bytes. -/
theorem length_le_utf8Bytes (text : List Char) : text.length ≤ (utf8Bytes text).length := by
  induction text with
  | nil => exact Nat.le_refl 0
  | cons c text inductionHypothesis =>
      have some_ := utf8EncodeChar_pos c
      have bytes := utf8Bytes_cons c text
      rw [bytes, List.length_append, List.length_cons]
      omega

/-- A text is converted to its units. -/
theorem grubUtf8ToUtf16_units (text : List Char) (array : Nat → UInt16)
    (holds : ∀ i, ∀ inside : i < (utf8Bytes text).length, src i = (utf8Bytes text)[i])
    (room : (text.flatMap utf16Units).length ≤ dstlen) :
    storedUnits (grubUtf8ToUtf16 src (utf8Bytes text).length dstlen array).array
      (text.flatMap utf16Units).length = text.flatMap utf16Units := by
  obtain ⟨dst, -, stored⟩ := @convertLoop_chars src (utf8Bytes text).length dstlen text
    { src := 0, dst := 0, array, reads := [], writes := [] } (utf8Bytes text).length
    (fun i inside => by rw [Nat.zero_add, holds i inside]) (Nat.zero_add _)
    (by rw [Nat.zero_add]; exact room) (length_le_utf8Bytes text)
  apply List.ext_getElem
  · rw [storedUnits, List.length_map, List.length_range]
  intro j _ inside
  have here := stored j inside
  rw [Nat.zero_add] at here dst
  simp only [storedUnits, List.getElem_map, List.getElem_range]
  rw [← here, grubUtf8ToUtf16, convertEnd]
  split
  · exact Function.update_of_ne (by omega) _ _
  · rfl

end

/-! ## The way back -/

/-- The bytes that come back for a character. -/
def cameBack (c : Char) : List UInt8 :=
  if c.toNat ≤ 0x7f then [UInt8.ofNat c.toNat]
  else if c.toNat ≤ 0x7ff then
    [UInt8.ofNat ((c.toNat >>> 6) ||| 0xc0), UInt8.ofNat ((c.toNat &&& 0x3f) ||| 0x80)]
  else if c.toNat ≤ 0xffff then
    [UInt8.ofNat ((c.toNat >>> 16) ||| 0xe0), UInt8.ofNat (((c.toNat >>> 12) &&& 0x3f) ||| 0x80),
      UInt8.ofNat ((c.toNat &&& 0x3f) ||| 0x80)]
  else
    fourBytes ((((c.toNat - 0x10000) / 2 ^ 10) <<< 12) + (c.toNat - 0x10000) % 2 ^ 10 + 0x10000)

/-- A number of 16 bits is a unit as it is. -/
theorem toNat_unit {value : Nat} (small : value < 2 ^ 16) :
    (UInt16.ofNat value).toNat = value := by
  rw [UInt16.toNat_ofNat']
  exact Nat.mod_eq_of_lt small

/-- A character comes back as it does alone, and then the rest, -/
theorem grubUtf16ToUtf8_char (c : Char) (units : List UInt16) :
    grubUtf16ToUtf8 0 (utf16Units c ++ units) = cameBack c ++ grubUtf16ToUtf8 0 units := by
  have scalar := toNat_scalar c
  rw [utf16Units, cameBack]
  generalize c.toNat = v at *
  by_cases single : v ≤ 0xffff
  · rw [if_pos single, List.singleton_append, grubUtf16ToUtf8, toNat_unit (by omega),
      if_neg (by decide)]
    by_cases one : v ≤ 0x7f
    · rw [if_pos one, if_pos one]
      rfl
    rw [if_neg one, if_neg one]
    by_cases two : v ≤ 0x7ff
    · rw [if_pos two, if_pos two]
      rfl
    rw [if_neg two, if_neg two, if_pos single, if_neg (by omega), if_neg (by omega)]
    rfl
  · have high : (v - 0x10000) / 2 ^ 10 + 0xd800 < 2 ^ 16 := by omega
    have low : (v - 0x10000) % 2 ^ 10 + 0xdc00 < 2 ^ 16 := by omega
    rw [if_neg single, if_neg (by omega), if_neg (by omega), if_neg single]
    rw [List.cons_append, List.singleton_append, grubUtf16ToUtf8, toNat_unit high, if_neg (by decide),
      if_neg (by omega), if_neg (by omega), if_pos (by omega), grubUtf16ToUtf8, toNat_unit low,
      if_pos (by omega), if_pos (by omega), Nat.add_sub_cancel, Nat.add_sub_cancel]

/-- so a text comes back character by character. -/
theorem grubUtf16ToUtf8_text (text : List Char) :
    grubUtf16ToUtf8 0 (text.flatMap utf16Units) = text.flatMap cameBack := by
  induction text with
  | nil => rfl
  | cons c text inductionHypothesis =>
      rw [List.flatMap_cons, List.flatMap_cons, grubUtf16ToUtf8_char, inductionHypothesis]

/-- As many bytes come back as there were. -/
theorem cameBack_length (c : Char) : (cameBack c).length = (String.utf8EncodeChar c).length := by
  rw [cameBack, utf8EncodeChar_eq]
  by_cases one : c.toNat ≤ 0x7f
  · rw [if_pos one, if_pos one]
  rw [if_neg one, if_neg one]
  by_cases two : c.toNat ≤ 0x7ff
  · rw [if_pos two, if_pos two]
    simp only [List.length_cons, List.length_nil]
  rw [if_neg two, if_neg two]
  by_cases three : c.toNat ≤ 0xffff
  · rw [if_pos three, if_pos three]
    simp only [List.length_cons, List.length_nil]
  · rw [if_neg three, if_neg three]
    simp only [fourBytes, List.length_cons, List.length_nil]

/-- Three bytes never come back: their shifts are those of four. -/
theorem three_ne {v : Nat} (two : ¬ v ≤ 0x7ff) (three : v ≤ 0xffff) :
    [UInt8.ofNat ((v >>> 16) ||| 0xe0), UInt8.ofNat (((v >>> 12) &&& 0x3f) ||| 0x80),
        UInt8.ofNat ((v &&& 0x3f) ||| 0x80)] ≠
      [UInt8.ofNat (v / 4096 % 0x10 + 0xe0), UInt8.ofNat (v / 64 % 0x40 + 0x80),
        UInt8.ofNat (v % 0x40 + 0x80)] := by
  intro same
  obtain ⟨first, second, -⟩ := List.cons.inj same |>.imp_right List.cons.inj
  have none_ : v >>> 16 = 0 := by
    rw [Nat.shiftRight_eq_div_pow]
    omega
  rw [none_, show 0 ||| 0xe0 = 0xe0 from rfl, ofNat_inj (by decide) (by omega)] at first
  rw [low_six, Nat.shiftRight_eq_div_pow, tail_bits (Nat.mod_lt _ (by decide)),
    ofNat_inj (by omega) (by omega)] at second
  omega

/-- Four bytes come back if the high half of the pair has no bits. -/
theorem four_iff {v : Nat} (three : ¬ v ≤ 0xffff) (limit : v < 0x110000) :
    fourBytes ((((v - 0x10000) / 2 ^ 10) <<< 12) + (v - 0x10000) % 2 ^ 10 + 0x10000) =
        [UInt8.ofNat (v / 262144 % 0x08 + 0xf0), UInt8.ofNat (v / 4096 % 0x40 + 0x80),
          UInt8.ofNat (v / 64 % 0x40 + 0x80), UInt8.ofNat (v % 0x40 + 0x80)] ↔ v ≤ 0x103ff := by
  rw [Nat.shiftLeft_eq, fourBytes]
  rw [low_six, low_six, low_six, Nat.shiftRight_eq_div_pow, Nat.shiftRight_eq_div_pow,
    Nat.shiftRight_eq_div_pow, four_bits (by omega), tail_bits (Nat.mod_lt _ (by decide)),
    tail_bits (Nat.mod_lt _ (by decide)), tail_bits (Nat.mod_lt _ (by decide))]
  simp only [List.cons.injEq, and_true]
  rw [ofNat_inj (by omega) (by omega), ofNat_inj (by omega) (by omega),
    ofNat_inj (by omega) (by omega), ofNat_inj (by omega) (by omega)]
  omega

/-- What a character comes back as is itself just when it has one unit, -/
theorem cameBack_iff (c : Char) : cameBack c = String.utf8EncodeChar c ↔ ComesBack c := by
  have scalar := toNat_scalar c
  rw [cameBack, utf8EncodeChar_eq, ComesBack]
  by_cases one : c.toNat ≤ 0x7f
  · rw [if_pos one, if_pos one]
    exact ⟨fun _ => .inl (by omega), fun _ => rfl⟩
  rw [if_neg one, if_neg one]
  by_cases two : c.toNat ≤ 0x7ff
  · rw [if_pos two, if_pos two, low_six, Nat.shiftRight_eq_div_pow, two_bits (by omega),
      tail_bits (Nat.mod_lt _ (by decide))]
    have shift : c.toNat / 2 ^ 6 = c.toNat / 64 % 0x20 := by omega
    refine ⟨fun _ => .inl two, fun _ => ?_⟩
    exact congrArg (fun high => [UInt8.ofNat (high + 0xc0), UInt8.ofNat (c.toNat % 0x40 + 0x80)]) shift
  rw [if_neg two, if_neg two]
  by_cases three : c.toNat ≤ 0xffff
  · rw [if_pos three, if_pos three]
    exact ⟨fun same => absurd same (three_ne two three), fun low => absurd low (by omega)⟩
  · rw [if_neg three, if_neg three, four_iff three (by omega)]
    omega

/-- and so for a text and all of its characters. -/
theorem cameBack_text_iff (text : List Char) :
    text.flatMap cameBack = utf8Bytes text ↔ ∀ c ∈ text, ComesBack c := by
  induction text with
  | nil =>
      rw [utf8Bytes, List.flatMap_nil, List.flatMap_nil]
      exact ⟨fun _ c member => absurd member List.not_mem_nil, fun _ => rfl⟩
  | cons c text inductionHypothesis =>
      rw [List.flatMap_cons, utf8Bytes_cons, List.forall_mem_cons]
      have first := cameBack_iff c
      have length := cameBack_length c
      generalize cameBack c = back at *
      generalize String.utf8EncodeChar c = bytes at *
      constructor
      · intro same
        obtain ⟨here, rest⟩ := List.append_inj same length
        exact ⟨first.mp here, inductionHypothesis.mp rest⟩
      · rintro ⟨here, rest⟩
        rw [first.mpr here, inductionHypothesis.mpr rest]

/-- A text comes back if each of its characters does. -/
theorem roundTrips_iff (text : List Char) : RoundTrips text ↔ ∀ c ∈ text, ComesBack c := by
  rw [← cameBack_text_iff, ← grubUtf16ToUtf8_text]
  constructor
  · intro trips
    have back := trips (fun i => (utf8Bytes text).getD i 0) (fun _ => 0)
      (text.flatMap utf16Units).length (fun i inside => List.getD_eq_getElem _ _ inside)
      (Nat.le_refl _)
    rw [grubUtf8ToUtf16_units text _ (fun i inside => List.getD_eq_getElem _ _ inside)
      (Nat.le_refl _)] at back
    exact back
  · intro same src array dstlen holds room
    rw [grubUtf8ToUtf16_units text array holds room]
    exact same

/-! ## Bounds -/

section

variable {src : Nat → UInt8} {srclen dstlen : Nat}

/-- What a code point takes of the array. -/
theorem putCodepoint_writes (state : Conversion) (codepoint : Nat) :
    (state.putCodepoint codepoint).reads = state.reads ∧
      (state.putCodepoint codepoint).dst =
        state.dst + (if codepoint ≤ 0xffff then 1 else 2) ∧
      ((∀ j ∈ (state.putCodepoint codepoint).writes, j < dstlen) ↔
        (state.putCodepoint codepoint).dst ≤ dstlen ∧ ∀ j ∈ state.writes, j < dstlen) := by
  rw [Conversion.putCodepoint]
  split
  · refine ⟨rfl, rfl, ?_⟩
    exact List.forall_mem_cons
  · refine ⟨rfl, rfl, ?_⟩
    simp only [Conversion.put, List.forall_mem_cons]
    constructor
    · rintro ⟨second, -, rest⟩
      exact ⟨second, rest⟩
    · rintro ⟨second, rest⟩
      exact ⟨second, Nat.lt_of_succ_lt second, rest⟩

/-- The bytes from a place on lie in the source. -/
theorem range_inside {start len : Nat} (some_ : 0 < len) :
    (∀ i ∈ (List.range len).map (start + ·), i < srclen) ↔ start + len ≤ srclen := by
  constructor
  · intro every
    have final := every (start + (len - 1))
      (List.mem_map_of_mem (List.mem_range.mpr (Nat.sub_one_lt (Nat.ne_of_gt some_))))
    omega
  · intro inside i member
    obtain ⟨offset, isOffset, rfl⟩ := List.mem_map.mp member
    have less := List.mem_range.mp isOffset
    omega

/-- A round stays inside when its character ends there. -/
theorem convertChar_inside (state : Conversion) :
    StaysInside srclen dstlen (convertChar src state) ↔
      StaysInside srclen dstlen state ∧ (convertChar src state).src ≤ srclen ∧
        (convertChar src state).dst ≤ dstlen := by
  obtain ⟨-, -, writes⟩ := @putCodepoint_writes dstlen state (codepointAt src state.src)
  have reads := @range_inside srclen state.src _ (grubUtf8CharLen_pos (src state.src))
  rw [StaysInside, StaysInside]
  simp only [convertChar]
  rw [writes, List.forall_mem_append, reads]
  constructor
  · rintro ⟨⟨ends, read⟩, room, written⟩
    exact ⟨⟨read, written⟩, ends, room⟩
  · rintro ⟨⟨read, written⟩, ends, room⟩
    exact ⟨⟨ends, read⟩, room, written⟩

/-- Later characters start later, -/
theorem charStart_mono (src : Nat → UInt8) {n n' : Nat} (later : n ≤ n') :
    charStart src n ≤ charStart src n' := by
  induction later with
  | refl => exact Nat.le_refl _
  | step _ inductionHypothesis => exact Nat.le_trans inductionHypothesis (Nat.le_add_right _ _)

/-- and so do their units. -/
theorem unitStart_mono (src : Nat → UInt8) {n n' : Nat} (later : n ≤ n') :
    unitStart src n ≤ unitStart src n' := by
  induction later with
  | refl => exact Nat.le_refl _
  | step _ inductionHypothesis => exact Nat.le_trans inductionHypothesis (Nat.le_add_right _ _)

/-- From a character on none that is begun is cut off. -/
def NoneCutOffFrom (src : Nat → UInt8) (srclen dstlen n : Nat) : Prop :=
  ∀ n' ≥ n, charStart src n' < srclen → unitStart src n' < dstlen →
    charStart src (n' + 1) ≤ srclen ∧ unitStart src (n' + 1) ≤ dstlen

/-- Where the loop ends no character is begun. -/
theorem noneCutOffFrom_end {n : Nat}
    (stop : ¬ (charStart src n < srclen ∧ unitStart src n < dstlen)) :
    NoneCutOffFrom src srclen dstlen n := by
  intro n' later begun room
  have place := charStart_mono src later
  have unit := unitStart_mono src later
  exact absurd ⟨by omega, by omega⟩ stop

/-- None is cut off from a character on just when neither this one nor a later one is. -/
theorem noneCutOffFrom_next {n : Nat} (begun : charStart src n < srclen)
    (room : unitStart src n < dstlen) :
    NoneCutOffFrom src srclen dstlen n ↔
      (charStart src (n + 1) ≤ srclen ∧ unitStart src (n + 1) ≤ dstlen) ∧
        NoneCutOffFrom src srclen dstlen (n + 1) := by
  constructor
  · exact fun none_ => ⟨none_ n (Nat.le_refl n) begun room,
      fun n' later => none_ n' (Nat.le_of_succ_le later)⟩
  · rintro ⟨here, rest⟩ n' later begun' room'
    rcases Nat.eq_or_lt_of_le later with rfl | behind
    · exact here
    · exact rest n' behind begun' room'

/-- From the start of a character on, the rounds stay inside when the characters that are begun
end there. -/
theorem convertLoop_inside {rounds n : Nat} {state : Conversion}
    (atSrc : state.src = charStart src n) (atDst : state.dst = unitStart src n)
    (enough : srclen ≤ state.src + rounds) :
    StaysInside srclen dstlen (convertLoop src srclen dstlen rounds state) ↔
      StaysInside srclen dstlen state ∧ NoneCutOffFrom src srclen dstlen n := by
  induction rounds generalizing n state with
  | zero =>
      have none := @noneCutOffFrom_end src srclen dstlen n
        fun goesOn => by omega
      exact ⟨fun inside => ⟨inside, none⟩, And.left⟩
  | succ rounds inductionHypothesis =>
      rw [convertLoop, atSrc, atDst]
      by_cases goesOn : charStart src n < srclen ∧ unitStart src n < dstlen
      · have nextSrc : (convertChar src state).src = charStart src (n + 1) := by
          rw [charStart, ← atSrc]
          rfl
        have nextDst : (convertChar src state).dst = unitStart src (n + 1) := by
          have put := (@putCodepoint_writes dstlen state (codepointAt src state.src)).2.1
          rw [unitStart, ← atSrc, ← atDst]
          exact put
        have len := grubUtf8CharLen_pos (src (charStart src n))
        have longer : charStart src (n + 1) =
          charStart src n + grubUtf8CharLen (src (charStart src n)) := rfl
        rw [if_pos goesOn, inductionHypothesis nextSrc nextDst (by omega), convertChar_inside,
          nextSrc, nextDst, noneCutOffFrom_next goesOn.1 goesOn.2, and_assoc]
      · rw [if_neg goesOn]
        exact ⟨fun inside => ⟨inside, noneCutOffFrom_end goesOn⟩, And.left⟩

/-- A conversion stays inside when no character that is begun is cut off. -/
theorem staysInside_iff (array : Nat → UInt16) :
    StaysInside srclen dstlen (grubUtf8ToUtf16 src srclen dstlen array) ↔
      NoneCutOff src srclen dstlen := by
  have loop := @convertLoop_inside src srclen dstlen srclen 0
    { src := 0, dst := 0, array, reads := [], writes := [] } rfl rfl (Nat.le_add_left _ _)
  have nothing : StaysInside srclen dstlen
      { src := 0, dst := 0, array, reads := [], writes := [] } :=
    ⟨fun _ member => absurd member List.not_mem_nil, fun _ member => absurd member List.not_mem_nil⟩
  have from_ : NoneCutOffFrom src srclen dstlen 0 ↔ NoneCutOff src srclen dstlen :=
    ⟨fun every n => every n (Nat.zero_le n), fun every n _ => every n⟩
  have inLoop := (loop.trans (and_iff_right nothing)).trans from_
  rw [← inLoop, grubUtf8ToUtf16, convertEnd]
  split
  next room =>
    exact and_congr_right fun _ => (List.forall_mem_cons.trans (and_iff_right room))
  · rfl

end

/-! ## The conversions -/

/-- When a text comes back, and when a conversion stays inside of both arrays. -/
theorem utf_conversions (text : List Char) (src : Nat → UInt8) (srclen dstlen : Nat)
    (array : Nat → UInt16) :
    (RoundTrips text ↔ ∀ c ∈ text, ComesBack c) ∧
      (StaysInside srclen dstlen (grubUtf8ToUtf16 src srclen dstlen array) ↔
        NoneCutOff src srclen dstlen) :=
  ⟨roundTrips_iff text, staysInside_iff array⟩

/-- The first half fails: the euro sign does not come back. -/
theorem utf_conversions_fail :
    ¬ ((∀ text : List Char, RoundTrips text) ∧
      ∀ (src : Nat → UInt8) (srclen dstlen : Nat) (array : Nat → UInt16),
        StaysInside srclen dstlen (grubUtf8ToUtf16 src srclen dstlen array)) := by
  rintro ⟨trips, -⟩
  exact absurd ((roundTrips_iff ['€']).mp (trips ['€']) '€' (List.mem_singleton.mpr rfl)) (by decide)

end GrubLegacy.Efi
