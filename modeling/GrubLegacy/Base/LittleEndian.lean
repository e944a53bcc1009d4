import GrubLegacy.Base.ByteArea

/-!
# Little-endian numbers in an area of bytes

What a field of two, four or eight bytes reads as wherever it lies, and the bytes that a number
is stored as. Some bytes are read as an area with zeroes behind them.
-/

namespace GrubLegacy.Base

/-! ## Reading and storing -/

/-- The area after bytes are put at its start. -/
def Area.fill (area : Area) (bytes : List UInt8) : Area := fun i => bytes.getD i (area i)

def Area.byte (area : Area) (offset : Nat) : Nat := (area offset).toNat

def Area.word16 (area : Area) (offset : Nat) : Nat :=
  area.byte offset + 0x100 * area.byte (offset + 1)

def Area.word32 (area : Area) (offset : Nat) : Nat :=
  area.word16 offset + 0x10000 * area.word16 (offset + 2)

def Area.word64 (area : Area) (offset : Nat) : Nat :=
  area.word32 offset + 0x100000000 * area.word32 (offset + 4)

/-- The half word at a position of some bytes. -/
def halfAt (bytes : List UInt8) (position : Nat) : Nat := (areaOf bytes).word16 position

/-- The word there. -/
def wordAt (bytes : List UInt8) (position : Nat) : Nat := (areaOf bytes).word32 position

/-- The bytes of a half word. -/
def halfBytes (half : Nat) : List UInt8 := [UInt8.ofNat half, UInt8.ofNat (half / 0x100)]

/-- The bytes of a word. -/
def wordBytes (word : Nat) : List UInt8 :=
  [UInt8.ofNat word, UInt8.ofNat (word / 0x100), UInt8.ofNat (word / 0x10000),
    UInt8.ofNat (word / 0x1000000)]

section

variable {area other : Area} {bytes : List UInt8}

/-! ## Ranges -/

/-- A byte is below 256, -/
theorem Area.byte_lt (area : Area) (offset : Nat) : area.byte offset < 256 := UInt8.toNat_lt _

/-- and words are in range, -/
theorem Area.word16_lt (area : Area) (offset : Nat) : area.word16 offset < 2 ^ 16 := by
  have low := area.byte_lt offset
  have high := area.byte_lt (offset + 1)
  rw [Area.word16]
  omega

/-- of either size. -/
theorem Area.word32_lt (area : Area) (offset : Nat) : area.word32 offset < 2 ^ 32 := by
  have low := area.word16_lt offset
  have high := area.word16_lt (offset + 2)
  rw [Area.word32]
  omega

/-- The lower half of a word is that at its place. -/
theorem word32_mod (area : Area) (offset : Nat) :
    area.word32 offset % 0x10000 = area.word16 offset := by
  have low := area.word16_lt offset
  rw [Area.word32]
  omega

/-! ## Areas with the same bytes -/

/-- Half words of the same bytes are equal, -/
theorem word16_congr {offset offset' : Nat}
    (same : ∀ i < 2, other (offset' + i) = area (offset + i)) :
    other.word16 offset' = area.word16 offset := by
  have first : other offset' = area offset := same 0 (by decide)
  have second := same 1 (by decide)
  rw [Area.word16, Area.word16, Area.byte, Area.byte, Area.byte, Area.byte, first, second]

/-- and so are words. -/
theorem word32_congr {offset offset' : Nat}
    (same : ∀ i < 4, other (offset' + i) = area (offset + i)) :
    other.word32 offset' = area.word32 offset := by
  have low : other.word16 offset' = area.word16 offset :=
    word16_congr fun i inside => same i (by omega)
  have high : other.word16 (offset' + 2) = area.word16 (offset + 2) :=
    word16_congr fun i inside => by
      rw [Nat.add_assoc, Nat.add_assoc]
      exact same (2 + i) (by omega)
  rw [Area.word32, Area.word32, low, high]

/-- A byte of those put at the start, -/
theorem fill_byte {offset : Nat} (inside : offset < bytes.length) :
    (area.fill bytes).byte offset = (areaOf bytes).byte offset := by
  rw [Area.byte, Area.byte, Area.fill, areaOf, List.getD_eq_getElem _ _ inside,
    List.getD_eq_getElem _ _ inside]

/-- a half word of them, -/
theorem fill_word16 {offset : Nat} (inside : offset + 2 ≤ bytes.length) :
    (area.fill bytes).word16 offset = (areaOf bytes).word16 offset := by
  rw [Area.word16, Area.word16, fill_byte (by omega), fill_byte (by omega)]

/-- a word -/
theorem fill_word32 {offset : Nat} (inside : offset + 4 ≤ bytes.length) :
    (area.fill bytes).word32 offset = (areaOf bytes).word32 offset := by
  rw [Area.word32, Area.word32, fill_word16 (by omega), fill_word16 (by omega)]

/-- and two words. -/
theorem fill_word64 {offset : Nat} (inside : offset + 8 ≤ bytes.length) :
    (area.fill bytes).word64 offset = (areaOf bytes).word64 offset := by
  rw [Area.word64, Area.word64, fill_word32 (by omega), fill_word32 (by omega)]

/-- What is put there again replaces what was put there before. -/
theorem fill_fill (area : Area) {before after : List UInt8}
    (covers : before.length ≤ after.length) :
    (area.fill before).fill after = area.fill after := by
  funext i
  rw [Area.fill, Area.fill, Area.fill]
  rcases Nat.lt_or_ge i after.length with inside | outside
  · rw [List.getD_eq_getElem _ _ inside, List.getD_eq_getElem _ _ inside]
  · rw [List.getD_eq_default _ _ outside, List.getD_eq_default _ _ outside,
      List.getD_eq_default _ _ (covers.trans outside)]

/-! ## Numbers that are stored -/

/-- A half word is read back, -/
theorem halfAt_halfBytes {half : Nat} (small : half < 2 ^ 16) (rest : List UInt8) :
    halfAt (halfBytes half ++ rest) 0 = half := by
  have low : areaOf (halfBytes half ++ rest) 0 = UInt8.ofNat half := rfl
  have high : areaOf (halfBytes half ++ rest) (0 + 1) = UInt8.ofNat (half / 0x100) := rfl
  rw [halfAt, Area.word16, Area.byte, Area.byte, low, high, UInt8.toNat_ofNat', UInt8.toNat_ofNat']
  omega

/-- and so is a word, -/
theorem word32_wordBytes {word : Nat} (small : word < 2 ^ 32) :
    (areaOf (wordBytes word)).word32 0 = word := by
  have first : areaOf (wordBytes word) 0 = UInt8.ofNat word := rfl
  have second : areaOf (wordBytes word) (0 + 1) = UInt8.ofNat (word / 0x100) := rfl
  have third : areaOf (wordBytes word) (0 + 2) = UInt8.ofNat (word / 0x10000) := rfl
  have fourth : areaOf (wordBytes word) (0 + 2 + 1) = UInt8.ofNat (word / 0x1000000) := rfl
  simp only [Area.word32, Area.word16, Area.byte, first, second, third, fourth,
    UInt8.toNat_ofNat']
  omega

/-- wherever its bytes are, -/
theorem word32_of_bytes {offset word : Nat} (small : word < 2 ^ 32)
    (stored : ∀ i < 4, area (offset + i) = areaOf (wordBytes word) i) :
    area.word32 offset = word := by
  calc area.word32 offset = (areaOf (wordBytes word)).word32 0 := by
        apply word32_congr
        intro i inside
        rw [stored i inside, Nat.zero_add]
    _ = word := word32_wordBytes small

/-- as behind other ones. -/
theorem wordAt_wordBytes {word : Nat} (small : word < 2 ^ 32) (front : List UInt8) :
    wordAt (front ++ wordBytes word) front.length = word := by
  apply word32_of_bytes small
  intro i inside
  rw [areaOf_append, if_neg (by omega), Nat.add_sub_cancel_left]

/-- Behind dropped bytes a word is at a lower position. -/
theorem wordAt_drop (bytes : List UInt8) (first position : Nat) :
    wordAt (bytes.drop first) position = wordAt bytes (first + position) := by
  apply word32_congr
  intro i _
  rw [areaOf_drop, Nat.add_assoc]

end

end GrubLegacy.Base
