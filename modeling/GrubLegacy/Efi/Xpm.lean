import GrubLegacy.Base.ByteArea
import GrubLegacy.Base.CStrings
import GrubLegacy.Base.MachineInt
import GrubLegacy.Base.QuotedStrings

/-!
# XPM pictures

`xpm_open` and `xpm_get_pixel` of `xpm.c`. A picture is read one character at a time, and at the
end of the file a read leaves the character before it where it is. Stores are kept in the order
they are made, also those that fall outside their arrays.
-/

namespace GrubLegacy.Efi

open Base CStrings

/-! ## Pictures -/

structure Colour where
  red : UInt8
  green : UInt8
  blue : UInt8
deriving DecidableEq

def Colour.black : Colour := ⟨0, 0, 0⟩

/-- `xpm_pixel_t` -/
structure XpmPixel extends Colour where
  reserved : UInt8
deriving DecidableEq

/-- A pixel of the cleared structure. -/
def XpmPixel.cleared : XpmPixel := ⟨Colour.black, 0⟩

def xpmMaxColors : Nat := 31

def xpmMaxWidth : Nat := 640

def xpmMaxHeight : Nat := 480

/-- `struct xpm`: the palette has 32 places, and the image as many as the largest picture. -/
structure Xpm where
  colors : Int
  palette : Nat → XpmPixel
  width : Int
  height : Int
  image : Int → UInt8

/-- The row is compared with the width. -/
def xpmGetPixelIdx (xpm : Xpm) (x y : Int) : UInt8 :=
  if x < 0 ∨ xpm.width ≤ x then 255
  else if y < 0 ∨ xpm.width ≤ y then 255
  else xpm.image (x + y * xpm.width)

def xpmGetIdx (xpm : Xpm) (idx : UInt8) (pixel : Option XpmPixel) : Option XpmPixel :=
  pixel.map fun pixel =>
    if xpm.colors ≤ idx.toNat then { pixel with red := 0, green := 0, blue := 0 }
    else xpm.palette idx.toNat

/-- What is returned, and the pixel stored for the caller. -/
def xpmGetPixel (xpm : Xpm) (x y : Int) (pixel : Option XpmPixel) : Int × Option XpmPixel :=
  (1, xpmGetIdx xpm (xpmGetPixelIdx xpm x y) pixel)

/-! ## Stores and failures -/

inductive XpmStore where
  | pal (index : Nat)
  | buf (index : Nat)
  | palette (index : Nat)
  | image (index : Int)
deriving DecidableEq

def XpmStore.Inside : XpmStore → Prop
  | .pal index => index < xpmMaxColors
  | .buf index => index < 32
  | .palette index => index < 32
  | .image index => 0 ≤ index ∧ index < xpmMaxWidth * xpmMaxHeight

/-- Why NULL is returned: `grub_malloc` or `grub_open` failed, the file ended before its first
line was found or before its last row, or the picture is too large. -/
inductive XpmFailure where
  | noMemory
  | openFailed
  | readFailed
  | tooWide (width : Int)
  | tooHigh (height : Int)
deriving DecidableEq

/-! ## Reading characters -/

/-- The character read last, and what is left of the file. -/
structure XpmReader where
  c : UInt8
  rest : List UInt8

def quote : UInt8 := charOf '"'

def isBlank (c : UInt8) : Bool := c = charOf ' ' || c = charOf '\t'

def isDecimal (c : UInt8) : Bool := charOf '0' ≤ c && c ≤ charOf '9'

/-- The value of a `char`, which is signed. -/
def charValue (c : UInt8) : Int := if c.toNat < 128 then c.toNat else (c.toNat : Int) - 256

/-- `grub_read (&c, 1)` -/
def readChar (r : XpmReader) : XpmReader :=
  match r.rest with
  | [] => r
  | c :: rest => ⟨c, rest⟩

/-- The file is read to the next quote. -/
def skipToQuote (c : UInt8) : List UInt8 → XpmReader
  | [] => ⟨c, []⟩
  | next :: rest => if next = quote then ⟨next, rest⟩ else skipToQuote next rest

def skipBlanks (c : UInt8) : List UInt8 → XpmReader
  | [] => ⟨c, []⟩
  | next :: rest => if isBlank next then skipBlanks next rest else ⟨next, rest⟩

/-- The number a field holds, and where its reading ends. -/
structure XpmField where
  value : Int
  reader : XpmReader

def readDigits (value : Int) (c : UInt8) : List UInt8 → XpmField
  | [] => ⟨value, c, []⟩
  | next :: rest =>
      if isDecimal next then
        readDigits (toInt32 (value * 10 + charValue next - charValue (charOf '0'))) next rest
      else ⟨value, next, rest⟩

/-- The first character of a field is taken for a digit, whatever it is. -/
def readField (r : XpmReader) : XpmField :=
  let first := skipBlanks r.c r.rest
  readDigits (charValue first.c - charValue (charOf '0')) first.c first.rest

def target : List UInt8 := ascii "/* XPM */\n"

/-- The target is looked for at the start of every line. -/
def findTarget (pos : Nat) (prev : UInt8) : List UInt8 → Option XpmReader
  | [] => none
  | c :: rest =>
      let pos :=
        if pos = 0 ∧ prev = charOf '\n' ∨ 0 < pos then
          if c = target.getD pos 0 then pos + 1 else 0
        else pos
      if pos = target.length then some ⟨c, rest⟩ else findTarget pos c rest

/-- Width, height and colours as they are read, and where the palette begins. -/
structure XpmHeader where
  width : Int
  height : Int
  colors : Int
  reader : XpmReader

def readHeader (content : List UInt8) : Except XpmFailure XpmHeader :=
  match findTarget 0 (charOf '\n') content with
  | none => .error .readFailed
  | some found =>
      let width := readField (skipToQuote found.c found.rest)
      if (xpmMaxWidth : Int) < width.value then .error (.tooWide width.value)
      else
        let height := readField width.reader
        if (xpmMaxHeight : Int) < height.value then .error (.tooHigh height.value)
        else
          let colors := readField height.reader
          .ok {
            width := width.value
            height := height.value
            colors := colors.value
            reader := skipToQuote colors.reader.c colors.reader.rest }

/-! ## The palette -/

/-- A line of the palette: `base`, the four characters for `\t c #`, and the `len` characters that
`buf` holds after that. -/
structure PaletteLine where
  base : UInt8
  skipped : List UInt8
  buf : List UInt8

/-- Only the first 32 characters before the next quote are kept. -/
def readBuf (buf : List UInt8) (c : UInt8) : List UInt8 → List UInt8 × XpmReader
  | [] => (buf, ⟨c, []⟩)
  | next :: rest =>
      if next = quote then (buf, ⟨next, rest⟩)
      else readBuf (if buf.length < 32 then buf ++ [next] else buf) next rest

def readLine (r : XpmReader) : PaletteLine × XpmReader :=
  let base := readChar (skipToQuote r.c r.rest)
  let text := readBuf [] base.c (base.rest.drop 4)
  (⟨base.c, base.rest.take 4, text.1⟩, text.2)

/-- `hex_to_int`, of which a colour keeps a byte. -/
def hexToInt (v : UInt8) : UInt8 :=
  if charOf 'A' ≤ v ∧ v ≤ charOf 'F' then v - charOf 'A' + 10
  else if charOf 'a' ≤ v ∧ v ≤ charOf 'f' then v - charOf 'a' + 10
  else v - charOf '0'

def hexPair (buf : List UInt8) (place : Nat) : UInt8 :=
  (hexToInt (buf.getD place 0) <<< 4) ||| hexToInt (buf.getD (place + 1) 0)

/-- The colour that six characters spell. -/
def hexColour (buf : List UInt8) : Colour := ⟨hexPair buf 0, hexPair buf 2, hexPair buf 4⟩

/-- `idx`, `pal` and the palette, and the stores so far. -/
structure ColourTable where
  idx : Nat
  pal : Nat → UInt8
  palette : Nat → XpmPixel
  stores : List XpmStore

/-- The four characters and those kept are both stored from the start of `buf`. -/
def bufStores (line : PaletteLine) : List XpmStore :=
  (List.range line.skipped.length).map .buf ++ (List.range line.buf.length).map .buf

/-- A line of six characters takes the next place. -/
def addLine (colors : Nat) (table : ColourTable) (line : PaletteLine) : ColourTable :=
  if line.buf.length = 6 ∧ table.idx < colors then {
    idx := table.idx + 1
    pal := fun i => if i = table.idx then line.base else table.pal i
    palette := fun i => if i = table.idx then ⟨hexColour line.buf, 0⟩ else table.palette i
    stores := table.stores ++ bufStores line ++ [.pal table.idx, .palette table.idx] }
  else { table with stores := table.stores ++ bufStores line }

/-- The lines read for the palette, as many as there should be colours. -/
def paletteLines : (count : Nat) → XpmReader → List PaletteLine
  | 0, _ => []
  | count + 1, r => (readLine r).1 :: paletteLines count (readLine r).2

/-- Where the palette ends. -/
def afterPalette : (count : Nat) → XpmReader → XpmReader
  | 0, r => r
  | count + 1, r => afterPalette count (readLine r).2

/-- The table before the first line: `pal` holds what is on the stack. -/
def firstTable (stack : Nat → UInt8) : ColourTable where
  idx := 1
  pal := stack
  palette := fun _ => .cleared
  stores := []

def readPalette (stack : Nat → UInt8) (colors : Nat) (r : XpmReader) : ColourTable :=
  (paletteLines colors r).foldl (addLine colors) (firstTable stack)

/-! ## The image -/

/-- A place of `pal` is compared with a signed character. -/
def SameChar (stored c : UInt8) : Prop := (stored.toNat : Int) = charValue c

instance (stored c : UInt8) : Decidable (SameChar stored c) := by
  unfold SameChar
  infer_instance

/-- The first of `count` places from `i` on that holds a character, or the index before. -/
def findColour (pal : Nat → UInt8) (c : UInt8) : (count i idx : Nat) → Nat
  | 0, _, idx => idx
  | count + 1, i, idx => if SameChar (pal i) c then i else findColour pal c count (i + 1) idx

structure Raster where
  idx : Nat
  x : Nat
  y : Nat
  image : Int → UInt8
  stores : List XpmStore

/-- The place `xpm_set_pixel_idx` stores to. -/
def imagePlace (width : Int) (x y : Nat) : Int := toInt32 (toInt32 y * width + toInt32 x)

def pixelStep (width : Int) (colors : Nat) (pal : Nat → UInt8) (st : Raster) (c : UInt8) : Raster :=
  let idx := findColour pal c (colors - 1) 1 st.idx
  let place := imagePlace width st.x st.y
  let x := toUInt32 (st.x + 1)
  { idx := idx
    x := if toUInt32 width ≤ x then 0 else x
    y := if toUInt32 width ≤ x then toUInt32 (st.y + 1) else st.y
    image := fun i => if i = place then UInt8.ofNat idx else st.image i
    stores := st.stores ++ [.image place] }

/-- The rows are read until there are as many as the picture is high. -/
def rowFold (header : XpmHeader) (pal : Nat → UInt8) : StringFold UInt8 Raster where
  quote := quote
  done st := toUInt32 header.height ≤ st.y
  step := pixelStep header.width (toUInt32 header.colors) pal

def firstRaster (table : ColourTable) : Raster where
  idx := table.idx
  x := 0
  y := 0
  image := fun _ => 0
  stores := table.stores

/-! ## The file -/

/-- What `xpm_open` returns, and the stores it has made. -/
structure XpmOpened where
  result : Except XpmFailure Xpm
  stores : List XpmStore

def readXpm (stack : Nat → UInt8) (content : List UInt8) : XpmOpened :=
  match readHeader content with
  | .error failure => ⟨.error failure, []⟩
  | .ok header =>
      let table := readPalette stack (toUInt32 header.colors) header.reader
      let rows := (rowFold header table.pal).run false (firstRaster table)
        (afterPalette (toUInt32 header.colors) header.reader).rest
      { result :=
          if rows.done then .ok {
            colors := header.colors
            palette := table.palette
            width := header.width
            height := header.height
            image := rows.state.image }
          else .error .readFailed
        stores := rows.state.stores }

/-- `xpm_open`, with whether there is memory for the picture and the content of a file that can be
opened. -/
def xpmOpen (stack : Nat → UInt8) (allocated : Bool) (file : Option (List UInt8)) : XpmOpened :=
  if allocated then
    match file with
    | none => ⟨.error .openFailed, []⟩
    | some content => readXpm stack content
  else ⟨.error .noMemory, []⟩

/-- Every store falls inside its array. -/
def XpmOpened.KeepsInside (opened : XpmOpened) : Prop := ∀ store ∈ opened.stores, store.Inside

end GrubLegacy.Efi
