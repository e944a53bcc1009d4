import GrubLegacy.Efi.Xpm

/-!
# Well-formed XPM files

A picture with one character for each pixel, as the format has it: a first line, then strings with
the numbers, one string for every colour and one for every row. Between strings stands anything
without a quote.
-/

namespace GrubLegacy.Efi

open Base CStrings

/-! ## The parts of a file -/

/-- The number that decimal digits spell after those of `value`. -/
def decimalFrom (value : Nat) (digits : List UInt8) : Nat :=
  digits.foldl (fun value c => value * 10 + (c.toNat - 48)) value

/-- A number with the blanks before it and one after it. -/
structure NumberField where
  blanks : List UInt8
  digits : List UInt8
  stop : UInt8
  before : ∀ c ∈ blanks, isBlank c = true
  decimal : ∀ c ∈ digits, isDecimal c = true
  spelled : digits ≠ []
  after : isBlank stop = true

def NumberField.value (field : NumberField) : Nat := decimalFrom 0 field.digits

def NumberField.text (field : NumberField) : List UInt8 :=
  field.blanks ++ field.digits ++ [field.stop]

/-- A string and what stands before it. -/
def quoted (gap text : List UInt8) : List UInt8 := gap ++ quote :: (text ++ [quote])

/-- The string of a colour: the character that stands for it and then blanks, visuals and their
values, at least one of each. -/
structure ColourEntry where
  gap : List UInt8
  key : UInt8
  text : List UInt8
  gapFree : quote ∉ gap
  keyFree : key ≠ quote
  textFree : quote ∉ text
  long : 4 ≤ text.length

def ColourEntry.string (entry : ColourEntry) : List UInt8 :=
  quoted entry.gap (entry.key :: entry.text)

structure PixelRow where
  gap : List UInt8
  chars : List UInt8
  gapFree : quote ∉ gap

def PixelRow.string (row : PixelRow) : List UInt8 := quoted row.gap row.chars

/-- A file of at most 640x480 pixels and 31 colours. After the number of colours come the one
character for each pixel and what else the first string may hold. -/
structure XpmPicture where
  opening : List UInt8
  width : NumberField
  height : NumberField
  colors : NumberField
  blanks : List UInt8
  extra : List UInt8
  entries : List ColourEntry
  rows : List PixelRow
  closing : List UInt8
  openingFree : quote ∉ opening
  blanksBlank : ∀ c ∈ blanks, isBlank c = true
  extraFree : quote ∉ extra
  extraApart : ∀ c ∈ extra.head?, isBlank c = true
  widthFits : width.value ≤ xpmMaxWidth
  heightFits : height.value ≤ xpmMaxHeight
  colorsFit : colors.value ≤ xpmMaxColors
  colorCount : entries.length = colors.value
  rowCount : rows.length = height.value
  rowWidths : ∀ row ∈ rows, row.chars.length = width.value
  distinct : (entries.map ColourEntry.key).Nodup
  known : ∀ row ∈ rows, ∀ c ∈ row.chars, c ∈ entries.map ColourEntry.key

namespace XpmPicture

/-- What follows the first string. -/
def body (pic : XpmPicture) : List UInt8 :=
  pic.entries.flatMap ColourEntry.string ++ (pic.rows.flatMap PixelRow.string ++ pic.closing)

def content (pic : XpmPicture) : List UInt8 :=
  target ++ (pic.opening ++ quote :: (pic.width.text ++ (pic.height.text ++ (pic.colors.text ++
    (pic.blanks ++ charOf '1' :: pic.extra ++ quote :: pic.body)))))

/-- The characters of the pixels, in reading order. -/
def pixels (pic : XpmPicture) : List UInt8 := pic.rows.flatMap PixelRow.chars

/-- The character of a pixel. -/
def charAt (pic : XpmPicture) (x y : Nat) : UInt8 :=
  ((pic.rows.map PixelRow.chars).getD y []).getD x 0

end XpmPicture

/-! ## The colour a file assigns -/

/-- Mono, symbolic, four grey levels, grey levels and colour. -/
def visuals : List (List UInt8) := ["m", "s", "g4", "g", "c"].map ascii

/-- The words of a text. -/
def wordsOf (text : List UInt8) : List (List UInt8) := (text.splitOnP isBlank).filter (· ≠ [])

/-- The words of a visual's value. The first word after a visual belongs to its value, also if it
reads like a visual. -/
def valueWords (visual : List UInt8) : (begun wanted : Bool) → List (List UInt8) →
    List (List UInt8)
  | _, _, [] => []
  | begun, wanted, word :: more =>
      if begun && visuals.contains word then
        if wanted then [] else valueWords visual false (word = visual) more
      else if wanted then word :: valueWords visual true true more
      else valueWords visual true false more

/-- The value for a colour screen, or the best one there is. -/
def chosenValue (text : List UInt8) : List (List UInt8) :=
  let values := (["c", "g", "g4", "m"].map ascii).map fun visual =>
    valueWords visual true false (wordsOf text)
  (values.find? (· ≠ [])).getD []

def lowerCase (c : UInt8) : UInt8 := if charOf 'A' ≤ c ∧ c ≤ charOf 'Z' then c + 32 else c

def hexDigits : List UInt8 := ascii "0123456789abcdef"

def hexValue (c : UInt8) : Nat := hexDigits.idxOf (lowerCase c)

/-- The upper eight bits of a component that some hexadecimal digits spell. -/
def component (digits : List UInt8) : UInt8 :=
  UInt8.ofNat (16 * hexValue (digits.getD 0 0) + digits.tail.head?.elim 0 hexValue)

/-- A colour by its red, green and blue digits, from one to four of each. -/
def spelledColour (digits : List UInt8) : Option Colour :=
  let each := digits.length / 3
  if digits.length = 3 * each ∧ 1 ≤ each ∧ each ≤ 4 ∧
      digits.all (fun c => lowerCase c ∈ hexDigits) then
    some ⟨component (digits.take each), component ((digits.drop each).take each),
      component (digits.drop (2 * each))⟩
  else none

/-- The colour of a value: black for None, digits after a hash, or a name. -/
def colourOf (names : List (List UInt8) → Colour) (text : List UInt8) : Colour :=
  match chosenValue text with
  | [word] =>
      if word.map lowerCase = ascii "none" then .black
      else if word.head? = some (charOf '#') then (spelledColour word.tail).getD (names [word])
      else names [word]
  | words => names words

namespace XpmPicture

/-- The colour assigned to a character. -/
def assigned (names : List (List UInt8) → Colour) (pic : XpmPicture) (c : UInt8) : Colour :=
  match pic.entries.find? (·.key = c) with
  | some entry => colourOf names entry.text
  | none => .black

def colourAt (names : List (List UInt8) → Colour) (pic : XpmPicture) (x y : Nat) : Colour :=
  pic.assigned names (pic.charAt x y)

end XpmPicture

example : colourOf (fun _ => .black) (ascii "\tc #FF8000") = ⟨255, 128, 0⟩ := by decide

/-! ## Reading the parts -/

/-- The reader skips to the next quote. -/
theorem skipToQuote_gap {c : UInt8} {gap rest : List UInt8} (free : quote ∉ gap) :
    skipToQuote c (gap ++ quote :: rest) = ⟨quote, rest⟩ := by
  induction gap generalizing c with
  | nil => simp [skipToQuote]
  | cons next gap ih =>
      obtain ⟨other, free⟩ := by simpa using free
      simpa [skipToQuote, Ne.symm other] using ih free

/-- Blanks are skipped up to the first character that is none. -/
theorem skipBlanks_append {c first : UInt8} {blanks rest : List UInt8}
    (blank : ∀ c ∈ blanks, isBlank c = true) (dark : isBlank first = false) :
    skipBlanks c (blanks ++ first :: rest) = ⟨first, rest⟩ := by
  induction blanks generalizing c with
  | nil => simp [skipBlanks, dark]
  | cons next blanks ih =>
      obtain ⟨here, blank⟩ := by simpa using blank
      simpa [skipBlanks, here] using ih (by simpa using blank)

/-- The digits are those from 48 to 57. -/
theorem isDecimal_iff {c : UInt8} : isDecimal c = true ↔ 48 ≤ c.toNat ∧ c.toNat ≤ 57 := by
  simp only [isDecimal, Bool.and_eq_true, decide_eq_true_eq, UInt8.le_iff_toNat_le]
  exact Iff.rfl

/-- Blanks are spaces and tabs. -/
theorem isBlank_iff {c : UInt8} : isBlank c = true ↔ c.toNat = 32 ∨ c.toNat = 9 := by
  simp only [isBlank, Bool.or_eq_true, decide_eq_true_eq, UInt8.toNat_inj.symm]
  exact Iff.rfl

/-- A digit is no blank. -/
theorem isBlank_of_isDecimal {c : UInt8} (decimal : isDecimal c = true) : isBlank c = false := by
  rw [isDecimal_iff] at decimal
  rw [Bool.eq_false_iff, ne_eq, isBlank_iff]
  omega

/-- A blank is no digit. -/
theorem isDecimal_of_isBlank {c : UInt8} (blank : isBlank c = true) : isDecimal c = false := by
  rw [isBlank_iff] at blank
  rw [Bool.eq_false_iff, ne_eq, isDecimal_iff]
  omega

/-- The value of a digit. -/
theorem charValue_digit {c : UInt8} (decimal : isDecimal c = true) :
    charValue c - charValue (charOf '0') = (c.toNat - 48 : Nat) := by
  rw [isDecimal_iff] at decimal
  have zero : charValue (charOf '0') = 48 := by decide
  rw [zero, charValue]
  split <;> omega

/-- A number never gets smaller by another digit. -/
theorem le_decimalFrom (value : Nat) (digits : List UInt8) : value ≤ decimalFrom value digits := by
  induction digits generalizing value with
  | nil => exact Nat.le_refl value
  | cons c digits ih =>
      have next := ih (value * 10 + (c.toNat - 48))
      rw [decimalFrom, List.foldl_cons, ← decimalFrom]
      omega

/-- Digits are read as the number they make, up to what is none. -/
theorem readDigits_append {value : Nat} {c stop : UInt8} {digits rest : List UInt8}
    (decimal : ∀ c ∈ digits, isDecimal c = true) (last : isDecimal stop = false)
    (fits : decimalFrom value digits < 2 ^ 31) :
    readDigits value c (digits ++ stop :: rest) = ⟨decimalFrom value digits, stop, rest⟩ := by
  induction digits generalizing value c with
  | nil => simp [readDigits, last, decimalFrom]
  | cons next digits ih =>
      obtain ⟨here, decimal⟩ := by simpa using decimal
      have below := le_decimalFrom (value * 10 + (next.toNat - 48)) digits
      rw [decimalFrom, List.foldl_cons, ← decimalFrom] at fits
      have digit := charValue_digit here
      have small : toInt32 (value * 10 + charValue next - charValue (charOf '0')) =
          (value * 10 + (next.toNat - 48) : Nat) := by
        rw [Int.add_sub_assoc, digit]
        exact toInt32_of_range (by omega) (by omega)
      simp only [List.cons_append, readDigits, here, if_true, small]
      exact ih (by simpa using decimal) fits

/-- A field of the header is read as its number. -/
theorem readField_text {c : UInt8} {field : NumberField} {rest : List UInt8}
    (fits : field.value < 2 ^ 31) :
    readField ⟨c, field.text ++ rest⟩ = ⟨field.value, field.stop, rest⟩ := by
  obtain ⟨first, digits, spelled⟩ := List.exists_cons_of_ne_nil field.spelled
  have decimal := field.decimal
  have value : field.value = decimalFrom (first.toNat - 48) digits := by
    rw [NumberField.value, spelled, decimalFrom, List.foldl_cons, Nat.zero_mul, Nat.zero_add,
      ← decimalFrom]
  rw [spelled] at decimal
  obtain ⟨here, decimal⟩ := by simpa using decimal
  rw [value] at fits
  rw [readField, NumberField.text, spelled]
  simp only [List.append_assoc, List.cons_append, List.nil_append,
    skipBlanks_append field.before (isBlank_of_isDecimal here), charValue_digit here]
  rw [readDigits_append (by simpa using decimal) (isDecimal_of_isBlank field.after) fits, value]

/-- The first line of a file is found. -/
theorem findTarget_target (rest : List UInt8) :
    findTarget 0 (charOf '\n') (target ++ rest) = some ⟨charOf '\n', rest⟩ := by
  rfl

/-- The header as it should be read. -/
def XpmPicture.header (pic : XpmPicture) : XpmHeader where
  width := pic.width.value
  height := pic.height.value
  colors := pic.colors.value
  reader := ⟨quote, pic.body⟩

/-- The header of a picture is read back. -/
theorem readHeader_content (pic : XpmPicture) : readHeader pic.content = .ok pic.header := by
  have width := pic.widthFits
  have height := pic.heightFits
  have colors := pic.colorsFit
  have free : quote ∉ pic.blanks ++ charOf '1' :: pic.extra := by
    have blanks : quote ∉ pic.blanks := fun among =>
      absurd (pic.blanksBlank quote among) (by decide)
    have one : quote ≠ charOf '1' := by decide
    simp [blanks, one, pic.extraFree]
  have notWide : ¬(xpmMaxWidth : Int) < (pic.width.value : Int) := by omega
  have notHigh : ¬(xpmMaxHeight : Int) < (pic.height.value : Int) := by omega
  simp only [xpmMaxWidth, xpmMaxHeight, xpmMaxColors] at width height colors
  unfold readHeader XpmPicture.content
  simp only [findTarget_target, skipToQuote_gap pic.openingFree,
    readField_text (show pic.width.value < 2 ^ 31 by omega),
    readField_text (show pic.height.value < 2 ^ 31 by omega),
    readField_text (show pic.colors.value < 2 ^ 31 by omega), notWide, notHigh, if_false,
    skipToQuote_gap free]
  rfl

/-! ## Reading the palette -/

/-- A colour's string as it is read. -/
def ColourEntry.line (entry : ColourEntry) : PaletteLine where
  base := entry.key
  skipped := entry.text.take 4
  buf := (entry.text.drop 4).take 32

/-- A string is read up to its quote, and cut off at 32 characters. -/
theorem readBuf_text {buf text rest : List UInt8} {c : UInt8} (free : quote ∉ text)
    (short : buf.length ≤ 32) :
    readBuf buf c (text ++ quote :: rest) = ((buf ++ text).take 32, ⟨quote, rest⟩) := by
  induction text generalizing buf c with
  | nil => simp [readBuf, List.take_of_length_le short]
  | cons next text ih =>
      obtain ⟨other, free⟩ := by simpa using free
      by_cases room : buf.length < 32
      · have step := @ih (buf ++ [next]) next free (by simpa using Nat.succ_le_of_lt room)
        simpa [readBuf, Ne.symm other, room] using step
      · have step := @ih buf next free short
        have full : buf.length = 32 := by omega
        simpa [readBuf, Ne.symm other, List.take_append, full] using step

/-- A line of the palette is read back, -/
theorem readLine_string {c : UInt8} {entry : ColourEntry} {rest : List UInt8} :
    readLine ⟨c, entry.string ++ rest⟩ = (entry.line, ⟨quote, rest⟩) := by
  have free : quote ∉ entry.text.drop 4 := fun among => entry.textFree (List.mem_of_mem_drop among)
  have text := @readBuf_text [] (entry.text.drop 4) rest entry.key free (Nat.zero_le 32)
  have string : entry.string ++ rest =
      entry.gap ++ quote :: (entry.key :: (entry.text ++ quote :: rest)) := by
    simp [ColourEntry.string, quoted]
  have long := entry.long
  simp only [readLine, string, skipToQuote_gap entry.gapFree, readChar,
    List.take_append_of_le_length long, List.drop_append_of_le_length long, text]
  rfl

/-- so all lines of the palette are, -/
theorem paletteLines_strings {c : UInt8} (entries : List ColourEntry) {rest : List UInt8} :
    paletteLines entries.length ⟨c, entries.flatMap ColourEntry.string ++ rest⟩ =
      entries.map ColourEntry.line := by
  induction entries generalizing c with
  | nil => rfl
  | cons entry entries ih =>
      simp [paletteLines, readLine_string, ih]

/-- and the reader stands behind them. -/
theorem afterPalette_strings {c : UInt8} (entries : List ColourEntry) {rest : List UInt8} :
    (afterPalette entries.length ⟨c, entries.flatMap ColourEntry.string ++ rest⟩).rest = rest := by
  induction entries generalizing c with
  | nil => rfl
  | cons entry entries ih =>
      simp [afterPalette, readLine_string, ih]

end GrubLegacy.Efi
