import GrubLegacy.Efi.Xpm

/-!
# The stores of `xpm_open`

Nothing compares the colours with the places of `pal`, nor the pixels of a row with those of the
image. So both are counted here, as the file has them.
-/

namespace GrubLegacy.Efi

open Base CStrings

/-! ## The palette -/

/-- A string of the file is cut off at 32 characters, -/
theorem length_readBuf {buf : List UInt8} {c : UInt8} {input : List UInt8}
    (short : buf.length ≤ 32) : (readBuf buf c input).1.length ≤ 32 := by
  induction input generalizing buf c with
  | nil => exact short
  | cons next rest ih =>
      rw [readBuf]
      split_ifs with closing room
      · exact short
      · exact ih (by simpa using Nat.succ_le_of_lt room)
      · exact ih short

/-- so it is stored inside its buffer. -/
theorem bufStores_inside {r : XpmReader} {store : XpmStore}
    (stored : store ∈ bufStores (readLine r).1) : store.Inside := by
  have kept : (readLine r).1.buf.length ≤ 32 := length_readBuf (by simp)
  simp only [bufStores, List.mem_append, List.mem_map, List.mem_range] at stored
  obtain ⟨i, within, rfl⟩ | ⟨i, within, rfl⟩ := stored
  · simp only [readLine, List.length_take] at within
    simp only [XpmStore.Inside]
    omega
  · exact lt_of_lt_of_le within kept

/-- A line of the palette is read from some place of the file. -/
theorem mem_paletteLines {count : Nat} {r : XpmReader} {line : PaletteLine}
    (read : line ∈ paletteLines count r) : ∃ start, line = (readLine start).1 := by
  induction count generalizing r with
  | zero => simp [paletteLines] at read
  | succ count ih =>
      rcases List.mem_cons.mp read with rfl | later
      · exact ⟨r, rfl⟩
      · exact ih later

/-- Six characters follow the four that are read over. -/
def PaletteLine.IsColour (line : PaletteLine) : Prop := line.buf.length = 6

instance (line : PaletteLine) : Decidable line.IsColour := by
  unfold PaletteLine.IsColour
  infer_instance

/-- A place for every colour, but not for as many as are announced. -/
def placesTaken (colors : Nat) (lines : List PaletteLine) : Nat :=
  min (lines.countP fun line => line.IsColour) (colors - 1)

/-- All the stores fall inside as long as `idx` has not passed the end of `pal`. -/
structure TableStores (table : ColourTable) : Prop where
  started : 1 ≤ table.idx
  inside : (∀ store ∈ table.stores, store.Inside) ↔ table.idx ≤ xpmMaxColors

/-- A line adds at most the next slot, -/
theorem TableStores.addLine {colors : Nat} {table : ColourTable} {line : PaletteLine}
    (counted : TableStores table) (kept : ∀ store ∈ bufStores line, store.Inside) :
    TableStores (addLine colors table line) := by
  have inside := counted.inside
  unfold Efi.addLine
  split_ifs with taken
  · refine ⟨by simp, ?_⟩
    simp only [List.mem_append, List.mem_cons, List.not_mem_nil, or_false]
    constructor
    · intro all
      exact all (.pal table.idx) (.inr (.inl rfl))
    · intro room store stored
      obtain (before | now) | rfl | rfl := stored
      · exact inside.mpr (Nat.le_of_succ_le room) store before
      · exact kept store now
      · exact room
      · exact Nat.lt_succ_of_lt room
  · refine ⟨counted.started, ?_⟩
    rw [← inside]
    simp only [List.mem_append]
    constructor
    · exact fun all store stored => all store (.inl stored)
    · rintro all store (before | now)
      · exact all store before
      · exact kept store now

/-- and so do all of them. -/
theorem TableStores.foldl {colors : Nat} {lines : List PaletteLine} {table : ColourTable}
    (counted : TableStores table)
    (kept : ∀ line ∈ lines, ∀ store ∈ bufStores line, store.Inside) :
    TableStores (lines.foldl (Efi.addLine colors) table) := by
  induction lines generalizing table with
  | nil => exact counted
  | cons line lines ih =>
      exact ih (counted.addLine (kept line (by simp)))
        fun later among => kept later (List.mem_cons_of_mem line among)

/-- The index counts the lines with a colour, up to the number of colours. -/
theorem foldl_addLine_idx {colors : Nat} {lines : List PaletteLine} {table : ColourTable} :
    (lines.foldl (addLine colors) table).idx =
      table.idx + min (lines.countP fun line => line.IsColour) (colors - table.idx) := by
  induction lines generalizing table with
  | nil => simp
  | cons line lines ih =>
      rw [List.foldl_cons, ih, List.countP_cons]
      by_cases colour : line.buf.length = 6
      · by_cases room : table.idx < colors
        · simp only [addLine, colour, room, PaletteLine.IsColour, and_self, if_true, decide_true]
          omega
        · simp only [addLine, room, and_false, if_false]
          omega
      · simp [addLine, PaletteLine.IsColour, colour]

/-- Behind the palette it is one more than the places taken. -/
theorem readPalette_idx {stack : Nat → UInt8} {colors : Nat} {r : XpmReader} :
    (readPalette stack colors r).idx = placesTaken colors (paletteLines colors r) + 1 := by
  rw [readPalette, foldl_addLine_idx, placesTaken]
  exact Nat.add_comm 1 _

/-- The palette is stored inside its array just when it takes fewer places than this has. -/
theorem readPalette_stores (stack : Nat → UInt8) (colors : Nat) (r : XpmReader) :
    (∀ store ∈ (readPalette stack colors r).stores, store.Inside) ↔
      placesTaken colors (paletteLines colors r) < xpmMaxColors := by
  have first : TableStores (firstTable stack) := by
    constructor
    · exact Nat.le_refl 1
    · simp [firstTable, xpmMaxColors]
  have kept : ∀ line ∈ paletteLines colors r, ∀ store ∈ bufStores line, store.Inside := by
    intro line read store stored
    obtain ⟨start, rfl⟩ := mem_paletteLines read
    exact bufStores_inside stored
  have counted : TableStores (readPalette stack colors r) := first.foldl kept
  have inside := counted.inside
  rw [readPalette_idx] at inside
  exact inside

/-! ## The header -/

/-- A digit has a value from -128 on, -/
theorem charValue_lower (c : UInt8) : -128 ≤ charValue c := by
  unfold charValue
  split <;> omega

/-- the number stays an `int`, -/
theorem readDigits_lower {value : Int} {c : UInt8} {input : List UInt8}
    (low : -2 ^ 31 ≤ value) : -2 ^ 31 ≤ (readDigits value c input).value := by
  induction input generalizing value c with
  | nil => exact low
  | cons next rest ih =>
      rw [readDigits]
      split
      · exact ih (toInt32_lower _)
      · exact low

/-- and so every field is one. -/
theorem readField_lower (r : XpmReader) : -2 ^ 31 ≤ (readField r).value := by
  have first := charValue_lower (skipBlanks r.c r.rest).c
  have zero : charValue (charOf '0') = 48 := by decide
  exact readDigits_lower (by omega)

/-- What the two checks leave: no width is too large, but it can be negative. -/
structure XpmHeader.Checked (header : XpmHeader) : Prop where
  widthLow : -2 ^ 31 ≤ header.width
  widthHigh : header.width ≤ xpmMaxWidth
  heightHigh : header.height ≤ xpmMaxHeight

/-- A header that is read has passed the checks. -/
theorem readHeader_checked {content : List UInt8} {header : XpmHeader}
    (read : readHeader content = .ok header) : header.Checked := by
  unfold readHeader at read
  split at read
  · simp at read
  · dsimp only at read
    split_ifs at read with wide high
    injection read with read
    subst read
    exact ⟨readField_lower _, Int.not_lt.mp wide, Int.not_lt.mp high⟩

/-! ## The image -/

/-- The width as the pixels of a row are compared with it. -/
def XpmHeader.columns (header : XpmHeader) : Nat := toUInt32 header.width

/-- The pixels are counted, and a row is full after as many as there are columns. -/
def pixelCount (header : XpmHeader) : StringFold UInt8 Nat where
  quote := quote
  done n := toUInt32 header.height ≤ n / header.columns
  step n _ := n + 1

/-- How many pixels are read: those between quotes, until a string ends in a row too many. -/
def pixelsRead (header : XpmHeader) (input : List UInt8) : Nat :=
  ((pixelCount header).run false 0 input).state

def imageSize : Nat := xpmMaxWidth * xpmMaxHeight

/-- A number up to the size of the image is an `int`, -/
theorem toInt32_small {n : Nat} (fits : n ≤ imageSize) : toInt32 n = n := by
  have size : imageSize = 307200 := rfl
  exact toInt32_of_range (by omega) (by omega)

/-- and so is the next one. -/
theorem toUInt32_small {n : Nat} (fits : n ≤ imageSize) : toUInt32 (n + 1) = n + 1 := by
  have size : imageSize = 307200 := rfl
  unfold toUInt32
  omega

/-- The raster after `n` pixels. -/
structure RasterAt (header : XpmHeader) (st : Raster) (n : Nat) : Prop where
  fits : n ≤ imageSize
  column : st.x = n % header.columns
  row : st.y = n / header.columns

/-- A width that is not zero is small, or larger than any image. -/
theorem XpmHeader.Checked.columns {header : XpmHeader} (checked : header.Checked)
    (some : header.width ≠ 0) :
    0 < header.columns ∧ (header.width = header.columns ∨ imageSize < header.columns) := by
  have low := checked.widthLow
  have high := checked.widthHigh
  simp only [XpmHeader.columns, toUInt32, imageSize, xpmMaxWidth, xpmMaxHeight] at *
  omega

/-- The place of the pixel with a number is that number. -/
theorem imagePlace_eq {header : XpmHeader} (checked : header.Checked) (some : header.width ≠ 0)
    {n : Nat} (fits : n ≤ imageSize) :
    imagePlace header.width (n % header.columns) (n / header.columns) = n := by
  obtain ⟨positive, same | past⟩ := checked.columns some
  · have parts := Nat.div_add_mod n header.columns
    have row := toInt32_small (Nat.le_trans (Nat.div_le_self n header.columns) fits)
    have column := toInt32_small (Nat.le_trans (Nat.mod_le n header.columns) fits)
    rw [imagePlace, row, column, same, ← Int.natCast_mul, ← Int.natCast_add, Nat.mul_comm, parts]
    exact toInt32_small fits
  · have size : imageSize = 307200 := rfl
    rw [Nat.mod_eq_of_lt (lt_of_le_of_lt fits past), Nat.div_eq_of_lt (lt_of_le_of_lt fits past)]
    simp only [imagePlace, toInt32]
    omega

/-- One pixel later. -/
theorem succ_place {columns n : Nat} (positive : 0 < columns) :
    (n + 1) / columns = (if columns ≤ n % columns + 1 then n / columns + 1 else n / columns) ∧
      (n + 1) % columns = if columns ≤ n % columns + 1 then 0 else n % columns + 1 := by
  have parts := Nat.div_add_mod n columns
  have below := Nat.mod_lt n positive
  rw [Nat.div_mod_unique positive]
  split_ifs with full
  · rw [Nat.mul_succ]
    omega
  · omega

/-- Behind the last column the next pixel is in the first one, -/
theorem pixelStep_x {width : Int} {colors : Nat} {pal : Nat → UInt8} {st : Raster} {c : UInt8} :
    (pixelStep width colors pal st c).x =
      if toUInt32 width ≤ toUInt32 (st.x + 1) then 0 else toUInt32 (st.x + 1) :=
  rfl

/-- and a row further down. -/
theorem pixelStep_y {width : Int} {colors : Nat} {pal : Nat → UInt8} {st : Raster} {c : UInt8} :
    (pixelStep width colors pal st c).y =
      if toUInt32 width ≤ toUInt32 (st.x + 1) then toUInt32 (st.y + 1) else st.y :=
  rfl

/-- A pixel takes the raster to the next one. -/
theorem RasterAt.step {header : XpmHeader} (checked : header.Checked) (some : header.width ≠ 0)
    {colors : Nat} {pal : Nat → UInt8} {st : Raster} {n : Nat} (here : RasterAt header st n)
    (c : UInt8) (room : n < imageSize) :
    RasterAt header (pixelStep header.width colors pal st c) (n + 1) := by
  obtain ⟨positive, -⟩ := checked.columns some
  have nextColumn := toUInt32_small (Nat.le_trans (Nat.mod_le n header.columns) here.fits)
  have nextRow := toUInt32_small (Nat.le_trans (Nat.div_le_self n header.columns) here.fits)
  rw [← here.column] at nextColumn
  rw [← here.row] at nextRow
  obtain ⟨div, mod⟩ := @succ_place header.columns n positive
  refine ⟨room, ?_, ?_⟩
  · rw [pixelStep_x, nextColumn, here.column, mod, XpmHeader.columns]
  · rw [pixelStep_y, nextColumn, nextRow, here.column, here.row, div, XpmHeader.columns]

/-- It is stored at its own place. -/
theorem pixelStep_stores {width : Int} {colors : Nat} {pal : Nat → UInt8} {st : Raster} {c : UInt8} :
    (pixelStep width colors pal st c).stores = st.stores ++ [.image (imagePlace width st.x st.y)] :=
  rfl

/-- A store has been made outside its array. -/
def Raster.Strays (st : Raster) : Prop := ∃ store ∈ st.stores, ¬store.Inside

/-- A raster that has left the image stays one that has. -/
theorem Raster.Strays.step {width : Int} {colors : Nat} {pal : Nat → UInt8} {st : Raster}
    (strays : st.Strays) (c : UInt8) : (pixelStep width colors pal st c).Strays := by
  obtain ⟨store, stored, outside⟩ := strays
  refine ⟨store, ?_, outside⟩
  rw [pixelStep_stores]
  exact List.mem_append_left _ stored

/-- The raster after `n` pixels, all of them inside. -/
structure RasterInside (header : XpmHeader) (st : Raster) (n : Nat) : Prop
    extends RasterAt header st n where
  inside : ∀ store ∈ st.stores, store.Inside

/-- The pixel after the last place of the image is stored outside it. -/
theorem RasterInside.step {header : XpmHeader} (checked : header.Checked)
    (some : header.width ≠ 0) {colors : Nat} {pal : Nat → UInt8} {st : Raster} {n : Nat}
    (here : RasterInside header st n) (c : UInt8) :
    RasterInside header (pixelStep header.width colors pal st c) (n + 1) ∨
      (pixelStep header.width colors pal st c).Strays ∧ imageSize < n + 1 := by
  have place : imagePlace header.width st.x st.y = n := by
    rw [here.column, here.row]
    exact imagePlace_eq checked some here.fits
  rcases Nat.lt_or_eq_of_le here.fits with room | full
  · refine .inl ⟨here.toRasterAt.step checked some c room, ?_⟩
    intro store stored
    rw [pixelStep_stores, List.mem_append, List.mem_singleton, place] at stored
    rcases stored with before | rfl
    · exact here.inside store before
    · exact ⟨Int.natCast_nonneg n, Int.ofNat_lt.mpr room⟩
  · refine .inr ⟨⟨.image n, ?_, ?_⟩, by omega⟩
    · rw [pixelStep_stores, place]
      exact List.mem_append_right _ (List.mem_singleton_self _)
    · rintro ⟨-, below⟩
      exact absurd (Int.ofNat_lt.mp below) (by rw [full]; exact Nat.lt_irrefl imageSize)

/-- The rows are stored inside the image just when no more pixels are read than it has. -/
theorem rows_stores {header : XpmHeader} (checked : header.Checked) (some : header.width ≠ 0)
    {table : ColourTable} (before : ∀ store ∈ table.stores, store.Inside)
    (pal : Nat → UInt8) (input : List UInt8) :
    (∀ store ∈ ((rowFold header pal).run false (firstRaster table) input).state.stores,
        store.Inside) ↔ pixelsRead header input ≤ imageSize := by
  have start : RasterInside header (firstRaster table) 0 := by
    refine ⟨⟨Nat.zero_le _, ?_, ?_⟩, before⟩
    · exact (Nat.zero_mod _).symm
    · exact (Nat.zero_div _).symm
  have same : ∀ st n, RasterInside header st n →
      (rowFold header pal).done st = (pixelCount header).done n := by
    intro st n here
    simp only [rowFold, pixelCount, here.row]
  have steps : ∀ st n c, RasterInside header st n →
      RasterInside header ((rowFold header pal).step st c) ((pixelCount header).step n c) ∨
        ((rowFold header pal).step st c).Strays ∧ imageSize < (pixelCount header).step n c :=
    fun st n c here => here.step checked some c
  have keepsStray : ∀ st c, Raster.Strays st → ((rowFold header pal).step st c).Strays :=
    fun st c strays => strays.step c
  have keepsPast : ∀ n c, imageSize < n → imageSize < (pixelCount header).step n c :=
    fun n c past => Nat.lt_succ_of_lt past
  have together : RasterInside header _ (pixelsRead header input) ∨ _ :=
    @StringFold.run_together _ _ _ _ (rowFold header pal) (pixelCount header) rfl
      (RasterInside header) Raster.Strays (fun n => imageSize < n) same steps keepsStray
      keepsPast _ _ _ _ start
  rcases together with here | ⟨⟨store, stored, outside⟩, past⟩
  · exact iff_of_true here.inside here.fits
  · exact iff_of_false (fun all => outside (all store stored)) (Nat.not_le.mpr past)

/-- A picture without columns has all its pixels at the first place. -/
theorem rows_stores_zero {header : XpmHeader} (zero : header.width = 0) {table : ColourTable}
    (before : ∀ store ∈ table.stores, store.Inside) (pal : Nat → UInt8) (input : List UInt8) :
    ∀ store ∈ ((rowFold header pal).run false (firstRaster table) input).state.stores,
      store.Inside := by
  let holds (st : Raster) : Prop := st.x = 0 ∧ ∀ store ∈ st.stores, store.Inside
  have kept : ∀ st c, holds st → holds ((rowFold header pal).step st c) := by
    rintro st c ⟨column, inside⟩
    refine ⟨?_, ?_⟩
    · simp [rowFold, pixelStep_x, zero, toUInt32]
    · intro store stored
      simp only [rowFold, pixelStep_stores, List.mem_append, List.mem_singleton] at stored
      rcases stored with before | rfl
      · exact inside store before
      · simp [imagePlace, zero, column, toInt32, XpmStore.Inside, xpmMaxWidth, xpmMaxHeight]
  have start : holds (firstRaster table) := ⟨rfl, before⟩
  exact (StringFold.run_keeps kept start).2

/-- If a colour was stored outside, the whole run strays. -/
theorem rows_strays (header : XpmHeader) {table : ColourTable}
    (strays : ∃ store ∈ table.stores, ¬store.Inside) (pal : Nat → UInt8) (input : List UInt8) :
    ((rowFold header pal).run false (firstRaster table) input).state.Strays := by
  have kept : ∀ st c, Raster.Strays st → ((rowFold header pal).step st c).Strays :=
    fun st c before => before.step c
  have start : (firstRaster table).Strays := strays
  exact StringFold.run_keeps kept start

/-! ## The file -/

/-- The palette takes no place past `pal` and the rows have no more pixels than the image. -/
def XpmHeader.FitsArrays (header : XpmHeader) : Prop :=
  let colors := toUInt32 header.colors
  placesTaken colors (paletteLines colors header.reader) < xpmMaxColors ∧
    (header.width = 0 ∨
      pixelsRead header (afterPalette colors header.reader).rest ≤ imageSize)

/-- A file whose header is refused is not read any further. -/
def FitsArrays (content : List UInt8) : Prop :=
  match readHeader content with
  | .error _ => True
  | .ok header => header.FitsArrays

/-- A file is read inside the arrays just when it fits them. -/
theorem keepsInside_iff (stack : Nat → UInt8) (content : List UInt8) :
    (readXpm stack content).KeepsInside ↔ FitsArrays content := by
  unfold XpmOpened.KeepsInside readXpm FitsArrays
  cases read : readHeader content with
  | error failure => simp
  | ok header =>
      have checked := readHeader_checked read
      have palette := readPalette_stores stack (toUInt32 header.colors) header.reader
      dsimp only [XpmHeader.FitsArrays]
      by_cases fits : placesTaken (toUInt32 header.colors)
          (paletteLines (toUInt32 header.colors) header.reader) < xpmMaxColors
      · have before := palette.mpr fits
        by_cases zero : header.width = 0
        · exact iff_of_true (rows_stores_zero zero before _ _) ⟨fits, .inl zero⟩
        · rw [rows_stores checked zero before]
          simp [fits, zero]
      · obtain ⟨store, stored, outside⟩ : ∃ store ∈ (readPalette stack (toUInt32 header.colors)
            header.reader).stores, ¬store.Inside := by
          simpa using mt palette.mp fits
        obtain ⟨stray, kept, far⟩ := rows_strays header ⟨store, stored, outside⟩
          (readPalette stack (toUInt32 header.colors) header.reader).pal
          (afterPalette (toUInt32 header.colors) header.reader).rest
        exact iff_of_false (fun all => far (all stray kept)) (fun both => fits both.1)

end GrubLegacy.Efi
