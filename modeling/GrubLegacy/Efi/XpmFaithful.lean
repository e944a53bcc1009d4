import GrubLegacy.Efi.XpmPictures
import GrubLegacy.Efi.XpmStores

/-!
# What `xpm_get_pixel` shows of a picture

A character has a slot of the palette if its colour has six characters after the first four, but
one colour fewer than announced has room. A character without a slot is shown in the colour of the
pixel before it.
-/

namespace GrubLegacy.Efi

open Base CStrings

/-! ## The table -/

/-- The lines that have taken a place, from the first place on. -/
structure Tabled (stack : Nat → UInt8) (kept : List PaletteLine) (table : ColourTable) : Prop where
  idx : table.idx = kept.length + 1
  held : ∀ i line, kept[i]? = some line →
    table.pal (i + 1) = line.base ∧ table.palette (i + 1) = ⟨hexColour line.buf, 0⟩
  free : ∀ i, i = 0 ∨ kept.length < i → table.pal i = stack i ∧ table.palette i = .cleared

/-- Before the first line of the palette the table is empty. -/
theorem tabled_first (stack : Nat → UInt8) : Tabled stack [] (firstTable stack) where
  idx := rfl
  held := by simp
  free _ _ := ⟨rfl, rfl⟩

/-- A line with a colour is added while there is room. -/
theorem Tabled.addLine {stack : Nat → UInt8} {kept : List PaletteLine} {table : ColourTable}
    (tabled : Tabled stack kept table) {colors : Nat} {line : PaletteLine}
    (colour : line.IsColour) (room : table.idx < colors) :
    Tabled stack (kept ++ [line]) (addLine colors table line) := by
  have idx := tabled.idx
  unfold PaletteLine.IsColour at colour
  simp only [Efi.addLine, colour, room, and_self, if_true]
  constructor
  · simp [idx]
  · intro i other found
    rcases Nat.lt_trichotomy i kept.length with before | rfl | past
    · rw [List.getElem?_append_left before] at found
      have old : i + 1 ≠ table.idx := by omega
      simpa [old] using tabled.held i other found
    · have same : line = other := by simpa using found
      simp [idx, same]
    · have none : (kept ++ [line])[i]? = none := List.getElem?_eq_none (by simpa using Nat.succ_le_of_lt past)
      simp [none] at found
  · intro i outside
    have old : i ≠ table.idx := by
      simp only [List.length_append, List.length_singleton] at outside
      omega
    have stillFree : i = 0 ∨ kept.length < i := by
      simp only [List.length_append, List.length_singleton] at outside
      omega
    simpa [old] using tabled.free i stillFree

/-- Any other line leaves the table as it is. -/
theorem Tabled.skip {stack : Nat → UInt8} {kept : List PaletteLine} {table : ColourTable}
    (tabled : Tabled stack kept table) (colors : Nat) (line : PaletteLine)
    (refused : ¬(line.buf.length = 6 ∧ table.idx < colors)) :
    Tabled stack kept (Efi.addLine colors table line) := by
  simp only [Efi.addLine, refused, if_false]
  exact ⟨tabled.idx, tabled.held, tabled.free⟩

/-- After all lines the table has the first ones with a colour, as many as fit. -/
theorem Tabled.foldl {stack : Nat → UInt8} {kept : List PaletteLine} {table : ColourTable}
    (tabled : Tabled stack kept table) (colors : Nat) (lines : List PaletteLine) :
    Tabled stack
      (kept ++ (lines.filter fun line => line.IsColour).take (colors - (kept.length + 1)))
      (lines.foldl (Efi.addLine colors) table) := by
  induction lines generalizing kept table with
  | nil => simpa using tabled
  | cons line lines ih =>
      rw [List.foldl_cons]
      by_cases colour : line.IsColour
      · by_cases room : table.idx < colors
        · have next := ih (tabled.addLine colour room)
          have idx := tabled.idx
          obtain ⟨more, left⟩ : ∃ more, colors - (kept.length + 1) = more + 1 :=
            ⟨colors - (kept.length + 1) - 1, by omega⟩
          have after : colors - (kept.length + 1 + 1) = more := by omega
          simpa [colour, left, after] using next
        · have next := ih (tabled.skip colors line fun both => room both.2)
          have idx := tabled.idx
          have full : colors - (kept.length + 1) = 0 := by omega
          simpa [full] using next
      · have next := ih (tabled.skip colors line fun both => colour both.1)
        simpa [colour] using next

/-- The places of the table with what they hold. -/
def ColourTable.slot (table : ColourTable) (i : Nat) : UInt8 × Colour :=
  (table.pal i, (table.palette i).toColour)

/-- The slots of the table: the colours that are kept, and behind them what the stack held. -/
theorem Tabled.slots {stack : Nat → UInt8} {kept : List PaletteLine} {table : ColourTable}
    (tabled : Tabled stack kept table) {count : Nat} (room : kept.length ≤ count) :
    (List.range' 1 count).map table.slot =
      kept.map (fun line => (line.base, hexColour line.buf)) ++
        (List.range (count - kept.length)).map
          fun i => (stack (kept.length + 1 + i), Colour.black) := by
  apply List.ext_getElem?
  intro i
  rcases Nat.lt_or_ge i kept.length with inside | past
  · have found := List.getElem?_eq_getElem inside
    obtain ⟨base, colour⟩ := tabled.held i _ found
    rw [List.getElem?_append_left (by simpa using inside)]
    simp [Nat.lt_of_lt_of_le inside room, ColourTable.slot, Nat.add_comm 1 i,
      base, colour, found]
  · rw [List.getElem?_append_right (by simpa using past)]
    rcases Nat.lt_or_ge i count with below | beyond
    · obtain ⟨pal, palette⟩ := tabled.free (i + 1) (.inr (Nat.lt_succ_of_le past))
      have place : kept.length + 1 + (i - kept.length) = i + 1 := by omega
      have within : i - kept.length < count - kept.length := by omega
      simp [below, ColourTable.slot, Nat.add_comm 1 i, pal, palette, place,
        within, XpmPixel.cleared]
    · have outside : count - kept.length ≤ i - kept.length := by omega
      simp [beyond, outside]

/-! ## The pixels -/

/-- The colour of the first slot of a character. -/
def colourIn (slots : List (UInt8 × Colour)) (c : UInt8) : Option Colour :=
  (slots.find? fun slot => SameChar slot.1 c).map Prod.snd

/-- The colour found for a character is that of its first slot, or the one found before. -/
theorem findColour_colour (table : ColourTable) (c : UInt8) (count i idx : Nat) :
    (table.palette (findColour table.pal c count i idx)).toColour =
      (colourIn ((List.range' i count).map table.slot) c).getD (table.palette idx).toColour := by
  induction count generalizing i with
  | zero => rfl
  | succ count ih =>
      rw [findColour, List.range'_succ, List.map_cons, colourIn]
      by_cases same : SameChar (table.pal i) c
      · simp [ColourTable.slot, same]
      · simpa [ColourTable.slot, same, colourIn] using ih (i + 1)

/-- The index that is found stays inside the table. -/
theorem findColour_le {pal : Nat → UInt8} {c : UInt8} {count i idx last : Nat}
    (before : idx ≤ last) (places : i + count ≤ last + 1) :
    findColour pal c count i idx ≤ last := by
  induction count generalizing i with
  | zero => exact before
  | succ count ih =>
      rw [findColour]
      split
      · omega
      · exact ih (by omega)

/-- The index after some pixels. -/
def latest (table : ColourTable) (colors : Nat) (pixels : List UInt8) : Nat :=
  pixels.foldl (fun idx c => findColour table.pal c (colors - 1) 1 idx) table.idx

/-- One more pixel looks for its character, and falls back to the last index. -/
theorem latest_append {table : ColourTable} {colors : Nat} {pixels : List UInt8} {c : UInt8} :
    latest table colors (pixels ++ [c]) =
      findColour table.pal c (colors - 1) 1 (latest table colors pixels) := by
  simp [latest]

/-- The last index stays inside the table. -/
theorem latest_le {table : ColourTable} {colors last : Nat} {pixels : List UInt8}
    (first : table.idx ≤ last) (places : colors ≤ last + 1) :
    latest table colors pixels ≤ last := by
  induction pixels using List.reverseRecOn with
  | nil => exact first
  | append_singleton pixels c ih =>
      rw [latest_append]
      have room : 1 + (colors - 1) ≤ last + 1 := by omega
      exact findColour_le ih room

/-- The last pixel with a slot gives the colour. -/
theorem colour_latest {table : ColourTable} {colors : Nat} {slots : List (UInt8 × Colour)}
    (held : (List.range' 1 (colors - 1)).map table.slot = slots) (pixels : List UInt8) :
    (table.palette (latest table colors pixels)).toColour =
      (pixels.reverse.findSome? (colourIn slots)).getD (table.palette table.idx).toColour := by
  induction pixels using List.reverseRecOn with
  | nil => rfl
  | append_singleton pixels c ih =>
      rw [latest_append, findColour_colour, held, ih, List.reverse_append]
      cases own : colourIn slots c with
      | none => simp [own]
      | some colour => simp [own]

/-- A pixel writes its index at its own place. -/
theorem pixelStep_image {width : Int} {colors : Nat} {pal : Nat → UInt8} {st : Raster} {c : UInt8}
    {i : Int} : (pixelStep width colors pal st c).image i =
      if i = imagePlace width st.x st.y
      then UInt8.ofNat (findColour pal c (colors - 1) 1 st.idx) else st.image i :=
  rfl

/-- The raster after some pixels of a picture. -/
structure RasterShows (header : XpmHeader) (table : ColourTable) (pixels : List UInt8)
    (st : Raster) : Prop extends RasterAt header st pixels.length where
  idx : st.idx = latest table (toUInt32 header.colors) pixels
  image : ∀ k < pixels.length, st.image k =
    UInt8.ofNat (latest table (toUInt32 header.colors) (pixels.take (k + 1)))

/-- The raster of some pixels. -/
def rasterOf (header : XpmHeader) (table : ColourTable) (pixels : List UInt8) : Raster :=
  pixels.foldl (rowFold header table.pal).step (firstRaster table)

/-- What a sequence of pixels leaves in the image. -/
theorem rasterShows (header : XpmHeader) (checked : header.Checked) (some : header.width ≠ 0)
    (table : ColourTable) {pixels : List UInt8} (fits : pixels.length ≤ imageSize) :
    RasterShows header table pixels (rasterOf header table pixels) := by
  induction pixels using List.reverseRecOn with
  | nil =>
      refine ⟨⟨fits, ?_, ?_⟩, rfl, by simp⟩
      · exact (Nat.zero_mod _).symm
      · exact (Nat.zero_div _).symm
  | append_singleton pixels c ih =>
      rw [List.length_append, List.length_singleton] at fits
      have before := ih (Nat.le_of_succ_le fits)
      have place : imagePlace header.width (rasterOf header table pixels).x
          (rasterOf header table pixels).y = pixels.length := by
        rw [before.column, before.row]
        exact imagePlace_eq checked some before.fits
      rw [rasterOf, List.foldl_append, ← rasterOf, List.foldl_cons, List.foldl_nil]
      refine ⟨?_, ?_, ?_⟩
      · rw [List.length_append, List.length_singleton]
        exact before.toRasterAt.step checked some c fits
      · rw [latest_append, ← before.idx]
        rfl
      · intro k below
        rw [List.length_append, List.length_singleton] at below
        have stored : ((rowFold header table.pal).step (rasterOf header table pixels) c).image k =
            if (k : Int) = pixels.length
            then UInt8.ofNat (latest table (toUInt32 header.colors) (pixels ++ [c]))
            else (rasterOf header table pixels).image k := by
          rw [latest_append, ← before.idx, ← place]
          exact pixelStep_image
        rw [stored]
        split_ifs with now
        · have all : (pixels ++ [c]).take (k + 1) = pixels ++ [c] :=
            List.take_of_length_le (by simp; omega)
          rw [all]
        · have earlier : k < pixels.length := by omega
          rw [before.image k earlier, List.take_append_of_le_length earlier]

/-! ## The rows -/

/-- The strings of the rows put their characters into the image one after the other. -/
theorem run_rows (header : XpmHeader) (checked : header.Checked) (some : header.width ≠ 0)
    (table : ColourTable) {closing : List UInt8} {rows : List PixelRow} {before : List UInt8}
    (free : ∀ row ∈ rows, quote ∉ row.chars)
    (full : ∀ row ∈ rows, row.chars.length = header.columns)
    (whole : before.length / header.columns + rows.length = toUInt32 header.height)
    (fits : (before ++ rows.flatMap PixelRow.chars).length ≤ imageSize) :
    (rowFold header table.pal).run false (rasterOf header table before)
        (rows.flatMap PixelRow.string ++ closing) =
      ⟨true, rasterOf header table (before ++ rows.flatMap PixelRow.chars)⟩ := by
  have start : before.length ≤ imageSize := by
    rw [List.length_append] at fits
    omega
  have row := (rasterShows header checked some table start).row
  obtain ⟨positive, -⟩ := checked.columns some
  induction rows generalizing before with
  | nil =>
      rw [List.flatMap_nil, List.flatMap_nil, List.append_nil, List.nil_append]
      apply StringFold.run_done
      simp only [rowFold, row]
      simp only [List.length_nil] at whole
      simp only [decide_eq_true_eq]
      omega
  | cons first rows ih =>
      have width := full first (by simp)
      have more : (rowFold header table.pal).done (rasterOf header table before) = false := by
        simp only [rowFold, row, decide_eq_false_iff_not]
        rw [List.length_cons] at whole
        omega
      have string : (first :: rows).flatMap PixelRow.string ++ closing =
          first.gap ++ quote :: (first.chars ++ quote :: (rows.flatMap PixelRow.string ++ closing)) := by
        simp [PixelRow.string, quoted]
      have next : before ++ (first :: rows).flatMap PixelRow.chars =
          (before ++ first.chars) ++ rows.flatMap PixelRow.chars := by
        simp
      rw [next] at fits
      have count : (before ++ first.chars).length / header.columns =
          before.length / header.columns + 1 := by
        rw [List.length_append, width, Nat.add_div_right _ positive]
      have room : (before ++ first.chars).length ≤ imageSize := by
        rw [List.length_append] at fits
        omega
      have gap := @StringFold.run_gap _ _ _ (rowFold header table.pal)
        (rasterOf header table before) first.gap
        (first.chars ++ quote :: (rows.flatMap PixelRow.string ++ closing)) more first.gapFree
      have text := @StringFold.run_string _ _ _ (rowFold header table.pal)
        (rasterOf header table before) first.chars (rows.flatMap PixelRow.string ++ closing)
        (free first (by simp))
      have joined : first.chars.foldl (rowFold header table.pal).step
          (rasterOf header table before) = rasterOf header table (before ++ first.chars) := by
        rw [rasterOf, rasterOf, List.foldl_append]
      rw [string, next]
      refine gap.trans (text.trans ?_)
      rw [joined]
      refine ih (fun row among => free row (by simp [among]))
        (fun row among => full row (by simp [among])) ?_ fits room
        (rasterShows header checked some table room).row
      rw [count]
      rw [List.length_cons] at whole
      omega

/-! ## The pictures -/

/-- Full rows have as many characters as rows times columns. -/
theorem length_rows {rows : List PixelRow} {columns : Nat}
    (full : ∀ row ∈ rows, row.chars.length = columns) :
    (rows.flatMap PixelRow.chars).length = rows.length * columns := by
  induction rows with
  | nil => simp
  | cons row rows ih =>
      have rest := ih fun later among => full later (by simp [among])
      rw [List.flatMap_cons, List.length_append, rest, full row (by simp), List.length_cons]
      rw [Nat.succ_mul, Nat.add_comm]

/-- The pixels of a row come after those of the rows before. -/
theorem getElem?_rows {rows : List PixelRow} {columns x : Nat} (inside : x < columns)
    (full : ∀ row ∈ rows, row.chars.length = columns) {y : Nat} (below : y < rows.length) :
    (rows.flatMap PixelRow.chars)[y * columns + x]? =
      some (((rows.map PixelRow.chars).getD y []).getD x 0) := by
  induction rows generalizing y with
  | nil => simp at below
  | cons row rows ih =>
      have width := full row (by simp)
      rw [List.flatMap_cons]
      cases y with
      | zero =>
          rw [Nat.zero_mul, Nat.zero_add, List.getElem?_append_left (by omega)]
          simp [width, inside]
      | succ y =>
          have later := ih (fun row among => full row (by simp [among])) (Nat.lt_of_succ_lt_succ below)
          have place : (y + 1) * columns + x - row.chars.length = y * columns + x := by
            rw [width, Nat.succ_mul]
            omega
          rw [List.getElem?_append_right (by rw [width, Nat.succ_mul]; omega), place, later]
          simp

namespace XpmPicture

/-- The colours that are given a place: those of six characters, but not as many as announced. -/
def stored (pic : XpmPicture) : List ColourEntry :=
  (pic.entries.filter fun entry => entry.text.length = 10).take (pic.entries.length - 1)

/-- The places a character is looked for in. Those not filled hold what was on the stack. -/
def slots (stack : Nat → UInt8) (pic : XpmPicture) : List (UInt8 × Colour) :=
  pic.stored.map (fun entry => (entry.key, hexColour (entry.text.drop 4))) ++
    (List.range (pic.entries.length - 1 - pic.stored.length)).map
      fun i => (stack (pic.stored.length + 1 + i), .black)

/-- The colour of the last pixel with a slot, of those before a pixel in reading order. -/
def colourBefore (stack : Nat → UInt8) (pic : XpmPicture) (x y : Nat) : Colour :=
  ((pic.pixels.take (y * pic.width.value + x)).reverse.findSome?
    (colourIn (pic.slots stack))).getD .black

/-- Every pixel is shown in the colour that the file assigns to it. -/
def Faithful (names : List (List UInt8) → Colour) (stack : Nat → UInt8) (pic : XpmPicture) : Prop :=
  ∀ xpm, (xpmOpen stack true (some pic.content)).result = .ok xpm →
    ∀ x y : Nat, x < pic.width.value → y < pic.height.value → ∀ pixel, ∃ shown,
      xpmGetPixel xpm x y (some pixel) = (1, some shown) ∧
        shown.toColour = pic.colourAt names x y

/-- The pictures that are shown as they should be: rows past the width are black, a slot has the
colour of its character, and a pixel without a slot that of the pixels before it. -/
structure ReadsTrue (names : List (List UInt8) → Colour) (stack : Nat → UInt8)
    (pic : XpmPicture) : Prop where
  past : ∀ x y, x < pic.width.value → y < pic.height.value → pic.width.value ≤ y →
    pic.colourAt names x y = .black
  slotted : ∀ x y, x < pic.width.value → y < pic.height.value → y < pic.width.value →
    ∀ colour, colourIn (pic.slots stack) (pic.charAt x y) = some colour →
      colour = pic.colourAt names x y
  unslotted : ∀ x y, x < pic.width.value → y < pic.height.value → y < pic.width.value →
    colourIn (pic.slots stack) (pic.charAt x y) = none →
      pic.colourBefore stack x y = pic.colourAt names x y

variable (pic : XpmPicture) (stack : Nat → UInt8)

/-- The header of a picture passes the checks of the file. -/
theorem checked : pic.header.Checked := readHeader_checked (readHeader_content pic)

/-- The number of colours is that of the entries, -/
theorem colours_eq : toUInt32 pic.header.colors = pic.entries.length := by
  have few := pic.colorsFit
  rw [pic.colorCount]
  exact toUInt32_of_range (lt_of_le_of_lt few (by decide))

/-- the number of columns that of the characters of a row, -/
theorem columns_eq : pic.header.columns = pic.width.value := by
  have small := pic.widthFits
  exact toUInt32_of_range (lt_of_le_of_lt small (by decide))

/-- and the number of rows that of the rows. -/
theorem rows_eq : toUInt32 pic.header.height = pic.rows.length := by
  have small := pic.heightFits
  rw [pic.rowCount]
  exact toUInt32_of_range (lt_of_le_of_lt small (by decide))

/-- The table read from the picture. -/
def table : ColourTable := readPalette stack pic.entries.length ⟨quote, pic.body⟩

/-- The lines that count as colours are those whose text has ten characters. -/
theorem isColour_line (entry : ColourEntry) :
    decide entry.line.IsColour = decide (entry.text.length = 10) := by
  have long := entry.long
  simp only [PaletteLine.IsColour, ColourEntry.line, List.length_take, List.length_drop]
  exact decide_eq_decide.mpr (by omega)

/-- The table of an opened picture holds the colours of these entries. -/
theorem tabled : Tabled stack (pic.stored.map ColourEntry.line) (pic.table stack) := by
  have lines := @paletteLines_strings quote pic.entries
    (pic.rows.flatMap PixelRow.string ++ pic.closing)
  have all := (tabled_first stack).foldl pic.entries.length (pic.entries.map ColourEntry.line)
  have kept : (pic.entries.map ColourEntry.line).filter (fun line => line.IsColour) =
      (pic.entries.filter fun entry => entry.text.length = 10).map ColourEntry.line := by
    rw [List.filter_map]
    congr 2
    funext entry
    exact isColour_line entry
  rw [kept, ← List.map_take] at all
  rw [table, readPalette, body, lines]
  exact all

/-- Slot zero is never filled, so one entry less is stored. -/
theorem length_stored : pic.stored.length ≤ pic.entries.length - 1 :=
  List.length_take_le _ _

/-- What the slots of the table hold. -/
theorem table_slots :
    (List.range' 1 (pic.entries.length - 1)).map (pic.table stack).slot = pic.slots stack := by
  rw [(pic.tabled stack).slots (by simpa using pic.length_stored), slots, List.length_map,
    List.map_map]
  congr 1
  apply List.map_congr_left
  intro entry among
  have six : entry.text.length = 10 := by
    simpa using List.of_mem_filter (List.mem_of_mem_take among)
  have whole : (entry.text.drop 4).take 32 = entry.text.drop 4 :=
    List.take_of_length_le (by simp [six])
  simp [ColourEntry.line, whole]

/-- A place past the slots is black. -/
theorem palette_past {i : Nat} (past : pic.stored.length < i) :
    (pic.table stack).palette i = .cleared :=
  ((pic.tabled stack).free i (.inr (by simpa using past))).2

/-- What is returned for the picture. -/
def opened : Xpm where
  colors := pic.colors.value
  palette := (pic.table stack).palette
  width := pic.width.value
  height := pic.height.value
  image := (rasterOf pic.header (pic.table stack) pic.pixels).image

/-- No row has a quote in it, -/
theorem quote_notMem_row {row : PixelRow} (among : row ∈ pic.rows) : quote ∉ row.chars := by
  intro inside
  obtain ⟨entry, -, same⟩ := List.mem_map.mp (pic.known row among quote inside)
  exact entry.keyFree same

/-- and each is as long as the width says. -/
theorem full_row {row : PixelRow} (among : row ∈ pic.rows) :
    row.chars.length = pic.header.columns := by
  rw [columns_eq]
  exact pic.rowWidths row among

/-- So the picture has height times width pixels, -/
theorem length_pixels : pic.pixels.length = pic.height.value * pic.width.value := by
  rw [pixels, length_rows pic.rowWidths, pic.rowCount]

/-- which fit into the image. -/
theorem pixels_fit : pic.pixels.length ≤ imageSize := by
  rw [length_pixels, imageSize, Nat.mul_comm]
  exact Nat.mul_le_mul pic.widthFits pic.heightFits

/-- The picture is read to its last row. -/
theorem result_eq (some : 0 < pic.width.value) :
    (readXpm stack pic.content).result = .ok (pic.opened stack) := by
  have wide : pic.header.width ≠ 0 := Int.ofNat_ne_zero.mpr some.ne'
  have rest : (afterPalette pic.entries.length pic.header.reader).rest =
      pic.rows.flatMap PixelRow.string ++ pic.closing :=
    afterPalette_strings pic.entries
  have whole : ([] : List UInt8).length / pic.header.columns + pic.rows.length =
      toUInt32 pic.header.height := by
    rw [rows_eq, List.length_nil, Nat.zero_div, Nat.zero_add]
  have run := @run_rows pic.header pic.checked wide (pic.table stack) pic.closing pic.rows []
    (fun _ among => pic.quote_notMem_row among) (fun _ among => pic.full_row among) whole
    pic.pixels_fit
  have first : firstRaster (pic.table stack) = rasterOf pic.header (pic.table stack) [] := rfl
  have table : readPalette stack pic.entries.length pic.header.reader = pic.table stack := rfl
  simp only [readXpm, readHeader_content, colours_eq, rest, table, first, run, if_true]
  rfl

/-- The character of a pixel is that of its place among all of them. -/
theorem charAt_mem {x y : Nat} (inside : x < pic.width.value) (below : y < pic.height.value) :
    pic.pixels[y * pic.width.value + x]? = some (pic.charAt x y) :=
  getElem?_rows inside pic.rowWidths (by rw [pic.rowCount]; exact below)

/-- A picture with a pixel has an entry. -/
theorem some_entry {x y : Nat} (inside : x < pic.width.value) (below : y < pic.height.value) :
    0 < pic.entries.length := by
  have among := List.mem_of_getElem? (pic.charAt_mem inside below)
  obtain ⟨row, rowAmong, charAmong⟩ := List.mem_flatMap.mp among
  obtain ⟨entry, entryAmong, -⟩ := List.mem_map.mp (pic.known row rowAmong _ charAmong)
  exact List.length_pos_of_mem entryAmong

/-- What is shown in a row that is not past the width. -/
theorem colour_pixel {x y : Nat} (inside : x < pic.width.value) (below : y < pic.height.value) :
    ((pic.table stack).palette (latest (pic.table stack) pic.entries.length
      (pic.pixels.take (y * pic.width.value + x + 1)))).toColour =
      (colourIn (pic.slots stack) (pic.charAt x y)).getD (pic.colourBefore stack x y) := by
  have idx : (pic.table stack).idx = pic.stored.length + 1 := by
    simpa using (pic.tabled stack).idx
  have first : ((pic.table stack).palette (pic.table stack).idx).toColour = .black := by
    rw [pic.palette_past stack (by omega)]
    rfl
  have here := pic.charAt_mem inside below
  rw [colour_latest (pic.table_slots stack), first, List.take_add_one, here]
  cases own : colourIn (pic.slots stack) (pic.charAt x y) with
  | none => simp [own, colourBefore]
  | some colour => simp [own]

/-- The index shown for a pixel is the last one found up to it, where the picture is as high as
wide. -/
theorem index_shown {x y : Nat} (inside : x < pic.width.value) (below : y < pic.height.value)
    (square : y < pic.width.value) :
    xpmGetPixelIdx (pic.opened stack) x y = UInt8.ofNat (latest (pic.table stack)
      pic.entries.length (pic.pixels.take (y * pic.width.value + x + 1))) := by
  have wide : pic.header.width ≠ 0 := Int.ofNat_ne_zero.mpr (Nat.ne_zero_of_lt inside)
  have shows := rasterShows pic.header pic.checked wide (pic.table stack) pic.pixels_fit
  obtain ⟨within, -⟩ := List.getElem?_eq_some_iff.mp (pic.charAt_mem inside below)
  have place : (x : Int) + y * pic.width.value = (y * pic.width.value + x : Nat) := by
    push_cast
    omega
  have image := shows.image _ within
  rw [colours_eq] at image
  have column : ¬((x : Int) < 0 ∨ (pic.width.value : Int) ≤ x) := by omega
  have row : ¬((y : Int) < 0 ∨ (pic.width.value : Int) ≤ y) := by omega
  simp only [xpmGetPixelIdx, opened, column, row, if_false, place, image]

/-- This index is one of the palette. -/
theorem latest_small (pixels : List UInt8) :
    latest (pic.table stack) pic.entries.length pixels ≤ xpmMaxColors := by
  have idx : (pic.table stack).idx = pic.stored.length + 1 := by
    simpa using (pic.tabled stack).idx
  have stored := pic.length_stored
  have few := pic.colorsFit
  have count := pic.colorCount
  simp only [xpmMaxColors] at few ⊢
  exact latest_le (by omega) (by omega)

/-- The colour of an index, also of one that is not a colour's. -/
theorem colour_idx {idx : Nat} (some : 0 < pic.entries.length) (small : idx ≤ xpmMaxColors)
    (pixel : XpmPixel) : ∃ shown, xpmGetIdx (pic.opened stack) (UInt8.ofNat idx) (.some pixel) =
      .some shown ∧ shown.toColour = ((pic.table stack).palette idx).toColour := by
  have number : (UInt8.ofNat idx).toNat = idx := by
    rw [UInt8.toNat_ofNat']
    exact Nat.mod_eq_of_lt (lt_of_le_of_lt small (by decide))
  refine ⟨_, rfl, ?_⟩
  rw [number]
  split_ifs with past
  · have stored := pic.length_stored
    have count := pic.colorCount
    simp only [opened] at past
    rw [pic.palette_past stack (by omega)]
    rfl
  · rfl

/-- The colour shown for a pixel: that of its character, or what was found before. -/
theorem shown_colour {x y : Nat} (inside : x < pic.width.value) (below : y < pic.height.value)
    (pixel : XpmPixel) : ∃ shown,
      xpmGetPixel (pic.opened stack) x y (some pixel) = (1, some shown) ∧
        shown.toColour = if pic.width.value ≤ y then .black
          else (colourIn (pic.slots stack) (pic.charAt x y)).getD
            (pic.colourBefore stack x y) := by
  by_cases past : pic.width.value ≤ y
  · have row : (y : Int) < 0 ∨ (pic.opened stack).width ≤ y := .inr (Int.ofNat_le.mpr past)
    have few := pic.colorsFit
    have beyond : (pic.opened stack).colors ≤ (255 : UInt8).toNat :=
      Int.ofNat_le.mpr (Nat.le_trans few (by decide))
    refine ⟨{ pixel with red := 0, green := 0, blue := 0 }, ?_, ?_⟩
    · have idx : xpmGetPixelIdx (pic.opened stack) x y = 255 := by
        unfold xpmGetPixelIdx
        split_ifs <;> rfl
      rw [xpmGetPixel, idx, xpmGetIdx, Option.map_some, if_pos beyond]
    · rw [if_pos past]
      rfl
  · obtain ⟨shown, got, colour⟩ := pic.colour_idx stack (pic.some_entry inside below)
      (pic.latest_small stack (pic.pixels.take (y * pic.width.value + x + 1))) pixel
    refine ⟨shown, ?_, ?_⟩
    · rw [xpmGetPixel, pic.index_shown stack inside below (Nat.lt_of_not_le past), got]
    · rw [if_neg past, colour, pic.colour_pixel stack inside below]

/-- A picture is shown faithfully just when every pixel reads the true colour. -/
theorem faithful_iff (names : List (List UInt8) → Colour) :
    pic.Faithful names stack ↔ pic.ReadsTrue names stack := by
  have shown : ∀ x y, x < pic.width.value → y < pic.height.value → pic.Faithful names stack →
      (if pic.width.value ≤ y then Colour.black
        else (colourIn (pic.slots stack) (pic.charAt x y)).getD (pic.colourBefore stack x y)) =
        pic.colourAt names x y := by
    intro x y inside below faithful
    obtain ⟨first, got, colour⟩ := pic.shown_colour stack inside below .cleared
    obtain ⟨second, again, right⟩ := faithful _ (pic.result_eq stack (Nat.zero_lt_of_lt inside))
      x y inside below .cleared
    have same : first = second := by simpa using got.symm.trans again
    rw [← colour, same, right]
  constructor
  · intro faithful
    constructor
    · intro x y inside below past
      simpa [past] using (shown x y inside below faithful).symm
    · intro x y inside below square colour own
      simpa [Nat.not_le.mpr square, own] using shown x y inside below faithful
    · intro x y inside below square own
      simpa [Nat.not_le.mpr square, own] using shown x y inside below faithful
  · intro reads xpm result x y inside below pixel
    have opened := (pic.result_eq stack (Nat.zero_lt_of_lt inside)).symm.trans result
    injection opened with opened
    subst opened
    obtain ⟨shown, got, colour⟩ := pic.shown_colour stack inside below pixel
    refine ⟨shown, got, ?_⟩
    rw [colour]
    split_ifs with past
    · exact (reads.past x y inside below past).symm
    · have square := Nat.lt_of_not_le past
      cases own : colourIn (pic.slots stack) (pic.charAt x y) with
      | none => exact reads.unslotted x y inside below square own
      | some colour => exact reads.slotted x y inside below square colour own

end XpmPicture

/-- A file keeps the stores inside if its palette and its rows fit, and is shown in the assigned
colours if all of them are in slots and its rows are no more than its columns. -/
theorem xpmOpen_iff (names : List (List UInt8) → Colour) (stack : Nat → UInt8) :
    (∀ content, (xpmOpen stack true (some content)).KeepsInside ↔ FitsArrays content) ∧
      ∀ pic : XpmPicture, pic.Faithful names stack ↔ pic.ReadsTrue names stack :=
  ⟨keepsInside_iff stack, fun pic => pic.faithful_iff stack names⟩

/-- A red picture of one column and two rows. -/
def tallPicture : XpmPicture where
  opening := ascii "static char *tall[] = \x7b\n"
  width := ⟨[], ascii "1", charOf ' ', by simp, List.all_eq_true.mp rfl, by decide, by decide⟩
  height := ⟨[], ascii "2", charOf ' ', by simp, List.all_eq_true.mp rfl, by decide, by decide⟩
  colors := ⟨[], ascii "2", charOf ' ', by simp, List.all_eq_true.mp rfl, by decide, by decide⟩
  blanks := []
  extra := []
  entries := [
    ⟨ascii ",\n", charOf ' ', ascii "\tc None", by decide, by decide, by decide, by decide⟩,
    ⟨ascii ",\n", charOf '.', ascii "\tc #FF0000", by decide, by decide, by decide, by decide⟩]
  rows := [⟨ascii ",\n", ascii ".", by decide⟩, ⟨ascii ",\n", ascii ".", by decide⟩]
  closing := ascii "\n\x7d;\n"
  openingFree := by decide
  blanksBlank := by simp
  extraFree := by decide
  extraApart := by simp
  widthFits := by decide
  heightFits := by decide
  colorsFit := by decide
  colorCount := by decide
  rowCount := by decide
  rowWidths := by decide
  distinct := by decide
  known := by simp [ascii]

/-- Its second row is black, since its number is not below the width. -/
theorem tallPicture_not_faithful :
    ¬((∀ stack content, (xpmOpen stack true (some content)).KeepsInside) ∧
      ∀ names stack (pic : XpmPicture), pic.Faithful names stack) := by
  rintro ⟨-, faithful⟩
  have reads := (tallPicture.faithful_iff (fun _ => 0) fun _ => .black).mp (faithful _ _ tallPicture)
  have black := reads.past 0 1 (by decide) (by decide) (by decide)
  revert black
  decide

end GrubLegacy.Efi
