import GrubLegacy.Stage2.Gunzip

/-!
# Reading gzip files

A gzip file that is opened with decompression reads like a plain file with its contents, whatever
was read before and in whatever order it is read.
-/

namespace GrubLegacy.Gunzip

open Base CStrings Stage2 Loader BlockFiles

/-! ## The files -/

/-- A field that is there if its flag is set. -/
def optionalField (flags mask : UInt8) (field : List UInt8) : List UInt8 :=
  if flags &&& mask = 0 then [] else field

/-- A gzip file: a header with optional fields, a stream that `inflate` gives the contents of, and a
checksum and the length of the contents. Its flags have no bits for multiple parts, encryption or
future use, and its contents may have as many bytes as a file of the filesystems. -/
structure GzipFile (inflate : List UInt8 → Option (List UInt8)) where
  flags : UInt8
  info : List UInt8
  extra : List UInt8
  name : List UInt8
  comment : List UInt8
  deflated : List UInt8
  crc : List UInt8
  contents : List UInt8
  supported : flags &&& 0xE2 = 0
  infoSize : info.length = 6
  extraShort : extra.length < 2 ^ 16
  nameFree : NulFree name
  commentFree : NulFree comment
  crcSize : crc.length = 4
  decompressed : inflate (deflated ++ (crc ++ wordBytes contents.length)) = some contents
  small : contents.length + wsize < 2 ^ 31

namespace GzipFile

variable {inflate : List UInt8 → Option (List UInt8)} (gzip : GzipFile inflate)

def start : List UInt8 := [0x1F, 0x8B, 8, gzip.flags] ++ gzip.info

def extraField : List UInt8 :=
  optionalField gzip.flags 0x04 (halfBytes gzip.extra.length ++ gzip.extra)

def nameField : List UInt8 := optionalField gzip.flags 0x08 (encodeString gzip.name)

def commentField : List UInt8 := optionalField gzip.flags 0x10 (encodeString gzip.comment)

def header : List UInt8 := gzip.start ++ gzip.extraField ++ gzip.nameField ++ gzip.commentField

def trailer : List UInt8 := gzip.crc ++ wordBytes gzip.contents.length

def bytes : List UInt8 := gzip.header ++ gzip.deflated ++ gzip.trailer

/-- The file is shorter than 2^31. -/
theorem contents_small : gzip.contents.length < 2 ^ 31 :=
  Nat.lt_of_le_of_lt (Nat.le_add_right _ _) gzip.small

/-- The contents, as a file. -/
def plain : OpenFile := plainFile gzip.contents gzip.contents_small

end GzipFile

/-- The disk does not fail, and the filesystem supports the file in its whole length. -/
structure Readable (file : OpenFile) : Prop where
  supported : file.filemax ≤ file.fsmax
  succeeds : ∀ filepos len, (file.readFunc filepos len).errnum = .none

/-- The windows of this place hold the contents one after the other. -/
def Windows (inflateWindow : InflateWindow) (file : OpenFile) (offset : Int)
    (contents : List UInt8) : Prop :=
  ∀ k, k * wsize < contents.length →
    (inflateWindow file offset k).errnum = .none ∧ (inflateWindow file offset k).finished = true ∧
      (contents.drop (k * wsize)).take wsize <+: (inflateWindow file offset k).slide

/-- What `inflate_window` is for: to fill the window with what the stream at a place of a file
decompresses to. -/
def Inflates (inflateWindow : InflateWindow) (inflate : List UInt8 → Option (List UInt8)) : Prop :=
  ∀ (file : OpenFile) (offset : Nat) (contents : List UInt8), Readable file →
    inflate (file.content.drop offset) = some contents →
      Windows inflateWindow file offset contents

/-! ## What is asked for -/

inductive Request where
  | seek (offset : Int)
  | read (len : Int)

/-- What the reads put into the buffer, and what they return. -/
def deliveries (inflateWindow : InflateWindow) (file : OpenFile) :
    FileState → List Request → List (List UInt8 × Int)
  | _, [] => []
  | state, .seek offset :: requests =>
    deliveries inflateWindow file (grubSeek state offset) requests
  | state, .read len :: requests =>
    let delivery := grubRead inflateWindow file state len
    (delivery.stored, delivery.returned) ::
      deliveries inflateWindow file delivery.state requests

/-- The same for a file that is not compressed. -/
def transfers (file : OpenFile) : (filepos : Int) → List Request → List (List UInt8 × Int)
  | _, [] => []
  | filepos, .seek offset :: requests => transfers file (Loader.grubSeek file filepos offset) requests
  | filepos, .read len :: requests =>
    let transfer := Loader.grubRead file filepos len
    (transfer.stored, transfer.returned) :: transfers file transfer.filepos requests

/-- A file that is opened so reads like this one. -/
def ReadsLike (inflateWindow : InflateWindow) (noDecompression : Bool) (file : OpenFile)
    (state : FileState) (plain : OpenFile) : Prop :=
  (grubOpen noDecompression (.ok file) state).2 = true ∧
    ∀ requests, deliveries inflateWindow file (grubOpen noDecompression (.ok file) state).1 requests =
      transfers plain 0 requests

/-! ## The header -/

/-- Inside of the file only the length is changed before it is read. -/
theorem readSane_place (read : FileState → Int → Delivery) {state : FileState}
    (low : 0 ≤ state.filepos) (high : state.filepos ≤ state.filemax)
    (supported : state.filemax ≤ state.fsmax) (len : Int) :
    readSane read state len = read state (saneLen state.filemax state.filepos len) :=
  readWithin_inside low high supported _ _ len

/-- A read inside the file is taken as it is. -/
theorem readSane_inside (read : FileState → Int → Delivery) {state : FileState} {len : Int}
    (low : 0 ≤ state.filepos) (some_ : 0 ≤ len) (high : state.filepos + len ≤ state.filemax)
    (supported : state.filemax ≤ state.fsmax) : readSane read state len = read state len := by
  rw [readSane_place read low (by omega) supported, saneLen_of_range some_ high]

section Header

variable {file : OpenFile} {state : FileState} {front rest : List UInt8}

/-- The state at the end of these bytes of the file. -/
def FileState.behind (state : FileState) (front : List UInt8) : FileState :=
  { state with filepos := front.length }

/-- Of two places the later one counts. -/
@[simp] theorem behind_behind (state : FileState) (first second : List UInt8) :
    (state.behind first).behind second = state.behind second := rfl

/-- A readable file is open, without an error, at the end of these of its bytes. -/
structure OpenAt (file : OpenFile) (front : List UInt8) (state : FileState) : Prop where
  filemax : state.filemax = file.filemax
  fsmax : state.fsmax = file.fsmax
  filepos : state.filepos = front.length
  errnum : state.errnum = .none

/-- Bytes inside of the file are read. -/
theorem readRaw_part (readable : Readable file) {middle : List UInt8}
    (split : file.content = front ++ middle ++ rest) (opened : OpenAt file front state) :
    readRaw file state middle.length =
      { stored := middle
        returned := middle.length
        state := state.behind (front ++ middle) } := by
  have size : file.filemax = front.length + middle.length + rest.length := by
    rw [OpenFile.filemax, split]
    simp [Int.add_assoc]
  have supported := readable.supported
  obtain ⟨filemax, fsmax, filepos, errnum⟩ := opened
  obtain ⟨stored, returned, moved⟩ := file.whole front.length middle.length
    (by rw [split]; simp) (readable.succeeds _ _)
  have isMiddle : (file.content.drop front.length).take middle.length = middle := by
    rw [split, List.append_assoc, List.drop_left, List.take_left]
  rw [readRaw, readSane_inside _ (by omega) (by omega) (by omega) (by omega), readFunc, filepos]
  simp only [Int.toNat_natCast, stored, returned, moved, readable.succeeds, isMiddle, if_pos,
    FileState.behind, List.length_append]

/-- The next byte of a file is read. -/
theorem readRaw_byte (readable : Readable file) {c : UInt8}
    (split : file.content = front ++ [c] ++ rest) (opened : OpenAt file front state) :
    readRaw file state 1 =
      { stored := [c], returned := 1, state := state.behind (front ++ [c]) } :=
  readRaw_part readable split opened

/-- A file that is open at a place is there. -/
theorem OpenAt.behind (opened : OpenAt file front state) : state.behind front = state := by
  rw [FileState.behind, ← opened.filepos]

/-- It can be moved on. -/
theorem OpenAt.moved (opened : OpenAt file front state) (middle : List UInt8) :
    OpenAt file (front ++ middle) (state.behind (front ++ middle)) :=
  ⟨opened.filemax, opened.fsmax, rfl, opened.errnum⟩

/-- A field of a known length is skipped. -/
theorem badField_counted (readable : Readable file) {field : List UInt8} {fuel : Nat} {ch : UInt8}
    (split : file.content = front ++ field ++ rest) (opened : OpenAt file front state)
    (enough : field.length < fuel) :
    badField file fuel state field.length ch =
      (state.behind (front ++ field), false) := by
  induction field generalizing front state fuel ch with
  | nil =>
      obtain ⟨fuel, rfl⟩ := Nat.exists_eq_add_of_lt enough
      rw [List.append_nil, opened.behind, badField, if_pos (.inl rfl)]
  | cons c field ih =>
      obtain ⟨fuel, rfl⟩ := Nat.exists_eq_succ_of_ne_zero (Nat.ne_of_gt (Nat.zero_lt_of_lt enough))
      have byte : file.content = front ++ [c] ++ (field ++ rest) := by simp [split]
      have read := readRaw_byte readable byte opened
      have more : ¬ (((c :: field).length : Int) = 0 ∨ ((c :: field).length : Int) < 0 ∧ ch = 0) := by
        rw [List.length_cons]
        omega
      have counted : (if 0 ≤ ((c :: field).length : Int) then ((c :: field).length : Int) - 1
          else ((c :: field).length : Int)) = field.length := by
        rw [List.length_cons]
        omega
      rw [badField, if_neg more, read, counted]
      have later := @ih (state.behind (front ++ [c])) (front ++ [c]) fuel c
        (by simp [split]) (opened.moved [c]) (by simpa using enough)
      simp only [if_pos, List.headD_cons, later]
      simp

/-- A string is skipped, with its NUL. -/
theorem badField_string (readable : Readable file) {text : List UInt8} (free : NulFree text)
    {fuel : Nat} {ch : UInt8} (begun : ch ≠ 0)
    (split : file.content = front ++ encodeString text ++ rest) (opened : OpenAt file front state)
    (enough : text.length + 1 < fuel) :
    badField file fuel state (-1) ch =
      (state.behind (front ++ encodeString text), false) := by
  have goesOn : ¬ ((-1 : Int) = 0 ∨ (-1 : Int) < 0 ∧ ch = 0) := by simp [begun]
  induction text generalizing front state fuel ch with
  | nil =>
      rw [List.length_nil] at enough
      obtain ⟨fuel, rfl⟩ := Nat.exists_eq_add_of_le' (Nat.succ_le_of_lt enough)
      have read := readRaw_byte readable split opened
      rw [badField, if_neg goesOn, read]
      simp [badField, encodeString]
  | cons c text ih =>
      obtain ⟨fuel, rfl⟩ := Nat.exists_eq_succ_of_ne_zero (Nat.ne_of_gt (Nat.zero_lt_of_lt enough))
      have notNul : c ≠ 0 := free c List.mem_cons_self
      have byte : file.content = front ++ [c] ++ (encodeString text ++ rest) := by
        simp [split, encodeString]
      have read := readRaw_byte readable byte opened
      rw [badField, if_neg goesOn, read]
      have later := @ih (state.behind (front ++ [c])) (front ++ [c])
        (fun other member => free other (List.mem_cons_of_mem _ member)) fuel c notNul
        (by simp [split, encodeString]) (opened.moved [c]) (by simpa using enough)
        (by simp [notNul])
      simp only [if_pos, List.headD_cons]
      rw [if_neg (by decide), later]
      simp [encodeString]

/-- Both kinds of fields are skipped by as many turns as are allowed. -/
theorem runBadField_counted (readable : Readable file) {field : List UInt8}
    (split : file.content = front ++ field ++ rest) (opened : OpenAt file front state) :
    runBadField file state field.length =
      (state.behind (front ++ field), false) :=
  badField_counted readable split opened (by omega)

/-- A string of the header is skipped with its NUL. -/
theorem runBadField_string (readable : Readable file) {text : List UInt8} (free : NulFree text)
    (split : file.content = front ++ encodeString text ++ rest) (opened : OpenAt file front state) :
    runBadField file state (-1) =
      (state.behind (front ++ encodeString text), false) := by
  have size : text.length + 1 ≤ state.filemax := by
    rw [opened.filemax, OpenFile.filemax, split]
    simp only [encodeString, List.length_append, List.length_singleton]
    omega
  exact badField_string readable free (by decide) split opened (by omega)

/-- An optional string is skipped if it is there. -/
theorem optionalString (readable : Readable file) {text : List UInt8} (free : NulFree text)
    {flags mask : UInt8}
    (split : file.content = front ++ optionalField flags mask (encodeString text) ++ rest)
    (opened : OpenAt file front state) :
    (if (false || decide (flags &&& mask = 0)) = true then (state, false)
      else runBadField file state (-1)) =
      (state.behind (front ++ optionalField flags mask (encodeString text)), false) := by
  by_cases absent : flags &&& mask = 0
  · simp [optionalField, absent, opened.behind]
  · simp only [optionalField, if_neg absent] at split
    simp [optionalField, absent, runBadField_string readable free split opened]

end Header

section Opening

variable {inflate : List UInt8 → Option (List UInt8)} {gzip : GzipFile inflate} {file : OpenFile}
  {state : FileState} {front rest : List UInt8}

/-- The extra field is skipped, if there is one. -/
theorem extraField_skipped (readable : Readable file)
    (split : file.content = front ++ gzip.extraField ++ rest) (opened : OpenAt file front state) :
    (if gzip.flags &&& 0x04 = 0 then (state, false)
      else
        if (readRaw file state 2).returned ≠ 2 then ((readRaw file state 2).state, true)
        else runBadField file (readRaw file state 2).state (halfAt (readRaw file state 2).stored 0)) =
      (state.behind (front ++ gzip.extraField), false) := by
  by_cases absent : gzip.flags &&& 0x04 = 0
  · simp [GzipFile.extraField, optionalField, absent, opened.behind]
  · simp only [GzipFile.extraField, optionalField, if_neg absent] at split ⊢
    have sizeField : file.content =
        front ++ halfBytes gzip.extra.length ++ (gzip.extra ++ rest) := by
      simpa using split
    have read := readRaw_part readable sizeField opened
    have size := halfAt_halfBytes gzip.extraShort []
    rw [List.append_nil] at size
    have skipped := @runBadField_counted file _ (front ++ halfBytes gzip.extra.length) rest readable
      gzip.extra (by simpa using split) (opened.moved _)
    have two : ((halfBytes gzip.extra.length).length : Int) = 2 := rfl
    rw [two] at read
    simp [read, size, skipped]

/-- The optional fields are skipped. -/
theorem badHeader_skipped (readable : Readable file)
    (split : file.content =
      front ++ gzip.extraField ++ gzip.nameField ++ gzip.commentField ++ rest)
    (opened : OpenAt file front state) :
    badHeader file state gzip.flags =
      (state.behind (front ++ gzip.extraField ++ gzip.nameField ++ gzip.commentField), false) := by
  have extra := @extraField_skipped _ gzip file state front
    (gzip.nameField ++ gzip.commentField ++ rest) readable (by simpa using split) opened
  have name := @optionalString file _ (front ++ gzip.extraField) (gzip.commentField ++ rest) readable
    gzip.name gzip.nameFree gzip.flags 0x08 (by simpa [GzipFile.nameField] using split)
    (opened.moved _)
  have comment := @optionalString file _ (front ++ gzip.extraField ++ gzip.nameField) rest readable
    gzip.comment gzip.commentFree gzip.flags 0x10 (by simpa [GzipFile.commentField] using split)
    ((opened.moved _).moved _)
  simp only [badHeader, extra]
  simp only [GzipFile.nameField, GzipFile.commentField] at name comment ⊢
  simp only [name]
  exact comment

/-- The header of a gzip file is accepted, and the inflate code started behind it. -/
theorem gunzipTestHeader_gzip (gzip : GzipFile inflate) (content : file.content = gzip.bytes)
    (readable : Readable file) (opened : OpenAt file [] state) :
    gunzipTestHeader false file state =
      (startInflate ((state.behind gzip.header).toTrailer.behind gzip.bytes) gzip.trailer, true) := by
  have ten : ((gzip.start.length : Nat) : Int) = 10 := by simp [GzipFile.start, gzip.infoSize]
  have eight : ((gzip.trailer.length : Nat) : Int) = 8 := by
    simp [GzipFile.trailer, wordBytes, gzip.crcSize]
  have start := @readRaw_part file state [] (gzip.extraField ++ gzip.nameField ++ gzip.commentField ++
    gzip.deflated ++ gzip.trailer) readable gzip.start
    (by simp [content, GzipFile.bytes, GzipFile.header]) opened
  have begun : OpenAt file gzip.start (state.behind gzip.start) := opened.moved gzip.start
  have header : badHeader file (state.behind gzip.start) gzip.flags =
      (state.behind gzip.header, false) :=
    @badHeader_skipped _ gzip file _ gzip.start (gzip.deflated ++ gzip.trailer) readable
      (by simp [content, GzipFile.bytes, GzipFile.header]) begun
  have size : file.filemax = (gzip.header ++ gzip.deflated).length + 8 := by
    rw [OpenFile.filemax, content, GzipFile.bytes, ← eight]
    simp [Int.add_assoc]
  have isTrailer : OpenAt file (gzip.header ++ gzip.deflated) (state.behind gzip.header).toTrailer := by
    refine ⟨opened.filemax, opened.fsmax, ?_, opened.errnum⟩
    have place : state.filemax - 8 = (gzip.header ++ gzip.deflated).length := by
      rw [opened.filemax, size, Int.add_sub_cancel]
    exact place
  have trailer := @readRaw_part file _ (gzip.header ++ gzip.deflated) [] readable gzip.trailer
    (by simp [content, GzipFile.bytes]) isTrailer
  have first : areaOf gzip.start 0 = 0x1F := rfl
  have second : areaOf gzip.start 1 = 0x8B := rfl
  have magic : isGzip gzip.start = true := by
    simp [isGzip, halfAt, Area.word16, Area.byte, first, second]
  have method : gzip.start.getD 2 0 = 8 := rfl
  have flags : gzip.start.getD 3 0 = gzip.flags := rfl
  rw [ten, List.nil_append] at start
  rw [eight] at trailer
  rw [gunzipTestHeader, if_neg (by decide)]
  simp only [start, magic, method, flags, gzip.supported]
  rw [if_neg (by decide), if_neg (by decide)]
  simp only [header, trailer]
  rfl

end Opening

/-! ## The contents -/

/-- Inside of `gunzip_read` these contents are read at a place. -/
structure Unpacking (inflateWindow : InflateWindow) (file : OpenFile) (offset : Int)
    (contents : List UInt8) (place : Nat) (state : FileState) : Prop where
  uncompressed : state.compressedFile = false
  started : state.gzipDataOffset = offset
  filepos : state.gzipFilepos = place
  filemax : state.gzipFilemax = contents.length
  fsmax : state.gzipFsmax = contents.length
  saved : state.savedFilepos = (state.calls * wsize : Nat)
  slide : ∀ k, state.calls = k + 1 → state.slide = (inflateWindow file offset k).slide
  errnum : state.errnum = .none

/-- Outside of it, the same with the values swapped. -/
structure Inflating (inflateWindow : InflateWindow) (file : OpenFile) (offset : Int)
    (contents : List UInt8) (place : Nat) (state : FileState) : Prop where
  compressed : state.compressedFile = true
  unpacking : Unpacking inflateWindow file offset contents place
    (gunzipSwapValues { state with compressedFile := false })

section Reading

variable {inflateWindow : InflateWindow} {file : OpenFile} {offset : Int} {contents : List UInt8}
  {place : Nat} {state : FileState}

/-- The window saved first starts at zero. -/
theorem saved_zero : (0 : Int) = (0 * wsize : Nat) := by
  rw [Nat.zero_mul]
  rfl

/-- A call fills the next window. -/
theorem Unpacking.call (unpacking : Unpacking inflateWindow file offset contents place state)
    (windows : Windows inflateWindow file offset contents)
    (more : state.calls * wsize < contents.length) :
    Unpacking inflateWindow file offset contents place (callInflate inflateWindow file state) ∧
      (callInflate inflateWindow file state).calls = state.calls + 1 := by
  obtain ⟨success, finished, -⟩ := windows _ more
  rw [← unpacking.started] at success finished
  have saved : (if (inflateWindow file state.gzipDataOffset state.calls).finished = true then
      state.savedFilepos + wsize else state.savedFilepos) = ((state.calls + 1) * wsize : Nat) := by
    rw [if_pos finished, unpacking.saved, Nat.add_mul, Nat.one_mul]
    rfl
  rw [callInflate, if_pos unpacking.errnum]
  refine ⟨⟨unpacking.uncompressed, unpacking.started, unpacking.filepos, unpacking.filemax,
    unpacking.fsmax, saved, ?_, success⟩, rfl⟩
  rintro k isNext
  obtain rfl := Nat.succ.inj isNext
  rw [← unpacking.started]

/-- The windows are filled up to the one with the place. -/
theorem Unpacking.forward (windows : Windows inflateWindow file offset contents)
    (inside : place < contents.length) {fuel : Nat}
    (unpacking : Unpacking inflateWindow file offset contents place state)
    (near : state.calls ≤ place / wsize + 1) (enough : place / wsize + 1 ≤ state.calls + fuel) :
    Unpacking inflateWindow file offset contents place
        (forwardWindows inflateWindow file fuel state) ∧
      (forwardWindows inflateWindow file fuel state).calls = place / wsize + 1 := by
  induction fuel generalizing state with
  | zero => exact ⟨unpacking, Nat.le_antisymm near enough⟩
  | succ fuel ih =>
      have test : state.savedFilepos ≤ state.gzipFilepos ↔ state.calls * wsize ≤ place := by
        rw [unpacking.saved, unpacking.filepos, Int.ofNat_le]
      rw [forwardWindows]
      by_cases before : state.calls * wsize ≤ place
      · have earlier : state.calls ≤ place / wsize :=
          (Nat.le_div_iff_mul_le (by decide)).mpr before
        obtain ⟨called, counted⟩ := unpacking.call windows (Nat.lt_of_le_of_lt before inside)
        rw [if_pos (test.mpr before)]
        exact ih called (by omega) (by omega)
      · have reached : place / wsize < state.calls :=
          (Nat.div_lt_iff_lt_mul (by decide)).mpr (Nat.lt_of_not_le before)
        rw [if_neg (mt test.mp before)]
        exact ⟨unpacking, Nat.le_antisymm near reached⟩

/-- A part of the contents in the window with its first byte. -/
theorem slide_part (windows : Windows inflateWindow file offset contents) {count : Nat}
    (inside : place + count ≤ contents.length) (some_ : 0 < count)
    (fits : place % wsize + count ≤ wsize) :
    (((inflateWindow file offset (place / wsize)).slide).drop (place % wsize)).take count =
      (contents.drop place).take count := by
  have start : place / wsize * wsize + place % wsize = place := Nat.div_add_mod' _ _
  obtain ⟨-, -, more, isSlide⟩ := windows (place / wsize) (by omega)
  have room : place % wsize + count ≤ ((contents.drop (place / wsize * wsize)).take wsize).length := by
    rw [List.length_take, List.length_drop]
    omega
  rw [← isSlide, List.drop_append_of_le_length (by omega),
    List.take_append_of_le_length (by rw [List.length_drop]; omega), List.drop_take, List.take_take,
    List.drop_drop, start, Nat.min_eq_left (by omega)]

/-- The loop of `gunzip_read` delivers the contents. -/
theorem Unpacking.copy (windows : Windows inflateWindow file offset contents) {fuel count : Nat}
    (unpacking : Unpacking inflateWindow file offset contents place state)
    (near : state.calls ≤ place / wsize + 1) (inside : place + count ≤ contents.length)
    (enough : count ≤ fuel) :
    (copyWindows inflateWindow file fuel state count).stored = (contents.drop place).take count ∧
      (copyWindows inflateWindow file fuel state count).returned = count ∧
      Unpacking inflateWindow file offset contents (place + count)
        (copyWindows inflateWindow file fuel state count).state := by
  induction fuel generalizing place count state with
  | zero =>
      obtain rfl := Nat.le_zero.mp enough
      exact ⟨rfl, rfl, unpacking⟩
  | succ fuel ih =>
      rcases Nat.eq_zero_or_pos count with rfl | some_
      · exact ⟨rfl, rfl, unpacking⟩
      obtain ⟨filled, calls⟩ := unpacking.forward windows (by omega) near
        (by omega : place / wsize + 1 ≤ state.calls + (place / wsize + 2))
      rw [copyWindows, unpacking.filepos, Int.toNat_natCast]
      generalize forwardWindows inflateWindow file (place / wsize + 2) state = state' at filled calls
      have remainder : place % wsize < wsize := Nat.mod_lt _ (by decide)
      have start : place / wsize * wsize + place % wsize = place := Nat.div_add_mod' _ _
      have saved : state'.savedFilepos = (place + (wsize - place % wsize) : Nat) := by
        rw [filled.saved, calls, Nat.add_mul, Nat.one_mul]
        omega
      -- what the window has from the place on, or what is asked for
      obtain ⟨size, isSize⟩ : ∃ size, size = min (wsize - place % wsize) count := ⟨_, rfl⟩
      have counted : min (state'.savedFilepos - place) (count : Int) = size := by
        rw [saved]
        omega
      have moved : Unpacking inflateWindow file offset contents (place + size)
          { state' with gzipFilepos := (place : Int) + size } :=
        ⟨filled.uncompressed, filled.started, rfl, filled.filemax, filled.fsmax, filled.saved,
          filled.slide, filled.errnum⟩
      have later : place / wsize ≤ (place + size) / wsize :=
        Nat.div_le_div_right (Nat.le_add_right _ _)
      have piece := @slide_part inflateWindow file offset contents place windows size (by omega)
        (by omega) (by omega)
      rw [← filled.slide _ calls] at piece
      have left : (count : Int) - size = (count - size : Nat) := by omega
      obtain ⟨stored, returned, unpacked⟩ := @ih (place + size) _ (count - size) moved
        (by rw [calls]; exact Nat.succ_le_succ later) (by omega) (by omega)
      have all : size + (count - size) = count := by omega
      rw [if_pos ⟨by omega, unpacking.errnum⟩]
      simp only [filled.filepos, counted, left, stored, returned, Int.toNat_natCast, piece]
      refine ⟨?_, ?_, ?_⟩
      · rw [← List.drop_drop, ← List.take_add, all]
      · omega
      · rwa [Nat.add_assoc, all] at unpacked

/-- `gunzip_read` delivers the contents. -/
theorem Inflating.gunzipRead (windows : Windows inflateWindow file offset contents) {count : Nat}
    (inflating : Inflating inflateWindow file offset contents place state)
    (inside : place + count ≤ contents.length) :
    (gunzipRead inflateWindow file state count).stored = (contents.drop place).take count ∧
      (gunzipRead inflateWindow file state count).returned = count ∧
      Inflating inflateWindow file offset contents (place + count)
        (gunzipRead inflateWindow file state count).state := by
  have unpacking := inflating.unpacking
  rw [Gunzip.gunzipRead]
  generalize gunzipSwapValues { state with compressedFile := false } = state' at unpacking
  -- Where the place is before the window, the file is decompressed from its start again.
  obtain ⟨state'', isNext, ready, near⟩ : ∃ state'',
      (if state'.gzipFilepos + wsize < state'.savedFilepos then initializeTables state' else state') =
        state'' ∧ Unpacking inflateWindow file offset contents place state'' ∧
      state''.calls ≤ place / wsize + 1 := by
    by_cases behind : state'.gzipFilepos + wsize < state'.savedFilepos
    · exact ⟨_, if_pos behind, ⟨unpacking.uncompressed, unpacking.started, unpacking.filepos,
        unpacking.filemax, unpacking.fsmax, saved_zero, nofun, unpacking.errnum⟩, Nat.zero_le _⟩
    · refine ⟨_, if_neg behind, unpacking, ?_⟩
      rw [unpacking.saved, unpacking.filepos] at behind
      rw [← Nat.add_div_right _ (by decide : 0 < wsize), Nat.le_div_iff_mul_le (by decide)]
      omega
  obtain ⟨stored, returned, copied⟩ := ready.copy windows near inside (Nat.le_refl count)
  simp only [isNext, Int.toNat_natCast, if_pos copied.errnum]
  exact ⟨stored, returned, rfl, ⟨rfl, copied.started, copied.filepos, copied.filemax, copied.fsmax,
    copied.saved, copied.slide, copied.errnum⟩⟩

variable {small : contents.length < 2 ^ 31}

/-- A read of the compressed file delivers what a read of its contents does. -/
theorem Inflating.read (windows : Windows inflateWindow file offset contents)
    (inflating : Inflating inflateWindow file offset contents place state)
    (inside : place ≤ contents.length) (len : Int) :
    ∃ count, place + count ≤ contents.length ∧
      Loader.grubRead (plainFile contents small) place len =
        { stored := (contents.drop place).take count
          returned := count
          filepos := (place + count : Nat)
          errnum := .none } ∧
      (grubRead inflateWindow file state len).stored = (contents.drop place).take count ∧
      (grubRead inflateWindow file state len).returned = count ∧
      Inflating inflateWindow file offset contents (place + count)
        (grubRead inflateWindow file state len).state := by
  have filepos : state.filepos = place := inflating.unpacking.filepos
  have filemax : state.filemax = contents.length := inflating.unpacking.filemax
  have fsmax : state.fsmax = contents.length := inflating.unpacking.fsmax
  have isMax : (plainFile contents small).filemax = contents.length := rfl
  have isFsmax : (plainFile contents small).fsmax = 2 ^ 31 - 1 := rfl
  obtain ⟨some_, fits⟩ := @saneLen_range contents.length place (by omega) len
  obtain ⟨count, isCount⟩ := Int.eq_ofNat_of_zero_le some_
  have reads : grubRead inflateWindow file state len =
      Gunzip.gunzipRead inflateWindow file state count := by
    rw [grubRead, readSane_place _ (by omega) (by omega) (by omega), if_pos inflating.compressed,
      filepos, filemax, isCount]
  have plain : Loader.grubRead (plainFile contents small) place len =
      (plainFile contents small).readFunc place count := by
    rw [Loader.grubRead, readWithin_inside (by omega) (by omega) (by omega), isMax, isCount]
    rfl
  exact ⟨count, by omega, plain, reads ▸ inflating.gunzipRead windows (by omega)⟩

/-- So it is with any reads and seeks. -/
theorem Inflating.deliveries (windows : Windows inflateWindow file offset contents)
    (inflating : Inflating inflateWindow file offset contents place state)
    (inside : place ≤ contents.length) (requests : List Request) :
    deliveries inflateWindow file state requests =
      transfers (plainFile contents small) place requests := by
  induction requests generalizing place state with
  | nil => rfl
  | cons request requests ih =>
      cases request with
      | seek target =>
          have unpacking := inflating.unpacking
          obtain ⟨low, high⟩ := @seekFilepos_range contents.length place (by omega) target
          obtain ⟨place', isPlace⟩ := Int.eq_ofNat_of_zero_le low
          have filepos : state.filepos = place := unpacking.filepos
          have filemax : state.filemax = contents.length := unpacking.filemax
          have moved : seekFilepos state.filemax state.filepos target = place' := by
            rw [filemax, filepos, isPlace]
          have moved' : Loader.grubSeek (plainFile contents small) place target = place' := isPlace
          rw [Gunzip.deliveries, transfers, grubSeek, moved, moved']
          exact @ih place' _ ⟨inflating.compressed, rfl, unpacking.started, rfl, unpacking.filemax,
            unpacking.fsmax, unpacking.saved, unpacking.slide, unpacking.errnum⟩ (by omega)
      | read len =>
          obtain ⟨count, stays, plain, stored, returned, later⟩ :=
            @Inflating.read _ _ _ _ _ _ small windows inflating inside len
          rw [Gunzip.deliveries, transfers, plain]
          simp only [stored, returned]
          rw [ih later stays]

end Reading

/-- A gzip file that is opened with decompression reads like its contents. -/
theorem readsLike_gzip {inflateWindow : InflateWindow} {inflate : List UInt8 → Option (List UInt8)}
    (inflates : Inflates inflateWindow inflate) (gzip : GzipFile inflate) {file : OpenFile}
    (content : file.content = gzip.bytes) (readable : Readable file) {state : FileState}
    (clear : state.errnum = .none) :
    ReadsLike inflateWindow false file state gzip.plain := by
  have opened : OpenAt file [] { state with
      compressedFile := false, filepos := 0, filemax := file.filemax, fsmax := file.fsmax } :=
    ⟨rfl, rfl, rfl, clear⟩
  have tested := gunzipTestHeader_gzip gzip content readable opened
  have isStream : inflate (file.content.drop gzip.header.length) = some gzip.contents := by
    rw [content, GzipFile.bytes, List.append_assoc, List.drop_left]
    exact gzip.decompressed
  have windows := inflates file gzip.header.length gzip.contents readable isStream
  have small := gzip.contents_small
  have size : toInt32 (wordAt gzip.trailer 4) = gzip.contents.length := by
    have word := @wordAt_wordBytes gzip.contents.length (by omega) gzip.crc
    rw [gzip.crcSize] at word
    rw [GzipFile.trailer, word, toInt32]
    omega
  rw [ReadsLike, grubOpen]
  simp only [tested]
  refine ⟨trivial, fun requests => ?_⟩
  refine @Inflating.deliveries inflateWindow file _ gzip.contents 0 _ small windows ⟨rfl, ?_⟩
    (Nat.zero_le _) requests
  exact ⟨rfl, rfl, rfl, size, size, saved_zero, nofun, clear⟩

end GrubLegacy.Gunzip
