import GrubLegacy.Base.MachineInt
import GrubLegacy.BlockFiles.BlockFile
import GrubLegacy.Loader.OpenFile

/-!
# Compressed files

`grub_open`, `grub_read` and `grub_seek` with the part of `gunzip.c` that is around the inflate
code. A file with a gzip header is read decompressed, a window at a time, unless
`no_decompression` is set when it is opened. The code of inflate is a parameter.
-/

namespace GrubLegacy.Gunzip

open Base CStrings Stage2 Loader BlockFiles

/-! ## The state -/

/-- WSIZE -/
def wsize : Nat := 0x8000

/-- What a call of `inflate_window` leaves, and whether it has come to its end, where
`saved_filepos` is moved. -/
structure Window where
  slide : List UInt8
  filepos : Int
  errnum : GrubError
  finished : Bool

/-- `inflate_window`, called so many times since `initialize_tables`. -/
abbrev InflateWindow := OpenFile → (gzipDataOffset : Int) → (calls : Nat) → Window

/-- The variables of the open file. The other state of the inflate code is what `calls` calls of
`inflate_window` have made of it. -/
structure FileState where
  filepos : Int
  filemax : Int
  fsmax : Int
  compressedFile : Bool
  gzipDataOffset : Int
  gzipFilepos : Int
  gzipFilemax : Int
  gzipFsmax : Int
  savedFilepos : Int
  gzipCrc : Nat
  slide : List UInt8
  calls : Nat
  errnum : GrubError

/-- What a read puts into the buffer, what it returns, and the state it leaves. -/
structure Delivery where
  stored : List UInt8
  returned : Int
  state : FileState

/-- `gunzip_swap_values` -/
def gunzipSwapValues (state : FileState) : FileState :=
  { state with
    filepos := state.gzipFilepos
    gzipFilepos := state.filepos
    filemax := state.gzipFilemax
    gzipFilemax := state.filemax
    fsmax := state.gzipFsmax
    gzipFsmax := state.fsmax }

/-- `initialize_tables` -/
def initializeTables (state : FileState) : FileState :=
  { state with savedFilepos := 0, filepos := state.gzipDataOffset, calls := 0 }

/-! ## Reading -/

/-- `grub_read` over what reads the contents. -/
def readSane (read : FileState → Int → Delivery) (state : FileState) (len : Int) : Delivery :=
  readWithin state.filemax state.fsmax
    (fun filepos =>
      { stored := [], returned := 0, state := { state with filepos, errnum := .filelength } })
    (fun filepos len => read { state with filepos } len) state.filepos len

/-- The `read_func` of the file system. -/
def readFunc (file : OpenFile) (state : FileState) (len : Int) : Delivery :=
  let transfer := file.readFunc state.filepos.toNat len.toNat
  { stored := transfer.stored
    returned := transfer.returned
    state :=
      { state with
        filepos := transfer.filepos
        errnum := if transfer.errnum = .none then state.errnum else transfer.errnum } }

/-- `grub_read` where `compressed_file` is 0. -/
def readRaw (file : OpenFile) : FileState → Int → Delivery := readSane (readFunc file)

section Inflate

variable (inflateWindow : InflateWindow) (file : OpenFile)

/-- A call of `inflate_window`. -/
def callInflate (state : FileState) : FileState :=
  if state.errnum = .none then
    let window := inflateWindow file state.gzipDataOffset state.calls
    { state with
      slide := window.slide
      filepos := window.filepos
      errnum := window.errnum
      calls := state.calls + 1
      savedFilepos := if window.finished then state.savedFilepos + wsize else state.savedFilepos }
  else { state with savedFilepos := state.savedFilepos + wsize }

/-- The windows up to the one with the place that is read. At most one call does not move
`saved_filepos`. -/
def forwardWindows : (fuel : Nat) → FileState → FileState
  | 0, state => state
  | fuel + 1, state =>
    if state.savedFilepos ≤ state.gzipFilepos then
      forwardWindows fuel (callInflate inflateWindow file state)
    else state

/-- The loop of `gunzip_read`. -/
def copyWindows : (fuel : Nat) → FileState → (len : Int) → Delivery
  | 0, state, _ => { stored := [], returned := 0, state }
  | fuel + 1, state, len =>
    if 0 < len ∧ state.errnum = .none then
      let state := forwardWindows inflateWindow file (state.gzipFilepos.toNat / wsize + 2) state
      let size := min (state.savedFilepos - state.gzipFilepos) len
      let rest :=
        copyWindows fuel { state with gzipFilepos := state.gzipFilepos + size } (len - size)
      { stored :=
          (state.slide.drop (state.gzipFilepos.toNat % wsize)).take size.toNat ++ rest.stored
        returned := size + rest.returned
        state := rest.state }
    else { stored := [], returned := 0, state }

/-- `gunzip_read` -/
def gunzipRead (state : FileState) (len : Int) : Delivery :=
  let state := gunzipSwapValues { state with compressedFile := false }
  let state :=
    if state.gzipFilepos + wsize < state.savedFilepos then initializeTables state else state
  let copied := copyWindows inflateWindow file len.toNat state len
  { copied with
    returned := if copied.state.errnum = .none then copied.returned else 0
    state := gunzipSwapValues { copied.state with compressedFile := true } }

/-- `grub_read` -/
def grubRead : FileState → Int → Delivery :=
  readSane fun state len =>
    if state.compressedFile then gunzipRead inflateWindow file state len
    else readFunc file state len

end Inflate

/-- `grub_seek` -/
def grubSeek (state : FileState) (offset : Int) : FileState :=
  { state with filepos := seekFilepos state.filemax state.filepos offset }

/-! ## Opening -/

/-- `bad_field`: the state after a field of `len` bytes, or one up to a NUL if that is negative, and
whether it is bad. -/
def badField (file : OpenFile) : (fuel : Nat) → FileState → (len : Int) → (ch : UInt8) →
    FileState × Bool
  | 0, state, _, _ => (state, true)
  | fuel + 1, state, len, ch =>
    if len = 0 ∨ (len < 0 ∧ ch = 0) then (state, false)
    else
      let read := readRaw file state 1
      if read.returned = 1 then
        badField file fuel read.state (if 0 ≤ len then len - 1 else len) (read.stored.headD 0)
      else (read.state, decide (read.returned = 0))

/-- `bad_field`, for as long as it may run. -/
def runBadField (file : OpenFile) (state : FileState) (len : Int) : FileState × Bool :=
  badField file (state.filemax.toNat + len.toNat + 2) state len 1

/-- The optional fields of the header, up to a bad one. -/
def badHeader (file : OpenFile) (state : FileState) (flags : UInt8) : FileState × Bool :=
  let extra : FileState × Bool :=
    if flags &&& 0x04 = 0 then (state, false)
    else
      let read := readRaw file state 2
      if read.returned ≠ 2 then (read.state, true)
      else runBadField file read.state (halfAt read.stored 0)
  let name := if extra.2 || flags &&& 0x08 = 0 then extra else runBadField file extra.1 (-1)
  if name.2 || flags &&& 0x10 = 0 then name else runBadField file name.1 (-1)

/-- The file is taken as it is, unless the disk has failed. -/
def uncompressed (state : FileState) : FileState × Bool :=
  ({ state with filepos := 0 }, decide (state.errnum = .none))

def corrupt (state : FileState) : FileState × Bool :=
  ({ state with errnum := if state.errnum = .none then .badGzipHeader else state.errnum }, false)

/-- The compressed data begin here, and the last eight bytes of the file come next. -/
def FileState.toTrailer (state : FileState) : FileState :=
  { state with gzipDataOffset := state.filepos, filepos := state.filemax - 8 }

/-- The end of `gunzip_test_header`, for the last eight bytes of the file. -/
def startInflate (state : FileState) (buf : List UInt8) : FileState :=
  let size := toInt32 (wordAt buf 4)
  let state := initializeTables
    { state with gzipCrc := wordAt buf 0, gzipFsmax := size, gzipFilemax := size }
  { gunzipSwapValues { state with compressedFile := true } with filepos := 0 }

/-- `gunzip_test_header` -/
def gunzipTestHeader (noDecompression : Bool) (file : OpenFile) (state : FileState) :
    FileState × Bool :=
  if noDecompression then uncompressed state
  else
    let read := readRaw file state 10
    if read.returned ≠ 10 ∨ !isGzip read.stored then uncompressed read.state
    else if read.stored.getD 2 0 ≠ 8 ∨ read.stored.getD 3 0 &&& 0xE2 ≠ 0 then corrupt read.state
    else
      let header := badHeader file read.state (read.stored.getD 3 0)
      if header.2 then corrupt header.1
      else
        let trailer := readRaw file header.1.toTrailer 8
        if trailer.returned ≠ 8 then corrupt trailer.state
        else (startInflate trailer.state trailer.stored, true)

/-- `grub_open`, with how the file system opens the file. -/
def grubOpen (noDecompression : Bool) (opening : FileOpening) (state : FileState) :
    FileState × Bool :=
  let state := { state with compressedFile := false, filepos := 0 }
  match opening with
  | .error errnum => ({ state with errnum := errnum.1 }, false)
  | .ok file =>
    gunzipTestHeader noDecompression file
      { state with filemax := file.filemax, fsmax := file.fsmax }

end GrubLegacy.Gunzip
