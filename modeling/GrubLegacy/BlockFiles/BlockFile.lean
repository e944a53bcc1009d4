import GrubLegacy.Base.LittleEndian
import GrubLegacy.DiskIo.PartitionMedia
import GrubLegacy.Stage2.FileReads
import GrubLegacy.Stage2.Numerals

/-!
# Files given as block lists

A file name that is not a path lists the sectors of the file: `grub_open`,
`gunzip_test_header`, `grub_read` and `grub_seek` on such a file. The list is kept in the
file system buffer, with a cursor that stays behind the position of the file.
-/

namespace GrubLegacy.BlockFiles

open Base Stage2 DiskIo CStrings

/-! ## The name -/

/-- `isspace` -/
def isspace (c : UInt8) : Bool :=
  c = charOf ' ' || c = charOf '\t' || c = charOf '\r' || c = charOf '\n'

/-- The character at the start of a text, NUL at its end. -/
def first (text : List UInt8) : UInt8 := text.headD 0

/-- A name ends here. -/
def endsName (text : List UInt8) : Bool :=
  first text = 0 || first text = charOf '/' || isspace (first text)

/-- A start sector and a number of sectors. -/
abbrev Segment := Nat × Nat

/-- What `grub_open` has parsed when it leaves the loop: the rest of the name, how much of
the table is left, `filemax` and the table. -/
structure ParsedName where
  rest : List UInt8
  room : Nat
  filemax : Int
  table : List Segment

/-- How many entries there are from `BLK_BLKLIST_START` to `BLK_MAX_ADDR`. -/
def tableRoom : Nat := 4094

/-- The loop of `grub_open` over the name; nothing after `ERR_BAD_FILENAME`. -/
def parseName (sectorSize : Nat) : (room : Nat) → (name : List UInt8) → (filemax : Int) →
    (table : List Segment) → Option ParsedName
  | 0, name, filemax, table => some { rest := name, room := 0, filemax, table }
  | room + 1, name, filemax, table =>
    let (start, rest) := (safeParseMaxint name).getD (0, name)
    if first rest ≠ charOf '+' then
      if !endsName rest ∨ start = 0 ∨ filemax < start then none
      else some { rest, room := room + 1, filemax := start, table }
    else
      match safeParseMaxint rest.tail with
      | none => none
      | some (length, rest) =>
        if length = 0 ∨ !(endsName rest || first rest = charOf ',') then none
        else
          let filemax := toInt32 (filemax + toInt32 (length * sectorSize))
          let table := table ++ [(start, length)]
          if first rest ≠ charOf ',' then some { rest, room, filemax, table }
          else parseName sectorSize room rest.tail filemax table

/-! ## The open file -/

/-- `BLK_CUR_FILEPOS`, the entry at `BLK_CUR_BLKLIST` and `BLK_CUR_BLKNUM`. -/
structure Cursor where
  filepos : Int
  blklist : Nat
  blknum : Int
deriving DecidableEq, Repr

/-- The start of the list. -/
def Cursor.start : Cursor := { filepos := 0, blklist := 0, blknum := 0 }

/-- A file given as a block list. -/
structure BlockFile where
  filemax : Int
  filepos : Int
  errnum : GrubError
  table : List Segment
  cursor : Cursor

/-- `BLK_BLKSTART` -/
def blkstart (table : List Segment) (entry : Nat) : Nat := (table.getD entry (0, 0)).1

/-- `BLK_BLKLENGTH` -/
def blklength (table : List Segment) (entry : Nat) : Nat := (table.getD entry (0, 0)).2

/-- One round of the loop that runs the cursor up to `filepos`. -/
def Cursor.forward (sectorSize : Nat) (table : List Segment) (filepos : Int) (cursor : Cursor) :
    Cursor :=
  if (sectorSize : Int) ≤ filepos - cursor.filepos / sectorSize * sectorSize then
    let moved := toInt32 (cursor.filepos + sectorSize)
    if (blklength table cursor.blklist : Int) ≤ cursor.blknum + 1 then
      { filepos := moved, blklist := cursor.blklist + 1, blknum := 0 }
    else { filepos := moved, blklist := cursor.blklist, blknum := cursor.blknum + 1 }
  else { cursor with filepos }

/-- The loop. The cursor is taken on by a sector or ends at `filepos` in every round. -/
def Cursor.run (sectorSize : Nat) (table : List Segment) (filepos : Int) :
    (fuel : Nat) → Cursor → Cursor
  | 0, cursor => cursor
  | fuel + 1, cursor =>
    if cursor.filepos < filepos then
      Cursor.run sectorSize table filepos fuel (cursor.forward sectorSize table filepos)
    else cursor

/-- The cursor at `filepos`, from the start of the list if it is past it. -/
def Cursor.seek (sectorSize : Nat) (table : List Segment) (filepos : Int) (cursor : Cursor) :
    Cursor :=
  Cursor.run sectorSize table filepos (filepos.toNat + 1)
    (if filepos < cursor.filepos then .start else cursor)

/-- What a read leaves: the file, the bytes it put into the buffer and what it returns. -/
structure BlockRead where
  file : BlockFile
  stored : List UInt8
  returned : Int

/-- With a cursor. -/
def BlockFile.at (file : BlockFile) (cursor : Cursor) : BlockFile := { file with cursor }

/-- After a read of so many bytes. -/
def BlockFile.moved (file : BlockFile) (size : Int) : BlockFile :=
  { file with filepos := file.filepos + size }

def BlockFile.fail (file : BlockFile) (errnum : GrubError) : BlockFile := { file with errnum }

/-- How many bytes are read from the entry the cursor is in. -/
def BlockFile.size (file : BlockFile) (sectorSize : Nat) (len : Int) : Int :=
  let off := file.filepos % sectorSize
  let left := toInt32 (toInt32 ((blklength file.table file.cursor.blklist - file.cursor.blknum) *
    sectorSize) - off)
  if len < left then len else left

/-- The loop of `grub_read`. A round reads at least a byte. -/
def readSegments (media : PartitionMedia) : (fuel : Nat) → BlockFile → (len : Int) →
    (stored : List UInt8) → (returned : Int) → BlockRead
  | 0, file, _, stored, returned => { file, stored, returned }
  | fuel + 1, file, len, stored, returned =>
    if len = 0 ∨ file.errnum ≠ .none then { file, stored, returned }
    else
      let file := file.at (file.cursor.seek media.sectorSize file.table file.filepos)
      let size := file.size media.sectorSize len
      match media.devread (toInt32 (blkstart file.table file.cursor.blklist + file.cursor.blknum))
        (file.filepos % media.sectorSize) size with
      | .error failure =>
        readSegments media fuel ((file.moved size).fail failure) (len - size) stored
          (returned + size)
      | .ok bytes =>
        readSegments media fuel (file.moved size) (len - size) (stored ++ bytes) (returned + size)

/-- `grub_read`; `fsmax` is MAXINT. After an error nothing is returned. -/
def grubRead (media : PartitionMedia) (file : BlockFile) (len : Int) : BlockRead :=
  readWithin file.filemax maxint
    (fun filepos =>
      { file := { file with filepos }.fail .filelength, stored := [], returned := 0 })
    (fun filepos len =>
      let read := readSegments media len.toNat { file with filepos } len [] 0
      if read.file.errnum ≠ .none then { read with returned := 0 } else read) file.filepos len

/-- `grub_seek` -/
def grubSeek (file : BlockFile) (offset : Int) : BlockFile :=
  { file with filepos := seekFilepos file.filemax file.filepos offset }

/-! ## Opening -/

/-- GZIP_HDR_LE and OLD_GZIP_HDR_LE -/
def isGzip (buf : List UInt8) : Bool := halfAt buf 0 = 0x8B1F || halfAt buf 0 = 0x9E1F

/-- `bad_field`: the file after a field of the header, of `len` bytes or up to a NUL if that
is negative, and whether the file ends in it. -/
def badField (media : PartitionMedia) : (fuel : Nat) → BlockFile → (len : Int) → (ch : UInt8) →
    BlockFile × Bool
  | 0, file, _, _ => (file, true)
  | fuel + 1, file, len, ch =>
    if len = 0 ∨ (len < 0 ∧ ch = 0) then (file, false)
    else
      let read := grubRead media file 1
      if read.returned = 1 then
        badField media fuel read.file (if 0 ≤ len then len - 1 else len) (first read.stored)
      else (read.file, true)

/-- `bad_field`, for as long as it may run. -/
def runBadField (media : PartitionMedia) (file : BlockFile) (len : Int) : BlockFile × Bool :=
  badField media (file.filemax.toNat + len.toNat + 2) file len 1

/-- The optional fields of the header, as far as they are good. -/
def badHeader (media : PartitionMedia) (file : BlockFile) (flags : UInt8) : BlockFile × Bool :=
  let extra : BlockFile × Bool :=
    if flags &&& 0x04 = 0 then (file, false)
    else
      let read := grubRead media file 2
      if read.returned ≠ 2 then (read.file, true)
      else runBadField media read.file (halfAt read.stored 0)
  let name := if extra.2 || flags &&& 0x08 = 0 then extra else runBadField media extra.1 (-1)
  if name.2 || flags &&& 0x10 = 0 then name else runBadField media name.1 (-1)

/-- A file `grub_open` opened: `compressed_file`, and `filemax` as the caller finds it. -/
structure OpenedFile where
  file : BlockFile
  compressedFile : Bool
  filemax : Int

/-- `gunzip_test_header`; nothing if it fails. -/
def gunzipTestHeader (media : PartitionMedia) (noDecompression : Bool) (file : BlockFile) :
    Option OpenedFile :=
  let uncompressed (file : BlockFile) : Option OpenedFile :=
    if file.errnum = .none then
      some { file := { file with filepos := 0 }, compressedFile := false, filemax := file.filemax }
    else none
  if noDecompression then uncompressed file
  else
    let read := grubRead media file 10
    if read.returned ≠ 10 ∨ !isGzip read.stored then uncompressed read.file
    else if read.stored.getD 2 0 ≠ 8 ∨ read.stored.getD 3 0 &&& 0xE2 ≠ 0 then none
    else
      let (file, bad) := badHeader media read.file (read.stored.getD 3 0)
      if bad then none
      else
        let trailer := grubRead media { file with filepos := file.filemax - 8 } 8
        if trailer.returned ≠ 8 then none
        else
          some { file := { trailer.file with filepos := 0 }, compressedFile := true
                 filemax := toInt32 (wordAt trailer.stored 4) }

/-- The file as it is before its start was looked at. -/
def ParsedName.opened (parsed : ParsedName) : BlockFile :=
  { filemax := parsed.filemax, filepos := 0, errnum := .none, table := parsed.table
    cursor := .start }

/-- `grub_open`, for what `setup_part` left of a name that is not a path. Where it is no
block list either, it fails. -/
def grubOpen (media : PartitionMedia) (noDecompression : Bool) (filename : List UInt8) :
    Option OpenedFile :=
  match parseName media.sectorSize tableRoom filename 0 [] with
  | none => none
  | some parsed =>
    if 0 < parsed.room ∧ parsed.rest ≠ filename then
      gunzipTestHeader media noDecompression parsed.opened
    else none

end GrubLegacy.BlockFiles
