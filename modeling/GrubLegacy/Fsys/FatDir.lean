import GrubLegacy.Base.Machines
import GrubLegacy.Fsys.FatRead
import GrubLegacy.Fsys.PathNames

/-!
# Looking up a FAT path

`fat_dir` of `fsys_fat.c` as a machine. A step begins with a component of the name or reads one
entry of a directory; what is assembled of a long name is kept from entry to entry.
-/

namespace GrubLegacy.Fsys.Fat

open Base CStrings Stage2 DiskIo BlockFiles
open GrubLegacy.Partition (Buffer)

/-! ## Entries -/

/-- FAT_ATTRIB_DIR -/
def fatAttribDir : Nat := 0x10

/-- FAT_ATTRIB_LONGNAME -/
def fatAttribLongname : Nat := 0x0F

/-- FAT_ATTRIB_NOT_OK_MASK -/
def fatAttribNotOkMask : Nat := 0xC8

section

variable (dirBuf : Buffer)

/-- FAT_DIRENTRY_ATTRIB -/
def fatDirentryAttrib : Nat := dirBuf.byte 11

/-- FAT_DIRENTRY_VALID -/
def fatDirentryValid : Bool :=
  dirBuf 0 ≠ 0 && dirBuf 0 ≠ 0xE5 && (fatDirentryAttrib dirBuf &&& fatAttribNotOkMask) = 0

/-- FAT_DIRENTRY_FIRST_CLUSTER -/
def fatDirentryFirstCluster : Int := toInt32 (dirBuf.word16 26 + dirBuf.word16 20 * 2 ^ 16 : Nat)

/-- FAT_DIRENTRY_FILELENGTH -/
def fatDirentryFilelength : Nat := dirBuf.word32 28

/-- FAT_LONGDIR_ID -/
def fatLongdirId : Nat := dirBuf.byte 0

/-- FAT_LONGDIR_ALIASCHECKSUM -/
def fatLongdirAliaschecksum : Nat := dirBuf.byte 13

/-- `longdir_pos` -/
def longdirPos : List Nat := [1, 3, 5, 7, 9, 14, 16, 18, 20, 22, 24, 28, 30]

/-- The characters of a long name in an entry. -/
def longdirChars : List UInt8 := longdirPos.map dirBuf

/-- The checksum over a short name: a rotation to the right and a sum. -/
def aliasSum : UInt8 :=
  (List.range 11).foldl (fun sum i => ((sum >>> 1) ||| (sum <<< 7)) + dirBuf i) 0

/-- The characters of a part of a short name, up to a blank. -/
def shortPart (start count : Nat) : List UInt8 :=
  ((List.range count).map fun i => tolower (dirBuf (start + i))).takeWhile fun c =>
    c ≠ 0 && !isspace c

/-- The short name as it is stored, with its NUL. -/
def shortName : List UInt8 :=
  let base := shortPart dirBuf 0 8
  let extension := shortPart dirBuf 8 3
  if extension = [] then base ++ [0, tolower (dirBuf 8)]
  else base ++ charOf '.' :: extension ++ [0]

end

/-! ## Names -/

/-- `slot`, `alias_checksum` and `filename`. -/
structure NameState where
  slot : Int
  aliasChecksum : Int
  filename : Buffer

/-- The string in `filename`. -/
def NameState.text (names : NameState) : List UInt8 :=
  readString ((List.range 1024).map names.filename)

/-- The first entry of a long name, which has its last part. -/
def NameState.begin (names : NameState) (dirBuf : Buffer) : NameState :=
  if (fatLongdirId dirBuf).testBit 6 then
    let slot := fatLongdirId dirBuf % 0x40
    { slot, aliasChecksum := fatLongdirAliaschecksum dirBuf
      filename := store names.filename (slot * 13) [0] }
  else names

/-- `id` behind that. -/
def longdirSlot (dirBuf : Buffer) : Nat :=
  if (fatLongdirId dirBuf).testBit 6 then fatLongdirId dirBuf % 0x40 else fatLongdirId dirBuf

/-- An entry with a part of a long name. -/
def NameState.longEntry (names : NameState) (dirBuf : Buffer) : NameState :=
  let names := names.begin dirBuf
  if (longdirSlot dirBuf : Int) ≠ names.slot ∨ names.slot = 0 ∨
      names.aliasChecksum ≠ fatLongdirAliaschecksum dirBuf then
    { names with aliasChecksum := -1 }
  else
    { names with
      slot := names.slot - 1
      filename := store names.filename ((names.slot - 1).toNat * 13) (longdirChars dirBuf) }

/-- A long name has been assembled. -/
def NameState.Assembled (names : NameState) : Prop := names.aliasChecksum ≠ -1 ∧ names.slot = 0

instance (names : NameState) : Decidable names.Assembled := inferInstanceAs (Decidable (_ ∧ _))

/-- The long name is that of the entry. -/
def NameState.Bound (names : NameState) (dirBuf : Buffer) : Prop :=
  names.Assembled ∧ ((aliasSum dirBuf).toNat : Int) = names.aliasChecksum

instance (names : NameState) (dirBuf : Buffer) : Decidable (names.Bound dirBuf) :=
  inferInstanceAs (Decidable (_ ∧ _))

/-- A long name that has been assembled is used up. -/
def NameState.used (names : NameState) : NameState :=
  if names.Assembled then { names with slot := -2 } else names

/-- The short name takes the place of the long one. -/
def NameState.short (names : NameState) (dirBuf : Buffer) : NameState :=
  { names with filename := store names.filename 0 (shortName dirBuf) }

/-! ## The lookup -/

/-- Where the lookup is: at the label `loop`, or in a directory with a component, in lower
case, and the rest of the name. -/
inductive Place where
  | loop
  | scan (component rest : List UInt8)

/-- The variables of `fat_dir`, the globals, and the names printed as completions. -/
structure DirState where
  cursor : FatState
  filemax : Int
  dirname : List UInt8
  attrib : Nat
  names : NameState
  printPossibilities : Int
  doPossibilities : Bool
  completions : List (List UInt8)
  place : Place

/-- What is left behind and what is returned. -/
structure DirResult where
  state : DirState
  ret : Int

/-- MAXINT -/
def maxint : Int := 0x7FFFFFFF

/-- The call: the lookup starts at the root. -/
def dirStart (super : FatSuper) (cursor : FatState) (filemax : Int) (filename : Buffer)
    (printPossibilities : Int) (dirname : List UInt8) : DirState where
  cursor :=
    { cursor with fileCluster := super.rootCluster, filepos := 0, currentClusterNum := maxint }
  filemax
  dirname
  attrib := fatAttribDir
  names := { slot := -2, aliasChecksum := -1, filename }
  printPossibilities
  doPossibilities := false
  completions := []
  place := .loop

/-- `errnum` is set and 0 returned. -/
def refuse (state : DirState) (errnum : GrubError) : Step DirState DirResult :=
  .done { state := { state with cursor := { state.cursor with errnum } }, ret := 0 }

/-- At the label `loop`. -/
def loopStep (state : DirState) : Step DirState DirResult :=
  if state.dirname = [] ∨ isspace (first state.dirname) then
    if state.attrib &&& fatAttribDir ≠ 0 then refuse state .badFiletype
    else .done { state, ret := 1 }
  else if state.attrib &&& fatAttribDir = 0 then refuse state .badFiletype
  else
    let dirname := skipSlashes state.dirname
    let rest := dirname.dropWhile inComponent
    .next
      { state with
        dirname, filemax := maxint
        doPossibilities := state.doPossibilities ||
          (state.printPossibilities ≠ 0 && first rest ≠ charOf '/')
        place := .scan ((dirname.takeWhile inComponent).map tolower) rest }

/-- The directory ends. -/
def scanEnd (state : DirState) : Step DirState DirResult :=
  if state.cursor.errnum = .none then
    if state.printPossibilities < 0 then .done { state, ret := 1 }
    else refuse state .fileNotFound
  else .done { state, ret := 0 }

/-- `print_filename` -/
def printFilename (state : DirState) (component : List UInt8) : DirState :=
  if subcasestring component state.names.text ≤ 0 then
    { state with
      printPossibilities := -state.printPossibilities.natAbs
      completions := state.completions ++ [state.names.text] }
  else state

/-- The entry is the one looked for. -/
def entryFound (state : DirState) (dirBuf : Buffer) (rest : List UInt8) : DirState :=
  { state with
    dirname := rest
    attrib := fatDirentryAttrib dirBuf
    filemax := toInt32 (fatDirentryFilelength dirBuf)
    cursor :=
      { state.cursor with
        filepos := 0, fileCluster := fatDirentryFirstCluster dirBuf, currentClusterNum := maxint }
    place := .loop }

/-- An entry with a name of its own is tried under the name in `filename`, or under the short
one. -/
def shortTried (state : DirState) (dirBuf : Buffer) (component rest : List UInt8) : DirState :=
  let state := { state with names := state.names.short dirBuf }
  if state.doPossibilities then printFilename state component
  else if subcasestring component state.names.text = 0 then entryFound state dirBuf rest
  else state

def entryTried (state : DirState) (dirBuf : Buffer) (component rest : List UInt8) : DirState :=
  let used := { state with names := state.names.used }
  if state.names.Bound dirBuf then
    if state.doPossibilities then printFilename used component
    else if subcasestring component state.names.text = 0 then entryFound used dirBuf rest
    else shortTried used dirBuf component rest
  else shortTried used dirBuf component rest

/-- An entry that is not the end of the directory. -/
def entryRead (state : DirState) (dirBuf : Buffer) (component rest : List UInt8) : DirState :=
  if fatDirentryAttrib dirBuf = fatAttribLongname then
    { state with names := state.names.longEntry dirBuf }
  else if fatDirentryValid dirBuf then entryTried state dirBuf component rest
  else state

/-- Behind the read of an entry. -/
def scanRead (state : DirState) (read : FatReadDone) (component rest : List UInt8) :
    Step DirState DirResult :=
  let state := { state with cursor := read.state }
  if read.ret ≠ fatDirentryLength ∨ read.buf 0 = 0 then scanEnd state
  else .next (entryRead state read.buf component rest)

section

variable (media : PartitionMedia) (super : FatSuper)

/-- The next entry is read. -/
def nextEntry (state : DirState) : FatReadDone :=
  fatRead media super state.cursor (fun _ => 0) fatDirentryLength

/-- A step of `fat_dir`. -/
def dirStep (state : DirState) : Step DirState DirResult :=
  match state.place with
  | .loop => loopStep state
  | .scan component rest =>
    scanRead state (nextEntry media super state) component rest

end

end GrubLegacy.Fsys.Fat
