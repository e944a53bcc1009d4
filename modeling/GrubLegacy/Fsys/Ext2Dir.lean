import GrubLegacy.Base.Machines
import GrubLegacy.DiskIo.RawAccess
import GrubLegacy.Fsys.Ext2Read
import GrubLegacy.Fsys.Ext4Extents
import GrubLegacy.Fsys.PathNames

/-!
# Looking up an ext2 path

`ext2fs_dir` of `fsys_ext2fs.c` and the loop of `ext2fs_read` as machines. A step of the lookup
reads an inode, acts on one, reads a round of a symbolic link or passes one record of a
directory. What C leaves undefined, such as a division by zero, is a step that comes nowhere,
and so is a way down an extent tree that does not end. The buffers are kept apart; with a block
list still open, `grub_read` takes them for the list.
-/

namespace GrubLegacy.Fsys.Ext2

open Base CStrings Stage2 GrubLegacy.Partition BlockFiles DiskIo

/-! ## The superblock -/

section

variable (media : Ext2Media)

/-- SUPERBLOCK -/
def superblock : Buffer := fun i => media.content (1024 + i)

/-- `s_first_data_block` -/
def sFirstDataBlock : Nat := (superblock media).word32 20

/-- `s_log_block_size` -/
def sLogBlockSize : Nat := (superblock media).word32 24

/-- `s_inodes_per_group` -/
def sInodesPerGroup : Nat := (superblock media).word32 40

/-- `s_magic` -/
def sMagic : Nat := (superblock media).word16 56

/-- `s_inode_size` -/
def sInodeSize : Nat := (superblock media).word16 88

/-- `s_feature_incompat` -/
def sFeatureIncompat : Nat := (superblock media).word32 96

/-- `s_desc_size` -/
def sDescSize : Nat := (superblock media).word16 254

/-- EXT2_SUPER_MAGIC -/
def ext2SuperMagic : Nat := 0xEF53

/-- `ext2fs_mount` behind its checks of the type of the slice, where it returns 1. The
size of a block is that of the superblock; with larger blocks the buffers do not fit FSYS_BUF. -/
structure Mounted : Prop where
  room : 1024 / media.devBsize + 1024 / media.devBsize ≤ media.partLength
  read : ∃ bytes, media.devread (1024 / media.devBsize : Nat) (1024 % media.devBsize : Nat) 1024 =
    .ok bytes
  magic : sMagic media = ext2SuperMagic
  blockSize : media.blockBits = sLogBlockSize media + 10

/-- EXT4_HAS_INCOMPAT_FEATURE for EXT4_FEATURE_INCOMPAT_EXTENTS -/
def hasExtents : Bool := (sFeatureIncompat media).testBit 6

/-- EXT4_HAS_INCOMPAT_FEATURE for EXT4_FEATURE_INCOMPAT_64BIT -/
def has64Bit : Bool := (sFeatureIncompat media).testBit 7

/-- EXT2_DESC_SIZE -/
def descSize : Nat := if has64Bit media then sDescSize media else 32

/-- EXT2_DESC_PER_BLOCK -/
def descPerBlock : Nat := media.blockSize / descSize media

/-- EXT2_INODES_PER_BLOCK -/
def inodesPerBlock : Nat := media.blockSize / sInodeSize media

/-- Neither is there a division by zero nor a logarithm of zero. -/
def Divides : Prop :=
  sInodesPerGroup media ≠ 0 ∧ descPerBlock media ≠ 0 ∧ inodesPerBlock media ≠ 0

instance : Decidable (Divides media) := inferInstanceAs (Decidable (_ ∧ _))

end

/-- `log2` -/
def log2 (n : Nat) : Nat := lowestSetBit 32 n

/-! ## Inodes -/

/-- `i_mode` -/
def iMode (inode : Buffer) : Nat := inode.word16 0

/-- `i_size` -/
def iSize (inode : Buffer) : Nat := inode.word32 4

/-- `i_blocks` -/
def iBlocks (inode : Buffer) : Nat := inode.word32 28

/-- `i_flags` -/
def iFlags (inode : Buffer) : Nat := inode.word32 32

/-- `i_block`, as bytes -/
def iBlock (inode : Buffer) : Buffer := fun i => inode (40 + i)

/-- `i_file_acl` -/
def iFileAcl (inode : Buffer) : Nat := inode.word32 104

/-- `i_size_high` -/
def iSizeHigh (inode : Buffer) : Nat := inode.word32 108

/-- S_IFMT -/
def sIfmt (mode : Nat) : Nat := mode &&& 0o170000

/-- S_ISLNK -/
def sIslnk (mode : Nat) : Bool := sIfmt mode = 0o120000

/-- S_ISREG -/
def sIsreg (mode : Nat) : Bool := sIfmt mode = 0o100000

/-- S_ISDIR -/
def sIsdir (mode : Nat) : Bool := sIfmt mode = 0o040000

/-- `sizeof (struct ext2_inode)` -/
def sizeofInode : Nat := 156

/-! ## Blocks -/

section

variable (media : Ext2Media)

/-- `ext2_rdfsb` in a state, with the error it leaves. -/
def rdfsb (files : Ext2State) (fsblock : Int) : Ext2State × Option (List UInt8) :=
  let done := PartitionMedia.readDone files.errnum (media.ext2Rdfsb fsblock)
  ({ files with errnum := done.1 }, done.2)

/-- What `ext2_rdfsb` leaves in DATABLOCK1. -/
def fsBlocks (files : Ext2State) : FsBlocks where
  block fsblock := files.datablock1.fill ((media.ext2Rdfsb (toInt32 fsblock)).toOption.getD [])
  readable fsblock := (rdfsb media files (toInt32 fsblock)).2.isSome

/-- More levels than there are numbers of blocks. -/
def levelLimit : Nat := 2 ^ 32 + 1

/-- EXT4_EXTENTS_FL is set, and the file system knows of it. -/
def usesExtents (inode : Buffer) : Bool := hasExtents media && (iFlags inode).testBit 19

/-- The block map of `ext2fs_read` and `ext2fs_dir`. With extents `mapblock1` stays -1, so that
nothing depends on what is left in DATABLOCK1. -/
def blockMap (files : Ext2State) (inode : Buffer) (logicalBlock : Nat) :
    Option (Ext2State × Int) :=
  if usesExtents media inode then
    match ext4fsBlockMap (fsBlocks media files) levelLimit (iBlock inode) logicalBlock with
    | none => none
    | some (.error errnum) => some ({ files with errnum }, -1)
    | some (.ok map) => some (files, map)
  else some (ext2fsBlockMap media files logicalBlock)

end

/-! ## Reading -/

/-- The loop of `ext2fs_read`: the bytes read and those left to be read. -/
structure ReadState where
  files : Ext2State
  buf : Buffer
  ret : Nat
  len : Nat

/-- Behind the loop of `ext2fs_read`. -/
def readEnd (read : ReadState) : ReadState :=
  { read with ret := if read.files.errnum = .none then read.ret else 0 }

section

variable (media : Ext2Media) (inode : Buffer)

/-- A round behind the block map. -/
def readMapped (read : ReadState) (map : Int) : Step ReadState ReadState :=
  if map < 0 then .done (readEnd read)
  else
    let offset := read.files.filepos &&& (media.blockSize - 1)
    let size := min (media.blockSize - offset) read.len
    let part := readPart media read.files map offset size read.buf read.ret
    .next
      { files := { part.1 with filepos := part.1.filepos + size }
        buf := part.2, ret := read.ret + size, len := read.len - size }

/-- A round of `ext2fs_read`. -/
def readStep (read : ReadState) : Step ReadState ReadState :=
  if read.len = 0 then .done (readEnd read)
  else
    match blockMap media read.files inode (read.files.filepos >>> media.blockBits) with
    | none => .next read
    | some (files, map) => readMapped media { read with files } map

end

/-! ## The lookup -/

/-- Where the lookup is: before `current_ino` is looked up, behind that, in the loop of
`ext2fs_read` for a symbolic link, or at a place of a directory in the search for the first
component of the name. -/
inductive Place where
  | lookup
  | opened
  | reading (read : ReadState)
  | record (loc : Nat) (component rest : List UInt8)

/-- The variables of `ext2fs_dir`, the buffers, what `grub_read` asks for, and the names printed
as completions. `dir` does not reset `block_file`, and `fsmax` only `grub_open` sets. -/
structure DirState where
  files : Ext2State
  blockFile : Bool
  fsmax : Int
  groupDesc : Buffer
  inode : Buffer
  linkbuf : Buffer
  filemax : Int
  currentIno : Int
  updirIno : Int
  dirname : List UInt8
  linkCount : Nat
  printPossibilities : Int
  completions : List (List UInt8)
  place : Place

/-- What is left behind and what is returned. -/
structure DirResult where
  state : DirState
  ret : Int

/-- EXT2_ROOT_INO -/
def ext2RootIno : Int := 2

/-- MAX_LINK_COUNT -/
def maxLinkCount : Nat := 5

/-- PATH_MAX -/
def pathMax : Nat := 1024

/-- The call: the lookup starts at the root. -/
def dirStart (files : Ext2State) (blockFile : Bool) (fsmax : Int)
    (groupDesc inode linkbuf : Buffer) (filemax : Int) (printPossibilities : Int)
    (dirname : List UInt8) : DirState :=
  { files, blockFile, fsmax, groupDesc, inode, linkbuf, filemax, currentIno := ext2RootIno
    updirIno := ext2RootIno, dirname, linkCount := 0, printPossibilities, completions := [], place := .lookup }

/-- `errnum` is set and 0 returned. -/
def refuse (state : DirState) (errnum : GrubError) : Step DirState DirResult :=
  .done { state := { state with files := { state.files with errnum } }, ret := 0 }

/-- What the loop of `grub_read` for block lists makes of a read of a symbolic link, if it comes
back. The list it goes through lies in FSYS_BUF, where the superblock is now, and may lead
anywhere. -/
abbrev ListedRead := DirState → ReadState → Option ReadState

section

variable (media : Ext2Media) (listed : ListedRead)

/-- `group_id` -/
def groupId (ino : Int) : Int := toInt32 (toUInt32 (ino - 1) / sInodesPerGroup media : Nat)

/-- The block with the group descriptor. -/
def groupDescBlock (ino : Int) : Int :=
  toInt32 (1 + groupId media ino / 2 ^ log2 (descPerBlock media) + sFirstDataBlock media)

/-- Where `ext4_gdp` points to in GROUP_DESC. -/
def groupDescOffset (ino : Int) : Nat :=
  (toUInt32 (groupId media ino) &&& (descPerBlock media - 1)) * descSize media

/-- `ino_blk` -/
def inoBlk (groupDesc : Buffer) (ino : Int) : Int :=
  toInt32 (groupDesc.word32 (groupDescOffset media ino + 8) +
    (toUInt32 (ino - 1) % sInodesPerGroup media) / 2 ^ log2 (inodesPerBlock media) : Nat)

/-- The inode is moved to the start of INODE from where `raw_inode` points to. -/
def moveInode (block : Buffer) (ino : Int) : Buffer := fun i =>
  if i < sizeofInode then
    block ((toUInt32 (ino - 1) &&& (inodesPerBlock media - 1)) * sInodeSize media + i)
  else block i

/-- Behind the read of the block with the inode. -/
def inodeRead (state : DirState) :
    Ext2State × Option (List UInt8) → Step DirState DirResult
  | (files, none) => .done { state := { state with files }, ret := 0 }
  | (files, some bytes) =>
    let inode := moveInode media (state.inode.fill bytes) state.currentIno
    .next
      { state with
        files :=
          { files with
            iBlock := fun i => (iBlock inode).word32 (4 * i), mapblock1 := -1, mapblock2 := -1 }
        inode, place := .opened }

/-- Behind the read of the block with the group descriptor. -/
def groupDescRead (state : DirState) :
    Ext2State × Option (List UInt8) → Step DirState DirResult
  | (files, none) => .done { state := { state with files }, ret := 0 }
  | (files, some bytes) =>
    let groupDesc := state.groupDesc.fill bytes
    let state := { state with files, groupDesc }
    if has64Bit media ∧ groupDesc.word32 (groupDescOffset media state.currentIno + 40) = 0 then
      .done { state := { state with files := { files with errnum := .filelength } }, ret := -1 }
    else
      inodeRead media state (rdfsb media files (inoBlk media groupDesc state.currentIno))

/-- The inode `current_ino` is looked up. -/
def lookupStep (state : DirState) : Step DirState DirResult :=
  if Divides media then
    groupDescRead media state (rdfsb media state.files (groupDescBlock media state.currentIno))
  else .next state

/-- `ext2_is_fast_symlink` -/
def ext2IsFastSymlink (inode : Buffer) : Bool :=
  iBlocks inode = if iFileAcl inode = 0 then 0 else media.blockSize / media.devBsize

/-- Behind the text of a symbolic link: its name is tried. -/
def tryLink (state : DirState) : Step DirState DirResult :=
  let dirname := readString ((List.range pathMax).map state.linkbuf)
  let ino := if first dirname = charOf '/' then ext2RootIno else state.updirIno
  .next { state with dirname, currentIno := ino, updirIno := ino, place := .lookup }

/-- The characters of a name up to its end. -/
def untilSpace (dirname : List UInt8) : List UInt8 := dirname.takeWhile fun c => !isspace c

/-- Behind the read of a symbolic link. -/
def linkDone (state : DirState) (read : ReadState) : Step DirState DirResult :=
  let state := { state with files := { read.files with filepos := 0 }, linkbuf := read.buf }
  if read.ret = 0 then .done { state, ret := 0 } else tryLink state

/-- `grub_read` for a symbolic link, up to the loop of `ext2fs_read`. -/
def linkRead (state : DirState) (linkbuf : Buffer) (filemax : Nat) : Step DirState DirResult :=
  let filepos := min state.files.filepos filemax
  let read : ReadState :=
    { files := { state.files with filepos }, buf := linkbuf, ret := 0, len := filemax - filepos }
  if state.fsmax < (filepos + read.len : Nat) then
    linkDone state { read with files := { read.files with errnum := .filelength } }
  else if state.blockFile then
    match listed state read with
    | none => .next state
    | some read => linkDone state read
  else .next { state with linkbuf, place := .reading read }

/-- The text of the link gets to `linkbuf`, in front of the rest of the name. -/
def readLink (state : DirState) (filemax : Nat) : Step DirState DirResult :=
  let linkbuf := store state.linkbuf filemax (untilSpace state.dirname ++ [0])
  if ext2IsFastSymlink media state.inode then
    tryLink
      { state with
        linkbuf := store linkbuf 0 ((List.range filemax).map (iBlock state.inode)) }
  else linkRead listed state linkbuf filemax

/-- A symbolic link. A negative size that the rest of the name makes up for would have bytes
stored in front of `linkbuf`. -/
def linkStep (state : DirState) : Step DirState DirResult :=
  let filemax := toInt32 (iSize state.inode)
  let linkCount := state.linkCount + 1
  if maxLinkCount < linkCount then refuse { state with linkCount } .symlinkLoop
  else if pathMax - 2 < toUInt32 (filemax + (untilSpace state.dirname).length) then
    refuse { state with linkCount, filemax } .filelength
  else if filemax < 0 then .next state
  else readLink media listed { state with linkCount, filemax } filemax.toNat

/-- A round of the read of a symbolic link. -/
def linkRound (state : DirState) : Step ReadState ReadState → Step DirState DirResult
  | .next read => .next { state with place := .reading read }
  | .done read => linkDone state read

/-- The end of the name: INODE is the one looked for. -/
def endStep (state : DirState) : Step DirState DirResult :=
  if !sIsreg (iMode state.inode) then refuse state .badFiletype
  else if (iFlags state.inode).testBit 18 ∧ iSizeHigh state.inode = 0 then
    refuse state .filelength
  else .done { state := { state with filemax := toInt32 (iSize state.inode) }, ret := 1 }

/-- A directory has to be searched for the next component. -/
def directoryStep (state : DirState) : Step DirState DirResult :=
  let dirname := skipSlashes state.dirname
  let state := { state with updirIno := state.currentIno, dirname }
  if iSize state.inode = 0 ∨ sIsdir (iMode state.inode) = false then refuse state .badFiletype
  else
    .next
      { state with
        place := .record 0 (dirname.takeWhile inComponent) (dirname.dropWhile inComponent) }

/-- The inode has been read. -/
def openedStep (state : DirState) : Step DirState DirResult :=
  if sIslnk (iMode state.inode) then linkStep media listed state
  else if state.dirname = [] ∨ isspace (first state.dirname) then endStep state
  else directoryStep state

/-! ## Records -/

/-- `inode` of the record at an offset of DATABLOCK2 -/
def recInode (datablock2 : Buffer) (off : Nat) : Nat := datablock2.word32 off

/-- `rec_len` -/
def recLen (datablock2 : Buffer) (off : Nat) : Nat := datablock2.word16 (off + 4)

/-- `name`, cut at `name_len` -/
def recName (datablock2 : Buffer) (off : Nat) : List UInt8 :=
  readString ((List.range (datablock2 (off + 6)).toNat).map fun i => datablock2 (off + 8 + i))

/-- `ch`, the character behind the component. -/
def charBehind (rest : List UInt8) : UInt8 := first rest

/-- The search goes on behind the record. -/
def PassedOver (state : DirState) (off : Nat) (component rest : List UInt8) : Prop :=
  recInode state.files.datablock2 off = 0 ∨
    substring component (recName state.files.datablock2 off) ≠ 0 ∨
      (state.printPossibilities ≠ 0 ∧ charBehind rest ≠ charOf '/')

instance (state : DirState) (off : Nat) (component rest : List UInt8) :
    Decidable (PassedOver state off component rest) := inferInstanceAs (Decidable (_ ∨ _ ∨ _))

/-- A completion is printed. -/
def complete (state : DirState) (off : Nat) (component rest : List UInt8) : DirState :=
  let name := recName state.files.datablock2 off
  if recInode state.files.datablock2 off ≠ 0 ∧ state.printPossibilities ≠ 0 ∧
      charBehind rest ≠ charOf '/' ∧ (component = [] ∨ substring component name ≤ 0) then
    { state with
      printPossibilities := -state.printPossibilities.natAbs
      completions := state.completions ++ [name] }
  else state

/-- A record that has been read. `loc` is an `int` that is compared as an `unsigned`. -/
def recordRead (state : DirState) (loc : Nat) (component rest : List UInt8) :
    Step DirState DirResult :=
  let off := loc &&& (media.blockSize - 1)
  let state := complete state off component rest
  if PassedOver state off component rest then
    .next { state with
      place := .record ((loc + recLen state.files.datablock2 off) % 2 ^ 32) component rest }
  else
    .next { state with
      currentIno := toInt32 (recInode state.files.datablock2 off), dirname := rest
      place := .lookup }

/-- The block that has a place of the directory gets to DATABLOCK2, if it can be read. -/
def blockRead (files : Ext2State) (map : Int) : Option Ext2State :=
  match rdfsb media files map with
  | (_, none) => none
  | (files, some bytes) => some { files with datablock2 := files.datablock2.fill bytes }

/-- A record behind the block map. -/
def recordMapped (state : DirState) (map : Int) (loc : Nat) (component rest : List UInt8) :
    Step DirState DirResult :=
  if map < 0 then .done { state, ret := 0 }
  else
    match blockRead media state.files map with
    | none => refuse state .fsysCorrupt
    | some files => recordRead media { state with files } loc component rest

/-- The directory ends here. -/
def recordsEnd (state : DirState) : Step DirState DirResult :=
  if state.printPossibilities < 0 then .done { state, ret := 1 } else refuse state .fileNotFound

/-- One record of a directory. A negative `loc` gives a block in front of the first. -/
def recordStep (state : DirState) (loc : Nat) (component rest : List UInt8) :
    Step DirState DirResult :=
  if iSize state.inode ≤ loc then recordsEnd state
  else if 2 ^ 31 ≤ loc then .next state
  else
    match blockMap media state.files state.inode (loc >>> media.blockBits) with
    | none => .next state
    | some (files, map) =>
      recordMapped media { state with files := { files with mapblock2 := -1 } } map loc component
        rest

/-- A step of `ext2fs_dir`. -/
def dirStep (state : DirState) : Step DirState DirResult :=
  match state.place with
  | .lookup => lookupStep media state
  | .opened => openedStep media listed state
  | .reading read => linkRound state (readStep media state.inode read)
  | .record loc component rest => recordStep media state loc component rest

end

end GrubLegacy.Fsys.Ext2
