import GrubLegacy.DiskIo.PartitionMedia
import GrubLegacy.DiskIo.RawAccess
import GrubLegacy.Fsys.ExtentTurns

/-!
# Reading a FAT file

`fat_mount` and `fat_read` of `fsys_fat.c`: the numbers taken from the boot sector, the window
of the FAT that is kept, and the cursor in the chain of clusters of a file.
-/

namespace GrubLegacy.Fsys.Fat

open Base Stage2 DiskIo
open GrubLegacy.Partition (Buffer)

/-! ## Mounting -/

/-- What `fat_mount` puts into `struct fat_superblock`. -/
structure FatSuper where
  fatOffset : Int
  fatLength : Int
  fatSize : Int
  rootOffset : Int
  rootMax : Int
  dataOffset : Int
  numSectors : Int
  numClust : Int
  clustEofMarker : Int
  sectsPerClust : Int
  sectsizeBits : Nat
  clustsizeBits : Nat
  rootCluster : Int
deriving DecidableEq, Repr

/-- FAT_CACHE_SIZE -/
def fatCacheSize : Int := 4096

/-- FAT_DIRENTRY_LENGTH -/
def fatDirentryLength : Int := 32

/-- FAT_MAX_12BIT_CLUST -/
def fatMax12BitClust : Int := 4087

/-- `sizeof (struct fat_bpb)` -/
def sizeofBpb : Int := 64

section

variable (bpb : Buffer)

/-- `bytes_per_sect` -/
def bytesPerSect : Nat := bpb.word16 11

/-- `sects_per_clust` -/
def bpbSectsPerClust : Nat := bpb.byte 13

/-- `reserved_sects` -/
def reservedSects : Nat := bpb.word16 14

/-- `num_fats` -/
def numFats : Nat := bpb.byte 16

/-- `dir_entries` -/
def dirEntries : Nat := bpb.word16 17

/-- `short_sectors` -/
def shortSectors : Nat := bpb.word16 19

/-- `media` -/
def bpbMedia : Nat := bpb.byte 21

/-- `fat_length` -/
def bpbFatLength : Nat := bpb.word16 22

/-- `long_sectors` -/
def longSectors : Nat := bpb.word32 32

/-- `fat32_length` -/
def fat32Length : Nat := bpb.word32 36

/-- `flags` -/
def bpbFlags : Nat := bpb.word16 40

/-- `root_cluster` -/
def bpbRootCluster : Nat := bpb.word32 44

/-- `sectsize_bits` -/
def sectsizeBitsOf : Nat := lowestSetBit 32 (bytesPerSect bpb)

/-- `clustsize_bits` -/
def clustsizeBitsOf : Nat := sectsizeBitsOf bpb + lowestSetBit 32 (bpbSectsPerClust bpb)

/-- `num_sectors` -/
def numSectorsOf : Int :=
  toInt32 (if shortSectors bpb = 0 then longSectors bpb else shortSectors bpb : Nat)

/-- `fat_length` of the superblock -/
def fatLengthOf : Int :=
  toInt32 (if bpbFatLength bpb = 0 then fat32Length bpb else bpbFatLength bpb : Nat)

/-- `root_offset` -/
def rootOffsetOf : Int := toInt32 (reservedSects bpb + numFats bpb * fatLengthOf bpb)

/-- `root_max` -/
def rootMaxOf : Int := fatDirentryLength * dirEntries bpb

/-- `data_offset` -/
def dataOffsetOf : Int :=
  toInt32 (rootOffsetOf bpb + (rootMaxOf bpb - 1) / 2 ^ sectsizeBitsOf bpb + 1)

/-- `num_clust` -/
def numClustOf : Int :=
  toInt32 (2 + (toInt32 (numSectorsOf bpb - dataOffsetOf bpb)).tdiv (bpbSectsPerClust bpb))

/-- FAT mirroring is disabled. -/
def mirroringDisabled : Bool := (bpbFlags bpb).testBit 7

/-- `active_fat` -/
def activeFat : Nat := bpbFlags bpb % 16

/-- A file system with 32-bit entries. -/
def isFat32 : Bool := bpbFatLength bpb = 0

/-- The superblock of a boot sector. -/
def fatSuperOf : FatSuper where
  fatOffset :=
    if isFat32 bpb ∧ mirroringDisabled bpb then
      toInt32 (reservedSects bpb + activeFat bpb * fatLengthOf bpb)
    else reservedSects bpb
  fatLength := fatLengthOf bpb
  fatSize := if isFat32 bpb then 8 else if fatMax12BitClust < numClustOf bpb then 4 else 3
  rootOffset := rootOffsetOf bpb
  rootMax := rootMaxOf bpb
  dataOffset := dataOffsetOf bpb
  numSectors := numSectorsOf bpb
  numClust := numClustOf bpb
  clustEofMarker :=
    if isFat32 bpb then 0xffffff8
    else if fatMax12BitClust < numClustOf bpb then 0xfff8 else 0xff8
  sectsPerClust := bpbSectsPerClust bpb
  sectsizeBits := sectsizeBitsOf bpb
  clustsizeBits := clustsizeBitsOf bpb
  rootCluster := if isFat32 bpb then toInt32 (bpbRootCluster bpb) else -1

/-- The kinds of file systems that are told apart are complete. -/
def kindAllowed : Bool :=
  if isFat32 bpb then
    dirEntries bpb = 0 && (!mirroringDisabled bpb || activeFat bpb < numFats bpb)
  else rootMaxOf bpb ≠ 0

/-- The sanity checks, and `sects_per_clust` is not zero. -/
def bpbSane (sectorSize : Nat) : Bool :=
  let super := fatSuperOf bpb
  bpbSectsPerClust bpb ≠ 0 && bytesPerSect bpb = 2 ^ super.sectsizeBits &&
    bytesPerSect bpb = sectorSize &&
    bpbSectsPerClust bpb = 2 ^ (super.clustsizeBits - super.sectsizeBits) &&
    2 < super.numClust &&
    (toInt32 (super.fatSize * super.numClust)).tdiv (2 * sectorSize) ≤ super.fatLength

/-- The media check on the first entry of the FAT. -/
def mediaMatches (firstFat : Nat) : Bool :=
  let super := fatSuperOf bpb
  if super.fatSize = 8 then
    (firstFat &&& 0x0fffffff) ||| 8 = 0x0fffff00 ||| bpbMedia bpb ||| 8
  else if super.fatSize = 4 then (firstFat &&& 0xffff) ||| 8 = 0xff00 ||| bpbMedia bpb ||| 8
  else (firstFat &&& 0xfff) ||| 8 = 0x0f00 ||| bpbMedia bpb ||| 8

end

/-- The bytes that a read of the partition gives. -/
def bytesOf {failure : Type} (read : Except failure (List UInt8)) : Option Buffer :=
  read.toOption.map fun bytes => Area.fill (fun _ => 0) bytes

/-- `fat_mount` behind its checks of the type of the slice accepts the partition with this
superblock. -/
structure Mounts (media : PartitionMedia) (super : FatSuper) : Prop where
  accepts : ∃ bpb firstFat, bytesOf (media.devread 0 0 sizeofBpb) = some bpb ∧
    super = fatSuperOf bpb ∧ kindAllowed bpb = true ∧ bpbSane bpb media.sectorSize = true ∧
    bytesOf (media.devread super.fatOffset 0 4) = some firstFat ∧
    mediaMatches bpb (firstFat.word32 0) = true

/-! ## The chain of clusters -/

/-- The variables of `struct fat_superblock` that reads change, FAT_BUF, and the globals. -/
structure FatState where
  cachedFat : Int
  fileCluster : Int
  currentClusterNum : Int
  currentCluster : Int
  fatBuf : Buffer
  filepos : Int
  errnum : GrubError

/-- How a link is followed: on to a cluster, to the end of the chain, or to a failure. -/
inductive LinkEnd where
  | onward
  | ended
  | failed
deriving DecidableEq, Repr

section

variable (media : PartitionMedia) (super : FatSuper)

/-- `devread` in a state: `errnum`, and the bytes. -/
def fatDevread (errnum : GrubError) (sector byteOffset byteLen : Int) :
    GrubError × Option (List UInt8) :=
  PartitionMedia.readDone errnum (media.devread sector byteOffset byteLen)

/-- Behind the read of a window of the FAT, with whether it succeeded. -/
def windowRead (state : FatState) (read : GrubError × Option (List UInt8)) : FatState × Bool :=
  ({ state with errnum := read.1, fatBuf := state.fatBuf.fill (read.2.getD []) }, read.2.isSome)

/-- The start of the window with an entry, in half bytes. -/
def windowStart (fatEntry : Int) : Int := fatEntry - fatEntry % (2 * media.sectorSize)

/-- The window of the FAT is moved to an entry that is not in it. -/
def loadWindow (state : FatState) (fatEntry : Int) : FatState × Bool :=
  let cachedPos := toInt32 (fatEntry - state.cachedFat)
  if cachedPos < 0 ∨ 2 * fatCacheSize < toInt32 (cachedPos + super.fatSize) then
    let cachedFat := windowStart media fatEntry
    windowRead { state with cachedFat }
      (fatDevread media state.errnum
        (toInt32 (super.fatOffset + cachedFat / (2 * media.sectorSize))) 0 fatCacheSize)
  else (state, true)

/-- `next_cluster` -/
def nextCluster (state : FatState) (fatEntry : Int) : Int :=
  let cachedPos := (toInt32 (fatEntry - state.cachedFat)).toNat
  let word := state.fatBuf.word32 (cachedPos / 2)
  if super.fatSize = 3 then ((if cachedPos % 2 = 1 then word / 16 else word) % 0x1000 : Nat)
  else if super.fatSize = 4 then (word % 0x10000 : Nat)
  else toInt32 word

/-- Behind the lookup of the next cluster. -/
def linkFound (state : FatState) (next : Int) : FatState × LinkEnd :=
  if super.clustEofMarker ≤ next then (state, .ended)
  else if next < 2 ∨ super.numClust ≤ next then ({ state with errnum := .fsysCorrupt }, .failed)
  else
    ({ state with currentCluster := next, currentClusterNum := state.currentClusterNum + 1 },
      .onward)

/-- One link of the chain. -/
def followLink (state : FatState) : FatState × LinkEnd :=
  let fatEntry := toInt32 (state.currentCluster * super.fatSize)
  let window := loadWindow media super state fatEntry
  if window.2 then linkFound super window.1 (nextCluster super window.1 fatEntry)
  else (window.1, .failed)

/-- So many links of the chain. -/
def followLinks : Nat → FatState → FatState × LinkEnd
  | 0, state => (state, .onward)
  | links + 1, state =>
    let link := followLink media super state
    if link.2 = .onward then followLinks links link.1 else link

/-! ## Reading -/

/-- What `fat_read` leaves behind and returns. -/
structure FatReadDone where
  state : FatState
  buf : Buffer
  ret : Int

/-- The first sector of the current cluster. -/
def clusterSector (cluster : Int) : Int :=
  toInt32 (super.dataOffset + (cluster - 2) * 2 ^ (super.clustsizeBits - super.sectsizeBits))

/-- Behind a read of a part of a cluster, of which errors are found at the end only. -/
def partRead (state : FatState) (size : Int) (read : GrubError × Option (List UInt8)) :
    FatState :=
  { state with errnum := read.1, filepos := toInt32 (state.filepos + size) }

/-- The loop of `fat_read`. Each round reads a byte at least. -/
def readLoop : (rounds : Nat) → FatState → Buffer → (ret : Nat) → (len logicalClust : Int) →
    (offset : Nat) → FatReadDone
  | 0, state, buf, ret, _, _, _ => { state, buf, ret := if state.errnum = .none then ret else 0 }
  | rounds + 1, state, buf, ret, len, logicalClust, offset =>
    if len ≤ 0 then { state, buf, ret := if state.errnum = .none then ret else 0 }
    else
      let found := followLinks media super (logicalClust - state.currentClusterNum).toNat state
      if found.2 = .onward then
        let size := min (2 ^ super.clustsizeBits - offset) len.toNat
        let read := fatDevread media found.1.errnum
          (clusterSector super found.1.currentCluster) offset size
        readLoop rounds (partRead found.1 size read) (store buf ret (read.2.getD [])) (ret + size)
          (len - size) (logicalClust + 1) 0
      else { state := found.1, buf, ret := if found.2 = .ended then ret else 0 }

/-- Behind the read of the root directory of FAT12 and FAT16. -/
def rootRead (state : FatState) (buf : Buffer) (size : Int)
    (read : GrubError × Option (List UInt8)) : FatReadDone :=
  { state :=
      { state with
        errnum := read.1
        filepos := if read.2.isSome then toInt32 (state.filepos + size) else state.filepos }
    buf := store buf 0 (read.2.getD []), ret := if read.2.isSome then size else 0 }

/-- The cursor is reset when it is behind the cluster that is asked for. -/
def rewind (state : FatState) (logicalClust : Int) : FatState :=
  if logicalClust < state.currentClusterNum then
    { state with currentClusterNum := 0, currentCluster := state.fileCluster }
  else state

/-- `fat_read` -/
def fatRead (state : FatState) (buf : Buffer) (len : Int) : FatReadDone :=
  if state.fileCluster < 0 then
    let size := min (super.rootMax - state.filepos) len
    rootRead state buf size (fatDevread media state.errnum super.rootOffset state.filepos size)
  else
    let logicalClust := state.filepos / 2 ^ super.clustsizeBits
    readLoop media super len.toNat (rewind state logicalClust) buf 0 len logicalClust
      (state.filepos % 2 ^ super.clustsizeBits).toNat

end

/-- The loop is through when nothing is left. -/
theorem readLoop_done {media : PartitionMedia} {super : FatSuper} {len : Int} (nothing : len ≤ 0)
    (rounds : Nat) (state : FatState) (buf : Buffer) (ret : Nat) (logicalClust : Int)
    (offset : Nat) :
    readLoop media super rounds state buf ret len logicalClust offset =
      { state, buf, ret := if state.errnum = .none then ret else 0 } := by
  cases rounds with
  | zero => rfl
  | succ rounds => exact if_pos nothing

/-- A window that could be read. -/
theorem windowRead_some (state : FatState) (errnum : GrubError) (bytes : List UInt8) :
    windowRead state (errnum, some bytes) =
      ({ state with errnum, fatBuf := state.fatBuf.fill bytes }, true) := rfl

end GrubLegacy.Fsys.Fat
