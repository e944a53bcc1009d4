import GrubLegacy.DiskIo.PartitionMedia
import GrubLegacy.Fsys.ExtentTurns

/-!
# The files of the fast file systems

`block_map`, the loop of the read and the read of a directory block, which `fsys_ffs.c` and
`fsys_ufs2.c` have in common. The superblock, the inode, the window of the indirect block that is
kept and the blocks of directories share FSYS_BUF.
-/

namespace GrubLegacy.Fsys.Ufs

open Base Stage2 DiskIo
open GrubLegacy.Partition (Buffer)

/-! ## The buffer -/

/-- The fields of the superblock that the reads use. -/
structure FsSuper where
  fsBsize : Int
  fsBshift : Int
  fsQbmask : Int
  fsQfmask : Int
  fsFmask : Int
  fsFsbtodb : Int
  fsNindir : Int
deriving DecidableEq, Repr

/-- What the two formats differ in: the size of a pointer, the pointer at a byte, the bits of the
numbers without a sign that sizes are, the superblock, the size of a file and of an inode, and
where the direct and the indirect pointers of an inode are. -/
structure FsFormat where
  pointerSize : Nat
  pointerAt : Buffer → Nat → Int
  sizeBits : Nat
  superOf : Buffer → FsSuper
  inodeSize : Nat
  diSize : Buffer → Nat
  diDb : Nat
  diIb : Nat

/-- NDADDR -/
def ndaddr : Nat := 12

/-- MAPBUF_LEN -/
def mapbufLen : Nat := 8192

/-- Where SUPERBLOCK, INODE and MAPBUF are in FSYS_BUF. -/
def superblockAt : Nat := 8192

def inodeAt : Nat := 16384

def mapbufAt : Nat := 24576

/-- FSYS_BUF, the variables of the driver, and the globals. -/
structure FsState where
  fsysBuf : Buffer
  mapblock : Int
  mapblockOffset : Int
  mapblockBsize : Int
  filepos : Int
  errnum : GrubError

/-- The part of a buffer that belongs to a structure. -/
def view (buf : Buffer) (start : Nat) : Buffer := fun i => if i < 8192 then buf (start + i) else 0

/-- SUPERBLOCK -/
def FsState.superblock (state : FsState) : Buffer := view state.fsysBuf superblockAt

/-- INODE -/
def FsState.inode (state : FsState) : Buffer := view state.fsysBuf inodeAt

/-! ## Numbers -/

/-- A number of a format without its sign. -/
def FsFormat.unsigned (format : FsFormat) (value : Int) : Nat :=
  (value % 2 ^ format.sizeBits).toNat

section

variable (format : FsFormat) (super : FsSuper)

/-- `fsbtodb`, as an `int`. -/
def fsbtodb (b : Int) : Int := toInt32 (b * 2 ^ super.fsFsbtodb.toNat)

/-- `blkoff` -/
def blkoff (loc : Int) : Int := (format.unsigned loc &&& format.unsigned super.fsQbmask : Nat)

/-- `lblkno` -/
def lblkno (loc : Int) : Int := loc / 2 ^ super.fsBshift.toNat

/-- `fragroundup` -/
def fragroundup (size : Int) : Int :=
  (format.unsigned (size + super.fsQfmask) &&& format.unsigned super.fsFmask : Nat)

/-- `smalllblktosize` -/
def smalllblktosize (blk : Int) : Int := toInt32 (blk * 2 ^ super.fsBshift.toNat)

/-- `blksize`; the sizes are compared as numbers without a sign. -/
def blksize (diSize : Nat) (lbn : Int) : Int :=
  if (ndaddr : Int) ≤ lbn ∨ format.unsigned (smalllblktosize super (lbn + 1)) ≤ diSize then
    super.fsBsize
  else fragroundup format super (blkoff format super diSize)

end

/-! ## The map -/

/-- `offset` and `bsize` of a window that is loaded for an index. -/
def windowFor (super : FsSuper) (index : Int) : Int × Int :=
  if (mapbufLen : Int) < super.fsBsize then
    (if super.fsBsize < index + mapbufLen then (super.fsBsize - mapbufLen) / 4 else index, mapbufLen)
  else (0, super.fsBsize)

/-- Behind the read of a window. -/
def windowRead (state : FsState) (bnum : Int) (window : Int × Int) :
    GrubError × Option (List UInt8) → FsState × Bool
  | (_, none) =>
    ({ state with mapblock := -1, mapblockBsize := -1, mapblockOffset := -1, errnum := .fsysCorrupt },
      false)
  | (errnum, some bytes) =>
    ({ state with
        fsysBuf := store state.fsysBuf mapbufAt bytes, mapblock := bnum
        mapblockBsize := window.2, mapblockOffset := window.1, errnum }, true)

section

variable (media : PartitionMedia) (format : FsFormat)

/-- The index of a block in the indirect block. -/
def mapIndex (super : FsSuper) (fileBlock : Int) : Int := (fileBlock - ndaddr).tmod super.fsNindir

/-- The sector of the indirect block. -/
def mapSector (state : FsState) : Int :=
  fsbtodb (format.superOf state.superblock) (format.pointerAt state.inode format.diIb)

/-- The window is loaded again. -/
def Reloads (state : FsState) (bnum : Int) : Prop :=
  bnum ≠ state.mapblock ∨
    (state.mapblockOffset ≤ bnum ∧ bnum ≤ state.mapblockOffset + state.mapblockBsize)

instance (state : FsState) (bnum : Int) : Decidable (Reloads state bnum) :=
  inferInstanceAs (Decidable (_ ∨ _))

/-- The window for an index is there, or it is read. -/
def loadWindow (state : FsState) (index : Int) : FsState × Bool :=
  let bnum := mapSector format state
  if Reloads state bnum then
    let window := windowFor (format.superOf state.superblock) index
    windowRead state bnum window
      (PartitionMedia.readDone state.errnum (media.devread bnum (window.1 * 4) window.2))
  else (state, true)

/-- The pointer at an index, as the window has it. -/
def mapPointer (state : FsState) (index : Int) : Int :=
  format.pointerAt state.fsysBuf
    (mapbufAt + (index - state.mapblockOffset) * format.pointerSize).toNat

/-- `block_map` -/
def blockMap (state : FsState) (fileBlock : Int) : FsState × Int :=
  if fileBlock < ndaddr then
    (state, format.pointerAt state.inode (format.diDb + fileBlock * format.pointerSize).toNat)
  else
    let index := mapIndex (format.superOf state.superblock) fileBlock
    let window := loadWindow media format state index
    if window.2 then (window.1, mapPointer format window.1 index) else (window.1, -1)

/-! ## Reading -/

/-- What a read leaves behind and returns. -/
structure ReadDone where
  state : FsState
  buf : Buffer
  ret : Int

/-- Behind the loop of a read. -/
def readEnd (state : FsState) (buf : Buffer) (ret : Int) : ReadDone :=
  { state, buf, ret := if state.errnum = .none then ret else 0 }

/-- Behind the read of a part of a block. -/
def partRead (state : FsState) (size : Int) (errnum : GrubError) : FsState :=
  { state with errnum, filepos := toInt32 (state.filepos + size) }

/-- The loop of the read, for so many rounds at most. -/
def readLoop : (rounds : Nat) → FsState → Buffer → (ret len : Int) → ReadDone
  | 0, state, buf, ret, _ => readEnd state buf ret
  | rounds + 1, state, buf, ret, len =>
    if len = 0 ∨ state.errnum ≠ .none then readEnd state buf ret
    else
      let super := format.superOf state.superblock
      let off := toInt32 (blkoff format super state.filepos)
      let logno := lblkno super state.filepos
      let mapped := blockMap media format state logno
      if mapped.2 < 0 then readEnd mapped.1 buf ret
      else
        let size := min (toInt32 (blksize format super (format.diSize state.inode) logno) - off) len
        let read := PartitionMedia.readDone mapped.1.errnum
          (media.devread (fsbtodb super mapped.2) off size)
        readLoop rounds (partRead mapped.1 size read.1) (store buf ret.toNat (read.2.getD []))
          (ret + size) (len - size)

/-- `ufs2_read` and `ffs_read` -/
def fsRead (state : FsState) (buf : Buffer) (len : Int) : ReadDone :=
  readLoop media format len.toNat state buf 0 len

/-- Behind the read of a directory block to the start of FSYS_BUF. -/
def dirBlockRead (state : FsState) : GrubError × Option (List UInt8) → FsState × Bool
  | (_, none) => ({ state with errnum := .fsysCorrupt }, false)
  | (errnum, some bytes) => ({ state with fsysBuf := store state.fsysBuf 0 bytes, errnum }, true)

/-- The block of a directory with a place is read. -/
def dirBlock (state : FsState) (loc : Int) : FsState × Bool :=
  let super := format.superOf state.superblock
  let block := lblkno super loc
  let mapped := blockMap media format state block
  if mapped.2 < 0 then ({ mapped.1 with errnum := .fsysCorrupt }, false)
  else
    dirBlockRead mapped.1
      (PartitionMedia.readDone mapped.1.errnum
        (media.devread (fsbtodb super mapped.2) 0
          (toInt32 (blksize format super (format.diSize state.inode) block))))

end

/-! ## Files -/

section

variable (media : PartitionMedia) (format : FsFormat) (super : FsSuper) (inode : Buffer)

/-- The sectors of a fragment. -/
def sectorsPerFrag : Nat := 2 ^ super.fsFsbtodb.toNat

/-- The bytes of the partition from a fragment on. -/
def fragment (p : Int) : Buffer := fun i =>
  media.content (p.toNat * sectorsPerFrag super * media.sectorSize + i)

/-- The pointer to a block of the file; 0 is a hole. -/
def pointerOf (n : Nat) : Int :=
  if n < ndaddr then format.pointerAt inode (format.diDb + n * format.pointerSize)
  else if format.pointerAt inode format.diIb = 0 then 0
  else format.pointerAt (fragment media super (format.pointerAt inode format.diIb))
    ((n - ndaddr) * format.pointerSize)

/-- A byte of the file. -/
def fileByte (position : Nat) : UInt8 :=
  let p := pointerOf media format super inode (position / super.fsBsize.toNat)
  if p = 0 then 0 else fragment media super p (position % super.fsBsize.toNat)

/-- So many bytes from a fragment on lie in the partition, and their sectors are `int`s. -/
def Reach (p : Int) (size : Nat) : Prop :=
  0 < p ∧ p.toNat * sectorsPerFrag super + (size - 1) / media.sectorSize < media.partLength ∧
    p.toNat * sectorsPerFrag super + (size - 1) / media.sectorSize < 2 ^ 31

end

/-- A pointer is made of its bytes. -/
structure FsFormat.Lawful (format : FsFormat) : Prop where
  large : 4 ≤ format.pointerSize
  sizes : 32 ≤ format.sizeBits
  inodes : 0 < format.inodeSize ∧ format.inodeSize ≤ 8192
  congr : ∀ (buf buf' : Buffer) (i j : Nat),
    (∀ k < format.pointerSize, buf (i + k) = buf' (j + k)) →
      format.pointerAt buf i = format.pointerAt buf' j

/-- The fields of the superblock agree with each other and with the size of a sector. -/
structure Consistent (media : PartitionMedia) (format : FsFormat) (super : FsSuper)
    (blockBits fragBits : Nat) : Prop where
  bshift : super.fsBshift = blockBits
  bsize : super.fsBsize = (2 ^ blockBits : Nat)
  qbmask : super.fsQbmask = (2 ^ blockBits - 1 : Nat)
  fsize : sectorsPerFrag super * media.sectorSize = 2 ^ fragBits
  qfmask : super.fsQfmask = (2 ^ fragBits - 1 : Nat)
  fmask : super.fsFmask = -(2 ^ fragBits : Nat)
  nindir : super.fsNindir = (2 ^ blockBits / format.pointerSize : Nat)
  whole : format.pointerSize ∣ 2 ^ blockBits
  range : fragBits ≤ blockBits ∧ blockBits ≤ 16

/-! ## Numbers that agree -/

/-- A number below 2^32 is the same unsigned one in either format. -/
theorem unsigned_of_small {format : FsFormat} (lawful : format.Lawful) {value : Nat}
    (small : value < 2 ^ 32) : format.unsigned value = value := by
  have pow : 2 ^ 32 ≤ 2 ^ format.sizeBits := Nat.pow_le_pow_right (by decide) lawful.sizes
  have less := Nat.mod_eq_of_lt (Nat.lt_of_lt_of_le small pow)
  have cast : (value : Int) % 2 ^ format.sizeBits = (value % 2 ^ format.sizeBits : Nat) :=
    (Int.natCast_emod value (2 ^ format.sizeBits)).symm
  rw [FsFormat.unsigned, cast, Int.toNat_natCast, less]

/-- The mask of the lower bits is a remainder, -/
theorem and_low {format : FsFormat} (lawful : format.Lawful) {value bits : Nat}
    (small : value < 2 ^ 32) (few : bits ≤ 31) :
    format.unsigned value &&& format.unsigned (2 ^ bits - 1 : Nat) = value % 2 ^ bits := by
  have pow : 2 ^ bits ≤ 2 ^ 31 := Nat.pow_le_pow_right (by decide) few
  rw [unsigned_of_small lawful small, unsigned_of_small lawful (by omega),
    Nat.and_two_pow_sub_one_eq_mod]

/-- The high bits of a number. -/
theorem and_high {value bits width : Nat} (small : value < 2 ^ width) (few : bits ≤ width) :
    value &&& (2 ^ width - 2 ^ bits) = 2 ^ bits * (value / 2 ^ bits) := by
  have mask : 2 ^ width - 2 ^ bits = 2 ^ width - (2 ^ bits - 1 + 1) := by
    rw [Nat.sub_add_cancel (Nat.two_pow_pos bits)]
  have less : 2 ^ bits - 1 < 2 ^ width := by
    have pow : 2 ^ bits ≤ 2 ^ width := Nat.pow_le_pow_right (by decide) few
    have positive := Nat.two_pow_pos bits
    omega
  apply Nat.eq_of_testBit_eq
  intro i
  rw [Nat.testBit_and, Nat.testBit_two_pow_mul, Nat.testBit_div_two_pow, mask,
    Nat.testBit_two_pow_sub_succ less, Nat.testBit_two_pow_sub_one]
  by_cases high : i < width
  · by_cases inMask : bits ≤ i
    · simp [high, inMask, Nat.not_lt.mpr inMask]
    · simp [Nat.lt_of_not_le inMask, inMask]
  · have zero : value.testBit i = false := Nat.testBit_lt_two_pow
      (Nat.lt_of_lt_of_le small (Nat.pow_le_pow_right (by decide) (Nat.le_of_not_lt high)))
    by_cases inMask : bits ≤ i
    · simp [high, zero, inMask]
    · simp [high, zero, inMask]

/-- and that of the upper bits a multiple. -/
theorem and_mask {format : FsFormat} (lawful : format.Lawful) {value bits : Nat}
    (small : value < 2 ^ 32) (few : bits ≤ 31) :
    format.unsigned value &&& format.unsigned (-(2 ^ bits : Nat)) =
      2 ^ bits * (value / 2 ^ bits) := by
  have pow : 2 ^ bits ≤ 2 ^ 31 := Nat.pow_le_pow_right (by decide) few
  have wide : 2 ^ 32 ≤ 2 ^ format.sizeBits := Nat.pow_le_pow_right (by decide) lawful.sizes
  have positive := Nat.two_pow_pos bits
  have mask : format.unsigned (-(2 ^ bits : Nat)) = 2 ^ format.sizeBits - 2 ^ bits := by
    have cast : (2 : Int) ^ format.sizeBits = (2 ^ format.sizeBits : Nat) := rfl
    rw [FsFormat.unsigned, cast]
    generalize 2 ^ format.sizeBits = range at wide ⊢
    generalize 2 ^ bits = unit at pow positive ⊢
    have value : -(unit : Int) % range = (range - unit : Nat) := by
      rw [← Int.add_emod_right]
      have sum : -(unit : Int) + range = (range - unit : Nat) := by omega
      rw [sum]
      exact Int.emod_eq_of_lt (Int.natCast_nonneg _) (by omega)
    rw [value, Int.toNat_natCast]
  rw [unsigned_of_small lawful small, mask]
  exact and_high (Nat.lt_of_lt_of_le small wide) (Nat.le_trans few (Nat.le_trans (by decide) lawful.sizes))

section

variable {media : PartitionMedia} {format : FsFormat} {super : FsSuper} {blockBits fragBits : Nat}

/-- A block has a byte at least, -/
theorem Consistent.bsize_pos (consistent : Consistent media format super blockBits fragBits) :
    0 < super.fsBsize.toNat := by
  rw [consistent.bsize]
  exact Nat.two_pow_pos _

/-- and 2^16 of them at most. -/
theorem Consistent.bsize_le (consistent : Consistent media format super blockBits fragBits) :
    2 ^ blockBits ≤ 2 ^ 16 := Nat.pow_le_pow_right (by decide) consistent.range.2

/-- The offset in a block is a remainder, -/
theorem Consistent.blkoff_eq (consistent : Consistent media format super blockBits fragBits)
    (lawful : format.Lawful) {loc : Nat} (small : loc < 2 ^ 32) :
    blkoff format super loc = (loc % 2 ^ blockBits : Nat) := by
  have few := consistent.range.2
  rw [blkoff, consistent.qbmask, and_low lawful small (by omega)]

/-- the number of a block a quotient, -/
theorem Consistent.lblkno_eq (consistent : Consistent media format super blockBits fragBits)
    (loc : Nat) : lblkno super loc = (loc / 2 ^ blockBits : Nat) := by
  rw [lblkno, consistent.bshift, Int.toNat_natCast]
  exact (Int.natCast_ediv loc (2 ^ blockBits)).symm

/-- and a size is rounded up to fragments. -/
theorem Consistent.fragroundup_eq (consistent : Consistent media format super blockBits fragBits)
    (lawful : format.Lawful) {size : Nat} (small : size < 2 ^ 31) :
    fragroundup format super size =
      (2 ^ fragBits * ((size + (2 ^ fragBits - 1)) / 2 ^ fragBits) : Nat) := by
  obtain ⟨few, most⟩ := consistent.range
  have pow : 2 ^ fragBits ≤ 2 ^ 16 := Nat.pow_le_pow_right (by decide) (Nat.le_trans few most)
  rw [fragroundup, consistent.qfmask, consistent.fmask, ← Int.natCast_add,
    and_mask lawful (by omega) (by omega)]

/-- Behind a last block that is not whole comes the end of the file. -/
theorem Consistent.blksize_last (consistent : Consistent media format super blockBits fragBits)
    (lawful : format.Lawful) {size n : Nat} (small : size < 2 ^ 31)
    (partly : ¬ format.unsigned (smalllblktosize super (n + 1)) ≤ size) :
    size < (n + 1) * 2 ^ blockBits := by
  apply Nat.lt_of_not_le
  intro whole
  apply partly
  have exact_ : smalllblktosize super (n + 1) = ((n + 1) * 2 ^ blockBits : Nat) := by
    have cast : ((n : Int) + 1) * 2 ^ blockBits = ((n + 1) * 2 ^ blockBits : Nat) := rfl
    rw [smalllblktosize, consistent.bshift, Int.toNat_natCast, cast]
    exact toInt32_of_range (by omega) (by omega)
  rw [exact_, unsigned_of_small lawful (by omega)]
  exact whole

/-- The bytes of a block that the file has, rounded up to a fragment. -/
theorem Consistent.blksize_bounds (consistent : Consistent media format super blockBits fragBits)
    (lawful : format.Lawful) {size n : Nat} (small : size < 2 ^ 31)
    (inFile : n * 2 ^ blockBits < size) :
    ∃ bytes : Nat, blksize format super size n = bytes ∧ bytes ≤ 2 ^ blockBits ∧
      min (2 ^ blockBits) (size - n * 2 ^ blockBits) ≤ bytes := by
  rw [blksize]
  split
  · exact ⟨2 ^ blockBits, consistent.bsize, Nat.le_refl _, Nat.min_le_left _ _⟩
  next last =>
    have short := consistent.blksize_last lawful small (not_or.mp last).2
    rw [Nat.succ_mul] at short
    have rest : size % 2 ^ blockBits = size - n * 2 ^ blockBits := by
      rw [Nat.mod_eq_sub_mul_div, Nat.div_eq_of_lt_le (Nat.le_of_lt inFile)
        (by rw [Nat.succ_mul]; exact short), Nat.mul_comm]
    rw [consistent.blkoff_eq lawful (by omega), rest, consistent.fragroundup_eq lawful (by omega)]
    have whole : 2 ^ blockBits = 2 ^ fragBits * 2 ^ (blockBits - fragBits) := by
      rw [← Nat.pow_add, Nat.add_sub_cancel' consistent.range.1]
    have positive := Nat.two_pow_pos fragBits
    generalize size - n * 2 ^ blockBits = bytes at *
    refine ⟨_, rfl, ?_, ?_⟩
    · rw [whole]
      apply Nat.mul_le_mul_left
      apply Nat.le_of_lt_succ
      apply Nat.div_lt_of_lt_mul
      rw [Nat.mul_succ, ← whole]
      omega
    · have split_ := Nat.div_add_mod (bytes + (2 ^ fragBits - 1)) (2 ^ fragBits)
      have less := Nat.mod_lt (bytes + (2 ^ fragBits - 1)) positive
      refine Nat.le_trans (Nat.min_le_right _ _) ?_
      omega

end

/-! ## The map of a file -/

/-- Nothing but the window changes. -/
structure Kept (before after : FsState) : Prop where
  buffer : ∀ i < mapbufAt, after.fsysBuf i = before.fsysBuf i
  filepos : after.filepos = before.filepos
  errnum : after.errnum = before.errnum

/-- A state keeps what it has. -/
theorem Kept.refl (state : FsState) : Kept state state := ⟨fun _ _ => rfl, rfl, rfl⟩

/-- Buffers that agree on a structure. -/
theorem view_congr {buf buf' : Buffer} {start : Nat}
    (same : ∀ i < 8192, buf' (start + i) = buf (start + i)) : view buf' start = view buf start := by
  funext i
  rw [view, view]
  split
  next inside => exact same i inside
  · rfl

/-- What is kept is the super block -/
theorem Kept.superblock {before after : FsState} (kept : Kept before after) :
    after.superblock = before.superblock := by
  apply view_congr
  intro i inside
  apply kept.buffer
  have start : superblockAt = 8192 := rfl
  have limit : mapbufAt = 24576 := rfl
  omega

/-- and the inode. -/
theorem Kept.inode {before after : FsState} (kept : Kept before after) :
    after.inode = before.inode := by
  apply view_congr
  intro i inside
  apply kept.buffer
  have start : inodeAt = 16384 := rfl
  have limit : mapbufAt = 24576 := rfl
  omega

section

variable (media : PartitionMedia) (format : FsFormat)

/-- The window shows what is on the disk. -/
structure WindowSound (state : FsState) : Prop where
  clear : state.errnum = .none
  shows_ : 0 < state.mapblock → 0 ≤ state.mapblockOffset ∧
    ∀ i : Nat, i < state.mapblockBsize → state.fsysBuf (mapbufAt + i) =
      media.content (state.mapblock.toNat * media.sectorSize + 4 * state.mapblockOffset.toNat + i)

/-- The window that an index is looked up in. -/
def windowOf (state : FsState) (index : Int) : Int × Int :=
  if Reloads state (mapSector format state) then
    windowFor (format.superOf state.superblock) index
  else (state.mapblockOffset, state.mapblockBsize)

/-- The pointer at an index is in a window, where it is looked for. -/
def Hits (window : Int × Int) (index : Int) : Prop :=
  (format.pointerSize = 4 ∨ window.1 = 0) ∧ window.1 ≤ index ∧
    (index - window.1 + 1) * format.pointerSize ≤ window.2

/-- The pointer to a block can be looked up. -/
def MapOk (state : FsState) (n : Nat) : Prop :=
  n < ndaddr ∨
    (Reach media (format.superOf state.superblock) (format.pointerAt state.inode format.diIb)
        (4 * (windowOf format state (n - ndaddr : Nat)).1.toNat +
          (windowOf format state (n - ndaddr : Nat)).2.toNat) ∧
      ((n - ndaddr : Nat) : Int) < (format.superOf state.superblock).fsNindir ∧
      Hits format (windowOf format state (n - ndaddr : Nat)) (n - ndaddr : Nat))

end

section

variable {media : PartitionMedia} {format : FsFormat} {state : FsState}

/-- A block in reach is at its number times the sectors of a fragment. -/
theorem fsbtodb_of_reach {super : FsSuper} {p : Int} {size : Nat}
    (reach : Reach media super p size) :
    fsbtodb super p = (p.toNat * sectorsPerFrag super : Nat) := by
  obtain ⟨some_, -, inRange⟩ := reach
  have value : p * 2 ^ super.fsFsbtodb.toNat = (p.toNat * sectorsPerFrag super : Nat) := by
    rw [Int.natCast_mul, Int.toNat_of_nonneg (Int.le_of_lt some_)]
    rfl
  rw [fsbtodb, value]
  have small := Nat.lt_of_le_of_lt (Nat.le_add_right _ _) inRange
  generalize p.toNat * sectorsPerFrag super = sector at small ⊢
  exact toInt32_of_range (by omega) (by omega)

/-- A read behind a fragment, on a disk without errors. -/
theorem devread_of_reach {super : FsSuper} {p : Int} {size offset count : Nat}
    (reads : ∀ sector byteOffset byteLen, media.fails sector byteOffset byteLen = none)
    (reach : Reach media super p size) (some_ : 0 < count) (inside : offset + count ≤ size) :
    media.devread (fsbtodb super p) offset count =
      .ok (bytesAt (fragment media super p) offset count) := by
  have sector := fsbtodb_of_reach reach
  obtain ⟨-, inPart, inRange⟩ := reach
  have earlier : (offset + count - 1) / media.sectorSize ≤ (size - 1) / media.sectorSize :=
    Nat.div_le_div_right (by omega)
  rw [sector, devread_inside (reads _ _ _) some_ (by omega) (by omega)]
  refine congrArg Except.ok (bytesAt_congr fun i _ => ?_)
  rw [fragment, Nat.add_assoc]

/-- A window that is loaded is that of the block, and sound. -/
theorem loadWindow_sound
    (reads : ∀ sector byteOffset byteLen, media.fails sector byteOffset byteLen = none)
    (sound : WindowSound media state) {index : Int}
    (reach : Reach media (format.superOf state.superblock)
      (format.pointerAt state.inode format.diIb)
      (4 * (windowOf format state index).1.toNat + (windowOf format state index).2.toNat))
    (window : 0 ≤ (windowOf format state index).1 ∧ 0 < (windowOf format state index).2) :
    ∃ loaded, loadWindow media format state index = (loaded, true) ∧ Kept state loaded ∧
      WindowSound media loaded ∧ loaded.mapblock = mapSector format state ∧
      (loaded.mapblockOffset, loaded.mapblockBsize) = windowOf format state index := by
  rw [loadWindow, windowOf] at *
  dsimp only at *
  by_cases reloads : Reloads state (mapSector format state)
  · rw [if_pos reloads] at reach window ⊢
    rw [if_pos reloads]
    generalize windowFor (format.superOf state.superblock) index = loads at reach window ⊢
    obtain ⟨offset, count⟩ := loads
    obtain ⟨low, some_⟩ := window
    dsimp only at reach low some_ ⊢
    obtain ⟨offset, rfl⟩ := Int.eq_ofNat_of_zero_le low
    obtain ⟨count, rfl⟩ := Int.eq_ofNat_of_zero_le (Int.le_of_lt some_)
    rw [Int.toNat_natCast, Int.toNat_natCast] at reach
    have sector := fsbtodb_of_reach reach
    have position : (offset : Int) * 4 = (4 * offset : Nat) := by omega
    have read := devread_of_reach reads reach (Int.natCast_pos.mp some_) (Nat.le_refl _)
    rw [← mapSector] at sector read
    rw [position, read, sound.clear]
    refine ⟨_, rfl, ⟨?_, rfl, sound.clear.symm⟩, ⟨rfl, ?_⟩, rfl, rfl⟩
    · exact fun i before => store_before before
    · intro _
      refine ⟨low, fun i inside => ?_⟩
      have inside : i < count := Int.ofNat_lt.mp inside
      dsimp only
      rw [store_at (by rw [length_bytesAt]; exact inside), getElem_bytesAt, fragment, sector,
        Int.toNat_natCast, Int.toNat_natCast, Nat.add_assoc]
  · rw [if_neg reloads, if_neg reloads]
    refine ⟨state, rfl, Kept.refl state, sound, ?_, rfl⟩
    exact (Classical.not_not.mp (not_or.mp reloads).1).symm

/-- The pointer in the window is the one in the indirect block. -/
theorem mapPointer_eq (lawful : format.Lawful) (sound : WindowSound media state)
    {super : FsSuper} {p : Int} {size index : Nat} (reach : Reach media super p size)
    (isMapped : state.mapblock = fsbtodb super p)
    (hits : Hits format (state.mapblockOffset, state.mapblockBsize) index) :
    mapPointer format state index =
      format.pointerAt (fragment media super p) (index * format.pointerSize) := by
  have sector := fsbtodb_of_reach reach
  have positive : 0 < p.toNat * sectorsPerFrag super := by
    obtain ⟨some_, -, -⟩ := reach
    exact Nat.mul_pos (by omega) (Nat.two_pow_pos _)
  rw [sector] at isMapped
  obtain ⟨low, shows_⟩ := sound.shows_ (by omega)
  obtain ⟨unit, first, last⟩ := hits
  dsimp only at unit first last
  obtain ⟨offset, isOffset⟩ := Int.eq_ofNat_of_zero_le low
  rw [isOffset] at unit first last shows_
  obtain ⟨behind, rfl⟩ := Nat.exists_eq_add_of_le (Int.ofNat_le.mp first)
  have distance : ((offset + behind : Nat) : Int) - (offset : Nat) = behind := by omega
  rw [distance] at last
  -- In units of pointers and of integers the place is the same.
  have place : 4 * offset + behind * format.pointerSize =
      (offset + behind) * format.pointerSize := by
    rcases unit with four | zero
    · rw [four]
      omega
    · rw [Int.ofNat_eq_zero.mp zero, Nat.mul_zero, Nat.zero_add, Nat.zero_add]
  rw [mapPointer, isOffset, distance, ← Int.natCast_mul, ← Int.natCast_add, Int.toNat_natCast]
  apply lawful.congr
  intro k inside
  have bound : ((behind * format.pointerSize + k : Nat) : Int) < state.mapblockBsize := by
    have step : ((behind : Int) + 1) * format.pointerSize =
        (behind * format.pointerSize + format.pointerSize : Nat) := by
      rw [← Nat.succ_mul]
      rfl
    rw [step] at last
    omega
  rw [Nat.add_assoc, shows_ _ bound, isMapped, fragment, ← place, Int.toNat_natCast,
    Int.toNat_natCast, Nat.add_assoc, Nat.add_assoc]

/-- The indirect block does not start at the first sector. -/
theorem mapSector_pos {size : Nat}
    (reach : Reach media (format.superOf state.superblock)
      (format.pointerAt state.inode format.diIb) size) : 0 < mapSector format state := by
  rw [mapSector, fsbtodb_of_reach reach]
  have some_ := reach.1
  exact Int.natCast_pos.mpr (Nat.mul_pos (by omega) (Nat.two_pow_pos _))

/-- No window starts before the indirect block. -/
theorem windowOf_nonneg (sound : WindowSound media state) (isSector : 0 < mapSector format state)
    (index : Nat) : 0 ≤ (windowOf format state index).1 := by
  rw [windowOf]
  split
  · rw [windowFor]
    split
    next large =>
      dsimp only
      split
      · exact Int.ediv_nonneg (by omega) (by decide)
      · exact Int.natCast_nonneg _
    · exact Int.le_refl 0
  next stays =>
    have isMapped := Classical.not_not.mp (not_or.mp stays).1
    exact (sound.shows_ (isMapped ▸ isSector)).1

/-- `block_map` gives the pointer of the file. -/
theorem blockMap_pointer (lawful : format.Lawful)
    (reads : ∀ sector byteOffset byteLen, media.fails sector byteOffset byteLen = none)
    (sound : WindowSound media state) {n : Nat} (ok : MapOk media format state n) :
    ∃ after, blockMap media format state n =
        (after, pointerOf media format (format.superOf state.superblock) state.inode n) ∧
      Kept state after ∧ WindowSound media after ∧
      (n < ndaddr ∧ after = state ∨ ndaddr ≤ n ∧ after.mapblock = mapSector format state ∧
        (after.mapblockOffset, after.mapblockBsize) = windowOf format state (n - ndaddr : Nat)) := by
  rw [blockMap, pointerOf]
  by_cases direct : n < ndaddr
  · rw [if_pos (Int.ofNat_lt.mpr direct), if_pos direct, ← Int.natCast_mul, ← Int.natCast_add,
      Int.toNat_natCast]
    exact ⟨state, rfl, Kept.refl state, sound, .inl ⟨direct, rfl⟩⟩
  · obtain ⟨reach, few, hits⟩ := ok.resolve_left direct
    have some_ : format.pointerAt state.inode format.diIb ≠ 0 := Int.ne_of_gt reach.1
    have index : mapIndex (format.superOf state.superblock) n = (n - ndaddr : Nat) := by
      have cast : (n : Int) - ndaddr = (n - ndaddr : Nat) := by omega
      rw [mapIndex, cast]
      exact Int.tmod_eq_of_lt (Int.natCast_nonneg _) few
    rw [if_neg (mt Int.ofNat_lt.mp direct), if_neg direct, if_neg some_]
    dsimp only
    rw [index]
    generalize n - ndaddr = entry at reach hits ⊢
    have size : 0 < format.pointerSize := Nat.lt_of_lt_of_le (by decide) lawful.large
    have isSector := mapSector_pos reach
    have window : 0 ≤ (windowOf format state entry).1 ∧ 0 < (windowOf format state entry).2 := by
      refine ⟨windowOf_nonneg sound isSector entry, ?_⟩
      obtain ⟨-, first, last⟩ := hits
      refine Int.lt_of_lt_of_le (Int.mul_pos ?_ (Int.natCast_pos.mpr size)) last
      omega
    obtain ⟨loaded, loads, kept, sound', isMapped, isWindow⟩ := loadWindow_sound reads sound reach window
    rw [loads]
    refine ⟨loaded, ?_, kept, sound', .inr ⟨Nat.not_lt.mp direct, isMapped, isWindow⟩⟩
    rw [if_pos rfl]
    dsimp only
    rw [← isWindow] at hits
    rw [mapPointer_eq lawful sound' reach isMapped hits]

end

end GrubLegacy.Fsys.Ufs
