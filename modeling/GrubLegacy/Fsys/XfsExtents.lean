import GrubLegacy.DiskIo.PartitionMedia
import GrubLegacy.Fsys.ExtentTurns

/-!
# The extents of an XFS file

`init_extents` and `next_extent` of `fsys_xfs.c`, which list the extents of the inode
that was read last: those in the inode itself or those in the leaves of a b-tree.
-/

namespace GrubLegacy.Fsys

open Base Stage2 DiskIo
open GrubLegacy.Partition (Buffer)

/-! ## Numbers on the disk -/

/-- `le16` of a number in memory: on the disk it is big-endian. -/
def le16 (area : Buffer) (offset : Nat) : Nat :=
  Area.byte area offset * 2 ^ 8 + Area.byte area (offset + 1)

/-- `le32` -/
def le32 (area : Buffer) (offset : Nat) : Nat :=
  le16 area offset * 2 ^ 16 + le16 area (offset + 2)

/-- `le64` -/
def le64 (area : Buffer) (offset : Nat) : Nat :=
  le32 area offset * 2 ^ 32 + le32 area (offset + 4)

/-- `xad_t` -/
abbrev Xad := BlockRun

/-- The extent a record describes: `xt_offset`, `xt_start` and `xt_len`. -/
def xadAt (area : Buffer) (position : Nat) : Xad :=
  let l0 := le32 area position
  let l1 := le32 area (position + 4)
  let l2 := le32 area (position + 8)
  let l3 := le32 area (position + 12)
  { offset := (l0 % 2 ^ 31) * 2 ^ 23 + l1 / 2 ^ 9
    start := (l1 % 2 ^ 9) * 2 ^ 43 + l2 * 2 ^ 11 + l3 / 2 ^ 21
    len := l3 % 2 ^ 21 }

/-- The flag of a record whose blocks have not been written. -/
def Unwritten (area : Buffer) (position : Nat) : Prop := 2 ^ 31 ≤ le32 area position

instance (area : Buffer) (position : Nat) : Decidable (Unwritten area position) :=
  inferInstanceAs (Decidable (_ ≤ _))

/-! ## The file system and the inode -/

/-- The partition and what `xfs_mount` takes from the super block. -/
structure XfsInfo where
  media : PartitionMedia
  bsize : Nat
  blklog : Nat
  isize : Nat
  agblocks : Nat
  agblklog : Nat

/-- XFS_DINODE_FMT_LOCAL -/
def xfsDinodeFmtLocal : Nat := 1

/-- XFS_DINODE_FMT_EXTENTS -/
def xfsDinodeFmtExtents : Nat := 2

/-- XFS_DINODE_FMT_BTREE -/
def xfsDinodeFmtBtree : Nat := 3

/-- `icore.di_format` -/
def diFormat (inode : Buffer) : Nat := Area.byte inode 5

/-- `icore.di_nextents` -/
def diNextents (inode : Buffer) : Nat := le32 inode 76

/-- `icore.di_forkoff` -/
def diForkoff (inode : Buffer) : Nat := Area.byte inode 82

/-- `offsetof (xfs_dinode_t, di_u)` -/
def diU : Nat := 100

/-- The variables of `fsys_xfs.c` that listing extents uses, and `errnum`. `xt` is a place
in the inode. -/
structure XfsState where
  inode : Buffer
  ptr0 : Nat
  nextents : Nat
  next : Nat
  daddr : Nat
  xt : Nat
  fpos : Nat
  filebuf : Buffer
  errnum : GrubError

section

variable (info : XfsInfo)

/-- `xfs.bdlog` -/
def XfsInfo.bdlog : Nat := info.blklog - info.media.sectorBits

/-- `xfs.btnode_ptr0_off` -/
def XfsInfo.btnodePtr0Off : Nat := (info.bsize - 24) / 16 * 8 + 24

/-- `agb2daddr` -/
def agb2daddr (agno agbno : Nat) : Nat :=
  (agno * info.agblocks + agbno) * 2 ^ info.bdlog % 2 ^ 64

/-- `fsb2daddr` -/
def fsb2daddr (fsbno : Nat) : Nat :=
  agb2daddr info (fsbno / 2 ^ info.agblklog % 2 ^ 32) (fsbno % 2 ^ info.agblklog)

/-- `btroot_maxrecs`: a 64-bit number. -/
def btrootMaxrecs (inode : Buffer) : Nat :=
  let tmp := if diForkoff inode ≠ 0 then diForkoff inode * 8 else info.isize
  (tmp + 2 ^ 64 - 4 - diU) % 2 ^ 64 / 16

/-- The end of `di_read`: the inode is in memory, and `xfs.ptr0` is taken from it. -/
def inodeRead (state : XfsState) (inode : Buffer) : XfsState :=
  { state with inode, ptr0 := le64 inode ((diU + 4 + btrootMaxrecs info inode * 8) % 2 ^ 32) }

/-- `devread`: the sector is passed as an `int`. -/
def xfsDevread (state : XfsState) (daddr : Nat) (byteOffset byteLen : Int) :
    XfsState × Option (List UInt8) :=
  let done := PartitionMedia.readDone state.errnum
    (info.media.devread (toInt32 daddr) byteOffset byteLen)
  ({ state with errnum := done.1 }, done.2)

/-- The header of a block of the b-tree is read to `h`, which keeps what it has when that
fails. -/
def readHeader (state : XfsState) (h : Option Buffer) : XfsState × Option Buffer :=
  let read := xfsDevread info state state.daddr 0 24
  (read.1, (read.2.map areaOf).or h)

/-- What a leaf's header says: `bb_numrecs` and `bb_rightsib`. -/
def leafEntered (state : XfsState) (h : Buffer) : XfsState :=
  { state with nextents := le16 h 6, next := fsb2daddr info (le64 h 16), fpos := 24 }

/-- The loop of `init_extents`. There is no result when the levels run out, or when a
header is used that was never read. -/
def initBtree : (levels : Nat) → XfsState → (ptr0 : Nat) → (h : Option Buffer) → Option XfsState
  | 0, _, _, _ => none
  | levels + 1, state, ptr0, h =>
    let header := readHeader info { state with daddr := fsb2daddr info ptr0 } h
    header.2.bind fun h =>
      if le16 h 4 = 0 then some (leafEntered info header.1 h)
      else
        let read := xfsDevread info header.1 header.1.daddr info.btnodePtr0Off 8
        initBtree levels read.1 ((read.2.map fun bytes => le64 (areaOf bytes) 0).getD ptr0)
          (some h)

/-- `init_extents` -/
def initExtents (levels : Nat) (state : XfsState) : Option XfsState :=
  if diFormat state.inode = xfsDinodeFmtExtents then
    some { state with xt := diU, nextents := diNextents state.inode }
  else if diFormat state.inode = xfsDinodeFmtBtree then
    initBtree info levels state state.ptr0 none
  else some state

/-- The extent in the inode at `xt`. -/
def takeInline (state : XfsState) : XfsState × Xad :=
  ({ state with xt := state.xt + 16, nextents := toUInt32 (state.nextents - 1) },
    xadAt state.inode state.xt)

/-- The extent at `fpos` of the leaf, which is read to `filebuf`. -/
def takeRecord (state : XfsState) : XfsState × Xad :=
  let read := xfsDevread info state state.daddr state.fpos 16
  let filebuf := (read.2.map (Area.fill state.filebuf)).getD state.filebuf
  ({ read.1 with filebuf, fpos := state.fpos + 16, nextents := toUInt32 (state.nextents - 1) },
    xadAt filebuf 0)

/-- `next_extent`: the extent, unless it returns NULL. There is no result when a header is
used that was never read. -/
def nextExtent (state : XfsState) : Option (XfsState × Option Xad) :=
  if diFormat state.inode = xfsDinodeFmtBtree then
    if state.nextents = 0 then
      if state.next = 0 then some (state, none)
      else
        let header := readHeader info { state with daddr := state.next } none
        header.2.map fun h =>
          let taken := takeRecord info (leafEntered info header.1 h)
          (taken.1, some taken.2)
    else
      let taken := takeRecord info state
      some (taken.1, some taken.2)
  else if diFormat state.inode = xfsDinodeFmtExtents ∧ state.nextents = 0 then some (state, none)
  else
    let taken := takeInline state
    some (taken.1, some taken.2)

/-! ## Well-formed files -/

/-- The place of a block in the partition, in blocks. -/
def XfsInfo.place (fsbno : Nat) : Nat :=
  fsbno / 2 ^ info.agblklog * info.agblocks + fsbno % 2 ^ info.agblklog

/-- A block as it is on the disk. -/
def XfsInfo.block (fsbno : Nat) : Buffer := fun i =>
  info.media.content (info.place fsbno * info.bsize + i)

/-- The sizes of a file system that `xfs_mount` accepts, and a disk that is read without
errors. -/
structure XfsMounted : Prop where
  bsize : info.bsize = 2 ^ info.blklog
  sectors : info.media.sectorBits ≤ info.blklog
  blocks : 9 ≤ info.blklog ∧ info.blklog ≤ 16
  inodes : diU + 4 ≤ info.isize ∧ info.isize ≤ 2048
  agblocks : 0 < info.agblocks
  reads : ∀ sector byteOffset byteLen, info.media.fails sector byteOffset byteLen = none

/-- The block lies in the partition, and its sector numbers are `int`s. -/
def XfsInfo.InReach (fsbno : Nat) : Prop :=
  (info.place fsbno + 1) * 2 ^ info.bdlog ≤ info.media.partLength ∧
    (info.place fsbno + 1) * 2 ^ info.bdlog ≤ 2 ^ 31

instance (fsbno : Nat) : Decidable (info.InReach fsbno) := inferInstanceAs (Decidable (_ ∧ _))

/-- NULLFSBLOCK -/
def nullfsblock : Nat := 2 ^ 64 - 1

/-- The records from a place on are those of written extents. -/
def RecordsAt (area : Buffer) (position : Nat) (xads : List Xad) : Prop :=
  ∀ i, ∀ inside : i < xads.length,
    xadAt area (position + 16 * i) = xads[i] ∧ ¬ Unwritten area (position + 16 * i)

/-- A leaf of the b-tree. -/
structure LeafAt (fsbno : Nat) (xads : List Xad) (rightsib : Nat) : Prop where
  inReach : info.InReach fsbno
  level : le16 (info.block fsbno) 4 = 0
  numrecs : le16 (info.block fsbno) 6 = xads.length
  nonempty : xads ≠ []
  fits : 24 + 16 * xads.length ≤ info.bsize
  records : RecordsAt (info.block fsbno) 24 xads
  rightsib : le64 (info.block fsbno) 16 = rightsib

/-- The leaves from a block on, linked by `bb_rightsib`. The first block of the file system
is the super block's. -/
def LeafChain : (fsbno : Nat) → List (List Xad) → Prop
  | fsbno, [] => fsbno = nullfsblock
  | fsbno, leaf :: leaves =>
    fsbno ≠ 0 ∧ ∃ rightsib, LeafAt info fsbno leaf rightsib ∧ LeafChain rightsib leaves

/-- The first pointers of that many index blocks lead to a leaf. -/
def LeadsDown : (levels : Nat) → (fsbno leaf : Nat) → Prop
  | 0, fsbno, leaf => fsbno = leaf
  | levels + 1, fsbno, leaf =>
    info.InReach fsbno ∧ le16 (info.block fsbno) 4 ≠ 0 ∧
      LeadsDown levels (le64 (info.block fsbno) info.btnodePtr0Off) leaf

/-- The bytes of an inode that are the file's: an attribute fork takes the rest. -/
def forkSize (inode : Buffer) : Nat :=
  if diForkoff inode ≠ 0 then diForkoff inode * 8 else info.isize - diU

/-- The first pointer of the root, behind the keys there is room for. -/
def rootPointer (inode : Buffer) : Nat :=
  le64 inode (diU + 4 + (forkSize info inode - 4) / 16 * 8)

/-- An inode and its extents, which are listed in it or in the leaves of its b-tree. -/
def ExtentsOf (inode : Buffer) (xads : List Xad) : Prop :=
  diFormat inode = xfsDinodeFmtExtents ∧ diNextents inode = xads.length ∧
      RecordsAt inode diU xads ∨
    diFormat inode = xfsDinodeFmtBtree ∧ ∃ levels leaf leaves,
      LeadsDown info levels (rootPointer info inode) leaf ∧ LeafChain info leaf leaves ∧
        leaves ≠ [] ∧ xads = leaves.flatten

/-- The extents `next_extent` returns, one call after the other. Those in the inode end
there. -/
def Lists : XfsState → List Xad → Prop
  | state, [] => diFormat state.inode = xfsDinodeFmtExtents → nextExtent info state = some (state, none)
  | state, xad :: xads => ∃ after, nextExtent info state = some (after, some xad) ∧
      after.errnum = state.errnum ∧ after.inode = state.inode ∧ Lists after xads

end

/-! ## Listing -/

section

variable {info : XfsInfo} {state : XfsState}

/-- A 16-bit number is one, -/
theorem le16_lt (area : Buffer) (offset : Nat) : le16 area offset < 2 ^ 16 := by
  have high : Area.byte area offset < 256 := UInt8.toNat_lt _
  have low : Area.byte area (offset + 1) < 256 := UInt8.toNat_lt _
  rw [le16]
  omega

/-- and so is a 32-bit number. -/
theorem le32_lt (area : Buffer) (offset : Nat) : le32 area offset < 2 ^ 32 := by
  have high := le16_lt area offset
  have low := le16_lt area (offset + 2)
  rw [le32]
  omega

/-- A block is a power of two of sectors. -/
theorem XfsMounted.bsize_sectors (mounted : XfsMounted info) :
    info.bsize = 2 ^ info.bdlog * info.media.sectorSize := by
  rw [mounted.bsize, XfsInfo.bdlog, SectorMedia.sectorSize, ← Nat.pow_add,
    Nat.sub_add_cancel mounted.sectors]

/-- A block whose sector number is an `int` has its place computed without overflow. -/
theorem fsb2daddr_place (mounted : XfsMounted info) {fsbno : Nat}
    (inRange : info.place fsbno * 2 ^ info.bdlog < 2 ^ 31) :
    fsb2daddr info fsbno = info.place fsbno * 2 ^ info.bdlog := by
  have place : info.place fsbno < 2 ^ 31 :=
    Nat.lt_of_le_of_lt (Nat.le_mul_of_pos_right _ (Nat.two_pow_pos _)) inRange
  have agno : fsbno / 2 ^ info.agblklog < 2 ^ 32 := by
    have bound : fsbno / 2 ^ info.agblklog ≤ info.place fsbno :=
      Nat.le_trans (Nat.le_mul_of_pos_right _ mounted.agblocks) (Nat.le_add_right _ _)
    exact Nat.lt_of_le_of_lt bound (Nat.lt_trans place (by decide))
  rw [fsb2daddr, Nat.mod_eq_of_lt agno, agb2daddr]
  exact Nat.mod_eq_of_lt (Nat.lt_trans inRange (by decide))

/-- A read inside the partition delivers its bytes. -/
theorem xfsDevread_ok {daddr : Nat} {byteOffset byteLen : Int} {bytes : List UInt8}
    (delivered : info.media.devread (toInt32 daddr) byteOffset byteLen = .ok bytes)
    (clean : state.errnum = .none) :
    xfsDevread info state daddr byteOffset byteLen = (state, some bytes) := by
  rw [xfsDevread, delivered, PartitionMedia.readDone, if_pos clean]

/-- A read of consecutive blocks, or of a part of them. -/
theorem xfsDevread_blocks (mounted : XfsMounted info) {fsbno count offset size : Nat}
    (inPart : (info.place fsbno + count) * 2 ^ info.bdlog ≤ info.media.partLength)
    (inRange : (info.place fsbno + count) * 2 ^ info.bdlog ≤ 2 ^ 31) (some_ : 0 < size)
    (inside : offset + size ≤ count * info.bsize) (clean : state.errnum = .none) :
    xfsDevread info state (fsb2daddr info fsbno) offset size =
      (state, some (info.media.bytes (info.place fsbno * info.bsize + offset) size)) := by
  have sectors := mounted.bsize_sectors
  have positive : 0 < count := by
    apply Nat.pos_of_ne_zero
    rintro rfl
    rw [Nat.zero_mul] at inside
    omega
  have first : info.place fsbno * 2 ^ info.bdlog < 2 ^ 31 := by
    have more := Nat.mul_lt_mul_of_pos_right (Nat.lt_add_of_pos_right (n := info.place fsbno)
      positive) (Nat.two_pow_pos info.bdlog)
    exact Nat.lt_of_lt_of_le more inRange
  rw [sectors] at inside ⊢
  apply xfsDevread_ok _ clean
  rw [fsb2daddr_place mounted first]
  exact devread_blocks (mounted.reads _ _ _) inPart inRange some_ inside

/-! ### Words that are the same in two places -/

/-- Numbers of 16 bits depend on their bytes only, -/
theorem le16_congr {area area' : Buffer} {offset offset' : Nat}
    (same : ∀ i < 2, area (offset + i) = area' (offset' + i)) :
    le16 area offset = le16 area' offset' := by
  have first := same 0 (by decide)
  have second := same 1 (by decide)
  rw [Nat.add_zero, Nat.add_zero] at first
  rw [le16, le16, Area.byte, Area.byte, Area.byte,
    Area.byte, first, second]

/-- those of 32 bits -/
theorem le32_congr {area area' : Buffer} {offset offset' : Nat}
    (same : ∀ i < 4, area (offset + i) = area' (offset' + i)) :
    le32 area offset = le32 area' offset' := by
  have high := le16_congr fun i inside => same i (by omega)
  have low : le16 area (offset + 2) = le16 area' (offset' + 2) := by
    apply le16_congr
    intro i inside
    simpa only [Nat.add_assoc] using same (2 + i) (by omega)
  rw [le32, le32, high, low]

/-- and of 64 bits, -/
theorem le64_congr {area area' : Buffer} {offset offset' : Nat}
    (same : ∀ i < 8, area (offset + i) = area' (offset' + i)) :
    le64 area offset = le64 area' offset' := by
  have high := le32_congr fun i inside => same i (by omega)
  have low : le32 area (offset + 4) = le32 area' (offset' + 4) := by
    apply le32_congr
    intro i inside
    simpa only [Nat.add_assoc] using same (4 + i) (by omega)
  rw [le64, le64, high, low]

/-- and so do extents. -/
theorem xadAt_congr {area area' : Buffer} {position position' : Nat}
    (same : ∀ i < 16, area (position + i) = area' (position' + i)) :
    xadAt area position = xadAt area' position' := by
  have word : ∀ start, start + 4 ≤ 16 →
      le32 area (position + start) = le32 area' (position' + start) := by
    intro start inside
    apply le32_congr
    intro i small
    simpa only [Nat.add_assoc] using same (start + i) (by omega)
  have l0 := word 0 (by decide)
  rw [Nat.add_zero, Nat.add_zero] at l0
  rw [xadAt, xadAt, l0, word 4 (by decide), word 8 (by decide), word 12 (by decide)]

/-- Bytes of a block, as a buffer shows them. -/
theorem fill_bytes (buf : Buffer) (fsbno offset : Nat) {size i : Nat} (inside : i < size) :
    Area.fill buf (info.media.bytes (info.place fsbno * info.bsize + offset) size) i =
      info.block fsbno (offset + i) := by
  rw [Area.fill, List.getD_eq_getElem _ _ (by simpa using inside)]
  simp only [getElem_bytes, Nat.add_assoc]
  rfl

/-! ### The leaves -/

/-- A header as a buffer shows it. -/
theorem header_byte (fsbno : Nat) {i : Nat} (inside : i < 24) :
    areaOf (info.media.bytes (info.place fsbno * info.bsize) 24) i = info.block fsbno i := by
  have filled := (@fill_bytes info) (fun _ => 0) fsbno 0 inside
  rw [Nat.zero_add] at filled
  exact filled

/-- The header of a block in reach. -/
theorem readHeader_block (mounted : XfsMounted info) {fsbno : Nat} (inReach : info.InReach fsbno)
    (at_ : state.daddr = fsb2daddr info fsbno) (clean : state.errnum = .none)
    (h : Option Buffer) :
    readHeader info state h =
      (state, some (areaOf (info.media.bytes (info.place fsbno * info.bsize) 24))) := by
  have big : 24 ≤ info.bsize := by
    rw [mounted.bsize]
    exact Nat.le_trans (by decide) (Nat.pow_le_pow_right (by decide) mounted.blocks.1)
  have delivered : xfsDevread info state (fsb2daddr info fsbno) 0 24 =
      (state, some (info.media.bytes (info.place fsbno * info.bsize) 24)) :=
    @xfsDevread_blocks info state mounted fsbno 1 0 24 inReach.1 inReach.2 (by decide)
      (by omega) clean
  rw [readHeader, at_, delivered]
  rfl

/-- The level of a node is read with its header. -/
theorem header_level (fsbno : Nat) :
    le16 (areaOf (info.media.bytes (info.place fsbno * info.bsize) 24)) 4 =
      le16 (info.block fsbno) 4 := by
  apply le16_congr
  intro i inside
  exact header_byte fsbno (by omega)

/-- The pointers of an index block lie behind the keys there is room for. -/
theorem btnodePtr0Off_fits (mounted : XfsMounted info) :
    info.btnodePtr0Off + 8 ≤ info.bsize := by
  have big : 2 ^ 9 ≤ info.bsize := by
    rw [mounted.bsize]
    exact Nat.pow_le_pow_right (by decide) mounted.blocks.1
  rw [XfsInfo.btnodePtr0Off]
  omega

/-- A leaf's header is taken over. -/
theorem leafEntered_leaf {fsbno rightsib : Nat} {leaf : List Xad}
    (leafAt : LeafAt info fsbno leaf rightsib) :
    leafEntered info state (areaOf (info.media.bytes (info.place fsbno * info.bsize) 24)) =
      { state with nextents := leaf.length, next := fsb2daddr info rightsib, fpos := 24 } := by
  have numrecs : le16 (areaOf (info.media.bytes (info.place fsbno * info.bsize) 24)) 6 =
      le16 (info.block fsbno) 6 := by
    apply le16_congr
    intro i inside
    exact header_byte fsbno (by omega)
  have sibling : le64 (areaOf (info.media.bytes (info.place fsbno * info.bsize) 24)) 16 =
      le64 (info.block fsbno) 16 := by
    apply le64_congr
    intro i inside
    exact header_byte fsbno (by omega)
  rw [leafEntered, numrecs, sibling, leafAt.numrecs, leafAt.rightsib]

/-- The state in a leaf from whose records that many have been taken. -/
structure InLeaf (state : XfsState) (fsbno : Nat) (leaf : List Xad) (taken rightsib : Nat) :
    Prop where
  btree : diFormat state.inode = xfsDinodeFmtBtree
  clean : state.errnum = .none
  daddr : state.daddr = fsb2daddr info fsbno
  nextents : state.nextents = leaf.length - taken
  fpos : state.fpos = 24 + 16 * taken
  next : state.next = fsb2daddr info rightsib

/-- One less than a positive number does not wrap. -/
theorem toUInt32_pred {count : Nat} (some_ : 0 < count) (high : count < 2 ^ 32) :
    toUInt32 (count - 1) = count - 1 := by
  have cast : (count : Int) - 1 = (count - 1 : Nat) := by omega
  rw [cast]
  exact toUInt32_of_range (by omega)

/-- The next record of a leaf. -/
theorem takeRecord_leaf (mounted : XfsMounted info) {fsbno rightsib taken : Nat} {leaf : List Xad}
    (leafAt : LeafAt info fsbno leaf rightsib)
    (inLeaf : @InLeaf info state fsbno leaf taken rightsib)
    (more : taken < leaf.length) :
    ∃ after, takeRecord info state = (after, leaf[taken]) ∧
      @InLeaf info after fsbno leaf (taken + 1) rightsib ∧ after.inode = state.inode := by
  have few : leaf.length < 2 ^ 16 := leafAt.numrecs ▸ le16_lt _ _
  have fits := leafAt.fits
  have delivered : xfsDevread info state (fsb2daddr info fsbno) (24 + 16 * taken : Nat) 16 =
      (state, some (info.media.bytes (info.place fsbno * info.bsize + (24 + 16 * taken)) 16)) :=
    @xfsDevread_blocks info state mounted fsbno 1 _ 16 leafAt.inReach.1 leafAt.inReach.2
      (by decide) (by omega) inLeaf.clean
  have record : xadAt (Area.fill state.filebuf (info.media.bytes
      (info.place fsbno * info.bsize + (24 + 16 * taken)) 16)) 0 = leaf[taken] := by
    rw [← (leafAt.records taken more).1]
    apply xadAt_congr
    intro i inside
    rw [Nat.zero_add]
    exact fill_bytes _ _ _ inside
  have counted : toUInt32 (state.nextents - 1) = leaf.length - (taken + 1) := by
    rw [toUInt32_pred (by rw [inLeaf.nextents]; omega) (by rw [inLeaf.nextents]; omega),
      inLeaf.nextents, Nat.sub_sub]
  rw [takeRecord, inLeaf.daddr, inLeaf.fpos, delivered]
  refine ⟨_, Prod.ext rfl record, ⟨inLeaf.btree, inLeaf.clean, inLeaf.daddr, counted, ?_,
    inLeaf.next⟩, rfl⟩
  exact Nat.add_assoc 24 (16 * taken) 16

/-- Within a leaf the records follow each other. -/
theorem nextExtent_inLeaf (mounted : XfsMounted info) {fsbno rightsib taken : Nat}
    {leaf : List Xad} (leafAt : LeafAt info fsbno leaf rightsib)
    (inLeaf : @InLeaf info state fsbno leaf taken rightsib)
    (more : taken < leaf.length) :
    ∃ after, nextExtent info state = some (after, some leaf[taken]) ∧
      @InLeaf info after fsbno leaf (taken + 1) rightsib ∧ after.inode = state.inode := by
  obtain ⟨after, takes, inLeaf', inode⟩ := takeRecord_leaf mounted leafAt inLeaf more
  have left : state.nextents ≠ 0 := by
    rw [inLeaf.nextents]
    omega
  refine ⟨after, ?_, inLeaf', inode⟩
  rw [nextExtent, if_pos inLeaf.btree, if_neg left, takes]

/-- After the last record of a leaf comes the first of the next one. -/
theorem nextExtent_leafEnd (mounted : XfsMounted info) {fsbno rightsib rightsib' : Nat}
    {leaf leaf' : List Xad} (used : rightsib ≠ 0) (leafAt : LeafAt info rightsib leaf' rightsib')
    (inLeaf : @InLeaf info state fsbno leaf leaf.length rightsib)
    (nonempty : 0 < leaf'.length) :
    ∃ after, nextExtent info state = some (after, some leaf'[0]) ∧
      @InLeaf info after rightsib leaf' 1 rightsib' ∧ after.inode = state.inode := by
  have place : info.place rightsib ≠ 0 := by
    intro first
    obtain ⟨noGroup, noBlock⟩ := Nat.add_eq_zero_iff.mp first
    rcases Nat.mul_eq_zero.mp noGroup with zeroth | noBlocks
    · apply used
      rw [← Nat.div_add_mod rightsib (2 ^ info.agblklog), zeroth, noBlock, Nat.mul_zero]
    · exact absurd noBlocks (Nat.ne_of_gt mounted.agblocks)
  have inReach := leafAt.inReach
  have daddr : state.next ≠ 0 := by
    rw [inLeaf.next, fsb2daddr_place mounted]
    · exact Nat.mul_ne_zero place (Nat.ne_of_gt (Nat.two_pow_pos _))
    · have inRange := inReach.2
      rw [Nat.add_mul, Nat.one_mul] at inRange
      have positive := Nat.two_pow_pos info.bdlog
      omega
  have header := (@readHeader_block _ { state with daddr := state.next }) mounted inReach
    inLeaf.next inLeaf.clean none
  have entered : @InLeaf info { state with
      daddr := state.next, nextents := leaf'.length, next := fsb2daddr info rightsib', fpos := 24 }
      rightsib leaf' 0 rightsib' :=
    ⟨inLeaf.btree, inLeaf.clean, inLeaf.next, rfl, rfl, rfl⟩
  obtain ⟨after, takes, inLeaf', inode⟩ := takeRecord_leaf mounted leafAt entered nonempty
  have empty : state.nextents = 0 := inLeaf.nextents.trans (Nat.sub_self _)
  refine ⟨after, ?_, inLeaf', inode⟩
  rw [nextExtent, if_pos inLeaf.btree, if_pos empty, if_neg daddr, header]
  simp only [Option.map_some, leafEntered_leaf leafAt, takes]

/-- The rest of a leaf, and what is listed from its end on. -/
theorem lists_leaf (mounted : XfsMounted info) {fsbno rightsib : Nat} {leaf behind : List Xad}
    (leafAt : LeafAt info fsbno leaf rightsib)
    (atEnd : ∀ state, @InLeaf info state fsbno leaf leaf.length rightsib →
      Lists info state behind) (left taken : Nat) (count : taken + left = leaf.length)
    (state : XfsState) (inLeaf : @InLeaf info state fsbno leaf taken rightsib) :
    Lists info state (leaf.drop taken ++ behind) := by
  induction left generalizing taken state with
  | zero =>
      obtain rfl : taken = leaf.length := count
      rw [List.drop_length]
      exact atEnd state inLeaf
  | succ left inductionHypothesis =>
      have more : taken < leaf.length := by omega
      obtain ⟨after, next, inLeaf', inode⟩ := nextExtent_inLeaf mounted leafAt inLeaf more
      rw [List.drop_eq_getElem_cons more]
      exact ⟨after, next, inLeaf'.clean.trans inLeaf.clean.symm, inode,
        inductionHypothesis (taken + 1) (by omega) after inLeaf'⟩

/-- The leaves list their extents one after the other. -/
theorem lists_chain (mounted : XfsMounted info) {fsbno rightsib : Nat} {leaf : List Xad}
    (leafAt : LeafAt info fsbno leaf rightsib) {leaves : List (List Xad)}
    (chain : LeafChain info rightsib leaves) (state : XfsState)
    (inLeaf : @InLeaf info state fsbno leaf leaf.length rightsib) :
    Lists info state leaves.flatten := by
  induction leaves generalizing fsbno rightsib leaf state with
  | nil =>
      intro inline
      rw [inLeaf.btree] at inline
      exact absurd inline (by decide)
  | cons leaf' leaves inductionHypothesis =>
      obtain ⟨used, rightsib', leafAt', chain'⟩ := chain
      have nonempty := List.length_pos_of_ne_nil leafAt'.nonempty
      obtain ⟨after, next, inLeaf', inode⟩ :=
        nextExtent_leafEnd mounted used leafAt' inLeaf nonempty
      have rest := lists_leaf mounted leafAt' (inductionHypothesis leafAt' chain')
        (leaf'.length - 1) 1 (by omega) after inLeaf'
      have split : leaf' = leaf'[0] :: leaf'.drop 1 := by
        rw [← List.drop_eq_getElem_cons nonempty, List.drop_zero]
      rw [List.flatten_cons, split, List.cons_append]
      exact ⟨after, next, inLeaf'.clean.trans inLeaf.clean.symm, inode, rest⟩

/-- From the root's first pointer down to the first leaf. -/
theorem initBtree_leads (mounted : XfsMounted info) {fsbno first rightsib levels : Nat}
    {leaf : List Xad} (leads : LeadsDown info levels fsbno first)
    (leafAt : LeafAt info first leaf rightsib) (btree : diFormat state.inode = xfsDinodeFmtBtree)
    (clean : state.errnum = .none) (h : Option Buffer) :
    ∃ after, initBtree info (levels + 1) state fsbno h = some after ∧
      @InLeaf info after first leaf 0 rightsib ∧ after.inode = state.inode := by
  induction levels generalizing fsbno state h with
  | zero =>
      obtain rfl : fsbno = first := leads
      have header := (@readHeader_block _ { state with daddr := fsb2daddr info fsbno })
        mounted leafAt.inReach rfl clean h
      have level : le16 (areaOf (info.media.bytes (info.place fsbno * info.bsize) 24)) 4 = 0 := by
        rw [← leafAt.level]
        exact header_level fsbno
      rw [initBtree, header]
      simp only [Option.bind_some, level, if_true, leafEntered_leaf leafAt]
      exact ⟨_, rfl, ⟨btree, clean, rfl, rfl, rfl, rfl⟩, rfl⟩
  | succ levels inductionHypothesis =>
      obtain ⟨inReach, index, leads⟩ := leads
      have header := (@readHeader_block _ { state with daddr := fsb2daddr info fsbno })
        mounted inReach rfl clean h
      have level : le16 (areaOf (info.media.bytes (info.place fsbno * info.bsize) 24)) 4 ≠ 0 := by
        rw [header_level fsbno]
        exact index
      have fits : info.btnodePtr0Off + 8 ≤ 1 * info.bsize := by
        rw [Nat.one_mul]
        exact btnodePtr0Off_fits mounted
      have delivered : xfsDevread info { state with daddr := fsb2daddr info fsbno }
          (fsb2daddr info fsbno) info.btnodePtr0Off 8 = ({ state with daddr := fsb2daddr info fsbno },
            some (info.media.bytes (info.place fsbno * info.bsize + info.btnodePtr0Off) 8)) :=
        @xfsDevread_blocks info { state with daddr := fsb2daddr info fsbno } mounted fsbno 1 _ 8
          inReach.1 inReach.2 (by decide) fits clean
      have pointer : le64 (areaOf (info.media.bytes
          (info.place fsbno * info.bsize + info.btnodePtr0Off) 8)) 0 =
          le64 (info.block fsbno) info.btnodePtr0Off := by
        apply le64_congr
        intro i inside
        rw [Nat.zero_add]
        exact fill_bytes (fun _ => 0) _ _ inside
      obtain ⟨after, runs, inLeaf, inode⟩ :=
        @inductionHypothesis { state with daddr := fsb2daddr info fsbno } _
        leads btree clean
        (some (areaOf (info.media.bytes (info.place fsbno * info.bsize) 24)))
      refine ⟨after, ?_, inLeaf, inode⟩
      rw [initBtree, header]
      simp only [Option.bind_some, level, if_false, delivered, Option.map_some, Option.getD_some,
        pointer]
      exact runs

/-- The records from `xt` on are listed, and the list ends with them. -/
theorem lists_inline {xads : List Xad} (inline : diFormat state.inode = xfsDinodeFmtExtents)
    (few : xads.length < 2 ^ 32) (nextents : state.nextents = xads.length)
    (records : RecordsAt state.inode state.xt xads) : Lists info state xads := by
  have notBtree : diFormat state.inode ≠ xfsDinodeFmtBtree := by
    rw [inline]
    decide
  induction xads generalizing state with
  | nil =>
      intro _
      rw [nextExtent, if_neg notBtree, if_pos ⟨inline, nextents⟩]
  | cons xad xads inductionHypothesis =>
      rw [List.length_cons] at few nextents
      have more : ¬ (diFormat state.inode = xfsDinodeFmtExtents ∧ state.nextents = 0) := by
        intro both
        omega
      have first : xadAt state.inode state.xt = xad := (records 0 (Nat.succ_pos _)).1
      have counted : toUInt32 (state.nextents - 1) = xads.length := by
        rw [nextents, toUInt32_pred (Nat.succ_pos _) few]
        rfl
      refine ⟨(takeInline state).1, ?_, rfl, rfl, ?_⟩
      · rw [nextExtent, if_neg notBtree, if_neg more]
        simp only [takeInline, first]
      · apply @inductionHypothesis (takeInline state).1 inline (by omega) counted
        · intro i inside
          have record := records (i + 1) (Nat.succ_lt_succ inside)
          rw [Nat.mul_add, Nat.mul_one, Nat.add_comm (16 * i), ← Nat.add_assoc] at record
          exact record
        · exact notBtree

/-- The root pointer is where `di_read` looks for it, unless there is an attribute fork. -/
theorem inodeRead_ptr0 (mounted : XfsMounted info) {inode : Buffer}
    (noFork : diForkoff inode = 0) (state : XfsState) :
    (inodeRead info state inode).ptr0 = rootPointer info inode := by
  have size := mounted.inodes
  rw [diU] at size
  have notForked : ¬ diForkoff inode ≠ 0 := not_not.mpr noFork
  have room : (info.isize + 2 ^ 64 - 4 - diU) % 2 ^ 64 = info.isize - diU - 4 := by
    rw [diU]
    omega
  have records : btrootMaxrecs info inode = (info.isize - diU - 4) / 16 := by
    rw [btrootMaxrecs, if_neg notForked, room]
  have place : (diU + 4 + (info.isize - diU - 4) / 16 * 8) % 2 ^ 32 =
      diU + 4 + (info.isize - diU - 4) / 16 * 8 := by
    apply Nat.mod_eq_of_lt
    rw [diU]
    omega
  rw [rootPointer, forkSize, if_neg notForked, ← place, ← records]
  rfl

/-- The inode has a b-tree and an attribute fork, whose size `btroot_maxrecs` takes for
that of the inode. -/
def RootBehindFork (inode : Buffer) : Prop :=
  diFormat inode = xfsDinodeFmtBtree ∧ diForkoff inode ≠ 0

/-- The extents in the inode are listed, whatever the levels. -/
theorem initExtents_inline {inode : Buffer} {xads : List Xad}
    (inline : diFormat inode = xfsDinodeFmtExtents) (nextents : diNextents inode = xads.length)
    (records : RecordsAt inode diU xads) (clean : state.errnum = .none) (levels : Nat) :
    ∃ after, initExtents info levels (inodeRead info state inode) = some after ∧
      after.errnum = .none ∧ after.inode = inode ∧ Lists info after xads := by
  refine ⟨{ inodeRead info state inode with xt := diU, nextents := diNextents inode }, ?_, clean,
    rfl, ?_⟩
  · rw [initExtents]
    exact if_pos inline
  · exact lists_inline inline (nextents ▸ le32_lt _ _) nextents records

/-- `init_extents` and `next_extent` list the extents of a file. -/
theorem initExtents_lists (mounted : XfsMounted info) {inode : Buffer} {xads : List Xad}
    (extentsOf : ExtentsOf info inode xads) (noFork : ¬ RootBehindFork inode)
    (clean : state.errnum = .none) :
    ∃ levels after, initExtents info levels (inodeRead info state inode) = some after ∧
      after.errnum = .none ∧ after.inode = inode ∧ Lists info after xads := by
  rcases extentsOf with ⟨inline, nextents, records⟩ | ⟨btree, levels, first, leaves, leads, chain,
    some_, rfl⟩
  · exact ⟨0, initExtents_inline inline nextents records clean 0⟩
  · have root := inodeRead_ptr0 mounted (not_not.mp fun forked => noFork ⟨btree, forked⟩) state
    cases leaves with
    | nil => exact absurd rfl some_
    | cons leaf leaves =>
        obtain ⟨used, rightsib, leafAt, chain⟩ := chain
        obtain ⟨after, runs, inLeaf, same⟩ := (@initBtree_leads _ (inodeRead info state inode))
          mounted leads leafAt btree clean none
        have listed := lists_leaf mounted leafAt (lists_chain mounted leafAt chain) leaf.length 0
          (Nat.zero_add _) after inLeaf
        refine ⟨levels + 1, after, ?_, inLeaf.clean, same, listed⟩
        rw [initExtents, root]
        have notInline : diFormat inode ≠ xfsDinodeFmtExtents := by
          rw [btree]
          decide
        exact (if_neg notInline).trans ((if_pos btree).trans runs)

end

end GrubLegacy.Fsys
