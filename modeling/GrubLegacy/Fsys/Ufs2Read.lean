import GrubLegacy.Fsys.FfsRuns

/-!
# The reads of UFS2

`ufs2_mount`, and what the steps of `ufs2_dir` and `ufs2_read` do behind it. A file is read right
unless it has holes or the window of the indirect block has to start behind the indirect block's
first pointer: a pointer has 8 bytes, and the offset of the window is in units of 4.
-/

namespace GrubLegacy.Fsys.Ufs

open Base Stage2 DiskIo
open GrubLegacy.Partition (Buffer)

/-! ## The format -/

/-- The superblock of UFS2. -/
def ufs2SuperOf (buf : Buffer) : FsSuper where
  fsBsize := toInt32 (buf.word32 48)
  fsBshift := toInt32 (buf.word32 80)
  fsQbmask := toInt64 (buf.word64 1336)
  fsQfmask := toInt64 (buf.word64 1344)
  fsFmask := toInt32 (buf.word32 76)
  fsFsbtodb := toInt32 (buf.word32 100)
  fsNindir := toInt32 (buf.word32 116)

/-- The `struct ufs2_dinode` has pointers of 64 bits. -/
def ufs2 : FsFormat where
  pointerSize := 8
  pointerAt buf i := toInt64 (buf.word64 i)
  sizeBits := 64
  superOf := ufs2SuperOf
  inodeSize := 256
  diSize inode := inode.word64 16
  diDb := 112
  diIb := 208

/-- FS_UFS2_MAGIC -/
def fsUfs2Magic : Nat := 0x19540119

/-- `sblock_try` -/
def sblockTry : List Nat := [65536, 8192, 0, 262144]

section

variable (media : PartitionMedia)

/-- The superblock is looked for at a place. The place is in bytes, the length in sectors. -/
def trySuperblock (state : FsState) (place : Nat) : FsState × Bool :=
  if media.partLength < place + sblockSize / 512 then (state, false)
  else
    superblockRead fsUfs2Magic state
      (PartitionMedia.readDone state.errnum (media.devread 0 place sblockSize))

def searchSuperblock (state : FsState) : List Nat → FsState × Bool
  | [] => (state, false)
  | place :: places =>
    let tried := trySuperblock media state place
    if tried.2 then tried else searchSuperblock tried.1 places

/-- `ufs2_mount`; `mapblock_bsize` stays as it is. -/
def ufs2Mount (currentDrive currentSlice : Nat) (state : FsState) : FsState × Bool :=
  let found :=
    if (currentDrive &&& 0x80 ≠ 0 ∨ currentSlice ≠ 0) ∧ ¬ isPcSliceTypeBsdFfs currentSlice then
      (state, false)
    else searchSuperblock media state sblockTry
  ({ found.1 with mapblock := -1, mapblockOffset := -1 }, found.2)

/-! ## The window -/

/-- A window that is kept starts at the first pointer. -/
def WindowWhole (state : FsState) : Prop :=
  0 < state.mapblock → state.mapblockOffset = 0 ∧ state.mapblockBsize = windowSize ufs2 state

/-- The blocks from one to another can be mapped in turn: no window has to start behind the first
pointer of the indirect block, and none is loaded again. -/
def MapsInWindow (state : FsState) (first last : Nat) : Prop :=
  last < ndaddr ∨
    (Reach media (ufs2.superOf state.superblock) (ufs2.pointerAt state.inode ufs2.diIb)
        (windowSize ufs2 state) ∧
      ((last - ndaddr : Nat) : Int) < (ufs2.superOf state.superblock).fsNindir ∧
      ((ufs2.superOf state.superblock).fsBsize ≤ mapbufLen ∨ last = ndaddr ∨
        (last - ndaddr < mapbufLen / 8 ∧ (mapbufLen : Int) < mapSector ufs2 state ∧
          (first ≤ ndaddr ∨ state.mapblock = mapSector ufs2 state))))

end

/-- The format of UFS2 is a lawful one. -/
theorem ufs2_lawful : ufs2.Lawful where
  large := by decide
  sizes := by decide
  inodes := by decide
  congr buf buf' i j same := by
    have first := same 0 (by decide)
    rw [Nat.add_zero, Nat.add_zero] at first
    simp only [ufs2, Area.word64, Area.word32, Area.word16, Area.byte, Nat.add_assoc,
      Nat.reduceAdd, first, same 1 (by decide), same 2 (by decide), same 3 (by decide),
      same 4 (by decide), same 5 (by decide), same 6 (by decide), same 7 (by decide)]

section

variable {media : PartitionMedia} {state : FsState} {superblock : Buffer}
  {blockBits fragBits first last n : Nat}

/-- The window for a block of a range starts at the first pointer. -/
theorem windowOf_range
    (consistent : Consistent media ufs2 (ufs2.superOf state.superblock) blockBits fragBits)
    (whole : WindowWhole state) (maps : MapsInWindow media state first last) (indirect : ndaddr ≤ first)
    (ordered : first ≤ last) :
    windowOf ufs2 state (first - ndaddr : Nat) = (0, (windowSize ufs2 state : Int)) := by
  obtain ⟨reach, -, cases_⟩ := maps.resolve_left (Nat.not_lt.mpr (Nat.le_trans indirect ordered))
  have isSector := mapSector_pos reach
  have size : (windowSize ufs2 state : Int) =
      min (ufs2.superOf state.superblock).fsBsize (mapbufLen : Int) := by
    rw [windowSize, consistent.bsize, Int.toNat_natCast]
    omega
  rw [windowOf]
  split
  next reloads =>
    rw [windowFor]
    split
    next large =>
      have atStart : first = ndaddr := by
        rcases cases_ with small | only | ⟨-, high, start | same⟩
        · exact absurd large (Int.not_lt.mpr small)
        · omega
        · omega
        · have window := whole (same ▸ isSector)
          rcases reloads with other | ⟨-, upper⟩
          · exact absurd same.symm other
          · rw [window.1, window.2, size, Int.min_eq_right (Int.le_of_lt large)] at upper
            omega
      subst atStart
      rw [Nat.sub_self, if_neg (by omega), size, Int.min_eq_right (Int.le_of_lt large)]
      rfl
    next small =>
      rw [size, Int.min_eq_left (Int.not_lt.mp small)]
  next stays =>
    have isMapped := Classical.not_not.mp (not_or.mp stays).1
    obtain ⟨offset, bytes⟩ := whole (isMapped ▸ isSector)
    rw [offset, bytes]

/-- A block of the window's range is mapped correctly. -/
theorem mapOk_range
    (consistent : Consistent media ufs2 (ufs2.superOf state.superblock) blockBits fragBits)
    (whole : WindowWhole state) (maps : MapsInWindow media state first last)
    (ordered : first ≤ last) : MapOk media ufs2 state first := by
  rcases Nat.lt_or_ge first ndaddr with direct | indirect
  · exact .inl direct
  · have window := windowOf_range consistent whole maps indirect ordered
    obtain ⟨reach, few, cases_⟩ := maps.resolve_left (Nat.not_lt.mpr (Nat.le_trans indirect ordered))
    refine .inr ⟨?_, ?_, ?_⟩
    · have size : 4 * (0 : Int).toNat + (windowSize ufs2 state : Int).toNat = windowSize ufs2 state := by
        rw [Int.toNat_natCast, Int.toNat_zero, Nat.mul_zero, Nat.zero_add]
      rw [window, size]
      exact reach
    · exact Int.lt_of_le_of_lt (by omega) few
    · rw [window]
      refine ⟨.inr rfl, Int.natCast_nonneg _, ?_⟩
      have pointers := Nat.div_mul_le_self (2 ^ blockBits) 8
      rw [consistent.nindir, show ufs2.pointerSize = 8 from rfl] at few
      rw [windowSize, consistent.bsize, Int.toNat_natCast, show ufs2.pointerSize = 8 from rfl]
      rw [consistent.bsize] at cases_
      have length : mapbufLen = 8192 := rfl
      omega

/-- A read keeps the window whole. -/
theorem WindowWhole.after {after : FsState}
    (consistent : Consistent media ufs2 (ufs2.superOf state.superblock) blockBits fragBits)
    (whole : WindowWhole state) (maps : MapsInWindow media state first last) (ordered : first ≤ last)
    (kept : Kept state after) (windowed : Windowed ufs2 state first after) : WindowWhole after := by
  rcases windowed with ⟨-, rfl⟩ | ⟨indirect, -, window⟩
  · exact whole
  · intro _
    rw [windowOf_range consistent whole maps indirect ordered] at window
    obtain ⟨offset, size⟩ := Prod.mk.inj window
    rw [windowSize, kept.superblock]
    exact ⟨offset, size⟩

/-- The rule of the window. -/
theorem ufs2_rule
    (consistent : Consistent media ufs2 (ufs2.superOf superblock) blockBits fragBits) :
    MapRule media ufs2 superblock WindowWhole (MapsInWindow media) where
  mapOk state first last same whole maps ordered := by
    rw [← same] at consistent
    exact mapOk_range consistent whole maps ordered
  keeps state first last after filepos same whole maps ordered kept windowed := by
    rw [← same] at consistent
    have keeps := whole.after consistent maps ordered kept windowed
    exact keeps
  goesOn state first last after next filepos same whole maps kept windowed low upper inFile := by
    have superblock := kept.superblock
    have inode := kept.inode
    rcases maps with direct | ⟨reach, few, cases_⟩
    · exact .inl direct
    · have sector : mapSector ufs2 { after with filepos } = mapSector ufs2 state := by
        show fsbtodb (ufs2.superOf after.superblock) (ufs2.pointerAt after.inode ufs2.diIb) = _
        rw [superblock, inode]
        rfl
      refine .inr ⟨?_, ?_, ?_⟩
      · show Reach media (ufs2.superOf after.superblock) (ufs2.pointerAt after.inode ufs2.diIb)
          (min (ufs2.superOf after.superblock).fsBsize.toNat mapbufLen)
        rw [superblock, inode]
        exact reach
      · show ((last - ndaddr : Nat) : Int) < (ufs2.superOf after.superblock).fsNindir
        rw [superblock]
        exact few
      · show (ufs2.superOf after.superblock).fsBsize ≤ mapbufLen ∨ _
        rw [superblock, sector]
        refine cases_.imp_right (Or.imp_right fun ⟨near, high, start⟩ => ⟨near, high, ?_⟩)
        rcases windowed with ⟨direct, -⟩ | ⟨-, isMapped, -⟩
        · exact .inl (by omega)
        · exact .inr isMapped
  seek _ _ whole := whole
  seekMaps _ _ _ _ maps := maps
  stored state buf whole same isMapped := by
    obtain ⟨offset, size⟩ := whole isMapped
    refine ⟨offset, size.trans ?_⟩
    rw [windowSize, windowSize, ← same]
    rfl

/-! ## Runs -/

/-- A read of a superblock leaves no error. -/
theorem trySuperblock_clear
    (reads : ∀ sector byteOffset byteLen, media.fails sector byteOffset byteLen = none)
    (sectors : 9 ≤ media.sectorBits) (clear : state.errnum = .none) {place : Nat}
    (near : place < 2 ^ 20) : (trySuperblock media state place).1.errnum = .none := by
  rw [trySuperblock]
  split
  · exact clear
  next fits =>
    have large : 2 ^ 9 ≤ media.sectorSize := Nat.pow_le_pow_right (by decide) sectors
    have final : (place + sblockSize - 1) / media.sectorSize < place + sblockSize / 512 := by
      rw [Nat.div_lt_iff_lt_mul (sectorSize_pos media.toSectorMedia)]
      have size : sblockSize = 8192 := rfl
      refine Nat.lt_of_lt_of_le ?_ (Nat.mul_le_mul_left _ large)
      omega
    have size : sblockSize / 512 = 16 := rfl
    have read := @devread_inside media 0 place sblockSize (reads _ _ _) (by decide) (by omega)
      (by omega)
    rw [show ((0 : Nat) : Int) = 0 from rfl] at read
    rw [read, clear]
    rfl

/-- The search for the super block leaves no error on a disk that reads. -/
theorem searchSuperblock_clear
    (reads : ∀ sector byteOffset byteLen, media.fails sector byteOffset byteLen = none)
    (sectors : 9 ≤ media.sectorBits) {places : List Nat} (near : ∀ place ∈ places, place < 2 ^ 20)
    (clear : state.errnum = .none) : (searchSuperblock media state places).1.errnum = .none := by
  induction places generalizing state with
  | nil => exact clear
  | cons place places inductionHypothesis =>
      have here := trySuperblock_clear reads sectors clear (near place List.mem_cons_self)
      rw [searchSuperblock]
      split
      · exact here
      · exact inductionHypothesis (fun other later => near other (List.mem_cons_of_mem _ later)) here

/-- Behind a mount nothing has been read yet. -/
theorem mounted_ufs2Mount
    (reads : ∀ sector byteOffset byteLen, media.fails sector byteOffset byteLen = none)
    (sectors : 9 ≤ media.sectorBits) {currentDrive currentSlice : Nat} {start : FsState}
    (clear : start.errnum = .none)
    (mounts : ufs2Mount media currentDrive currentSlice start = (state, true)) :
    Mounted media WindowWhole state.superblock state := by
  have found : (ufs2Mount media currentDrive currentSlice start).1 = state := by rw [mounts]
  have mapblock : state.mapblock = -1 := by
    rw [← found]
    rfl
  have errnum : state.errnum = .none := by
    rw [← found, ufs2Mount]
    dsimp only
    split
    · exact clear
    · exact searchSuperblock_clear reads sectors (by decide) clear
  refine ⟨⟨errnum, fun isMapped => ?_⟩, fun isMapped => ?_, rfl⟩
  · exact absurd isMapped (by omega)
  · exact absurd isMapped (by omega)

/-- Behind a mount every step that meets its condition gives the bytes of the file and the
pointers of its inode, and keeps the superblock and the inode. -/
theorem ufs2_serves
    (reads : ∀ sector byteOffset byteLen, media.fails sector byteOffset byteLen = none)
    (sectors : 9 ≤ media.sectorBits) {currentDrive currentSlice : Nat} {start mounted : FsState}
    (clear : start.errnum = .none)
    (mounts : ufs2Mount media currentDrive currentSlice start = (mounted, true))
    (consistent : Consistent media ufs2 (ufs2.superOf mounted.superblock) blockBits fragBits)
    {ops : List FsOp}
    (run : Along (fsStep media ufs2) (FsMay media ufs2 (MapsInWindow media)) mounted ops) :
    Along (fsStep media ufs2) (FsServes media ufs2) mounted ops := by
  exact fs_run (mounted_ufs2Mount reads sectors clear mounts)
    ⟨ufs2_lawful, reads, consistent, ufs2_rule consistent⟩ run

end

/-! ### A file with a hole -/

/-- A file system of blocks of 8192 bytes, with a file that is a hole, and one of which the last
direct block and the first indirect one are there. -/
def holeMedia : PartitionMedia where
  content
    | 49 => 0x20
    | 77 => 0xfe
    | 78 | 79 | 1336 | 1344 => 0xff
    | 80 => 13
    | 117 => 4
    | 1337 => 0x1f
    | 1345 | 1373 => 1
    | 1372 | 1375 => 0x19
    | 1374 => 0x54
    | 8208 => 50
    | 8720 => 0x64
    | 8721 => 0x80
    | 8722 => 1
    | 8904 => 20
    | 8912 => 36
    | 18432 => 52
    | _ => 0
  partLength := 128
  sectorBits := 9
  fails _ _ _ := none

def holeMounted : FsState := (ufs2Mount holeMedia 0x80 0x7a5 unmounted).1

/-- The inodes of the two files are read. -/
def longFile : FsState := fsStep holeMedia ufs2 holeMounted (.inode 17 0)

def holeFile : FsState := fsStep holeMedia ufs2 holeMounted (.inode 16 0)

/-- What the functions compute on this disk, in one evaluation. -/
theorem holeMedia_run :
    (ufs2Mount holeMedia 0x80 0x7a5 unmounted).2 = true ∧
      ufs2.superOf holeMounted.superblock = smallSuper 1024 ∧
      (ufs2.diSize longFile.inode = 98404 ∧ ufs2.pointerAt longFile.inode ufs2.diIb = 36 ∧
        pointerOf holeMedia ufs2 (smallSuper 1024) longFile.inode 11 = 20 ∧
        pointerOf holeMedia ufs2 (smallSuper 1024) longFile.inode 12 = 52) ∧
      (ufs2.diSize holeFile.inode = 50 ∧ ufs2.pointerAt holeFile.inode ufs2.diDb = 0 ∧
        ufs2.pointerAt holeFile.inode ufs2.diIb = 0) := by
  decide +kernel

/-- The small file system is mounted. -/
theorem holeMedia_mounts : ufs2Mount holeMedia 0x80 0x7a5 unmounted = (holeMounted, true) :=
  Prod.ext rfl holeMedia_run.1

/-- Its super block is the one on the disk, -/
theorem holeMounted_super : ufs2.superOf holeMounted.superblock = smallSuper 1024 :=
  holeMedia_run.2.1

/-- and a consistent one. -/
theorem holeMounted_consistent :
    Consistent holeMedia ufs2 (ufs2.superOf holeMounted.superblock) 13 9 := by
  rw [holeMounted_super]
  constructor <;> decide

/-- The inode that is read keeps it. -/
theorem holeMounted_inode {sector : Nat} (inPart : InodeOk holeMedia ufs2 sector 0) :
    ufs2.superOf (fsStep holeMedia ufs2 holeMounted (.inode sector 0)).superblock = smallSuper 1024 := by
  have mounted := mounted_ufs2Mount (fun _ _ _ => rfl) (by decide) rfl holeMedia_mounts
  exact (superOf_inode mounted ⟨ufs2_lawful, fun _ _ _ => rfl, holeMounted_consistent,
    ufs2_rule holeMounted_consistent⟩ inPart).trans holeMounted_super

/-- The long file may be read from the last direct block on, -/
theorem longFile_may : FsMay holeMedia ufs2 (MapsInWindow holeMedia) longFile
    (.read 98300 (fun _ => 0) 104) := by
  obtain ⟨size, table, direct, indirect⟩ := holeMedia_run.2.2.1
  have super : ufs2.superOf longFile.superblock = smallSuper 1024 :=
    @holeMounted_inode 17 ⟨by decide, by decide⟩
  apply fsMay_across super (by decide) size
  · rw [MapsInWindow, windowSize, super, table]
    exact .inr ⟨by unfold Reach; decide +kernel, by decide, .inl (by decide)⟩
  · rw [BlockOk, direct, size]
    unfold Reach
    decide
  · rw [BlockOk, indirect, size]
    unfold Reach
    decide

/-- so its bytes come from there and from behind the indirect block, -/
theorem ufs2_serves_across : Along (fsStep holeMedia ufs2) (FsServes holeMedia ufs2) holeMounted
    [.inode 17 0, .read 98300 (fun _ => 0) 104] :=
  ufs2_serves (fun _ _ _ => rfl) (by decide) rfl holeMedia_mounts holeMounted_consistent
    ⟨⟨by decide, by decide⟩, longFile_may, trivial⟩

/-- and the other one asks for its hole. -/
theorem holeFile_asks : FsAsks holeMedia ufs2 holeFile (.read 0 (fun _ => 0) 50) := by
  obtain ⟨size, pointer, indirect⟩ := holeMedia_run.2.2.2
  exact fsAsks_hole (@holeMounted_inode 16 ⟨by decide, by decide⟩) size indirect pointer

/-- In a hole a read gives the bytes of the first sector. -/
theorem ufs2_reads_first_sector :
    ¬ ∀ (media : PartitionMedia) (currentDrive currentSlice : Nat) (start mounted : FsState)
      (blockBits fragBits : Nat) (ops : List FsOp),
      (∀ sector byteOffset byteLen, media.fails sector byteOffset byteLen = none) →
      9 ≤ media.sectorBits → start.errnum = .none →
      ufs2Mount media currentDrive currentSlice start = (mounted, true) →
      Consistent media ufs2 (ufs2.superOf mounted.superblock) blockBits fragBits →
      Along (fsStep media ufs2) (FsAsks media ufs2) mounted ops →
      Along (fsStep media ufs2) (FsServes media ufs2) mounted ops := by
  intro claimed
  have along := claimed holeMedia 0x80 0x7a5 unmounted holeMounted 13 9
    [.inode 16 0, .read 0 (fun _ => 0) 50] (fun _ _ _ => rfl) (by decide) rfl holeMedia_mounts
    holeMounted_consistent ⟨⟨by decide, by decide⟩, holeFile_asks, trivial⟩
  rw [along_cons, along_cons, ← holeFile] at along
  have serves := And.left (And.right along)
  have zero := serves.hole (@holeMounted_inode 16 ⟨by decide, by decide⟩) holeMedia_run.2.2.2.2.1
  have read : (fsRead holeMedia ufs2 { holeFile with filepos := (0 : Nat) } (fun _ => 0)
      (50 : Nat)).buf 49 = 0x20 := by
    decide +kernel
  dsimp only at read
  exact absurd (read.symm.trans zero) (by decide)

end GrubLegacy.Fsys.Ufs
