import GrubLegacy.Fsys.FfsRuns

/-!
# The reads of FFS

`ffs_mount`, and what the steps of `ffs_dir` and `ffs_read` do behind it. Where blocks are larger
than MAPBUF the window starts at the pointer it was loaded for; it is loaded again when the sector
of the indirect block, and not the pointer, is in the place where the window is.
-/

namespace GrubLegacy.Fsys.Ufs

open Base Stage2 DiskIo
open GrubLegacy.Partition (Buffer)

/-! ## The format -/

/-- The superblock of FFS; `blkoff` and `fragroundup` use the complement of `fs_bmask` and
`fs_fsize` less 1. -/
def ffsSuperOf (buf : Buffer) : FsSuper where
  fsBsize := toInt32 (buf.word32 48)
  fsBshift := toInt32 (buf.word32 80)
  fsQbmask := -toInt32 (buf.word32 72) - 1
  fsQfmask := toInt32 (buf.word32 52) - 1
  fsFmask := toInt32 (buf.word32 76)
  fsFsbtodb := toInt32 (buf.word32 100)
  fsNindir := toInt32 (buf.word32 116)

/-- The `struct dinode` has pointers of 32 bits. -/
def ffs : FsFormat where
  pointerSize := 4
  pointerAt buf i := toInt32 (buf.word32 i)
  sizeBits := 32
  superOf := ffsSuperOf
  inodeSize := 128
  diSize inode := inode.word32 8
  diDb := 40
  diIb := 88

/-- FS_MAGIC -/
def ffsMagic : Nat := 0x011954

/-- SBLOCK -/
def sblock : Nat := 16

section

variable (media : PartitionMedia)

/-- `ffs_mount`; `mapblock_bsize` stays as it is. -/
def ffsMount (currentDrive currentSlice : Nat) (state : FsState) : FsState × Bool :=
  let found :=
    if (currentDrive &&& 0x80 ≠ 0 ∨ currentSlice ≠ 0) ∧ ¬ isPcSliceTypeBsdFfs currentSlice then
      (state, false)
    else if media.partLength < sblock + sblockSize / 512 then (state, false)
    else
      superblockRead ffsMagic state
        (PartitionMedia.readDone state.errnum (media.devread sblock 0 sblockSize))
  ({ found.1 with mapblock := -1, mapblockOffset := -1 }, found.2)

/-! ## The window -/

/-- The pointers of a window. -/
def windowPointers : Nat := 2048

/-- A window that is kept has the size of one, and the whole of a small block. -/
def WindowKept (state : FsState) : Prop :=
  0 < state.mapblock → 0 ≤ state.mapblockOffset ∧
    state.mapblockBsize = windowSize ffs state ∧
    ((ffs.superOf state.superblock).fsBsize ≤ mapbufLen → state.mapblockOffset = 0)

/-- The sector of the indirect block is where the pointers of a window are counted. -/
def LoadsAgain (state : FsState) (index : Nat) : Prop :=
  (index : Int) ≤ mapSector ffs state ∧ mapSector ffs state ≤ index + mapbufLen

/-- The pointers from one index to another are found in the window. A window that is loaded for
an index starts there, and it is loaded again for every pointer as long as the sector of the
indirect block is in its place; a window that is not loaded again has all that follow. -/
structure WindowCovers (state : FsState) (first last : Nat) : Prop where
  again : Reloads state (mapSector ffs state) → LoadsAgain state first →
    (last : Int) < mapSector ffs state + 1 + windowPointers
  once : Reloads state (mapSector ffs state) → ¬ LoadsAgain state first →
    last < first + windowPointers
  stays : ¬ Reloads state (mapSector ffs state) →
    state.mapblockOffset ≤ first ∧ (last : Int) < state.mapblockOffset + windowPointers

/-- Where the window of a range starts. -/
def windowStart (state : FsState) (first : Nat) : Int :=
  if Reloads state (mapSector ffs state) then (first : Int) else state.mapblockOffset

/-- The blocks from one to another can be mapped in turn. -/
def MapsByWindow (state : FsState) (first last : Nat) : Prop :=
  last < ndaddr ∨
    (((last - ndaddr : Nat) : Int) < (ffs.superOf state.superblock).fsNindir ∧
      ((ffs.superOf state.superblock).fsBsize ≤ mapbufLen ∧
          Reach media (ffs.superOf state.superblock) (ffs.pointerAt state.inode ffs.diIb)
            (windowSize ffs state) ∨
        (mapbufLen : Int) < (ffs.superOf state.superblock).fsBsize ∧
          Reach media (ffs.superOf state.superblock) (ffs.pointerAt state.inode ffs.diIb)
            (4 * (last - ndaddr) + mapbufLen) ∧
          WindowCovers state (first - ndaddr) (last - ndaddr)))

end

/-- The format of FFS is a lawful one. -/
theorem ffs_lawful : ffs.Lawful where
  large := by decide
  sizes := by decide
  inodes := by decide
  congr buf buf' i j same := by
    have first := same 0 (by decide)
    rw [Nat.add_zero, Nat.add_zero] at first
    simp only [ffs, Area.word32, Area.word16, Area.byte, Nat.add_assoc, Nat.reduceAdd,
      first, same 1 (by decide), same 2 (by decide), same 3 (by decide)]

/-- Fewer bytes lie in the partition when more do. -/
theorem Reach.less {media : PartitionMedia} {super : FsSuper} {p : Int} {size size' : Nat}
    (reach : Reach media super p size) (less : size' ≤ size) : Reach media super p size' := by
  obtain ⟨some_, inPart, inRange⟩ := reach
  have earlier : (size' - 1) / media.sectorSize ≤ (size - 1) / media.sectorSize :=
    Nat.div_le_div_right (Nat.sub_le_sub_right less 1)
  exact ⟨some_, Nat.lt_of_le_of_lt (Nat.add_le_add_left earlier _) inPart,
    Nat.lt_of_le_of_lt (Nat.add_le_add_left earlier _) inRange⟩

section

variable {media : PartitionMedia} {state : FsState} {superblock : Buffer}
  {blockBits fragBits first last : Nat}

/-- The window is as large as a block or as its buffer. -/
theorem windowSize_eq
    (consistent : Consistent media ffs (ffs.superOf state.superblock) blockBits fragBits) :
    (windowSize ffs state : Int) =
      min (ffs.superOf state.superblock).fsBsize (mapbufLen : Int) := by
  rw [windowSize, consistent.bsize, Int.toNat_natCast]
  omega

/-- The window of a small block. -/
theorem windowOf_small
    (consistent : Consistent media ffs (ffs.superOf state.superblock) blockBits fragBits)
    (kept : WindowKept state) (isSector : 0 < mapSector ffs state)
    (small : (ffs.superOf state.superblock).fsBsize ≤ mapbufLen) (index : Nat) :
    windowOf ffs state index = (0, (windowSize ffs state : Int)) := by
  rw [windowOf]
  split
  next reloads =>
    rw [windowFor, if_neg (Int.not_lt.mpr small), windowSize_eq consistent, Int.min_eq_left small]
  next stays =>
    have isMapped := Classical.not_not.mp (not_or.mp stays).1
    obtain ⟨-, size, start⟩ := kept (isMapped ▸ isSector)
    rw [start small, size]

/-- The window of a large block. -/
theorem windowOf_large
    (consistent : Consistent media ffs (ffs.superOf state.superblock) blockBits fragBits)
    (kept : WindowKept state) (isSector : 0 < mapSector ffs state)
    (large : (mapbufLen : Int) < (ffs.superOf state.superblock).fsBsize) {index : Nat}
    (few : (index : Int) < (ffs.superOf state.superblock).fsNindir) :
    windowOf ffs state index =
      (windowStart state index, (mapbufLen : Int)) := by
  rw [windowOf, windowStart]
  split
  next reloads =>
    have bits : 13 < blockBits := by
      rw [consistent.bsize] at large
      exact (Nat.pow_lt_pow_iff_right (by decide)).mp (Int.ofNat_lt.mp large)
    have wide : 2 ^ 14 ≤ 2 ^ blockBits := Nat.pow_le_pow_right (by decide) bits
    -- The index is counted as if it were a byte: it never comes near the end of the block.
    have inside : ¬ (ffs.superOf state.superblock).fsBsize < (index : Int) + mapbufLen := by
      rw [consistent.nindir, show ffs.pointerSize = 4 from rfl] at few
      rw [consistent.bsize]
      have length : mapbufLen = 8192 := rfl
      omega
    rw [windowFor, if_pos large, if_neg inside]
  next stays =>
    have isMapped := Classical.not_not.mp (not_or.mp stays).1
    obtain ⟨-, size, -⟩ := kept (isMapped ▸ isSector)
    rw [size, windowSize_eq consistent, Int.min_eq_right (Int.le_of_lt large)]

/-- A window that covers some blocks starts before them. -/
theorem WindowCovers.start (covers : WindowCovers state first last) (ordered : first ≤ last) :
    windowStart state first ≤ first ∧
      (first : Int) < windowStart state first + windowPointers := by
  have some_ : 0 < windowPointers := by decide
  rw [windowStart]
  split
  next reloads => omega
  next stays =>
    have window := covers.stays stays
    omega

/-- A block that is mapped by the window is mapped correctly. -/
theorem ffs_mapOk
    (consistent : Consistent media ffs (ffs.superOf state.superblock) blockBits fragBits)
    (kept : WindowKept state) (maps : MapsByWindow media state first last)
    (ordered : first ≤ last) : MapOk media ffs state first := by
  rcases Nat.lt_or_ge first ndaddr with direct | indirect
  · exact .inl direct
  have behind := Nat.not_lt.mpr (Nat.le_trans indirect ordered)
  obtain ⟨few, small | large⟩ := maps.resolve_left behind
  · obtain ⟨small, reach⟩ := small
    have window := windowOf_small consistent kept (mapSector_pos reach) small (first - ndaddr)
    have size : 4 * (0 : Int).toNat + (windowSize ffs state : Int).toNat = windowSize ffs state := by
      rw [Int.toNat_natCast, Int.toNat_zero, Nat.mul_zero, Nat.zero_add]
    refine .inr ⟨?_, by omega, ?_⟩
    · rw [window, size]
      exact reach
    · rw [window]
      refine ⟨.inr rfl, Int.natCast_nonneg _, ?_⟩
      have pointers := Nat.div_mul_le_self (2 ^ blockBits) 4
      rw [consistent.nindir, show ffs.pointerSize = 4 from rfl] at few
      rw [windowSize_eq consistent, Int.min_eq_left small, consistent.bsize,
        show ffs.pointerSize = 4 from rfl]
      omega
  · obtain ⟨large, reach, covers⟩ := large
    have first_few : ((first - ndaddr : Nat) : Int) < (ffs.superOf state.superblock).fsNindir := by
      omega
    have window := windowOf_large consistent kept (mapSector_pos reach) large first_few
    have here := covers.start (Nat.sub_le_sub_right ordered ndaddr)
    generalize windowStart state (first - ndaddr) = start at window here
    refine .inr ⟨?_, first_few, ?_⟩
    · rw [window]
      apply reach.less
      rw [Int.toNat_natCast]
      dsimp only
      omega
    · rw [window]
      refine ⟨.inl rfl, here.1, ?_⟩
      have length : mapbufLen = 4 * windowPointers := by decide
      rw [length, show ffs.pointerSize = 4 from rfl]
      omega

/-- A read keeps the window the next one needs. -/
theorem WindowKept.after {after : FsState}
    (consistent : Consistent media ffs (ffs.superOf state.superblock) blockBits fragBits)
    (kept : WindowKept state) (maps : MapsByWindow media state first last) (ordered : first ≤ last)
    (same : Kept state after) (windowed : Windowed ffs state first after) : WindowKept after := by
  rcases windowed with ⟨-, rfl⟩ | ⟨indirect, -, window⟩
  · exact kept
  have behind := Nat.not_lt.mpr (Nat.le_trans indirect ordered)
  have size : windowSize ffs after = windowSize ffs state := by
    rw [windowSize, same.superblock, ← windowSize]
  intro _
  rw [size, same.superblock]
  obtain ⟨few, ⟨small, reach⟩ | ⟨large, reach, -⟩⟩ := maps.resolve_left behind
  · rw [windowOf_small consistent kept (mapSector_pos reach) small] at window
    obtain ⟨offset, bytes⟩ := Prod.mk.inj window
    rw [offset, bytes]
    exact ⟨Int.le_refl 0, rfl, fun _ => rfl⟩
  · have isSector := mapSector_pos reach
    rw [windowOf_large consistent kept isSector large (by omega)] at window
    obtain ⟨offset, bytes⟩ := Prod.mk.inj window
    rw [offset, bytes, windowSize_eq consistent, Int.min_eq_right (Int.le_of_lt large)]
    refine ⟨?_, rfl, fun small => absurd large (Int.not_lt.mpr small)⟩
    rw [windowStart]
    split
    · exact Int.natCast_nonneg _
    next stays =>
      have isMapped := Classical.not_not.mp (not_or.mp stays).1
      exact (kept (isMapped ▸ isSector)).1

/-- The pointers that are left are covered by the window that a pointer leaves. -/
theorem WindowCovers.goesOn {after : FsState} {index next final : Nat}
    (covers : WindowCovers state index final) (sector : mapSector ffs after = mapSector ffs state)
    (size : ¬ Reloads state (mapSector ffs state) → state.mapblockBsize = mapbufLen)
    (isMapped : after.mapblock = mapSector ffs state)
    (window : (after.mapblockOffset, after.mapblockBsize) =
      (windowStart state index, (mapbufLen : Int)))
    (low : index ≤ next) (upper : next ≤ index + 1) : WindowCovers after next final := by
  obtain ⟨offset, bytes⟩ := Prod.mk.inj window
  have again : Reloads after (mapSector ffs after) ↔
      windowStart state index ≤ mapSector ffs state ∧
        mapSector ffs state ≤ windowStart state index + mapbufLen := by
    rw [Reloads, sector, isMapped, offset, bytes]
    exact or_iff_right (not_not_intro rfl)
  by_cases reloads : Reloads state (mapSector ffs state)
  · have start : windowStart state index = index := if_pos reloads
    have once := covers.once reloads
    have many := covers.again reloads
    rw [start] at again offset
    constructor
    · intro loads _
      rw [sector]
      exact many (again.mp loads)
    · intro loads leaves_
      have more := many (again.mp loads)
      have here := again.mp loads
      rw [LoadsAgain, sector] at leaves_
      omega
    · intro stays
      have few := once (mt again.mpr stays)
      omega
  · have start : windowStart state index = state.mapblockOffset := if_neg reloads
    have window := covers.stays reloads
    have apart := (not_or.mp reloads).2
    rw [size reloads] at apart
    rw [start] at again offset
    constructor
    · exact fun loads => absurd (again.mp loads) apart
    · exact fun loads => absurd (again.mp loads) apart
    · intro _
      omega

/-- The rule of the window. -/
theorem ffs_rule
    (consistent : Consistent media ffs (ffs.superOf superblock) blockBits fragBits) :
    MapRule media ffs superblock WindowKept (MapsByWindow media) where
  mapOk state first last same kept maps ordered := by
    rw [← same] at consistent
    exact ffs_mapOk consistent kept maps ordered
  keeps state first last after filepos same kept maps ordered sameFile windowed := by
    rw [← same] at consistent
    have keeps := kept.after consistent maps ordered sameFile windowed
    exact keeps
  goesOn state first last after next filepos same kept maps sameFile windowed low upper inFile := by
    rw [← same] at consistent
    have super : ffs.superOf after.superblock = ffs.superOf state.superblock := by
      rw [sameFile.superblock]
    have inode := sameFile.inode
    rcases maps with direct | ⟨few, cases_⟩
    · exact .inl direct
    · show last < ndaddr ∨ (((last - ndaddr : Nat) : Int) < (ffs.superOf after.superblock).fsNindir ∧
        ((ffs.superOf after.superblock).fsBsize ≤ mapbufLen ∧
            Reach media (ffs.superOf after.superblock) (ffs.pointerAt after.inode ffs.diIb)
              (windowSize ffs after) ∨
          (mapbufLen : Int) < (ffs.superOf after.superblock).fsBsize ∧
            Reach media (ffs.superOf after.superblock) (ffs.pointerAt after.inode ffs.diIb)
              (4 * (last - ndaddr) + mapbufLen) ∧
            WindowCovers { after with filepos } (next - ndaddr) (last - ndaddr)))
      rw [windowSize, super, inode, ← windowSize]
      refine .inr ⟨few, cases_.imp_right fun ⟨large, reach, covers⟩ => ⟨large, reach, ?_⟩⟩
      have sector : mapSector ffs after = mapSector ffs state := by
        rw [mapSector, super, inode, ← mapSector]
      have goesOn : WindowCovers after (next - ndaddr) (last - ndaddr) := by
        rcases windowed with ⟨direct, rfl⟩ | ⟨indirect, isMapped, window⟩
        · have start : next - ndaddr = first - ndaddr := by omega
          rw [start]
          exact covers
        · have isSector := mapSector_pos reach
          rw [windowOf_large consistent kept isSector large (by omega)] at window
          refine covers.goesOn sector (fun stays => ?_) isMapped window (by omega) (by omega)
          have held := Classical.not_not.mp (not_or.mp stays).1
          rw [(kept (held ▸ isSector)).2.1, windowSize_eq consistent,
            Int.min_eq_right (Int.le_of_lt large)]
      exact ⟨goesOn.again, goesOn.once, goesOn.stays⟩
  seek _ _ kept := kept
  seekMaps _ _ _ _ maps := maps.imp_right fun ⟨few, cases_⟩ =>
    ⟨few, cases_.imp_right fun ⟨large, reach, covers⟩ =>
      ⟨large, reach, ⟨covers.again, covers.once, covers.stays⟩⟩⟩
  stored state buf kept same isMapped := by
    obtain ⟨offset, size, start⟩ := kept isMapped
    refine ⟨offset, size.trans ?_, ?_⟩
    · rw [windowSize, windowSize, ← same]
      rfl
    · rw [← same] at start
      exact start

/-! ## Runs -/

/-- Behind a mount nothing has been read yet. -/
theorem mounted_ffsMount
    (reads : ∀ sector byteOffset byteLen, media.fails sector byteOffset byteLen = none)
    (sectors : 9 ≤ media.sectorBits) {currentDrive currentSlice : Nat} {start : FsState}
    (clear : start.errnum = .none)
    (mounts : ffsMount media currentDrive currentSlice start = (state, true)) :
    Mounted media WindowKept state.superblock state := by
  have found : (ffsMount media currentDrive currentSlice start).1 = state := by rw [mounts]
  have mapblock : state.mapblock = -1 := by
    rw [← found]
    rfl
  have errnum : state.errnum = .none := by
    rw [← found, ffsMount]
    dsimp only
    split
    · exact clear
    split
    · exact clear
    next fits =>
      have large : 2 ^ 9 ≤ media.sectorSize := Nat.pow_le_pow_right (by decide) sectors
      have size : sblockSize = 8192 := rfl
      have first : sblock = 16 := rfl
      have final : sblock + (0 + sblockSize - 1) / media.sectorSize < sblock + sblockSize / 512 := by
        apply Nat.add_lt_add_left
        rw [Nat.div_lt_iff_lt_mul (sectorSize_pos media.toSectorMedia)]
        refine Nat.lt_of_lt_of_le ?_ (Nat.mul_le_mul_left _ large)
        omega
      have read := @devread_inside media sblock 0 sblockSize (reads _ _ _) (by decide) (by omega)
        (by omega)
      rw [show ((0 : Nat) : Int) = 0 from rfl] at read
      rw [read, clear]
      rfl
  refine ⟨⟨errnum, fun isMapped => ?_⟩, fun isMapped => ?_, rfl⟩
  · exact absurd isMapped (by omega)
  · exact absurd isMapped (by omega)

/-- Behind a mount every step that meets its condition gives the bytes of the file and the
pointers of its inode, and keeps the superblock and the inode. -/
theorem ffs_serves
    (reads : ∀ sector byteOffset byteLen, media.fails sector byteOffset byteLen = none)
    (sectors : 9 ≤ media.sectorBits) {currentDrive currentSlice : Nat} {start mounted : FsState}
    (clear : start.errnum = .none)
    (mounts : ffsMount media currentDrive currentSlice start = (mounted, true))
    (consistent : Consistent media ffs (ffs.superOf mounted.superblock) blockBits fragBits)
    {ops : List FsOp}
    (run : Along (fsStep media ffs) (FsMay media ffs (MapsByWindow media)) mounted ops) :
    Along (fsStep media ffs) (FsServes media ffs) mounted ops := by
  exact fs_run (mounted_ffsMount reads sectors clear mounts)
    ⟨ffs_lawful, reads, consistent, ffs_rule consistent⟩ run

end

/-! ### A file with a hole -/

/-- A file system of blocks of 8192 bytes, with a file that is a hole, and one of which the last
direct block and the first indirect one are there. -/
def ffsMedia : PartitionMedia where
  content
    | 49 | 8241 => 0x20
    | 8245 => 2
    | 8265 => 0xe0
    | 8266 | 8267 | 8270 | 8271 => 0xff
    | 8269 => 0xfe
    | 8272 => 13
    | 8309 => 8
    | 9564 => 0x54
    | 9565 => 0x19
    | 9566 => 1
    | 16904 => 50
    | 17416 => 0x64
    | 17417 => 0x80
    | 17418 => 1
    | 17492 => 40
    | 17496 => 56
    | 28672 => 72
    | _ => 0
  partLength := 128
  sectorBits := 9
  fails _ _ _ := none

def ffsMounted : FsState := (ffsMount ffsMedia 0x80 0x7a5 unmounted).1

/-- The inodes of the two files are read. -/
def ffsLongFile : FsState := fsStep ffsMedia ffs ffsMounted (.inode 34 0)

def ffsHoleFile : FsState := fsStep ffsMedia ffs ffsMounted (.inode 33 0)

/-- What the functions compute on this disk, in one evaluation. -/
theorem ffsMedia_run :
    (ffsMount ffsMedia 0x80 0x7a5 unmounted).2 = true ∧
      ffs.superOf ffsMounted.superblock = smallSuper 2048 ∧
      (ffs.diSize ffsLongFile.inode = 98404 ∧ ffs.pointerAt ffsLongFile.inode ffs.diIb = 56 ∧
        pointerOf ffsMedia ffs (smallSuper 2048) ffsLongFile.inode 11 = 40 ∧
        pointerOf ffsMedia ffs (smallSuper 2048) ffsLongFile.inode 12 = 72) ∧
      (ffs.diSize ffsHoleFile.inode = 50 ∧ ffs.pointerAt ffsHoleFile.inode ffs.diDb = 0 ∧
        ffs.pointerAt ffsHoleFile.inode ffs.diIb = 0) := by
  decide +kernel

/-- The small file system is mounted. -/
theorem ffsMedia_mounts : ffsMount ffsMedia 0x80 0x7a5 unmounted = (ffsMounted, true) :=
  Prod.ext rfl ffsMedia_run.1

/-- Its super block is the one on the disk, -/
theorem ffsMounted_super : ffs.superOf ffsMounted.superblock = smallSuper 2048 := ffsMedia_run.2.1

/-- and a consistent one. -/
theorem ffsMounted_consistent :
    Consistent ffsMedia ffs (ffs.superOf ffsMounted.superblock) 13 9 := by
  rw [ffsMounted_super]
  constructor <;> decide

/-- The inode that is read keeps it. -/
theorem ffsMounted_inode {sector : Nat} (inPart : InodeOk ffsMedia ffs sector 0) :
    ffs.superOf (fsStep ffsMedia ffs ffsMounted (.inode sector 0)).superblock = smallSuper 2048 := by
  have mounted := mounted_ffsMount (fun _ _ _ => rfl) (by decide) rfl ffsMedia_mounts
  exact (superOf_inode mounted ⟨ffs_lawful, fun _ _ _ => rfl, ffsMounted_consistent,
    ffs_rule ffsMounted_consistent⟩ inPart).trans ffsMounted_super

/-- The long file may be read from the last direct block on, -/
theorem ffsLongFile_may : FsMay ffsMedia ffs (MapsByWindow ffsMedia) ffsLongFile
    (.read 98300 (fun _ => 0) 104) := by
  obtain ⟨size, table, direct, indirect⟩ := ffsMedia_run.2.2.1
  have super : ffs.superOf ffsLongFile.superblock = smallSuper 2048 :=
    @ffsMounted_inode 34 ⟨by decide, by decide⟩
  apply fsMay_across super (by decide) size
  · rw [MapsByWindow, windowSize, super, table]
    exact .inr ⟨by decide, .inl ⟨by decide, by unfold Reach; decide +kernel⟩⟩
  · rw [BlockOk, direct, size]
    unfold Reach
    decide
  · rw [BlockOk, indirect, size]
    unfold Reach
    decide

/-- so its bytes come from there and from behind the indirect block, -/
theorem ffs_serves_across : Along (fsStep ffsMedia ffs) (FsServes ffsMedia ffs) ffsMounted
    [.inode 34 0, .read 98300 (fun _ => 0) 104] :=
  ffs_serves (fun _ _ _ => rfl) (by decide) rfl ffsMedia_mounts ffsMounted_consistent
    ⟨⟨by decide, by decide⟩, ffsLongFile_may, trivial⟩

/-- and the other one asks for its hole. -/
theorem ffsHoleFile_asks : FsAsks ffsMedia ffs ffsHoleFile (.read 0 (fun _ => 0) 50) := by
  obtain ⟨size, pointer, indirect⟩ := ffsMedia_run.2.2.2
  exact fsAsks_hole (@ffsMounted_inode 33 ⟨by decide, by decide⟩) size indirect pointer

/-- In a hole a read gives the bytes of the first sector. -/
theorem ffs_reads_first_sector :
    ¬ ∀ (media : PartitionMedia) (currentDrive currentSlice : Nat) (start mounted : FsState)
      (blockBits fragBits : Nat) (ops : List FsOp),
      (∀ sector byteOffset byteLen, media.fails sector byteOffset byteLen = none) →
      9 ≤ media.sectorBits → start.errnum = .none →
      ffsMount media currentDrive currentSlice start = (mounted, true) →
      Consistent media ffs (ffs.superOf mounted.superblock) blockBits fragBits →
      Along (fsStep media ffs) (FsAsks media ffs) mounted ops →
      Along (fsStep media ffs) (FsServes media ffs) mounted ops := by
  intro claimed
  have along := claimed ffsMedia 0x80 0x7a5 unmounted ffsMounted 13 9
    [.inode 33 0, .read 0 (fun _ => 0) 50] (fun _ _ _ => rfl) (by decide) rfl ffsMedia_mounts
    ffsMounted_consistent ⟨⟨by decide, by decide⟩, ffsHoleFile_asks, trivial⟩
  rw [along_cons, along_cons, ← ffsHoleFile] at along
  have serves := And.left (And.right along)
  have zero := serves.hole (@ffsMounted_inode 33 ⟨by decide, by decide⟩) ffsMedia_run.2.2.2.2.1
  have read : (fsRead ffsMedia ffs { ffsHoleFile with filepos := (0 : Nat) } (fun _ => 0)
      (50 : Nat)).buf 49 = 0x20 := by
    decide +kernel
  dsimp only at read
  exact absurd (read.symm.trans zero) (by decide)

end GrubLegacy.Fsys.Ufs
