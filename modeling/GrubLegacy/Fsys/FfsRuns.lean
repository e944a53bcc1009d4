import GrubLegacy.Base.Runs
import GrubLegacy.Fsys.FfsReads

/-!
# Runs of the fast file systems

The steps that a lookup and the reads of a file are made of, in any order: an inode, a block of a
directory, a block that is mapped, and a read. What a run needs of the window is a rule, which
each of the formats has for itself.
-/

namespace GrubLegacy.Fsys.Ufs

open Base Stage2 DiskIo
open GrubLegacy.Partition (Buffer)

/-! ## The steps -/

/-- IS_PC_SLICE_TYPE_BSD_WITH_FS with FS_BSDFFS -/
def isPcSliceTypeBsdFfs (type : Nat) : Bool := type = 0x7a5 || type = 0x7a6 || type = 0x7a9

/-- `fs_magic` -/
def fsMagic (superblock : Buffer) : Nat := superblock.word32 1372

/-- SBSIZE and SBLOCKSIZE -/
def sblockSize : Nat := 8192

/-- Behind the read of a superblock. -/
def superblockRead (magic : Nat) (state : FsState) :
    GrubError × Option (List UInt8) → FsState × Bool
  | (errnum, none) => ({ state with errnum }, false)
  | (errnum, some bytes) =>
    let stored := { state with fsysBuf := store state.fsysBuf superblockAt bytes, errnum }
    (stored, fsMagic stored.superblock = magic)

/-- Behind the read of an inode. -/
def inodeRead (state : FsState) : GrubError × Option (List UInt8) → FsState × Bool
  | (errnum, none) => ({ state with errnum }, false)
  | (errnum, some bytes) =>
    ({ state with fsysBuf := store state.fsysBuf inodeAt bytes, errnum }, true)

/-- The steps of a lookup, an inode and a block of a directory, a block that is mapped, and a
read. -/
inductive FsOp where
  | inode (sector byteOffset : Nat)
  | directory (loc : Nat)
  | map (fileBlock : Nat)
  | read (position : Nat) (buf : Buffer) (len : Nat)

/-- The state behind a step. -/
def leaves {Value : Type} (done : FsState × Value) : FsState := done.1

def leavesRead (done : ReadDone) : FsState := done.state

section

variable (media : PartitionMedia) (format : FsFormat)

/-- The directory functions read an inode. -/
def loadInode (state : FsState) (sector byteOffset : Nat) : FsState × Bool :=
  inodeRead state
    (PartitionMedia.readDone state.errnum (media.devread sector byteOffset format.inodeSize))

def fsStep (state : FsState) : FsOp → FsState
  | .inode sector byteOffset => leaves (loadInode media format state sector byteOffset)
  | .directory loc => leaves (dirBlock media format state loc)
  | .map fileBlock => leaves (blockMap media format state fileBlock)
  | .read position buf len =>
    leavesRead (fsRead media format { state with filepos := position } buf len)

/-- A step that loads an inode, -/
theorem fsStep_inode (state : FsState) (sector byteOffset : Nat) :
    fsStep media format state (.inode sector byteOffset) =
      leaves (loadInode media format state sector byteOffset) := rfl

/-- one that reads a block of a directory, -/
theorem fsStep_directory (state : FsState) (loc : Nat) :
    fsStep media format state (.directory loc) = leaves (dirBlock media format state loc) := rfl

/-- one that maps a block -/
theorem fsStep_map (state : FsState) (fileBlock : Nat) :
    fsStep media format state (.map fileBlock) =
      leaves (blockMap media format state fileBlock) := rfl

/-- and one that reads. -/
theorem fsStep_read (state : FsState) (position : Nat) (buf : Buffer) (len : Nat) :
    fsStep media format state (.read position buf len) =
      leavesRead (fsRead media format { state with filepos := position } buf len) := rfl

/-! ## What a step does -/

/-- The superblock and the inode are where they were. -/
def SameFile (before after : FsState) : Prop :=
  after.superblock = before.superblock ∧ after.inode = before.inode

/-- The bytes are those of the file, the pointers those of its inode, and nothing overwrites the
superblock and the inode but the next inode. -/
def FsServes (state : FsState) : FsOp → Prop
  | .inode sector byteOffset =>
    (loadInode media format state sector byteOffset).2 = true ∧
      (loadInode media format state sector byteOffset).1.superblock = state.superblock
  | .directory loc =>
    let block := loc / (format.superOf state.superblock).fsBsize.toNat
    (dirBlock media format state loc).2 = true ∧ SameFile state (dirBlock media format state loc).1 ∧
      ∀ i < (blksize format (format.superOf state.superblock) (format.diSize state.inode)
          block).toNat,
        (dirBlock media format state loc).1.fsysBuf i =
          fileByte media format (format.superOf state.superblock) state.inode
            (block * (format.superOf state.superblock).fsBsize.toNat + i)
  | .map fileBlock =>
    (blockMap media format state fileBlock).2 =
        pointerOf media format (format.superOf state.superblock) state.inode fileBlock ∧
      SameFile state (blockMap media format state fileBlock).1
  | .read position buf len =>
    let done := fsRead media format { state with filepos := position } buf len
    done.ret = len ∧ SameFile state done.state ∧ done.buf = store buf 0
      (fileBytes media format (format.superOf state.superblock) state.inode position len)

/-! ## What a step has to meet -/

/-- The file has no more blocks than the inode and one indirect block have pointers. -/
def FileFits (state : FsState) : Prop :=
  format.diSize state.inode ≤ (ndaddr + (format.superOf state.superblock).fsNindir.toNat) *
    (format.superOf state.superblock).fsBsize.toNat

/-- The size of a window. -/
def windowSize (state : FsState) : Nat :=
  min (format.superOf state.superblock).fsBsize.toNat mapbufLen

/-- An inode lies in the partition. -/
def InodeOk (sector byteOffset : Nat) : Prop :=
  sector + (byteOffset + format.inodeSize - 1) / media.sectorSize < media.partLength ∧
    sector + (byteOffset + format.inodeSize - 1) / media.sectorSize < 2 ^ 32

/-- Whatever the inode has as a pointer of an indirect block leads into the partition. -/
def IndirectOk (state : FsState) : Prop :=
  format.pointerAt state.inode format.diIb = 0 ∨
    Reach media (format.superOf state.superblock) (format.pointerAt state.inode format.diIb)
      (format.superOf state.superblock).fsBsize.toNat

/-- A step inside a file, with any holes. -/
def FsAsks (state : FsState) : FsOp → Prop
  | .inode sector byteOffset => InodeOk media format sector byteOffset
  | .directory loc =>
    FileFits format state ∧ IndirectOk media format state ∧ loc < format.diSize state.inode ∧
      BlockOk media format (format.superOf state.superblock) state.inode
        (loc / (format.superOf state.superblock).fsBsize.toNat)
  | .map fileBlock =>
    IndirectOk media format state ∧
      fileBlock < ndaddr + (format.superOf state.superblock).fsNindir.toNat
  | .read position _ len =>
    FileFits format state ∧ IndirectOk media format state ∧
      position + len ≤ format.diSize state.inode ∧
      ∀ i < len,
        pointerOf media format (format.superOf state.superblock) state.inode
            ((position + i) / (format.superOf state.superblock).fsBsize.toNat) = 0 ∨
          BlockOk media format (format.superOf state.superblock) state.inode
            ((position + i) / (format.superOf state.superblock).fsBsize.toNat)

/-- The blocks of a step can be mapped and have no holes, and a directory's block does not reach
the superblock. -/
def FsMay (maps : FsState → Nat → Nat → Prop) (state : FsState) : FsOp → Prop
  | .inode sector byteOffset => InodeOk media format sector byteOffset
  | .directory loc =>
    let block := loc / (format.superOf state.superblock).fsBsize.toNat
    FileFits format state ∧ loc < format.diSize state.inode ∧ maps state block block ∧
      BlockOk media format (format.superOf state.superblock) state.inode block ∧
      blksize format (format.superOf state.superblock) (format.diSize state.inode) block ≤
        superblockAt
  | .map fileBlock => maps state fileBlock fileBlock
  | .read position _ len =>
    FileFits format state ∧ position + len ≤ format.diSize state.inode ∧
      (0 < len → maps state (position / (format.superOf state.superblock).fsBsize.toNat)
        ((position + len - 1) / (format.superOf state.superblock).fsBsize.toNat)) ∧
      ∀ i < len, BlockOk media format (format.superOf state.superblock) state.inode
        ((position + i) / (format.superOf state.superblock).fsBsize.toNat)

/-- Under `maps` the blocks from one to another can be mapped in turn, as long as the window is
one that `whole` allows. Neither depends on the position or on what is stored elsewhere. -/
structure MapRule (superblock : Buffer) (whole : FsState → Prop)
    (maps : FsState → Nat → Nat → Prop) : Prop where
  mapOk : ∀ state first last, state.superblock = superblock → whole state →
    maps state first last → first ≤ last → MapOk media format state first
  keeps : ∀ state first last after filepos, state.superblock = superblock → whole state →
    maps state first last → first ≤ last → Kept state after → Windowed format state first after →
    whole { after with filepos }
  goesOn : ∀ state first last after next filepos, state.superblock = superblock → whole state →
    maps state first last → Kept state after → Windowed format state first after →
    first ≤ next → next ≤ first + 1 → next ≤ last → maps { after with filepos } next last
  seek : ∀ (state : FsState) (filepos : Int), whole state → whole { state with filepos }
  seekMaps : ∀ (state : FsState) (filepos : Int) (first last : Nat), maps state first last →
    maps { state with filepos } first last
  stored : ∀ (state : FsState) (buf : Buffer), whole state →
    view buf superblockAt = state.superblock → whole { state with fsysBuf := buf, errnum := .none }

/-- What a run needs: a disk without errors, a superblock that agrees with itself and a rule for
the window. -/
structure RunsOn (superblock : Buffer) (blockBits fragBits : Nat) (whole : FsState → Prop)
    (maps : FsState → Nat → Nat → Prop) : Prop where
  lawful : format.Lawful
  reads : ∀ sector byteOffset byteLen, media.fails sector byteOffset byteLen = none
  consistent : Consistent media format (format.superOf superblock) blockBits fragBits
  rule : MapRule media format superblock whole maps

/-- The window and the superblock, between two steps. -/
structure Mounted (whole : FsState → Prop) (superblock : Buffer) (state : FsState) : Prop where
  sound : WindowSound media state
  whole_ : whole state
  superblock : state.superblock = superblock

/-- The blocks of a range are mapped one after the other. -/
structure InRange (superblock : Buffer) (whole : FsState → Prop)
    (maps : FsState → Nat → Nat → Prop) (last : Nat) (state : FsState) (n : Nat) : Prop where
  whole_ : whole state
  superblock : state.superblock = superblock
  maps_ : maps state n last
  ordered : n ≤ last

end

section

variable {media : PartitionMedia} {format : FsFormat} {state : FsState} {superblock : Buffer}
  {whole : FsState → Prop} {maps : FsState → Nat → Nat → Prop} {blockBits fragBits n last : Nat}

/-- In a range that is mapped by the rule each block can be mapped. -/
theorem mappable_range (rule : MapRule media format superblock whole maps) :
    Mappable media format last (InRange superblock whole maps last) whole where
  maps current n _ inRange :=
    rule.mapOk current n last inRange.superblock inRange.whole_ inRange.maps_ inRange.ordered
  leaves_ current n after filepos inRange kept windowed :=
    rule.keeps current n last after filepos inRange.superblock inRange.whole_ inRange.maps_
      inRange.ordered kept windowed
  goesOn current n after n' filepos inRange kept windowed low upper inFile :=
    ⟨rule.keeps current n last after filepos inRange.superblock inRange.whole_ inRange.maps_
        inRange.ordered kept windowed,
      kept.superblock.trans inRange.superblock,
      rule.goesOn current n last after n' filepos inRange.superblock inRange.whole_ inRange.maps_
        kept windowed low upper inFile,
      inFile⟩

/-- A file that fits is below 2^31 bytes. -/
theorem FileFits.small (lawful : format.Lawful)
    (consistent : Consistent media format (format.superOf state.superblock) blockBits fragBits)
    (fits : FileFits format state) : format.diSize state.inode < 2 ^ 31 := by
  rw [FileFits, consistent.bsize, consistent.nindir, Int.toNat_natCast, Int.toNat_natCast] at fits
  have block := consistent.bsize_le
  have pointers : 2 ^ blockBits / format.pointerSize ≤ 2 ^ 14 := by
    refine Nat.le_trans (Nat.div_le_div_left lawful.large (by decide)) ?_
    exact Nat.div_le_of_le_mul (Nat.le_trans block (by decide))
  have bound := Nat.mul_le_mul (Nat.add_le_add_left pointers ndaddr) block
  have length : (ndaddr + 2 ^ 14) * 2 ^ 16 < 2 ^ 31 := by decide
  exact Nat.lt_of_le_of_lt (Nat.le_trans fits bound) length

/-- What is stored beside the superblock and before the window. -/
theorem Mounted.stored (rule : MapRule media format superblock whole maps)
    (mounted : Mounted media whole superblock state) {buf : Buffer}
    (beside : ∀ i < 8192, buf (superblockAt + i) = state.fsysBuf (superblockAt + i))
    (before : ∀ i, mapbufAt ≤ i → buf i = state.fsysBuf i) :
    Mounted media whole superblock { state with fsysBuf := buf, errnum := .none } := by
  have same : view buf superblockAt = state.superblock := view_congr beside
  refine ⟨⟨rfl, fun isMapped => ?_⟩, rule.stored state buf mounted.whole_ same,
    same.trans mounted.superblock⟩
  obtain ⟨low, shows_⟩ := mounted.sound.shows_ isMapped
  refine ⟨low, fun i inside => ?_⟩
  rw [← shows_ i inside]
  exact before _ (Nat.le_add_right _ _)

/-- Loading an inode serves it and keeps the file system mounted. -/
theorem inode_step (mounted : Mounted media whole superblock state) {sector byteOffset : Nat}
    (runsOn : RunsOn media format superblock blockBits fragBits whole maps)
    (may : FsMay media format maps state (.inode sector byteOffset)) :
    FsServes media format state (.inode sector byteOffset) ∧
      Mounted media whole superblock (fsStep media format state (.inode sector byteOffset)) := by
  obtain ⟨inPart, inRange⟩ := may
  obtain ⟨some_, fits⟩ := runsOn.lawful.inodes
  have read := @devread_inside media sector byteOffset format.inodeSize (runsOn.reads _ _ _) some_
    inPart inRange
  have loads : loadInode media format state sector byteOffset =
      ({ state with
          fsysBuf := store state.fsysBuf inodeAt
            (media.bytes (sector * media.sectorSize + byteOffset) format.inodeSize)
          errnum := .none }, true) := by
    rw [loadInode, read, mounted.sound.clear]
    rfl
  have length := @DiskIo.bytes_length media.toSectorMedia (sector * media.sectorSize + byteOffset)
    format.inodeSize
  generalize media.bytes (sector * media.sectorSize + byteOffset) format.inodeSize = bytes
    at loads length
  have beside : ∀ i < 8192, store state.fsysBuf inodeAt bytes (superblockAt + i) =
      state.fsysBuf (superblockAt + i) := by
    intro i inside
    have places : inodeAt = superblockAt + 8192 := rfl
    rw [store_before (by omega)]
  have before : ∀ i, mapbufAt ≤ i → store state.fsysBuf inodeAt bytes i = state.fsysBuf i := by
    intro i behind
    have places : mapbufAt = inodeAt + 8192 := rfl
    rw [store_behind (by omega)]
  have kept := mounted.stored runsOn.rule beside before
  refine ⟨?_, ?_⟩
  · rw [FsServes, loads]
    exact ⟨rfl, kept.superblock.trans mounted.superblock.symm⟩
  · rw [fsStep_inode, loads]
    exact kept

/-- A block that is mapped for itself. -/
theorem Mounted.mapped (mounted : Mounted media whole superblock state)
    (runsOn : RunsOn media format superblock blockBits fragBits whole maps)
    (mapsBlock : maps state n n) :
    ∃ after, blockMap media format state n =
        (after, pointerOf media format (format.superOf state.superblock) state.inode n) ∧
      Kept state after ∧ Mounted media whole superblock after := by
  have ok := runsOn.rule.mapOk state n n mounted.superblock mounted.whole_ mapsBlock (Nat.le_refl n)
  obtain ⟨after, isMapped, kept, sound, windowed⟩ :=
    blockMap_pointer runsOn.lawful runsOn.reads mounted.sound ok
  have keeps := runsOn.rule.keeps state n n after after.filepos mounted.superblock mounted.whole_
    mapsBlock (Nat.le_refl n) kept windowed
  exact ⟨after, isMapped, kept, sound, keeps, kept.superblock.trans mounted.superblock⟩

/-- Mapping a block does so, -/
theorem map_step (mounted : Mounted media whole superblock state)
    (runsOn : RunsOn media format superblock blockBits fragBits whole maps)
    (may : FsMay media format maps state (.map n)) :
    FsServes media format state (.map n) ∧
      Mounted media whole superblock (fsStep media format state (.map n)) := by
  obtain ⟨after, isMapped, kept, mounted'⟩ := mounted.mapped runsOn may
  refine ⟨?_, ?_⟩
  · rw [FsServes, isMapped]
    exact ⟨rfl, kept.superblock, kept.inode⟩
  · rw [fsStep_map, isMapped]
    exact mounted'

/-- a read does -/
theorem read_step (mounted : Mounted media whole superblock state)
    (runsOn : RunsOn media format superblock blockBits fragBits whole maps)
    {position len : Nat} {buf : Buffer}
    (may : FsMay media format maps state (.read position buf len)) :
    FsServes media format state (.read position buf len) ∧
      Mounted media whole superblock (fsStep media format state (.read position buf len)) := by
  obtain ⟨fits, inFile, mapsBlocks, blocks⟩ := may
  have lawful := runsOn.lawful
  have consistent := runsOn.consistent
  rw [← mounted.superblock] at consistent
  have bsize : (format.superOf state.superblock).fsBsize.toNat = 2 ^ blockBits := by
    rw [consistent.bsize, Int.toNat_natCast]
  rw [bsize] at mapsBlocks
  have small := fits.small lawful consistent
  have ordered : 0 < len →
      position / 2 ^ blockBits ≤ (position + len - 1) / 2 ^ blockBits := fun some_ =>
    Nat.div_le_div_right (by omega)
  obtain ⟨after, buf', reads', done⟩ := @readLoop_done media format blockBits fragBits
    { state with filepos := position } buf lawful runsOn.reads consistent
    ((position + len - 1) / 2 ^ blockBits) _ _ (mappable_range runsOn.rule)
    ⟨mounted.sound.clear, mounted.sound.shows_⟩ (runsOn.rule.seek state position mounted.whole_)
    len 0 position len (Nat.le_refl len) rfl small inFile
    (fun some_ => ⟨runsOn.rule.seek state position mounted.whole_, mounted.superblock,
      runsOn.rule.seekMaps state position _ _ (mapsBlocks some_), ordered some_⟩)
    (fun i inside => Nat.div_le_div_right (by omega))
    (fun i inside => by
      have there := blocks i inside
      rw [bsize] at there
      exact there)
  rw [Nat.zero_add, show ((0 : Nat) : Int) = 0 from rfl] at reads'
  have same : SameFile state after :=
    ⟨view_congr fun i inside => done.kept _ (by
        have places : mapbufAt = superblockAt + 8192 + 8192 := rfl
        omega),
      view_congr fun i inside => done.kept _ (by
        have places : mapbufAt = inodeAt + 8192 := rfl
        omega)⟩
  refine ⟨?_, ?_⟩
  · rw [FsServes, fsRead, Int.toNat_natCast, reads']
    exact ⟨rfl, same, done.stored⟩
  · rw [fsStep_read, fsRead, Int.toNat_natCast, reads']
    exact ⟨done.sound, done.rests_, same.1.trans mounted.superblock⟩

/-- A block of a directory is read to the start of FSYS_BUF. -/
theorem dirBlock_reads (mounted : Mounted media whole superblock state)
    (runsOn : RunsOn media format superblock blockBits fragBits whole maps)
    {loc : Nat}
    (fits : FileFits format state) (inFile : loc < format.diSize state.inode)
    (mapsBlock : maps state (loc / 2 ^ blockBits) (loc / 2 ^ blockBits))
    (blockOk : BlockOk media format (format.superOf state.superblock) state.inode
      (loc / 2 ^ blockBits)) :
    ∃ (after : FsState) (bytes : Nat), Kept state after ∧ Mounted media whole superblock after ∧
      blksize format (format.superOf state.superblock) (format.diSize state.inode)
        (loc / 2 ^ blockBits : Nat) = bytes ∧
      dirBlock media format state loc =
        ({ after with
            fsysBuf := store after.fsysBuf 0 (fileBytes media format
              (format.superOf state.superblock) state.inode (loc / 2 ^ blockBits * 2 ^ blockBits) bytes)
            errnum := .none }, true) := by
  obtain ⟨after, isMapped, kept, mounted'⟩ := mounted.mapped runsOn mapsBlock
  have lawful := runsOn.lawful
  have consistent := runsOn.consistent
  rw [← mounted.superblock] at consistent
  have small := fits.small lawful consistent
  have start : loc / 2 ^ blockBits * 2 ^ blockBits < format.diSize state.inode :=
    Nat.lt_of_le_of_lt (Nat.div_mul_le_self _ _) inFile
  obtain ⟨bytes, isSize, most, least⟩ := consistent.blksize_bounds lawful small start
  have some_ : 0 < bytes := by
    refine Nat.lt_of_lt_of_le ?_ least
    rw [Nat.lt_min]
    exact ⟨Nat.two_pow_pos _, Nat.sub_pos_of_lt start⟩
  have block := consistent.bsize_le
  have pointer := blockOk.1
  have size : toInt32 (blksize format (format.superOf state.superblock) (format.diSize state.inode)
      (loc / 2 ^ blockBits : Nat)) = bytes := by
    rw [isSize]
    exact toInt32_of_range (by omega) (by omega)
  rw [BlockOk, isSize, Int.toNat_natCast] at blockOk
  have read := @devread_of_reach media _ _ bytes 0 bytes runsOn.reads blockOk some_ (by omega)
  have stored : bytesAt (fragment media (format.superOf state.superblock)
      (pointerOf media format (format.superOf state.superblock) state.inode (loc / 2 ^ blockBits)))
        0 bytes = fileBytes media format (format.superOf state.superblock) state.inode
          (loc / 2 ^ blockBits * 2 ^ blockBits) bytes := by
    refine bytesAt_congr fun i small => ?_
    have inside := Nat.lt_of_lt_of_le small most
    rw [fileByte_eq consistent inside pointer, Nat.zero_add]
  refine ⟨after, bytes, kept, mounted', isSize, ?_⟩
  rw [stored] at read
  rw [dirBlock]
  dsimp only
  rw [consistent.lblkno_eq, isMapped]
  dsimp only
  rw [if_neg (Int.not_lt.mpr (Int.le_of_lt pointer)), size, show (0 : Int) = (0 : Nat) from rfl,
    read, kept.errnum, mounted.sound.clear]
  rfl

/-- and a block of a directory, -/
theorem directory_step (mounted : Mounted media whole superblock state)
    (runsOn : RunsOn media format superblock blockBits fragBits whole maps)
    {loc : Nat} (may : FsMay media format maps state (.directory loc)) :
    FsServes media format state (.directory loc) ∧
      Mounted media whole superblock (fsStep media format state (.directory loc)) := by
  have bsize : (format.superOf state.superblock).fsBsize.toNat = 2 ^ blockBits := by
    rw [mounted.superblock, runsOn.consistent.bsize, Int.toNat_natCast]
  rw [FsMay, bsize] at may
  obtain ⟨fits, inFile, mapsBlock, blockOk, low⟩ := may
  obtain ⟨after, bytes, kept, mounted', isSize, loads⟩ :=
    dirBlock_reads mounted runsOn fits inFile mapsBlock blockOk
  rw [isSize] at low
  have length := @fileBytes_length media format
    (format.superOf state.superblock) state.inode (loc / 2 ^ blockBits * 2 ^ blockBits) bytes
  have holds : ∀ i < bytes, store after.fsysBuf 0 (fileBytes media format
      (format.superOf state.superblock) state.inode (loc / 2 ^ blockBits * 2 ^ blockBits) bytes) i =
      fileByte media format (format.superOf state.superblock) state.inode
        (loc / 2 ^ blockBits * 2 ^ blockBits + i) := by
    intro i inside
    have stored := @store_at after.fsysBuf 0 _ i (length.symm ▸ inside)
    rw [Nat.zero_add] at stored
    rw [stored]
    simp only [fileBytes, getElem_bytesAt]
  generalize fileBytes media format (format.superOf state.superblock) state.inode
    (loc / 2 ^ blockBits * 2 ^ blockBits) bytes = stored at loads length holds
  -- The block ends before the superblock.
  have behind : ∀ i, superblockAt ≤ i → store after.fsysBuf 0 stored i = after.fsysBuf i := by
    intro i upper
    rw [store_behind (by omega)]
  have rests := mounted'.stored runsOn.rule (fun i _ => behind _ (Nat.le_add_right _ _))
    (fun i upper => behind i (Nat.le_trans (by decide) upper))
  have sameInode : view (store after.fsysBuf 0 stored) inodeAt = state.inode :=
    (view_congr fun i _ => behind _ (Nat.le_trans (by decide) (Nat.le_add_right _ _))).trans
      kept.inode
  refine ⟨?_, ?_⟩
  · rw [FsServes, loads, bsize, isSize, Int.toNat_natCast]
    exact ⟨rfl, ⟨rests.superblock.trans mounted.superblock.symm, sameInode⟩, holds⟩
  · rw [fsStep_directory, loads]
    exact rests

/-- so every step does. -/
theorem fs_step (mounted : Mounted media whole superblock state)
    (runsOn : RunsOn media format superblock blockBits fragBits whole maps) {op : FsOp}
    (may : FsMay media format maps state op) :
    FsServes media format state op ∧
      Mounted media whole superblock (fsStep media format state op) := by
  cases op with
  | inode sector byteOffset => exact inode_step mounted runsOn may
  | directory loc => exact directory_step mounted runsOn may
  | map fileBlock => exact map_step mounted runsOn may
  | read position buf len => exact read_step mounted runsOn may

/-- Every step of a run that meets its condition gives the bytes of the file and the pointers of
its inode, and keeps the superblock and the inode. -/
theorem fs_run (mounted : Mounted media whole superblock state)
    (runsOn : RunsOn media format superblock blockBits fragBits whole maps) {ops : List FsOp}
    (run : Along (fsStep media format) (FsMay media format maps) state ops) :
    Along (fsStep media format) (FsServes media format) state ops := by
  refine Along.of_invariant (Mounted media whole superblock) ?_ ?_ mounted run
  · exact fun state op isMounted may => (fs_step isMounted runsOn may).2
  · exact fun state op isMounted may => (fs_step isMounted runsOn may).1

/-- Loading an inode leaves the super block. -/
theorem superOf_inode (mounted : Mounted media whole superblock state)
    (runsOn : RunsOn media format superblock blockBits fragBits whole maps)
    {sector byteOffset : Nat} (inPart : InodeOk media format sector byteOffset) :
    format.superOf (fsStep media format state (.inode sector byteOffset)).superblock =
      format.superOf superblock :=
  congrArg format.superOf (inode_step mounted runsOn inPart).2.superblock

end

/-! ## Files of a small file system -/

/-- Before anything is mounted. -/
def unmounted : FsState where
  fsysBuf _ := 0
  mapblock := 0
  mapblockOffset := 0
  mapblockBsize := 0
  filepos := 0
  errnum := .none

/-- Blocks of 8192 bytes, and fragments of a sector. -/
def smallSuper (fsNindir : Int) : FsSuper where
  fsBsize := 8192
  fsBshift := 13
  fsQbmask := 8191
  fsQfmask := 511
  fsFmask := -512
  fsFsbtodb := 0
  fsNindir := fsNindir

section

variable {media : PartitionMedia} {format : FsFormat} {state : FsState} {buf : Buffer}
  {fsNindir : Int}

/-- The first block has the first bytes. -/
theorem smallSuper_block {i : Nat} (inside : i < 50) :
    (0 + i) / (smallSuper fsNindir).fsBsize.toNat = 0 := by
  have size : (smallSuper fsNindir).fsBsize.toNat = 8192 := rfl
  rw [Nat.zero_add, size, Nat.div_eq_of_lt (by omega)]

/-- From the end of the last direct block to the one behind it. -/
theorem fsMay_across {maps : FsState → Nat → Nat → Prop}
    (super : format.superOf state.superblock = smallSuper fsNindir) (many : 0 < fsNindir)
    (size : format.diSize state.inode = 98404) (maps_ : maps state 11 12)
    (direct : BlockOk media format (smallSuper fsNindir) state.inode 11)
    (indirect : BlockOk media format (smallSuper fsNindir) state.inode 12) :
    FsMay media format maps state (.read 98300 buf 104) := by
  have bsize : (smallSuper fsNindir).fsBsize.toNat = 8192 := rfl
  have fewPointers : (smallSuper fsNindir).fsNindir = fsNindir := rfl
  have ndaddr_eq : ndaddr = 12 := rfl
  rw [FsMay, FileFits, super, size, bsize, fewPointers, ndaddr_eq]
  refine ⟨by omega, Nat.le_refl _, fun _ => maps_, fun i inside => ?_⟩
  have across : (98300 + i) / 8192 = 11 ∨ (98300 + i) / 8192 = 12 := by omega
  rcases across with last | first
  · rw [last]
    exact direct
  · rw [first]
    exact indirect

/-- A file that is a hole is asked for it, -/
theorem fsAsks_hole (super : format.superOf state.superblock = smallSuper fsNindir)
    (size : format.diSize state.inode = 50) (indirect : format.pointerAt state.inode format.diIb = 0)
    (pointer : format.pointerAt state.inode format.diDb = 0) :
    FsAsks media format state (.read 0 buf 50) := by
  have bsize : (smallSuper fsNindir).fsBsize.toNat = 8192 := rfl
  have ndaddr_eq : ndaddr = 12 := rfl
  rw [FsAsks, FileFits, size, super, bsize, ndaddr_eq]
  refine ⟨by omega, .inl indirect, Nat.le_refl _, fun i inside => .inl ?_⟩
  rw [← bsize, @smallSuper_block fsNindir i inside, pointerOf, if_pos (by decide), Nat.zero_mul,
    Nat.add_zero, pointer]

/-- and a read of it that is served gives zeroes. -/
theorem FsServes.hole (serves : FsServes media format state (.read 0 buf 50))
    (super : format.superOf state.superblock = smallSuper fsNindir)
    (pointer : format.pointerAt state.inode format.diDb = 0) :
    (fsRead media format { state with filepos := (0 : Nat) } buf (50 : Nat)).buf 49 = 0 := by
  rw [FsServes, super] at serves
  obtain ⟨-, -, stored⟩ := serves
  have byte := congrFun stored (0 + 49)
  rw [store_at (by rw [fileBytes_length]; decide)] at byte
  have hole : pointerOf media format (smallSuper fsNindir) state.inode 0 = 0 := by
    rw [pointerOf, if_pos (by decide), Nat.zero_mul, Nat.add_zero, pointer]
  simp only [fileBytes, getElem_bytesAt] at byte
  rw [fileByte, smallSuper_block (by decide), hole, Nat.zero_add] at byte
  exact byte.trans (if_pos rfl)

end

end GrubLegacy.Fsys.Ufs
