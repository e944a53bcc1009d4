import GrubLegacy.Fsys.Ext2Media
import GrubLegacy.Stage2.Shared

/-!
# The blocks of an ext2 file

`ext2fs_block_map` of `fsys_ext2fs.c` with the two index blocks it keeps, and which
block the pointers of an inode lead to.
-/

namespace GrubLegacy.Fsys

open Base Stage2 DiskIo GrubLegacy.Partition

/-! ## The map -/

/-- EXT2_NDIR_BLOCKS -/
def ext2NdirBlocks : Nat := 12

/-- EXT2_IND_BLOCK -/
def ext2IndBlock : Nat := ext2NdirBlocks

/-- EXT2_DIND_BLOCK -/
def ext2DindBlock : Nat := ext2IndBlock + 1

/-- EXT2_TIND_BLOCK -/
def ext2TindBlock : Nat := ext2DindBlock + 1

/-- What is kept between two reads: `i_block` of the inode, which index blocks are in
DATABLOCK1 and DATABLOCK2, and the position in the file. -/
structure Ext2State where
  iBlock : Nat → Nat
  mapblock1 : Int
  mapblock2 : Int
  datablock1 : Buffer
  datablock2 : Buffer
  filepos : Nat
  errnum : GrubError

section

variable (media : Ext2Media)

/-- EXT2_ADDR_PER_BLOCK_BITS -/
def addrPerBlockBits : Nat := media.blockBits - 2

/-- EXT2_ADDR_PER_BLOCK -/
def addrPerBlock : Nat := media.blockSize / 4

/-- `ext2_rdfsb` in a state; after an error the disk is not read. -/
def ext2Rdfsb (state : Ext2State) (fsblock : Int) : Option (List UInt8) :=
  (PartitionMedia.readDone state.errnum (media.ext2Rdfsb fsblock)).2

/-- An index block that could not be read. -/
def corrupt (state : Ext2State) : Ext2State × Int := ({ state with errnum := .fsysCorrupt }, -1)

/-- The pointer at an index of a buffer, as an `int`. -/
def pointerAt (buf : Buffer) (i : Nat) : Int := toInt32 (buf.word32 (4 * i))

/-- Get the first index block of a level to DATABLOCK1, and on with `next`. -/
def readMap1 (level : Int) (fsblock : Nat) (state : Ext2State)
    (next : Ext2State → Ext2State × Int) : Ext2State × Int :=
  if state.mapblock1 = level then next state
  else
    match ext2Rdfsb media state (toInt32 fsblock) with
    | none => corrupt state
    | some bytes =>
      next { state with mapblock1 := level, datablock1 := state.datablock1.fill bytes }

/-- Get an index block to DATABLOCK2, and on with `next`. -/
def readMap2 (bnum : Int) (state : Ext2State) (next : Ext2State → Ext2State × Int) :
    Ext2State × Int :=
  match ext2Rdfsb media state bnum with
  | none => corrupt state
  | some bytes => next { state with datablock2 := state.datablock2.fill bytes }

/-- `ext2fs_block_map` -/
def ext2fsBlockMap (state : Ext2State) (logicalBlock : Nat) : Ext2State × Int :=
  let bits := addrPerBlockBits media
  let mask := addrPerBlock media - 1
  if logicalBlock < ext2NdirBlocks then (state, toInt32 (state.iBlock logicalBlock))
  else
    let logicalBlock := logicalBlock - ext2NdirBlocks
    if logicalBlock < addrPerBlock media then
      readMap1 media 1 (state.iBlock ext2IndBlock) state fun state =>
        (state, pointerAt state.datablock1 logicalBlock)
    else
      let logicalBlock := logicalBlock - addrPerBlock media
      if logicalBlock < 1 <<< (bits * 2) then
        readMap1 media 2 (state.iBlock ext2DindBlock) state fun state =>
          let bnum := pointerAt state.datablock1 (logicalBlock >>> bits)
          let found := fun state : Ext2State =>
            ({ state with mapblock2 := bnum }, pointerAt state.datablock2 (logicalBlock &&& mask))
          if bnum ≠ state.mapblock2 then readMap2 media bnum state found else found state
      else
        let logicalBlock := logicalBlock - 1 <<< (bits * 2)
        readMap1 media 3 (state.iBlock ext2TindBlock) { state with mapblock2 := -1 } fun state =>
          readMap2 media (pointerAt state.datablock1 (logicalBlock >>> (bits * 2))) state
            fun state =>
              readMap2 media (pointerAt state.datablock2 ((logicalBlock >>> bits) &&& mask)) state
                fun state => (state, pointerAt state.datablock2 (logicalBlock &&& mask))

/-! ## What an inode says -/

/-- A pointer in a block of the disk. -/
def pointerIn (fsblock i : Nat) : Nat := (media.block fsblock).word32 (4 * i)

/-- The next pointer; behind a zero there are only holes. -/
def follow (fsblock i : Nat) : Nat := if fsblock = 0 then 0 else pointerIn media fsblock i

/-- The pointer of the inode that leads to a block, and the indices on the way. -/
def pathTo (logicalBlock : Nat) : Nat × List Nat :=
  let count := addrPerBlock media
  if logicalBlock < ext2NdirBlocks then (logicalBlock, [])
  else
    let rest := logicalBlock - ext2NdirBlocks
    if rest < count then (ext2IndBlock, [rest])
    else
      let rest := rest - count
      if rest < count * count then (ext2DindBlock, [rest / count, rest % count])
      else
        let rest := rest - count * count
        (ext2TindBlock, [rest / (count * count), rest / count % count, rest % count])

/-- The block of the disk that has a block of the file; 0 is a hole. -/
def blockOf (iBlock : Nat → Nat) (logicalBlock : Nat) : Nat :=
  (pathTo media logicalBlock).2.foldl (follow media) (iBlock (pathTo media logicalBlock).1)

/-- The index blocks on the way are there and in reach, and so is the block itself
unless it is a hole. -/
def PathInReach : (fsblock : Nat) → List Nat → Prop
  | fsblock, [] => fsblock = 0 ∨ media.InReach fsblock
  | fsblock, i :: rest =>
    0 < fsblock ∧ media.InReach fsblock ∧ PathInReach (pointerIn media fsblock i) rest

/-- The way to a block of the file. -/
def Followable (iBlock : Nat → Nat) (logicalBlock : Nat) : Prop :=
  PathInReach media (iBlock (pathTo media logicalBlock).1) (pathTo media logicalBlock).2

/-- The buffer shows a block of the disk. -/
def Shows (buf : Buffer) (fsblock : Nat) : Prop :=
  ∀ i < media.blockSize, buf i = media.block fsblock i

/-- The index blocks that are kept are the ones they are said to be. -/
structure CacheSound (state : Ext2State) : Prop where
  first : ∀ level : Nat, 0 < level → level ≤ 3 → state.mapblock1 = level →
    Shows media state.datablock1 (state.iBlock (level + 11))
  second : state.mapblock2 ≠ -1 → ∃ fsblock : Nat, state.mapblock2 = fsblock ∧
    Shows media state.datablock2 fsblock

end

/-! ## Numbers -/

section Numbers

variable {media : Ext2Media}

/-- A block has a power of two of pointers. -/
theorem addrPerBlock_eq : addrPerBlock media = 2 ^ addrPerBlockBits media := by
  have blocks := media.blocks
  show 2 ^ media.blockBits / 2 ^ 2 = 2 ^ (media.blockBits - 2)
  exact Nat.pow_div (Nat.le_trans (by decide) blocks.1) (by decide)

/-- The shift is a quotient, -/
theorem shiftRight_bits (value : Nat) :
    value >>> addrPerBlockBits media = value / addrPerBlock media := by
  rw [Nat.shiftRight_eq_div_pow, addrPerBlock_eq]

/-- for two levels too, -/
theorem shiftRight_bits_twice (value : Nat) :
    value >>> (addrPerBlockBits media * 2) = value / (addrPerBlock media * addrPerBlock media) := by
  rw [Nat.shiftRight_eq_div_pow, addrPerBlock_eq, Nat.pow_mul, Nat.pow_two]

/-- and the other way a product. -/
theorem shiftLeft_bits_twice :
    1 <<< (addrPerBlockBits media * 2) = addrPerBlock media * addrPerBlock media := by
  rw [Nat.shiftLeft_eq, Nat.one_mul, addrPerBlock_eq, Nat.pow_mul, Nat.pow_two]

/-- The mask is a remainder. -/
theorem and_mask (value : Nat) :
    value &&& (addrPerBlock media - 1) = value % addrPerBlock media := by
  rw [addrPerBlock_eq, Nat.and_two_pow_sub_one_eq_mod]

/-- A block has a pointer at least. -/
theorem addrPerBlock_pos : 0 < addrPerBlock media := by
  rw [addrPerBlock_eq]
  exact Nat.two_pow_pos _

/-- The numbers of blocks in reach are `int`s. -/
theorem toInt32_inReach (whole : media.sectorBits ≤ media.blockBits) {fsblock : Nat}
    (inReach : media.InReach fsblock) : toInt32 fsblock = fsblock := by
  have some_ : 0 < media.blockSize / media.devBsize :=
    Nat.div_pos (Nat.pow_le_pow_right (by decide) whole) (Nat.two_pow_pos _)
  have small : fsblock + 1 ≤ 2 ^ 31 :=
    Nat.le_trans (Nat.le_mul_of_pos_right _ some_)
      (Nat.le_trans (Nat.le_add_left _ _) inReach.2)
  apply toInt32_of_range
  · omega
  · omega

/-- A block that is there is read. -/
theorem follow_of_pos {fsblock i : Nat} (present : 0 < fsblock) :
    follow media fsblock i = pointerIn media fsblock i := if_neg (Nat.ne_of_gt present)

/-- Indices below the number of pointers in a block. -/
theorem shows_pointerAt {buf : Buffer} {fsblock i : Nat} (shows_ : Shows media buf fsblock)
    (inside : i < addrPerBlock media) :
    pointerAt buf i = toInt32 (pointerIn media fsblock i) := by
  rw [addrPerBlock] at inside
  rw [pointerAt, pointerIn, Area.word32, Area.word16, Area.word16, Area.byte, Area.byte,
    Area.byte, Area.byte, shows_ _ (by omega), shows_ _ (by omega), shows_ _ (by omega),
    shows_ _ (by omega)]
  rfl

end Numbers

/-! ## One block -/

/-- The file and the position stay. -/
def SameFile (before after : Ext2State) : Prop :=
  after.iBlock = before.iBlock ∧ after.filepos = before.filepos ∧ after.errnum = before.errnum

/-- What a map must give: the block the pointers lead to, with the caches in order. -/
inductive Mapped (media : Ext2Media) (before : Ext2State) (fsblock : Nat) :
    Ext2State × Int → Prop
  | intro {after : Ext2State} {map : Int} (leads : map = fsblock)
      (sound : CacheSound media after) (same : SameFile before after) :
      Mapped media before fsblock (after, map)

/-- A state is of the same file as itself, -/
theorem SameFile.refl (state : Ext2State) : SameFile state state := ⟨rfl, rfl, rfl⟩

/-- and states of one file are all of it. -/
theorem SameFile.trans {first second third : Ext2State} (before : SameFile first second)
    (after : SameFile second third) : SameFile first third :=
  ⟨after.1.trans before.1, after.2.1.trans before.2.1, after.2.2.trans before.2.2⟩

section Steps

variable {media : Ext2Media} {before state : Ext2State}

/-- Without an error before, a block in reach is read. -/
theorem ext2Rdfsb_clear (whole : media.sectorBits ≤ media.blockBits)
    (noError : media.NoDiskError) (clear : state.errnum = .none) {fsblock : Nat}
    (inReach : media.InReach fsblock) :
    ext2Rdfsb media state fsblock =
      some (media.bytes (fsblock * media.blockSize) media.blockSize) := by
  rw [ext2Rdfsb, ext2Rdfsb_inReach whole noError inReach]
  dsimp only [PartitionMedia.readDone]
  rw [if_pos clear]

/-- The first index block of a level is there, read now or before. -/
theorem mapped_readMap1 (whole : media.sectorBits ≤ media.blockBits)
    (noError : media.NoDiskError) (clear : state.errnum = .none) (sound : CacheSound media state)
    {level fsblock target : Nat} (low : 0 < level) (high : level ≤ 3)
    (isFirst : state.iBlock (level + 11) = fsblock) (inReach : media.InReach fsblock)
    {next : Ext2State → Ext2State × Int}
    (onward : ∀ after, CacheSound media after → SameFile state after →
      after.mapblock2 = state.mapblock2 → Shows media after.datablock1 fsblock →
        Mapped media before target (next after)) :
    Mapped media before target (readMap1 media level fsblock state next) := by
  subst isFirst
  rw [readMap1]
  by_cases cached : state.mapblock1 = level
  · rw [if_pos cached]
    exact onward state sound (.refl state) rfl (sound.first level low high cached)
  · rw [if_neg cached, toInt32_inReach whole inReach, ext2Rdfsb_clear whole noError clear inReach]
    have shows_ : Shows media
        (state.datablock1.fill (media.bytes (state.iBlock (level + 11) * media.blockSize)
          media.blockSize)) (state.iBlock (level + 11)) := fun i inside => fill_block _ _ inside
    apply onward
    · refine ⟨fun other _ _ same => ?_, sound.second⟩
      obtain rfl : level = other := Int.ofNat_inj.mp same
      exact shows_
    · exact ⟨rfl, rfl, rfl⟩
    · rfl
    · exact shows_

/-- An index block is read to DATABLOCK2. -/
theorem mapped_readMap2 (whole : media.sectorBits ≤ media.blockBits)
    (noError : media.NoDiskError) (clear : state.errnum = .none) {fsblock target : Nat}
    (inReach : media.InReach fsblock) {next : Ext2State → Ext2State × Int}
    (onward : ∀ datablock2, Shows media datablock2 fsblock →
      Mapped media before target (next { state with datablock2 })) :
    Mapped media before target (readMap2 media fsblock state next) := by
  rw [readMap2, ext2Rdfsb_clear whole noError clear inReach]
  exact onward _ fun i inside => fill_block _ _ inside

/-- The block that a path in reach leads to is an `int`. -/
theorem toInt32_last (whole : media.sectorBits ≤ media.blockBits) {fsblock : Nat}
    (last : fsblock = 0 ∨ media.InReach fsblock) : toInt32 fsblock = fsblock := by
  rcases last with rfl | inReach
  · rfl
  · exact toInt32_inReach whole inReach

/-- Both indices of an address in a double indirect block. -/
theorem index_lt {value : Nat} (small : value < addrPerBlock media * addrPerBlock media) :
    value / addrPerBlock media < addrPerBlock media :=
  Nat.div_lt_of_lt_mul small

/-- A remainder is an index in the block. -/
theorem mod_lt_addrPerBlock (value : Nat) : value % addrPerBlock media < addrPerBlock media :=
  Nat.mod_lt _ addrPerBlock_pos

/-- With the position an `int`, no file is too long for three levels. -/
theorem tripleIndex_lt {logicalBlock : Nat}
    (small : logicalBlock * media.blockSize < 2 ^ 31) :
    logicalBlock / (addrPerBlock media * addrPerBlock media) < addrPerBlock media := by
  apply Nat.div_lt_of_lt_mul
  obtain ⟨low, high⟩ := media.blocks
  rw [addrPerBlock_eq, addrPerBlockBits]
  rw [Ext2Media.blockSize] at small
  obtain bits | bits | bits | bits : media.blockBits = 10 ∨ media.blockBits = 11 ∨
      media.blockBits = 12 ∨ media.blockBits = 13 := by omega
  · rw [bits] at small ⊢
    omega
  · rw [bits] at small ⊢
    omega
  · rw [bits] at small ⊢
    omega
  · rw [bits] at small ⊢
    omega

/-- Blocks behind one index block. -/
theorem mapped_single (whole : media.sectorBits ≤ media.blockBits)
    (noError : media.NoDiskError) (clear : state.errnum = .none) (sound : CacheSound media state)
    {i : Nat} (inside : i < addrPerBlock media)
    (followable : PathInReach media (state.iBlock ext2IndBlock) [i]) :
    Mapped media state (follow media (state.iBlock ext2IndBlock) i)
      (readMap1 media 1 (state.iBlock ext2IndBlock) state fun state =>
        (state, pointerAt state.datablock1 i)) := by
  obtain ⟨present, inReach, last⟩ := followable
  apply @mapped_readMap1 media state state whole noError clear sound 1 (state.iBlock ext2IndBlock)
    _ (by decide) (by decide) rfl inReach
  intro after sound' same _ shows_
  apply Mapped.intro
  · rw [shows_pointerAt shows_ inside, toInt32_last whole last, follow_of_pos present]
  · exact sound'
  · exact same

/-- Blocks behind two, where the second may be the one that was read last. -/
theorem mapped_double (whole : media.sectorBits ≤ media.blockBits)
    (noError : media.NoDiskError) (clear : state.errnum = .none) (sound : CacheSound media state)
    {i j : Nat} (outer : i < addrPerBlock media) (inner : j < addrPerBlock media)
    (followable : PathInReach media (state.iBlock ext2DindBlock) [i, j]) :
    Mapped media state (follow media (follow media (state.iBlock ext2DindBlock) i) j)
      (readMap1 media 2 (state.iBlock ext2DindBlock) state fun state =>
        let bnum := pointerAt state.datablock1 i
        let found := fun state : Ext2State =>
          ({ state with mapblock2 := bnum }, pointerAt state.datablock2 j)
        if bnum ≠ state.mapblock2 then readMap2 media bnum state found else found state) := by
  obtain ⟨present, inReach, present', inReach', last⟩ := followable
  rw [follow_of_pos present, follow_of_pos present']
  apply @mapped_readMap1 media state state whole noError clear sound 2 (state.iBlock ext2DindBlock)
    _ (by decide) (by decide) rfl inReach
  intro after sound' same _ shows_
  dsimp only
  rw [shows_pointerAt shows_ outer, toInt32_inReach whole inReach']
  split
  case isTrue other =>
      apply mapped_readMap2 whole noError (same.2.2.trans clear) inReach'
      intro datablock2 shows'
      apply Mapped.intro
      · rw [shows_pointerAt shows' inner, toInt32_last whole last]
      · exact ⟨sound'.first, fun _ => ⟨_, rfl, shows'⟩⟩
      · exact same
  case isFalse cached =>
      have cached := not_not.mp cached
      obtain ⟨fsblock, isCached, shows'⟩ := sound'.second (by omega)
      obtain rfl := Int.ofNat_inj.mp (cached.trans isCached)
      apply Mapped.intro
      · rw [shows_pointerAt shows' inner, toInt32_last whole last]
      · exact ⟨sound'.first, fun _ => ⟨_, rfl, shows'⟩⟩
      · exact same

/-- Blocks behind three, where both of the inner ones go to the same buffer. -/
theorem mapped_triple (whole : media.sectorBits ≤ media.blockBits)
    (noError : media.NoDiskError) (clear : state.errnum = .none) (sound : CacheSound media state)
    {i j k : Nat} (outer : i < addrPerBlock media) (middle : j < addrPerBlock media)
    (inner : k < addrPerBlock media)
    (followable : PathInReach media (state.iBlock ext2TindBlock) [i, j, k]) :
    Mapped media state
      (follow media (follow media (follow media (state.iBlock ext2TindBlock) i) j) k)
      (readMap1 media 3 (state.iBlock ext2TindBlock) { state with mapblock2 := -1 } fun state =>
        readMap2 media (pointerAt state.datablock1 i) state fun state =>
          readMap2 media (pointerAt state.datablock2 j) state fun state =>
            (state, pointerAt state.datablock2 k)) := by
  obtain ⟨present, inReach, present', inReach', present'', inReach'', last⟩ := followable
  rw [follow_of_pos present, follow_of_pos present', follow_of_pos present'']
  have forgotten : CacheSound media { state with mapblock2 := -1 } :=
    ⟨sound.first, fun known => absurd rfl known⟩
  apply @mapped_readMap1 media state { state with mapblock2 := -1 } whole noError clear forgotten 3
    (state.iBlock ext2TindBlock) _ (by decide) (by decide) rfl inReach
  intro after sound' same none_ shows_
  have stillClear : after.errnum = .none := same.2.2.trans clear
  rw [shows_pointerAt shows_ outer, toInt32_inReach whole inReach']
  apply mapped_readMap2 whole noError stillClear inReach'
  intro firstBlock firstShows
  rw [shows_pointerAt firstShows middle, toInt32_inReach whole inReach'']
  refine mapped_readMap2 whole noError ?_ inReach'' ?_
  · exact stillClear
  intro secondBlock secondShows
  apply Mapped.intro
  · rw [shows_pointerAt secondShows inner, toInt32_last whole last]
  · exact ⟨sound'.first, fun known => absurd none_ known⟩
  · exact same

/-- A block of the file is mapped to where the pointers lead, whatever is cached. -/
theorem ext2fsBlockMap_mapped (whole : media.sectorBits ≤ media.blockBits)
    (noError : media.NoDiskError) (clear : state.errnum = .none) (sound : CacheSound media state)
    {logicalBlock : Nat} (small : logicalBlock * media.blockSize < 2 ^ 31)
    (followable : Followable media state.iBlock logicalBlock) :
    Mapped media state (blockOf media state.iBlock logicalBlock)
      (ext2fsBlockMap media state logicalBlock) := by
  rw [Followable, pathTo] at followable
  rw [ext2fsBlockMap, blockOf, pathTo]
  dsimp only at followable ⊢
  by_cases direct : logicalBlock < ext2NdirBlocks
  · rw [if_pos direct] at followable
    rw [if_pos direct, if_pos direct, toInt32_last whole followable]
    exact .intro rfl sound (.refl state)
  rw [if_neg direct] at followable
  rw [if_neg direct, if_neg direct]
  by_cases single : logicalBlock - ext2NdirBlocks < addrPerBlock media
  · rw [if_pos single] at followable
    rw [if_pos single, if_pos single]
    exact mapped_single whole noError clear sound single followable
  rw [if_neg single] at followable
  rw [if_neg single, if_neg single]
  rw [shiftLeft_bits_twice]
  by_cases double : logicalBlock - ext2NdirBlocks - addrPerBlock media <
      addrPerBlock media * addrPerBlock media
  · rw [if_pos double] at followable
    rw [if_pos double, if_pos double, shiftRight_bits, and_mask]
    exact mapped_double whole noError clear sound (index_lt double) (mod_lt_addrPerBlock _)
      followable
  · rw [if_neg double] at followable
    rw [if_neg double, if_neg double, shiftRight_bits_twice, shiftRight_bits, and_mask, and_mask]
    refine mapped_triple whole noError clear sound ?_ (mod_lt_addrPerBlock _)
      (mod_lt_addrPerBlock _) followable
    apply Nat.lt_of_le_of_lt (Nat.div_le_div_right _) (tripleIndex_lt small)
    omega

end Steps

end GrubLegacy.Fsys
