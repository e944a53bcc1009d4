import GrubLegacy.Base.BinarySearch
import GrubLegacy.Partition.SliceTables

/-!
# Extents

`ext4fs_block_map` of `fsys_ext2fs.c`, which maps the blocks of a file through the
extent tree that starts in its inode, and what such a tree says.
-/

namespace GrubLegacy.Fsys

open Base Stage2 GrubLegacy.Partition

/-! ## Nodes on the disk -/

/-- EXT4_EXT_MAGIC -/
def ext4ExtMagic : Nat := 0xf30a

/-- The blocks of a file system: what a buffer holds after a block was read to it, and
whether `ext2_rdfsb` succeeds. What it holds past the size of a block is left open. -/
structure FsBlocks where
  block : Nat → Buffer
  readable : Nat → Bool

/-- `ext2_rdfsb`. The number is passed as an `int`. -/
def FsBlocks.ext2Rdfsb (fs : FsBlocks) (fsblock : Nat) : Option Buffer :=
  if fs.readable fsblock then some (fs.block fsblock) else none

/-- `struct ext4_extent` -/
structure Extent where
  block : Nat
  len : Nat
  startHi : Nat
  startLo : Nat
deriving DecidableEq, Repr

/-- `struct ext4_extent_idx` -/
structure ExtentIdx where
  block : Nat
  leafLo : Nat
  leafHi : Nat
deriving DecidableEq, Repr

/-- `eh_magic` -/
def ehMagic (eh : Buffer) : Nat := eh.word16 0

/-- `eh_entries` -/
def ehEntries (eh : Buffer) : Nat := eh.word16 2

/-- `eh_depth` -/
def ehDepth (eh : Buffer) : Nat := eh.word16 6

/-- The extents behind a header. -/
def extentAt (eh : Buffer) (i : Nat) : Extent :=
  { block := eh.word32 (12 + 12 * i)
    len := eh.word16 (12 + 12 * i + 4)
    startHi := eh.word16 (12 + 12 * i + 6)
    startLo := eh.word32 (12 + 12 * i + 8) }

/-- The indices behind a header. -/
def indexAt (eh : Buffer) (i : Nat) : ExtentIdx :=
  { block := eh.word32 (12 + 12 * i)
    leafLo := eh.word32 (12 + 12 * i + 4)
    leafHi := eh.word16 (12 + 12 * i + 8) }

/-! ## The map -/

/-- `ext4_ext_binsearch_idx` -/
def ext4ExtBinsearchIdx (eh : Buffer) (logicalBlock : Nat) : Nat :=
  (searchLast (fun i => (indexAt eh i).block) logicalBlock (ehEntries eh) 1
    (ehEntries eh - 1)).toNat

/-- `ext4_ext_binsearch` -/
def ext4ExtBinsearch (eh : Buffer) (logicalBlock : Nat) : Nat :=
  (searchLast (fun i => (extentAt eh i).block) logicalBlock (ehEntries eh) 1
    (ehEntries eh - 1)).toNat

/-- The loop of `ext4fs_block_map` over the index levels, for at most that many. -/
def ext4Descend (fs : FsBlocks) (logicalBlock : Nat) :
    (levels : Nat) → (eh : Buffer) → Option (Except GrubError Buffer)
  | 0, eh => if ehDepth eh = 0 then some (.ok eh) else none
  | levels + 1, eh =>
    if ehDepth eh = 0 then some (.ok eh)
    else if ehMagic eh ≠ ext4ExtMagic then some (.error .fsysCorrupt)
    else
      let ei := indexAt eh (ext4ExtBinsearchIdx eh logicalBlock)
      if ei.leafHi ≠ 0 then some (.error .filelength)
      else
        match fs.ext2Rdfsb ei.leafLo with
        | none => some (.error .fsysCorrupt)
        | some datablock1 => ext4Descend fs logicalBlock levels datablock1

/-- `ext4fs_block_map` from the extent on that it has found. -/
def ext4MapExtent (ex : Extent) (logicalBlock : Nat) : Except GrubError Int :=
  if ex.startHi ≠ 0 then .error .filelength
  else if (ex.block + ex.len) % 2 ^ 32 < logicalBlock then .error .fsysCorrupt
  else .ok (toInt32 (ex.startLo + logicalBlock - ex.block))

/-- `ext4fs_block_map`: the error it leaves when it returns -1, or what it returns.
A tree of more levels than that is not followed to its end. -/
def ext4fsBlockMap (fs : FsBlocks) (levels : Nat) (iBlock : Buffer) (logicalBlock : Nat) :
    Option (Except GrubError Int) :=
  if ehMagic iBlock ≠ ext4ExtMagic then some (.error .fsysCorrupt)
  else
    match ext4Descend fs logicalBlock levels iBlock with
    | none => none
    | some (.error errnum) => some (.error errnum)
    | some (.ok eh) =>
      some (ext4MapExtent (extentAt eh (ext4ExtBinsearch eh logicalBlock)) logicalBlock)

/-! ## What a tree says -/

/-- Longer lengths are those of unwritten extents. -/
def extInitMaxLen : Nat := 0x8000

def Extent.Initialized (ex : Extent) : Prop := ex.len ≤ extInitMaxLen

instance (ex : Extent) : Decidable ex.Initialized := inferInstanceAs (Decidable (_ ≤ _))

/-- The number of blocks in an extent. -/
def Extent.blocks (ex : Extent) : Nat :=
  if ex.len ≤ extInitMaxLen then ex.len else ex.len - extInitMaxLen

def Extent.Covers (ex : Extent) (logicalBlock : Nat) : Prop :=
  ex.block ≤ logicalBlock ∧ logicalBlock < ex.block + ex.blocks

instance (ex : Extent) (logicalBlock : Nat) : Decidable (ex.Covers logicalBlock) :=
  inferInstanceAs (Decidable (_ ∧ _))

/-- Where an extent puts a block. -/
def Extent.physical (ex : Extent) (logicalBlock : Nat) : Nat :=
  ex.startHi * 2 ^ 32 + ex.startLo + (logicalBlock - ex.block)

/-- The block an index points to. -/
def ExtentIdx.leaf (ei : ExtentIdx) : Nat := ei.leafHi * 2 ^ 32 + ei.leafLo

/-- The extents of a leaf: behind a header, in order, apart and between the bounds. -/
structure WellFormedLeaf (node : Buffer) (low high : Nat) : Prop where
  magic : ehMagic node = ext4ExtMagic
  depth : ehDepth node = 0
  nonempty : ∀ i < ehEntries node, 0 < (extentAt node i).blocks
  low : ∀ i < ehEntries node, low ≤ (extentAt node i).block
  high : ∀ i < ehEntries node, (extentAt node i).block + (extentAt node i).blocks ≤ high
  apart : ∀ i j, i < j → j < ehEntries node →
    (extentAt node i).block + (extentAt node i).blocks ≤ (extentAt node j).block

/-- The indices of a node, at least one. -/
structure WellFormedIndex (node : Buffer) (depth low : Nat) : Prop where
  magic : ehMagic node = ext4ExtMagic
  depth : ehDepth node = depth
  nonempty : 0 < ehEntries node
  low : ∀ i < ehEntries node, low ≤ (indexAt node i).block
  ascending : ∀ i j, i < j → j < ehEntries node → (indexAt node i).block < (indexAt node j).block

/-- Where the blocks below an index end. -/
def indexEnd (node : Buffer) (high i : Nat) : Nat :=
  if i + 1 < ehEntries node then (indexAt node (i + 1)).block else high

/-- A well-formed tree of that depth, for the blocks between the bounds. -/
def WellFormed (fs : FsBlocks) : (depth : Nat) → (node : Buffer) → (low high : Nat) → Prop
  | 0, node, low, high => WellFormedLeaf node low high
  | depth + 1, node, low, high =>
    WellFormedIndex node (depth + 1) low ∧ ∀ i < ehEntries node,
      indexEnd node high i ≤ high ∧
        WellFormed fs depth (fs.block (indexAt node i).leaf) (indexAt node i).block
          (indexEnd node high i)

/-- The tree assigns a physical block: an initialized extent covers the block. -/
def Assigns (fs : FsBlocks) : (depth : Nat) → (node : Buffer) → (logicalBlock physical : Nat) → Prop
  | 0, node, logicalBlock, physical => ∃ i < ehEntries node, (extentAt node i).Initialized ∧
      (extentAt node i).Covers logicalBlock ∧
        physical = (extentAt node i).physical logicalBlock
  | depth + 1, node, logicalBlock, physical => ∃ i < ehEntries node,
      Assigns fs depth (fs.block (indexAt node i).leaf) logicalBlock physical

/-- The extent that begins last up to the block: on the way to it each index is the
last one up to the block. -/
def Nearest (fs : FsBlocks) : (depth : Nat) → (node : Buffer) → (logicalBlock : Nat) → Extent → Prop
  | 0, node, logicalBlock, ex =>
    ∃ i, LastUpTo (fun i => (extentAt node i).block) (ehEntries node) logicalBlock i ∧
      ex = extentAt node i
  | depth + 1, node, logicalBlock, ex =>
    ∃ i, LastUpTo (fun i => (indexAt node i).block) (ehEntries node) logicalBlock i ∧
      Nearest fs depth (fs.block (indexAt node i).leaf) logicalBlock ex

/-- The blocks on the way to it have 32-bit numbers and can be read. -/
def PathReads (fs : FsBlocks) : (depth : Nat) → (node : Buffer) → (logicalBlock : Nat) → Prop
  | 0, _, _ => True
  | depth + 1, node, logicalBlock =>
    ∃ i, LastUpTo (fun i => (indexAt node i).block) (ehEntries node) logicalBlock i ∧
      (indexAt node i).leafHi = 0 ∧ fs.readable (indexAt node i).leafLo = true ∧
        PathReads fs depth (fs.block (indexAt node i).leaf) logicalBlock

/-! ## The searches -/

section Nodes

variable {fs : FsBlocks} {node : Buffer} {low high depth logicalBlock : Nat}

/-- The extents of a leaf are in ascending order, -/
theorem WellFormedLeaf.ascending (wellFormed : WellFormedLeaf node low high) :
    Ascending (fun i => (extentAt node i).block) (ehEntries node) := by
  intro i j before inside
  rcases Nat.eq_or_lt_of_le before with rfl | before
  · exact Nat.le_refl _
  · have apart := wellFormed.apart i j before inside
    exact Nat.le_trans (Nat.le_add_right _ _) apart

/-- and so are the keys of an index. -/
theorem WellFormedIndex.ascendingKeys (wellFormed : WellFormedIndex node depth low) :
    Ascending (fun i => (indexAt node i).block) (ehEntries node) := by
  intro i j before inside
  rcases Nat.eq_or_lt_of_le before with rfl | before
  · exact Nat.le_refl _
  · exact Nat.le_of_lt (wellFormed.ascending i j before inside)

/-- Both searches find the last key up to the block. -/
theorem searchLast_toNat_lastUpTo {key : Nat → Nat} {count : Nat} (ascending : Ascending key count) :
    LastUpTo key count logicalBlock (searchLast key logicalBlock count 1 (count - 1)).toNat := by
  obtain ⟨i, found, last⟩ := @searchLast_lastUpTo Nat _ key count logicalBlock 1 (count - 1)
    ascending count (by omega) (candidates_all key count logicalBlock)
  rw [found]
  exact last

/-- The search of a leaf finds the last extent that starts up to the block, -/
theorem WellFormedLeaf.search (wellFormed : WellFormedLeaf node low high) :
    LastUpTo (fun i => (extentAt node i).block) (ehEntries node) logicalBlock
      (ext4ExtBinsearch node logicalBlock) :=
  searchLast_toNat_lastUpTo wellFormed.ascending

/-- and that of an index the last child. -/
theorem WellFormedIndex.search (wellFormed : WellFormedIndex node depth low) :
    LastUpTo (fun i => (indexAt node i).block) (ehEntries node) logicalBlock
      (ext4ExtBinsearchIdx node logicalBlock) :=
  searchLast_toNat_lastUpTo wellFormed.ascendingKeys

/-- In an index node it is one of the entries. -/
theorem WellFormedIndex.lastUpTo_inside (wellFormed : WellFormedIndex node depth low) {i : Nat}
    (last : LastUpTo (fun i => (indexAt node i).block) (ehEntries node) logicalBlock i) :
    i < ehEntries node := by
  rcases last.inside with rfl | inside
  · exact wellFormed.nonempty
  · exact inside

/-! ## What is assigned -/

/-- What a tree assigns lies between its bounds. -/
theorem Assigns.bounds {physical : Nat} (wellFormed : WellFormed fs depth node low high)
    (assigns : Assigns fs depth node logicalBlock physical) :
    low ≤ logicalBlock ∧ logicalBlock < high := by
  induction depth generalizing node low high with
  | zero =>
      obtain ⟨i, inside, _, ⟨first, last⟩, _⟩ := assigns
      exact ⟨Nat.le_trans (wellFormed.low i inside) first,
        Nat.lt_of_lt_of_le last (wellFormed.high i inside)⟩
  | succ depth inductionHypothesis =>
      obtain ⟨i, inside, assigns⟩ := assigns
      obtain ⟨index, children⟩ := wellFormed
      obtain ⟨within, child⟩ := children i inside
      obtain ⟨first, last⟩ := inductionHypothesis child assigns
      exact ⟨Nat.le_trans (index.low i inside) first, Nat.lt_of_lt_of_le last within⟩

/-- The extent that covers a block is the nearest one. -/
theorem Assigns.nearest {physical : Nat} (wellFormed : WellFormed fs depth node low high)
    (assigns : Assigns fs depth node logicalBlock physical) :
    ∃ ex, Nearest fs depth node logicalBlock ex ∧ ex.Initialized ∧ ex.Covers logicalBlock ∧
      physical = ex.physical logicalBlock := by
  induction depth generalizing node low high with
  | zero =>
      obtain ⟨i, inside, initialized, covers, isPhysical⟩ := assigns
      refine ⟨_, ⟨i, ⟨.inr inside, fun _ => covers.1, fun j later count => ?_⟩, rfl⟩, initialized,
        covers, isPhysical⟩
      exact Nat.lt_of_lt_of_le covers.2 (wellFormed.apart i j later count)
  | succ depth inductionHypothesis =>
      obtain ⟨i, inside, assigns⟩ := assigns
      obtain ⟨index, children⟩ := wellFormed
      obtain ⟨_, child⟩ := children i inside
      obtain ⟨ex, nearest, rest⟩ := inductionHypothesis child assigns
      obtain ⟨first, last⟩ := assigns.bounds child
      refine ⟨ex, ⟨i, ⟨.inr inside, fun _ => first, fun j later count => ?_⟩, nearest⟩, rest⟩
      have next : indexEnd node high i = (indexAt node (i + 1)).block :=
        if_pos (Nat.lt_of_le_of_lt later count)
      rw [next] at last
      exact Nat.lt_of_lt_of_le last (index.ascendingKeys (i + 1) j later count)

/-- There is one nearest extent at most. -/
theorem Nearest.unique {ex ex' : Extent} (left : Nearest fs depth node logicalBlock ex)
    (right : Nearest fs depth node logicalBlock ex') : ex = ex' := by
  induction depth generalizing node with
  | zero =>
      obtain ⟨i, last, rfl⟩ := left
      obtain ⟨j, last', rfl⟩ := right
      rw [last.unique last']
  | succ depth inductionHypothesis =>
      obtain ⟨i, last, left⟩ := left
      obtain ⟨j, last', right⟩ := right
      rw [last'.unique last] at right
      exact inductionHypothesis left right

/-! ## What is returned -/

/-- The loop follows the indices to the leaf with the nearest extent. -/
theorem ext4Descend_of_pathReads {levels : Nat} (enough : depth ≤ levels)
    (wellFormed : WellFormed fs depth node low high)
    (reads : PathReads fs depth node logicalBlock) :
    ∃ leaf, ext4Descend fs logicalBlock levels node = some (.ok leaf) ∧
      Nearest fs depth node logicalBlock (extentAt leaf (ext4ExtBinsearch leaf logicalBlock)) := by
  induction depth generalizing node low high levels with
  | zero =>
      refine ⟨node, ?_, ext4ExtBinsearch node logicalBlock, wellFormed.search, rfl⟩
      cases levels with
      | zero => exact if_pos wellFormed.depth
      | succ levels => exact if_pos wellFormed.depth
  | succ depth inductionHypothesis =>
      obtain ⟨index, children⟩ := wellFormed
      obtain ⟨i, last, small, readable, reads⟩ := reads
      obtain ⟨_, child⟩ := children i (index.lastUpTo_inside last)
      cases levels with
      | zero => omega
      | succ levels =>
          have fewer : depth ≤ levels := Nat.le_of_succ_le_succ enough
          obtain ⟨leaf, descends, nearest⟩ := inductionHypothesis fewer child reads
          refine ⟨leaf, ?_, i, last, nearest⟩
          have number : (indexAt node i).leaf = (indexAt node i).leafLo := by
            rw [ExtentIdx.leaf, small, Nat.zero_mul, Nat.zero_add]
          rw [ext4Descend, if_neg (by rw [index.depth]; omega),
            if_neg (fun other => other index.magic)]
          dsimp only
          rw [index.search.unique last, if_neg (fun large => large small), FsBlocks.ext2Rdfsb,
            if_pos readable, ← number]
          exact descends

/-- Otherwise it ends with an error. -/
theorem ext4Descend_of_not_pathReads {levels : Nat} (enough : depth ≤ levels)
    (wellFormed : WellFormed fs depth node low high)
    (fails : ¬ PathReads fs depth node logicalBlock) :
    ∃ errnum, ext4Descend fs logicalBlock levels node = some (.error errnum) := by
  induction depth generalizing node low high levels with
  | zero => exact absurd trivial fails
  | succ depth inductionHypothesis =>
      obtain ⟨index, children⟩ := wellFormed
      have last := @WellFormedIndex.search node low (depth + 1) logicalBlock index
      obtain ⟨_, child⟩ := children _ (index.lastUpTo_inside last)
      cases levels with
      | zero => omega
      | succ levels =>
          rw [ext4Descend, if_neg (by rw [index.depth]; omega),
            if_neg (fun other => other index.magic)]
          dsimp only
          by_cases small : (indexAt node (ext4ExtBinsearchIdx node logicalBlock)).leafHi = 0
          · rw [if_neg (fun large => large small), FsBlocks.ext2Rdfsb]
            by_cases readable : fs.readable
                (indexAt node (ext4ExtBinsearchIdx node logicalBlock)).leafLo = true
            · have number : (indexAt node (ext4ExtBinsearchIdx node logicalBlock)).leaf =
                  (indexAt node (ext4ExtBinsearchIdx node logicalBlock)).leafLo := by
                rw [ExtentIdx.leaf, small, Nat.zero_mul, Nat.zero_add]
              rw [if_pos readable, ← number]
              exact inductionHypothesis (Nat.le_of_succ_le_succ enough) child fun reads =>
                fails ⟨_, last, small, readable, reads⟩
            · rw [if_neg readable]
              exact ⟨_, rfl⟩
          · rw [if_pos small]
            exact ⟨_, rfl⟩

/-- A well-formed node has its magic. -/
theorem WellFormed.magic (wellFormed : WellFormed fs depth node low high) :
    ehMagic node = ext4ExtMagic := by
  cases depth with
  | zero => exact wellFormed.1
  | succ depth => exact wellFormed.1.magic

/-- With the way to it readable, the nearest extent decides. -/
theorem ext4fsBlockMap_of_pathReads {levels : Nat} {ex : Extent} (enough : depth ≤ levels)
    (wellFormed : WellFormed fs depth node low high)
    (reads : PathReads fs depth node logicalBlock)
    (nearest : Nearest fs depth node logicalBlock ex) :
    ext4fsBlockMap fs levels node logicalBlock = some (ext4MapExtent ex logicalBlock) := by
  obtain ⟨leaf, descends, found⟩ := ext4Descend_of_pathReads enough wellFormed reads
  rw [ext4fsBlockMap, if_neg (fun other => other wellFormed.magic), descends]
  dsimp only
  rw [found.unique nearest]

/-- If a node on the path cannot be read the map fails. -/
theorem ext4fsBlockMap_of_not_pathReads {levels : Nat} (enough : depth ≤ levels)
    (wellFormed : WellFormed fs depth node low high)
    (fails : ¬ PathReads fs depth node logicalBlock) :
    ∃ errnum, ext4fsBlockMap fs levels node logicalBlock = some (.error errnum) := by
  obtain ⟨errnum, descends⟩ := ext4Descend_of_not_pathReads enough wellFormed fails
  rw [ext4fsBlockMap, if_neg (fun other => other wellFormed.magic), descends]
  exact ⟨errnum, rfl⟩

/-- There is a nearest extent. -/
theorem exists_nearest (wellFormed : WellFormed fs depth node low high) :
    ∃ ex, Nearest fs depth node logicalBlock ex := by
  induction depth generalizing node low high with
  | zero => exact ⟨_, _, wellFormed.search, rfl⟩
  | succ depth inductionHypothesis =>
      obtain ⟨index, children⟩ := wellFormed
      have last := @WellFormedIndex.search node low (depth + 1) logicalBlock index
      obtain ⟨ex, nearest⟩ := inductionHypothesis (children _ (index.lastUpTo_inside last)).2
      exact ⟨ex, _, last, nearest⟩

/-! ## When it is right -/

/-- A covered block comes to its physical one if that is an `int`. -/
theorem ext4MapExtent_covered_iff {ex : Extent} (covers : ex.Covers logicalBlock)
    (initialized : ex.Initialized) (small : logicalBlock < 2 ^ 31) :
    ext4MapExtent ex logicalBlock = .ok (ex.physical logicalBlock : Int) ↔
      ex.physical logicalBlock < 2 ^ 31 := by
  obtain ⟨first, last⟩ := covers
  have length : ex.blocks = ex.len := if_pos initialized
  rw [Extent.Initialized, extInitMaxLen] at initialized
  rw [ext4MapExtent, Extent.physical]
  by_cases large : ex.startHi = 0
  · rw [if_neg (fun other => other large), if_neg (by omega), Except.ok.injEq, toInt32]
    omega
  · rw [if_pos large]
    refine iff_of_false nofun ?_
    omega

/-- For another block it comes to a hole when the numbers happen to be right. -/
theorem ext4MapExtent_hole_iff {ex : Extent} (entry : ex.block < 2 ^ 32) :
    ext4MapExtent ex logicalBlock = .ok 0 ↔
      ex.startHi = 0 ∧ logicalBlock ≤ (ex.block + ex.len) % 2 ^ 32 ∧
        (ex.startLo + logicalBlock) % 2 ^ 32 = ex.block := by
  rw [ext4MapExtent]
  by_cases large : ex.startHi = 0
  · rw [if_neg (fun other => other large)]
    by_cases past : (ex.block + ex.len) % 2 ^ 32 < logicalBlock
    · rw [if_pos past]
      exact iff_of_false nofun fun held => absurd held.2.1 (Nat.not_le.mpr past)
    · rw [if_neg past, Except.ok.injEq, toInt32]
      omega
  · rw [if_pos large]
    exact iff_of_false nofun fun held => large held.1

end Nodes

/-- A block is mapped as the tree says: to what it assigns, or else to a hole. -/
def MapsTo (fs : FsBlocks) (depth : Nat) (node : Buffer) (logicalBlock : Nat)
    (map : Option (Except GrubError Int)) : Prop :=
  (∀ physical, Assigns fs depth node logicalBlock physical → map = some (.ok physical)) ∧
    ((∀ physical, ¬ Assigns fs depth node logicalBlock physical) → map = some (.ok 0))

/-- Blocks that are assigned have a number that is an `int`. For another one the nearest
extent has the block just where it puts it at 0. -/
def Mappable (fs : FsBlocks) (depth : Nat) (node : Buffer) (logicalBlock : Nat) : Prop :=
  (∃ physical, Assigns fs depth node logicalBlock physical ∧ physical < 2 ^ 31) ∨
    (∀ physical, ¬ Assigns fs depth node logicalBlock physical) ∧
      ∃ ex, Nearest fs depth node logicalBlock ex ∧ ex.startHi = 0 ∧
        logicalBlock ≤ (ex.block + ex.len) % 2 ^ 32 ∧
          (ex.startLo + logicalBlock) % 2 ^ 32 = ex.block

/-- The nearest extent starts at a 32-bit block. -/
theorem Nearest.block_lt {fs : FsBlocks} {depth logicalBlock : Nat} {node : Buffer} {ex : Extent}
    (nearest : Nearest fs depth node logicalBlock ex) : ex.block < 2 ^ 32 := by
  induction depth generalizing node with
  | zero =>
      obtain ⟨i, _, rfl⟩ := nearest
      exact Area.word32_lt _ _
  | succ depth inductionHypothesis =>
      obtain ⟨i, _, below⟩ := nearest
      exact inductionHypothesis below

/-- A well-formed tree is followed as it says exactly when the index blocks on the way
can be read and the block is covered by an initialized extent with 31-bit block
numbers, up to holes that come out as such by accident. -/
theorem ext4fsBlockMap_mapsTo_iff (fs : FsBlocks) {depth levels : Nat} (enough : depth ≤ levels)
    (iBlock : Buffer) (wellFormed : WellFormed fs depth iBlock 0 (2 ^ 32)) {logicalBlock : Nat}
    (small : logicalBlock < 2 ^ 31) :
    MapsTo fs depth iBlock logicalBlock (ext4fsBlockMap fs levels iBlock logicalBlock) ↔
      PathReads fs depth iBlock logicalBlock ∧ Mappable fs depth iBlock logicalBlock := by
  by_cases reads : PathReads fs depth iBlock logicalBlock
  · rw [and_iff_right reads]
    obtain ⟨ex, nearest⟩ := @exists_nearest fs iBlock 0 (2 ^ 32) depth logicalBlock wellFormed
    rw [MapsTo, Mappable, ext4fsBlockMap_of_pathReads enough wellFormed reads nearest,
      Option.some.injEq, ext4MapExtent_hole_iff nearest.block_lt]
    by_cases assigned : ∃ physical, Assigns fs depth iBlock logicalBlock physical
    · obtain ⟨physical, assigns⟩ := assigned
      have value : ∀ physical', Assigns fs depth iBlock logicalBlock physical' →
          ex.Initialized ∧ ex.Covers logicalBlock ∧ physical' = ex.physical logicalBlock := by
        intro physical' assigns'
        obtain ⟨ex', nearest', rest⟩ := assigns'.nearest wellFormed
        rw [nearest'.unique nearest] at rest
        exact rest
      obtain ⟨initialized, covers, isPhysical⟩ := value physical assigns
      have right := ext4MapExtent_covered_iff covers initialized small
      constructor
      · rintro ⟨maps, _⟩
        have here := Option.some.inj (maps physical assigns)
        rw [isPhysical] at here assigns
        exact .inl ⟨_, assigns, right.mp here⟩
      · rintro (⟨physical', assigns', fits⟩ | ⟨unassigned, _⟩)
        · refine ⟨fun other assignsOther => ?_, fun unassigned =>
            absurd assigns (unassigned physical)⟩
          rw [(value physical' assigns').2.2] at fits
          rw [(value other assignsOther).2.2, right.mpr fits]
        · exact absurd assigns (unassigned physical)
    · have unassigned := not_exists.mp assigned
      constructor
      · rintro ⟨_, hole⟩
        exact .inr ⟨unassigned, ex, nearest, hole unassigned⟩
      · rintro (⟨physical, assigns, _⟩ | ⟨_, ex', nearest', hole⟩)
        · exact absurd assigns (unassigned physical)
        · rw [nearest'.unique nearest] at hole
          exact ⟨fun physical assigns => absurd assigns (unassigned physical), fun _ => hole⟩
  · obtain ⟨errnum, fails⟩ := ext4fsBlockMap_of_not_pathReads enough wellFormed reads
    rw [fails]
    refine iff_of_false ?_ fun held => reads held.1
    rintro ⟨maps, hole⟩
    by_cases assigned : ∃ physical, Assigns fs depth iBlock logicalBlock physical
    · obtain ⟨physical, assigns⟩ := assigned
      cases maps physical assigns
    · cases hole (not_exists.mp assigned)

/-- A root with one extent: blocks 10 to 14 of the file at 1000, unwritten or not. -/
def oneExtent (unwritten : Bool) : Buffer :=
  Area.fill (fun _ => 0) ([0x0A, 0xF3, 1, 0, 4, 0, 0, 0, 0, 0, 0, 0] ++
    [10, 0, 0, 0, 5, if unwritten then 0x80 else 0, 0, 0, 0xE8, 0x03, 0, 0])

/-- The blocks of a file system full of zeroes. -/
def zeroBlocks : FsBlocks where
  block _ _ := 0
  readable _ := true

/-- A node with one extent is well formed, -/
theorem oneExtent_wellFormed (unwritten : Bool) :
    WellFormed zeroBlocks 0 (oneExtent unwritten) 0 (2 ^ 32) := by
  have one : ∀ unwritten, ehEntries (oneExtent unwritten) = 1 := by decide +kernel
  refine ⟨?_, ?_, ?_, ?_, ?_, fun i j before inside => ?_⟩
  · revert unwritten
    decide +kernel
  · revert unwritten
    decide +kernel
  · revert unwritten
    decide +kernel
  · revert unwritten
    decide +kernel
  · revert unwritten
    decide +kernel
  · rw [one] at inside
    omega

/-- Only the blocks of the extent can be assigned. -/
theorem oneExtent_assigns {unwritten : Bool} {logicalBlock physical : Nat}
    (assigns : Assigns zeroBlocks 0 (oneExtent unwritten) logicalBlock physical) :
    unwritten = false ∧ (extentAt (oneExtent unwritten) 0).Covers logicalBlock := by
  have one : ∀ unwritten, ehEntries (oneExtent unwritten) = 1 := by decide +kernel
  obtain ⟨i, inside, initialized, covers, _⟩ := assigns
  rw [one] at inside
  obtain rfl := Nat.lt_one_iff.mp inside
  have written : ∀ unwritten, (extentAt (oneExtent unwritten) 0).Initialized →
      unwritten = false := by decide +kernel
  exact ⟨written _ initialized, covers⟩

/-- and a block in it is mapped. -/
theorem ext4fsBlockMap_maps_covered :
    MapsTo zeroBlocks 0 (oneExtent false) 12
      (ext4fsBlockMap zeroBlocks 0 (oneExtent false) 12) := by
  refine (ext4fsBlockMap_mapsTo_iff zeroBlocks (Nat.le_refl 0) (oneExtent false)
    (oneExtent_wellFormed false) (by decide)).mpr ⟨trivial, .inl ⟨1002, ?_, by decide⟩⟩
  exact ⟨0, by decide +kernel, by decide +kernel, by decide +kernel, by decide +kernel⟩

/-- The blocks before and right after the extent and those of an unwritten one are
mapped to blocks of other files; later ones are an error. -/
theorem ext4fsBlockMap_maps_holes :
    (∀ unwritten, WellFormed zeroBlocks 0 (oneExtent unwritten) 0 (2 ^ 32)) ∧
      (∀ logicalBlock ∈ [0, 15, 16],
        ¬ MapsTo zeroBlocks 0 (oneExtent false) logicalBlock
          (ext4fsBlockMap zeroBlocks 0 (oneExtent false) logicalBlock)) ∧
      ¬ MapsTo zeroBlocks 0 (oneExtent true) 12
        (ext4fsBlockMap zeroBlocks 0 (oneExtent true) 12) := by
  refine ⟨oneExtent_wellFormed, fun logicalBlock outside maps => ?_, fun maps => ?_⟩
  · have uncovered : ∀ logicalBlock ∈ [0, 15, 16],
        ¬ (extentAt (oneExtent false) 0).Covers logicalBlock := by decide +kernel
    have other : ∀ logicalBlock ∈ [0, 15, 16],
        (ext4fsBlockMap zeroBlocks 0 (oneExtent false) logicalBlock).bind Except.toOption ≠
          some 0 := by decide +kernel
    have hole := maps.2 fun physical assigns =>
      uncovered logicalBlock outside (oneExtent_assigns assigns).2
    exact other logicalBlock outside (by rw [hole]; rfl)
  · have other : (ext4fsBlockMap zeroBlocks 0 (oneExtent true) 12).bind Except.toOption ≠
        some 0 := by decide +kernel
    have hole := maps.2 fun physical assigns => nomatch (oneExtent_assigns assigns).1
    exact other (by rw [hole]; rfl)

end GrubLegacy.Fsys
