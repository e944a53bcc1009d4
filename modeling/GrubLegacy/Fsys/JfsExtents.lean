import GrubLegacy.DiskIo.PartitionMedia
import GrubLegacy.Fsys.ExtentTurns

/-!
# The extents of a JFS inode

`first_extent` and `next_extent` of `fsys_jfs.c`, which list the extents in the root of an
extent tree or in its leaf pages.
-/

namespace GrubLegacy.Fsys.Jfs

open Base Stage2 DiskIo
open GrubLegacy.Partition (Buffer)

/-! ## Extent pages -/

/-- A slot of an extent page, as an `xad_t`: `offsetXAD`, `addressXAD` and `lengthXAD`. -/
def xadAt (xtp : Buffer) (index : Nat) : BlockRun where
  offset := Area.byte xtp (16 * index + 3) * 2 ^ 32 + Area.word32 xtp (16 * index + 4)
  start := Area.byte xtp (16 * index + 11) * 2 ^ 32 + Area.word32 xtp (16 * index + 12)
  len := Area.word16 xtp (16 * index + 8) + Area.byte xtp (16 * index + 10) * 2 ^ 16

/-- `header.next` -/
def headerNext (xtp : Buffer) : Nat := Area.word64 xtp 0

/-- `header.flag & BT_LEAF` -/
def isLeaf (xtp : Buffer) : Bool := (Area.byte xtp 16).testBit 1

/-- `header.nextindex`: an `s16`. -/
def nextindex (xtp : Buffer) : Int :=
  if Area.word16 xtp 18 < 2 ^ 15 then Area.word16 xtp 18 else Area.word16 xtp 18 - 2 ^ 16

/-- XTENTRYSTART -/
def xtentrystart : Nat := 2

/-- `sizeof (xtpage_t)` -/
def xtpageSize : Nat := 4096

/-- `di->di_btroot` -/
def diBtroot (di : Buffer) : Buffer := fun i => di (224 + i)

/-- The partition and what `jfs_mount` takes from the super block. -/
structure JfsInfo where
  media : PartitionMedia
  l2bsize : Nat

/-- The variables of `fsys_jfs.c` that listing extents uses, and `errnum`. `jfs.xad` is an
index in `xtpage`, or in the root of the inode whose extents are listed. -/
structure JfsState where
  xtpage : Buffer
  xindex : Int
  xlastindex : Int
  di : Buffer
  inPage : Bool
  xad : Nat
  errnum : GrubError

/-- What `jfs.xad` points to. -/
def JfsState.current (state : JfsState) : BlockRun :=
  xadAt (if state.inPage then state.xtpage else diBtroot state.di) state.xad

section

variable (info : JfsInfo)

/-- `jfs.bdlog` -/
def JfsInfo.bdlog : Nat := info.l2bsize - info.media.sectorBits

/-- The size of a block. -/
def JfsInfo.bsize : Nat := 2 ^ info.l2bsize

/-- The error of a read is left in `errnum`. -/
def afterRead (state : JfsState) (done : GrubError × Option (List UInt8)) :
    JfsState × Option (List UInt8) :=
  ({ state with errnum := done.1 }, done.2)

/-- `devread` from a block on: the sector is passed as an `int`. -/
def jfsDevread (state : JfsState) (block : Nat) (byteOffset byteLen : Int) :
    JfsState × Option (List UInt8) :=
  afterRead state (PartitionMedia.readDone state.errnum
    (info.media.devread (toInt32 (block * 2 ^ info.bdlog : Nat)) byteOffset byteLen))

/-- A page is read to `xtpage`. -/
def readXtpage (state : JfsState) (block : Nat) : JfsState :=
  let read := jfsDevread info state block 0 xtpageSize
  { read.1 with xtpage := (read.2.map (Area.fill state.xtpage)).getD state.xtpage }

/-- A page has been read: the loop ends at a leaf. -/
def pageRead (further : JfsState → Option JfsState) (page : JfsState) : Option JfsState :=
  if isLeaf page.xtpage then
    some { page with inPage := true, xad := 2, xlastindex := nextindex page.xtpage }
  else further { page with inPage := true, xad := 2 }

/-- The loop of `first_extent`; it has no result when the levels run out. -/
def firstLeaf : (levels : Nat) → JfsState → Option JfsState
  | 0, _ => none
  | levels + 1, state => pageRead (firstLeaf levels) (readXtpage info state state.current.start)

/-- `first_extent`: `jfs.xad` points to what it returns. -/
def firstExtent (levels : Nat) (state : JfsState) (di : Buffer) : Option JfsState :=
  let root := { state with xindex := 2, di, inPage := false, xad := 2 }
  if isLeaf (diBtroot di) then some { root with xlastindex := nextindex (diBtroot di) }
  else firstLeaf info levels root

/-- `return ++jfs.xad` -/
def takeNext (state : JfsState) : JfsState × Option BlockRun :=
  let next := { state with xad := state.xad + 1 }
  (next, some next.current)

/-- `next_extent`: the extent, unless it returns NULL. -/
def nextExtent (state : JfsState) : JfsState × Option BlockRun :=
  if state.xindex + 1 < state.xlastindex then takeNext { state with xindex := state.xindex + 1 }
  else if headerNext state.xtpage ≠ 0 then
    let page := readXtpage info state (headerNext state.xtpage)
    takeNext { page with
      xlastindex := nextindex page.xtpage
      xindex := xtentrystart
      inPage := true
      xad := xtentrystart }
  else ({ state with xindex := state.xindex + 1 }, none)

/-! ## Well-formed trees -/

/-- The sizes of a file system that `jfs_mount` accepts, and a disk that is read without
errors. -/
structure JfsMounted : Prop where
  sectors : info.media.sectorBits ≤ info.l2bsize
  blocks : 9 ≤ info.l2bsize ∧ info.l2bsize ≤ 12
  reads : ∀ sector byteOffset byteLen, info.media.fails sector byteOffset byteLen = none

/-- As many blocks as that lie in the partition from a block on, and their sector numbers
are `int`s. -/
def JfsInfo.InReach (block count : Nat) : Prop :=
  (block + count) * 2 ^ info.bdlog ≤ info.media.partLength ∧
    (block + count) * 2 ^ info.bdlog ≤ 2 ^ 31

instance (block count : Nat) : Decidable (info.InReach block count) :=
  inferInstanceAs (Decidable (_ ∧ _))

/-- What the disk has from a block on. -/
def JfsInfo.block (block : Nat) : Buffer := fun i => info.media.content (block * info.bsize + i)

/-- The number of blocks in an extent page. -/
def JfsInfo.perPage : Nat := 2 ^ (12 - info.l2bsize)

/-- The slots of a leaf behind its header, in so much room. -/
structure LeafEntries (xtp : Buffer) (room : Nat) (xads : List BlockRun) : Prop where
  leaf : isLeaf xtp = true
  last : nextindex xtp = xads.length + 2
  fits : xads.length + 2 ≤ room
  entries : ∀ i, ∀ inside : i < xads.length, xadAt xtp (2 + i) = xads[i]

/-- The leaf pages from a block on, linked by `header.next`. -/
def PageChain : (block : Nat) → List (List BlockRun) → Prop
  | block, [] => block = 0
  | block, leaf :: leaves =>
    block ≠ 0 ∧ leaf ≠ [] ∧ info.InReach block info.perPage ∧
      LeafEntries (info.block block) 256 leaf ∧ PageChain (headerNext (info.block block)) leaves

/-- The first entries of that many internal pages lead to a leaf. -/
def LeadsDown : (levels : Nat) → (block leaf : Nat) → Prop
  | 0, block, leaf => block = leaf
  | levels + 1, block, leaf =>
    info.InReach block info.perPage ∧ isLeaf (info.block block) = false ∧
      LeadsDown levels (xadAt (info.block block) 2).start leaf

/-- An inode whose extents are in its root. -/
def InRoot (di : Buffer) (leaf : List BlockRun) : Prop := LeafEntries (diBtroot di) 18 leaf

/-- An inode whose extents are in leaf pages. -/
def InPages (di : Buffer) (leaves : List (List BlockRun)) : Prop :=
  isLeaf (diBtroot di) = false ∧ leaves ≠ [] ∧ ∃ levels first,
    LeadsDown info levels (xadAt (diBtroot di) 2).start first ∧ PageChain info first leaves

/-- The leaves of the extent tree of an inode. -/
def LeavesOf (di : Buffer) (leaves : List (List BlockRun)) : Prop :=
  (∃ leaf, leaves = [leaf] ∧ InRoot di leaf) ∨ InPages info di leaves

/-- The extents `next_extent` returns, one call after the other. When they are `all`, it
returns NULL then. -/
def Lists (all : Prop) : JfsState → List BlockRun → Prop
  | state, [] => all → (nextExtent info state).2 = none
  | state, xad :: xads => ∃ after, nextExtent info state = (after, some xad) ∧
      after.errnum = state.errnum ∧ Lists all after xads

/-- `first_extent` and `next_extent` return some extents and nothing else. -/
def Enumerates (state : JfsState) (di : Buffer) (xads : List BlockRun) : Prop :=
  ∃ levels after rest, firstExtent info levels state di = some after ∧
    xads = after.current :: rest ∧ Lists info True after rest

end

/-! ## Listing -/

section

variable {info : JfsInfo} {state : JfsState} {leaf : List BlockRun}

/-- Two pages with the same bytes. What is behind a page is left open. -/
def SamePage (xtp xtp' : Buffer) : Prop := ∀ i < xtpageSize, xtp i = xtp' i

section

variable {xtp xtp' : Buffer}

/-- Equal pages have the same bytes, -/
theorem SamePage.byte (same : SamePage xtp xtp') {offset : Nat} (inside : offset < xtpageSize) :
    Area.byte xtp offset = Area.byte xtp' offset := by
  rw [Area.byte, Area.byte, same offset inside]

/-- 16-bit words, -/
theorem SamePage.word16 (same : SamePage xtp xtp') {offset : Nat}
    (inside : offset + 1 < xtpageSize) : Area.word16 xtp offset = Area.word16 xtp' offset := by
  rw [Area.word16, Area.word16, same.byte (Nat.lt_of_succ_lt inside), same.byte inside]

/-- 32-bit words, -/
theorem SamePage.word32 (same : SamePage xtp xtp') {offset : Nat}
    (inside : offset + 3 < xtpageSize) : Area.word32 xtp offset = Area.word32 xtp' offset := by
  rw [Area.word32, Area.word32, same.word16 (by omega), same.word16 inside]

/-- next page, -/
theorem SamePage.headerNext (same : SamePage xtp xtp') : headerNext xtp = headerNext xtp' := by
  rw [Jfs.headerNext, Jfs.headerNext, Area.word64, Area.word64, same.word32 (by decide),
    same.word32 (by decide)]

/-- kind, -/
theorem SamePage.isLeaf (same : SamePage xtp xtp') : isLeaf xtp = isLeaf xtp' := by
  rw [Jfs.isLeaf, Jfs.isLeaf, same.byte (by decide)]

/-- number of entries -/
theorem SamePage.nextindex (same : SamePage xtp xtp') : nextindex xtp = nextindex xtp' := by
  rw [Jfs.nextindex, Jfs.nextindex, same.word16 (by decide)]

/-- and extents, -/
theorem SamePage.xadAt (same : SamePage xtp xtp') {index : Nat} (inside : index < 256) :
    xadAt xtp index = xadAt xtp' index := by
  have size : xtpageSize = 4096 := rfl
  rw [Jfs.xadAt, Jfs.xadAt, same.byte (by omega), same.word32 (by omega), same.byte (by omega),
    same.word32 (by omega), same.word16 (by omega), same.byte (by omega)]

/-- so they have the same leaf. -/
theorem SamePage.entries (same : SamePage xtp xtp') (entries : LeafEntries xtp' 256 leaf) :
    LeafEntries xtp 256 leaf where
  leaf := same.isLeaf.trans entries.leaf
  last := same.nextindex.trans entries.last
  fits := entries.fits
  entries i inside := by
    have fits := entries.fits
    rw [same.xadAt (by omega)]
    exact entries.entries i inside

end

/-- The size of a page in blocks. -/
theorem perPage_size (mounted : JfsMounted info) : info.perPage * info.bsize = xtpageSize := by
  rw [JfsInfo.perPage, JfsInfo.bsize, ← Nat.pow_add, Nat.sub_add_cancel mounted.blocks.2]
  rfl

/-- A block is a power of two of sectors. -/
theorem bsize_sectors (mounted : JfsMounted info) :
    info.bsize = 2 ^ info.bdlog * info.media.sectorSize := by
  rw [JfsInfo.bsize, JfsInfo.bdlog, SectorMedia.sectorSize, ← Nat.pow_add,
    Nat.sub_add_cancel mounted.sectors]

/-- A read of consecutive blocks, or of a part of them. -/
theorem jfsDevread_blocks (mounted : JfsMounted info) {block count offset size : Nat}
    (inReach : info.InReach block count) (some_ : 0 < size)
    (inside : offset + size ≤ count * info.bsize) (clean : state.errnum = .none) :
    jfsDevread info state block offset size =
      (state, some (info.media.bytes (block * info.bsize + offset) size)) := by
  rw [bsize_sectors mounted] at inside ⊢
  have delivered := devread_blocks (mounted.reads _ _ _) inReach.1 inReach.2 some_ inside
  rw [jfsDevread, delivered, PartitionMedia.readDone, if_pos clean, afterRead]

/-- A page that is read. -/
theorem readXtpage_page (mounted : JfsMounted info) {block : Nat}
    (inReach : info.InReach block info.perPage) (clean : state.errnum = .none) :
    ∃ xtpage, readXtpage info state block = { state with xtpage } ∧
      SamePage xtpage (info.block block) := by
  have delivered : jfsDevread info state block 0 xtpageSize =
      (state, some (info.media.bytes (block * info.bsize) xtpageSize)) :=
    @jfsDevread_blocks info state mounted block _ 0 xtpageSize inReach (by decide)
      (by rw [perPage_size mounted, Nat.zero_add]) clean
  refine ⟨Area.fill state.xtpage (info.media.bytes (block * info.bsize) xtpageSize), ?_, ?_⟩
  · simp only [readXtpage, delivered, Option.map_some, Option.getD_some]
  · intro i inside
    rw [Area.fill, List.getD_eq_getElem _ _ (by simpa using inside)]
    simp only [getElem_bytes]
    rfl

/-! ### Within a leaf -/

/-- `jfs.xad` points to an entry of a leaf, and so many have come before it. -/
structure InLeaf (state : JfsState) (leaf : List BlockRun) (taken : Nat) : Prop where
  entries : ∀ i, ∀ inside : i < leaf.length,
    xadAt (if state.inPage then state.xtpage else diBtroot state.di) (2 + i) = leaf[i]
  xindex : state.xindex = taken + 2
  xad : state.xad = 2 + taken
  last : state.xlastindex = leaf.length + 2
  clean : state.errnum = .none

/-- The extent at hand is the next one of the leaf. -/
theorem InLeaf.current {taken : Nat} (inLeaf : InLeaf state leaf taken)
    (inside : taken < leaf.length) : state.current = leaf[taken] := by
  rw [JfsState.current, inLeaf.xad]
  exact inLeaf.entries taken inside

/-- The next entry of a leaf. -/
theorem nextExtent_inLeaf {taken : Nat} (inLeaf : InLeaf state leaf taken)
    (more : taken + 1 < leaf.length) :
    ∃ after, nextExtent info state = (after, some leaf[taken + 1]) ∧
      InLeaf after leaf (taken + 1) ∧ after.xtpage = state.xtpage := by
  have further : state.xindex + 1 < state.xlastindex := by
    rw [inLeaf.xindex, inLeaf.last]
    omega
  have inLeaf' : InLeaf { state with xindex := state.xindex + 1, xad := state.xad + 1 } leaf
      (taken + 1) := by
    refine ⟨inLeaf.entries, ?_, ?_, inLeaf.last, inLeaf.clean⟩
    · show state.xindex + 1 = _
      rw [inLeaf.xindex]
      omega
    · show state.xad + 1 = _
      rw [inLeaf.xad, Nat.add_assoc]
  refine ⟨_, ?_, inLeaf', rfl⟩
  rw [nextExtent, if_pos further, ← inLeaf'.current more]
  rfl

/-- Behind the last entry of a leaf, or where there is none, the page link is looked at. -/
theorem nextExtent_leafEnd {taken : Nat} (inLeaf : InLeaf state leaf taken)
    (last : leaf.length ≤ taken + 1) :
    nextExtent info state =
      if headerNext state.xtpage ≠ 0 then
        takeNext { readXtpage info state (headerNext state.xtpage) with
          xlastindex := nextindex (readXtpage info state (headerNext state.xtpage)).xtpage
          xindex := xtentrystart
          inPage := true
          xad := xtentrystart }
      else ({ state with xindex := state.xindex + 1 }, none) := by
  have ended : ¬ state.xindex + 1 < state.xlastindex := by
    rw [inLeaf.xindex, inLeaf.last]
    omega
  rw [nextExtent, if_neg ended]

/-- The rest of a leaf is listed. -/
theorem lists_leaf {all : Prop} {taken : Nat} (inLeaf : InLeaf state leaf taken)
    (ends : all → headerNext state.xtpage = 0) :
    Lists info all state (leaf.drop (taken + 1)) := by
  induction left : leaf.length - (taken + 1) generalizing state taken with
  | zero =>
      have last : leaf.length ≤ taken + 1 := Nat.le_of_sub_eq_zero left
      rw [List.drop_eq_nil_of_le last]
      intro isAll
      rw [nextExtent_leafEnd inLeaf last, if_neg (not_not.mpr (ends isAll))]
  | succ left inductionHypothesis =>
      have more : taken + 1 < leaf.length := by omega
      obtain ⟨after, next, inLeaf', xtpage⟩ := nextExtent_inLeaf inLeaf more
      rw [List.drop_eq_getElem_cons more]
      exact ⟨after, next, inLeaf'.clean.trans inLeaf.clean.symm,
        inductionHypothesis inLeaf' (xtpage ▸ ends) (by omega)⟩

/-! ### From the root -/

/-- The entries of the root, whatever the levels. -/
theorem firstExtent_root {di : Buffer} (inRoot : InRoot di leaf) (clean : state.errnum = .none)
    (levels : Nat) :
    ∃ after, firstExtent info levels state di = some after ∧ InLeaf after leaf 0 ∧
      after.xtpage = state.xtpage := by
  have runs : firstExtent info levels state di = some { state with
      xindex := 2, di, inPage := false, xad := 2, xlastindex := nextindex (diBtroot di) } := by
    rw [firstExtent]
    exact if_pos inRoot.leaf
  exact ⟨_, runs, ⟨inRoot.entries, rfl, rfl, inRoot.last, clean⟩, rfl⟩

/-- From an entry down to the first leaf. -/
theorem firstLeaf_leads (mounted : JfsMounted info) {levels block first : Nat}
    (leads : LeadsDown info levels block first) (at_ : state.current.start = block)
    (inReach : info.InReach first info.perPage)
    (entries : LeafEntries (info.block first) 256 leaf) (clean : state.errnum = .none)
    (started : state.xindex = 2) :
    ∃ after, firstLeaf info (levels + 1) state = some after ∧ InLeaf after leaf 0 ∧
      headerNext after.xtpage = headerNext (info.block first) := by
  induction levels generalizing block state with
  | zero =>
      rw [LeadsDown] at leads
      obtain ⟨xtpage, reads, same⟩ := (@readXtpage_page _ state) mounted inReach clean
      rw [← leads, ← at_] at reads
      have entries' := same.entries entries
      have runs : firstLeaf info 1 state = some { state with
          xtpage, inPage := true, xad := 2, xlastindex := nextindex xtpage } := by
        rw [firstLeaf, reads, pageRead, if_pos entries'.leaf]
      exact ⟨_, runs, ⟨entries'.entries, started, rfl, entries'.last, clean⟩, same.headerNext⟩
  | succ levels inductionHypothesis =>
      obtain ⟨inReach', internal, leads⟩ := leads
      obtain ⟨xtpage, reads, same⟩ := (@readXtpage_page _ state) mounted inReach' clean
      rw [← at_] at reads
      have notLeaf : ¬ isLeaf xtpage = true := by
        rw [same.isLeaf, internal]
        decide
      have runs : firstLeaf info (levels + 1 + 1) state =
          firstLeaf info (levels + 1) { state with xtpage, inPage := true, xad := 2 } := by
        rw [firstLeaf, reads, pageRead, if_neg notLeaf]
      have child : ({ state with xtpage, inPage := true, xad := 2 } : JfsState).current.start =
          (xadAt (info.block block) 2).start :=
        congrArg BlockRun.start (@SamePage.xadAt _ _ same 2 (by decide))
      obtain ⟨after, further, inLeaf, next⟩ := inductionHypothesis leads child clean started
      exact ⟨after, runs.trans further, inLeaf, next⟩

/-- The first of the leaf pages. -/
theorem firstExtent_pages (mounted : JfsMounted info) {di : Buffer}
    {leaves : List (List BlockRun)} (inPages : InPages info di (leaf :: leaves))
    (clean : state.errnum = .none) :
    ∃ levels after first, firstExtent info levels state di = some after ∧ InLeaf after leaf 0 ∧
      headerNext after.xtpage = first ∧ PageChain info first leaves := by
  obtain ⟨internal, -, levels, first, leads, used, some_, inReach, entries, chain⟩ := inPages
  obtain ⟨after, runs, inLeaf, next⟩ := (@firstLeaf_leads _
    { state with xindex := 2, di, inPage := false, xad := 2 } _) mounted leads rfl inReach
    entries clean rfl
  have notLeaf : ¬ isLeaf (diBtroot di) = true := by
    rw [internal]
    decide
  refine ⟨levels + 1, after, _, ?_, inLeaf, next, chain⟩
  rw [firstExtent, if_neg notLeaf]
  exact runs

/-- The levels that are gone through do not matter. -/
theorem firstLeaf_levels {levels levels' : Nat} {after after' : JfsState}
    (runs : firstLeaf info levels state = some after)
    (runs' : firstLeaf info levels' state = some after') : after = after' := by
  induction levels generalizing levels' state with
  | zero => cases runs
  | succ levels inductionHypothesis =>
      cases levels' with
      | zero => cases runs'
      | succ levels' =>
          rw [firstLeaf] at runs runs'
          generalize readXtpage info state state.current.start = page at runs runs'
          rw [pageRead] at runs runs'
          split at runs
          · next leaf =>
              rw [if_pos leaf] at runs'
              exact Option.some.inj (runs.symm.trans runs')
          · next internal =>
              rw [if_neg internal] at runs'
              exact inductionHypothesis runs runs'

/-- The levels that are allowed for do not change what is found. -/
theorem firstExtent_levels {levels levels' : Nat} {di : Buffer} {after after' : JfsState}
    (runs : firstExtent info levels state di = some after)
    (runs' : firstExtent info levels' state di = some after') : after = after' := by
  rw [firstExtent] at runs runs'
  split at runs
  · next leaf =>
      rw [if_pos leaf] at runs'
      exact Option.some.inj (runs.symm.trans runs')
  · next internal =>
      rw [if_neg internal] at runs'
      exact firstLeaf_levels runs runs'

/-! ### The whole list -/

/-- All extents are listed: there are some, in one leaf, and when that is the root, the page
that was read last has no link. -/
def ListedWhole (state : JfsState) (di : Buffer) (leaf : List BlockRun)
    (leaves : List (List BlockRun)) : Prop :=
  leaf ≠ [] ∧ leaves = [] ∧ (InRoot di leaf → headerNext state.xtpage = 0)

variable {leaves : List (List BlockRun)} {di : Buffer}

/-- The first leaf, and the page whose link is looked at behind it. -/
theorem firstExtent_leaf (mounted : JfsMounted info) (leavesOf : LeavesOf info di (leaf :: leaves))
    (clean : state.errnum = .none) :
    ∃ levels after, firstExtent info levels state di = some after ∧ InLeaf after leaf 0 ∧
      (InRoot di leaf ∧ leaves = [] ∧ after.xtpage = state.xtpage ∨
        ¬ InRoot di leaf ∧ leaf ≠ [] ∧ PageChain info (headerNext after.xtpage) leaves) := by
  rcases leavesOf with ⟨root, isRoot, inRoot⟩ | inPages
  · obtain ⟨rfl, rfl⟩ := List.cons.inj isRoot
    obtain ⟨after, runs, inLeaf, xtpage⟩ := @firstExtent_root info _ _ _ inRoot clean 0
    exact ⟨0, after, runs, inLeaf, .inl ⟨inRoot, rfl, xtpage⟩⟩
  · obtain ⟨levels, after, first, runs, inLeaf, next, chain⟩ :=
      firstExtent_pages mounted inPages clean
    obtain ⟨internal, -, -, -, -, -, some_, -⟩ := inPages
    have notRoot : ¬ InRoot di leaf := by
      intro inRoot
      have isLeaf_ := inRoot.leaf
      rw [internal] at isLeaf_
      cases isLeaf_
    exact ⟨levels, after, runs, inLeaf, .inr ⟨notRoot, some_, next ▸ chain⟩⟩

/-- What is listed behind a leaf. -/
theorem lists_behind {all : Prop} {taken : Nat} {behind : List BlockRun}
    (inLeaf : InLeaf state leaf taken)
    (lists : Lists info all state (leaf.drop (taken + 1) ++ behind)) :
    ∃ after taken', leaf.length ≤ taken' + 1 ∧ InLeaf after leaf taken' ∧
      after.xtpage = state.xtpage ∧ Lists info all after behind := by
  induction left : leaf.length - (taken + 1) generalizing state taken with
  | zero =>
      have last : leaf.length ≤ taken + 1 := Nat.le_of_sub_eq_zero left
      rw [List.drop_eq_nil_of_le last, List.nil_append] at lists
      exact ⟨state, taken, last, inLeaf, rfl, lists⟩
  | succ left inductionHypothesis =>
      have more : taken + 1 < leaf.length := by omega
      obtain ⟨after, next, inLeaf', xtpage⟩ := @nextExtent_inLeaf info _ _ _ inLeaf more
      rw [List.drop_eq_getElem_cons more] at lists
      obtain ⟨after', next', -, listed⟩ := lists
      obtain rfl : after = after' := congrArg Prod.fst (next.symm.trans next')
      obtain ⟨last, taken', atEnd, inLeaf'', xtpage', listed'⟩ :=
        inductionHypothesis inLeaf' listed (by omega)
      exact ⟨last, taken', atEnd, inLeaf'', xtpage'.trans xtpage, listed'⟩

/-- The only leaf is listed, and nothing else. -/
theorem lists_whole (mounted : JfsMounted info) (leavesOf : LeavesOf info di (leaf :: leaves))
    (clean : state.errnum = .none) (whole : ListedWhole state di leaf leaves) :
    ∃ levels after rest, firstExtent info levels state di = some after ∧
      leaf = after.current :: rest ∧ Lists info True after rest ∧ after.errnum = .none := by
  obtain ⟨some_, rfl, noLink⟩ := whole
  obtain ⟨levels, after, runs, inLeaf, link⟩ := firstExtent_leaf mounted leavesOf clean
  obtain ⟨first, rest, rfl⟩ := List.exists_cons_of_ne_nil some_
  have ends : headerNext after.xtpage = 0 := by
    rcases link with ⟨inRoot, -, xtpage⟩ | ⟨-, -, chain⟩
    · rw [xtpage]
      exact noLink inRoot
    · exact chain
  refine ⟨levels, after, rest, runs, ?_, lists_leaf inLeaf fun _ => ends, inLeaf.clean⟩
  rw [inLeaf.current (Nat.zero_lt_succ _)]
  rfl

/-- All extents are listed, each once and in order. -/
theorem enumerates_whole (mounted : JfsMounted info)
    (leavesOf : LeavesOf info di (leaf :: leaves)) (clean : state.errnum = .none)
    (whole : ListedWhole state di leaf leaves) :
    Enumerates info state di (leaf ++ leaves.flatten) := by
  obtain ⟨levels, after, rest, runs, isLeaf, lists, -⟩ := lists_whole mounted leavesOf clean whole
  obtain ⟨-, rfl, -⟩ := whole
  rw [List.flatten_nil, List.append_nil]
  exact ⟨levels, after, rest, runs, isLeaf, lists⟩

/-- Behind the leaf in the root, or the only leaf page, nothing is listed only without a link. -/
theorem headerNext_of_ends {taken : Nat} (inLeaf : InLeaf state leaf taken)
    (last : leaf.length ≤ taken + 1) (ends : (nextExtent info state).2 = none) :
    headerNext state.xtpage = 0 := by
  apply Classical.not_not.mp
  intro link
  rw [nextExtent_leafEnd inLeaf last, if_pos link] at ends
  cases ends

/-- The first extent of a further leaf page is left out. -/
theorem nextExtent_page {taken : Nat} {second : List BlockRun} (mounted : JfsMounted info)
    (inLeaf : InLeaf state leaf taken) (last : leaf.length ≤ taken + 1)
    (chain : PageChain info (headerNext state.xtpage) (second :: leaves)) (two : 1 < second.length) :
    (nextExtent info state).2 = some second[1] := by
  obtain ⟨link, -, inReach, entries, -⟩ := chain
  obtain ⟨xtpage, reads, same⟩ := (@readXtpage_page _ state) mounted inReach inLeaf.clean
  have entry := (same.entries entries).entries 1 two
  rw [nextExtent_leafEnd inLeaf last, if_pos link, reads]
  exact congrArg some entry

/-- Otherwise not all are, or others are too. -/
theorem whole_of_enumerates (mounted : JfsMounted info)
    (leavesOf : LeavesOf info di (leaf :: leaves)) (clean : state.errnum = .none)
    (inOrder : InOrder (leaf ++ leaves.flatten)) (two : ∀ second ∈ leaves.head?, 1 < second.length)
    (enumerates : Enumerates info state di (leaf ++ leaves.flatten)) :
    ListedWhole state di leaf leaves := by
  obtain ⟨levels', after', rest, runs', xads, lists⟩ := enumerates
  obtain ⟨levels, after, runs, inLeaf, link⟩ := firstExtent_leaf mounted leavesOf clean
  obtain rfl := firstExtent_levels runs runs'
  have some_ : leaf ≠ [] := by
    rintro rfl
    rcases link with ⟨-, rfl, -⟩ | ⟨-, some_, -⟩
    · cases xads
    · exact some_ rfl
  obtain ⟨first, others, rfl⟩ := List.exists_cons_of_ne_nil some_
  obtain ⟨-, rfl⟩ := List.cons.inj xads
  obtain ⟨last, taken, atEnd, inLeaf', xtpage, listed⟩ := @lists_behind _ _ _ _ 0 _ inLeaf lists
  cases leaves with
  | nil =>
      refine ⟨some_, rfl, fun inRoot => ?_⟩
      have ends := headerNext_of_ends inLeaf' atEnd (listed trivial)
      rcases link with ⟨-, -, same⟩ | ⟨notRoot, -⟩
      · rw [← same, ← xtpage]
        exact ends
      · exact absurd inRoot notRoot
  | cons second leaves =>
      rcases link with ⟨-, isNil, -⟩ | ⟨-, -, chain⟩
      · cases isNil
      · rw [← xtpage] at chain
        obtain ⟨skipped, behind, rfl⟩ := List.exists_cons_of_length_pos
          (Nat.lt_of_succ_lt (two second rfl))
        obtain ⟨taken, behind, rfl⟩ := List.exists_cons_of_length_pos
          (Nat.lt_of_succ_lt_succ (two (skipped :: behind) rfl))
        have next := nextExtent_page mounted inLeaf' atEnd chain (two _ rfl)
        obtain ⟨after'', isNext, -⟩ := listed
        rw [isNext] at next
        obtain rfl : skipped = taken := Option.some.inj next
        have apart := inOrder.append_right.first_stop (List.mem_cons_self (a := skipped))
        have inside := inOrder.append_right.offset_lt_stop (List.mem_cons_self (a := skipped))
        exact absurd apart (Nat.not_le.mpr inside)

end

end GrubLegacy.Fsys.Jfs
