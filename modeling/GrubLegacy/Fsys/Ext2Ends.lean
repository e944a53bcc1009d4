import GrubLegacy.Fsys.Ext2Dir

/-!
# Lookups that end

A lookup on an ext2 file system, and a read, returns if no way down an extent tree comes to a
block twice, no record that is passed over has the length zero, and no symbolic link is read
through a block list. The numbers of links, of characters and of bytes that are left show it.
-/

namespace GrubLegacy.Fsys.Ext2

open Base CStrings Stage2 DiskIo GrubLegacy.Partition BlockFiles

/-! ## Ways down -/

section

variable (fs : FsBlocks) (logicalBlock : Nat)

/-- The block that the loop of `ext4fs_block_map` reads next, if it goes on. -/
def childOf (eh : Buffer) : Option Nat :=
  let ei := indexAt eh (ext4ExtBinsearchIdx eh logicalBlock)
  if ehDepth eh = 0 ∨ ehMagic eh ≠ ext4ExtMagic ∨ ei.leafHi ≠ 0 ∨
      fs.readable ei.leafLo = false then none
  else some ei.leafLo

/-- The blocks on the way down from a node. -/
def wayDown (eh : Buffer) : Nat → Option Nat :=
  walk (fun fsblock => childOf fs logicalBlock (fs.block fsblock)) (childOf fs logicalBlock eh)

/-- The way down comes to no block twice. -/
def WayEnds (eh : Buffer) : Prop :=
  NoReturn (fun fsblock => childOf fs logicalBlock (fs.block fsblock))
    (childOf fs logicalBlock eh)

end

section

variable {fs : FsBlocks} {logicalBlock : Nat} {eh : Buffer}

/-- The loop ends at a node or goes on to its child. -/
theorem ext4Descend_child (levels : Nat) :
    (childOf fs logicalBlock eh = none ∧
      ext4Descend fs logicalBlock (levels + 1) eh ≠ none) ∨
    ∃ fsblock, childOf fs logicalBlock eh = some fsblock ∧
      ext4Descend fs logicalBlock (levels + 1) eh =
        ext4Descend fs logicalBlock levels (fs.block fsblock) := by
  rw [childOf, ext4Descend]
  by_cases leaf : ehDepth eh = 0
  · exact .inl ⟨if_pos (.inl leaf), by simp [leaf]⟩
  by_cases magic : ehMagic eh = ext4ExtMagic
  · by_cases high : (indexAt eh (ext4ExtBinsearchIdx eh logicalBlock)).leafHi = 0
    · cases readable :
        fs.readable (indexAt eh (ext4ExtBinsearchIdx eh logicalBlock)).leafLo with
      | false =>
          exact .inl ⟨if_pos (.inr (.inr (.inr rfl))), by
            simp [leaf, magic, high, readable, FsBlocks.ext2Rdfsb]⟩
      | true =>
          refine .inr ⟨(indexAt eh (ext4ExtBinsearchIdx eh logicalBlock)).leafLo, ?_, ?_⟩
          · simp [leaf, magic, high]
          · simp [leaf, magic, high, readable, FsBlocks.ext2Rdfsb]
    · exact .inl ⟨by simp [high], by simp [leaf, magic, high]⟩
  · exact .inl ⟨by simp [magic], by simp [leaf, magic]⟩

/-- A loop that is not at its end after some levels is still on its way. -/
theorem wayDown_of_none {levels : Nat}
    (goesOn : ext4Descend fs logicalBlock (levels + 1) eh = none) :
    wayDown fs logicalBlock eh levels ≠ none := by
  induction levels generalizing eh with
  | zero =>
      obtain ⟨-, ends⟩ | ⟨fsblock, child, -⟩ := ext4Descend_child 0
      · exact absurd goesOn ends
      · rw [wayDown, walk, child]
        exact Option.some_ne_none _
  | succ levels inductionHypothesis =>
      obtain ⟨-, ends⟩ | ⟨fsblock, child, descends⟩ := ext4Descend_child (levels + 1)
      · exact absurd goesOn ends
      · rw [descends] at goesOn
        rw [wayDown, child, walk_succ]
        exact inductionHypothesis goesOn

/-- A loop that is at its end is so on every way down. -/
theorem wayDown_of_some {levels : Nat}
    (ends : ext4Descend fs logicalBlock levels eh ≠ none) :
    wayDown fs logicalBlock eh levels = none := by
  induction levels generalizing eh with
  | zero =>
      have leaf : ehDepth eh = 0 := by
        apply Classical.not_not.mp
        intro inner
        exact ends (if_neg inner)
      rw [wayDown, walk, childOf, if_pos (.inl leaf)]
  | succ levels inductionHypothesis =>
      obtain ⟨child, -⟩ | ⟨fsblock, child, descends⟩ := ext4Descend_child levels
      · exact walk_none (Nat.zero_le _) child
      · rw [descends] at ends
        rw [wayDown, child, walk_succ]
        exact inductionHypothesis ends

/-- A child is a 32-bit block number. -/
theorem childOf_lt {fsblock : Nat} (child : childOf fs logicalBlock eh = some fsblock) :
    fsblock < 2 ^ 32 := by
  rw [childOf] at child
  split at child
  · cases child
  · cases child
    exact Area.word32_lt _ _

/-- The loop ends within the levels it is given. -/
theorem WayEnds.descends (ends : WayEnds fs logicalBlock eh) :
    ext4Descend fs logicalBlock levelLimit eh ≠ none := by
  intro goesOn
  have bounded : ∀ count fsblock, wayDown fs logicalBlock eh count = some fsblock →
      fsblock < 2 ^ 32 := by
    intro count fsblock place
    cases count with
    | zero => exact childOf_lt place
    | succ count =>
        obtain ⟨parent, -, child⟩ := Option.bind_eq_some_iff.mp place
        exact childOf_lt child
  exact wayDown_of_none goesOn (ends.ends bounded)

/-- Whether the way ends can be seen from the loop. -/
theorem wayEnds_iff :
    WayEnds fs logicalBlock eh ↔ (ext4Descend fs logicalBlock levelLimit eh).isSome = true :=
  ⟨fun ends => Option.isSome_iff_ne_none.mpr ends.descends,
    fun ends => noReturn_of_ends (wayDown_of_some (Option.isSome_iff_ne_none.mp ends))⟩

instance (fs : FsBlocks) (logicalBlock : Nat) (eh : Buffer) :
    Decidable (WayEnds fs logicalBlock eh) := decidable_of_iff _ wayEnds_iff.symm

/-- A loop that does not end within them never ends. -/
theorem ext4Descend_forever (goesOn : ext4Descend fs logicalBlock levelLimit eh = none)
    (levels : Nat) : ext4Descend fs logicalBlock levels eh = none := by
  apply Classical.not_not.mp
  intro ends
  have noReturn : WayEnds fs logicalBlock eh := noReturn_of_ends (wayDown_of_some ends)
  exact noReturn.descends goesOn

end

/-! ## Reads -/

section

variable {media : Ext2Media} {inode : Buffer}

/-- The way down to a block of the file, if it has an extent tree. -/
def MapEnds (media : Ext2Media) (files : Ext2State) (inode : Buffer) (logicalBlock : Nat) : Prop :=
  usesExtents media inode = true → WayEnds (fsBlocks media files) logicalBlock (iBlock inode)

instance (media : Ext2Media) (files : Ext2State) (inode : Buffer) (logicalBlock : Nat) :
    Decidable (MapEnds media files inode logicalBlock) := inferInstanceAs (Decidable (_ → _))

/-- Then the block map returns. -/
theorem MapEnds.maps {files : Ext2State} {logicalBlock : Nat}
    (ends : MapEnds media files inode logicalBlock) :
    blockMap media files inode logicalBlock ≠ none := by
  rw [blockMap]
  split
  next extents =>
    have descends := (ends extents).descends
    rw [ext4fsBlockMap]
    by_cases magic : ehMagic (iBlock inode) ≠ ext4ExtMagic
    · rw [if_pos magic]
      exact Option.some_ne_none _
    · rw [if_neg magic]
      cases found : ext4Descend (fsBlocks media files) logicalBlock levelLimit (iBlock inode) with
      | none => exact absurd found descends
      | some outcome =>
          cases outcome with
          | error errnum => exact Option.some_ne_none _
          | ok eh =>
              dsimp only
              cases ext4MapExtent (extentAt eh (ext4ExtBinsearch eh logicalBlock)) logicalBlock with
              | error errnum => exact Option.some_ne_none _
              | ok map => exact Option.some_ne_none _
  · exact Option.some_ne_none _

/-- A round that is made by a read. -/
def ReadOk (media : Ext2Media) (inode : Buffer) (read : ReadState) : Prop :=
  0 < read.len → MapEnds media read.files inode (read.files.filepos >>> media.blockBits)

instance (media : Ext2Media) (inode : Buffer) (read : ReadState) :
    Decidable (ReadOk media inode read) := inferInstanceAs (Decidable (_ → _))

/-- A read that goes on has fewer bytes left. -/
theorem readMapped_next {read read' : ReadState} {map : Int} (left : 0 < read.len)
    (goesOn : readMapped media read map = .next read') : read'.len < read.len := by
  rw [readMapped] at goesOn
  split at goesOn
  · cases goesOn
  · cases goesOn
    have inside : read.files.filepos &&& (media.blockSize - 1) < media.blockSize := by
      have atMost := Nat.and_le_right (n := read.files.filepos) (m := media.blockSize - 1)
      have positive := blockSize_pos media
      omega
    dsimp only
    omega

/-- Each round reads a byte at least. -/
theorem readStep_next {read read' : ReadState} (ok : ReadOk media inode read)
    (goesOn : readStep media inode read = .next read') : read'.len < read.len := by
  rw [readStep] at goesOn
  split at goesOn
  · cases goesOn
  next left =>
    have left := Nat.pos_of_ne_zero left
    cases mapped : blockMap media read.files inode (read.files.filepos >>> media.blockBits) with
    | none => exact absurd mapped (ok left).maps
    | some result =>
        obtain ⟨files, map⟩ := result
        rw [mapped] at goesOn
        have left' : 0 < ({ read with files } : ReadState).len := left
        have fewer := readMapped_next left' goesOn
        exact fewer

/-- `ext2fs_read` returns. -/
theorem ext2fsRead_returns (read : ReadState)
    (ok : ∀ read', Reached (readStep media inode) read read' → ReadOk media inode read') :
    ∃ result, Returns (readStep media inode) read result :=
  returns_of_measure Nat.lt_wfRel.wf ReadState.len fun state _ reached goesOn =>
    readStep_next (ok state reached) goesOn

end

/-! ## Steps of a lookup -/

section

variable {media : Ext2Media} {listed : ListedRead} {state state' : DirState}

/-- A step that stays at the name and on the links. -/
def SameName (state state' : DirState) : Prop :=
  state'.dirname = state.dirname ∧ state'.linkCount = state.linkCount

/-- Behind the inode the lookup has opened it, with the name it had, -/
theorem inodeRead_next {read : Ext2State × Option (List UInt8)}
    (goesOn : inodeRead media state read = .next state') :
    state'.place = .opened ∧ SameName state state' := by
  obtain ⟨files, _ | bytes⟩ := read
  · cases goesOn
  · cases goesOn
    exact ⟨rfl, rfl, rfl⟩

/-- the same holds behind the group descriptor -/
theorem groupDescRead_next {read : Ext2State × Option (List UInt8)}
    (goesOn : groupDescRead media state read = .next state') :
    state'.place = .opened ∧ SameName state state' := by
  obtain ⟨files, _ | bytes⟩ := read
  · cases goesOn
  · rw [groupDescRead.eq_def] at goesOn
    dsimp only at goesOn
    split at goesOn
    · cases goesOn
    · have opened := inodeRead_next goesOn
      exact opened

/-- and for the whole lookup. -/
theorem lookupStep_next (divides : Divides media)
    (goesOn : lookupStep media state = .next state') :
    state'.place = .opened ∧ SameName state state' := by
  rw [lookupStep, if_pos divides] at goesOn
  exact groupDescRead_next goesOn

/-- The name of a link is looked up next. -/
theorem tryLink_next (goesOn : tryLink state = .next state') :
    state'.place = .lookup ∧ state'.linkCount = state.linkCount := by
  cases goesOn
  exact ⟨rfl, rfl⟩

/-- A link that can be told from its size, and that is not read through a block list. -/
structure LinkOk (media : Ext2Media) (state : DirState) : Prop where
  size : state.linkCount < maxLinkCount → toInt32 (iSize state.inode) < 0 →
    pathMax - 2 < toUInt32 (toInt32 (iSize state.inode) + (untilSpace state.dirname).length)
  plain : state.linkCount < maxLinkCount → state.blockFile = true →
    ext2IsFastSymlink media state.inode = true

instance (media : Ext2Media) (state : DirState) : Decidable (LinkOk media state) :=
  decidable_of_iff (_ ∧ _) ⟨fun ok => ⟨ok.1, ok.2⟩, fun ok => ⟨ok.size, ok.plain⟩⟩

/-- Without a block list the blocks of the link are read next. -/
theorem linkRead_next {linkbuf : Buffer} {filemax : Nat}
    (goesOn : linkRead listed state linkbuf filemax = .next state')
    (plain : state.blockFile = false) :
    state'.linkCount = state.linkCount ∧ ∃ read, state'.place = .reading read := by
  rw [linkRead] at goesOn
  dsimp only at goesOn
  split at goesOn
  · cases goesOn
  · rw [plain, if_neg Bool.false_ne_true] at goesOn
    cases goesOn
    exact ⟨rfl, _, rfl⟩

/-- A link that is followed is one of the few allowed, and is counted. -/
theorem linkStep_next (ok : LinkOk media state)
    (goesOn : linkStep media listed state = .next state') :
    state.linkCount < maxLinkCount ∧ state'.linkCount = state.linkCount + 1 ∧
      (state'.place = .lookup ∨ ∃ read, state'.place = .reading read) := by
  rw [linkStep] at goesOn
  split at goesOn
  · cases goesOn
  next few =>
    split at goesOn
    · cases goesOn
    next short =>
      have fewer : state.linkCount < maxLinkCount := Nat.lt_of_succ_le (Nat.le_of_not_lt few)
      rw [if_neg (fun negative => short (ok.size fewer negative)), readLink] at goesOn
      split at goesOn
      · obtain ⟨place, links⟩ := tryLink_next goesOn
        exact ⟨fewer, links, .inl place⟩
      next slow =>
        have plain : state.blockFile = false :=
          Bool.eq_false_iff.mpr fun isList => slow (ok.plain fewer isList)
        obtain ⟨links, reading⟩ := linkRead_next goesOn plain
        exact ⟨fewer, links, .inr reading⟩

/-- A component leaves less of the name, as it begins with a slash or is not empty. -/
theorem directoryStep_next (name : state.dirname ≠ [])
    (space : isspace (first state.dirname) = false)
    (goesOn : directoryStep state = .next state') :
    ∃ component rest, state'.place = .record 0 component rest ∧
      rest.length < state.dirname.length ∧ state'.linkCount = state.linkCount := by
  rw [directoryStep] at goesOn
  split at goesOn
  · cases goesOn
  cases goesOn
  exact ⟨_, _, rfl, rest_length_lt name space, rfl⟩

/-- A round of the read of a link goes on with its read. -/
theorem linkRound_next {outcome : Step ReadState ReadState}
    (goesOn : linkRound state outcome = .next state') :
    (∃ read, outcome = .next read ∧ state' = { state with place := .reading read }) ∨
      state'.place = .lookup ∧ state'.linkCount = state.linkCount := by
  cases outcome with
  | next read =>
      cases goesOn
      exact .inl ⟨read, rfl, rfl⟩
  | done read =>
      rw [linkRound, linkDone] at goesOn
      dsimp only at goesOn
      split at goesOn
      · cases goesOn
      · have tried := tryLink_next goesOn
        exact .inr tried

/-- What is behind a record. -/
inductive Behind (state : DirState) (loc : Nat) (component rest : List UInt8) :
    DirState → Prop
  | record {state' : DirState} {loc' : Nat} (later : loc < loc') (small : loc' < 2 ^ 32)
      (place : state'.place = .record loc' component rest)
      (links : state'.linkCount = state.linkCount) : Behind state loc component rest state'
  | lookup {state' : DirState} (place : state'.place = .lookup) (name : state'.dirname = rest)
      (links : state'.linkCount = state.linkCount) : Behind state loc component rest state'

/-- A completion changes the name and the buffers in no way, and does not stop a search. -/
theorem complete_same (state : DirState) (off : Nat) (component rest : List UInt8) :
    (complete state off component rest).files = state.files ∧
      (complete state off component rest).linkCount = state.linkCount ∧
      ((complete state off component rest).printPossibilities = 0 ↔
        state.printPossibilities = 0) := by
  rw [complete]
  split
  next printed => exact ⟨rfl, rfl, by simp⟩
  · exact ⟨rfl, rfl, Iff.rfl⟩

/-- A record without an inode is passed over. -/
theorem recordRead_free {loc : Nat} {component rest : List UInt8}
    (free : recInode state.files.datablock2 (loc &&& (media.blockSize - 1)) = 0) :
    recordRead media state loc component rest =
      .next { state with
        place := .record ((loc + recLen state.files.datablock2
          (loc &&& (media.blockSize - 1))) % 2 ^ 32) component rest } := by
  have same : complete state (loc &&& (media.blockSize - 1)) component rest = state :=
    if_neg (fun printed => printed.1 free)
  rw [recordRead, same, if_pos (.inl free)]

/-- Whether a record is passed over does not depend on what is read behind it. -/
theorem passedOver_complete (off : Nat) (component rest : List UInt8) :
    PassedOver (complete state off component rest) off component rest ↔
      PassedOver state off component rest := by
  obtain ⟨files, -, printing⟩ := complete_same state off component rest
  rw [PassedOver, PassedOver, files, ne_eq, ne_eq, ne_eq, ne_eq, printing]

/-- A record that is passed over takes the scan behind it. -/
theorem recordRead_next {loc : Nat} {component rest : List UInt8} (small : loc < 2 ^ 31)
    (passes : PassedOver state (loc &&& (media.blockSize - 1)) component rest →
      0 < recLen state.files.datablock2 (loc &&& (media.blockSize - 1)))
    (goesOn : recordRead media state loc component rest = .next state') :
    Behind state loc component rest state' := by
  obtain ⟨files, links, -⟩ :=
    complete_same state (loc &&& (media.blockSize - 1)) component rest
  rw [recordRead] at goesOn
  split at goesOn
  next passed =>
    have long := passes ((passedOver_complete _ _ _).mp passed)
    have short : recLen state.files.datablock2 (loc &&& (media.blockSize - 1)) < 2 ^ 16 :=
      Area.word16_lt _ _
    cases goesOn
    rw [files]
    have inRange : (loc + recLen state.files.datablock2 (loc &&& (media.blockSize - 1))) % 2 ^ 32 =
        loc + recLen state.files.datablock2 (loc &&& (media.blockSize - 1)) :=
      Nat.mod_eq_of_lt (by omega)
    rw [inRange]
    exact .record (Nat.lt_add_of_pos_right long) (by omega) rfl links
  · cases goesOn
    exact .lookup rfl rfl links

/-- A record that is passed over has a length. -/
def PassesOn (media : Ext2Media) (state : DirState) (loc : Nat) (component rest : List UInt8) :
    Prop :=
  ∀ files map files', blockMap media state.files state.inode (loc >>> media.blockBits) =
      some (files, map) →
    0 ≤ map → blockRead media { files with mapblock2 := -1 } map = some files' →
    PassedOver { state with files := files' } (loc &&& (media.blockSize - 1)) component rest →
    0 < recLen files'.datablock2 (loc &&& (media.blockSize - 1))

/-- The condition of a record speaks of the block that is mapped and read. -/
theorem passesOn_iff {loc : Nat} {component rest : List UInt8} :
    PassesOn media state loc component rest ↔
      ∀ mapped ∈ blockMap media state.files state.inode (loc >>> media.blockBits), 0 ≤ mapped.2 →
        ∀ files' ∈ blockRead media { mapped.1 with mapblock2 := -1 } mapped.2,
          PassedOver { state with files := files' } (loc &&& (media.blockSize - 1)) component
            rest → 0 < recLen files'.datablock2 (loc &&& (media.blockSize - 1)) :=
  ⟨fun passes _ isMapped found files' read => passes _ _ files' isMapped found read,
    fun passes _ _ files' isMapped found read => passes _ isMapped found files' read⟩

instance (media : Ext2Media) (state : DirState) (loc : Nat) (component rest : List UInt8) :
    Decidable (PassesOn media state loc component rest) := decidable_of_iff _ passesOn_iff.symm

/-- A place of a directory that can be passed. -/
def RecordOk (media : Ext2Media) (state : DirState) (loc : Nat) (component rest : List UInt8) :
    Prop :=
  loc < iSize state.inode → loc < 2 ^ 31 ∧
    MapEnds media state.files state.inode (loc >>> media.blockBits) ∧
      PassesOn media state loc component rest

instance (media : Ext2Media) (state : DirState) (loc : Nat) (component rest : List UInt8) :
    Decidable (RecordOk media state loc component rest) := inferInstanceAs (Decidable (_ → _))

/-- With its block mapped a record takes the scan behind it, -/
theorem recordMapped_next {map : Int} {loc : Nat} {component rest : List UInt8}
    (small : loc < 2 ^ 31)
    (passes : 0 ≤ map → ∀ files', blockRead media state.files map = some files' →
      PassedOver { state with files := files' } (loc &&& (media.blockSize - 1)) component rest →
      0 < recLen files'.datablock2 (loc &&& (media.blockSize - 1)))
    (goesOn : recordMapped media state map loc component rest = .next state') :
    Behind state loc component rest state' := by
  rw [recordMapped] at goesOn
  split at goesOn
  · cases goesOn
  next found =>
    cases read : blockRead media state.files map with
    | none =>
        rw [read] at goesOn
        cases goesOn
    | some files' =>
        rw [read] at goesOn
        have behind := recordRead_next small (passes (Int.not_lt.mp found) files' read) goesOn
        cases behind with
        | record later small place links => exact .record later small place links
        | lookup place name links => exact .lookup place name links

/-- and so does the whole step. -/
theorem recordStep_next {loc : Nat} {component rest : List UInt8}
    (ok : RecordOk media state loc component rest)
    (goesOn : recordStep media state loc component rest = .next state') :
    Behind state loc component rest state' := by
  rw [recordStep] at goesOn
  split at goesOn
  · rw [recordsEnd] at goesOn
    split at goesOn
    · cases goesOn
    · cases goesOn
  next inside =>
    obtain ⟨small, ends, passes⟩ := ok (Nat.lt_of_not_le inside)
    rw [if_neg (Nat.not_le.mpr small)] at goesOn
    cases mapped : blockMap media state.files state.inode (loc >>> media.blockBits) with
    | none => exact absurd mapped ends.maps
    | some result =>
        obtain ⟨files, map⟩ := result
        rw [mapped] at goesOn
        have passes' := fun found files' => passes files map files' mapped found
        have behind := recordMapped_next small passes' goesOn
        cases behind with
        | record later small place links => exact .record later small place links
        | lookup place name links => exact .lookup place name links

/-! ## The measure -/

/-- What a step needs to get on. -/
def StepOk (media : Ext2Media) (state : DirState) : Prop :=
  match state.place with
  | .lookup => Divides media
  | .opened => sIslnk (iMode state.inode) = true → LinkOk media state
  | .reading read => ReadOk media state.inode read
  | .record loc component rest => RecordOk media state loc component rest

instance (media : Ext2Media) (state : DirState) : Decidable (StepOk media state) :=
  match place : state.place with
  | .lookup => decidable_of_iff (Divides media) (by rw [StepOk, place])
  | .opened => decidable_of_iff (sIslnk (iMode state.inode) = true → LinkOk media state)
      (by rw [StepOk, place])
  | .reading read => decidable_of_iff (ReadOk media state.inode read) (by rw [StepOk, place])
  | .record loc component rest => decidable_of_iff (RecordOk media state loc component rest)
      (by rw [StepOk, place])

/-- The links, the characters of the name and the bytes that are left. -/
def left (state : DirState) : Nat × Nat × Nat :=
  match state.place with
  | .lookup => (2 * (maxLinkCount - state.linkCount), 4 * state.dirname.length + 3, 0)
  | .opened => (2 * (maxLinkCount - state.linkCount), 4 * state.dirname.length + 2, 0)
  | .reading read => (2 * (maxLinkCount - state.linkCount) + 1, 0, read.len)
  | .record loc _ rest =>
    (2 * (maxLinkCount - state.linkCount), 4 * rest.length + 4, 2 ^ 32 - loc)

/-- Less is left of the first of them that changes. -/
def Less : Nat × Nat × Nat → Nat × Nat × Nat → Prop :=
  Prod.Lex Nat.lt (Prod.Lex Nat.lt Nat.lt)

/-- What is left of a lookup can only become less so often. -/
theorem less_wellFounded : WellFounded Less :=
  (Prod.lex Nat.lt_wfRel (Prod.lex Nat.lt_wfRel Nat.lt_wfRel)).wf

/-- Fewer links are less, -/
theorem Less.links {links links' : Nat} (fewer : links' < links) (rest rest' : Nat × Nat) :
    Less (links', rest') (links, rest) := .left _ _ fewer

/-- with as many links a shorter name is, -/
theorem Less.name (links : Nat) {name name' : Nat} (shorter : name' < name) (place place' : Nat) :
    Less (links, name', place') (links, name, place) := .right _ (.left _ _ shorter)

/-- and with the same name a nearer place. -/
theorem Less.place (links name : Nat) {place place' : Nat} (nearer : place' < place) :
    Less (links, name, place') (links, name, place) := .right _ (.right _ nearer)

/-- Every step of `ext2fs_dir` that goes on leaves less to do. -/
theorem dirStep_less (ok : StepOk media state) (goesOn : dirStep media listed state = .next state') :
    Less (left state') (left state) := by
  rw [dirStep] at goesOn
  rw [StepOk] at ok
  cases place : state.place with
  | lookup =>
      rw [place] at goesOn ok
      obtain ⟨place', name, links⟩ := lookupStep_next ok goesOn
      rw [left, left, place, place', name, links]
      exact .name _ (Nat.lt_succ_self _) _ _
  | opened =>
      rw [place] at goesOn ok
      dsimp only at goesOn ok
      rw [openedStep] at goesOn
      split at goesOn
      next link =>
        obtain ⟨few, links, place' | ⟨read, place'⟩⟩ := linkStep_next (ok link) goesOn
        · rw [left, left, place, place', links]
          exact .links (by omega) _ _
        · rw [left, left, place, place', links]
          exact .links (by omega) _ _
      · split at goesOn
        · rw [endStep] at goesOn
          split at goesOn
          · cases goesOn
          · split at goesOn
            · cases goesOn
            · cases goesOn
        next name =>
          obtain ⟨nonempty, space⟩ := not_or.mp name
          obtain ⟨component, rest, place', shorter, links⟩ :=
            directoryStep_next nonempty (by simpa using space) goesOn
          rw [left, left, place, place', links]
          exact .name _ (by omega) _ _
  | reading read =>
      rw [place] at goesOn ok
      dsimp only at goesOn ok
      obtain ⟨read', round, rfl⟩ | ⟨place', links⟩ := linkRound_next goesOn
      · rw [left, left, place]
        exact .place _ _ (readStep_next ok round)
      · rw [left, left, place, place', links]
        exact .links (Nat.lt_succ_self _) _ _
  | record loc component rest =>
      rw [place] at goesOn ok
      cases recordStep_next ok goesOn with
      | record later small place' links =>
          rw [left, left, place, place', links]
          exact .place _ _ (by omega)
      | lookup place' name links =>
          rw [left, left, place, place', name, links]
          exact .name _ (Nat.lt_succ_self _) _ _

end

/-! ## A directory of zeros -/

/-- The root is the directory of the inode 2, in block 4, whose bytes are all zero. -/
def zeroedPartition : Ext2Media where
  content position :=
    if position = 1044 then 1 else if position = 1064 then 8
    else if position = 1080 then 0x53 else if position = 1081 then 0xEF
    else if position = 1112 then 128 else if position = 2056 then 3
    else if position = 3201 then 0x40 else if position = 3205 then 4
    else if position = 3240 then 4 else 0
  partLength := 16
  sectorBits := 9
  fails := refusesFarSectors 63 9
  partStart := 63
  blockBits := 10
  sectors := smallestSectors
  blocks := smallestBlocks

/-- The partition of zeroes is mounted. -/
theorem zeroedPartition_mounted : Mounted zeroedPartition where
  room := by decide
  read := ⟨_, rfl⟩
  magic := by decide +kernel
  blockSize := by decide +kernel

/-- The blocks of the file system are those that are read. -/
theorem rdfsb_zeroed (files : Ext2State) (clear : files.errnum = .none) {fsblock : Nat}
    (inReach : zeroedPartition.InReach fsblock) :
    rdfsb zeroedPartition files fsblock =
      (files, some (zeroedPartition.bytes (fsblock * 1024) 1024)) := by
  have read := ext2Rdfsb_inReach (show zeroedPartition.sectorBits ≤ _ by decide)
    (noDiskError_of_refuses rfl) inReach
  rw [rdfsb, read]
  dsimp only [PartitionMedia.readDone]
  rw [if_pos clear]
  rfl

/-- A byte of the root's inode. -/
theorem rootByte (buf : Buffer) {i : Nat} (inside : i < sizeofInode) :
    moveInode zeroedPartition (buf.fill (zeroedPartition.bytes (3 * 1024) 1024)) 2 i =
      zeroedPartition.block 3 (128 + i) := by
  have offset : (toUInt32 (2 - 1) &&& (inodesPerBlock zeroedPartition - 1)) *
      sInodeSize zeroedPartition = 128 := by decide +kernel
  rw [moveInode, if_pos inside, offset]
  rw [sizeofInode] at inside
  exact fill_block buf 3 (show 128 + i < 1024 by omega)

/-- A directory of a block, which is the fourth. -/
structure IsRoot (inode : Buffer) : Prop where
  mode : iMode inode = 0x4000
  size : iSize inode = 1024
  block : (iBlock inode).word32 0 = 4

/-- What is read from it is the inode of the root. -/
theorem isRoot (buf : Buffer) :
    IsRoot (moveInode zeroedPartition (buf.fill (zeroedPartition.bytes (3 * 1024) 1024)) 2) := by
  have byte : ∀ i < sizeofInode, _ := fun i inside => @rootByte buf i inside
  generalize moveInode zeroedPartition (buf.fill (zeroedPartition.bytes (3 * 1024) 1024)) 2 = inode
    at byte
  refine ⟨?_, ?_, ?_⟩
  · rw [iMode, Area.word16, Area.byte, Area.byte, byte _ (by decide), byte _ (by decide)]
    decide +kernel
  · rw [iSize, Area.word32, Area.word16, Area.word16, Area.byte, Area.byte, Area.byte,
      Area.byte, byte _ (by decide), byte _ (by decide), byte _ (by decide),
      byte _ (by decide)]
    decide +kernel
  · rw [Area.word32, Area.word16, Area.word16, Area.byte, Area.byte, Area.byte,
      Area.byte, iBlock, iBlock, iBlock, iBlock, byte _ (by decide), byte _ (by decide),
      byte _ (by decide), byte _ (by decide)]
    decide +kernel

/-- The root has been read. -/
structure RootRead (state : DirState) : Prop where
  clear : state.files.errnum = .none
  inode : IsRoot state.inode
  iBlock : state.files.iBlock 0 = 4

/-- The lookup opens the root of it. -/
theorem zeroed_lookup {state : DirState} (clear : state.files.errnum = .none)
    (root : state.currentIno = 2) :
    ∃ state', lookupStep zeroedPartition state = .next state' ∧ state'.place = .opened ∧
      state'.dirname = state.dirname ∧ RootRead state' := by
  have descBlock : groupDescBlock zeroedPartition 2 = (2 : Nat) := by decide +kernel
  have inodeBlock : ∀ buf : Buffer, inoBlk zeroedPartition
      (buf.fill (zeroedPartition.bytes (2 * 1024) 1024)) 2 = (3 : Nat) := by
    intro buf
    have offset : groupDescOffset zeroedPartition 2 = 0 := by decide +kernel
    have bytes : ∀ i < 1024, buf.fill (zeroedPartition.bytes (2 * 1024) 1024) i =
        zeroedPartition.block 2 i := fun i inside => fill_block buf 2 inside
    rw [inoBlk, offset, Area.word32, Area.word16, Area.word16, Area.byte, Area.byte,
      Area.byte, Area.byte, bytes _ (by decide), bytes _ (by decide), bytes _ (by decide),
      bytes _ (by decide)]
    decide +kernel
  have old : has64Bit zeroedPartition = false := by decide +kernel
  have step : lookupStep zeroedPartition state = inodeRead zeroedPartition
      { state with groupDesc := state.groupDesc.fill (zeroedPartition.bytes (2 * 1024) 1024) }
      (state.files, some (zeroedPartition.bytes (3 * 1024) 1024)) := by
    rw [lookupStep, if_pos (by decide +kernel), root, descBlock, rdfsb_zeroed _ clear (by decide),
      groupDescRead, if_neg (by simp [old]), root, inodeBlock, rdfsb_zeroed _ clear (by decide)]
  have inode := isRoot state.inode
  rw [← root] at inode
  rw [step]
  exact ⟨_, rfl, rfl, rfl, clear, inode, inode.block⟩

/-- The search stays at the first record. -/
theorem zeroed_record {state : DirState} (read : RootRead state) {component rest : List UInt8} :
    ∃ state', recordStep zeroedPartition state 0 component rest = .next state' ∧
      state'.place = .record 0 component rest ∧ RootRead state' := by
  have mapped : blockMap zeroedPartition state.files state.inode (0 >>> 10) =
      some (state.files, 4) := by
    have plain : usesExtents zeroedPartition state.inode = false := by
      rw [usesExtents, show hasExtents zeroedPartition = false by decide +kernel]
      rfl
    rw [blockMap, if_neg (by simp [plain]), ext2fsBlockMap, if_pos (by decide), Nat.zero_shiftRight,
      read.iBlock]
    rfl
  have byte : ∀ (buf : Buffer), ∀ i < 1024,
      buf.fill (zeroedPartition.bytes (4 * 1024) 1024) i = 0 := by
    intro buf i inside
    refine (fill_block buf 4 inside).trans ?_
    show zeroedPartition.content (4 * 1024 + i) = 0
    simp only [zeroedPartition]
    repeat rw [if_neg (by omega)]
  -- An inode number and a length of zero.
  have noInode : ∀ buf : Buffer,
      recInode (buf.fill (zeroedPartition.bytes (4 * 1024) 1024)) 0 = 0 := by
    intro buf
    rw [recInode, Area.word32, Area.word16, Area.word16, Area.byte, Area.byte,
      Area.byte, Area.byte, byte _ _ (by decide), byte _ _ (by decide), byte _ _ (by decide),
      byte _ _ (by decide)]
    rfl
  have noLength : ∀ buf : Buffer,
      recLen (buf.fill (zeroedPartition.bytes (4 * 1024) 1024)) 0 = 0 := by
    intro buf
    rw [recLen, Area.word16, Area.byte, Area.byte, byte _ _ (by decide),
      byte _ _ (by decide)]
    rfl
  obtain ⟨files, filled, clear, pointer, free, length⟩ : ∃ files : Ext2State,
      blockRead zeroedPartition { state.files with mapblock2 := -1 } (4 : Nat) = some files ∧
      files.errnum = .none ∧ files.iBlock 0 = 4 ∧ recInode files.datablock2 0 = 0 ∧
      recLen files.datablock2 0 = 0 := by
    have found := rdfsb_zeroed { state.files with mapblock2 := -1 } read.clear
      (show zeroedPartition.InReach 4 by decide)
    rw [blockRead, found]
    refine ⟨_, rfl, read.clear, read.iBlock, ?_, ?_⟩
    · dsimp only
      exact noInode state.files.datablock2
    · dsimp only
      exact noLength state.files.datablock2
  have step : recordStep zeroedPartition state 0 component rest =
      recordRead zeroedPartition { state with files } 0 component rest := by
    rw [recordStep, read.inode.size, if_neg (by decide), if_neg (by decide),
      show zeroedPartition.blockBits = 10 from rfl, mapped]
    dsimp only
    rw [recordMapped, if_neg (by decide)]
    dsimp only
    rw [show (4 : Int) = (4 : Nat) from rfl, filled]
  rw [← Nat.zero_and (zeroedPartition.blockSize - 1)] at free length
  rw [step, @recordRead_free zeroedPartition { state with files } 0 component rest free, length]
  exact ⟨_, rfl, rfl, clear, read.inode, pointer⟩

/-- In the root, a name is searched for. -/
theorem zeroed_opened (listed : ListedRead) {state : DirState} (read : RootRead state)
    (isName : state.dirname = charOf '/' :: ascii "a") :
    ∃ state' component rest, openedStep zeroedPartition listed state = .next state' ∧
      state'.place = .record 0 component rest ∧ RootRead state' := by
  rw [openedStep, read.inode.mode, if_neg (by decide), isName, if_neg (by decide), directoryStep]
  dsimp only
  rw [read.inode.mode, read.inode.size, if_neg (by decide)]
  exact ⟨_, _, _, rfl, rfl, read.clear, read.inode, read.iBlock⟩

/-- The lookup of a name in a directory of zeros. -/
inductive InZeros : DirState → Prop
  | lookup {state : DirState} (place : state.place = .lookup) (clear : state.files.errnum = .none)
      (root : state.currentIno = 2) (isName : state.dirname = charOf '/' :: ascii "a") :
      InZeros state
  | opened {state : DirState} (place : state.place = .opened) (read : RootRead state)
      (isName : state.dirname = charOf '/' :: ascii "a") : InZeros state
  | record {state : DirState} {component rest : List UInt8}
      (place : state.place = .record 0 component rest) (read : RootRead state) : InZeros state

/-- From there each step stays among the zeroes. -/
theorem inZeros_step (listed : ListedRead) (state : DirState) (inZeros : InZeros state) :
    ∃ state', dirStep zeroedPartition listed state = .next state' ∧ InZeros state' := by
  cases inZeros with
  | lookup place clear root isName =>
      obtain ⟨state', step, place', name, read⟩ := zeroed_lookup clear root
      rw [dirStep, place]
      exact ⟨state', step, .opened place' read (name.trans isName)⟩
  | opened place read isName =>
      obtain ⟨state', component, rest, step, place', read'⟩ := zeroed_opened listed read isName
      rw [dirStep, place]
      exact ⟨state', step, .record place' read'⟩
  | record place read =>
      obtain ⟨state', step, place', read'⟩ := zeroed_record read
      rw [dirStep, place]
      exact ⟨state', step, .record place' read'⟩

/-- The root has its directory in block 4, behind an extent tree of two levels. The names in it
are `b`, `l`, a symbolic link whose text `/f` is in block 6, and `f`, a regular file. -/
def linkedBytes : List (Nat × UInt8) :=
  -- the superblock and the group descriptor
  [(1044, 1), (1064, 8), (1080, 0x53), (1081, 0xEF), (1112, 128), (1120, 0x40), (2056, 3),
    -- the inodes 2, 3 and 4
    (3201, 0x40), (3205, 4), (3234, 8), (3240, 0x0A), (3241, 0xF3), (3242, 1), (3244, 4),
    (3246, 1), (3256, 5), (3329, 0xA0), (3332, 2), (3356, 2), (3362, 8), (3368, 0x0A),
    (3369, 0xF3), (3370, 1), (3384, 1), (3388, 6), (3457, 0x80),
    -- the records of the directory
    (4096, 9), (4100, 12), (4102, 1), (4104, charOf 'b'),
    (4108, 3), (4112, 12), (4114, 1), (4116, charOf 'l'),
    (4120, 4), (4124, 12), (4126, 1), (4128, charOf 'f'),
    -- the leaf of the extent tree, and the text of the link
    (5120, 0x0A), (5121, 0xF3), (5122, 1), (5136, 1), (5140, 4),
    (6144, charOf '/'), (6145, charOf 'f')]

def linkedPartition : Ext2Media where
  content position := (linkedBytes.lookup position).getD 0
  partLength := 16
  sectorBits := 9
  fails := refusesFarSectors 63 9
  partStart := 63
  blockBits := 10
  sectors := smallestSectors
  blocks := smallestBlocks

/-- The partition with the link is mounted. -/
theorem linkedPartition_mounted : Mounted linkedPartition where
  room := by decide
  read := ⟨_, rfl⟩
  magic := by decide +kernel
  blockSize := by decide +kernel

/-- The lookup of `/l`, with no block list open. -/
def linkedName : DirState :=
  dirStart (opened (fun _ => 0) (fun _ => 0) (fun _ => 0)) false maxint (fun _ => 0) (fun _ => 0)
    (fun _ => 0) 0 0 (ascii "/l")

end GrubLegacy.Fsys.Ext2
