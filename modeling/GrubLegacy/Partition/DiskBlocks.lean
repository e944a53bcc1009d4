import GrubLegacy.Partition.BsdLabels
import GrubLegacy.Partition.GptEnumeration
import GrubLegacy.Partition.Numbering

/-!
# All partitions of a hard disk

A walk of `next_partition` finds the slices of a disk, and behind each slice of a BSD
type the partitions of its label. Such a slice with its partitions is a block here.
-/

namespace GrubLegacy.Partition

open Base Stage2

/-! ## Blocks -/

/-- A slice, with its BSD partitions if it is of such a type. -/
inductive Block where
  | plain (slice : Found)
  | bsd (slice : Found) (parts : List Found)
deriving Repr

/-- What a walk finds of a block. -/
def Block.items : Block → List Found
  | .plain slice => [slice]
  | .bsd slice parts => slice :: parts

/-- The enumeration of a disk of these blocks. -/
def items (blocks : List Block) : List Found := blocks.flatMap Block.items

/-- The call after a slice that has no BSD partitions. -/
def nextSlice (drive : PartDrive) (state : PartState) : Scan PartState :=
  if state.gptOffset ≠ 0 then nextGptSlice drive state else nextPcSlice drive state

/-- The call with this outcome and those behind it find these blocks. -/
def WalksBlocks (drive : PartDrive) : Scan PartState → List Block → Prop
  | outcome, [] => ∃ last, outcome = .stop last
  | outcome, .plain slice :: rest => ∃ state, outcome = .found state ∧ found state = slice ∧
      WalksBlocks drive (nextSlice drive state) rest
  | outcome, .bsd slice parts :: rest => ∃ state, outcome = .found state ∧ found state = slice ∧
      state.gptOffset = 0 ∧
      FindsThen (nextBsdPartition drive) found
        (fun last => InSlice state last ∧
          WalksBlocks drive (nextPcSlice drive { last with errnum := .none }) rest)
        (nextBsdPartition drive state) parts

/-- Partitions are named as they should be, and the slices with BSD partitions have
numbers that go up from one on. -/
def Ascending : (low : Nat) → List Block → Prop
  | _, [] => True
  | low, .plain slice :: rest => (∃ no < 255, slice.partition = packed no 0xFF) ∧
      isPcSliceTypeBsd (slice.type &&& 0xFF) = false ∧ Ascending low rest
  | low, .bsd slice parts :: rest => ∃ no < 255, low ≤ no ∧ slice.partition = packed no 0xFF ∧
      isPcSliceTypeBsd (slice.type &&& 0xFF) = true ∧
      (∀ part ∈ parts, (∃ i < 0xFF, part.partition = packed no i) ∧
        part.type &&& 0xFF = slice.type &&& 0xFF) ∧
      Ascending (no + 1) rest

/-- Ascending blocks are so from any lower number on. -/
theorem Ascending.mono {low low' : Nat} {blocks : List Block} (below : low' ≤ low)
    (ascending : Ascending low blocks) : Ascending low' blocks := by
  induction blocks with
  | nil => trivial
  | cons block rest ih =>
      cases block with
      | plain slice => exact ⟨ascending.1, ascending.2.1, ih ascending.2.2⟩
      | bsd slice parts =>
          obtain ⟨no, few, above, isBsd⟩ := ascending
          exact ⟨no, few, below.trans above, isBsd⟩

/-- Every item has a name, and a BSD partition is in a slice of a number from `low` on. -/
theorem Ascending.named {low : Nat} {blocks : List Block} (ascending : Ascending low blocks) :
    ∀ item ∈ items blocks, ∃ no < 255, ∃ i < 256, item.partition = packed no i ∧
      (i ≠ 0xFF → low ≤ no) := by
  induction blocks generalizing low with
  | nil => exact fun item isIn => absurd isIn List.not_mem_nil
  | cons block rest ih =>
      intro item isIn
      rw [items, List.flatMap_cons, List.mem_append, ← items] at isIn
      cases block with
      | plain slice =>
          obtain ⟨⟨no, few, isName⟩, _, later⟩ := ascending
          rcases isIn with here | behind
          · obtain rfl := List.mem_singleton.mp here
            exact ⟨no, few, 0xFF, by decide, isName, fun other => absurd rfl other⟩
          · exact ih later item behind
      | bsd slice parts =>
          obtain ⟨no, few, above, isName, _, areParts, later⟩ := ascending
          rcases isIn with here | behind
          · rcases List.mem_cons.mp here with rfl | isPart
            · exact ⟨no, few, 0xFF, by decide, isName, fun other => absurd rfl other⟩
            · obtain ⟨⟨i, small, isName'⟩, _⟩ := areParts item isPart
              exact ⟨no, few, i, by omega, isName', fun _ => above⟩
          · obtain ⟨no', few', i, small, isName', behind⟩ := ih later item behind
            exact ⟨no', few', i, small, isName', fun other => by have := behind other; omega⟩

/-! ## Slices of partition tables -/

/-- The slice of a slot that is given this number. -/
def sliceFound (placed : Placed) (no : Nat) : Found :=
  { partition := packed no 0xFF
    type := placed.slot.type
    start := (placed.sector + placed.slot.start) % 2 ^ 32
    length := placed.slot.length }

/-- The block of it. -/
def sliceBlock (drive : PartDrive) (placed : Placed) (no : Nat) : Block :=
  let slice := sliceFound placed no
  if isPcSliceTypeBsd slice.type then
    .bsd slice (bsdParts drive no slice.type slice.start slice.length)
  else .plain slice

/-- The blocks of slots behind a slice of number `no`. -/
def sliceBlocks (drive : PartDrive) (no : Int) : List Placed → List Block
  | [] => []
  | placed :: rest =>
    let number := sliceNumber no placed.slot
    sliceBlock drive placed number.toNat :: sliceBlocks drive number rest

/-- If there is a label behind the slot, its partitions lie in its sector. -/
def FitLabel (drive : PartDrive) (placed : Placed) : Prop :=
  isPcSliceTypeBsd placed.slot.type = true →
    LabelInSector drive ((placed.sector + placed.slot.start) % 2 ^ 32) placed.slot.length

/-- The blocks behind a place in the chain. -/
def Onward (drive : PartDrive) (ext sector : Nat) (entry no : Int) (blocks : List Block) : Prop :=
  ∀ state, Cursor state ext sector entry no → state.gptOffset = 0 →
    WalksBlocks drive (nextPcSlice drive state) blocks

section Slices

variable {drive : PartDrive} {state : PartState} {ext sector : Nat} {entry no : Int}
  {bytes : List UInt8} {blocks : List Block}

/-- In its slice a state keeps the cursor. -/
theorem InSlice.cursor {after : PartState} (same : InSlice state after)
    (cursor : Cursor state ext sector entry no) : Cursor after ext sector entry no := by
  refine ⟨same.offset.trans cursor.offset, same.extOffset.trans cursor.extOffset,
    same.entry.trans cursor.entry, ?_, cursor.high⟩
  rw [pcSliceNo, same.slice]
  exact cursor.number

/-- The block of a slot that is taken. -/
theorem walksBlocks_slot (fitting : Fitting drive) (offset : state.offset = sector)
    (extOffset : state.extOffset = ext) (isEntry : state.entry = entry) {part : Nat}
    (isPart : entry + 1 = part) (low : -1 ≤ no)
    (high : sliceNumber no (slot (areaOf bytes) part) < 255)
    (fits : FitLabel drive { sector, slot := slot (areaOf bytes) part })
    (onward : Onward drive ext sector (entry + 1)
      (sliceNumber no (slot (areaOf bytes) part)) blocks) :
    WalksBlocks drive (.found (slotTaken state bytes no))
      (sliceBlock drive { sector, slot := slot (areaOf bytes) part }
        (sliceNumber no (slot (areaOf bytes) part)).toNat :: blocks) := by
  have cursor := slotTaken_cursor offset extOffset isEntry isPart low high
  have isTaken : (state.entry + 1).toNat = part := by omega
  have positive : 0 ≤ sliceNumber no (slot (areaOf bytes) part) := by
    rw [sliceNumber]
    split <;> omega
  have isFound : found (slotTaken state bytes no) =
      sliceFound { sector, slot := slot (areaOf bytes) part }
        (sliceNumber no (slot (areaOf bytes) part)).toNat := by
    rw [found, slotTaken, isTaken, offset, sliceFound, ← packSlice_eq]
  rw [sliceBlock]
  split
  case isTrue bsd =>
      have calls := findsThen_bsdParts fitting (by omega) isFound rfl bsd (fits bsd)
      refine ⟨_, rfl, isFound, rfl, calls.imp ?_⟩
      intro last same
      refine ⟨same, onward _ ?_ same.gptOffset⟩
      have left := same.cursor cursor
      exact ⟨left.offset, left.extOffset, left.entry, left.number, left.high⟩
  case isFalse plain =>
      refine ⟨_, rfl, isFound, ?_⟩
      rw [nextSlice, if_neg (fun gpt => gpt rfl)]
      exact onward _ cursor rfl

/-- The blocks of a table behind a slot of it, before those of the tables behind. -/
theorem onward_table (fitting : Fitting drive) (table : TableAt drive sector bytes)
    {rest : List Placed}
    (after : ∀ no, -1 ≤ no → lastNumber no rest < 255 →
      Onward drive ext sector 3 no (sliceBlocks drive no rest))
    (left : Nat) {part : Nat} (isPart : part + left = 3) (low : -1 ≤ no)
    (fit : ∀ placed ∈ (tableSlots sector bytes).drop (part + 1) ++ rest, FitLabel drive placed)
    (few : lastNumber no ((tableSlots sector bytes).drop (part + 1) ++ rest) < 255) :
    Onward drive ext sector part no
      (sliceBlocks drive no ((tableSlots sector bytes).drop (part + 1) ++ rest)) := by
  induction left generalizing part no with
  | zero =>
      obtain rfl : part = 3 := isPart
      exact after no low few
  | succ left ih =>
      intro state cursor gptOffset
      rw [tableSlots_drop sector bytes (by omega)] at few fit ⊢
      obtain ⟨here, later⟩ := List.forall_mem_cons.mp fit
      have high := (le_lastNumber (sliceNumber no (slot (areaOf bytes) (part + 1))) _).trans_lt few
      have above := le_sliceNumber no (slot (areaOf bytes) (part + 1))
      rw [nextPcSlice_slot fitting table cursor (by omega) (by omega)]
      refine walksBlocks_slot fitting cursor.offset cursor.extOffset cursor.entry ?_ low high
        here ?_
      · rfl
      · have isNext : part + 1 + left = 3 := by omega
        exact ih isNext (low.trans above) later few

/-- The blocks of a chain behind its first slot. -/
theorem onward_chain (fitting : Fitting drive)
    (noGpt : ∀ mbr, SectorAt drive 0 mbr → NoGpt drive mbr)
    {tables : List (List UInt8)} (chained : Chained drive ext sector (bytes :: tables))
    (low : -1 ≤ no)
    (fit : ∀ placed ∈ (chainSlots ext sector (bytes :: tables)).drop 1, FitLabel drive placed)
    (few : lastNumber no ((chainSlots ext sector (bytes :: tables)).drop 1) < 255) :
    Onward drive ext sector 0 no
      (sliceBlocks drive no ((chainSlots ext sector (bytes :: tables)).drop 1)) := by
  induction tables generalizing ext sector bytes no with
  | nil =>
      obtain ⟨table, rest⟩ := chained
      cases more : firstExtended (areaOf bytes) with
      | none =>
          rw [chainSlots_last [] more, tableSlots_append_drop] at few fit ⊢
          apply onward_table fitting table _ 3 rfl low fit few
          intro no _ _ state cursor _
          exact nextPcSlice_end fitting table cursor more
      | some part =>
          rw [more] at rest
          obtain ⟨bytes', sectorAt, unsigned⟩ := rest
          rw [chainSlots_next [] more, tableSlots_append_drop] at few fit ⊢
          apply onward_table fitting table _ 3 rfl low fit few
          intro no _ _ state cursor _
          exact nextPcSlice_unsigned fitting table cursor more sectorAt unsigned
  | cons bytes' tables ih =>
      obtain ⟨table, rest⟩ := chained
      cases more : firstExtended (areaOf bytes) with
      | none =>
          rw [more] at rest
          cases rest
      | some part =>
          rw [more] at rest
          have chained' := rest
          rw [chainSlots_next (bytes' :: tables) more, tableSlots_append_drop] at few fit ⊢
          have behind := fun placed isIn => fit placed (List.mem_append_right _ isIn)
          apply onward_table fitting table _ 3 rfl low fit few
          intro no low few state cursor gptOffset
          have goes := nextPcSlice_next fitting table cursor more chained'.1
            (fun start => noGpt bytes' (start ▸ chained'.1.read))
          have entered := @tableEntered_cursor state bytes ext sector 3 no cursor part
          -- the first slot of the next table is taken by the same call
          rw [chainSlots_first _ _ bytes' tables] at few behind ⊢
          obtain ⟨here, later⟩ := List.forall_mem_cons.mp behind
          have high := (le_lastNumber (sliceNumber no (slot (areaOf bytes') 0)) _).trans_lt few
          have above := le_sliceNumber no (slot (areaOf bytes') 0)
          rw [goes]
          refine walksBlocks_slot fitting entered.offset entered.extOffset entered.entry rfl low
            high here ?_
          exact ih chained' (low.trans above) later few

/-- A walk from the start finds the blocks of the chain. -/
theorem walksBlocks_chain {dest : Nat} (fitting : Fitting drive) (hard : drive.hardDisk = true)
    {mbr : List UInt8} {tables : List (List UInt8)} (chained : Chained drive 0 0 (mbr :: tables))
    (noGpt : NoGpt drive mbr) (first : state.partition = 0xFFFFFF)
    (fit : ∀ placed ∈ chainSlots 0 0 (mbr :: tables), FitLabel drive placed)
    (few : lastNumber (-1) (chainSlots 0 0 (mbr :: tables)) < 255) :
    WalksBlocks drive (nextPartition drive dest state)
      (sliceBlocks drive (-1) (chainSlots 0 0 (mbr :: tables))) := by
  have restarts : pcSliceNo state.partition = 0xFF := by
    rw [first]
    decide
  have always : ∀ mbr', SectorAt drive 0 mbr' → NoGpt drive mbr' := by
    intro mbr' sectorAt
    obtain rfl : mbr = mbr' := Except.ok.inj (chained.1.read.symm.trans sectorAt)
    exact noGpt
  rw [nextPartition_first fitting hard first, nextPcSlice_mbr fitting chained.1 noGpt restarts]
  rw [chainSlots_first] at few fit ⊢
  obtain ⟨here, later⟩ := List.forall_mem_cons.mp fit
  have high := (le_lastNumber (sliceNumber (-1) (slot (areaOf mbr) 0)) _).trans_lt few
  have above := le_sliceNumber (-1) (slot (areaOf mbr) 0)
  refine walksBlocks_slot fitting rfl rfl rfl rfl (le_refl (-1)) high here ?_
  exact onward_chain fitting always chained above later few

/-- The types of slots are bytes. -/
theorem chainSlots_type_byte (tables : List (List UInt8)) :
    ∀ placed ∈ chainSlots ext sector tables, placed.slot.type &&& 0xFF = placed.slot.type := by
  induction tables generalizing ext sector with
  | nil => exact fun placed isIn => absurd isIn List.not_mem_nil
  | cons bytes tables ih =>
      intro placed isIn
      rw [chainSlots, List.mem_append] at isIn
      rcases isIn with here | behind
      · obtain ⟨part, _, rfl⟩ := List.mem_map.mp here
        exact slot_type_byte _ _
      · cases more : firstExtended (areaOf bytes) with
        | none =>
            rw [more] at behind
            exact absurd behind List.not_mem_nil
        | some part =>
            rw [more] at behind
            exact ih placed behind

/-- The partitions of a label have names and the type of their slice. -/
theorem bsdParts_named (fitting : Fitting drive) {no type start length : Nat}
    (byte : type &&& 0xFF = type) (fits : LabelInSector drive start length) :
    ∀ part ∈ bsdParts drive no type start length,
      (∃ i < 0xFF, part.partition = packed no i) ∧ part.type &&& 0xFF = type := by
  have bounded := fitting.fits.trans fitting.bounded
  intro part isPart
  rw [bsdParts] at isPart
  cases isLabel : labelOf drive start length with
  | none =>
      rw [isLabel] at isPart
      exact absurd isPart List.not_mem_nil
  | some label =>
      rw [isLabel] at isPart
      have inside := fits label isLabel
      obtain ⟨i, isUsed, rfl⟩ := List.mem_map.mp isPart
      have below := (List.mem_range'_1.mp (List.mem_filter.mp isUsed).1).2
      refine ⟨⟨i, by omega, rfl⟩, type_of_part _ _ byte⟩

/-- A slice of a BSD type is neither empty nor extended. -/
theorem real_of_bsd {slot : Slot} (bsd : isPcSliceTypeBsd slot.type = true) : slot.real = true := by
  rw [Slot.real_iff]
  rw [isPcSliceTypeBsd, Bool.or_eq_true, Bool.or_eq_true, decide_eq_true_eq, decide_eq_true_eq,
    decide_eq_true_eq] at bsd
  rcases bsd with (isType | isType) | isType
  · rw [isType]
    decide
  · rw [isType]
    decide
  · rw [isType]
    decide

/-- Numbers of slices with BSD partitions go up. -/
theorem ascending_sliceBlocks (fitting : Fitting drive) {slots : List Placed} (low : -1 ≤ no)
    (bytes : ∀ placed ∈ slots, placed.slot.type &&& 0xFF = placed.slot.type)
    (fit : ∀ placed ∈ slots, FitLabel drive placed) (few : lastNumber no slots < 255) :
    Ascending (no + 1).toNat (sliceBlocks drive no slots) := by
  induction slots generalizing no with
  | nil => trivial
  | cons placed rest ih =>
      obtain ⟨byte, bytes⟩ := List.forall_mem_cons.mp bytes
      obtain ⟨fits, fit⟩ := List.forall_mem_cons.mp fit
      have high := (le_lastNumber (sliceNumber no placed.slot) rest).trans_lt few
      have above := le_sliceNumber no placed.slot
      have later := ih (low.trans above) bytes fit few
      rw [sliceBlocks, sliceBlock]
      split
      case isTrue bsd =>
          have isReal : placed.slot.real = true := real_of_bsd bsd
          have next : sliceNumber no placed.slot = no + 1 := if_pos (Or.inr isReal)
          rw [next] at high later ⊢
          refine ⟨(no + 1).toNat, by omega, le_refl _, rfl, ?_, ?_, ?_⟩
          · rw [sliceFound, byte]
            exact bsd
          · rw [sliceFound, byte]
            exact bsdParts_named fitting byte (fits bsd)
          · exact later.mono (by omega)
      case isFalse plain =>
          refine ⟨⟨_, by omega, rfl⟩, ?_, later.mono (by omega)⟩
          rw [sliceFound, byte]
          exact eq_false_of_ne_true plain

end Slices

/-! ## Slices of a GUID partition table -/

/-- The blocks of these entries, with numbers one after the other. -/
def gptBlocks (entries : Nat → List UInt8) (no : Nat) : List Nat → List Block
  | [] => []
  | index :: rest =>
    .plain
      { partition := packed no 0xFF
        type := pcSliceTypeExt2fs
        start := (entryOf (entries index)).start
        length := (entryOf (entries index)).length.toNat } ::
      gptBlocks entries (no + 1) rest

section Entries

variable {drive : PartDrive} {sector : List UInt8} {entries : Nat → List UInt8} {state : PartState}

/-- What the search finds is a used entry. -/
theorem searchGpt_found {onFound : PartState → Scan PartState} {left : Nat} {after : PartState}
    (goes : searchGpt drive onFound left state = .found after) :
    ∃ used, onFound used = .found after := by
  induction left generalizing state with
  | zero => cases goes
  | succ left ih =>
      rw [searchGpt, readBuf] at goes
      split at goes
      · cases goes
      · split at goes
        · cases goes
        · dsimp only at goes
          split at goes
          · exact ⟨_, goes⟩
          · exact ih goes

/-- A slice of a GPT has the one type. -/
theorem nextGptSlice_type {after : PartState} (goes : nextGptSlice drive state = .found after) :
    after.type = pcSliceTypeExt2fs := by
  obtain ⟨used, goes⟩ := searchGpt_found goes
  exact congrArg PartState.type (Scan.found.inj goes).symm

/-- The calls from a number on find the blocks of the entries a walk lists. -/
theorem walksBlocks_gpt (fitting : Fitting drive) (roomy : Roomy drive sector)
    (inTable : (headerOf sector).partitions % 2 ^ 32 ≠ 0) {no : Nat} {indices : List Nat}
    (few : no + indices.length < 255) (standing : GptStanding state sector (no - 1))
    (walks : Walks drive sector no (listed entries no indices)) :
    WalksBlocks drive (nextGptSlice drive state) (gptBlocks entries no indices) := by
  induction indices generalizing no state with
  | nil =>
      rcases nextGptSlice_cases fitting roomy few standing with ⟨_, _, _, _, _, used, _⟩ | ⟨stops, _⟩
      · exact absurd used (walks _ _)
      · exact stops
  | cons index rest ih =>
      rw [List.length_cons] at few
      obtain ⟨finds, walks⟩ := walks
      rcases nextGptSlice_cases fitting roomy (by omega) standing with
        ⟨after, goes, standing', finds'⟩ | ⟨_, silent⟩
      · have isExtent := finds'.unique finds
        rw [extent, GptEntry.written, Extent.mk.injEq] at isExtent
        obtain ⟨_, start, length⟩ := isExtent
        have partition : after.partition = packed no 0xFF := by
          rcases standing'.after with ⟨isFirst, _⟩ | ⟨_, _, isPartition, _⟩
          · omega
          · rw [isPartition, packSlice_eq, Int.toNat_natCast]
        have goesOn : after.gptOffset ≠ 0 := by
          rw [standing'.gptOffset]
          exact inTable
        refine ⟨after, goes, ?_, ?_⟩
        · rw [found, partition, nextGptSlice_type goes, start, ← length, Int.toNat_natCast]
        · rw [nextSlice, if_pos goesOn]
          have number : ((no + 1 : Nat) : Int) - 1 = no := by omega
          exact ih (by omega) (number ▸ standing') walks
      · obtain ⟨_, _, used, _⟩ := finds
        exact absurd used (silent _ _)

/-- The blocks of a GPT ascend. -/
theorem ascending_gptBlocks (low : Nat) {no : Nat} {indices : List Nat}
    (few : no + indices.length < 255) : Ascending low (gptBlocks entries no indices) := by
  induction indices generalizing no with
  | nil => trivial
  | cons index rest ih =>
      rw [List.length_cons] at few
      have plain : isPcSliceTypeBsd (pcSliceTypeExt2fs &&& 0xFF) = false := by decide
      exact ⟨⟨no, by omega, rfl⟩, plain, ih (by omega)⟩

end Entries

/-! ## Calls between partitions -/

/-- The rest of `next_partition` after `next_bsd_partition`. -/
def afterBsd (drive : PartDrive) (dest : Nat) : Scan PartState → Scan PartState
  | .found state => .found state
  | .fault => .fault
  | .stop state =>
    if dest &&& 0xFF00 ≠ 0xFF00 ∧
        (dest &&& 0xFF0000 = 0xFF0000 ∨ dest &&& 0xFF0000 = state.partition &&& 0xFF0000) then
      .stop state
    else nextPcSlice drive { state with errnum := .none }

section Calls

variable {drive : PartDrive} {dest : Nat} {state : PartState} {no i : Nat}

/-- A packed name is not the number a scan starts with. -/
theorem packed_started (small : no < 255) (few : i < 256) (isName : state.partition = packed no i) :
    state.partition ≠ 0xFFFFFF := by
  intro start
  have same : packed no i = packed 0xFF 0xFF := isName.symm.trans (start.trans (by decide))
  have numbers := (packed_injective (by omega) few (by decide) (by decide) same).1
  omega

/-- Behind a plain slice comes the next slice. -/
theorem nextPartition_plain (fitting : Fitting drive) (hard : drive.hardDisk = true)
    (started : state.partition ≠ 0xFFFFFF)
    (plain : isPcSliceTypeBsd (state.type &&& 0xFF) = false) :
    nextPartition drive dest state = nextSlice drive state := by
  have local_ : ¬ drive.network = true := by
    rw [fitting.local_]
    decide
  have noBsd : ¬ ((state.partition ≠ 0xFFFFFF ∧ isPcSliceTypeBsd (state.type &&& 0xFF)) ∨
      drive.hardDisk = false) := by
    rw [plain, hard]
    simp
  rw [nextPartition, if_neg local_, nextSlice]
  by_cases gpt : state.gptOffset ≠ 0
  · rw [if_pos ⟨started, gpt⟩, if_pos gpt]
  · rw [if_neg (fun both => gpt both.2), if_neg noBsd, if_neg gpt]

/-- Within a label comes its next partition, and then the next slice. -/
theorem nextPartition_bsd (fitting : Fitting drive) (started : state.partition ≠ 0xFFFFFF)
    (gptOffset : state.gptOffset = 0) (bsd : isPcSliceTypeBsd (state.type &&& 0xFF) = true) :
    nextPartition drive dest state = afterBsd drive dest (nextBsdPartition drive state) := by
  have local_ : ¬ drive.network = true := by
    rw [fitting.local_]
    decide
  have typed : state.type ≠ pcSliceTypeNone := by
    intro none_
    rw [none_] at bsd
    exact absurd bsd (by decide)
  rw [nextPartition, if_neg local_, if_neg (fun both => both.2 gptOffset),
    if_pos (Or.inl ⟨started, bsd⟩), if_neg typed]
  dsimp only
  cases nextBsdPartition drive state with
  | found after => rfl
  | stop last => rfl
  | fault => rfl

/-- Where no partition is asked for, the walk goes on behind the partitions of a label. -/
theorem findsThen_parts (fitting : Fitting drive) {type : Nat} (small : no < 255)
    (bsd : isPcSliceTypeBsd type = true) {after : PartState → Prop} {behind : List Found}
    (atEnd : ∀ last, after last →
      FindsThen (nextPartition drive 0xFFFFFF) found (fun _ => True)
        (nextPcSlice drive { last with errnum := .none }) behind)
    {parts : List Found}
    (named : ∀ part ∈ parts,
      (∃ i < 0xFF, part.partition = packed no i) ∧ part.type &&& 0xFF = type)
    {outcome : Scan PartState}
    (finds : FindsThen (nextBsdPartition drive) found after outcome parts)
    (noGpt : ∀ state, outcome = .found state → state.gptOffset = 0) :
    FindsThen (nextPartition drive 0xFFFFFF) found (fun _ => True)
      (afterBsd drive 0xFFFFFF outcome) (parts ++ behind) := by
  induction parts generalizing outcome with
  | nil =>
      obtain ⟨last, rfl, holds⟩ := finds
      have whole : 0xFFFFFF &&& 0xFF00 = 0xFF00 := by decide
      rw [afterBsd, if_neg (fun both => both.1 whole)]
      exact atEnd last holds
  | cons part parts ih =>
      obtain ⟨state, rfl, rfl, finds⟩ := finds
      obtain ⟨⟨⟨i, few, isName⟩, isType⟩, later⟩ := List.forall_mem_cons.mp named
      have gptOffset := noGpt state rfl
      have isBsd : isPcSliceTypeBsd (state.type &&& 0xFF) = true := by
        rw [← bsd, ← isType]
        rfl
      refine ⟨state, rfl, rfl, ?_⟩
      rw [nextPartition_bsd fitting (packed_started small (by omega) isName) gptOffset isBsd]
      apply ih later finds
      intro next goes
      exact (nextBsdPartition_gptOffset goes).trans gptOffset

/-- The walk then finds all items of the blocks. -/
theorem findsThen_items (fitting : Fitting drive) (hard : drive.hardDisk = true)
    {blocks : List Block} {low : Nat} (ascending : Ascending low blocks)
    {outcome : Scan PartState} (walks : WalksBlocks drive outcome blocks) :
    FindsThen (nextPartition drive 0xFFFFFF) found (fun _ => True) outcome (items blocks) := by
  induction blocks generalizing low outcome with
  | nil =>
      obtain ⟨last, stops⟩ := walks
      exact ⟨last, stops, trivial⟩
  | cons block rest ih =>
      cases block with
      | plain slice =>
          obtain ⟨⟨no, small, isName⟩, plain, later⟩ := ascending
          obtain ⟨state, rfl, rfl, walks⟩ := walks
          refine ⟨state, rfl, rfl, ?_⟩
          rw [nextPartition_plain fitting hard (packed_started small (by decide) isName) plain]
          exact ih later walks
      | bsd slice parts =>
          obtain ⟨no, small, _, isName, bsd, named, later⟩ := ascending
          obtain ⟨state, rfl, rfl, gptOffset, finds⟩ := walks
          refine ⟨state, rfl, rfl, ?_⟩
          rw [nextPartition_bsd fitting (packed_started small (by decide) isName) gptOffset bsd]
          apply findsThen_parts fitting small bsd _ named finds
          · intro next goes
            exact (nextBsdPartition_gptOffset goes).trans gptOffset
          · intro last left
            exact ih later left.2

end Calls

/-! ## Disks -/

/-- The blocks of a hard disk: those of a chain of partition tables that ends, or those
of a GUID partition table whose array is as `fit` says. There are fewer than 255 slices,
and labels count no more partitions than fit into their sector. -/
inductive DiskBlocks (drive : PartDrive)
    (fit : (sector : List UInt8) → (entries : Nat → List UInt8) → Prop) : List Block → Prop
  | slices {mbr : List UInt8} {tables : List (List UInt8)}
      (chained : Chained drive 0 0 (mbr :: tables))
      (noGpt : NoGpt drive mbr)
      (labels : ∀ placed ∈ chainSlots 0 0 (mbr :: tables), FitLabel drive placed)
      (few : lastNumber (-1) (chainSlots 0 0 (mbr :: tables)) < 255) :
      DiskBlocks drive fit (sliceBlocks drive (-1) (chainSlots 0 0 (mbr :: tables)))
  | gpt {mbr sector : List UInt8} {entries : Nat → List UInt8}
      (disk : GptDisk drive mbr sector entries)
      (fits : fit sector entries)
      (few : (usedIndices (headerOf sector) entries).length < 255) :
      DiskBlocks drive fit (gptBlocks entries 0 (usedIndices (headerOf sector) entries))

section Disks

variable {drive : PartDrive} {blocks : List Block} {state : PartState} {dest : Nat}

/-- The blocks of a disk ascend. -/
theorem DiskBlocks.ascending {fit : (sector : List UInt8) → (entries : Nat → List UInt8) → Prop}
    (fitting : Fitting drive) (disk : DiskBlocks drive fit blocks) : Ascending 0 blocks := by
  cases disk with
  | slices chained noGpt labels few =>
      exact ascending_sliceBlocks fitting (le_refl (-1)) (chainSlots_type_byte _) labels few
  | gpt disk fits few => exact ascending_gptBlocks 0 (by omega)

/-- From the start, a walk finds the blocks of the disk. -/
theorem DiskBlocks.walks (fitting : Fitting drive) (hard : drive.hardDisk = true)
    (disk : DiskBlocks drive (Dense drive) blocks) (first : state.partition = 0xFFFFFF) :
    WalksBlocks drive (nextPartition drive dest state) blocks := by
  cases disk with
  | slices chained noGpt labels few =>
      exact walksBlocks_chain fitting hard chained noGpt first labels few
  | gpt disk fits few =>
      obtain ⟨state', calls, standing⟩ := @GptDisk.first drive _ _ _ state dest disk fitting hard first
      rw [calls]
      exact walksBlocks_gpt fitting (disk.roomy fits.room) disk.inTable (by omega) standing
        (walks_of_dense fitting disk few fits)

/-- A walk that asks for no partition finds the items of the disk, and ends. -/
theorem DiskBlocks.enumerates (fitting : Fitting drive) (hard : drive.hardDisk = true)
    (disk : DiskBlocks drive (Dense drive) blocks) (first : state.partition = 0xFFFFFF) :
    Enumerates (nextPartition drive 0xFFFFFF) found state (items blocks) :=
  enumerates_iff_findsThen.mpr
    (findsThen_items fitting hard (disk.ascending fitting) (disk.walks fitting hard first))

end Disks

end GrubLegacy.Partition
