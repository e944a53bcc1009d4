import GrubLegacy.Partition.SliceTables

/-!
# Numbers of slices

The walk of `next_partition` over a partition table and the chain of extended boot
records behind it: all slots are found in the order of the chain. The numbers they
are given count the real slots, but the first slot of the first extended boot record
takes one in any case.
-/

namespace GrubLegacy.Partition

open Base Stage2

/-! ## The chain -/

/-- A slot with the sector of its table. -/
structure Placed where
  sector : Nat
  slot : Slot
deriving DecidableEq, Repr

/-- The slots of one table. -/
def tableSlots (sector : Nat) (bytes : List UInt8) : List Placed :=
  (List.range 4).map fun part => { sector, slot := slot (areaOf bytes) part }

/-- The slots of the table at a sector and of those chained to it by extended slots. -/
def chainSlots (ext sector : Nat) : List (List UInt8) → List Placed
  | [] => []
  | bytes :: rest =>
    tableSlots sector bytes ++
      match firstExtended (areaOf bytes) with
      | none => []
      | some part =>
        let next := nextTable ext (slot (areaOf bytes) part)
        chainSlots (extBase ext next) next rest

/-- The table at a sector and those chained to it are these. The chain ends with a table
that has no extended slot, or has one that does not lead to a table. -/
def Chained (drive : PartDrive) (ext sector : Nat) : List (List UInt8) → Prop
  | [] => ∃ bytes, SectorAt drive sector bytes ∧ pcMbrCheckSig (areaOf bytes) = false
  | bytes :: rest =>
    TableAt drive sector bytes ∧
      match firstExtended (areaOf bytes) with
      | none => rest = []
      | some part =>
        let next := nextTable ext (slot (areaOf bytes) part)
        Chained drive (extBase ext next) next rest

section Chains

variable {drive : PartDrive} {ext sector : Nat} {bytes : List UInt8} {tables : List (List UInt8)}

/-- A table without an extended slot ends a chain, -/
theorem Chained.last (table : TableAt drive sector bytes)
    (last : firstExtended (areaOf bytes) = none) : Chained drive ext sector [bytes] := by
  rw [Chained, last]
  exact ⟨table, rfl⟩

/-- and one with such a slot goes before the chain it leads to. -/
theorem Chained.next {part next : Nat} (table : TableAt drive sector bytes)
    (more : firstExtended (areaOf bytes) = some part)
    (isNext : nextTable ext (slot (areaOf bytes) part) = next)
    (chained : Chained drive (extBase ext next) next tables) :
    Chained drive ext sector (bytes :: tables) := by
  subst isNext
  rw [Chained, more]
  exact ⟨table, chained⟩

/-- The first slot of a chain. -/
theorem chainSlots_first (ext sector : Nat) (bytes : List UInt8) (tables : List (List UInt8)) :
    chainSlots ext sector (bytes :: tables) =
      { sector, slot := slot (areaOf bytes) 0 } ::
        (chainSlots ext sector (bytes :: tables)).drop 1 := rfl

/-- The slots of a chain are those of its last table, -/
theorem chainSlots_last (tables : List (List UInt8))
    (last : firstExtended (areaOf bytes) = none) :
    chainSlots ext sector (bytes :: tables) = tableSlots sector bytes ++ [] := by
  rw [chainSlots, last]

/-- and of each table before it. -/
theorem chainSlots_next (tables : List (List UInt8)) {part : Nat}
    (more : firstExtended (areaOf bytes) = some part) :
    chainSlots ext sector (bytes :: tables) =
      tableSlots sector bytes ++
        chainSlots (extBase ext (nextTable ext (slot (areaOf bytes) part)))
          (nextTable ext (slot (areaOf bytes) part)) tables := by
  rw [chainSlots, more]

/-- A table has four slots. -/
theorem tableSlots_length (sector : Nat) (bytes : List UInt8) :
    (tableSlots sector bytes).length = 4 := rfl

/-- The slots of a table from one on. -/
theorem tableSlots_drop (sector : Nat) (bytes : List UInt8) {part : Nat} (lt : part < 4) :
    (tableSlots sector bytes).drop part =
      { sector, slot := slot (areaOf bytes) part } :: (tableSlots sector bytes).drop (part + 1) := by
  have length := tableSlots_length sector bytes
  rw [List.drop_eq_getElem_cons (by omega)]
  congr 1
  simp [tableSlots]

/-- After the first slot there are the others of its table, and then those behind. -/
theorem tableSlots_append_drop (sector : Nat) (bytes : List UInt8) (rest : List Placed) :
    (tableSlots sector bytes ++ rest).drop 1 = (tableSlots sector bytes).drop (0 + 1) ++ rest :=
  List.drop_append_of_le_length (by rw [tableSlots_length]; decide)

end Chains

/-! ## Reports -/

/-- What a caller of `next_partition` is told about a slice. -/
structure Report where
  number : Int
  type : Nat
  start : Nat
  length : Nat
deriving DecidableEq, Repr

def report (state : PartState) : Report :=
  { number := pcSliceNo state.partition
    type := state.type
    start := state.start
    length := state.len }

/-- It is about a real slot. -/
def Report.real (report : Report) : Bool :=
  Slot.real { type := report.type, start := report.start, length := report.length }

/-- The report of a slot, with the start computed in `unsigned long`. -/
def Placed.wrapped (placed : Placed) (number : Int) : Report :=
  { number
    type := placed.slot.type
    start := (placed.sector + placed.slot.start) % 2 ^ 32
    length := placed.slot.length }

/-- The report of a slot with this number and what is written in it. -/
def Placed.written (placed : Placed) (number : Int) : Report :=
  { number
    type := placed.slot.type
    start := placed.sector + placed.slot.start
    length := placed.slot.length }

/-- The reports of these slots after a slice with number `no`. -/
def reports (no : Int) : List Placed → List Report
  | [] => []
  | placed :: rest =>
    placed.wrapped (sliceNumber no placed.slot) :: reports (sliceNumber no placed.slot) rest

/-- The number of the last one. -/
def lastNumber (no : Int) (slots : List Placed) : Int :=
  slots.foldl (fun no placed => sliceNumber no placed.slot) no

section Numbers

variable {no : Int}

/-- A slice number never falls, -/
theorem le_sliceNumber (no : Int) (slot : Slot) : no ≤ sliceNumber no slot := by
  rw [sliceNumber]
  split <;> omega

/-- nor does the last one. -/
theorem le_lastNumber (no : Int) (slots : List Placed) : no ≤ lastNumber no slots := by
  induction slots generalizing no with
  | nil => exact le_refl no
  | cons placed rest ih =>
      exact (le_sliceNumber no placed.slot).trans (ih (sliceNumber no placed.slot))

/-- What is reported for two lists of slots is reported one behind the other, -/
theorem reports_append (no : Int) (left right : List Placed) :
    reports no (left ++ right) = reports no left ++ reports (lastNumber no left) right := by
  induction left generalizing no with
  | nil => rfl
  | cons placed rest ih =>
      rw [List.cons_append, reports, reports, ih, List.cons_append]
      rfl

/-- with the numbers going on. -/
theorem lastNumber_append (no : Int) (left right : List Placed) :
    lastNumber no (left ++ right) = lastNumber (lastNumber no left) right :=
  List.foldl_append

end Numbers

/-! ## The walk -/

/-- The state after a call that found a slice without BSD partitions. -/
structure Standing (state : PartState) (ext sector : Nat) (entry : Int) (no : Int) : Prop
    extends Cursor state ext sector entry no where
  low : 0 ≤ no
  gptOffset : state.gptOffset = 0
  type : isPcSliceTypeBsd (state.type &&& 0xFF) = false
  partition : state.partition = packSlice no

section Walk

variable {drive : PartDrive} {dest : Nat} {state : PartState} {ext sector : Nat} {entry no : Int}
  {bytes : List UInt8}

/-- In the middle of a scan the next partition is that of the next slice. -/
theorem Standing.nextPartition (standing : Standing state ext sector entry no)
    (fitting : Fitting drive) (hard : drive.hardDisk = true) :
    nextPartition drive dest state = nextPcSlice drive state := by
  have noBsd : ¬ ((state.partition ≠ 0xFFFFFF ∧ isPcSliceTypeBsd (state.type &&& 0xFF)) ∨
      drive.hardDisk = false) := by
    rw [standing.type, hard]
    simp
  have local_ : ¬ drive.network = true := by
    rw [fitting.local_]
    decide
  rw [Partition.nextPartition, if_neg local_, if_neg (fun gpt => gpt.2 standing.gptOffset),
    if_neg noBsd]

/-- A type is a byte. -/
theorem slot_type_byte (buf : Buffer) (part : Nat) :
    (slot buf part).type &&& 0xFF = (slot buf part).type := by
  rw [Nat.and_two_pow_sub_one_eq_mod _ 8]
  exact Nat.mod_eq_of_lt (Area.byte_lt _ _)

/-- Taking a slot of the table. -/
theorem slotTaken_standing (offset : state.offset = sector)
    (extOffset : state.extOffset = ext) (isEntry : state.entry = entry) {part : Nat}
    (isPart : entry + 1 = part)
    (plain : isPcSliceTypeBsd (slot (areaOf bytes) part).type = false)
    (low : -1 ≤ no) (high : sliceNumber no (slot (areaOf bytes) part) < 255) :
    Standing (slotTaken state bytes no) ext sector (entry + 1)
        (sliceNumber no (slot (areaOf bytes) part)) ∧
      report (slotTaken state bytes no) =
        Placed.wrapped { sector, slot := slot (areaOf bytes) part }
          (sliceNumber no (slot (areaOf bytes) part)) := by
  have isTaken : (state.entry + 1).toNat = part := by omega
  have positive : 0 ≤ sliceNumber no (slot (areaOf bytes) part) := by
    rw [sliceNumber]
    split <;> omega
  have cursor := slotTaken_cursor offset extOffset isEntry isPart low high
  refine ⟨⟨cursor, positive, rfl, ?_, ?_⟩, ?_⟩
  · rw [slotTaken, isTaken, slot_type_byte, plain]
  · rw [slotTaken, isTaken]
  · rw [report, cursor.number, slotTaken, isTaken, offset]
    rfl

/-- The calls after a slot of a table find the other slots of the table, if those
after its last slot find the rest. -/
theorem enumerates_table (fitting : Fitting drive) (hard : drive.hardDisk = true)
    (table : TableAt drive sector bytes) {rest : List Placed}
    (after : ∀ state no, Standing state ext sector 3 no → lastNumber no rest < 255 →
      Enumerates (nextPartition drive dest) report state (reports no rest))
    (left : Nat) {part : Nat} (isPart : part + left = 3)
    (standing : Standing state ext sector part no)
    (plain : ∀ placed ∈ (tableSlots sector bytes).drop (part + 1) ++ rest,
      isPcSliceTypeBsd placed.slot.type = false)
    (few : lastNumber no ((tableSlots sector bytes).drop (part + 1) ++ rest) < 255) :
    Enumerates (nextPartition drive dest) report state
      (reports no ((tableSlots sector bytes).drop (part + 1) ++ rest)) := by
  induction left generalizing state part no with
  | zero =>
      obtain rfl : part = 3 := isPart
      exact after state no standing few
  | succ left ih =>
      rw [tableSlots_drop sector bytes (by omega)] at few plain ⊢
      obtain ⟨here, later⟩ := List.forall_mem_cons.mp plain
      have isEntry := standing.entry
      have low := standing.low
      have high := (le_lastNumber (sliceNumber no (slot (areaOf bytes) (part + 1))) _).trans_lt few
      obtain ⟨taken, isReport⟩ := slotTaken_standing standing.offset standing.extOffset
        isEntry (by omega) here (by omega) high
      refine ⟨slotTaken state bytes no, ?_, isReport, ih (by omega) taken later few⟩
      rw [standing.nextPartition fitting hard,
        nextPcSlice_slot fitting table standing.toCursor (by omega) (by omega)]

/-- The calls after the first slot of a table find the other slots of the chain. -/
theorem enumerates_chain (fitting : Fitting drive) (hard : drive.hardDisk = true)
    (noGpt : ∀ mbr, SectorAt drive 0 mbr → NoGpt drive mbr)
    {tables : List (List UInt8)} (chained : Chained drive ext sector (bytes :: tables))
    (standing : Standing state ext sector 0 no)
    (plain : ∀ placed ∈ (chainSlots ext sector (bytes :: tables)).drop 1,
      isPcSliceTypeBsd placed.slot.type = false)
    (few : lastNumber no ((chainSlots ext sector (bytes :: tables)).drop 1) < 255) :
    Enumerates (nextPartition drive dest) report state
      (reports no ((chainSlots ext sector (bytes :: tables)).drop 1)) := by
  induction tables generalizing state ext sector bytes no with
  | nil =>
      obtain ⟨table, rest⟩ := chained
      cases more : firstExtended (areaOf bytes) with
      | none =>
          rw [chainSlots_last [] more, tableSlots_append_drop] at few plain ⊢
          refine enumerates_table fitting hard table ?_ 3 rfl standing plain few
          intro state no standing _
          obtain ⟨stopped, stops⟩ := nextPcSlice_end fitting table standing.toCursor more
          exact ⟨stopped, (standing.nextPartition fitting hard).trans stops⟩
      | some part =>
          rw [more] at rest
          obtain ⟨bytes', sectorAt, unsigned⟩ := rest
          rw [chainSlots_next [] more, tableSlots_append_drop] at few plain ⊢
          refine enumerates_table fitting hard table ?_ 3 rfl standing plain few
          intro state no standing _
          obtain ⟨stopped, stops⟩ :=
            nextPcSlice_unsigned fitting table standing.toCursor more sectorAt unsigned
          exact ⟨stopped, (standing.nextPartition fitting hard).trans stops⟩
  | cons bytes' tables ih =>
      obtain ⟨table, rest⟩ := chained
      cases more : firstExtended (areaOf bytes) with
      | none =>
          rw [more] at rest
          cases rest
      | some part =>
          rw [more] at rest
          have chained' := rest
          rw [chainSlots_next (bytes' :: tables) more, tableSlots_append_drop] at few plain ⊢
          have behind := fun placed isIn => plain placed (List.mem_append_right _ isIn)
          refine enumerates_table fitting hard table ?_ 3 rfl standing plain few
          intro state no standing few
          have goes := nextPcSlice_next fitting table standing.toCursor more chained'.1
            (fun start => noGpt bytes' (start ▸ chained'.1.read))
          have entered := @tableEntered_cursor state bytes ext sector 3 no standing.toCursor part
          -- the first slot of the next table is taken by the same call
          rw [chainSlots_first _ _ bytes' tables] at few behind ⊢
          obtain ⟨here, later⟩ := List.forall_mem_cons.mp behind
          have high := (le_lastNumber (sliceNumber no (slot (areaOf bytes') 0)) _).trans_lt few
          have low := standing.low
          obtain ⟨taken, isReport⟩ := slotTaken_standing entered.offset entered.extOffset
            entered.entry rfl here (by omega) high
          exact ⟨_, (standing.nextPartition fitting hard).trans goes, isReport,
            ih chained' taken later few⟩

/-- A walk from the start finds all slots of the chain. -/
theorem enumerates_slots (fitting : Fitting drive) (hard : drive.hardDisk = true)
    {mbr : List UInt8} {tables : List (List UInt8)} (chained : Chained drive 0 0 (mbr :: tables))
    (plain : ∀ placed ∈ chainSlots 0 0 (mbr :: tables), isPcSliceTypeBsd placed.slot.type = false)
    (noGpt : NoGpt drive mbr) (first : state.partition = 0xFFFFFF)
    (few : lastNumber (-1) (chainSlots 0 0 (mbr :: tables)) < 255) :
    Enumerates (nextPartition drive dest) report state
      (reports (-1) (chainSlots 0 0 (mbr :: tables))) := by
  have restarts : pcSliceNo state.partition = 0xFF := by
    rw [first]
    decide
  have always : ∀ mbr', SectorAt drive 0 mbr' → NoGpt drive mbr' := by
    intro mbr' sectorAt
    obtain rfl : mbr = mbr' := Except.ok.inj (chained.1.read.symm.trans sectorAt)
    exact noGpt
  have starts : nextPartition drive dest state =
      .found (slotTaken (restarted state) mbr (-1)) := by
    rw [nextPartition_first fitting hard first, nextPcSlice_mbr fitting chained.1 noGpt restarts]
  rw [chainSlots_first] at few plain ⊢
  obtain ⟨here, later⟩ := List.forall_mem_cons.mp plain
  have high := (le_lastNumber (sliceNumber (-1) (slot (areaOf mbr) 0)) _).trans_lt few
  obtain ⟨taken, isReport⟩ := @slotTaken_standing (restarted state) 0 0 (-1) (-1) mbr rfl rfl rfl
    0 rfl here (le_refl (-1)) high
  exact ⟨_, starts, isReport, enumerates_chain fitting hard always chained taken later few⟩

end Walk

/-! ## Numbers of logical partitions -/

/-- Reports of these slots with numbers one after the other. -/
def consecutive (tell : Placed → Int → Report) (no : Int) : List Placed → List Report
  | [] => []
  | placed :: rest => tell placed no :: consecutive tell (no + 1) rest

/-- The real slots of extended boot records. The first four slots are primary ones. -/
def logicals (slots : List Placed) : List Placed := (slots.drop 4).filter (·.slot.real)

/-- Primary slots have their position as number, logical partitions are numbered from
four on in the order of the chain, and of both what is told is written in the slot. -/
structure Numbered (items : List Report) (slots : List Placed) : Prop where
  primary : items.take 4 = consecutive Placed.written 0 (slots.take 4)
  logical : (items.drop 4).filter Report.real = consecutive Placed.written 4 (logicals slots)
  distinct : (((items.drop 4).filter Report.real).map Report.number).Nodup

/-- The walk from the start finds these slots with the numbers they should have. -/
def NumbersSlots (drive : PartDrive) (dest : Nat) (state : PartState)
    (tables : List (List UInt8)) : Prop :=
  ∃ items, Enumerates (nextPartition drive dest) report state items ∧
    Numbered items (chainSlots 0 0 tables)

/-- Where there are logical partitions, the first slot of the first extended boot
record is one. They start at sectors that have a number. -/
structure Regular (slots : List Placed) : Prop where
  first : logicals slots ≠ [] → ∀ placed ∈ (slots.drop 4).head?, placed.slot.real = true
  small : ∀ placed ∈ logicals slots, placed.sector + placed.slot.start < 2 ^ 32

section Logicals

variable {no : Int} {slots : List Placed}

/-- The 32-bit start is the one written just where the sum does not wrap, -/
theorem wrapped_eq_written_iff {placed : Placed} {no no' : Int} :
    placed.wrapped no = placed.written no' ↔
      no = no' ∧ placed.sector + placed.slot.start < 2 ^ 32 := by
  rw [Placed.wrapped, Placed.written, Report.mk.injEq]
  constructor
  · rintro ⟨same, _, start, _⟩
    exact ⟨same, start ▸ Nat.mod_lt _ (Nat.two_pow_pos 32)⟩
  · rintro ⟨same, small⟩
    exact ⟨same, rfl, Nat.mod_eq_of_lt small, rfl⟩

/-- and so for a list of slots. -/
theorem consecutive_eq_iff {no no' : Int} {slots : List Placed} :
    consecutive Placed.wrapped no slots = consecutive Placed.written no' slots ↔
      (slots ≠ [] → no = no') ∧ ∀ placed ∈ slots, placed.sector + placed.slot.start < 2 ^ 32 := by
  induction slots generalizing no no' with
  | nil => simp [consecutive]
  | cons placed rest ih =>
      rw [consecutive, consecutive, List.cons.injEq, wrapped_eq_written_iff, ih,
        List.forall_mem_cons]
      constructor
      · rintro ⟨⟨same, small⟩, _, smalls⟩
        exact ⟨fun _ => same, small, smalls⟩
      · rintro ⟨same, small, smalls⟩
        exact ⟨⟨same (List.cons_ne_nil _ _), small⟩,
          fun _ => by rw [same (List.cons_ne_nil _ _)], smalls⟩

/-- Consecutive numbers are different ones. -/
theorem consecutive_distinct (no : Int) (slots : List Placed) :
    ((consecutive Placed.written no slots).map Report.number).Nodup ∧
      ∀ number ∈ (consecutive Placed.written no slots).map Report.number, no ≤ number := by
  induction slots generalizing no with
  | nil => simp [consecutive]
  | cons placed rest ih =>
      obtain ⟨distinct, above⟩ := ih (no + 1)
      rw [consecutive, List.map_cons, List.nodup_cons, List.forall_mem_cons]
      refine ⟨⟨fun isIn => ?_, distinct⟩, le_refl no, fun number isIn => ?_⟩
      · have next : no + 1 ≤ no := above _ isIn
        omega
      · have next := above number isIn
        omega

/-- After the primary slots, and the one behind them, numbers go up with real slots. -/
theorem reports_real (high : 4 ≤ no) : (reports no slots).filter Report.real =
    consecutive Placed.wrapped (no + 1) (slots.filter (·.slot.real)) := by
  induction slots generalizing no with
  | nil => rfl
  | cons placed rest ih =>
      have isReal : ∀ number, (placed.wrapped number).real = placed.slot.real := fun _ => rfl
      rw [reports, List.filter_cons, isReal, List.filter_cons, sliceNumber]
      cases placed.slot.real with
      | true => rw [if_pos rfl, if_pos rfl, if_pos (Or.inr rfl), consecutive, ih (by omega)]
      | false =>
          have stays : ¬ (no < 4 ∨ false = true) := by simp [high]
          rw [if_neg stays, if_neg Bool.false_ne_true, if_neg Bool.false_ne_true, ih high]

/-- Behind the primary slots only real ones are counted. -/
theorem lastNumber_real (high : 4 ≤ no) :
    lastNumber no slots = no + (slots.filter (·.slot.real)).length := by
  induction slots generalizing no with
  | nil => simp [lastNumber]
  | cons placed rest ih =>
      rw [lastNumber, List.foldl_cons, ← lastNumber, List.filter_cons, sliceNumber]
      cases placed.slot.real with
      | true =>
          rw [if_pos (Or.inr rfl), if_pos rfl, ih (by omega), List.length_cons]
          omega
      | false =>
          have stays : ¬ (no < 4 ∨ false = true) := by simp [high]
          rw [if_neg stays, if_neg Bool.false_ne_true, ih high]

variable {mbr : List UInt8}

/-- The slots of the MBR are numbered from zero, -/
theorem reports_primary (mbr : List UInt8) :
    reports (-1) (tableSlots 0 mbr) = consecutive Placed.written 0 (tableSlots 0 mbr) := by
  have wrapped : reports (-1) (tableSlots 0 mbr) =
      consecutive Placed.wrapped 0 (tableSlots 0 mbr) := rfl
  rw [wrapped, consecutive_eq_iff]
  refine ⟨fun _ => rfl, fun placed isIn => ?_⟩
  obtain ⟨part, _, rfl⟩ := List.mem_map.mp isIn
  rw [Nat.zero_add]
  exact Area.word32_lt _ _

/-- and the last of them is three. -/
theorem lastNumber_primary (mbr : List UInt8) : lastNumber (-1) (tableSlots 0 mbr) = 3 := rfl

/-- Behind the MBR the logical partitions are the real slots. -/
theorem logicals_behind (mbr : List UInt8) (behind : List Placed) :
    logicals (tableSlots 0 mbr ++ behind) = behind.filter (·.slot.real) := by
  rw [logicals, List.drop_left' (tableSlots_length 0 mbr)]

/-- The number of the last slot, where there are few logical partitions. -/
theorem lastNumber_lt (mbr : List UInt8) (behind : List Placed)
    (few : (logicals (tableSlots 0 mbr ++ behind)).length < 250) :
    lastNumber (-1) (tableSlots 0 mbr ++ behind) < 255 := by
  rw [logicals_behind] at few
  rw [lastNumber_append, lastNumber_primary]
  cases behind with
  | nil => decide
  | cons first rest =>
      have four : sliceNumber 3 first.slot = 4 := if_pos (Or.inl (by decide))
      rw [lastNumber, List.foldl_cons, ← lastNumber, four, lastNumber_real (le_refl 4)]
      have fewer : (rest.filter (·.slot.real)).length ≤ ((first :: rest).filter (·.slot.real)).length :=
        ((List.sublist_cons_self first rest).filter _).length_le
      omega

/-- What decides is the first slot: it takes the number four, real or not. -/
theorem logical_iff (behind : List Placed) :
    (reports 3 behind).filter Report.real =
        consecutive Placed.written 4 (behind.filter (·.slot.real)) ↔
      (behind.filter (·.slot.real) ≠ [] → ∀ placed ∈ behind.head?, placed.slot.real = true) ∧
        ∀ placed ∈ behind.filter (·.slot.real), placed.sector + placed.slot.start < 2 ^ 32 := by
  cases behind with
  | nil => simp [reports, consecutive]
  | cons first rest =>
      have four : sliceNumber 3 first.slot = 4 := if_pos (Or.inl (by decide))
      have isReal : (first.wrapped 4).real = first.slot.real := rfl
      rw [reports, four, List.filter_cons, isReal, List.filter_cons, reports_real (le_refl 4),
        List.head?_cons]
      cases real : first.slot.real with
      | true =>
          rw [if_pos rfl, if_pos rfl]
          have all := @consecutive_eq_iff 4 4 (first :: rest.filter (·.slot.real))
          rw [consecutive] at all
          refine all.trans (and_congr_left fun _ => ?_)
          simp [real]
      | false =>
          rw [if_neg Bool.false_ne_true, if_neg Bool.false_ne_true, consecutive_eq_iff]
          simp [real]

/-- The slots found have the numbers they should have just if the chain is regular. -/
theorem numbered_iff (mbr : List UInt8) (behind : List Placed) :
    Numbered (reports (-1) (tableSlots 0 mbr ++ behind)) (tableSlots 0 mbr ++ behind) ↔
      Regular (tableSlots 0 mbr ++ behind) := by
  have length : (consecutive Placed.written 0 (tableSlots 0 mbr)).length = 4 := rfl
  have found : reports (-1) (tableSlots 0 mbr ++ behind) =
      consecutive Placed.written 0 (tableSlots 0 mbr) ++ reports 3 behind := by
    rw [reports_append, reports_primary, lastNumber_primary]
  have slots : (tableSlots 0 mbr ++ behind).drop 4 = behind := List.drop_left' rfl
  have regular_iff : Regular (tableSlots 0 mbr ++ behind) ↔ (reports 3 behind).filter Report.real =
      consecutive Placed.written 4 (behind.filter (·.slot.real)) := by
    rw [logical_iff, ← logicals_behind mbr behind, ← slots]
    exact ⟨fun regular => ⟨regular.first, regular.small⟩, fun all => ⟨all.1, all.2⟩⟩
  constructor
  · intro numbered
    have same := numbered.logical
    rw [found, List.drop_left' length, logicals_behind] at same
    exact regular_iff.mpr same
  · intro regular
    have same := regular_iff.mp regular
    constructor
    · rw [found, List.take_left' length, List.take_left' (tableSlots_length 0 mbr)]
    · rw [found, List.drop_left' length, logicals_behind, same]
    · rw [found, List.drop_left' length, same]
      exact (consecutive_distinct 4 _).1

end Logicals

/-! ## The whole enumeration -/

/-- On a hard disk without GUID and BSD partitions whose chain of extended boot records
ends, the walk numbers slots as it should just if the chain is regular. -/
theorem nextPartition_numbers_iff {drive : PartDrive} {dest : Nat} {state : PartState}
    {mbr : List UInt8} {tables : List (List UInt8)} (fitting : Fitting drive)
    (hard : drive.hardDisk = true) (chained : Chained drive 0 0 (mbr :: tables))
    (plain : ∀ placed ∈ chainSlots 0 0 (mbr :: tables), isPcSliceTypeBsd placed.slot.type = false)
    (noGpt : NoGpt drive mbr) (first : state.partition = 0xFFFFFF)
    (few : (logicals (chainSlots 0 0 (mbr :: tables))).length < 250) :
    NumbersSlots drive dest state (mbr :: tables) ↔ Regular (chainSlots 0 0 (mbr :: tables)) := by
  obtain ⟨behind, isBehind⟩ : ∃ behind, chainSlots 0 0 (mbr :: tables) =
      tableSlots 0 mbr ++ behind := ⟨_, rfl⟩
  have enumerates := @enumerates_slots drive dest state fitting hard mbr tables chained plain noGpt
    first (isBehind ▸ lastNumber_lt mbr behind (isBehind ▸ few))
  rw [NumbersSlots, isBehind, ← numbered_iff, ← isBehind]
  constructor
  · rintro ⟨items, found, numbered⟩
    rw [found.unique enumerates] at numbered
    exact numbered
  · intro numbered
    exact ⟨_, enumerates, numbered⟩

/-- One primary partition, and an extended one at sector 100. -/
def primaryTable : List UInt8 :=
  tableSector [⟨0x83, 1, 50⟩, ⟨5, 100, 900⟩, ⟨0, 0, 0⟩, ⟨0, 0, 0⟩]

/-- A logical partition, and the next record 400 sectors behind the first one. -/
def firstRecord : List UInt8 :=
  tableSector [⟨0x83, 1, 300⟩, ⟨5, 400, 500⟩, ⟨0, 0, 0⟩, ⟨0, 0, 0⟩]

/-- The same with a first slot that is empty. -/
def lateRecord : List UInt8 :=
  tableSector [⟨0, 0, 0⟩, ⟨0x83, 1, 300⟩, ⟨5, 400, 500⟩, ⟨0, 0, 0⟩]

/-- A logical partition. -/
def lastRecord : List UInt8 :=
  tableSector [⟨0x83, 1, 400⟩, ⟨0, 0, 0⟩, ⟨0, 0, 0⟩, ⟨0, 0, 0⟩]

/-- A disk with two logical partitions. -/
def logicalDisk (first : List UInt8) : PartDrive :=
  sectorDrive [(0, primaryTable), (100, first), (500, lastRecord)]

/-- The tables of the disk form a chain, -/
theorem logicalDisk_chained :
    Chained (logicalDisk firstRecord) 0 0 [primaryTable, firstRecord, lastRecord] :=
  have primary : firstExtended (areaOf primaryTable) = some 1 := by decide +kernel
  have record : firstExtended (areaOf firstRecord) = some 1 := by decide +kernel
  Chained.next (by decide +kernel) primary (by decide +kernel : _ = 100)
    (Chained.next (by decide +kernel) record (by decide +kernel : _ = 500)
      (Chained.last (by decide +kernel) (by decide +kernel)))

/-- and so do those with the late record. -/
theorem lateDisk_chained :
    Chained (logicalDisk lateRecord) 0 0 [primaryTable, lateRecord, lastRecord] :=
  have primary : firstExtended (areaOf primaryTable) = some 1 := by decide +kernel
  have record : firstExtended (areaOf lateRecord) = some 2 := by decide +kernel
  Chained.next (by decide +kernel) primary (by decide +kernel : _ = 100)
    (Chained.next (by decide +kernel) record (by decide +kernel : _ = 500)
      (Chained.last (by decide +kernel) (by decide +kernel)))

/-- The logical partitions of this disk are numbered as they should be. -/
theorem nextPartition_numbers_logicals :
    NumbersSlots (logicalDisk firstRecord) 0xFFFFFF walkStart
      [primaryTable, firstRecord, lastRecord] :=
  (nextPartition_numbers_iff (sectorDrive_fitting _) rfl logicalDisk_chained (by decide +kernel)
    (fun gpt => absurd gpt (by decide +kernel)) rfl (by decide +kernel)).mpr
    ⟨by decide +kernel, by decide +kernel⟩

/-- An empty slot takes the number of the first logical partition. -/
theorem nextPartition_numbers_late :
    Chained (logicalDisk lateRecord) 0 0 [primaryTable, lateRecord, lastRecord] ∧
      NoGpt (logicalDisk lateRecord) primaryTable ∧
      (∀ placed ∈ chainSlots 0 0 [primaryTable, lateRecord, lastRecord],
        isPcSliceTypeBsd placed.slot.type = false) ∧
      (logicals (chainSlots 0 0 [primaryTable, lateRecord, lastRecord])).length = 2 ∧
      ¬ NumbersSlots (logicalDisk lateRecord) 0xFFFFFF walkStart
        [primaryTable, lateRecord, lastRecord] := by
  have noGpt : NoGpt (logicalDisk lateRecord) primaryTable :=
    fun gpt => absurd gpt (by decide +kernel)
  have plain : ∀ placed ∈ chainSlots 0 0 [primaryTable, lateRecord, lastRecord],
      isPcSliceTypeBsd placed.slot.type = false := by decide +kernel
  refine ⟨lateDisk_chained, noGpt, plain, by decide +kernel, ?_⟩
  rintro ⟨items, found, numbered⟩
  have enumerates := @enumerates_slots (logicalDisk lateRecord) 0xFFFFFF walkStart
    (sectorDrive_fitting _) rfl _ _ lateDisk_chained plain noGpt rfl (by decide +kernel)
  rw [found.unique enumerates] at numbered
  exact absurd numbered.logical (by decide +kernel)

end GrubLegacy.Partition
