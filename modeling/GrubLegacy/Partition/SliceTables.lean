import GrubLegacy.Partition.NextPartition

/-!
# Slots of partition tables

What `next_pc_slice` does with a table, in terms of the four slots the table has:
it takes the next one, or goes on to the table of the first extended slot.
-/

namespace GrubLegacy.Partition

open Base Stage2

/-! ## Numbers -/

/-- The two fields of a packed slice number, for every byte. -/
private theorem packSlice_fields : ∀ n < 256,
    pcSliceNo (n <<< 16 ||| 0xFFFF) = n ∧ bsdPartNo (n <<< 16 ||| 0xFFFF) = 0xFF ∧
      (n <<< 16 ||| 0xFFFF = 0xFFFFFF ↔ n = 255) := by
  decide +kernel

section Numbers

variable {no : Int}

/-- A slice number is read back from the packed one. -/
theorem pcSliceNo_packSlice (low : 0 ≤ no) (high : no < 256) :
    (pcSliceNo (packSlice no) : Int) = no := by
  rw [packSlice, (packSlice_fields no.toNat (by omega)).1]
  omega

/-- Slice 255 packs to the number a scan starts with. -/
theorem packSlice_restarts (low : 0 ≤ no) (high : no < 256) :
    packSlice no = 0xFFFFFF ↔ no = 255 := by
  rw [packSlice, (packSlice_fields no.toNat (by omega)).2.2]
  omega

/-- The number of a BSD partition does not touch the number of the slice. -/
theorem pcSliceNo_bsd (partition : Nat) {i : Nat} (small : i < 256) :
    pcSliceNo ((partition &&& 0xFF00FF) ||| (i <<< 8)) = pcSliceNo partition := by
  have none : i <<< 8 >>> 16 = 0 := by
    rw [Nat.shiftLeft_eq, Nat.shiftRight_eq_div_pow]
    omega
  have mask : 0xFF0000 >>> 16 = 0xFF := by decide
  have masks : 0xFF00FF >>> 16 = 0xFF := by decide
  rw [pcSliceNo, pcSliceNo, Nat.shiftRight_and_distrib, Nat.shiftRight_and_distrib,
    Nat.shiftRight_or_distrib, Nat.shiftRight_and_distrib, none, mask, masks, Nat.or_zero,
    Nat.and_assoc, Nat.and_self]

end Numbers

/-! ## Bytes of a sector -/

section Sectors

variable {buf : Buffer} {bytes : List UInt8}

/-- One slot of a partition table. -/
structure Slot where
  type : Nat
  start : Nat
  length : Nat
deriving DecidableEq, Repr

def slot (buf : Buffer) (part : Nat) : Slot :=
  { type := pcSliceType buf part
    start := pcSliceStart buf part
    length := pcSliceLength buf part }

/-- The slot describes a partition: it is neither empty nor extended. -/
def Slot.real (slot : Slot) : Bool :=
  isPcSliceTypeExtended slot.type = false ∧ slot.type ≠ pcSliceTypeNone

/-- A slot is real if it is neither extended nor empty. -/
theorem Slot.real_iff {slot : Slot} : slot.real = true ↔
    isPcSliceTypeExtended slot.type = false ∧ slot.type ≠ pcSliceTypeNone := by
  rw [Slot.real, decide_eq_true_eq]

/-- The slots of a table that is read are those of the sector, -/
theorem slot_fill (size : 512 ≤ bytes.length) {part : Nat} (lt : part < 4) :
    slot (buf.fill bytes) part = slot (areaOf bytes) part := by
  rw [slot, slot, Slot.mk.injEq]
  exact ⟨fill_byte (by omega), fill_word32 (by omega), fill_word32 (by omega)⟩

/-- so its first extended slot is, -/
theorem firstExtended_fill (size : 512 ≤ bytes.length) :
    firstExtended (buf.fill bytes) = firstExtended (areaOf bytes) := by
  have types : ∀ part < 4, pcSliceType (buf.fill bytes) part = pcSliceType (areaOf bytes) part :=
    fun part lt => congrArg Slot.type (slot_fill size lt)
  have tests : ∀ part ∈ List.range 4, isPcSliceTypeExtended (pcSliceType (buf.fill bytes) part) =
      isPcSliceTypeExtended (pcSliceType (areaOf bytes) part) := by
    intro part isIn
    rw [types part (List.mem_range.mp isIn)]
  exact List.find?_congr tests

/-- and its signature. -/
theorem pcMbrCheckSig_fill (size : 512 ≤ bytes.length) :
    pcMbrCheckSig (buf.fill bytes) = pcMbrCheckSig (areaOf bytes) := by
  rw [pcMbrCheckSig, pcMbrCheckSig, fill_word16 (by omega)]

/-- A GPT header that is read is that of the sector. -/
theorem gptHeader_fill (size : 512 ≤ bytes.length) :
    gptHeader (buf.fill bytes) = gptHeader (areaOf bytes) := by
  rw [gptHeader, gptHeader, GptHeader.mk.injEq]
  exact ⟨fill_word64 (by omega), fill_word32 (by omega), fill_word64 (by omega),
    fill_word32 (by omega), fill_word32 (by omega)⟩

/-- The first extended slot is one of four. -/
theorem firstExtended_lt {part : Nat} (isFirst : firstExtended buf = some part) : part < 4 :=
  List.mem_range.mp (List.mem_of_find?_eq_some isFirst)

end Sectors

/-! ## Taking slots -/

/-- The number of a slot after one that has number `no`. -/
def sliceNumber (no : Int) (slot : Slot) : Int := if no < 4 ∨ slot.real then no + 1 else no

/-- A slot is counted if it is a primary one or a real one. -/
theorem sliceNumber_eq (no : Int) (slot : Slot) : sliceNumber no slot =
    if no < pcSliceMax ∨ (isPcSliceTypeExtended slot.type = false ∧ slot.type ≠ pcSliceTypeNone)
      then no + 1 else no :=
  if_congr (or_congr Iff.rfl Slot.real_iff) rfl rfl

/-- A drive that is not the network, whose sectors fit into the buffer. Reads that
succeed deliver as much as they are asked for. No caller has a larger buffer than
`real_open_partition`. -/
structure Fitting (drive : PartDrive) : Prop where
  large : 512 ≤ drive.sectorSize
  power : drive.sectorSize = 2 ^ drive.sectorBits
  fits : drive.sectorSize ≤ drive.bufSize
  bounded : drive.bufSize ≤ 4096
  local_ : drive.network = false
  whole : ∀ (sector : Nat) (byteOffset byteLen : Int) (bytes : List UInt8),
    drive.rawread sector byteOffset byteLen = .ok bytes → bytes.length = byteLen.toNat

/-- Reading a sector delivers these bytes. -/
def SectorAt (drive : PartDrive) (sector : Nat) (bytes : List UInt8) : Prop :=
  drive.rawread sector 0 drive.sectorSize = .ok bytes

instance (drive : PartDrive) (sector : Nat) (bytes : List UInt8) :
    Decidable (SectorAt drive sector bytes) :=
  inferInstanceAs (Decidable (drive.rawread sector 0 drive.sectorSize = .ok bytes))

/-- A sector is as long as the drive says, -/
theorem SectorAt.size {drive : PartDrive} {sector : Nat} {bytes : List UInt8}
    (sectorAt : SectorAt drive sector bytes) (fitting : Fitting drive) :
    bytes.length = drive.sectorSize :=
  fitting.whole sector 0 drive.sectorSize bytes sectorAt

/-- A sector that holds a valid partition table. -/
structure TableAt (drive : PartDrive) (sector : Nat) (bytes : List UInt8) : Prop where
  read : SectorAt drive sector bytes
  signed : pcMbrCheckSig (areaOf bytes) = true

instance (drive : PartDrive) (sector : Nat) (bytes : List UInt8) :
    Decidable (TableAt drive sector bytes) :=
  decidable_of_iff (SectorAt drive sector bytes ∧ pcMbrCheckSig (areaOf bytes) = true)
    ⟨fun all => ⟨all.1, all.2⟩, fun table => ⟨table.read, table.signed⟩⟩

/-- and so is one with a table. -/
theorem TableAt.size {drive : PartDrive} {sector : Nat} {bytes : List UInt8}
    (table : TableAt drive sector bytes) (fitting : Fitting drive) :
    bytes.length = drive.sectorSize :=
  table.read.size fitting

/-- The first sectors are not a GUID partition table: the first slot is not of the
type that says so, or there is no valid header behind it. -/
def NoGpt (drive : PartDrive) (mbr : List UInt8) : Prop :=
  (slot (areaOf mbr) 0).type = pcSliceTypeGpt →
    ∃ header, SectorAt drive 1 header ∧ (gptHeader (areaOf header)).accepted = false

/-- The state once slot `*entry + 1` of a table is taken. -/
def slotTaken (state : PartState) (bytes : List UInt8) (no : Int) : PartState :=
  let taken := slot (areaOf bytes) (state.entry + 1).toNat
  { state with
    buf := state.buf.fill bytes
    gptOffset := 0
    entry := state.entry + 1
    type := taken.type
    start := (state.offset + taken.start) % 2 ^ 32
    len := taken.length
    partition := packSlice (sliceNumber no taken) }

section Slots

variable {drive : PartDrive} {state : PartState} {bytes : List UInt8}
  {again : PartState → Scan PartState}

/-- Behind a read of a sector a scan goes on with it in the buffer. -/
theorem readSector_eq (fitting : Fitting drive) {sector : Nat} (at_ : SectorAt drive sector bytes)
    (next : PartState → Scan PartState) :
    readSector drive state sector next = next { state with buf := state.buf.fill bytes } := by
  have fits := fitting.fits
  rw [SectorAt] at at_
  rw [readSector, readBuf, at_]
  dsimp only
  rw [if_neg (by omega)]

/-- While slots are left the scan stops at the next one. -/
theorem takePcSlot_slot (fitting : Fitting drive) (size : bytes.length = drive.sectorSize)
    (low : -1 ≤ state.entry) (high : state.entry < 3) (no : Int) :
    takePcSlot drive again no { state with buf := state.buf.fill bytes } =
      .found (slotTaken state bytes no) := by
  have large := fitting.large
  have fits := fitting.fits
  have within : (state.entry + 1).toNat < 4 := by omega
  have same := @slot_fill state.buf bytes (by omega) _ within
  rw [slot, slot, Slot.mk.injEq] at same
  obtain ⟨type, start, length⟩ := same
  have notLast : ¬ state.entry + 1 = pcSliceMax := by
    rw [pcSliceMax]
    omega
  rw [takePcSlot]
  dsimp only
  rw [if_neg notLast, if_neg (by omega), type, start, length, slotTaken, sliceNumber_eq]
  rfl

/-- Behind the last slot of a table without an extended one the scan ends. -/
theorem takePcSlot_last (size : 512 ≤ bytes.length) (last : state.entry = 3)
    (none_ : firstExtended (areaOf bytes) = none) (no : Int) :
    ∃ stopped, takePcSlot drive again no { state with buf := state.buf.fill bytes } =
      .stop stopped := by
  have isLast : state.entry + 1 = pcSliceMax := by
    rw [pcSliceMax]
    omega
  rw [takePcSlot]
  dsimp only
  rw [if_pos isLast, firstExtended_fill size, none_]
  exact ⟨_, rfl⟩

/-- The state at the start of the next table. -/
def tableEntered (state : PartState) (bytes : List UInt8) (part : Nat) : PartState :=
  let offset := (state.extOffset + (slot (areaOf bytes) part).start) % 2 ^ 32
  { state with
    buf := state.buf.fill bytes
    gptOffset := 0
    offset
    extOffset := if state.extOffset = 0 then offset else state.extOffset
    entry := -1 }

/-- Behind the last slot of a table the scan goes to the first extended one. -/
theorem takePcSlot_next (size : 512 ≤ bytes.length) (last : state.entry = 3) {part : Nat}
    (next : firstExtended (areaOf bytes) = some part) (no : Int) :
    takePcSlot drive again no { state with buf := state.buf.fill bytes } =
      again (tableEntered state bytes part) := by
  have isLast : state.entry + 1 = pcSliceMax := by
    rw [pcSliceMax]
    omega
  have start : pcSliceStart (state.buf.fill bytes) part = (slot (areaOf bytes) part).start :=
    congrArg Slot.start (@slot_fill state.buf bytes size part (firstExtended_lt next))
  rw [takePcSlot]
  dsimp only
  rw [if_pos isLast, firstExtended_fill size, next]
  dsimp only
  rw [start, tableEntered]

/-- A table that is not a GUID one is used as it is. -/
theorem readPcTable_table (fitting : Fitting drive) (table : TableAt drive state.offset bytes)
    (noGpt : state.entry = -1 → state.offset = 0 → NoGpt drive bytes) (no : Int) :
    readPcTable drive again no state =
      takePcSlot drive again no { state with buf := state.buf.fill bytes } := by
  have large := fitting.large
  have size := table.size fitting
  have type : pcSliceType (state.buf.fill bytes) 0 = (slot (areaOf bytes) 0).type :=
    congrArg Slot.type (@slot_fill state.buf bytes (by omega) 0 (by decide))
  rw [readPcTable, readSector_eq fitting table.read]
  dsimp only
  rw [pcMbrCheckSig_fill (by omega), table.signed, if_neg (by decide), type]
  by_cases gpt : state.entry = -1 ∧ state.offset = 0 ∧
      (slot (areaOf bytes) 0).type = pcSliceTypeGpt
  · obtain ⟨header, headerAt, rejected⟩ := noGpt gpt.1 gpt.2.1 gpt.2.2
    have headerSize := headerAt.size fitting
    rw [if_pos gpt, readSector_eq fitting headerAt]
    dsimp only
    rw [gptHeader_fill (by omega), rejected, if_neg (by decide), readSector_eq fitting table.read]
    dsimp only
    rw [fill_fill _ (by omega), fill_fill _ (by omega)]
  · rw [if_neg gpt]

/-- A sector without the signature of a table ends the walk. -/
theorem readPcTable_unsigned (fitting : Fitting drive) (sectorAt : SectorAt drive state.offset bytes)
    (unsigned : pcMbrCheckSig (areaOf bytes) = false) (no : Int) :
    ∃ stopped, readPcTable drive again no state = .stop stopped := by
  have large := fitting.large
  have size := sectorAt.size fitting
  rw [readPcTable, readSector_eq fitting sectorAt]
  dsimp only
  rw [pcMbrCheckSig_fill (by omega), unsigned]
  exact ⟨_, rfl⟩

end Slots

/-! ## Walking along the chain -/

/-- Where a call of `next_pc_slice` finds its arguments: after slot `entry` of the
table at `sector`. -/
structure Cursor (state : PartState) (ext sector : Nat) (entry : Int) (no : Int) : Prop where
  offset : state.offset = sector
  extOffset : state.extOffset = ext
  entry : state.entry = entry
  number : (pcSliceNo state.partition : Int) = no
  high : no < 255

/-- The table an extended slot leads to. -/
def nextTable (ext : Nat) (extended : Slot) : Nat := (ext + extended.start) % 2 ^ 32

/-- What extended slots in tables behind this one are relative to. -/
def extBase (ext next : Nat) : Nat := if ext = 0 then next else ext

section Chain

variable {drive : PartDrive} {state : PartState} {bytes : List UInt8} {ext sector : Nat}
  {entry no : Int}

/-- A call with a cursor goes on in the table the cursor is at. -/
theorem Cursor.call (cursor : Cursor state ext sector entry no) :
    nextPcSlice drive state = readPcTable drive (pcSliceCall drive .stop) no state := by
  have number := cursor.number
  have high := cursor.high
  rw [nextPcSlice, pcSliceCall, if_neg (by omega), number]

/-- A call before the last slot of a table. -/
theorem nextPcSlice_slot (fitting : Fitting drive) (table : TableAt drive sector bytes)
    (cursor : Cursor state ext sector entry no) (low : 0 ≤ entry) (high : entry < 3) :
    nextPcSlice drive state = .found (slotTaken state bytes no) := by
  have isEntry := cursor.entry
  rw [cursor.call, readPcTable_table fitting (cursor.offset ▸ table)
    (fun start => absurd (isEntry.symm.trans start) (by omega)),
    takePcSlot_slot fitting (table.size fitting) (by omega) (by omega)]

/-- A call after the last slot of the last table. -/
theorem nextPcSlice_end (fitting : Fitting drive) (table : TableAt drive sector bytes)
    (cursor : Cursor state ext sector 3 no) (last : firstExtended (areaOf bytes) = none) :
    ∃ stopped, nextPcSlice drive state = .stop stopped := by
  have large := fitting.large
  have size := table.size fitting
  have isEntry := cursor.entry
  rw [cursor.call, readPcTable_table fitting (cursor.offset ▸ table)
    (fun start => absurd (isEntry.symm.trans start) (by omega))]
  exact takePcSlot_last (by omega) isEntry last _

/-- The start of the next table. -/
theorem tableEntered_cursor (cursor : Cursor state ext sector entry no) (part : Nat) :
    Cursor (tableEntered state bytes part) (extBase ext (nextTable ext (slot (areaOf bytes) part)))
      (nextTable ext (slot (areaOf bytes) part)) (-1) no := by
  have offset : (tableEntered state bytes part).offset =
      nextTable ext (slot (areaOf bytes) part) := by
    rw [tableEntered, cursor.extOffset]
    rfl
  refine ⟨offset, ?_, rfl, cursor.number, cursor.high⟩
  rw [← offset, ← cursor.extOffset]
  rfl

/-- A call after the last slot of a table with another one behind it. -/
theorem nextPcSlice_chained (fitting : Fitting drive) (table : TableAt drive sector bytes)
    (cursor : Cursor state ext sector 3 no) {part : Nat}
    (more : firstExtended (areaOf bytes) = some part) :
    nextPcSlice drive state =
      readPcTable drive .stop no (tableEntered state bytes part) := by
  have large := fitting.large
  have size := table.size fitting
  have isEntry := cursor.entry
  have number := (@tableEntered_cursor state bytes ext sector 3 no cursor part).number
  have high := cursor.high
  rw [cursor.call, readPcTable_table fitting (cursor.offset ▸ table)
    (fun start => absurd (isEntry.symm.trans start) (by omega)),
    takePcSlot_next (by omega) isEntry more, pcSliceCall, if_neg (by omega), number]

/-- It takes the first slot there. -/
theorem nextPcSlice_next (fitting : Fitting drive) (table : TableAt drive sector bytes)
    (cursor : Cursor state ext sector 3 no) {part : Nat}
    (more : firstExtended (areaOf bytes) = some part) {bytes' : List UInt8}
    (table' : TableAt drive (nextTable ext (slot (areaOf bytes) part)) bytes')
    (noGpt : nextTable ext (slot (areaOf bytes) part) = 0 → NoGpt drive bytes') :
    nextPcSlice drive state = .found (slotTaken (tableEntered state bytes part) bytes' no) := by
  have entered := @tableEntered_cursor state bytes ext sector 3 no cursor part
  have entry : (tableEntered state bytes part).entry = -1 := rfl
  rw [nextPcSlice_chained fitting table cursor more,
    readPcTable_table fitting (entered.offset ▸ table')
      (fun _ start => noGpt (entered.offset.symm.trans start)),
    takePcSlot_slot fitting (table'.size fitting) (by omega) (by omega)]

/-- Or ends the walk there. -/
theorem nextPcSlice_unsigned (fitting : Fitting drive) (table : TableAt drive sector bytes)
    (cursor : Cursor state ext sector 3 no) {part : Nat}
    (more : firstExtended (areaOf bytes) = some part) {bytes' : List UInt8}
    (sectorAt : SectorAt drive (nextTable ext (slot (areaOf bytes) part)) bytes')
    (unsigned : pcMbrCheckSig (areaOf bytes') = false) :
    ∃ stopped, nextPcSlice drive state = .stop stopped := by
  have entered := @tableEntered_cursor state bytes ext sector 3 no cursor part
  rw [nextPcSlice_chained fitting table cursor more]
  exact readPcTable_unsigned fitting (entered.offset ▸ sectorAt) unsigned no

/-- From the start, a walk over a hard disk looks for slices. -/
theorem nextPartition_first {dest : Nat} (fitting : Fitting drive) (hard : drive.hardDisk = true)
    (first : state.partition = 0xFFFFFF) :
    nextPartition drive dest state = nextPcSlice drive state := by
  have local_ : ¬ drive.network = true := by
    rw [fitting.local_]
    decide
  have noBsd : ¬ ((state.partition ≠ 0xFFFFFF ∧ isPcSliceTypeBsd (state.type &&& 0xFF)) ∨
      drive.hardDisk = false) := by
    rw [first, hard]
    simp
  rw [nextPartition, if_neg local_, if_neg (fun gpt => gpt.1 first), if_neg noBsd]

/-- The state a walk starts with. -/
def restarted (state : PartState) : PartState :=
  { state with offset := 0, extOffset := 0, entry := -1 }

/-- The first call. -/
theorem nextPcSlice_first (first : pcSliceNo state.partition = 0xFF) :
    nextPcSlice drive state =
      readPcTable drive (pcSliceCall drive .stop) (-1) (restarted state) := by
  rw [nextPcSlice, pcSliceCall, if_pos first]
  rfl

/-- It takes the first slot of a table that is not a GUID one. -/
theorem nextPcSlice_mbr (fitting : Fitting drive) {mbr : List UInt8}
    (table : TableAt drive 0 mbr) (noGpt : NoGpt drive mbr)
    (first : pcSliceNo state.partition = 0xFF) :
    nextPcSlice drive state = .found (slotTaken (restarted state) mbr (-1)) := by
  have entry : (restarted state).entry = -1 := rfl
  have atStart : TableAt drive (restarted state).offset mbr := table
  rw [nextPcSlice_first first, readPcTable_table fitting atStart (fun _ _ => noGpt),
    takePcSlot_slot fitting (table.size fitting) (by omega) (by omega)]

/-- Taking a slot moves on to it. -/
theorem slotTaken_cursor (offset : state.offset = sector) (extOffset : state.extOffset = ext)
    (isEntry : state.entry = entry) {part : Nat} (isPart : entry + 1 = part) (low : -1 ≤ no)
    (high : sliceNumber no (slot (areaOf bytes) part) < 255) :
    Cursor (slotTaken state bytes no) ext sector (entry + 1)
      (sliceNumber no (slot (areaOf bytes) part)) := by
  have isTaken : (state.entry + 1).toNat = part := by omega
  have positive : 0 ≤ sliceNumber no (slot (areaOf bytes) part) := by
    rw [sliceNumber]
    split <;> omega
  refine ⟨offset, extOffset, ?_, ?_, high⟩
  · rw [← isEntry]
    rfl
  · rw [slotTaken, isTaken]
    exact pcSliceNo_packSlice positive (by omega)

end Chain

/-! ## Disks of given sectors -/

/-- A sector with a partition table of these four slots. -/
def tableSector (slots : List Slot) : List UInt8 :=
  List.replicate 446 0 ++
    (slots.flatMap fun slot => [0, 0, 0, 0, UInt8.ofNat slot.type, 0, 0, 0] ++
      wordBytes slot.start ++ wordBytes slot.length) ++ [0x55, 0xAA]

/-- A hard disk with these sectors, and zeroes behind the end of each. -/
def sectorDrive (sectors : List (Nat × List UInt8)) : PartDrive :=
  { rawread := fun sector byteOffset byteLen =>
      .ok ((((sectors.lookup sector).getD []).drop byteOffset.toNat ++
        List.replicate byteLen.toNat 0).take byteLen.toNat)
    sectorSize := 512
    sectorBits := 9
    hardDisk := true
    network := false
    bufSize := 4096 }

/-- The arguments a walk is started with. -/
def walkStart : PartState :=
  { partition := 0xFFFFFF, type := 0, start := 0, len := 0, offset := 0, entry := 0
    extOffset := 0, gptOffset := 0, gptCount := 0, gptSize := 0, buf := fun _ => 0
    errnum := .none, bsdEvilHack := 0 }

/-- A sector with a BSD label of one partition, which has this position in it. -/
def labelSector (i start length : Nat) : List UInt8 :=
  [0x57, 0x45, 0x56, 0x82] ++ List.replicate 134 0 ++ [UInt8.ofNat (i + 1), 0] ++
    List.replicate (8 + 16 * i) 0 ++ wordBytes length ++ wordBytes start ++
    List.replicate 4 0 ++ [7] ++ List.replicate (339 - 16 * i) 0

/-- Two slices of a BSD type. -/
def bsdTable : List UInt8 :=
  tableSector [⟨0xA5, 1, 100⟩, ⟨0xA5, 200, 100⟩, ⟨0, 0, 0⟩, ⟨0, 0, 0⟩]

/-- The first slice has a partition b, the second one a partition a. -/
def bsdDrive : PartDrive :=
  sectorDrive [(0, bsdTable), (2, labelSector 1 20 30), (201, labelSector 0 210 40)]

/-- The drives of listed sectors fit into the buffer. -/
theorem sectorDrive_fitting (sectors : List (Nat × List UInt8)) : Fitting (sectorDrive sectors) where
  large := le_refl 512
  power := (by decide : 512 = 2 ^ 9)
  fits := (by decide : 512 ≤ 4096)
  bounded := le_refl 4096
  local_ := rfl
  whole := by
    rintro sector byteOffset byteLen bytes read
    obtain rfl := Except.ok.inj read
    rw [List.length_take, List.length_append, List.length_replicate]
    omega

end GrubLegacy.Partition
