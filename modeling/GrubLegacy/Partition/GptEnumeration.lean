import GrubLegacy.Partition.GptEntries

/-!
# Enumeration of GUID partitions

What a walk of `next_partition` over a GUID partition table should find, and for
which tables it does: the used entries have to come first in the array.
-/

namespace GrubLegacy.Partition

open Base Stage2

/-! ## The disk -/

/-- A disk with a protective partition table, a valid header behind it, and the
entries of the array the header describes. Sectors have numbers of 32 bits, and
`rawread` is asked for an `int` of bytes. -/
structure GptDisk (drive : PartDrive) (mbr sector : List UInt8)
    (entries : Nat → List UInt8) : Prop where
  table : TableAt drive 0 mbr
  protective : (slot (areaOf mbr) 0).type = pcSliceTypeGpt
  headerAt : SectorAt drive 1 sector
  accepted : (headerOf sector).accepted = true
  behind : 2 ≤ (headerOf sector).partitions
  size : ∃ k, (headerOf sector).partentrySize = 128 * 2 ^ k
  small : (headerOf sector).partentrySize < 2 ^ 31
  onDrive : (headerOf sector).partitions +
    (headerOf sector).maxpart * (headerOf sector).partentrySize / drive.sectorSize < 2 ^ 32
  array : ∀ i < (headerOf sector).maxpart,
    drive.rawread
      ((headerOf sector).partitions + i * (headerOf sector).partentrySize / drive.sectorSize)
      (i * (headerOf sector).partentrySize % drive.sectorSize : Nat)
      (headerOf sector).partentrySize = .ok (entries i)

/-- An entry read for itself. -/
def entryOf (bytes : List UInt8) : GptEntry := gptEntry (areaOf bytes)

/-- The position of the entry is an `int`. -/
def InReach (header : GptHeader) (index : Nat) : Prop := index * header.partentrySize + 1 < 2 ^ 31

instance (header : GptHeader) (index : Nat) : Decidable (InReach header index) :=
  inferInstanceAs (Decidable (index * header.partentrySize + 1 < 2 ^ 31))

section Disk

variable {drive : PartDrive} {mbr : List UInt8} {sector : List UInt8} {entries : Nat → List UInt8}
  {state : PartState} {dest : Nat}

/-- The sector size is a multiple of 128. -/
theorem sectorSize_dvd (fitting : Fitting drive) : 128 ∣ drive.sectorSize := by
  have large := fitting.large
  rw [fitting.power] at large ⊢
  have bits : 9 ≤ drive.sectorBits :=
    (Nat.pow_le_pow_iff_right (by decide : 1 < 2)).mp (large : 2 ^ 9 ≤ 2 ^ drive.sectorBits)
  exact Nat.pow_dvd_pow 2 (by omega : 7 ≤ drive.sectorBits)

/-- An entry never starts in the last bytes of a sector. -/
theorem position_split {position sectorSize : Nat} (aligned : 128 ∣ position)
    (power : 128 ∣ sectorSize) (large : 512 ≤ sectorSize) :
    (position + 1) % sectorSize = position % sectorSize + 1 := by
  have rest : 128 ∣ position % sectorSize := (Nat.dvd_mod_iff power).mpr aligned
  have below : position % sectorSize < sectorSize := Nat.mod_lt _ (by omega)
  obtain ⟨a, isA⟩ := rest
  obtain ⟨b, isB⟩ := power
  have one : 1 % sectorSize = 1 := Nat.mod_eq_of_lt (by omega)
  rw [Nat.add_mod, one]
  exact Nat.mod_eq_of_lt (by omega)

/-- An entry in reach is at its index times the size. -/
theorem gptEntry_position {size index : Nat} (reach : index * size + 1 < 2 ^ 31) :
    gptEntryPosition size index = (index * size + 1 : Nat) := by
  have product : (index : Int) * size = (index * size : Nat) := by push_cast; rfl
  have inner : toInt32 (index * size : Nat) = (index * size : Nat) :=
    toInt32_of_range (by omega) (by omega)
  rw [gptEntryPosition, product, inner]
  exact toInt32_of_range (by omega) (by omega)

/-- In reach, the macros find the entry. -/
theorem GptDisk.readEntry (disk : GptDisk drive mbr sector entries) (fitting : Fitting drive)
    {index : Nat} (inArray : index < (headerOf sector).maxpart) (reach : InReach (headerOf sector) index) :
    readEntry drive (headerOf sector) index = .ok (entries index) := by
  have small := disk.small
  have large := fitting.large
  have size : toInt32 (headerOf sector).partentrySize = (headerOf sector).partentrySize :=
    toInt32_of_range (by omega) (by omega)
  have aligned : 128 ∣ index * (headerOf sector).partentrySize := by
    obtain ⟨k, isSize⟩ := disk.size
    rw [isSize]
    exact Nat.dvd_mul_left_of_dvd (Nat.dvd_mul_right 128 _) index
  have rest := position_split aligned (sectorSize_dvd fitting) large
  have inDrive : gptEntrySector drive (headerOf sector).partentrySize index =
      (index * (headerOf sector).partentrySize / drive.sectorSize : Nat) := by
    have power : (2 : Int) ^ drive.sectorBits = drive.sectorSize := by
      rw [fitting.power]
      push_cast
      rfl
    have whole := Nat.div_add_mod (index * (headerOf sector).partentrySize) drive.sectorSize
    have start : ((index * (headerOf sector).partentrySize + 1 : Nat) : Int) -
        (index * (headerOf sector).partentrySize % drive.sectorSize + 1 : Nat) =
          drive.sectorSize * (index * (headerOf sector).partentrySize / drive.sectorSize : Nat) := by
      rw [← Int.natCast_mul]
      omega
    rw [gptEntrySector, gptEntry_position reach, ← Int.natCast_mod, rest, start, power]
    exact Int.mul_ediv_cancel_left _ (by omega)
  have inSector : gptEntryIndex drive (headerOf sector).partentrySize index =
      (index * (headerOf sector).partentrySize % drive.sectorSize : Nat) := by
    rw [gptEntryIndex, gptEntry_position reach, ← Int.natCast_mod, rest]
    omega
  have below : index * (headerOf sector).partentrySize / drive.sectorSize ≤
      (headerOf sector).maxpart * (headerOf sector).partentrySize / drive.sectorSize :=
    Nat.div_le_div_right (Nat.mul_le_mul_right _ (Nat.le_of_lt inArray))
  have onDrive := disk.onDrive
  have start : (headerOf sector).partitions % 2 ^ 32 = (headerOf sector).partitions :=
    Nat.mod_eq_of_lt ((Nat.le_add_right _ _).trans_lt onDrive)
  rw [Partition.readEntry, size, inDrive, inSector, start, ← Int.natCast_add,
    toUInt32_of_range ((Nat.add_le_add_left below _).trans_lt onDrive)]
  exact disk.array index inArray

/-- The table is at a sector. -/
theorem GptDisk.inTable (disk : GptDisk drive mbr sector entries) :
    (headerOf sector).partitions % 2 ^ 32 ≠ 0 := by
  have behind := disk.behind
  have low := (Nat.le_add_right _ _).trans_lt disk.onDrive
  rw [Nat.mod_eq_of_lt low]
  omega

/-- The size of an entry is an `int`. -/
theorem GptDisk.sizeInt (disk : GptDisk drive mbr sector entries) :
    toInt32 (headerOf sector).partentrySize = (headerOf sector).partentrySize := by
  have small := disk.small
  exact toInt32_of_range (by omega) (by omega)

/-- An entry fits into the buffer if any is read. -/
theorem GptDisk.roomy (disk : GptDisk drive mbr sector entries)
    (room : 0 < toInt32 (headerOf sector).maxpart →
      (headerOf sector).partentrySize ≤ drive.bufSize) : Roomy drive sector := by
  intro positive
  have fits := room positive
  rw [disk.sizeInt]
  exact_mod_cast fits

/-- Entries are as long as `struct grub_gpt_partentry`. -/
theorem GptDisk.entry (disk : GptDisk drive mbr sector entries) (fitting : Fitting drive)
    {index : Nat} (inArray : index < (headerOf sector).maxpart) :
    entryIn sector (entries index) = entryOf (entries index) := by
  obtain ⟨k, isSize⟩ := disk.size
  have positive := Nat.two_pow_pos k
  have length : (entries index).length = (headerOf sector).partentrySize :=
    fitting.whole _ _ _ _ (disk.array index inArray)
  exact entryIn_whole (by omega) sector

/-- The first call goes to the array. -/
theorem GptDisk.first (disk : GptDisk drive mbr sector entries) (fitting : Fitting drive)
    (hard : drive.hardDisk = true) (first : state.partition = 0xFFFFFF) :
    ∃ state', nextPartition drive dest state = nextGptSlice drive state' ∧
      GptStanding state' sector (-1) := by
  have restarts : pcSliceNo state.partition = 0xFF := by
    rw [first]
    decide
  rw [nextPartition_first fitting hard first]
  exact nextPcSlice_gpt fitting disk.table disk.protective disk.headerAt disk.accepted restarts

end Disk

/-! ## What a walk should find -/

/-- The used entries of an array. -/
def usedIndices (header : GptHeader) (entries : Nat → List UInt8) : List Nat :=
  (List.range header.maxpart).filter fun index => (entryOf (entries index)).used

/-- What is written in these entries, with numbers one after the other. -/
def listed (entries : Nat → List UInt8) (no : Nat) : List Nat → List Extent
  | [] => []
  | index :: rest => (entryOf (entries index)).written no :: listed entries (no + 1) rest

/-- A walk finds each used entry once, in the order of the array. -/
def EnumeratesUsed (drive : PartDrive) (dest : Nat) (state : PartState) (sector : List UInt8)
    (entries : Nat → List UInt8) : Prop :=
  Enumerates (nextPartition drive dest) extent state
    (listed entries 0 (usedIndices (headerOf sector) entries))

/-- An array where a walk does: used entries come first, they are within the count of
the code and their extents are numbers of 32 bits, the buffer has room for one, and
behind them nothing used is read, where the positions are no longer those of entries. -/
structure Dense (drive : PartDrive) (sector : List UInt8) (entries : Nat → List UInt8) : Prop where
  first : ∀ index ∈ usedIndices (headerOf sector) entries, ∀ i < index,
    i ∈ usedIndices (headerOf sector) entries
  counted : ∀ index ∈ usedIndices (headerOf sector) entries, (index : Int) < toInt32 (headerOf sector).maxpart
  fits : ∀ index ∈ usedIndices (headerOf sector) entries,
    (entryOf (entries index)).start < 2 ^ 32 ∧
      0 ≤ (entryOf (entries index)).length ∧ (entryOf (entries index)).length < 2 ^ 32
  room : 0 < toInt32 (headerOf sector).maxpart → (headerOf sector).partentrySize ≤ drive.bufSize
  quiet : Silent drive sector (usedIndices (headerOf sector) entries).length

/-- No used entry out of reach has the start of another one. -/
def Apart (header : GptHeader) (entries : Nat → List UInt8) : Prop :=
  ∀ index ∈ usedIndices header entries, ¬ InReach header index →
    ∀ i ∈ usedIndices header entries, i ≠ index →
      (entryOf (entries i)).start ≠ (entryOf (entries index)).start

section Lists

variable {drive : PartDrive} {sector : List UInt8} {entries : Nat → List UInt8}

/-- The used indices are those of the used entries. -/
theorem mem_usedIndices {index : Nat} : index ∈ usedIndices (headerOf sector) entries ↔
    index < (headerOf sector).maxpart ∧ (entryOf (entries index)).used = true := by
  rw [usedIndices, List.mem_filter, List.mem_range]

/-- What holds of a number and all below it is listed in order. -/
theorem filter_range_closed {test : Nat → Bool} (count : Nat)
    (closed : ∀ i ∈ (List.range count).filter test, ∀ j < i, j ∈ (List.range count).filter test) :
    (List.range count).filter test = List.range ((List.range count).filter test).length := by
  induction count with
  | zero => rfl
  | succ count ih =>
      have mem : ∀ i, i ∈ (List.range (count + 1)).filter test ↔ i < count + 1 ∧ test i = true := by
        intro i
        rw [List.mem_filter, List.mem_range]
      rw [List.range_succ, List.filter_append]
      cases last : test count with
      | true =>
          have all : (List.range count).filter test = List.range count := by
            rw [List.filter_eq_self]
            intro i isIn
            have below := List.mem_range.mp isIn
            exact ((mem i).mp (closed count ((mem count).mpr ⟨by omega, last⟩) i below)).2
          rw [all, List.filter_cons_of_pos last, List.filter_nil, List.length_append,
            List.length_range, ← List.range_succ]
          rfl
      | false =>
          rw [List.filter_cons_of_neg (by simp [last]), List.filter_nil, List.append_nil]
          refine ih fun i isIn j below => ?_
          rw [List.mem_filter, List.mem_range] at isIn ⊢
          have inLonger := closed i ((mem i).mpr ⟨by omega, isIn.2⟩) j below
          exact ⟨by omega, ((mem j).mp inLonger).2⟩

/-- What is kept of an entry is what is written just when start and length are 32-bit numbers. -/
theorem kept_eq_written {entry : GptEntry} {number number' : Int}
    (same : number = number') : entry.kept number = entry.written number' ↔
      entry.start < 2 ^ 32 ∧ 0 ≤ entry.length ∧ entry.length < 2 ^ 32 := by
  rw [GptEntry.kept, GptEntry.written, Extent.mk.injEq]
  constructor
  · rintro ⟨_, start, length⟩
    have small := toUInt32_lt entry.length
    exact ⟨start ▸ Nat.mod_lt _ (Nat.two_pow_pos 32), by omega, by omega⟩
  · rintro ⟨start, low, high⟩
    refine ⟨same, Nat.mod_eq_of_lt start, ?_⟩
    rw [toUInt32, Int.emod_eq_of_lt low high]
    exact Int.toNat_of_nonneg low

/-- As many partitions are listed as entries are used. -/
theorem listed_length (entries : Nat → List UInt8) (no : Nat) (indices : List Nat) :
    (listed entries no indices).length = indices.length := by
  induction indices generalizing no with
  | nil => rfl
  | cons index rest ih => rw [listed, List.length_cons, List.length_cons, ih]

/-- A walk that finds these entries finds each of them from its number on, and
nothing behind the last number. -/
theorem walks_listed {no : Nat} {indices : List Nat}
    (walks : Walks drive sector no (listed entries no indices)) :
    Silent drive sector (no + indices.length) ∧
      ∀ k (inList : k < indices.length),
        Finds drive sector (no + k) ((entryOf (entries indices[k])).written (no + k : Nat)) := by
  induction indices generalizing no with
  | nil =>
      refine ⟨walks, fun k inList => ?_⟩
      rw [List.length_nil] at inList
      omega
  | cons index rest ih =>
      obtain ⟨finds, tail⟩ := walks
      obtain ⟨silent, later⟩ := ih tail
      have length : no + (index :: rest).length = no + 1 + rest.length := by
        rw [List.length_cons]
        omega
      refine ⟨length ▸ silent, fun k inList => ?_⟩
      cases k with
      | zero => exact finds
      | succ k =>
          have number : no + (k + 1) = no + 1 + k := by omega
          rw [number, List.getElem_cons_succ]
          exact later k (by rw [List.length_cons] at inList; omega)

/-- Entries in a row are found one after the other. -/
theorem walks_range {count no : Nat} (fitting : Fitting drive) {mbr : List UInt8}
    (disk : GptDisk drive mbr sector entries)
    (used : ∀ index < count, (entryOf (entries index)).used = true)
    (inArray : ∀ index < count, index < (headerOf sector).maxpart ∧
      (index : Int) < toInt32 (headerOf sector).maxpart ∧
      InReach (headerOf sector) index)
    (fits : ∀ index < count, (entryOf (entries index)).start < 2 ^ 32 ∧
      0 ≤ (entryOf (entries index)).length ∧ (entryOf (entries index)).length < 2 ^ 32)
    (quiet : Silent drive sector count) (left : Nat) (isLeft : no + left = count) :
    Walks drive sector no (listed entries no ((List.range count).drop no)) := by
  induction left generalizing no with
  | zero =>
      obtain rfl : no = count := isLeft
      rw [List.drop_eq_nil_of_le (by rw [List.length_range])]
      exact quiet
  | succ left ih =>
      have below : no < count := by omega
      have inRange : no < (List.range count).length := by rw [List.length_range]; exact below
      obtain ⟨within, high, reach⟩ := inArray no below
      rw [List.drop_eq_getElem_cons inRange, List.getElem_range]
      refine ⟨⟨no, entries no, ⟨le_refl no, high, fun i above later => absurd later (by omega),
        disk.readEntry fitting within reach, disk.entry fitting within ▸ used no below⟩, ?_⟩,
        ih (by omega)⟩
      rw [disk.entry fitting within]
      exact (kept_eq_written rfl).mpr (fits no below)

end Lists

/-! ## The whole enumeration -/

section Enumeration

variable {drive : PartDrive} {mbr : List UInt8} {sector : List UInt8} {entries : Nat → List UInt8}
  {state : PartState} {dest : Nat}

/-- Entries with small numbers are in reach. -/
theorem inReach_of_small (fitting : Fitting drive)
    (room : (headerOf sector).partentrySize ≤ drive.bufSize) {index : Nat} (small : index < 255) :
    InReach (headerOf sector) index := by
  have bounded := fitting.bounded
  have product : index * (headerOf sector).partentrySize ≤ 255 * 4096 :=
    Nat.mul_le_mul (by omega) (by omega)
  rw [InReach]
  omega

/-- The count is right where the code has something to read. -/
theorem count_eq (positive : 0 < toInt32 (headerOf sector).maxpart) :
    toInt32 (headerOf sector).maxpart = (headerOf sector).maxpart := by
  have small : (headerOf sector).maxpart < 2 ^ 32 := Area.word32_lt _ _
  rw [toInt32] at positive ⊢
  omega

/-- A dense table is walked entry by entry. -/
theorem walks_of_dense (fitting : Fitting drive) (disk : GptDisk drive mbr sector entries)
    (few : (usedIndices (headerOf sector) entries).length < 255) (dense : Dense drive sector entries) :
    Walks drive sector 0 (listed entries 0 (usedIndices (headerOf sector) entries)) := by
  have inOrder : usedIndices (headerOf sector) entries =
      List.range (usedIndices (headerOf sector) entries).length := filter_range_closed _ dense.first
  have isUsed : ∀ index < (usedIndices (headerOf sector) entries).length,
      index ∈ usedIndices (headerOf sector) entries := by
    intro index below
    rw [inOrder]
    exact List.mem_range.mpr below
  have walks := @walks_range drive sector entries _ 0 fitting mbr disk
    (fun index below => (mem_usedIndices.mp (isUsed index below)).2)
    (fun index below => by
      have isIn := isUsed index below
      have counted := dense.counted index isIn
      exact ⟨(mem_usedIndices.mp isIn).1, counted,
        inReach_of_small fitting (dense.room (by omega)) (by omega)⟩)
    (fun index below => dense.fits index (isUsed index below)) dense.quiet _ (Nat.zero_add _)
  rw [List.drop_zero, ← inOrder] at walks
  exact walks

/-- An entry that is found as it is written has a 32-bit start and length. -/
theorem Finds.small {no : Nat} {entry : GptEntry} {number : Int}
    (finds : Finds drive sector no (entry.written number)) :
    entry.start < 2 ^ 32 ∧ 0 ≤ entry.length ∧ entry.length < 2 ^ 32 := by
  obtain ⟨index, bytes, _, same⟩ := finds
  rw [GptEntry.kept, GptEntry.written, Extent.mk.injEq] at same
  obtain ⟨_, start, length⟩ := same
  have small := toUInt32_lt (entryIn sector bytes).length
  exact ⟨start ▸ Nat.mod_lt _ (Nat.two_pow_pos 32), by omega, by omega⟩

/-- Behind silence there are no used entries in reach. -/
theorem Silent.no_used (fitting : Fitting drive) (disk : GptDisk drive mbr sector entries)
    (positive : 0 < toInt32 (headerOf sector).maxpart) {no index : Nat} (silent : Silent drive sector no)
    (isIn : index ∈ usedIndices (headerOf sector) entries)
    (reach : InReach (headerOf sector) index) : index < no := by
  by_contra above
  have count := count_eq positive
  have exists_ : ∃ i, no ≤ i ∧ i ∈ usedIndices (headerOf sector) entries := ⟨index, by omega, isIn⟩
  obtain ⟨firstLow, firstUsed⟩ := Nat.find_spec exists_
  have least : Nat.find exists_ ≤ index := Nat.find_min' exists_ ⟨by omega, isIn⟩
  have inArray := (mem_usedIndices.mp firstUsed).1
  have reaches : ∀ i ≤ index, InReach (headerOf sector) i := by
    intro i below
    have product : i * (headerOf sector).partentrySize ≤ index * (headerOf sector).partentrySize :=
      Nat.mul_le_mul_right _ below
    rw [InReach] at reach ⊢
    omega
  refine silent (Nat.find exists_) (entries (Nat.find exists_)) ⟨firstLow, by omega, ?_,
    disk.readEntry fitting inArray (reaches _ least),
    disk.entry fitting inArray ▸ (mem_usedIndices.mp firstUsed).2⟩
  intro i low below
  have isInArray : i < (headerOf sector).maxpart := by omega
  refine ⟨entries i, disk.readEntry fitting isInArray (reaches i (by omega)), ?_⟩
  rw [disk.entry fitting isInArray]
  have notUsed := Nat.find_min exists_ below
  cases used : (entryOf (entries i)).used with
  | false => rfl
  | true => exact absurd ⟨low, mem_usedIndices.mpr ⟨by omega, used⟩⟩ notUsed

/-- An entry out of reach is not told where it starts apart from the others. -/
theorem Finds.inReach (fitting : Fitting drive) (disk : GptDisk drive mbr sector entries)
    (room : (headerOf sector).partentrySize ≤ drive.bufSize)
    (positive : 0 < toInt32 (headerOf sector).maxpart)
    {count no index : Nat} (few : count < 255) (silent : Silent drive sector count)
    (below : no < count) (apart : Apart (headerOf sector) entries)
    (fits : ∀ i ∈ usedIndices (headerOf sector) entries, (entryOf (entries i)).start < 2 ^ 32)
    (isIn : index ∈ usedIndices (headerOf sector) entries) {number : Int}
    (finds : Finds drive sector no ((entryOf (entries index)).written number)) :
    InReach (headerOf sector) index := by
  by_contra out
  obtain ⟨found, bytes, firstUsed, same⟩ := finds
  have isBelow : found < count := by
    by_contra above
    exact silent found bytes ⟨by omega, firstUsed.high,
      fun i low later => firstUsed.before i (by omega) later, firstUsed.read, firstUsed.used⟩
  have reach := inReach_of_small fitting room (show found < 255 by omega)
  have inArray : found < (headerOf sector).maxpart := by
    have high := firstUsed.high
    have isCount := count_eq positive
    omega
  obtain rfl : entries found = bytes :=
    Except.ok.inj ((disk.readEntry fitting inArray reach).symm.trans firstUsed.read)
  have foundIn : found ∈ usedIndices (headerOf sector) entries :=
    mem_usedIndices.mpr ⟨inArray, disk.entry fitting inArray ▸ firstUsed.used⟩
  have other : found ≠ index := by
    rintro rfl
    exact out reach
  rw [disk.entry fitting inArray, GptEntry.kept, GptEntry.written, Extent.mk.injEq,
    Nat.mod_eq_of_lt (fits found foundIn)] at same
  exact apart index isIn out found foundIn other same.2.1

/-- A table that is walked entry by entry is dense. -/
theorem dense_of_walks (fitting : Fitting drive) (disk : GptDisk drive mbr sector entries)
    (room : 0 < toInt32 (headerOf sector).maxpart → (headerOf sector).partentrySize ≤ drive.bufSize)
    (few : (usedIndices (headerOf sector) entries).length < 255) (apart : Apart (headerOf sector) entries)
    (walks : Walks drive sector 0 (listed entries 0 (usedIndices (headerOf sector) entries))) :
    Dense drive sector entries := by
  obtain ⟨quiet, finds⟩ := walks_listed walks
  rw [Nat.zero_add] at quiet
  have fits : ∀ index ∈ usedIndices (headerOf sector) entries, (entryOf (entries index)).start < 2 ^ 32 ∧
      0 ≤ (entryOf (entries index)).length ∧ (entryOf (entries index)).length < 2 ^ 32 := by
    intro index isIn
    obtain ⟨k, inList, rfl⟩ := List.mem_iff_getElem.mp isIn
    exact (finds k inList).small
  have positive : ∀ index ∈ usedIndices (headerOf sector) entries, 0 < toInt32 (headerOf sector).maxpart := by
    intro index isIn
    obtain ⟨k, inList, rfl⟩ := List.mem_iff_getElem.mp isIn
    obtain ⟨found, bytes, firstUsed, _⟩ := finds k inList
    have high := firstUsed.high
    omega
  have low : ∀ index ∈ usedIndices (headerOf sector) entries,
      index < (usedIndices (headerOf sector) entries).length := by
    intro index isIn
    refine quiet.no_used fitting disk (positive index isIn) isIn ?_
    obtain ⟨k, inList, isIndex⟩ := List.mem_iff_getElem.mp isIn
    have finds' := finds k inList
    rw [isIndex, Nat.zero_add] at finds'
    exact finds'.inReach fitting disk (room (positive index isIn)) (positive index isIn) few quiet
      inList apart (fun i isIn => (fits i isIn).1) isIn
  -- as many numbers below their count are all of them
  have distinct : (usedIndices (headerOf sector) entries).Nodup := List.nodup_range.filter _
  have all : (usedIndices (headerOf sector) entries).toFinset =
      Finset.range (usedIndices (headerOf sector) entries).length := by
    refine Finset.eq_of_subset_of_card_le ?_ ?_
    · intro index isIn
      exact Finset.mem_range.mpr (low index (List.mem_toFinset.mp isIn))
    · rw [Finset.card_range, List.toFinset_card_of_nodup distinct]
  refine ⟨?_, ?_, fits, room, quiet⟩
  · intro index isIn i below
    have inRange : i ∈ Finset.range (usedIndices (headerOf sector) entries).length :=
      Finset.mem_range.mpr (below.trans (low index isIn))
    rw [← all] at inRange
    exact List.mem_toFinset.mp inRange
  · intro index isIn
    rw [count_eq (positive index isIn)]
    exact_mod_cast (mem_usedIndices.mp isIn).1

/-- The used entries are enumerated just when the table is walked so. -/
theorem enumeratesUsed_iff_walks (fitting : Fitting drive) (hard : drive.hardDisk = true)
    (disk : GptDisk drive mbr sector entries) (first : state.partition = 0xFFFFFF)
    (room : 0 < toInt32 (headerOf sector).maxpart → (headerOf sector).partentrySize ≤ drive.bufSize)
    (few : (usedIndices (headerOf sector) entries).length < 255) :
    EnumeratesUsed drive dest state sector entries ↔
      Walks drive sector 0 (listed entries 0 (usedIndices (headerOf sector) entries)) := by
  obtain ⟨state', calls, standing⟩ := @GptDisk.first drive mbr sector entries state dest disk
    fitting hard first
  refine enumerates_iff_walks fitting (disk.roomy room) disk.inTable ?_ calls standing
  rw [listed_length]
  omega

/-- An entry that is larger than the buffer is written behind it. -/
theorem EnumeratesUsed.room (fitting : Fitting drive) (hard : drive.hardDisk = true)
    (disk : GptDisk drive mbr sector entries) (first : state.partition = 0xFFFFFF)
    (enumerates : EnumeratesUsed drive dest state sector entries)
    (positive : 0 < toInt32 (headerOf sector).maxpart) : (headerOf sector).partentrySize ≤ drive.bufSize := by
  by_contra large
  obtain ⟨state', calls, standing⟩ := @GptDisk.first drive mbr sector entries state dest disk
    fitting hard first
  have size := disk.sizeInt
  have inArray : 0 < (headerOf sector).maxpart := by
    have count := count_eq positive
    omega
  have read := disk.readEntry fitting inArray (by rw [InReach]; omega)
  obtain ⟨left, isLeft⟩ : ∃ left, (toInt32 (headerOf sector).maxpart - (-1 + 1)).toNat = left + 1 :=
    ⟨(toInt32 (headerOf sector).maxpart - 1).toNat, by omega⟩
  have overflows : (drive.bufSize : Int) < state'.gptSize := by
    rw [standing.gptSize, size]
    omega
  refine enumerates.runs ?_
  rw [readEntry, ← standing.gptOffset, ← standing.gptSize] at read
  have start : ((-1 : Int) + 1) = (0 : Nat) := rfl
  rw [calls, standing.call, isLeft, searchGpt, readBuf]
  dsimp only
  rw [start, read]
  dsimp only
  rw [if_pos overflows]

/-- A walk over a GUID partition table finds each used entry once, with its own extent,
just if the array is dense. -/
theorem nextPartition_enumerates_used_iff (fitting : Fitting drive) (hard : drive.hardDisk = true)
    (disk : GptDisk drive mbr sector entries) (first : state.partition = 0xFFFFFF)
    (few : (usedIndices (headerOf sector) entries).length < 255) (apart : Apart (headerOf sector) entries) :
    EnumeratesUsed drive dest state sector entries ↔ Dense drive sector entries := by
  constructor
  · intro enumerates
    have room := enumerates.room fitting hard disk first
    exact dense_of_walks fitting disk room few apart
      ((enumeratesUsed_iff_walks fitting hard disk first room few).mp enumerates)
  · intro dense
    exact (enumeratesUsed_iff_walks fitting hard disk first dense.room few).mpr
      (walks_of_dense fitting disk few dense)

end Enumeration

/-! ## Small arrays -/

/-- Where all entries are in reach, nothing used is read behind dense ones. -/
theorem silent_of_inReach {drive : PartDrive} {mbr : List UInt8} {sector : List UInt8}
    {entries : Nat → List UInt8} (fitting : Fitting drive)
    (disk : GptDisk drive mbr sector entries)
    (reach : ∀ index < (headerOf sector).maxpart, InReach (headerOf sector) index) {no : Nat}
    (below : ∀ index ∈ usedIndices (headerOf sector) entries, index < no) : Silent drive sector no := by
  rintro index bytes found
  have high := found.high
  have low := found.low
  have count := @count_eq sector (by omega)
  have inArray : index < (headerOf sector).maxpart := by omega
  obtain rfl : entries index = bytes :=
    Except.ok.inj ((disk.readEntry fitting inArray (reach index inArray)).symm.trans found.read)
  have isBelow := below index (mem_usedIndices.mpr ⟨inArray, disk.entry fitting inArray ▸ found.used⟩)
  omega

/-- Entries in reach are apart. -/
theorem apart_of_inReach {sector : List UInt8} {entries : Nat → List UInt8}
    (reach : ∀ index < (headerOf sector).maxpart, InReach (headerOf sector) index) :
    Apart (headerOf sector) entries :=
  fun index isIn out => absurd (reach index (mem_usedIndices.mp isIn).1) out

/-- The entry of an unused slice. -/
def unusedEntry : List UInt8 := List.replicate 128 0

/-- An entry of this extent. -/
def usedEntry (start last : Nat) : List UInt8 :=
  List.replicate 32 1 ++ wordBytes start ++ List.replicate 4 0 ++ wordBytes last ++
    List.replicate 84 0

/-- A sector with the header of an array of four entries. -/
def headerSector : List UInt8 :=
  [0x45, 0x46, 0x49, 0x20, 0x50, 0x41, 0x52, 0x54, 0, 0, 1, 0] ++ List.replicate 60 0 ++
    [2, 0, 0, 0, 0, 0, 0, 0, 4, 0, 0, 0, 128, 0, 0, 0] ++ List.replicate 424 0

/-- All entries of the header are in reach. -/
theorem headerSector_inReach : ∀ index < (headerOf headerSector).maxpart,
    InReach (headerOf headerSector) index := by
  decide +kernel

/-- A partition table that stands for a GUID one. -/
def protectiveTable : List UInt8 :=
  tableSector [⟨0xEE, 1, 999⟩, ⟨0, 0, 0⟩, ⟨0, 0, 0⟩, ⟨0, 0, 0⟩]

/-- A disk with a GUID partition table of these four entries. -/
def gptDrive (entries : List (List UInt8)) : PartDrive :=
  sectorDrive [(0, protectiveTable), (1, headerSector), (2, entries.flatten)]

def denseEntries : List (List UInt8) :=
  [usedEntry 40 99, usedEntry 100 199, unusedEntry, unusedEntry]

/-- An unused entry before a used one. -/
def gapEntries : List (List UInt8) :=
  [unusedEntry, usedEntry 40 99, unusedEntry, unusedEntry]

/-- The disk with the dense table has a valid GPT, -/
theorem gptDrive_dense : GptDisk (gptDrive denseEntries) protectiveTable headerSector
    (fun index => denseEntries.getD index []) := by
  constructor
  · decide +kernel
  · decide +kernel
  · decide +kernel
  · decide +kernel
  · decide +kernel
  · exact ⟨0, by decide +kernel⟩
  · decide +kernel
  · decide +kernel
  · decide +kernel

/-- and so has the one with the gap. -/
theorem gptDrive_gap : GptDisk (gptDrive gapEntries) protectiveTable headerSector
    (fun index => gapEntries.getD index []) := by
  constructor
  · decide +kernel
  · decide +kernel
  · decide +kernel
  · decide +kernel
  · decide +kernel
  · exact ⟨0, by decide +kernel⟩
  · decide +kernel
  · decide +kernel
  · decide +kernel

/-- The dense table is enumerated. -/
theorem nextPartition_enumerates_dense :
    EnumeratesUsed (gptDrive denseEntries) 0xFFFFFF walkStart headerSector
      (fun index => denseEntries.getD index []) :=
  (nextPartition_enumerates_used_iff (sectorDrive_fitting _) rfl gptDrive_dense rfl
    (by decide +kernel) (apart_of_inReach headerSector_inReach)).mpr
    ⟨by decide +kernel, by decide +kernel, by decide +kernel, by decide +kernel,
      silent_of_inReach (sectorDrive_fitting _) gptDrive_dense headerSector_inReach (by decide +kernel)⟩

/-- The entry behind the gap is found twice. -/
theorem nextPartition_enumerates_gap :
    GptDisk (gptDrive gapEntries) protectiveTable headerSector
        (fun index => gapEntries.getD index []) ∧
      usedIndices (headerOf headerSector) (fun index => gapEntries.getD index []) =
        [1] ∧
      ¬ EnumeratesUsed (gptDrive gapEntries) 0xFFFFFF walkStart headerSector
        (fun index => gapEntries.getD index []) := by
  refine ⟨gptDrive_gap, by decide +kernel, fun enumerates => ?_⟩
  have walks := (enumeratesUsed_iff_walks (sectorDrive_fitting _) rfl gptDrive_gap rfl
    (by decide +kernel) (by decide +kernel)).mp enumerates
  have dense := dense_of_walks (sectorDrive_fitting _) gptDrive_gap (by decide +kernel)
    (by decide +kernel) (apart_of_inReach headerSector_inReach) walks
  exact absurd (dense.first 1 (by decide +kernel) 0 (by decide)) (by decide +kernel)

end GrubLegacy.Partition
