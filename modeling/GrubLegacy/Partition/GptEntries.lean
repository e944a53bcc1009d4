import GrubLegacy.Partition.SliceTables

/-!
# Entries of a GUID partition table

Every call of `next_gpt_slice` searches for a used entry from the slice number on that
the call before it returned. What a walk finds is therefore settled by what the
entries from each number on are; where unused entries lie between used ones, entries
are found more than once.
-/

namespace GrubLegacy.Partition

open Base Stage2

/-! ## Reading entries -/

/-- What `next_gpt_slice` reads for an entry, where the macros look for it. -/
def readEntry (drive : PartDrive) (header : GptHeader) (index : Nat) :
    Except GrubError (List UInt8) :=
  drive.rawread
    (toUInt32 ((header.partitions % 2 ^ 32 : Nat) +
      gptEntrySector drive (toInt32 header.partentrySize) index))
    (gptEntryIndex drive (toInt32 header.partentrySize) index) (toInt32 header.partentrySize)

/-- The header in its sector. -/
def headerOf (sector : List UInt8) : GptHeader := gptHeader (areaOf sector)

/-- The entry in what is read over the header: where entries are shorter than
`struct grub_gpt_partentry`, bytes of the header are left. -/
def entryIn (sector bytes : List UInt8) : GptEntry := gptEntry ((areaOf sector).fill bytes)

/-- What a caller of `next_partition` is told about a slice of this kind. -/
structure Extent where
  number : Int
  start : Nat
  length : Int
deriving DecidableEq, Repr

def extent (state : PartState) : Extent :=
  { number := pcSliceNo state.partition
    start := state.start
    length := state.len }

/-- The length written in an entry. -/
def GptEntry.length (entry : GptEntry) : Int := entry.last - entry.start + 1

/-- The extent written in an entry. -/
def GptEntry.written (entry : GptEntry) (number : Int) : Extent :=
  { number
    start := entry.start
    length := entry.length }

/-- The same, kept in `unsigned long`. -/
def GptEntry.kept (entry : GptEntry) (number : Int) : Extent :=
  { number
    start := entry.start % 2 ^ 32
    length := toUInt32 entry.length }

section Entries

variable (drive : PartDrive) (sector : List UInt8)

/-- An entry that is read and is not used. -/
def Unused (index : Nat) : Prop :=
  ∃ bytes, readEntry drive (headerOf sector) index = .ok bytes ∧ (entryIn sector bytes).used = false

/-- The first used entry that is found in reading one entry after the other. -/
structure FirstUsed (first index : Nat) (bytes : List UInt8) : Prop where
  low : first ≤ index
  high : (index : Int) < toInt32 (headerOf sector).maxpart
  before : ∀ i, first ≤ i → i < index → Unused drive sector i
  read : readEntry drive (headerOf sector) index = .ok bytes
  used : (entryIn sector bytes).used = true

/-- There is none. -/
def Silent (first : Nat) : Prop := ∀ index bytes, ¬ FirstUsed drive sector first index bytes

/-- The call for this slice number finds this extent. -/
def Finds (no : Nat) (found : Extent) : Prop :=
  ∃ index bytes, FirstUsed drive sector no index bytes ∧ (entryIn sector bytes).kept no = found

/-- The calls from a slice number on find these extents, and then nothing. -/
def Walks (no : Nat) : List Extent → Prop
  | [] => Silent drive sector no
  | found :: rest => Finds drive sector no found ∧ Walks (no + 1) rest

end Entries

/-! ## The search -/

/-- The buffer has room for an entry, if there are any. -/
def Roomy (drive : PartDrive) (sector : List UInt8) : Prop :=
  0 < toInt32 (headerOf sector).maxpart →
    toInt32 (headerOf sector).partentrySize ≤ drive.bufSize

/-- What is not overwritten by entries is as it was once the header was read. -/
def Stale (buf : Buffer) (sector : List UInt8) : Prop :=
  ∀ bytes : List UInt8, bytes.length = (toInt32 (headerOf sector).partentrySize).toNat →
    gptEntry (buf.fill bytes) = entryIn sector bytes

section Search

variable {drive : PartDrive} {sector : List UInt8} {state : PartState} {dest : Nat}

/-- An entry depends on its 48 bytes only. -/
theorem gptEntry_congr {left right : Buffer} (same : ∀ i < 48, left i = right i) :
    gptEntry left = gptEntry right := by
  have bytes : ∀ i < 48, left.byte i = right.byte i := fun i low => congrArg UInt8.toNat (same i low)
  have words : ∀ i, i + 8 ≤ 48 → left.word64 i = right.word64 i := by
    intro i low
    rw [Area.word64, Area.word64, Area.word32, Area.word32, Area.word32, Area.word32,
      Area.word16, Area.word16, Area.word16, Area.word16, Area.word16, Area.word16,
      Area.word16, Area.word16, bytes i (by omega), bytes (i + 1) (by omega),
      bytes (i + 2) (by omega), bytes (i + 2 + 1) (by omega), bytes (i + 4) (by omega),
      bytes (i + 4 + 1) (by omega), bytes (i + 4 + 2) (by omega), bytes (i + 4 + 2 + 1) (by omega)]
  rw [gptEntry, gptEntry, words 0 (by decide), words 8 (by decide), words 32 (by decide),
    words 40 (by decide)]

/-- Entries that are long enough leave nothing of the header. -/
theorem entryIn_whole {bytes : List UInt8} (size : 48 ≤ bytes.length) (sector : List UInt8) :
    entryIn sector bytes = gptEntry (areaOf bytes) := by
  refine gptEntry_congr fun i low => ?_
  have inside : i < bytes.length := by omega
  simp only [areaOf, Area.fill, List.getD_eq_getElem _ _ inside]

/-- Behind a read the buffer has the bytes of the sector, -/
theorem stale_read (buf : Buffer) {sector : List UInt8} (size : 48 ≤ sector.length) :
    Stale (buf.fill sector) sector := by
  rintro bytes _
  refine gptEntry_congr fun i low => ?_
  rw [Area.fill, Area.fill, Area.fill, areaOf, List.getD_eq_getElem _ (buf i) (by omega),
    List.getD_eq_getElem _ 0 (by omega)]

/-- also where an entry covers the start of them. -/
theorem Stale.fill {buf : Buffer} (stale : Stale buf sector) {before : List UInt8}
    (size : before.length = (toInt32 (headerOf sector).partentrySize).toNat) :
    Stale (buf.fill before) sector := by
  intro bytes same
  rw [fill_fill buf (by omega), stale bytes same]

/-- An unused entry in front leaves the rest silent. -/
theorem Silent.of_unused {first : Nat} (unused : Unused drive sector first)
    (silent : Silent drive sector (first + 1)) : Silent drive sector first := by
  rintro index bytes found
  have low := found.low
  rcases Nat.eq_or_lt_of_le low with rfl | later
  · obtain ⟨bytes', read, notUsed⟩ := unused
    obtain rfl : bytes' = bytes := Except.ok.inj (read.symm.trans found.read)
    exact Bool.false_ne_true (notUsed.symm.trans found.used)
  · exact silent index bytes ⟨later, found.high, fun i above => found.before i (by omega),
      found.read, found.used⟩

/-- Behind an unused entry the first used one is the same. -/
theorem FirstUsed.of_unused {first index : Nat} {bytes : List UInt8}
    (unused : Unused drive sector first) (found : FirstUsed drive sector (first + 1) index bytes) :
    FirstUsed drive sector first index bytes := by
  have low := found.low
  refine ⟨by omega, found.high, fun i above below => ?_, found.read, found.used⟩
  rcases Nat.eq_or_lt_of_le above with rfl | later
  · exact unused
  · exact found.before i later below

/-- An entry that cannot be read ends the search. -/
theorem Silent.of_error {first : Nat} {errnum : GrubError}
    (failed : readEntry drive (headerOf sector) first = .error errnum) : Silent drive sector first := by
  rintro index bytes found
  rcases Nat.eq_or_lt_of_le found.low with rfl | later
  · have read := found.read
    rw [failed] at read
    cases read
  · obtain ⟨bytes', read, _⟩ := found.before first (le_refl first) later
    rw [failed] at read
    cases read

/-- The count of the entries left falls with each of them. -/
private theorem left_step {left first : Nat} {count : Int}
    (isLeft : left + 1 = (count - first).toNat) : left = (count - (first + 1 : Nat)).toNat := by
  omega

/-- The loop of `next_gpt_slice` finds the first used entry, or stops. -/
theorem searchGpt_cases (fitting : Fitting drive) (roomy : Roomy drive sector)
    (onFound : PartState → Scan PartState) (left : Nat) {first : Nat}
    (isEntry : state.entry + 1 = first)
    (isLeft : left = (toInt32 (headerOf sector).maxpart - first).toNat)
    (offset : state.gptOffset = (headerOf sector).partitions % 2 ^ 32)
    (size : state.gptSize = toInt32 (headerOf sector).partentrySize)
    (stale : Stale state.buf sector) :
    (∃ index bytes buf, FirstUsed drive sector first index bytes ∧
        gptEntry buf = entryIn sector bytes ∧ Stale buf sector ∧
        searchGpt drive onFound left state = onFound { state with entry := index, buf }) ∨
      (∃ last, searchGpt drive onFound left state = .stop last) ∧ Silent drive sector first := by
  induction left generalizing state first with
  | zero =>
      refine Or.inr ⟨⟨_, rfl⟩, ?_⟩
      rintro index bytes found
      have low := found.low
      have high := found.high
      omega
  | succ left ih =>
      have within : (first : Int) < toInt32 (headerOf sector).maxpart := by omega
      have room := roomy (by omega)
      rw [searchGpt, isEntry, readBuf]
      cases read : readEntry drive (headerOf sector) first with
      | error errnum =>
          have failed := read
          rw [readEntry, ← offset, ← size] at failed
          rw [failed]
          exact Or.inr ⟨⟨_, rfl⟩, Silent.of_error read⟩
      | ok bytes =>
          have whole := fitting.whole _ _ _ _ read
          have fits : ¬ (drive.bufSize : Int) < state.gptSize := by
            rw [size]
            omega
          have done := read
          rw [readEntry, ← offset, ← size] at done
          rw [done]
          dsimp only
          rw [if_neg fits, stale bytes whole]
          cases used : (entryIn sector bytes).used with
          | true =>
              refine Or.inl ⟨first, bytes, state.buf.fill bytes, ?_, stale bytes whole,
                stale.fill whole, rfl⟩
              exact ⟨le_refl first, within, fun i above below => absurd below (by omega), read, used⟩
          | false =>
              have unused : Unused drive sector first := ⟨bytes, read, used⟩
              have next := @ih { state with entry := first, buf := state.buf.fill bytes }
                (first + 1) rfl (left_step isLeft) offset size (stale.fill whole)
              rcases next with ⟨index, bytes', buf, found, isEntry', stale', goes⟩ |
                ⟨stops, silent⟩
              · exact Or.inl ⟨index, bytes', buf, found.of_unused unused, isEntry', stale', goes⟩
              · exact Or.inr ⟨stops, silent.of_unused unused⟩

/-- Where a call of `next_gpt_slice` finds its arguments: at the start, or after the
call that returned slice `no`. -/
structure GptStanding (state : PartState) (sector : List UInt8) (no : Int) : Prop where
  gptOffset : state.gptOffset = (headerOf sector).partitions % 2 ^ 32
  gptCount : state.gptCount = toInt32 (headerOf sector).maxpart
  gptSize : state.gptSize = toInt32 (headerOf sector).partentrySize
  stale : Stale state.buf sector
  after : no = -1 ∧ pcSliceNo state.partition = 0xFF ∨
    0 ≤ no ∧ no < 255 ∧ state.partition = packSlice no ∧ state.entry = no

/-- A call goes on with the next entry. -/
theorem GptStanding.call {no : Int} (standing : GptStanding state sector no) :
    nextGptSlice drive state = searchGpt drive (fun state =>
        .found { state with
          start := (gptEntry state.buf).start % 2 ^ 32
          len := toUInt32 ((gptEntry state.buf).last - (gptEntry state.buf).start + 1)
          type := pcSliceTypeExt2fs
          entry := no + 1
          partition := packSlice (no + 1) })
      (toInt32 (headerOf sector).maxpart - (no + 1)).toNat { state with entry := no } := by
  rw [nextGptSlice, standing.gptCount]
  rcases standing.after with ⟨rfl, first⟩ | ⟨low, high, isPartition, isEntry⟩
  · simp only [first, if_true]
  · have number : (pcSliceNo state.partition : Int) = no := by
      rw [isPartition, pcSliceNo_packSlice low (by omega)]
    have going : pcSliceNo state.partition ≠ 0xFF := by omega
    simp only [going, if_false, number, isEntry]

/-- A call finds the first used entry from the next slice number on, or stops. -/
theorem nextGptSlice_cases (fitting : Fitting drive) (roomy : Roomy drive sector)
    {no : Nat} (few : no < 255) (standing : GptStanding state sector (no - 1)) :
    (∃ state', nextGptSlice drive state = .found state' ∧ GptStanding state' sector no ∧
        Finds drive sector no (extent state')) ∨
      (∃ last, nextGptSlice drive state = .stop last) ∧ Silent drive sector no := by
  have follows : ((no : Int) - 1) + 1 = no := by omega
  rw [standing.call, follows]
  rcases @searchGpt_cases drive sector { state with entry := (no : Int) - 1 } fitting roomy
    (fun state => .found { state with
      start := (gptEntry state.buf).start % 2 ^ 32
      len := toUInt32 ((gptEntry state.buf).last - (gptEntry state.buf).start + 1)
      type := pcSliceTypeExt2fs
      entry := no
      partition := packSlice no }) _ no follows rfl standing.gptOffset standing.gptSize standing.stale with
    ⟨index, bytes, buf, first, isEntry, stale, goes⟩ | stops
  · refine Or.inl ⟨_, goes, ⟨standing.gptOffset, standing.gptCount, standing.gptSize,
      stale, Or.inr ⟨by omega, by omega, rfl, rfl⟩⟩, index, bytes, first, ?_⟩
    rw [extent]
    dsimp only
    rw [pcSliceNo_packSlice (by omega) (by omega), isEntry]
    rfl
  · exact Or.inr stops

/-- A call finds one extent only. -/
theorem Finds.unique {no : Nat} {found found' : Extent} (left : Finds drive sector no found)
    (right : Finds drive sector no found') : found = found' := by
  obtain ⟨index, bytes, first, rfl⟩ := left
  obtain ⟨index', bytes', first', rfl⟩ := right
  rcases Nat.lt_trichotomy index index' with before | rfl | after
  · obtain ⟨bytes'', read, notUsed⟩ := first'.before index first.low before
    obtain rfl : bytes'' = bytes := Except.ok.inj (read.symm.trans first.read)
    exact absurd (notUsed.symm.trans first.used) Bool.false_ne_true
  · rw [Except.ok.inj (first.read.symm.trans first'.read)]
  · obtain ⟨bytes'', read, notUsed⟩ := first.before index' first'.low after
    obtain rfl : bytes'' = bytes' := Except.ok.inj (read.symm.trans first'.read)
    exact absurd (notUsed.symm.trans first'.used) Bool.false_ne_true

/-- In the middle of a GPT the next partition is that of the next entry. -/
theorem GptStanding.nextPartition (fitting : Fitting drive)
    (inTable : (headerOf sector).partitions % 2 ^ 32 ≠ 0) {no : Nat}
    (standing : GptStanding state sector no) :
    nextPartition drive dest state = nextGptSlice drive state := by
  have local_ : ¬ drive.network = true := by
    rw [fitting.local_]
    decide
  have going : state.partition ≠ 0xFFFFFF ∧ state.gptOffset ≠ 0 := by
    rcases standing.after with ⟨first, _⟩ | ⟨low, high, isPartition, _⟩
    · omega
    · rw [isPartition, standing.gptOffset, Ne, packSlice_restarts low (by omega)]
      exact ⟨by omega, inTable⟩
  rw [Partition.nextPartition, if_neg local_, if_pos going]

/-- The calls after a slice find what the entries from the next slice number on say. -/
theorem enumerates_iff_walks (fitting : Fitting drive) (roomy : Roomy drive sector)
    (inTable : (headerOf sector).partitions % 2 ^ 32 ≠ 0) {items : List Extent} {no : Nat}
    (few : no + items.length < 255) {state₀ : PartState}
    (calls : nextPartition drive dest state₀ = nextGptSlice drive state)
    (standing : GptStanding state sector (no - 1)) :
    Enumerates (nextPartition drive dest) extent state₀ items ↔ Walks drive sector no items := by
  induction items generalizing no state state₀ with
  | nil =>
      rw [Enumerates, calls, Walks]
      rcases nextGptSlice_cases fitting roomy (show no < 255 from few) standing with
        ⟨state', goes, _, _, _, used, _⟩ | ⟨stops, silent⟩
      · rw [goes]
        constructor
        · rintro ⟨last, stops⟩
          cases stops
        · intro silent
          exact absurd used (silent _ _)
      · exact ⟨fun _ => silent, fun _ => stops⟩
  | cons first rest ih =>
      rw [List.length_cons] at few
      rw [Enumerates, calls, Walks]
      rcases nextGptSlice_cases fitting roomy (by omega) standing with
        ⟨state', goes, standing', finds⟩ | ⟨⟨last, stops⟩, silent⟩
      · have again : nextPartition drive dest state' = nextGptSlice drive state' :=
          standing'.nextPartition fitting inTable
        have number : ((no + 1 : Nat) : Int) - 1 = no := by omega
        have rest_iff := @ih state' (no + 1) (by omega) state' again (number ▸ standing')
        rw [goes]
        constructor
        · rintro ⟨state'', same, isFirst, tail⟩
          obtain rfl := Scan.found.inj same
          exact ⟨isFirst ▸ finds, rest_iff.mp tail⟩
        · rintro ⟨finds', tail⟩
          exact ⟨state', rfl, finds.unique finds', rest_iff.mpr tail⟩
      · rw [stops]
        constructor
        · rintro ⟨state'', same, _⟩
          cases same
        · rintro ⟨⟨index, bytes, used, _⟩, _⟩
          exact absurd used (silent index bytes)

/-- The first call goes to the array behind a header that is accepted. -/
theorem nextPcSlice_gpt (fitting : Fitting drive) {mbr : List UInt8} (table : TableAt drive 0 mbr)
    (protective : (slot (areaOf mbr) 0).type = pcSliceTypeGpt) (sectorAt : SectorAt drive 1 sector)
    (accepted : (headerOf sector).accepted = true) (first : pcSliceNo state.partition = 0xFF) :
    ∃ state', nextPcSlice drive state = nextGptSlice drive state' ∧
      GptStanding state' sector (-1) := by
  have large := fitting.large
  have size := table.size fitting
  have sectorSize := sectorAt.size fitting
  have type : pcSliceType (state.buf.fill mbr) 0 = (slot (areaOf mbr) 0).type :=
    congrArg Slot.type (@slot_fill state.buf mbr (by omega) 0 (by decide))
  have header : gptHeader ((state.buf.fill mbr).fill sector) = headerOf sector :=
    gptHeader_fill (by omega)
  have atStart : SectorAt drive (restarted state).offset mbr := table.read
  rw [nextPcSlice_first first, readPcTable, readSector_eq fitting atStart, restarted]
  dsimp only
  rw [pcMbrCheckSig_fill (by omega), table.signed, if_neg (by decide), type,
    if_pos ⟨rfl, rfl, protective⟩, readSector_eq fitting sectorAt]
  dsimp only
  rw [header, if_pos accepted]
  exact ⟨_, rfl, rfl, rfl, rfl, stale_read _ (by omega), Or.inl ⟨rfl, first⟩⟩

end Search

end GrubLegacy.Partition
