import GrubLegacy.Partition.SliceTables

/-!
# BSD partitions of a slice

`next_bsd_partition` reads the label of a slice on its first call and goes through the
partitions of the label on the next ones. It finds those that have a type.
-/

namespace GrubLegacy.Partition

open Base Stage2

/-! ## Names of partitions -/

/-- The value of `*partition` for a slice number and a BSD partition number, which is
0xFF for none. -/
def packed (no i : Nat) : Nat := no <<< 16 ||| i <<< 8 ||| 0xFF

/-- What the masks leave of a slice number, for every byte. -/
private theorem slice_masks : ∀ no < 256, no <<< 16 &&& 0xFF0000 = no <<< 16 ∧
    no <<< 16 &&& 0xFF00 = 0 ∧ no <<< 16 &&& 0xFF00FF = no <<< 16 ∧
      (no <<< 16) >>> 16 = no := by
  decide +kernel

/-- What they leave of a letter, for every byte. -/
private theorem letter_masks : ∀ i < 256, i <<< 8 &&& 0xFF0000 = 0 ∧
    i <<< 8 &&& 0xFF00 = i <<< 8 ∧ i <<< 8 &&& 0xFF00FF = 0 ∧ (i <<< 8) >>> 8 = i := by
  decide +kernel

section Names

variable {no i : Nat}

/-- The slice field of a packed number, -/
theorem packed_slice (small : no < 256) (few : i < 256) : packed no i &&& 0xFF0000 = no <<< 16 := by
  rw [packed, Nat.and_or_distrib_right, Nat.and_or_distrib_right, (slice_masks no small).1,
    (letter_masks i few).1, Nat.or_zero]
  exact Nat.or_zero _

/-- and its letter field. -/
theorem packed_letter (small : no < 256) (few : i < 256) : packed no i &&& 0xFF00 = i <<< 8 := by
  rw [packed, Nat.and_or_distrib_right, Nat.and_or_distrib_right, (slice_masks no small).2.1,
    (letter_masks i few).2.1, Nat.zero_or]
  exact Nat.or_zero _

/-- The slice of a packed number is read back, -/
theorem pcSliceNo_packed (small : no < 256) (few : i < 256) : pcSliceNo (packed no i) = no := by
  rw [pcSliceNo, packed_slice small few, (slice_masks no small).2.2.2]

/-- and its letter. -/
theorem bsdPartNo_packed (small : no < 256) (few : i < 256) : bsdPartNo (packed no i) = i := by
  rw [bsdPartNo, packed_letter small few, (letter_masks i few).2.2.2]

/-- The slice is also what is left of a shift. -/
theorem packed_shiftRight (small : no < 256) (few : i < 256) : packed no i >>> 16 = no := by
  have low : i <<< 8 ||| 0xFF < 2 ^ 16 := Nat.or_lt_two_pow
    (by rw [Nat.shiftLeft_eq]; omega) (by decide)
  rw [packed, Nat.or_assoc, Nat.shiftRight_or_distrib, (slice_masks no small).2.2.2,
    Nat.shiftRight_eq_div_pow, Nat.div_eq_of_lt low, Nat.or_zero]

/-- Another BSD partition of the same slice. -/
theorem packed_replace (small : no < 256) (few : i < 256) (j : Nat) :
    packed no i &&& 0xFF00FF ||| j <<< 8 = packed no j := by
  rw [packed, Nat.and_or_distrib_right, Nat.and_or_distrib_right, (slice_masks no small).2.2.1,
    (letter_masks i few).2.2.1, Nat.or_zero, packed, Nat.or_assoc, Nat.or_assoc]
  congr 1
  exact Nat.or_comm _ _

/-- A slice alone is packed with no letter. -/
theorem packSlice_eq (no : Int) : packSlice no = packed no.toNat 0xFF := by
  rw [packSlice, packed, Nat.or_assoc]
  rfl

/-- Different slices and letters are packed as different numbers. -/
theorem packed_injective {no' i' : Nat} (small : no < 256) (few : i < 256) (small' : no' < 256)
    (few' : i' < 256) (same : packed no i = packed no' i') : no = no' ∧ i = i' := by
  constructor
  · rw [← pcSliceNo_packed small few, same, pcSliceNo_packed small' few']
  · rw [← bsdPartNo_packed small few, same, bsdPartNo_packed small' few']

end Names

/-! ## What a walk finds -/

/-- What a caller of `next_partition` is told. -/
structure Found where
  partition : Nat
  type : Nat
  start : Nat
  length : Nat
deriving DecidableEq, Repr

def found (state : PartState) : Found :=
  { partition := state.partition
    type := state.type
    start := state.start
    length := state.len }

/-- The label of a slice, if there is a valid one. -/
def labelOf (drive : PartDrive) (start length : Nat) : Option (List UInt8) :=
  if length < bsdLabelSector + 1 then none
  else
    match drive.rawread ((start + bsdLabelSector) % 2 ^ 32) 0 drive.sectorSize with
    | .error _ => none
    | .ok bytes => if bsdLabelCheckMag (areaOf bytes) then some bytes else none

/-- The partitions in use of a label, from one on. -/
def usedParts (label : List UInt8) (i left : Nat) : List Nat :=
  (List.range' i left).filter fun i => bsdPartType (areaOf label) i ≠ 0

/-- What is told about a partition of a label in a slice. -/
def bsdFound (label : List UInt8) (no type i : Nat) : Found :=
  { partition := packed no i
    type := bsdPartType (areaOf label) i <<< 8 ||| type
    start := bsdPartStart (areaOf label) i
    length := bsdPartLength (areaOf label) i }

/-- The BSD partitions of a slice. -/
def bsdParts (drive : PartDrive) (no type start length : Nat) : List Found :=
  match labelOf drive start length with
  | none => []
  | some label =>
    (usedParts label 0 (bsdLabelNparts (areaOf label))).map (bsdFound label no type)

/-- The partitions a label counts lie in its sector. -/
def LabelInSector (drive : PartDrive) (start length : Nat) : Prop :=
  ∀ label ∈ labelOf drive start length,
    148 + 16 * bsdLabelNparts (areaOf label) ≤ drive.sectorSize

/-! ## The search -/

/-- The state belongs to the same slice. -/
structure InSlice (before after : PartState) : Prop where
  offset : after.offset = before.offset
  extOffset : after.extOffset = before.extOffset
  entry : after.entry = before.entry
  gptOffset : after.gptOffset = before.gptOffset
  slice : after.partition &&& 0xFF0000 = before.partition &&& 0xFF0000

section Search

variable {drive : PartDrive} {state : PartState} {label : List UInt8} {no type : Nat}

/-- The state once a BSD partition is taken. -/
def bsdTaken (drive : PartDrive) (state : PartState) (i : Nat) : PartState :=
  { state with
    type := bsdPartType state.buf i <<< 8 ||| state.type &&& 0xFF
    start := bsdPartStart state.buf i
    len := bsdPartLength state.buf i
    partition := state.partition &&& 0xFF00FF ||| i <<< 8
    bsdEvilHack :=
      if drive.hardDisk && bsdLabelDtype state.buf = dtypeScsi then 4 else state.bsdEvilHack }

/-- What a search finds is an entry of the label. -/
theorem searchBsd_found {left i : Nat} {after : PartState}
    (goes : searchBsd drive state left i = .found after) : ∃ j, after = bsdTaken drive state j := by
  induction left generalizing i with
  | zero => cases goes
  | succ left ih =>
      rw [searchBsd] at goes
      split at goes
      · cases goes
      · split at goes
        · exact ⟨i, (Scan.found.inj goes).symm⟩
        · exact ih goes

/-- A BSD partition comes from no GUID partition table if its slice does not. -/
theorem nextBsdPartition_gptOffset {after : PartState}
    (goes : nextBsdPartition drive state = .found after) : after.gptOffset = state.gptOffset := by
  rw [nextBsdPartition] at goes
  split at goes
  · split at goes
    · cases goes
    · rw [readSector, readBuf] at goes
      split at goes
      · cases goes
      · split at goes
        · cases goes
        · dsimp only at goes
          split at goes
          · cases goes
          · obtain ⟨j, rfl⟩ := searchBsd_found goes
            rfl
  · obtain ⟨j, rfl⟩ := searchBsd_found goes
    rfl

/-- A state of a slice with its label in the buffer. -/
structure InLabel (slice state : PartState) (label : List UInt8) (no type i : Nat) : Prop where
  same : InSlice slice state
  partition : state.partition = packed no i
  type : state.type &&& 0xFF = type
  buf : ∃ buf : Buffer, state.buf = buf.fill label

/-- A BSD type is a byte. -/
theorem type_byte_of_bsd {type : Nat} (bsd : isPcSliceTypeBsd type = true) : type &&& 0xFF = type := by
  rw [isPcSliceTypeBsd, Bool.or_eq_true, Bool.or_eq_true, decide_eq_true_eq, decide_eq_true_eq,
    decide_eq_true_eq] at bsd
  rcases bsd with (rfl | rfl) | rfl
  · decide
  · decide
  · decide

/-- The low byte of a type is that of the slice. -/
theorem type_of_part (byte type : Nat) (small : type &&& 0xFF = type) :
    (byte <<< 8 ||| type) &&& 0xFF = type := by
  have high : byte <<< 8 &&& 0xFF = 0 := by
    rw [Nat.and_two_pow_sub_one_eq_mod _ 8, Nat.shiftLeft_eq]
    exact Nat.mul_mod_left _ _
  rw [Nat.and_or_distrib_right, high, small, Nat.zero_or]

/-- Taking a partition of the label. -/
theorem InLabel.taken {slice : PartState} {i : Nat} (inLabel : InLabel slice state label no type i)
    (small : no < 256) (few : i < 256) (size : label.length = drive.sectorSize) {j : Nat}
    (few' : j < 256) (inside : 148 + 16 * (j + 1) ≤ drive.sectorSize) :
    InLabel slice (bsdTaken drive state j) label no type j ∧
      found (bsdTaken drive state j) = bsdFound label no type j := by
  obtain ⟨buf, isLabel⟩ := inLabel.buf
  have types : bsdPartType state.buf j = bsdPartType (areaOf label) j := by
    rw [isLabel]
    exact fill_byte (by rw [bsdPartTypeOffset]; omega)
  have starts : bsdPartStart state.buf j = bsdPartStart (areaOf label) j := by
    rw [isLabel]
    exact fill_word32 (by omega)
  have lengths : bsdPartLength state.buf j = bsdPartLength (areaOf label) j := by
    rw [isLabel]
    exact fill_word32 (by omega)
  have partition : (bsdTaken drive state j).partition = packed no j := by
    rw [bsdTaken, inLabel.partition, packed_replace small few]
  have byte : type &&& 0xFF = type := by
    rw [← inLabel.type, Nat.and_assoc]
    rfl
  constructor
  · constructor
    · have same := inLabel.same
      have slices := same.slice
      refine ⟨same.offset, same.extOffset, same.entry, same.gptOffset, ?_⟩
      rw [← slices, partition, inLabel.partition, packed_slice small few, packed_slice small few']
    · exact partition
    · rw [bsdTaken, inLabel.type]
      exact type_of_part _ _ byte
    · exact ⟨buf, isLabel⟩
  · rw [found, partition, bsdTaken, bsdFound, types, starts, lengths, inLabel.type]

/-- The search from a partition of the label on, and the calls after it, find those in use. -/
theorem findsThen_searchBsd {slice : PartState} (small : no < 256)
    (size : label.length = drive.sectorSize) (bounded : drive.sectorSize ≤ drive.bufSize)
    (most : drive.sectorSize ≤ 4096) (left : Nat) {i k : Nat}
    (isEnd : i + left = bsdLabelNparts (areaOf label))
    (inside : 148 + 16 * bsdLabelNparts (areaOf label) ≤ drive.sectorSize)
    (few : k < 256) (inLabel : InLabel slice state label no type k) :
    FindsThen (nextBsdPartition drive) found (InSlice slice) (searchBsd drive state left i)
      ((usedParts label i left).map (bsdFound label no type)) := by
  induction left generalizing i k state with
  | zero =>
      have same := inLabel.same
      exact ⟨_, rfl, same.offset, same.extOffset, same.entry, same.gptOffset, same.slice⟩
  | succ left ih =>
      obtain ⟨buf, isLabel⟩ := inLabel.buf
      have room : ¬ drive.bufSize ≤ bsdPartTypeOffset i := by
        rw [bsdPartTypeOffset]
        omega
      have types : bsdPartType state.buf i = bsdPartType (areaOf label) i := by
        rw [isLabel]
        exact fill_byte (by rw [bsdPartTypeOffset]; omega)
      rw [searchBsd, if_neg room, types, usedParts, List.range'_succ]
      by_cases used : bsdPartType (areaOf label) i ≠ 0
      · rw [if_pos used, List.filter_cons_of_pos (by simpa using used), List.map_cons, ← types]
        obtain ⟨taken, isFound⟩ := @InLabel.taken drive state label no type slice k inLabel small
          few size i (by omega) (by omega)
        refine ⟨bsdTaken drive state i, rfl, isFound, ?_⟩
        obtain ⟨buf', isLabel'⟩ := taken.buf
        have goesOn : bsdPartNo (bsdTaken drive state i).partition = i := by
          rw [taken.partition, bsdPartNo_packed small (by omega)]
        have count : bsdLabelNparts (bsdTaken drive state i).buf - (i + 1) = left := by
          rw [isLabel', bsdLabelNparts, fill_word16 (by omega), ← bsdLabelNparts]
          omega
        rw [nextBsdPartition, goesOn, if_neg (by omega)]
        dsimp only
        rw [count]
        exact ih (by omega) (by omega) taken
      · rw [if_neg used, List.filter_cons_of_neg (by simpa using used)]
        exact ih (by omega) few inLabel

/-- The first call after a slice goes to its label, if there is one. -/
theorem nextBsdPartition_label (fitting : Fitting drive) (first : bsdPartNo state.partition = 0xFF) :
    (labelOf drive state.start state.len = none ∧ ∃ buf errnum,
      nextBsdPartition drive state = .stop { state with buf, errnum }) ∨
    ∃ label, labelOf drive state.start state.len = some label ∧
      label.length = drive.sectorSize ∧
      nextBsdPartition drive state =
        searchBsd drive { state with buf := state.buf.fill label }
          (bsdLabelNparts (areaOf label)) 0 := by
  have large := fitting.large
  rw [nextBsdPartition, if_pos first]
  by_cases short : state.len < bsdLabelSector + 1
  · rw [if_pos short, labelOf, if_pos short]
    exact Or.inl ⟨rfl, _, _, rfl⟩
  rw [if_neg short, labelOf, if_neg short]
  cases read : drive.rawread ((state.start + bsdLabelSector) % 2 ^ 32) 0 drive.sectorSize with
  | error errnum =>
      rw [readSector, readBuf, read]
      exact Or.inl ⟨rfl, _, _, rfl⟩
  | ok bytes =>
      have size := fitting.whole _ _ _ _ read
      rw [Int.toNat_natCast] at size
      have magic : bsdLabelCheckMag (state.buf.fill bytes) = bsdLabelCheckMag (areaOf bytes) := by
        rw [bsdLabelCheckMag, fill_word32 (by omega), bsdLabelCheckMag]
      have count : bsdLabelNparts (state.buf.fill bytes) = bsdLabelNparts (areaOf bytes) :=
        fill_word16 (by omega)
      rw [readSector_eq fitting read]
      dsimp only
      rw [magic, count]
      cases bsdLabelCheckMag (areaOf bytes) with
      | false => exact Or.inl ⟨rfl, _, _, rfl⟩
      | true => exact Or.inr ⟨bytes, rfl, size, rfl⟩

/-- The calls after a slice of a BSD type find the partitions of its label. -/
theorem findsThen_bsdParts (fitting : Fitting drive) (small : no < 256) {slice : Found}
    (isFound : found state = slice) (partition : slice.partition = packed no 0xFF)
    (bsd : isPcSliceTypeBsd slice.type = true)
    (labelFits : LabelInSector drive slice.start slice.length) :
    FindsThen (nextBsdPartition drive) found (InSlice state) (nextBsdPartition drive state)
      (bsdParts drive no slice.type slice.start slice.length) := by
  subst isFound
  rw [found] at partition bsd labelFits ⊢
  dsimp only at partition bsd labelFits ⊢
  have first : bsdPartNo state.partition = 0xFF := by
    rw [partition, bsdPartNo_packed small (by decide)]
  rw [bsdParts]
  rcases nextBsdPartition_label fitting first with ⟨none_, buf, errnum, stops⟩ |
    ⟨label, isLabel, size, goes⟩
  · rw [none_, stops]
    exact ⟨_, rfl, rfl, rfl, rfl, rfl, rfl⟩
  · rw [isLabel, goes]
    refine findsThen_searchBsd small size fitting.fits (fitting.fits.trans fitting.bounded) _
      (Nat.zero_add _) (labelFits label isLabel) (by decide : 0xFF < 256) ?_
    exact ⟨⟨rfl, rfl, rfl, rfl, rfl⟩, partition, type_byte_of_bsd bsd, ⟨_, rfl⟩⟩

end Search

end GrubLegacy.Partition
