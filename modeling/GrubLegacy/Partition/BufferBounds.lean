import GrubLegacy.Partition.SliceTables

/-!
# The buffer of a partition scan

When `next_partition` keeps within the buffer its caller passes, over a whole scan,
and when `make_saved_active` keeps within its copy of the MBR.
-/

namespace GrubLegacy.Partition

open Base Stage2

/-! ## Calls that do not fault -/

section Outcomes

variable {State : Type} {found stopped : State → Prop}

/-- The call does not fault, and the state it leaves is as described. -/
inductive Satisfies (found stopped : State → Prop) : Scan State → Prop where
  | found {state : State} (holds : found state) : Satisfies found stopped (.found state)
  | stop {state : State} (holds : stopped state) : Satisfies found stopped (.stop state)

/-- A scan that satisfies a condition has not left the buffer. -/
theorem Satisfies.runs {scan : Scan State} (satisfies : Satisfies found stopped scan) :
    scan ≠ .fault := by
  rintro rfl
  cases satisfies

/-- What it finds satisfies the first one, -/
theorem Satisfies.of_found {scan : Scan State} {state : State}
    (satisfies : Satisfies found stopped scan) (goes : scan = .found state) : found state := by
  rw [goes] at satisfies
  cases satisfies with
  | found holds => exact holds

/-- and what it stops with the second one. -/
theorem Satisfies.of_stop {scan : Scan State} {state : State}
    (satisfies : Satisfies found stopped scan) (goes : scan = .stop state) : stopped state := by
  rw [goes] at satisfies
  cases satisfies with
  | stop holds => exact holds

/-- Whether the call faults. -/
def faults : Scan State → Bool
  | .fault => true
  | _ => false

/-- The test for a fault is right. -/
theorem eq_fault_of_faults {scan : Scan State} (holds : faults scan = true) :
    scan = .fault := by
  cases scan with
  | fault => rfl
  | found _ => cases holds
  | stop _ => cases holds

end Outcomes

section Scans

variable {drive : PartDrive} {state : PartState} {found stopped : PartState → Prop}

/-- A read that fits. -/
theorem readBuf_satisfies {sector : Nat} {byteOffset byteLen : Int}
    {next : PartState → Scan PartState} (fits : byteLen ≤ drive.bufSize)
    (fails : ∀ errnum, stopped { state with errnum })
    (reads : ∀ bytes, drive.rawread sector byteOffset byteLen = .ok bytes →
      Satisfies found stopped (next { state with buf := state.buf.fill bytes })) :
    Satisfies found stopped (readBuf drive state sector byteOffset byteLen next) := by
  rw [readBuf]
  cases answer : drive.rawread sector byteOffset byteLen with
  | error errnum => exact .stop (fails errnum)
  | ok bytes =>
      dsimp only
      rw [if_neg (Int.not_lt.mpr fits)]
      exact reads bytes answer

/-- The entries a header announces fit. -/
def HeaderFits (drive : PartDrive) (header : GptHeader) : Prop :=
  0 < toInt32 header.maxpart → toInt32 header.partentrySize ≤ drive.bufSize

/-- What a scan needs of its drive and its buffer, which is from 512 to 4096 bytes
long: sectors fit, and behind a protective MBR the entries of the GPT do. -/
structure FitsBuffer (drive : PartDrive) : Prop where
  large : 512 ≤ drive.bufSize
  small : drive.bufSize ≤ 4096
  sector : drive.sectorSize ≤ drive.bufSize
  entries : ∀ mbr header (buf : Buffer), drive.rawread 0 0 drive.sectorSize = .ok mbr →
    pcMbrCheckSig (buf.fill mbr) = true → pcSliceType (buf.fill mbr) 0 = pcSliceTypeGpt →
      drive.rawread 1 0 drive.sectorSize = .ok header →
        (gptHeader ((buf.fill mbr).fill header)).accepted = true →
          HeaderFits drive (gptHeader ((buf.fill mbr).fill header))

/-- No GPT behind a protective MBR has its entries at sector 0, where `*gpt_offset` says
that there is none. -/
def EntriesPlaced (drive : PartDrive) : Prop :=
  ∀ mbr header (buf : Buffer), drive.rawread 0 0 drive.sectorSize = .ok mbr →
    pcMbrCheckSig (buf.fill mbr) = true → pcSliceType (buf.fill mbr) 0 = pcSliceTypeGpt →
      drive.rawread 1 0 drive.sectorSize = .ok header →
        (gptHeader ((buf.fill mbr).fill header)).accepted = true →
          (gptHeader ((buf.fill mbr).fill header)).partitions % 2 ^ 32 ≠ 0

/-- Looking for the next BSD partition from number `first` on stays in the buffer. -/
def LabelFits (drive : PartDrive) (buf : Buffer) (first : Nat) : Prop :=
  ∀ i, first ≤ i → i < bsdLabelNparts buf →
    (∀ j, first ≤ j → j < i → bsdPartType buf j = 0) → bsdPartTypeOffset i < drive.bufSize

/-- The label at hand fits: the one in the buffer, or the one of the slice that
was found last. -/
def LabelsFit (drive : PartDrive) (state : PartState) : Prop :=
  if bsdPartNo state.partition = 0xFF then
    bsdLabelSector + 1 ≤ state.len → ∀ bytes,
      drive.rawread ((state.start + bsdLabelSector) % 2 ^ 32) 0 drive.sectorSize = .ok bytes →
        bsdLabelCheckMag (state.buf.fill bytes) = true →
          LabelFits drive (state.buf.fill bytes) 0
  else LabelFits drive state.buf (bsdPartNo state.partition + 1)

/-- `next_partition` looks for a BSD partition, or for a slice in a table. -/
def OutsideGpt (state : PartState) : Prop := state.partition = 0xFFFFFF ∨ state.gptOffset = 0

/-- The tables the next call looks into fit: the label if it is one of BSD
partitions, and the slot if it is one of slices. -/
structure TablesFit (drive : PartDrive) (state : PartState) : Prop where
  label : OutsideGpt state →
    (state.partition ≠ 0xFFFFFF ∧ isPcSliceTypeBsd (state.type &&& 0xFF)) ∨
      drive.hardDisk = false → LabelsFit drive state
  slot : OutsideGpt state → pcSliceNo state.partition ≠ 0xFF →
    state.entry + 1 = pcSliceMax ∨ 446 + 16 + (state.entry + 1) * 16 ≤ drive.bufSize

/-! ## The nested functions -/

/-- What is kept when a BSD partition is found or not. -/
def SameSlice (before after : PartState) : Prop :=
  pcSliceNo after.partition = pcSliceNo before.partition ∧ after.entry = before.entry ∧
    after.gptOffset = before.gptOffset ∧ after.gptCount = before.gptCount ∧
      after.gptSize = before.gptSize

/-- A state has its own slice, -/
theorem SameSlice.refl (state : PartState) : SameSlice state state := ⟨rfl, rfl, rfl, rfl, rfl⟩

/-- and slices that stay twice stay. -/
theorem SameSlice.trans {first second third : PartState} (left : SameSlice first second)
    (right : SameSlice second third) : SameSlice first third :=
  ⟨right.1.trans left.1, right.2.1.trans left.2.1, right.2.2.1.trans left.2.2.1,
    right.2.2.2.1.trans left.2.2.2.1, right.2.2.2.2.trans left.2.2.2.2⟩

/-- A search of a label that fits stays in the buffer and in its slice. -/
theorem searchBsd_satisfies (small : drive.bufSize ≤ 4096) (left first : Nat)
    (count : left = bsdLabelNparts state.buf - first) (fits : LabelFits drive state.buf first) :
    Satisfies (SameSlice state) (fun after => SameSlice state after ∧
      after.partition = state.partition) (searchBsd drive state left first) := by
  induction left generalizing first with
  | zero => exact .stop ⟨⟨rfl, rfl, rfl, rfl, rfl⟩, rfl⟩
  | succ left inductionHypothesis =>
      rw [searchBsd]
      have inside := fits first (Nat.le_refl first) (by omega) (fun j _ _ => by omega)
      rw [if_neg (Nat.not_le.mpr inside)]
      by_cases typed : bsdPartType state.buf first ≠ 0
      · rw [if_pos typed]
        rw [bsdPartTypeOffset] at inside
        exact .found ⟨pcSliceNo_bsd state.partition (by omega), rfl, rfl, rfl, rfl⟩
      · rw [if_neg typed]
        refine inductionHypothesis (first + 1) (by omega) ?_
        intro i past few untyped
        refine fits i (by omega) few ?_
        intro j low high
        rcases Nat.eq_or_lt_of_le low with rfl | later
        · exact not_not.mp typed
        · exact untyped j later high

/-- `next_bsd_partition` keeps to the slice. -/
theorem nextBsdPartition_satisfies (fits : FitsBuffer drive) (label : LabelsFit drive state) :
    Satisfies (SameSlice state) (fun after => SameSlice state after ∧
      after.partition = state.partition) (nextBsdPartition drive state) := by
  have sector := fits.sector
  rw [nextBsdPartition]
  rw [LabelsFit] at label
  by_cases first : bsdPartNo state.partition = 0xFF
  · rw [if_pos first] at label ⊢
    split
    · exact .stop ⟨⟨rfl, rfl, rfl, rfl, rfl⟩, rfl⟩
    · next long =>
        refine readBuf_satisfies (by omega) (fun _ => ⟨⟨rfl, rfl, rfl, rfl, rfl⟩, rfl⟩)
          fun bytes reads => ?_
        cases magic : bsdLabelCheckMag (state.buf.fill bytes) with
        | false => exact .stop ⟨⟨rfl, rfl, rfl, rfl, rfl⟩, rfl⟩
        | true =>
            have searched := @searchBsd_satisfies drive
              { state with buf := state.buf.fill bytes } fits.small
              (bsdLabelNparts (state.buf.fill bytes)) 0 rfl
              (label (Nat.le_of_not_lt long) bytes reads magic)
            rw [if_neg (by decide)]
            exact searched
  · rw [if_neg first] at label ⊢
    exact searchBsd_satisfies fits.small _ _ rfl label

/-- Every found entry of the GPT leaves its place, count and size as they are. -/
theorem searchGpt_satisfies {give : PartState → Scan PartState} (left : Nat)
    (fits : 0 < left → state.gptSize ≤ drive.bufSize)
    (gives : ∀ after, after.gptOffset = state.gptOffset → after.gptCount = state.gptCount →
      after.gptSize = state.gptSize → Satisfies found (fun _ => True) (give after)) :
    Satisfies found (fun _ => True) (searchGpt drive give left state) := by
  induction left generalizing state with
  | zero => exact .stop trivial
  | succ left inductionHypothesis =>
      have size := fits (Nat.succ_pos left)
      rw [searchGpt]
      refine readBuf_satisfies size (fun _ => .intro) fun bytes _ => ?_
      dsimp only
      split
      · exact gives _ rfl rfl rfl
      · exact inductionHypothesis (fun _ => size) gives

/-- What a scan keeps: `*entry` is a slot or the start of a table unless the first
table comes next, and the entries of the GPT it is in fit. Where entries are placed a slot
is one of four. -/
structure Bounded (drive : PartDrive) (state : PartState) : Prop where
  low : pcSliceNo state.partition = 0xFF ∨ -1 ≤ state.entry
  entries : state.gptOffset ≠ 0 → 0 < state.gptCount → state.gptSize ≤ drive.bufSize
  slot : EntriesPlaced drive → state.gptOffset = 0 → pcSliceNo state.partition = 0xFF ∨
    state.entry < pcSliceMax

/-- The next slice of a GPT whose entries fit stays in the buffer. -/
theorem nextGptSlice_satisfies (placed : pcSliceNo state.partition = 0xFF ∨ -1 ≤ state.entry)
    (fits : 0 < state.gptCount → state.gptSize ≤ drive.bufSize)
    (inGpt : EntriesPlaced drive → state.gptOffset ≠ 0) :
    Satisfies (Bounded drive) (fun _ => True) (nextGptSlice drive state) := by
  rw [nextGptSlice]
  refine searchGpt_satisfies _ (fun remain => ?_) fun after sameOffset sameCount sameSize => ?_
  · dsimp only at remain
    apply fits
    split at remain
    · omega
    · next later =>
        have low := placed.resolve_left later
        omega
  · dsimp only at sameOffset sameCount sameSize
    refine .found ⟨.inr ?_, fun _ counts => ?_, fun entriesPlaced none_ => ?_⟩
    · dsimp only
      split
      · omega
      · omega
    · dsimp only at counts ⊢
      rw [sameSize]
      rw [sameCount] at counts
      exact fits counts
    · exact absurd (sameOffset.symm.trans none_) (inGpt entriesPlaced)

/-! ## Slices -/

/-- Taking a slot, or going on to the next table. -/
theorem takePcSlot_satisfies {again : PartState → Scan PartState} {no : Int}
    (low : -1 ≤ state.entry) (few : EntriesPlaced drive → state.entry < pcSliceMax)
    (inside : state.entry + 1 = pcSliceMax ∨ 446 + 16 + (state.entry + 1) * 16 ≤ drive.bufSize)
    (goes : ∀ next : PartState, next.entry = -1 →
      Satisfies (Bounded drive) (fun _ => True) (again next)) :
    Satisfies (Bounded drive) (fun _ => True) (takePcSlot drive again no state) := by
  rw [takePcSlot]
  dsimp only
  split
  · split
    · exact .stop trivial
    · exact goes _ rfl
  · next slot =>
      have room := inside.resolve_left slot
      rw [if_neg (by omega)]
      refine .found ⟨.inr (by dsimp only; omega), fun inGpt => absurd rfl inGpt, ?_⟩
      exact fun placed _ => .inr (lt_of_le_of_ne (Int.add_one_le_of_lt (few placed)) slot)

/-- Reading a table. -/
theorem readPcTable_satisfies {again : PartState → Scan PartState} {no : Int}
    (fits : FitsBuffer drive) (low : -1 ≤ state.entry)
    (few : EntriesPlaced drive → state.entry < pcSliceMax)
    (inside : state.entry + 1 = pcSliceMax ∨ 446 + 16 + (state.entry + 1) * 16 ≤ drive.bufSize)
    (goes : ∀ next : PartState, next.entry = -1 →
      Satisfies (Bounded drive) (fun _ => True) (again next)) :
    Satisfies (Bounded drive) (fun _ => True) (readPcTable drive again no state) := by
  have sector := fits.sector
  rw [readPcTable]
  refine readBuf_satisfies (by omega) (fun _ => trivial) fun mbr readsMbr => ?_
  dsimp only
  split
  · exact .stop trivial
  · next signed =>
      split
      · next isGpt =>
          obtain ⟨first, whole, type⟩ := isGpt
          refine readBuf_satisfies (by omega) (fun _ => trivial) fun header reads => ?_
          dsimp only
          cases accepted : (gptHeader ((state.buf.fill mbr).fill header)).accepted with
          | false =>
              rw [if_neg Bool.false_ne_true]
              refine readBuf_satisfies (by omega) (fun _ => trivial) fun table _ => ?_
              exact takePcSlot_satisfies low few inside goes
          | true =>
              have isMbr : drive.rawread 0 0 drive.sectorSize = .ok mbr := by
                rw [← readsMbr, whole]
              have isSigned : pcMbrCheckSig (state.buf.fill mbr) = true := by
                simpa using signed
              have usable : HeaderFits drive (gptHeader ((state.buf.fill mbr).fill header)) :=
                fits.entries mbr header state.buf isMbr isSigned type reads accepted
              rw [if_pos rfl]
              exact nextGptSlice_satisfies (.inr low) usable fun placed =>
                placed mbr header state.buf isMbr isSigned type reads accepted
      · exact takePcSlot_satisfies low few inside goes

/-- `next_pc_slice` -/
theorem nextPcSlice_satisfies (fits : FitsBuffer drive)
    (placed : pcSliceNo state.partition = 0xFF ∨
      -1 ≤ state.entry ∧ (EntriesPlaced drive → state.entry < pcSliceMax) ∧
        (state.entry + 1 = pcSliceMax ∨ 446 + 16 + (state.entry + 1) * 16 ≤ drive.bufSize)) :
    Satisfies (Bounded drive) (fun _ => True) (nextPcSlice drive state) := by
  have large := fits.large
  have call : ∀ {again : PartState → Scan PartState} {state : PartState},
      (pcSliceNo state.partition = 0xFF ∨
        -1 ≤ state.entry ∧ (EntriesPlaced drive → state.entry < pcSliceMax) ∧
          (state.entry + 1 = pcSliceMax ∨ 446 + 16 + (state.entry + 1) * 16 ≤ drive.bufSize)) →
      (∀ next : PartState, next.entry = -1 →
        Satisfies (Bounded drive) (fun _ => True) (again next)) →
      Satisfies (Bounded drive) (fun _ => True) (pcSliceCall drive again state) := by
    intro again state placed goes
    rw [pcSliceCall]
    by_cases first : pcSliceNo state.partition = 0xFF
    · rw [if_pos first]
      exact readPcTable_satisfies fits (Int.le_refl _) (fun _ => (by decide : (-1 : Int) < 4))
        (.inr (by dsimp only; omega)) goes
    · rw [if_neg first]
      obtain ⟨low, few, inside⟩ := placed.resolve_left first
      exact readPcTable_satisfies fits low few inside goes
  refine call placed fun next start => ?_
  refine call (.inr ⟨by omega, fun _ => ?_, by omega⟩) fun _ _ => .stop trivial
  rw [start]
  decide

/-! ## A whole scan -/

/-- Where a scan starts. On a disk that is no hard disk `*gpt_offset` counts. -/
def Fresh (drive : PartDrive) (state : PartState) : Prop :=
  state.partition = 0xFFFFFF ∧ (drive.hardDisk = false → state.gptOffset ≠ 0 →
    0 < state.gptCount → state.gptSize ≤ drive.bufSize)

/-- The number a scan starts with is that of no slice. -/
theorem pcSliceNo_whole (whole : state.partition = 0xFFFFFF) :
    pcSliceNo state.partition = 0xFF := by
  rw [whole]
  decide

/-- Looking into a slice keeps what a scan keeps. -/
theorem Bounded.of_sameSlice {after : PartState}
    (kept : Fresh drive state ∧ drive.hardDisk = false ∨ Bounded drive state)
    (same : SameSlice state after) : Bounded drive after := by
  have bounded : Bounded drive state := by
    rcases kept with ⟨⟨whole, counts⟩, soft⟩ | bounded
    · exact ⟨.inl (pcSliceNo_whole whole), counts soft, fun _ _ => .inl (pcSliceNo_whole whole)⟩
    · exact bounded
  obtain ⟨slice, entry, offset, count, size⟩ := same
  constructor
  · rw [slice, entry]
    exact bounded.low
  · rw [offset, count, size]
    exact bounded.entries
  · rw [slice, entry, offset]
    exact bounded.slot

/-- The states of a scan in which every table at hand fitted so far. The caller may
clear `errnum` between the calls. -/
inductive Scanned (drive : PartDrive) (dest : Nat) (start : PartState) : PartState → Prop where
  | start : Scanned drive dest start start
  | next {state after : PartState} (prior : Scanned drive dest start state)
      (tables : TablesFit drive state) (goes : nextPartition drive dest state = .found after)
      (errnum : GrubError) : Scanned drive dest start { after with errnum }

/-- A step of the scan. -/
theorem nextPartition_satisfies (fits : FitsBuffer drive) (dest : Nat)
    (kept : Fresh drive state ∨ Bounded drive state) (tables : TablesFit drive state) :
    Satisfies (Bounded drive) (fun _ => True) (nextPartition drive dest state) := by
  rw [nextPartition]
  split
  · exact .stop trivial
  · split
    · next inGpt =>
        have bounded := kept.resolve_left fun fresh => inGpt.1 fresh.1
        exact nextGptSlice_satisfies bounded.low (bounded.entries inGpt.2) fun _ => inGpt.2
    · next notGpt =>
        have outside : OutsideGpt state := by
          by_cases whole : state.partition = 0xFFFFFF
          · exact .inl whole
          · exact .inr (not_not.mp fun other => notGpt ⟨whole, other⟩)
        have placed : pcSliceNo state.partition = 0xFF ∨
            -1 ≤ state.entry ∧ (EntriesPlaced drive → state.entry < pcSliceMax) ∧
              (state.entry + 1 = pcSliceMax ∨
                446 + 16 + (state.entry + 1) * 16 ≤ drive.bufSize) := by
          by_cases first : pcSliceNo state.partition = 0xFF
          · exact .inl first
          · have sliced : state.partition ≠ 0xFFFFFF := fun whole => first (pcSliceNo_whole whole)
            rcases kept with fresh | bounded
            · exact absurd fresh.1 sliced
            · refine .inr ⟨bounded.low.resolve_left first, fun placed => ?_,
                tables.slot outside first⟩
              exact (bounded.slot placed (outside.resolve_left sliced)).resolve_left first
        split
        · next bsd =>
            -- A drive without slices is looked at as one FreeBSD slice.
            obtain ⟨typed, isTyped⟩ : ∃ typed, typed = if state.type = pcSliceTypeNone then
                { state with type := pcSliceTypeFreebsd } else state := ⟨_, rfl⟩
            have labels := tables.label outside bsd
            have same : SameSlice state typed ∧ typed.partition = state.partition ∧
                LabelsFit drive typed := by
              rw [isTyped]
              split
              · exact ⟨⟨rfl, rfl, rfl, rfl, rfl⟩, rfl, labels⟩
              · exact ⟨.refl state, rfl, labels⟩
            rw [← isTyped]
            dsimp only
            have found := nextBsdPartition_satisfies fits same.2.2
            cases answer : nextBsdPartition drive typed with
            | fault => exact absurd answer found.runs
            | found after =>
                refine .found (Bounded.of_sameSlice ?_ (same.1.trans (found.of_found answer)))
                rcases kept with fresh | bounded
                · exact .inl ⟨fresh, bsd.resolve_left fun sliced => sliced.1 fresh.1⟩
                · exact .inr bounded
            | stop after =>
                obtain ⟨kept, partition⟩ := found.of_stop answer
                dsimp only
                split
                · exact .stop trivial
                · apply nextPcSlice_satisfies fits
                  dsimp only
                  rw [partition, same.2.1, (same.1.trans kept).2.1]
                  exact placed
        · exact nextPcSlice_satisfies fits placed

/-- What a scan keeps until it ends. -/
theorem Scanned.kept (fits : FitsBuffer drive) {dest : Nat} {start : PartState}
    (fresh : Fresh drive start) (scanned : Scanned drive dest start state) :
    Fresh drive state ∨ Bounded drive state := by
  induction scanned with
  | start => exact .inl fresh
  | next _ tables goes errnum inductionHypothesis =>
      have found := nextPartition_satisfies fits dest inductionHypothesis tables
      have bounded := found.of_found goes
      exact .inr ⟨bounded.low, bounded.entries, bounded.slot⟩

/-- Where entries are placed, the slots a scan looks into fit: there are four of them. -/
theorem Scanned.slot_fits (fits : FitsBuffer drive) (placed : EntriesPlaced drive) {dest : Nat}
    {start : PartState} (fresh : Fresh drive start) (scanned : Scanned drive dest start state)
    (outside : OutsideGpt state) (later : pcSliceNo state.partition ≠ 0xFF) :
    state.entry + 1 = pcSliceMax ∨ 446 + 16 + (state.entry + 1) * 16 ≤ drive.bufSize := by
  have sliced : state.partition ≠ 0xFFFFFF := fun whole => later (pcSliceNo_whole whole)
  have bounded : Bounded drive state :=
    (scanned.kept fits fresh).resolve_left fun fresh => sliced fresh.1
  have few := (bounded.slot placed (outside.resolve_left sliced)).resolve_left later
  have large := fits.large
  rw [pcSliceMax] at few ⊢
  omega

/-- There the labels are all that has to fit. -/
theorem Scanned.tablesFit (fits : FitsBuffer drive) (placed : EntriesPlaced drive) {dest : Nat}
    {start : PartState} (fresh : Fresh drive start) (scanned : Scanned drive dest start state)
    (label : OutsideGpt state →
      (state.partition ≠ 0xFFFFFF ∧ isPcSliceTypeBsd (state.type &&& 0xFF)) ∨
        drive.hardDisk = false → LabelsFit drive state) : TablesFit drive state where
  label := label
  slot := scanned.slot_fits fits placed fresh

end Scans

/-! ## The active flag -/

/-- The size of `mbr` in `make_saved_active`. -/
def mbrSize : Nat := 512

/-- PC_SLICE_FLAG_BOOTABLE -/
def pcSliceFlagBootable : UInt8 := 0x80

/-- Where PC_SLICE_FLAG looks. -/
def pcSliceFlagOffset (part : Nat) : Nat := 446 + part * 16

/-- Only the flag of this slot is set. -/
def setActive (mbr : Buffer) (part : Nat) : Buffer := fun i =>
  if i = pcSliceFlagOffset part then pcSliceFlagBootable
  else if i ∈ (List.range 4).map pcSliceFlagOffset then 0
  else mbr i

/-- How `make_saved_active` ends. A use of `mbr` past its end faults. -/
inductive Activation where
  | done
  | fails (errnum : GrubError)
  | fault
deriving DecidableEq, Repr

/-- `make_saved_active`; `rawwrite` takes a sector from the buffer it is given. -/
def makeSavedActive (drive : PartDrive)
    (rawwrite : (sector : Nat) → List UInt8 → Except GrubError Unit)
    (mbr : Buffer) (savedPartition : Nat) : Activation :=
  if drive.hardDisk then
    let part := savedPartition >>> 16
    if 3 < part then .fails .devValues
    else
      match drive.rawread 0 0 drive.sectorSize with
      | .error errnum => .fails errnum
      | .ok bytes =>
        if mbrSize < drive.sectorSize then .fault
        else
          let mbr := mbr.fill bytes
          if isPcSliceTypeExtended (pcSliceType mbr part) then .fails .devValues
          else if mbr (pcSliceFlagOffset part) ≠ pcSliceFlagBootable then
            match rawwrite 0 ((List.range drive.sectorSize).map (setActive mbr part)) with
            | .error errnum => .fails errnum
            | .ok () => .done
          else .done
  else .fails .devValues

/-- `make_saved_active` leaves its buffer when the sector it reads is longer. -/
theorem makeSavedActive_fault_iff (drive : PartDrive)
    (rawwrite : (sector : Nat) → List UInt8 → Except GrubError Unit)
    (mbr : Buffer) (savedPartition : Nat) :
    makeSavedActive drive rawwrite mbr savedPartition = .fault ↔
      drive.hardDisk = true ∧ savedPartition >>> 16 ≤ 3 ∧
        (∃ bytes, drive.rawread 0 0 drive.sectorSize = .ok bytes) ∧
          mbrSize < drive.sectorSize := by
  rw [makeSavedActive]
  by_cases hard : drive.hardDisk = true
  · rw [if_pos hard]
    dsimp only
    by_cases primary : 3 < savedPartition >>> 16
    · rw [if_pos primary]
      constructor
      · intro faults
        cases faults
      · rintro ⟨_, small, _⟩
        omega
    · rw [if_neg primary]
      cases answer : drive.rawread 0 0 drive.sectorSize with
      | error errnum =>
          constructor
          · intro faults
            cases faults
          · rintro ⟨_, _, ⟨bytes, reads⟩, _⟩
            cases reads
      | ok bytes =>
          dsimp only
          by_cases large : mbrSize < drive.sectorSize
          · rw [if_pos large]
            exact iff_of_true rfl ⟨hard, Nat.le_of_not_lt primary, ⟨bytes, rfl⟩, large⟩
          · rw [if_neg large]
            refine iff_of_false ?_ fun held => large held.2.2.2
            -- From here on `make_saved_active` only returns.
            split
            · exact nofun
            · split
              · split
                · exact nofun
                · exact nofun
              · exact nofun
  · rw [if_neg hard]
    exact iff_of_false nofun fun held => hard held.1

/-! ## The buffers of the callers -/

/-- In a scan whose labels and slots fit, of a disk whose sectors and GPT entries
fit, no call leaves the buffer. -/
theorem nextPartition_stays_in_buffer (drive : PartDrive) :
    (∀ (dest : Nat) (start state : PartState), FitsBuffer drive →
      Fresh drive start → Scanned drive dest start state → TablesFit drive state →
        nextPartition drive dest state ≠ .fault) ∧
    ∀ (rawwrite : (sector : Nat) → List UInt8 → Except GrubError Unit)
      (mbr : Buffer) (savedPartition : Nat),
      makeSavedActive drive rawwrite mbr savedPartition ≠ .fault ↔
        (drive.hardDisk = true → savedPartition >>> 16 ≤ 3 →
          (∃ bytes, drive.rawread 0 0 drive.sectorSize = .ok bytes) →
            drive.sectorSize ≤ mbrSize) := by
  constructor
  · intro dest start state fits fresh scanned tables
    exact (nextPartition_satisfies fits dest (scanned.kept fits fresh) tables).runs
  · intro rawwrite mbr savedPartition
    rw [ne_eq, makeSavedActive_fault_iff]
    constructor
    · intro apart hard primary reads
      exact Nat.le_of_not_lt fun large => apart ⟨hard, primary, reads, large⟩
    · rintro fits ⟨hard, primary, reads, large⟩
      exact Nat.not_lt.mpr (fits hard primary reads) large

section Labels

variable {drive : PartDrive} {dest : Nat} {start state : PartState}

/-- The label in the buffer, and one that is read for the slice, list 22 partitions at most. -/
structure FewParts (drive : PartDrive) (state : PartState) : Prop where
  held : bsdLabelNparts state.buf ≤ 22
  read : ∀ bytes,
    drive.rawread ((state.start + bsdLabelSector) % 2 ^ 32) 0 drive.sectorSize = .ok bytes →
      bsdLabelNparts (state.buf.fill bytes) ≤ 22

/-- Labels of 22 partitions fit into any buffer. -/
theorem FewParts.labelsFit (few : FewParts drive state) (fits : FitsBuffer drive) :
    LabelsFit drive state := by
  have large := fits.large
  have fit (buf : Buffer) (few : bsdLabelNparts buf ≤ 22) (first : Nat) :
      LabelFits drive buf first := by
    intro i _ listed _
    rw [bsdPartTypeOffset]
    omega
  rw [LabelsFit]
  split
  · exact fun _ bytes reads _ => fit _ (few.read bytes reads) 0
  · exact fit _ few.held _

/-- The state that a call leaves when it finds something. -/
def afterCall (drive : PartDrive) (dest : Nat) (state : PartState) : PartState :=
  match nextPartition drive dest state with
  | .found after => after
  | _ => state

/-- Whether it does. -/
def finds : Scan State → Bool
  | .found _ => true
  | _ => false

/-- A call that finds something leads on. -/
theorem Scanned.call (prior : Scanned drive dest start state) (tables : TablesFit drive state)
    (found : finds (nextPartition drive dest state) = true) :
    Scanned drive dest start (afterCall drive dest state) := by
  rw [afterCall]
  cases goes : nextPartition drive dest state with
  | found after => exact .next prior tables goes after.errnum
  | stop after =>
      rw [goes] at found
      cases found
  | fault =>
      rw [goes] at found
      cases found

end Labels

/-- The first slice of the disk is of a BSD type. -/
theorem bsdDrive_notGpt {mbr : List UInt8} {buf : Buffer}
    (reads : bsdDrive.rawread 0 0 bsdDrive.sectorSize = .ok mbr) :
    pcSliceType (buf.fill mbr) 0 ≠ pcSliceTypeGpt := by
  obtain rfl := Except.ok.inj reads
  rw [pcSliceType, fill_byte (by decide +kernel)]
  decide +kernel

/-- Its sectors fit into the buffer, -/
theorem bsdDrive_fits : FitsBuffer bsdDrive where
  large := by decide
  small := by decide
  sector := by decide
  entries := fun _ _ _ reads _ type => absurd type (bsdDrive_notGpt reads)

/-- and it has no GPT entries. -/
theorem bsdDrive_placed : EntriesPlaced bsdDrive :=
  fun _ _ _ reads _ type => absurd type (bsdDrive_notGpt reads)

/-- The calls of a scan of the disk. -/
def bsdCalls : Nat → PartState
  | 0 => walkStart
  | calls + 1 => afterCall bsdDrive 0xFFFFFF (bsdCalls calls)

/-- The sector in which a slice of the disk has its label. -/
def labelRead (state : PartState) : List UInt8 :=
  (bsdDrive.rawread ((state.start + bsdLabelSector) % 2 ^ 32) 0 bsdDrive.sectorSize).toOption.getD []

/-- It is what is read for the label. -/
theorem labelRead_eq {state : PartState} {bytes : List UInt8}
    (reads : bsdDrive.rawread ((state.start + bsdLabelSector) % 2 ^ 32) 0 bsdDrive.sectorSize =
      .ok bytes) : labelRead state = bytes := by
  rw [labelRead, reads]
  rfl

/-- The scan that finds both slices and the partition of the first goes on to the label of
the second, and stays in the buffer. -/
theorem bsdDrive_stays_in_buffer :
    nextPartition bsdDrive 0xFFFFFF (bsdCalls 3) ≠ .fault := by
  have fresh : Fresh bsdDrive walkStart := ⟨rfl, by decide⟩
  have fit {state : PartState} (scanned : Scanned bsdDrive 0xFFFFFF walkStart state)
      (few : FewParts bsdDrive state) : TablesFit bsdDrive state :=
    scanned.tablesFit bsdDrive_fits bsdDrive_placed fresh fun _ _ => few.labelsFit bsdDrive_fits
  have few (calls : Nat) (held : bsdLabelNparts (bsdCalls calls).buf ≤ 22)
      (read : bsdLabelNparts ((bsdCalls calls).buf.fill (labelRead (bsdCalls calls))) ≤ 22) :
      FewParts bsdDrive (bsdCalls calls) :=
    ⟨held, fun bytes reads => by rwa [labelRead_eq reads] at read⟩
  have first := fit .start (few 0 (by decide +kernel) (by decide +kernel))
  have slice : Scanned bsdDrive 0xFFFFFF walkStart (bsdCalls 1) :=
    Scanned.start.call first (by decide +kernel)
  have second := fit slice (few 1 (by decide +kernel) (by decide +kernel))
  have partition : Scanned bsdDrive 0xFFFFFF walkStart (bsdCalls 2) :=
    slice.call second (by decide +kernel)
  have third := fit partition (few 2 (by decide +kernel) (by decide +kernel))
  have next : Scanned bsdDrive 0xFFFFFF walkStart (bsdCalls 3) :=
    partition.call third (by decide +kernel)
  have fourth := fit next (few 3 (by decide +kernel) (by decide +kernel))
  exact (nextPartition_stays_in_buffer bsdDrive).1 0xFFFFFF walkStart (bsdCalls 3) bsdDrive_fits
    fresh next fourth

/-- A disk of 4096-byte sectors, walked by `set_partition_hidden_flag`. -/
def longSectorDrive : PartDrive :=
  { sectorDrive [] with sectorSize := 4096, sectorBits := 12, bufSize := 512 }

/-- A slice with a label of 255 unused partitions. -/
def longLabelDrive : PartDrive :=
  { sectorDrive [(0, tableSector [⟨0xA5, 1, 1000⟩, ⟨0, 0, 0⟩, ⟨0, 0, 0⟩, ⟨0, 0, 0⟩]),
      (2, [0x57, 0x45, 0x56, 0x82] ++ List.replicate 134 0 ++ [0xFF, 0] ++ List.replicate 372 0)]
    with bufSize := 512 }

/-- Sectors longer than the buffer, and a label that counts partitions behind it. -/
theorem nextPartition_leaves_buffer :
    nextPartition longSectorDrive 0xFFFFFF walkStart = .fault ∧
      (match nextPartition longLabelDrive 0xFFFFFF walkStart with
        | .found slice => nextPartition longLabelDrive 0xFFFFFF slice
        | .stop state => .stop state
        | .fault => .stop walkStart) = .fault ∧
      makeSavedActive longSectorDrive (fun _ _ => .ok ()) (fun _ => 0) 0xFFFF = .fault := by
  refine ⟨rfl, ?_, ?_⟩
  · apply eq_fault_of_faults
    decide +kernel
  · decide +kernel

end GrubLegacy.Partition
