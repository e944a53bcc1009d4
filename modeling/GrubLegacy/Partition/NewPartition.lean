import GrubLegacy.Base.ByteArea
import GrubLegacy.DiskIo.EfiDisk
import GrubLegacy.DiskIo.SetDevice
import GrubLegacy.Menu.Builtins
import GrubLegacy.Partition.SliceTables

/-!
# A new primary partition

`partnew_func` of `builtins.c` describes a slot of the MBR twice, by its first sector and
length and by cylinder, head and sector of its ends. A cylinder takes ten bits there, and
is cut off at the number of cylinders the disk is said to have.
-/

namespace GrubLegacy.Partition

open Base Stage2 DiskIo Menu CStrings

/-! ## What the command does -/

/-- What `lba_to_chs` stores. -/
structure Chs where
  cl : Nat
  ch : Nat
  dh : Nat
deriving DecidableEq, Repr

/-- `lba_to_chs`. The cylinder is an `int`, its 32 bits are kept here. -/
def lbaToChs (geometry : Geometry) (lba : Int) : Chs :=
  let lba := toUInt32 lba
  let sector := lba % geometry.sectors.toNat + 1
  let head := lba / geometry.sectors.toNat % geometry.heads.toNat
  let cylinder := lba / toUInt32 (geometry.sectors * geometry.heads)
  let cylinder :=
    if geometry.cylinders.toNat ≤ cylinder then toUInt32 (geometry.cylinders - 1) else cylinder
  { cl := sector ||| (cylinder &&& 0x300) >>> 2
    ch := cylinder &&& 0xFF
    dh := head }

/-- What the command is given: the drive, the slot, and three numbers. -/
structure PartnewRequest where
  drive : Nat
  entry : Nat
  newType : Nat
  newStart : Nat
  newLen : Nat
deriving DecidableEq, Repr

/-- The parser takes numbers up to MAXINT, and the command one of four slots and a type of
one byte. -/
structure PartnewRequest.Accepted (request : PartnewRequest) : Prop where
  entry : request.entry ≤ 3
  newType : request.newType ≤ 0xFF
  newStart : request.newStart ≤ maxint
  newLen : request.newLen ≤ maxint

/-- The 16 bytes of a slot: the flag, the start by `lba_to_chs`, the type, the end by
`lba_to_chs`, and first sector and length. -/
def slotBytes (geometry : Geometry) (request : PartnewRequest) : List UInt8 :=
  let start := lbaToChs geometry request.newStart
  let last := lbaToChs geometry (toInt32 (request.newStart + request.newLen - 1))
  [0, UInt8.ofNat start.dh, UInt8.ofNat start.cl, UInt8.ofNat start.ch,
    UInt8.ofNat request.newType, UInt8.ofNat last.dh, UInt8.ofNat last.cl, UInt8.ofNat last.ch] ++
      wordBytes request.newStart ++ wordBytes request.newLen

/-- PC_MBR_SIGNATURE -/
def signatureBytes : List UInt8 := [0x55, 0xaa]

/-- PC_SLICE_OFFSET, and where the signature is. -/
def slotOffset (entry : Nat) : Nat := 446 + entry * 16

def signatureOffset : Nat := 510

/-- From the check whether the partition fits to the stores to the MBR. The sum is an `int`,
and compared as an `unsigned long`. -/
def partnewMbr (geometry : Geometry) (mbr : Buffer) (request : PartnewRequest) :
    Except GrubError Buffer :=
  if geometry.totalSectors < toUInt32 (toInt32 (request.newStart + request.newLen)) then
    .error .geom
  else
    .ok (copyIn (copyIn mbr (slotOffset request.entry) (areaOf (slotBytes geometry request)) 0 16)
      signatureOffset (areaOf signatureBytes) 0 2)

/-- A number of the command line that a word precedes. -/
def nextNumber (arg : List UInt8) : Except GrubError (Nat × List UInt8) :=
  match safeParseMaxint (skipTo false arg) with
  | none => .error (maxintError (skipTo false arg))
  | some number => .ok number

/-- The part of `partnew_func` before it reads the MBR. -/
def parsePartnew (globals : DeviceGlobals) (errnum : GrubError) (arg : List UInt8) :
    Except GrubError PartnewRequest := do
  let (device, state) := setDevice globals errnum arg
  if device = none then throw state.errnum
  if !hasBit7 state.currentDrive then throw .badArgument
  if 3 < state.currentPartition >>> 16 ∨ state.currentPartition &&& 0xFFFF ≠ 0xFFFF then
    throw .badArgument
  let (newType, arg) ← nextNumber arg
  if 0xFF < newType then throw .badArgument
  let (newStart, arg) ← nextNumber arg
  let (newLen, _) ← nextNumber arg
  return {
    drive := state.currentDrive
    entry := state.currentPartition >>> 16
    newType, newStart, newLen }

/-- `partnew_func` -/
def partnewFunc {World : Type} (service : DiskService World) (globals : DeviceGlobals)
    (arg : List UInt8) (state : DiskState World) : Int × DiskState World :=
  match parsePartnew globals state.errnum arg with
  | .error errnum => (1, { state with errnum })
  | .ok request =>
    let read := DiskIo.rawread service state request.drive 0 0
      (service.getSectorSize state.world request.drive)
    if read.value = 0 then (1, read.state)
    else
      match partnewMbr read.state.bufGeom (areaOf read.bytes) request with
      | .error errnum => (1, { read.state with errnum })
      | .ok mbr =>
        let stored := rawwrite service { read.state with bufTrack := -1 } request.drive 0
          fun i => mbr i.toNat
        (if stored.1 = 0 then 1 else 0, stored.2)

/-! ## What it is for -/

/-- A geometry with tracks of 63 sectors, as `get_diskinfo` makes them. -/
structure TrackGeometry where
  cylinders : Nat
  heads : Nat
  totalSectors : Nat
  sectorSize : Int
  flags : Int
  cylinders_lt : cylinders < 2 ^ 32
  heads_pos : 0 < heads
  heads_lt : 63 * heads < 2 ^ 32
  totalSectors_lt : totalSectors < 2 ^ 32

def TrackGeometry.geometry (disk : TrackGeometry) : Geometry :=
  { cylinders := disk.cylinders
    heads := disk.heads
    sectors := 63
    totalSectors := disk.totalSectors
    sectorSize := disk.sectorSize
    flags := disk.flags }

/-- What the three bytes of an end say. -/
structure ChsAddress where
  cylinder : Nat
  head : Nat
  sector : Nat
deriving DecidableEq, Repr

/-- The bytes of head, sector and cylinder, the upper bits of the cylinder in the second. -/
def chsAddress (mbr : Buffer) (offset : Nat) : ChsAddress :=
  { cylinder := mbr.byte (offset + 1) / 64 * 256 + mbr.byte (offset + 2)
    head := mbr.byte offset
    sector := mbr.byte (offset + 1) % 64 }

/-- PC_SLICE_HEAD to PC_SLICE_CYL -/
def startAddress (mbr : Buffer) (part : Nat) : ChsAddress := chsAddress mbr (slotOffset part + 1)

/-- PC_SLICE_EHEAD to PC_SLICE_ECYL -/
def endAddress (mbr : Buffer) (part : Nat) : ChsAddress := chsAddress mbr (slotOffset part + 5)

/-- The sector of an address. -/
def ChsAddress.lba (address : ChsAddress) (heads : Nat) : Nat :=
  (address.cylinder * heads + address.head) * 63 + address.sector - 1

/-- The largest cylinder an address can have. -/
def maxCylinder : Nat := 1023

/-- The cylinder of a sector. -/
def TrackGeometry.cylinderOf (disk : TrackGeometry) (sector : Nat) : Nat :=
  sector / (63 * disk.heads)

/-- An address means a sector, or is cut off at the largest cylinder. -/
def Means (disk : TrackGeometry) (address : ChsAddress) (sector : Nat) : Prop :=
  if disk.cylinderOf sector ≤ maxCylinder then address.lba disk.heads = sector
  else address.cylinder = maxCylinder

/-- The new MBR describes the partition that was asked for, and nothing else is changed. -/
structure Describes (disk : TrackGeometry) (mbr after : Buffer) (request : PartnewRequest) :
    Prop where
  nonempty : 0 < request.newLen
  fits : request.newStart + request.newLen ≤ disk.totalSectors
  others : ∀ i, (i < slotOffset request.entry ∨ slotOffset request.entry + 16 ≤ i) →
    (i < signatureOffset ∨ signatureOffset + 2 ≤ i) → after i = mbr i
  signature : pcMbrCheckSig after = true
  slot : slot after request.entry = ⟨request.newType, request.newStart, request.newLen⟩
  start : Means disk (startAddress after request.entry) request.newStart
  last : Means disk (endAddress after request.entry) (request.newStart + request.newLen - 1)

/-- Head and cylinder of a sector can be stored. The cylinder is not cut off at 1023, but
at the last one of the disk, and taken modulo 1024. -/
def Storable (disk : TrackGeometry) (sector : Nat) : Prop :=
  if disk.cylinderOf sector ≤ maxCylinder then
    sector / 63 % disk.heads < 256 ∧
      (disk.cylinderOf sector < disk.cylinders ∨
        disk.cylinders = 0 ∧ disk.cylinderOf sector = maxCylinder)
  else if disk.cylinderOf sector < disk.cylinders then
    disk.cylinderOf sector % 1024 = maxCylinder
  else disk.cylinders % 1024 = 0

/-- The geometry of a medium is one of these. -/
theorem exists_trackGeometry (media : BlockMedia) :
    ∃ disk : TrackGeometry, disk.geometry = media.geometry := by
  have total_lt := toUInt32_lt (media.lastBlock + 1)
  by_cases few : toUInt32 (media.lastBlock + 1) / 63 < 255
  · refine ⟨⟨toUInt32 (media.lastBlock + 1) / 63, 1, toUInt32 (media.lastBlock + 1),
      media.blockSize, 1, by omega, by omega, by omega, total_lt⟩, ?_⟩
    simp [TrackGeometry.geometry, BlockMedia.geometry, few]
  · refine ⟨⟨toUInt32 (media.lastBlock + 1) / 63 / 255, 255, toUInt32 (media.lastBlock + 1),
      media.blockSize, 1, by omega, by omega, by omega, total_lt⟩, ?_⟩
    simp [TrackGeometry.geometry, BlockMedia.geometry, few]

/-- A number of the command line is MAXINT at most. -/
theorem nextNumber_le {arg : List UInt8} {number : Nat × List UInt8}
    (parses : nextNumber arg = .ok number) : number.1 ≤ maxint := by
  rw [nextNumber] at parses
  cases found : safeParseMaxint (skipTo false arg) with
  | none => simp [found] at parses
  | some read =>
      rw [found] at parses
      obtain rfl := Except.ok.inj parses
      exact safeParseMaxint_le found

/-- What is parsed is accepted. -/
theorem accepted_of_parse {globals : DeviceGlobals} {errnum : GrubError} {arg : List UInt8}
    {request : PartnewRequest} (parses : parsePartnew globals errnum arg = .ok request) :
    request.Accepted := by
  simp only [parsePartnew, bind, Except.bind, pure, Except.pure, throw, throwThe,
    MonadExceptOf.throw] at parses
  split at parses
  · cases parses
  · split at parses
    · cases parses
    · split at parses
      · cases parses
      · next primary =>
          split at parses
          · cases parses
          · next newType isType =>
              split at parses
              · cases parses
              · next oneByte =>
                  split at parses
                  · cases parses
                  · next newStart isStart =>
                      split at parses
                      · cases parses
                      · next newLen isLen =>
                          obtain rfl := Except.ok.inj parses
                          exact {
                            entry := Nat.le_of_not_lt fun logical => primary (.inl logical)
                            newType := Nat.le_of_not_lt oneByte
                            newStart := nextNumber_le isStart
                            newLen := nextNumber_le isLen }

/-! ## The bytes of an address -/

section Address

variable {disk : TrackGeometry} {mbr after : Buffer} {request : PartnewRequest} {sector : Nat}

/-- The two upper bits of a cylinder go where a sector of 63 has none. -/
theorem upperBits_eq (cylinder : Nat) : (cylinder &&& 0x300) >>> 2 = 64 * (cylinder / 256 % 4) := by
  have parts : cylinder &&& 0x300 = 256 * (cylinder / 256 % 4) := by
    apply Nat.eq_of_testBit_eq
    intro i
    rw [show (0x300 : Nat) = 2 ^ 8 * (2 ^ 2 - 1) from rfl,
      show 256 * (cylinder / 256 % 4) = 2 ^ 8 * (cylinder / 2 ^ 8 % 2 ^ 2) from rfl,
      Nat.testBit_and, Nat.testBit_two_pow_mul, Nat.testBit_two_pow_mul,
      Nat.testBit_two_pow_sub_one, Nat.testBit_mod_two_pow, Nat.testBit_div_two_pow]
    by_cases high : 8 ≤ i
    · simp [high, Bool.and_comm]
    · simp [high]
  rw [parts, Nat.shiftRight_eq_div_pow]
  omega

/-- Sector and upper bits of the cylinder share a byte. -/
theorem sectorBits_eq {number : Nat} (small : number < 64) (cylinder : Nat) :
    number ||| (cylinder &&& 0x300) >>> 2 = 64 * (cylinder / 256 % 4) + number := by
  rw [upperBits_eq, Nat.or_comm]
  exact (Nat.two_pow_add_eq_or_of_lt (i := 6) small _).symm

/-- The cylinder that is stored. -/
def storedCylinder (disk : TrackGeometry) (sector : Nat) : Nat :=
  if disk.cylinders ≤ disk.cylinderOf sector then (disk.cylinders + (2 ^ 32 - 1)) % 2 ^ 32
  else disk.cylinderOf sector

/-- What is stored for a sector. -/
theorem lbaToChs_eq {lba : Int} (isSector : toUInt32 lba = sector) :
    lbaToChs disk.geometry lba =
      { cl := 64 * (storedCylinder disk sector / 256 % 4) + (sector % 63 + 1)
        ch := storedCylinder disk sector % 256
        dh := sector / 63 % disk.heads } := by
  have product : toUInt32 (63 * (disk.heads : Int)) = 63 * disk.heads := by
    exact_mod_cast toUInt32_of_range disk.heads_lt
  have before : toUInt32 ((disk.cylinders : Int) - 1) = (disk.cylinders + (2 ^ 32 - 1)) % 2 ^ 32 := by
    have small := disk.cylinders_lt
    unfold toUInt32
    omega
  have number_lt : sector % 63 + 1 < 64 := by omega
  have low : ∀ number : Nat, number &&& 0xFF = number % 256 := Nat.and_two_pow_sub_one_eq_mod (n := 8)
  simp only [lbaToChs, TrackGeometry.geometry, isSector, product, before, Int.toNat_natCast,
    show (63 : Int).toNat = 63 from rfl, sectorBits_eq number_lt, low, storedCylinder,
    TrackGeometry.cylinderOf]
  rfl

/-- What an address of these bytes says. -/
theorem storedAddress_eq {buf : Buffer} {offset : Nat} {lba : Int}
    (isSector : toUInt32 lba = sector)
    (head : buf offset = UInt8.ofNat (lbaToChs disk.geometry lba).dh)
    (cl : buf (offset + 1) = UInt8.ofNat (lbaToChs disk.geometry lba).cl)
    (ch : buf (offset + 2) = UInt8.ofNat (lbaToChs disk.geometry lba).ch) :
    chsAddress buf offset =
      { cylinder := storedCylinder disk sector % 1024
        head := sector / 63 % disk.heads % 256
        sector := sector % 63 + 1 } := by
  rw [lbaToChs_eq isSector] at head cl ch
  simp only [chsAddress, Area.byte, head, cl, ch, UInt8.toNat_ofNat', ChsAddress.mk.injEq]
  refine ⟨?_, trivial, ?_⟩
  · omega
  · omega

/-- Cylinder and head of a sector are the only ones with its track. -/
theorem track_eq_iff {cylinder head : Nat} (inside : head < disk.heads) :
    cylinder * disk.heads + head = sector / 63 ↔
      cylinder = disk.cylinderOf sector ∧ head = sector / 63 % disk.heads := by
  rw [TrackGeometry.cylinderOf, ← Nat.div_div_eq_div_mul]
  constructor
  · intro same
    rw [← same, Nat.mul_comm, Nat.mul_add_div disk.heads_pos, Nat.mul_add_mod,
      Nat.div_eq_of_lt inside, Nat.mod_eq_of_lt inside]
    exact ⟨rfl, rfl⟩
  · rintro ⟨rfl, rfl⟩
    exact Nat.div_add_mod' _ _

/-- The cylinder that is stored is the right one. -/
theorem storedCylinder_iff (low : disk.cylinderOf sector ≤ maxCylinder) :
    storedCylinder disk sector % 1024 = disk.cylinderOf sector ↔
      disk.cylinderOf sector < disk.cylinders ∨
        disk.cylinders = 0 ∧ disk.cylinderOf sector = maxCylinder := by
  have small := disk.cylinders_lt
  rw [storedCylinder]
  rw [maxCylinder] at *
  split
  · omega
  · omega

/-- A sector is stored as it should be just when it can be. -/
theorem means_iff : Means disk
    { cylinder := storedCylinder disk sector % 1024
      head := sector / 63 % disk.heads % 256
      sector := sector % 63 + 1 } sector ↔ Storable disk sector := by
  have inside : sector / 63 % disk.heads < disk.heads := Nat.mod_lt _ disk.heads_pos
  have inside' : sector / 63 % disk.heads % 256 < disk.heads :=
    Nat.lt_of_le_of_lt (Nat.mod_le _ _) inside
  rw [Means, Storable]
  split
  · next low =>
      rw [ChsAddress.lba]
      dsimp only
      have sameTrack : (storedCylinder disk sector % 1024 * disk.heads +
          sector / 63 % disk.heads % 256) * 63 + (sector % 63 + 1) - 1 = sector ↔
            storedCylinder disk sector % 1024 * disk.heads +
              sector / 63 % disk.heads % 256 = sector / 63 := by
        omega
      have sameHead : sector / 63 % disk.heads % 256 = sector / 63 % disk.heads ↔
          sector / 63 % disk.heads < 256 := by
        omega
      rw [sameTrack, track_eq_iff inside', storedCylinder_iff low, sameHead, and_comm]
  · next high =>
      have small := disk.cylinders_lt
      rw [storedCylinder]
      rw [maxCylinder] at *
      split
      · rw [if_neg (by omega)]
        dsimp only
        omega
      · rw [if_pos (by omega)]

/-! ## The stores to the MBR -/

/-- The sum of start and length is taken as it is. -/
theorem sum_eq (accepted : request.Accepted) :
    toUInt32 (toInt32 (request.newStart + request.newLen)) =
      request.newStart + request.newLen := by
  have newStart := accepted.newStart
  have newLen := accepted.newLen
  rw [maxint] at newStart newLen
  unfold toUInt32 toInt32
  omega

/-- And so is its last sector. -/
theorem last_eq (accepted : request.Accepted) (nonempty : 0 < request.newLen) :
    toUInt32 (toInt32 (request.newStart + request.newLen - 1)) =
      request.newStart + request.newLen - 1 := by
  have newStart := accepted.newStart
  have newLen := accepted.newLen
  rw [maxint] at newStart newLen
  unfold toUInt32 toInt32
  omega

/-- The MBR with the new slot. -/
def newMbr (geometry : Geometry) (mbr : Buffer) (request : PartnewRequest) : Buffer :=
  copyIn (copyIn mbr (slotOffset request.entry) (areaOf (slotBytes geometry request)) 0 16)
    signatureOffset (areaOf signatureBytes) 0 2

/-- It is written just when the partition ends on the disk. -/
theorem partnewMbr_eq_ok_iff (accepted : request.Accepted) :
    partnewMbr disk.geometry mbr request = .ok after ↔
      request.newStart + request.newLen ≤ disk.totalSectors ∧
        after = newMbr disk.geometry mbr request := by
  rw [partnewMbr, sum_eq accepted]
  simp only [TrackGeometry.geometry, Nat.cast_lt]
  split
  · next long =>
      simp only [reduceCtorEq, false_iff, not_and]
      intro fits
      exact absurd long (Nat.not_lt.mpr fits)
  · next fits =>
      simp [Nat.le_of_not_lt fits, newMbr, eq_comm]

/-- The bytes of the slot are the new ones. -/
theorem newMbr_slot {geometry : Geometry} (accepted : request.Accepted) {i : Nat}
    (inside : i < 16) : newMbr geometry mbr request (slotOffset request.entry + i) =
      areaOf (slotBytes geometry request) i := by
  have primary := accepted.entry
  rw [newMbr, copyIn_outside, copyIn_inside]
  · simp
  · omega
  · omega
  · rw [slotOffset, signatureOffset]
    omega

/-- Other bytes of the MBR are as they were. -/
theorem newMbr_other {geometry : Geometry} {i : Nat}
    (apart : i < slotOffset request.entry ∨ slotOffset request.entry + 16 ≤ i)
    (apart' : i < signatureOffset ∨ signatureOffset + 2 ≤ i) :
    newMbr geometry mbr request i = mbr i := by
  rw [newMbr, copyIn_outside apart', copyIn_outside apart]

/-- The new MBR has the signature. -/
theorem newMbr_signature {geometry : Geometry} :
    pcMbrCheckSig (newMbr geometry mbr request) = true := by
  have first : newMbr geometry mbr request 510 = 0x55 := by
    rw [newMbr, copyIn_inside (by decide) (by decide)]
    rfl
  have second : newMbr geometry mbr request 511 = 0xaa := by
    rw [newMbr, copyIn_inside (by decide) (by decide)]
    rfl
  simp [pcMbrCheckSig, Area.word16, Area.byte, first, second]

/-- The slot is read as it was asked for. -/
theorem newMbr_slot_eq {geometry : Geometry} (accepted : request.Accepted) :
    slot (newMbr geometry mbr request) request.entry =
      ⟨request.newType, request.newStart, request.newLen⟩ := by
  have bytes : ∀ i < 16, newMbr geometry mbr request (446 + request.entry * 16 + i) =
      areaOf (slotBytes geometry request) i := fun i inside => newMbr_slot accepted inside
  have isType : newMbr geometry mbr request (446 + 4 + request.entry * 16) =
      UInt8.ofNat request.newType := by
    rw [show 446 + 4 + request.entry * 16 = 446 + request.entry * 16 + 4 by omega]
    exact bytes 4 (by decide)
  have newType := accepted.newType
  have newStart := accepted.newStart
  have newLen := accepted.newLen
  rw [maxint] at newStart newLen
  have isStart : pcSliceStart (newMbr geometry mbr request) request.entry = request.newStart := by
    refine word32_of_bytes (by omega) ?_
    intro i inside
    rw [show 446 + 8 + request.entry * 16 + i = 446 + request.entry * 16 + (8 + i) by omega,
      bytes (8 + i) (by omega)]
    have cases : i = 0 ∨ i = 1 ∨ i = 2 ∨ i = 3 := by omega
    rcases cases with rfl | rfl | rfl | rfl <;> rfl
  have isLength : pcSliceLength (newMbr geometry mbr request) request.entry = request.newLen := by
    refine word32_of_bytes (by omega) ?_
    intro i inside
    rw [show 446 + 12 + request.entry * 16 + i = 446 + request.entry * 16 + (12 + i) by omega,
      bytes (12 + i) (by omega)]
    have cases : i = 0 ∨ i = 1 ∨ i = 2 ∨ i = 3 := by omega
    rcases cases with rfl | rfl | rfl | rfl <;> rfl
  simp only [slot, isStart, isLength, pcSliceType, Area.byte, isType, UInt8.toNat_ofNat']
  rw [Nat.mod_eq_of_lt (by omega)]

/-- The address of the start means the first sector just when this can be stored. -/
theorem means_start_iff (accepted : request.Accepted) :
    Means disk (startAddress (newMbr disk.geometry mbr request) request.entry) request.newStart ↔
      Storable disk request.newStart := by
  have newStart := accepted.newStart
  rw [maxint] at newStart
  have address : startAddress (newMbr disk.geometry mbr request) request.entry = _ :=
    storedAddress_eq (@toUInt32_of_range request.newStart (by omega))
      (newMbr_slot (i := 1) accepted (by decide)) (newMbr_slot (i := 2) accepted (by decide))
      (newMbr_slot (i := 3) accepted (by decide))
  rw [address]
  exact means_iff

/-- The address of the end means the last sector just when this can be stored. -/
theorem means_end_iff (accepted : request.Accepted) (nonempty : 0 < request.newLen) :
    Means disk (endAddress (newMbr disk.geometry mbr request) request.entry)
        (request.newStart + request.newLen - 1) ↔
      Storable disk (request.newStart + request.newLen - 1) := by
  have address : endAddress (newMbr disk.geometry mbr request) request.entry = _ :=
    storedAddress_eq (last_eq accepted nonempty)
      (newMbr_slot (i := 5) accepted (by decide)) (newMbr_slot (i := 6) accepted (by decide))
      (newMbr_slot (i := 7) accepted (by decide))
  rw [address]
  exact means_iff

/-- The new MBR of a partition that ends on the disk describes it, just when the partition is
not empty and both its ends can be stored. -/
theorem newMbr_describes_iff (accepted : request.Accepted)
    (fits : request.newStart + request.newLen ≤ disk.totalSectors) :
    Describes disk mbr (newMbr disk.geometry mbr request) request ↔
      0 < request.newLen ∧ Storable disk request.newStart ∧
        Storable disk (request.newStart + request.newLen - 1) := by
  constructor
  · intro described
    have nonempty := described.nonempty
    exact ⟨nonempty, (means_start_iff accepted).mp described.start,
      (means_end_iff accepted nonempty).mp described.last⟩
  · rintro ⟨nonempty, first, last⟩
    exact {
      nonempty := nonempty
      fits := fits
      others := fun _ apart apart' => newMbr_other apart apart'
      signature := newMbr_signature
      slot := newMbr_slot_eq accepted
      start := (means_start_iff accepted).mpr first
      last := (means_end_iff accepted nonempty).mpr last }

/-- Whatever is written describes the partition, just when a partition that ends on the disk
is not empty and both its ends can be stored. -/
theorem describes_iff (disk : TrackGeometry) (mbr : Buffer)
    (request : {request : PartnewRequest // request.Accepted}) :
    (∀ after, partnewMbr disk.geometry mbr request = .ok after →
      Describes disk mbr after request) ↔
        (request.1.newStart + request.1.newLen ≤ disk.totalSectors →
          0 < request.1.newLen ∧ Storable disk request.1.newStart ∧
            Storable disk (request.1.newStart + request.1.newLen - 1)) := by
  obtain ⟨request, accepted⟩ := request
  dsimp only
  constructor
  · intro describes fits
    have described := describes _ ((partnewMbr_eq_ok_iff accepted).mpr ⟨fits, rfl⟩)
    exact (newMbr_describes_iff accepted fits).mp described
  · intro storable after written
    obtain ⟨fits, rfl⟩ := (partnewMbr_eq_ok_iff accepted).mp written
    exact (newMbr_describes_iff accepted fits).mpr (storable fits)

end Address

section Command

variable {World : Type} {service : DiskService World} {globals : DeviceGlobals}
  {arg : List UInt8} {state : DiskState World}

/-- The MBR that `partnew_func` reads. -/
def mbrRead (service : DiskService World) (state : DiskState World) (request : PartnewRequest) :
    RawResult World :=
  DiskIo.rawread service state request.drive 0 0 (service.getSectorSize state.world request.drive)

/-- A command that succeeds has stored an MBR made of the one it read. -/
theorem partnewFunc_stores (succeeds : (partnewFunc service globals arg state).1 = 0) :
    ∃ request after, parsePartnew globals state.errnum arg = .ok request ∧
      partnewMbr (mbrRead service state request).state.bufGeom
        (areaOf (mbrRead service state request).bytes) request = .ok after ∧
      (partnewFunc service globals arg state).2 =
        (rawwrite service { (mbrRead service state request).state with bufTrack := -1 }
          request.drive 0 fun i => after i.toNat).2 := by
  rw [partnewFunc] at succeeds ⊢
  cases parses : parsePartnew globals state.errnum arg with
  | error errnum =>
      rw [parses] at succeeds
      cases succeeds
  | ok request =>
      simp only [parses] at succeeds ⊢
      split at succeeds
      · cases succeeds
      · next isRead =>
          rw [if_neg isRead]
          cases written : partnewMbr (mbrRead service state request).state.bufGeom
              (areaOf (mbrRead service state request).bytes) request with
          | error errnum =>
              rw [mbrRead] at written
              simp only [written] at succeeds
              cases succeeds
          | ok after =>
              refine ⟨request, after, rfl, written, ?_⟩
              rw [mbrRead] at written
              simp only [written]
              rfl

/-- On a medium of known geometry it describes the partition of the command line, just when
this is not empty and its ends can be stored. -/
theorem partnewFunc_describes (media : BlockMedia)
    (geometry : ∀ request, parsePartnew globals state.errnum arg = .ok request →
      (mbrRead service state request).state.bufGeom = media.geometry)
    (succeeds : (partnewFunc service globals arg state).1 = 0) :
    ∃ disk : TrackGeometry, disk.geometry = media.geometry ∧
      ∃ request after, parsePartnew globals state.errnum arg = .ok request ∧
        (partnewFunc service globals arg state).2 =
          (rawwrite service { (mbrRead service state request).state with bufTrack := -1 }
            request.drive 0 fun i => after i.toNat).2 ∧
        (Describes disk (areaOf (mbrRead service state request).bytes) after request ↔
          0 < request.newLen ∧ Storable disk request.newStart ∧
            Storable disk (request.newStart + request.newLen - 1)) := by
  obtain ⟨disk, isDisk⟩ := exists_trackGeometry media
  obtain ⟨request, after, parses, written, stored⟩ := partnewFunc_stores succeeds
  refine ⟨disk, isDisk, request, after, parses, stored, ?_⟩
  have accepted := accepted_of_parse parses
  rw [geometry request parses, ← isDisk] at written
  obtain ⟨fits, rfl⟩ := (partnewMbr_eq_ok_iff accepted).mp written
  exact newMbr_describes_iff accepted fits

end Command

/-- A disk of 40000000 sectors, as `get_diskinfo` describes it. -/
def largeDisk : TrackGeometry where
  cylinders := 2489
  heads := 255
  totalSectors := 40000000
  sectorSize := 512
  flags := 1
  cylinders_lt := by omega
  heads_pos := by omega
  heads_lt := by omega
  totalSectors_lt := by omega

/-- One partition from the second track on to the end of it. -/
def wholeDisk : PartnewRequest where
  drive := 0x80
  entry := 0
  newType := 0x83
  newStart := 63
  newLen := 39999937

/-- Its end is stored as cylinder 440. -/
theorem wholeDisk_not_described : wholeDisk.Accepted ∧ ¬ ∀ after,
    partnewMbr largeDisk.geometry (fun _ => 0) wholeDisk = .ok after →
      Describes largeDisk (fun _ => 0) after wholeDisk := by
  have accepted : wholeDisk.Accepted := ⟨by decide, by decide, by decide, by decide⟩
  refine ⟨accepted, ?_⟩
  intro describes
  have written : partnewMbr largeDisk.geometry (fun _ => 0) wholeDisk = .ok _ :=
    (partnewMbr_eq_ok_iff accepted).mpr ⟨by decide, rfl⟩
  have storable := (means_end_iff accepted (by decide)).mp (describes _ written).last
  rw [Storable] at storable
  exact absurd storable (by decide)

end GrubLegacy.Partition
