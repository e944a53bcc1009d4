import GrubLegacy.Fsys.ExtentTurns

/-!
# Reading an ISO 9660 file

`iso9660_devread` and `iso9660_read` of `fsys_iso9660.c`. A file is one extent of logical
sectors of 2048 bytes, whatever the size of a sector of the device.
-/

namespace GrubLegacy.Fsys.Iso9660

open Base Stage2 DiskIo
open GrubLegacy.Partition (Buffer)

/-- ISO_SECTOR_BITS -/
def isoSectorBits : Nat := 11

/-- ISO_SECTOR_SIZE -/
def isoSectorSize : Nat := 2048

/-- A drive with an open partition. `rawread` delivers what is on the drive or leaves an
error. -/
structure IsoDrive extends SectorMedia where
  partStart : Nat

/-- `INODE->file_start` and `errnum`, and whether `disk_read_func` is `disk_read_hook`. -/
structure IsoState where
  fileStart : Nat
  errnum : GrubError
  hooked : Bool

section

variable (drive : IsoDrive)

/-- The bytes of the partition from a position on. -/
def IsoDrive.partBytes (position len : Nat) : List UInt8 :=
  drive.bytes (drive.partStart * drive.sectorSize + position) len

/-- `rawread`: the bytes, unless it returns 0. -/
def rawread (state : IsoState) (sector byteOffset byteLen : Int) :
    IsoState × Option (List UInt8) :=
  if byteLen ≤ 0 then (state, some [])
  else if state.errnum ≠ .none then (state, none)
  else if sector < 0 then ({ state with errnum := .geom }, none)
  else
    match drive.fails sector byteOffset byteLen with
    | some failure => ({ state with errnum := failure.1 }, none)
    | none =>
        (state, some (drive.bytes (sector * drive.sectorSize + byteOffset).toNat byteLen.toNat))

/-- `sector += byte_offset >> sector_size_lg2`, and then the shift to sectors of the device. -/
def deviceSector (sector byteOffset : Int) : Int :=
  toInt32 (toInt32 (sector + byteOffset / drive.sectorSize) *
    (2 ^ (isoSectorBits - drive.sectorBits) : Nat))

/-- `iso9660_devread` -/
def isoDevread (state : IsoState) (sector byteOffset byteLen : Int) :
    IsoState × Option (List UInt8) :=
  if sector < 0 then ({ state with errnum := .outsidePart }, none)
  else if byteLen ≤ 0 then (state, some [])
  else rawread drive state (toInt32 (drive.partStart + deviceSector drive sector byteOffset))
    (byteOffset % drive.sectorSize) byteLen

/-- The variables of the loop of `iso9660_read`; `buf` has been advanced to a position. -/
structure IsoTurn where
  filepos : Int
  buf : Buffer
  position : Nat
  sector : Int
  blkoffset : Fin isoSectorSize
  ret : Int

/-- What is left by a read that failed: `disk_read_func` is not reset, and 0 is returned. -/
def readFailed (state : IsoState) (turn : IsoTurn) : ReadOutcome IsoState where
  state
  filepos := turn.filepos
  buf := turn.buf
  ret := 0

/-- A part of a logical sector has been read. -/
def partRead (turn : IsoTurn) (bytes : List UInt8) (size : Nat) : IsoTurn where
  filepos := toInt32 (turn.filepos + size)
  buf := store turn.buf turn.position bytes
  position := turn.position + size
  sector := toInt32 (turn.sector + 1)
  blkoffset := ⟨0, Nat.two_pow_pos 11⟩
  ret := turn.ret + size

/-- The loop of `iso9660_read`, for so many bytes. -/
def isoReadLoop (state : IsoState) (turn : IsoTurn) (len : Nat) : ReadOutcome IsoState :=
  if 0 < len then
    let size := min (isoSectorSize - turn.blkoffset.val) len
    let read := isoDevread drive { state with hooked := true }
      (toInt32 (state.fileStart + turn.sector)) turn.blkoffset.val size
    match read.2 with
    | none => readFailed read.1 turn
    | some bytes =>
        isoReadLoop { read.1 with hooked := false } (partRead turn bytes size) (len - size)
  else { state, filepos := turn.filepos, buf := turn.buf, ret := turn.ret }
termination_by len
decreasing_by
  have inside := turn.blkoffset.isLt
  omega

/-- `iso9660_read` -/
def isoRead (state : IsoState) (filepos : Int) (buf : Buffer) (len : Int) :
    ReadOutcome IsoState :=
  if state.fileStart = 0 then { state, filepos, buf, ret := 0 }
  else
    let blkoffset := @Fin.ofNat isoSectorSize ⟨nofun⟩ (filepos % isoSectorSize).toNat
    isoReadLoop drive state
      { filepos, buf, position := 0, sector := filepos / isoSectorSize, blkoffset, ret := 0 }
      len.toNat

end

/-! ## Addresses -/

section

variable {drive : IsoDrive} {state : IsoState} {sector byteOffset byteLen : Nat}

/-- The sizes of sectors for which the shift is defined. -/
def IsoDrive.Supported (drive : IsoDrive) : Prop :=
  drive.sectorBits = 9 ∨ drive.sectorBits = 10 ∨ drive.sectorBits = 11

/-- The sector of the drive that a byte of the partition is in. -/
def IsoDrive.sectorOf (drive : IsoDrive) (position : Nat) : Nat :=
  drive.partStart + position / drive.sectorSize

/-- A supported drive has sectors no larger than those of the format, -/
theorem IsoDrive.Supported.bits_le (supported : drive.Supported) :
    drive.sectorBits ≤ isoSectorBits := by
  rw [isoSectorBits]
  rcases supported with bits | bits | bits
  · omega
  · omega
  · omega

/-- a power of two of which make one of these. -/
theorem IsoDrive.Supported.sectorSize (supported : drive.Supported) :
    2 ^ (isoSectorBits - drive.sectorBits) * drive.sectorSize = isoSectorSize := by
  rw [SectorMedia.sectorSize, ← Nat.pow_add, Nat.sub_add_cancel supported.bits_le]
  rfl

/-- The sectors of the device before a byte of a logical sector. -/
theorem sectorOf_eq (supported : drive.Supported) :
    drive.sectorOf (sector * isoSectorSize + byteOffset) =
      drive.partStart + sector * 2 ^ (isoSectorBits - drive.sectorBits) +
        byteOffset / drive.sectorSize := by
  rw [IsoDrive.sectorOf, ← supported.sectorSize, ← Nat.mul_assoc, Nat.add_comm (_ * _) byteOffset,
    Nat.add_mul_div_right _ _ (sectorSize_pos _)]
  omega

/-- The sector that is read is the one that the byte is in, or the offset reaches beyond one
sector of the device. -/
theorem deviceSector_iff (supported : drive.Supported) (small : byteOffset < 2 ^ 31)
    (inRange : drive.sectorOf (sector * isoSectorSize + byteOffset) < 2 ^ 31) :
    toInt32 (drive.partStart + deviceSector drive sector byteOffset) =
        drive.sectorOf (sector * isoSectorSize + byteOffset) ↔
      byteOffset < drive.sectorSize ∨ drive.sectorBits = isoSectorBits := by
  rw [sectorOf_eq supported] at inRange ⊢
  rw [deviceSector, toInt32_toInt32_mul, toInt32_add_toInt32, ← Int.natCast_ediv]
  have first : byteOffset < drive.sectorSize ↔ byteOffset / drive.sectorSize = 0 := by
    rw [Nat.div_eq_zero_iff]
    have positive := sectorSize_pos drive.toSectorMedia
    omega
  have few : byteOffset / drive.sectorSize < 2 ^ 22 := by
    apply Nat.div_lt_of_lt_mul
    apply Nat.lt_of_lt_of_le small
    have least : 2 ^ 9 ≤ drive.sectorSize := by
      apply Nat.pow_le_pow_right (by decide)
      rcases supported with bits | bits | bits <;> omega
    omega
  rw [first]
  generalize byteOffset / drive.sectorSize = skipped at inRange few
  have shift : 2 ^ (isoSectorBits - drive.sectorBits) = 4 ∨
      2 ^ (isoSectorBits - drive.sectorBits) = 2 ∨
      2 ^ (isoSectorBits - drive.sectorBits) = 1 ∧ drive.sectorBits = isoSectorBits := by
    rw [isoSectorBits]
    rcases supported with bits | bits | bits
    · exact .inl (by simp [bits])
    · exact .inr (.inl (by simp [bits]))
    · exact .inr (.inr ⟨by simp [bits], bits⟩)
  have other : drive.sectorBits = isoSectorBits →
      2 ^ (isoSectorBits - drive.sectorBits) = 1 := by
    intro bits
    rw [bits, Nat.sub_self, Nat.pow_zero]
  generalize 2 ^ (isoSectorBits - drive.sectorBits) = factor at inRange shift other
  have behind : sector * factor + skipped ≤ (sector + skipped) * factor := by
    rcases shift with rfl | rfl | ⟨rfl, -⟩ <;> omega
  have near : (sector + skipped) * factor ≤ sector * factor + 4 * skipped := by
    rcases shift with rfl | rfl | ⟨rfl, -⟩ <;> omega
  have value : (drive.partStart : Int) + (sector + (skipped : Nat)) * (factor : Nat) =
      (drive.partStart + (sector + skipped) * factor : Nat) := by
    push_cast
    rfl
  rw [value, toInt32_eq_iff (by omega) (by omega) (by omega) (by omega), Int.natCast_inj]
  rcases shift with rfl | rfl | ⟨rfl, bits⟩
  · omega
  · omega
  · omega

/-! ## Parts of a logical sector -/

/-- What `iso9660_devread` reads, where there are no errors. -/
theorem isoDevread_reads (reads : ∀ sector byteOffset byteLen,
      drive.fails sector byteOffset byteLen = none) (clean : state.errnum = .none)
    (some_ : 0 < byteLen) {device : Int}
    (isDevice : toInt32 (drive.partStart + deviceSector drive sector byteOffset) = device) :
    isoDevread drive state sector byteOffset byteLen =
      if device < 0 then ({ state with errnum := .geom }, none)
      else (state, some (drive.bytes
        (device * drive.sectorSize + (byteOffset % drive.sectorSize : Nat)).toNat byteLen)) := by
  have more : ¬ (byteLen : Int) ≤ 0 := by omega
  have first : ¬ (sector : Int) < 0 := Int.not_lt.mpr (Int.natCast_nonneg _)
  rw [isoDevread, if_neg first, if_neg more, isDevice, rawread, if_neg more,
    if_neg (not_not.mpr clean), reads, ← Int.natCast_emod, Int.toNat_natCast]

/-- A byte of the partition is in a sector of the drive, as far behind its start. -/
theorem address_eq (supported : drive.Supported) :
    drive.sectorOf (sector * isoSectorSize + byteOffset) * drive.sectorSize +
        byteOffset % drive.sectorSize =
      drive.partStart * drive.sectorSize + (sector * isoSectorSize + byteOffset) := by
  have split_ := Nat.div_add_mod byteOffset drive.sectorSize
  rw [sectorOf_eq supported, ← supported.sectorSize, Nat.add_mul, Nat.add_mul, Nat.mul_assoc,
    Nat.mul_comm (byteOffset / drive.sectorSize)]
  omega

/-- The bytes of a part of a logical sector. -/
theorem isoDevread_right (supported : drive.Supported) (reads : ∀ sector byteOffset byteLen,
      drive.fails sector byteOffset byteLen = none) (clean : state.errnum = .none)
    (some_ : 0 < byteLen) (small : byteOffset < 2 ^ 31)
    (inRange : drive.sectorOf (sector * isoSectorSize + byteOffset) < 2 ^ 31)
    (inside : byteOffset < drive.sectorSize ∨ drive.sectorBits = isoSectorBits) :
    isoDevread drive state sector byteOffset byteLen =
      (state, some (drive.partBytes (sector * isoSectorSize + byteOffset) byteLen)) := by
  have device := (deviceSector_iff supported small inRange).mpr inside
  have address : ((drive.sectorOf (sector * isoSectorSize + byteOffset) : Int) * drive.sectorSize +
      (byteOffset % drive.sectorSize : Nat)).toNat =
        drive.partStart * drive.sectorSize + (sector * isoSectorSize + byteOffset) := by
    rw [← Int.natCast_mul, ← Int.natCast_add, Int.toNat_natCast, address_eq supported]
  rw [isoDevread_reads reads clean some_ device,
    if_neg (Int.not_lt.mpr (Int.natCast_nonneg _)), address]
  rfl

/-- The drive with other bytes on it. -/
def IsoDrive.withContent (drive : IsoDrive) (content : Nat → UInt8) : IsoDrive :=
  { drive with content }

/-- Nothing is on the drive but a byte of the partition. -/
def IsoDrive.marked (drive : IsoDrive) (position : Nat) : IsoDrive :=
  drive.withContent fun i => if i = drive.partStart * drive.sectorSize + position then 1 else 0

/-- When the offset reaches beyond a sector of the device, other bytes are read. -/
theorem isoDevread_wrong (supported : drive.Supported) (reads : ∀ sector byteOffset byteLen,
      drive.fails sector byteOffset byteLen = none) (clean : state.errnum = .none)
    (some_ : 0 < byteLen) (small : byteOffset < 2 ^ 31)
    (inRange : drive.sectorOf (sector * isoSectorSize + byteOffset) < 2 ^ 31)
    (beyond : ¬ (byteOffset < drive.sectorSize ∨ drive.sectorBits = isoSectorBits)) :
    (isoDevread (drive.marked (sector * isoSectorSize + byteOffset)) state sector byteOffset
        byteLen).2 = none ∨
      ∃ bytes, isoDevread (drive.marked (sector * isoSectorSize + byteOffset)) state sector
        byteOffset byteLen = (state, some bytes) ∧ bytes[0]? = some 0 := by
  generalize isDevice : toInt32 (drive.partStart + deviceSector drive sector byteOffset) = device
  have wrong : device ≠ drive.sectorOf (sector * isoSectorSize + byteOffset) := by
    rw [← isDevice]
    exact fun right => beyond ((deviceSector_iff supported small inRange).mp right)
  rw [(@isoDevread_reads (drive.marked (sector * isoSectorSize + byteOffset)) _ _ _ _) reads clean
    some_ isDevice]
  by_cases negative : device < 0
  · rw [if_pos negative]
    exact .inl rfl
  · rw [if_neg negative]
    apply Or.inr
    obtain ⟨place, rfl⟩ := Int.eq_ofNat_of_zero_le (Int.not_lt.mp negative)
    refine ⟨_, rfl, ?_⟩
    have other : place * drive.sectorSize + byteOffset % drive.sectorSize + 0 ≠
        drive.partStart * drive.sectorSize + (sector * isoSectorSize + byteOffset) := by
      intro same
      rw [← address_eq supported, Nat.add_zero, Nat.add_right_cancel_iff] at same
      exact wrong (congrArg Nat.cast (Nat.eq_of_mul_eq_mul_right (sectorSize_pos _) same))
    have address : ((place : Int) * (drive.marked (sector * isoSectorSize + byteOffset)).sectorSize +
        (byteOffset % (drive.marked (sector * isoSectorSize + byteOffset)).sectorSize : Nat)).toNat =
          place * drive.sectorSize + byteOffset % drive.sectorSize := by
      rw [← Int.natCast_mul, ← Int.natCast_add, Int.toNat_natCast]
      rfl
    rw [address, getElem?_bytes some_]
    exact congrArg some (if_neg other)

/-- `iso9660_devread` reads the bytes at the address of a logical sector and an offset if and
only if the offset does not reach beyond a sector of the device, or the device has logical
sectors. -/
theorem isoDevread_iff (supported : drive.Supported) (reads : ∀ sector byteOffset byteLen,
      drive.fails sector byteOffset byteLen = none) (clean : state.errnum = .none)
    (some_ : 0 < byteLen) (small : byteOffset < 2 ^ 31)
    (inRange : drive.sectorOf (sector * isoSectorSize + byteOffset) < 2 ^ 31) :
    (∀ content, isoDevread (drive.withContent content) state sector byteOffset byteLen =
      (state, some ((drive.withContent content).partBytes (sector * isoSectorSize + byteOffset)
        byteLen))) ↔
      byteOffset < drive.sectorSize ∨ drive.sectorBits = isoSectorBits := by
  constructor
  · intro right
    apply Classical.not_not.mp
    intro beyond
    have isRight : isoDevread (drive.marked (sector * isoSectorSize + byteOffset)) state sector
        byteOffset byteLen = _ := right _
    rcases isoDevread_wrong supported reads clean some_ small inRange beyond with
      nothing | ⟨bytes, wrong, zero⟩
    · rw [isRight] at nothing
      cases nothing
    · obtain rfl := Option.some.inj (congrArg Prod.snd (wrong.symm.trans isRight))
      rw [IsoDrive.partBytes, getElem?_bytes some_] at zero
      have one := (if_pos (Nat.add_zero _)).symm.trans (Option.some.inj zero)
      exact absurd one (by decide)
  · intro inside content
    exact @isoDevread_right (drive.withContent content) _ _ _ _ supported reads clean some_ small
      inRange inside

/-! ## The loop -/

variable {turn : IsoTurn} {place len : Nat}

/-- Where the loop is in the file. -/
structure TurnAt (place : Nat) (turn : IsoTurn) : Prop where
  filepos : turn.filepos = place
  sector : turn.sector = (place / isoSectorSize : Nat)
  blkoffset : turn.blkoffset.val = place % isoSectorSize

/-- Nothing more is read at the end. -/
theorem isoReadLoop_end : isoReadLoop drive state turn 0 =
    { state, filepos := turn.filepos, buf := turn.buf, ret := turn.ret } := by
  rw [isoReadLoop, if_neg (Nat.lt_irrefl 0)]

/-- The number of bytes that a round reads. -/
def roundSize (turn : IsoTurn) (len : Nat) : Nat := min (isoSectorSize - turn.blkoffset.val) len

/-- A round reads a byte at least. -/
theorem roundSize_pos (more : 0 < len) : 0 < roundSize turn len := by
  have inside := turn.blkoffset.isLt
  rw [roundSize]
  omega

/-- A round that reads goes on behind what it has stored. -/
theorem isoReadLoop_read (more : 0 < len) {sector : Int} {after : IsoState} {bytes : List UInt8}
    (isSector : toInt32 (state.fileStart + turn.sector) = sector)
    (reads : isoDevread drive { state with hooked := true } sector turn.blkoffset.val
      (roundSize turn len) = (after, some bytes)) :
    isoReadLoop drive state turn len = isoReadLoop drive { after with hooked := false }
      (partRead turn bytes (roundSize turn len)) (len - roundSize turn len) := by
  rw [isoReadLoop, if_pos more, isSector]
  rw [roundSize] at reads ⊢
  simp only [reads]

/-- A round whose read fails ends the loop. -/
theorem isoReadLoop_failed (more : 0 < len) {sector : Int} {after : IsoState}
    (isSector : toInt32 (state.fileStart + turn.sector) = sector)
    (reads : isoDevread drive { state with hooked := true } sector turn.blkoffset.val
      (roundSize turn len) = (after, none)) :
    isoReadLoop drive state turn len = readFailed after turn := by
  rw [isoReadLoop, if_pos more, isSector]
  rw [roundSize] at reads
  simp only [reads]

/-- So has a sector of the format. -/
theorem isoSectorSize_pos : 0 < isoSectorSize := Nat.two_pow_pos 11

/-- A logical sector and an offset make up the position. -/
theorem position_eq (fileStart place : Nat) :
    (fileStart + place / isoSectorSize) * isoSectorSize + place % isoSectorSize =
      fileStart * isoSectorSize + place := by
  have split_ := Nat.div_add_mod place isoSectorSize
  rw [Nat.add_mul, Nat.mul_comm (place / isoSectorSize)]
  omega

/-- Bytes come in sectors that are no smaller. -/
theorem sectorOf_mono {position position' : Nat} (before : position ≤ position') :
    drive.sectorOf position ≤ drive.sectorOf position' :=
  Nat.add_le_add_left (Nat.div_le_div_right before) _

/-- The number of a logical sector of the file. -/
theorem TurnAt.toSector (turnAt : TurnAt place turn) (supported : drive.Supported)
    (inRange : drive.sectorOf (state.fileStart * isoSectorSize + place) < 2 ^ 31) :
    toInt32 (state.fileStart + turn.sector) = (state.fileStart + place / isoSectorSize : Nat) := by
  have sizes : drive.sectorSize ≤ isoSectorSize :=
    Nat.pow_le_pow_right (by decide) supported.bits_le
  have whole : (state.fileStart * isoSectorSize + place) / isoSectorSize =
      state.fileStart + place / isoSectorSize := by
    rw [Nat.add_comm, Nat.add_mul_div_right _ _ isoSectorSize_pos, Nat.add_comm]
  have fewer := Nat.div_le_div_left (a := state.fileStart * isoSectorSize + place) sizes
    (sectorSize_pos drive.toSectorMedia)
  rw [whole] at fewer
  rw [IsoDrive.sectorOf] at inRange
  rw [turnAt.sector, ← Int.natCast_add]
  generalize place / isoSectorSize = number at fewer
  apply toInt32_of_range
  · omega
  · omega

/-- Bytes of the partition are taken in two pieces. -/
theorem partBytes_append (position first second : Nat) :
    drive.partBytes position first ++ drive.partBytes (position + first) second =
      drive.partBytes position (first + second) := by
  rw [IsoDrive.partBytes, IsoDrive.partBytes, IsoDrive.partBytes, ← Nat.add_assoc, bytes_append]

/-- As many bytes are taken as are asked for. -/
theorem partBytes_length (position count : Nat) :
    (drive.partBytes position count).length = count := bytes_length _ _

/-- Behind a part that is not the last one, the next logical sector starts. -/
theorem TurnAt.next {bytes : List UInt8} (turnAt : TurnAt place turn) (high : place + len < 2 ^ 31)
    (more : roundSize turn len < len) :
    TurnAt (place + roundSize turn len) (partRead turn bytes (roundSize turn len)) ∧
      (place + roundSize turn len) % isoSectorSize = 0 := by
  have inside := turn.blkoffset.isLt
  have size : roundSize turn len = isoSectorSize - place % isoSectorSize := by
    rw [roundSize, turnAt.blkoffset] at more ⊢
    omega
  have split_ := Nat.div_add_mod place isoSectorSize
  have remainder := Nat.mod_lt place isoSectorSize_pos
  have starts : place + roundSize turn len = (place / isoSectorSize + 1) * isoSectorSize := by
    rw [size, Nat.add_mul, Nat.mul_comm (place / isoSectorSize)]
    omega
  have few : place / isoSectorSize ≤ place := Nat.div_le_self _ _
  refine ⟨⟨?_, ?_, ?_⟩, ?_⟩
  · show toInt32 (turn.filepos + roundSize turn len) = _
    rw [turnAt.filepos, ← Int.natCast_add]
    apply toInt32_of_range
    · omega
    · omega
  · show toInt32 (turn.sector + 1) = _
    rw [turnAt.sector, starts, Nat.mul_div_cancel _ isoSectorSize_pos]
    generalize place / isoSectorSize = number at few
    apply toInt32_of_range
    · omega
    · omega
  · show 0 = _
    rw [starts, Nat.mul_mod_left]
  · rw [starts, Nat.mul_mod_left]

/-- The loop reads what was asked for when the first part is read. -/
theorem isoReadLoop_reads (supported : drive.Supported) (reads : ∀ sector byteOffset byteLen,
      drive.fails sector byteOffset byteLen = none) (clean : state.errnum = .none)
    (turnAt : 0 < len → TurnAt place turn) (filepos : turn.filepos = place)
    (inside : 0 < len →
      place % isoSectorSize < drive.sectorSize ∨ drive.sectorBits = isoSectorBits)
    (high : place + len < 2 ^ 31)
    (inRange : drive.sectorOf (state.fileStart * isoSectorSize + (place + len)) < 2 ^ 31) :
    (isoReadLoop drive state turn len).filepos = (place + len : Nat) ∧
      (isoReadLoop drive state turn len).buf = store turn.buf turn.position
        (drive.partBytes (state.fileStart * isoSectorSize + place) len) ∧
      (isoReadLoop drive state turn len).ret = turn.ret + len := by
  induction len using Nat.strong_induction_on generalizing state turn place with
  | _ len inductionHypothesis =>
    rcases Nat.eq_zero_or_pos len with rfl | more
    · rw [isoReadLoop_end]
      refine ⟨filepos, ?_, (Int.add_zero _).symm⟩
      exact (store_nil _).symm
    · have turnAt := turnAt more
      have some_ := @roundSize_pos turn _ more
      have fits : roundSize turn len ≤ len := Nat.min_le_right _ _
      have inRange' : drive.sectorOf (state.fileStart * isoSectorSize + place) < 2 ^ 31 :=
        Nat.lt_of_le_of_lt (sectorOf_mono (by omega)) inRange
      have small : place % isoSectorSize < 2 ^ 31 :=
        Nat.lt_trans (Nat.mod_lt place (Nat.two_pow_pos 11)) (by decide)
      have read := @isoDevread_right _ { state with hooked := true }
        (state.fileStart + place / isoSectorSize) (place % isoSectorSize) _
        supported reads clean some_ small (by rw [position_eq]; exact inRange') (inside more)
      rw [← turnAt.blkoffset, turnAt.blkoffset, position_eq, ← turnAt.blkoffset] at read
      have round := isoReadLoop_read more (turnAt.toSector supported inRange') read
      have filepos' : toInt32 (turn.filepos + roundSize turn len) =
          (place + roundSize turn len : Nat) := by
        rw [filepos, ← Int.natCast_add]
        apply toInt32_of_range
        · omega
        · omega
      have inside' : 0 < len - roundSize turn len →
          (place + roundSize turn len) % isoSectorSize < drive.sectorSize ∨
            drive.sectorBits = isoSectorBits := by
        intro left
        rw [(@TurnAt.next _ _ _ [] turnAt high (by omega)).2]
        exact .inl (sectorSize_pos _)
      have rest := @inductionHypothesis (len - roundSize turn len) (by omega)
        { state with hooked := false }
        (partRead turn (drive.partBytes (state.fileStart * isoSectorSize + place)
          (roundSize turn len)) (roundSize turn len)) (place + roundSize turn len) clean
        (fun left => (turnAt.next high (by omega)).1) filepos' inside' (by omega)
        (by rw [Nat.add_assoc, Nat.add_sub_cancel' fits]; exact inRange)
      obtain ⟨filepos'', buf, ret⟩ := rest
      have joined := @partBytes_append drive (state.fileStart * isoSectorSize + place)
        (roundSize turn len) (len - roundSize turn len)
      have length := @partBytes_length drive (state.fileStart * isoSectorSize + place)
        (roundSize turn len)
      have appended := @store_append turn.buf turn.position (drive.partBytes
        (state.fileStart * isoSectorSize + place) (roundSize turn len)) (drive.partBytes
          (state.fileStart * isoSectorSize + (place + roundSize turn len))
          (len - roundSize turn len))
      rw [Nat.add_assoc (state.fileStart * isoSectorSize)] at joined
      rw [joined, length, Nat.add_sub_cancel' fits] at appended
      simp only [round, filepos'', buf, ret]
      refine ⟨?_, ?_, ?_⟩
      · omega
      · exact appended
      · show turn.ret + roundSize turn len + (len - roundSize turn len : Nat) = turn.ret + len
        omega

/-- What has been stored stays. -/
theorem isoReadLoop_kept {i : Nat} (before : i < turn.position) :
    (isoReadLoop drive state turn len).buf i = turn.buf i := by
  induction len using Nat.strong_induction_on generalizing state turn with
  | _ len inductionHypothesis =>
    rcases Nat.eq_zero_or_pos len with rfl | more
    · rw [isoReadLoop_end]
    · have some_ := @roundSize_pos turn _ more
      generalize isSector : toInt32 (state.fileStart + turn.sector) = sector
      rcases isRead : isoDevread drive { state with hooked := true } sector turn.blkoffset.val
        (roundSize turn len) with ⟨after, _ | bytes⟩
      · rw [isoReadLoop_failed more isSector isRead]
        rfl
      · rw [isoReadLoop_read more isSector isRead, inductionHypothesis _ (by omega)]
        · exact store_before before
        · exact Nat.lt_of_lt_of_le before (Nat.le_add_right _ _)

end

/-! ## Reads of a file -/

/-- A byte of the file, wherever sectors of the device end. -/
def isoFileByte (drive : IsoDrive) (fileStart position : Nat) : UInt8 :=
  drive.content (drive.partStart * drive.sectorSize + (fileStart * isoSectorSize + position))

/-- `iso9660_read` delivers what it was asked for, and returns its length. -/
def IsoReads (drive : IsoDrive) (state : IsoState) (start stop : Nat) (buf : Buffer) : Prop :=
  Delivers (isoFileByte drive state.fileStart) start stop buf
      (isoRead drive state start buf (stop - start : Nat)) ∧
    (isoRead drive state start buf (stop - start : Nat)).ret = (stop - start : Nat)

section

variable {drive : IsoDrive} {state : IsoState} {start stop : Nat} {buf : Buffer}

/-- The turn before the loop. -/
def isoTurn (start : Nat) (buf : Buffer) : IsoTurn where
  filepos := start
  buf
  position := 0
  sector := (start / isoSectorSize : Nat)
  blkoffset := ⟨start % isoSectorSize, Nat.mod_lt _ isoSectorSize_pos⟩
  ret := 0

/-- The read of a file that was found is its loop. -/
theorem isoRead_eq (found : state.fileStart ≠ 0) (len : Nat) :
    isoRead drive state start buf len = isoReadLoop drive state (isoTurn start buf) len := by
  have offset : ((start : Int) % isoSectorSize).toNat = start % isoSectorSize := by
    rw [← Int.natCast_emod, Int.toNat_natCast]
  have first : (@Fin.ofNat isoSectorSize ⟨nofun⟩ (start % isoSectorSize)) =
      ⟨start % isoSectorSize, Nat.mod_lt _ isoSectorSize_pos⟩ :=
    Fin.ext (Nat.mod_mod _ _)
  rw [isoRead, if_neg found, offset]
  simp only [first, Int.toNat_natCast, isoTurn, Int.natCast_ediv]

/-- The first turn is at the start of the part. -/
theorem isoTurn_at : TurnAt start (isoTurn start buf) := ⟨rfl, rfl, rfl⟩

/-- A read that starts in the first sector of the device of a logical sector. -/
theorem isoReads_of_first (supported : drive.Supported)
    (reads : ∀ sector byteOffset byteLen, drive.fails sector byteOffset byteLen = none)
    (clean : state.errnum = .none) (ordered : start ≤ stop) (high : stop < 2 ^ 31)
    (inRange : drive.sectorOf (state.fileStart * isoSectorSize + stop) < 2 ^ 31)
    (found : state.fileStart ≠ 0)
    (first : start % isoSectorSize < drive.sectorSize ∨ drive.sectorBits = isoSectorBits) :
    IsoReads drive state start stop buf := by
  have ends : start + (stop - start) = stop := Nat.add_sub_cancel' ordered
  obtain ⟨filepos, stored, ret⟩ := @isoReadLoop_reads drive state (isoTurn start buf) start
    (stop - start) supported reads clean (fun _ => isoTurn_at) rfl (fun _ => first)
    (by rw [ends]; exact high) (by rw [ends]; exact inRange)
  rw [IsoReads, isoRead_eq found]
  have length := @partBytes_length drive (state.fileStart * isoSectorSize + start)
    (stop - start)
  refine ⟨⟨?_, ?_, ?_⟩, ?_⟩
  · rw [filepos, ends]
  · intro i inside
    have isByte := @store_at buf 0
      (drive.partBytes (state.fileStart * isoSectorSize + start) (stop - start)) i
        (by rw [length]; exact inside)
    rw [Nat.zero_add] at isByte
    rw [stored]
    refine isByte.trans ?_
    simp only [IsoDrive.partBytes, getElem_bytes, isoFileByte, Nat.add_assoc]
  · intro i behind
    rw [stored]
    refine store_behind (Nat.le_trans (Nat.le_of_eq ?_) behind)
    rw [length]
    exact Nat.zero_add _
  · rw [ret]
    exact Int.zero_add _

/-- Any other read of bytes does not deliver those of every file. -/
theorem not_isoReads_of_beyond (supported : drive.Supported)
    (reads : ∀ sector byteOffset byteLen, drive.fails sector byteOffset byteLen = none)
    (clean : state.errnum = .none) (more : start < stop)
    (inRange : drive.sectorOf (state.fileStart * isoSectorSize + stop) < 2 ^ 31)
    (found : state.fileStart ≠ 0)
    (beyond : ¬ (start % isoSectorSize < drive.sectorSize ∨ drive.sectorBits = isoSectorBits)) :
    ¬ IsoReads (drive.marked (state.fileStart * isoSectorSize + start)) state start stop buf := by
  rintro ⟨delivers, ret⟩
  rw [isoRead_eq found] at delivers ret
  have len : 0 < stop - start := Nat.sub_pos_of_lt more
  have some_ := @roundSize_pos (isoTurn start buf) _ len
  have inRange' : drive.sectorOf (state.fileStart * isoSectorSize + start) < 2 ^ 31 :=
    Nat.lt_of_le_of_lt (sectorOf_mono (by omega)) inRange
  have small : start % isoSectorSize < 2 ^ 31 :=
    Nat.lt_trans (Nat.mod_lt start isoSectorSize_pos) (by decide)
  have isSector : toInt32 (state.fileStart + (isoTurn start buf).sector) =
      (state.fileStart + start / isoSectorSize : Nat) :=
    isoTurn_at.toSector supported inRange'
  have wrong := @isoDevread_wrong drive { state with hooked := true }
    (state.fileStart + start / isoSectorSize) (start % isoSectorSize)
    (roundSize (isoTurn start buf) (stop - start)) supported reads clean some_ small
    (by rw [position_eq]; exact inRange') beyond
  rw [position_eq] at wrong
  rcases wrong with nothing | ⟨bytes, read, zero⟩
  · rw [isoReadLoop_failed len isSector (Prod.ext rfl nothing)] at ret
    have noBytes : (0 : Int) = (stop - start : Nat) := ret
    omega
  · have first := delivers.stored 0 len
    have reached : 0 < (partRead (isoTurn start buf) bytes
        (roundSize (isoTurn start buf) (stop - start))).position :=
      Nat.lt_of_lt_of_le some_ (Nat.le_add_left _ _)
    rw [isoReadLoop_read len isSector read, isoReadLoop_kept reached] at first
    obtain ⟨inside, isZero⟩ := List.getElem?_eq_some_iff.mp zero
    have stored : store buf 0 bytes (0 + 0) = bytes[0] := store_at inside
    have one : isoFileByte (drive.marked (state.fileStart * isoSectorSize + start))
        state.fileStart (start + 0) = 1 := if_pos rfl
    have both := (stored.trans isZero).symm.trans (first.trans one)
    exact absurd both (by decide)

/-- A read delivers the bytes of the file if and only if it is empty, or the file has an
extent and the read starts in the first sector of the device of a logical sector. -/
theorem isoReads_iff (supported : drive.Supported)
    (reads : ∀ sector byteOffset byteLen, drive.fails sector byteOffset byteLen = none)
    (clean : state.errnum = .none) (ordered : start ≤ stop) (high : stop < 2 ^ 31)
    (inRange : drive.sectorOf (state.fileStart * isoSectorSize + stop) < 2 ^ 31) :
    (∀ content, IsoReads (drive.withContent content) state start stop buf) ↔
      start = stop ∨ state.fileStart ≠ 0 ∧
        (start % isoSectorSize < drive.sectorSize ∨ drive.sectorBits = isoSectorBits) := by
  constructor
  · intro right
    rcases Nat.eq_or_lt_of_le ordered with empty | more
    · exact .inl empty
    have found : state.fileStart ≠ 0 := by
      intro none_
      obtain ⟨-, ret⟩ := right fun _ => 0
      rw [isoRead, if_pos none_] at ret
      have noBytes : (0 : Int) = (stop - start : Nat) := ret
      omega
    refine .inr ⟨found, ?_⟩
    apply Classical.not_not.mp
    exact fun beyond => not_isoReads_of_beyond supported reads clean more inRange found beyond
      (right _)
  · rintro (rfl | ⟨found, first⟩) content
    · have nothing : isoRead (drive.withContent content) state start buf (start - start : Nat) =
          { state, filepos := start, buf, ret := 0 } := by
        rw [Nat.sub_self]
        by_cases found : state.fileStart = 0
        · rw [isoRead, if_pos found]
        · rw [isoRead_eq found, isoReadLoop_end]
          rfl
      rw [IsoReads, nothing, Nat.sub_self]
      exact ⟨⟨rfl, fun i inside => absurd inside (by omega), fun _ _ => rfl⟩, rfl⟩
    · exact isoReads_of_first supported reads clean ordered high inRange found first

/-- When reads do not depend on the size of a sector of the device. `iso9660_devread` reads the
bytes at the address of a logical sector and an offset if and only if the offset does not reach
beyond a sector of the device, or the device has logical sectors; and `iso9660_read` delivers
the bytes of the file if and only if there are none, or the file has an extent and the same is
true of the offset in the first logical sector of the read. -/
theorem isoRead_delivers_iff {sector byteOffset byteLen : Nat} (supported : drive.Supported)
    (reads : ∀ sector byteOffset byteLen, drive.fails sector byteOffset byteLen = none)
    (clean : state.errnum = .none) (some_ : 0 < byteLen) (small : byteOffset < 2 ^ 31)
    (inRange : drive.sectorOf (sector * isoSectorSize + byteOffset) < 2 ^ 31)
    (ordered : start ≤ stop) (high : stop < 2 ^ 31)
    (fileInRange : drive.sectorOf (state.fileStart * isoSectorSize + stop) < 2 ^ 31) :
    ((∀ content, isoDevread (drive.withContent content) state sector byteOffset byteLen =
        (state, some ((drive.withContent content).partBytes (sector * isoSectorSize + byteOffset)
          byteLen))) ↔
      byteOffset < drive.sectorSize ∨ drive.sectorBits = isoSectorBits) ∧
    ((∀ content, IsoReads (drive.withContent content) state start stop buf) ↔
      start = stop ∨ state.fileStart ≠ 0 ∧
        (start % isoSectorSize < drive.sectorSize ∨ drive.sectorBits = isoSectorBits)) :=
  ⟨isoDevread_iff supported reads clean some_ small inRange,
    isoReads_iff supported reads clean ordered high fileInRange⟩

end

/-- A drive with sectors of 512 bytes, opened whole. -/
def smallDrive : IsoDrive where
  content _ := 0
  partStart := 0
  sectorBits := 9
  fails _ _ _ := none

/-- A file that starts in logical sector 20. -/
def isoFile : IsoState where
  fileStart := 20
  errnum := .none
  hooked := false

/-- Reads from the start of a logical sector. -/
theorem isoRead_delivers_start :
    (∀ content, isoDevread (smallDrive.withContent content) isoFile 20 0 4096 =
      (isoFile, some ((smallDrive.withContent content).partBytes 40960 4096))) ∧
      ∀ content, IsoReads (smallDrive.withContent content) isoFile 2048 5000 fun _ => 0 := by
  obtain ⟨devread, read⟩ := @isoRead_delivers_iff smallDrive isoFile 2048 5000 (fun _ => 0) 20 0
    4096 (.inl rfl) (fun _ _ _ => rfl) rfl (by decide) (by decide) (by decide) (by decide)
    (by decide) (by decide)
  exact ⟨devread.mpr (.inl (by decide)), read.mpr (.inr ⟨by decide, .inl (by decide)⟩)⟩

/-- A read that starts in the second sector of the device of a logical sector. -/
theorem isoRead_misses_sector :
    ¬ ∀ (drive : IsoDrive) (state : IsoState) (start stop : Nat) (buf : Buffer), drive.Supported →
      (∀ sector byteOffset byteLen, drive.fails sector byteOffset byteLen = none) →
      state.errnum = .none → state.fileStart ≠ 0 → start ≤ stop → stop < 2 ^ 31 →
      drive.sectorOf (state.fileStart * isoSectorSize + stop) < 2 ^ 31 →
      IsoReads drive state start stop buf := by
  intro claimed
  have reads := claimed (smallDrive.marked (20 * isoSectorSize + 512)) isoFile 512 1024
    (fun _ => 0) (.inl rfl) (fun _ _ _ => rfl) rfl (by decide) (by decide) (by decide) (by decide)
  exact @not_isoReads_of_beyond smallDrive isoFile 512 1024 (fun _ => 0) (.inl rfl)
    (fun _ _ _ => rfl) rfl (by decide) (by decide) (by decide) (by decide) reads

end GrubLegacy.Fsys.Iso9660
