import GrubLegacy.DiskIo.ReadFailures

/-!
# The bounds of a partition

`devread` of `disk_io.c` over the EFI disk layer. Its check adds the offset and the
length as `int`s: a sum from 2^31 on is negative, and the sector it ends in looks like
one far before the one that is read.
-/

namespace GrubLegacy.DiskIo

open GrubLegacy.Base GrubLegacy.Stage2

variable {World : Type}

/-- The globals `current_drive`, `part_start` and `part_length`. -/
structure PartBounds where
  drive : Int
  partStart : Nat
  partLength : Nat

/-- The arguments of `devread` but the buffer. -/
structure ReadCall where
  sector : Int
  byteOffset : Int
  byteLen : Int

namespace PartBounds

/-- `get_sector_bits (current_drive)` -/
def sectorBits (part : PartBounds) (service : DiskService World) (world : World) : Nat :=
  grubLog2 (service.getSectorSize world part.drive)

/-- The test at the start of `devread`: `part_length` makes the comparison unsigned. -/
def Refuses (part : PartBounds) (bits : Nat) (call : ReadCall) : Prop :=
  call.sector < 0 ∨
    part.partLength ≤
      toUInt32 (call.sector + toInt32 (call.byteOffset + call.byteLen - 1) / 2 ^ bits)

instance (part : PartBounds) (bits : Nat) (call : ReadCall) : Decidable (part.Refuses bits call) :=
  inferInstanceAs (Decidable (_ ∨ _))

/-- What `devread` passes on to `rawread`. A sector size is a power of two, so that the
mask is a remainder. -/
def passedOn (part : PartBounds) (bits : Nat) (call : ReadCall) : Request where
  drive := part.drive
  sector := toInt32 (part.partStart + toInt32 (call.sector + call.byteOffset / 2 ^ bits))
  byteOffset := call.byteOffset % 2 ^ bits
  byteLen := call.byteLen

/-- `devread` -/
def devread (part : PartBounds) (service : DiskService World) (state : DiskState World)
    (call : ReadCall) : RawResult World :=
  let bits := part.sectorBits service state.world
  if part.Refuses bits call then ⟨0, [], { state with errnum := .outsidePart }⟩
  else
    let request := part.passedOn bits call
    rawread service state request.drive request.sector request.byteOffset request.byteLen

end PartBounds

/-- A sector that bytes of the request lie in. -/
def Request.Touches (request : Request) (sectorSize sector : Int) : Prop :=
  request.sector ≤ sector ∧
    sector * sectorSize < request.sector * sectorSize + request.byteOffset + request.byteLen

instance (request : Request) (sectorSize sector : Int) :
    Decidable (request.Touches sectorSize sector) :=
  inferInstanceAs (Decidable (_ ∧ _))

/-- All that is read lies in the partition, or an error is left. -/
structure Confined (part : PartBounds) (service : DiskService World) (state : DiskState World)
    (call : ReadCall) : Prop where
  inside : (part.devread service state call).value = 1 →
    ∀ sector, (part.passedOn (part.sectorBits service state.world) call).Touches
        (service.getSectorSize state.world part.drive) sector →
      part.partStart ≤ sector ∧ sector < part.partStart + part.partLength
  noted : (part.devread service state call).value ≠ 1 →
    (part.devread service state call).state.errnum ≠ .none

/-! ## How far a read gets -/

variable {firmware : Firmware World} {media : BlockMedia} {request : Request}
  {state : DiskState (Traced World)}

/-- The sector that the last byte of a request lies in. -/
def lastSector (media : BlockMedia) (request : Request) : Int :=
  request.sector + (request.byteOffset + request.byteLen - 1) / media.blockSize

/-- The first sector of a request and that of its last virtual track are on the medium. -/
structure Begins (media : BlockMedia) (request : Request) : Prop where
  low : 0 ≤ request.sector
  first : request.sector < media.geometry.totalSectors
  last : lastSector media request - lastSector media request % sectorsPerVtrack media.geometry <
    media.geometry.totalSectors

/-- The cached geometry of a drive is that of its medium. -/
def GeometryKnown (firmware : Firmware World) (state : DiskState (Traced World)) : Prop :=
  state.bufDrive ≠ -1 → ∃ media, firmware.media state.bufDrive = some media ∧
    state.bufGeom = media.geometry

/-- The geometry of the drive is loaded. -/
theorem loadGeometry_known (found : firmware.media request.drive = some media)
    (nonneg : 0 ≤ request.drive) (known : GeometryKnown firmware state) :
    ∃ loaded, loadGeometry (efiService firmware) state request.drive = some loaded ∧
      loaded.bufDrive = request.drive ∧ loaded.bufGeom = media.geometry ∧
      loaded.errnum = state.errnum := by
  rw [loadGeometry]
  by_cases same : state.bufDrive = request.drive
  · rw [if_pos same]
    obtain ⟨cached, isCached, geom⟩ := known (by omega)
    rw [same, found] at isCached
    obtain rfl := Option.some.inj isCached
    exact ⟨state, rfl, same, geom, rfl⟩
  · have diskinfo : (efiService firmware).getDiskinfo state.world request.drive =
        some media.geometry := congrArg (Option.map BlockMedia.geometry) found
    rw [if_neg same, diskinfo]
    exact ⟨_, rfl, rfl, rfl, rfl⟩

/-- A sector off the medium is refused, and a read of any other goes on: the disk layer
does not tell of failures. -/
theorem rawreadRound_goes (found : firmware.media request.drive = some media)
    (asked : Asked media request) (len : 0 < request.byteLen) (noError : state.errnum = .none)
    (known : GeometryKnown firmware state) :
    (¬ (0 ≤ request.sector ∧ request.sector < media.geometry.totalSectors) ∧
      ∃ after, rawreadRound (efiService firmware) state request = .refused after ∧
        after.errnum ≠ .none) ∨
    0 ≤ request.sector ∧ request.sector < media.geometry.totalSectors ∧
      ∃ after bytes, rawreadRound (efiService firmware) state request =
          .served after bytes (nextRequest media request) ∧
        after.errnum = .none ∧ GeometryKnown firmware after := by
  obtain ⟨loaded, loads, drive, geom, errnum⟩ := loadGeometry_known found asked.drive known
  rw [rawreadRound, loads]
  dsimp only
  by_cases outside : request.sector < 0 ∨ request.sector ≥ loaded.bufGeom.totalSectors
  · rw [if_pos outside]
    rw [geom] at outside
    exact .inl ⟨by omega, _, rfl, (by rintro ⟨⟩)⟩
  · rw [if_neg outside]
    rw [geom] at outside
    refine .inr ⟨by omega, by omega, _, _, congrArg _ ?_, ?_⟩
    · rw [geom, window_media asked len]
      rfl
    · obtain ⟨reported, noted⟩ := noteSectors_eq (if (window loaded.bufGeom request).track ≠
          loaded.bufTrack then
        fillBuffer (efiService firmware) loaded request (window loaded.bufGeom request)
        else (loaded, (window loaded.bufGeom request).soff *
          2 ^ (window loaded.bufGeom request).bits + request.byteOffset)).1 request
        (roundSize (window loaded.bufGeom request) request)
      rw [noted]
      split
      · rw [fillBuffer_efi found asked len geom]
        exact ⟨errnum.trans noError, fun _ => ⟨media, (congrArg _ drive).trans found, geom⟩⟩
      · exact ⟨errnum.trans noError, fun _ => ⟨media, (congrArg _ drive).trans found, geom⟩⟩

/-- When nothing is left after a round, the request ends in its track. -/
theorem begins_of_done (asked : Asked media request)
    (low : 0 ≤ request.sector) (first : request.sector < media.geometry.totalSectors)
    (done : (nextRequest media request).byteLen ≤ 0) : Begins media request := by
  refine ⟨low, first, ?_⟩
  have left : request.byteLen - firstLength media request ≤ 0 := done
  have offset := asked.offset
  rw [firstLength] at left
  rw [lastSector]
  rcases media.perVtrack_cases with ⟨size, per⟩ | ⟨size, per⟩ | ⟨size, per⟩ | ⟨size, per⟩
  all_goals
    rw [size, per] at left
    rw [size, per]
    omega

/-- The rest of a request ends in the same sector. -/
theorem lastSector_next (asked : Asked media request)
    (more : 0 < (nextRequest media request).byteLen)
    (next : (nextRequest media request).sector =
      trackOf media request + sectorsPerVtrack media.geometry) :
    lastSector media (nextRequest media request) = lastSector media request := by
  have restLen : (nextRequest media request).byteLen =
    request.byteLen - firstLength media request := rfl
  have restOffset : (nextRequest media request).byteOffset = 0 := rfl
  have offset := asked.offset
  rw [restLen, firstLength] at more
  rw [lastSector, lastSector, next, restOffset, restLen, firstLength, trackOf]
  rcases media.perVtrack_cases with ⟨size, per⟩ | ⟨size, per⟩ | ⟨size, per⟩ | ⟨size, per⟩
  all_goals
    rw [size, per] at more ⊢
    omega

/-- A request that is not done goes as far as the rest of it. -/
theorem begins_next (asked : Asked media request)
    (low : 0 ≤ request.sector) (first : request.sector < media.geometry.totalSectors)
    (small : media.geometry.totalSectors < 2 ^ 31)
    (more : 0 < (nextRequest media request).byteLen) :
    Begins media (nextRequest media request) ↔ Begins media request := by
  have moreLen : 0 < request.byteLen - firstLength media request := more
  have offset := asked.offset
  have track : trackOf media request + sectorsPerVtrack media.geometry ≤
      lastSector media request - lastSector media request % sectorsPerVtrack media.geometry := by
    rw [firstLength] at moreLen
    rw [trackOf, lastSector]
    rcases media.perVtrack_cases with ⟨size, per⟩ | ⟨size, per⟩ | ⟨size, per⟩ | ⟨size, per⟩
    all_goals
      rw [size, per] at moreLen
      rw [size, per]
      omega
  rcases nextRequest_sector media low asked.sector_lt with ⟨next, _, _⟩ | ⟨negative, wraps⟩
  · have last := lastSector_next asked more next
    constructor
    · intro begins
      exact ⟨low, first, last ▸ begins.last⟩
    · intro begins
      have final := begins.last
      obtain ⟨trackLow, trackHigh, trackNext⟩ := @trackOf_bounds request media low
      exact ⟨by omega, by omega, last.symm ▸ final⟩
  · constructor
    · intro begins
      have := begins.low
      omega
    · intro begins
      have := begins.last
      omega

/-- The loop of `rawread` delivers everything exactly when each of its rounds begins on
the medium, and leaves an error otherwise. -/
theorem rawreadLoop_value (rounds : Nat) (found : firmware.media request.drive = some media)
    (small : media.geometry.totalSectors < 2 ^ 31) (asked : Asked media request)
    (nonneg : 0 ≤ request.byteLen) (enough : request.byteLen < rounds)
    (noError : state.errnum = .none) (known : GeometryKnown firmware state) :
    ((rawreadLoop (efiService firmware) rounds state request).value = 1 ↔
      (0 < request.byteLen → Begins media request)) ∧
    ((rawreadLoop (efiService firmware) rounds state request).value ≠ 1 →
      (rawreadLoop (efiService firmware) rounds state request).state.errnum ≠ .none) := by
  induction rounds generalizing request state with
  | zero => omega
  | succ rounds inductionHypothesis =>
      rw [rawreadLoop]
      by_cases len : request.byteLen > 0
      · rw [if_pos ⟨len, noError⟩]
        rcases rawreadRound_goes found asked len noError known with
          ⟨off, after, refused, error⟩ | ⟨low, first, after, bytes, served, clean, kept⟩
        · rw [refused]
          have zero : ¬ (0 : Int) = 1 := by decide
          exact ⟨iff_of_false zero fun begins => off ⟨(begins len).low, (begins len).first⟩,
            fun _ => error⟩
        · rw [served]
          have positive := firstLength_pos asked len
          have most : firstLength media request ≤ request.byteLen := Int.min_le_left _ _
          have restLen : (nextRequest media request).byteLen =
            request.byteLen - firstLength media request := rfl
          have size : 0 < media.blockSize := by
            rcases media.blockSize_cases with ⟨size, _⟩ | ⟨size, _⟩ | ⟨size, _⟩ | ⟨size, _⟩ <;>
              omega
          have asked_ : Asked media (nextRequest media request) :=
            ⟨asked.drive, toInt32_upper _, Int.le_refl 0, size, by have := asked.len_lt; omega⟩
          obtain ⟨value, error⟩ := @inductionHypothesis (nextRequest media request) after found
            asked_ (by omega) (by omega) clean kept
          refine ⟨value.trans ?_, error⟩
          by_cases more : 0 < (nextRequest media request).byteLen
          · have next := begins_next asked low first small more
            exact ⟨fun begins _ => next.mp (begins more), fun begins _ => next.mpr (begins len)⟩
          · have begins := begins_of_done asked low first (Int.not_lt.mp more)
            exact iff_of_true (fun left => absurd left more) fun _ => begins
      · rw [if_neg fun serve => len serve.1, if_pos noError]
        exact ⟨iff_of_true rfl fun left => absurd left len, fun refused => absurd rfl refused⟩

/-! ## What the calls keep of the geometry -/

/-- Nothing but `get_diskinfo` changes the cached geometry. -/
structure SameGeometry (before after : DiskState (Traced World)) : Prop where
  drive : after.bufDrive = before.bufDrive
  geometry : after.bufGeom = before.bufGeom

/-- A step that leaves the geometry leaves it known. -/
theorem SameGeometry.known {after : DiskState (Traced World)} (same : SameGeometry state after)
    (known : GeometryKnown firmware state) : GeometryKnown firmware after := by
  intro some_
  rw [same.drive] at some_ ⊢
  rw [same.geometry]
  exact known some_

/-- A short read leaves the geometry, -/
theorem retryRead_geometry (win : Window) (biosErr bufaddr : Int) :
    SameGeometry state (retryRead (efiService firmware) state request win biosErr bufaddr).1 := by
  rw [retryRead]
  dsimp only
  split
  · exact ⟨rfl, rfl⟩
  · split <;> exact ⟨rfl, rfl⟩

/-- so what settles the read does, -/
theorem settleRead_geometry (win : Window) (biosErr bufaddr : Int) :
    SameGeometry state (settleRead (efiService firmware) state request win biosErr bufaddr).1 := by
  rw [settleRead]
  split
  · exact retryRead_geometry win biosErr bufaddr
  · exact ⟨rfl, rfl⟩

/-- the copy for EZ-Drive, -/
theorem mapEzd_geometry (win : Window) :
    SameGeometry state (mapEzd (efiService firmware) state request win) := by
  rw [mapEzd]
  split
  · split <;> exact ⟨rfl, rfl⟩
  · exact ⟨rfl, rfl⟩

/-- filling the buffer -/
theorem fillBuffer_geometry (win : Window) :
    SameGeometry state (fillBuffer (efiService firmware) state request win).1 := by
  rw [fillBuffer]
  dsimp only
  have mapped := fun settled => @mapEzd_geometry World firmware request settled win
  have settled := fun before => @settleRead_geometry World firmware request before win
  exact ⟨(mapped _).drive.trans (settled _ _ _).drive,
    (mapped _).geometry.trans (settled _ _ _).geometry⟩

/-- and the note of the sectors. -/
theorem noteSectors_geometry (size : Int) :
    SameGeometry state (noteSectors state request size) := by
  obtain ⟨reported, noted⟩ := noteSectors_eq state request size
  rw [noted]
  exact ⟨rfl, rfl⟩

/-- One round keeps to the geometry of the medium. -/
theorem rawreadRound_known (known : GeometryKnown firmware state) :
    GeometryKnown firmware (rawreadRound (efiService firmware) state request).after := by
  rw [rawreadRound]
  cases loads : loadGeometry (efiService firmware) state request.drive with
  | none => exact known
  | some loaded =>
      have loadedKnown : GeometryKnown firmware loaded := by
        rw [loadGeometry] at loads
        split at loads
        · exact Option.some.inj loads ▸ known
        · cases found : firmware.media request.drive with
          | none =>
              have absent : (efiService firmware).getDiskinfo state.world request.drive = none :=
                congrArg (Option.map BlockMedia.geometry) found
              rw [absent] at loads
              cases loads
          | some media =>
              have diskinfo : (efiService firmware).getDiskinfo state.world request.drive =
                some media.geometry := congrArg (Option.map BlockMedia.geometry) found
              rw [diskinfo] at loads
              obtain rfl := Option.some.inj loads
              exact fun _ => ⟨media, found, rfl⟩
      dsimp only
      split
      · exact loadedKnown
      · refine (noteSectors_geometry _).known ?_
        split
        · exact (fillBuffer_geometry _).known loadedKnown
        · exact loadedKnown

/-- The loop of `rawread` keeps the geometry known, -/
theorem rawreadLoop_known (rounds : Nat) (known : GeometryKnown firmware state) :
    GeometryKnown firmware (rawreadLoop (efiService firmware) rounds state request).state := by
  induction rounds generalizing state request with
  | zero => exact known
  | succ rounds inductionHypothesis =>
      rw [rawreadLoop]
      split
      · have after := @rawreadRound_known World firmware request state known
        cases made : rawreadRound (efiService firmware) state request with
        | refused refused =>
            rw [made] at after
            exact after
        | served served bytes rest =>
            rw [made] at after
            exact inductionHypothesis after
      · exact known

/-- Every call keeps to the geometry of the medium. -/
theorem rawStep_known (call : RawCall) (known : GeometryKnown firmware state) :
    GeometryKnown firmware (rawStep firmware state call) := by
  have stored : ∀ (state : DiskState (Traced World)) drive sector data,
      SameGeometry state (storeSector (efiService firmware) state drive sector data).2 := by
    intro state drive sector data
    rw [storeSector]
    dsimp only
    split
    · exact ⟨rfl, rfl⟩
    · split <;> exact ⟨rfl, rfl⟩
  obtain ⟨drive, call⟩ := call
  cases call with
  | rawread sector byteOffset byteLen =>
      rw [rawStep, diskStep, rawread]
      split
      · exact known
      · exact rawreadLoop_known _ known
  | rawwrite sector data =>
      rw [rawStep, diskStep, rawwrite]
      split
      · dsimp only
        split
        · exact known
        · exact (stored _ _ _ _).known known
      · exact (stored _ _ _ _).known known
  | clearError => exact known

/-- and so does every run of calls. -/
theorem runOps_known {calls : List RawCall} (known : GeometryKnown firmware state) :
    GeometryKnown firmware (runOps (rawStep firmware) state calls) := by
  induction calls generalizing state with
  | nil => exact known
  | cons call calls inductionHypothesis => exact inductionHypothesis (rawStep_known call known)

/-! ## Confinement -/

/-- The partition lies on the medium of its drive, which has less than 2^31 sectors. -/
structure PartBounds.OnDrive (part : PartBounds) (firmware : Firmware World)
    (media : BlockMedia) : Prop where
  found : firmware.media part.drive = some media
  nonneg : 0 ≤ part.drive
  inside : part.partStart + part.partLength ≤ media.lastBlock + 1
  small : media.lastBlock + 1 < 2 ^ 31

/-- Arguments of the type `int`: a sector and an offset that are not negative, and
something to read. -/
structure ReadCall.Valid (call : ReadCall) : Prop where
  sector : 0 ≤ call.sector
  sector_lt : call.sector < 2 ^ 31
  offset : 0 ≤ call.byteOffset
  offset_lt : call.byteOffset < 2 ^ 31
  len : 0 < call.byteLen
  len_lt : call.byteLen < 2 ^ 31

/-- The sectors of the drive that a call is for. -/
def PartBounds.wanted (part : PartBounds) (media : BlockMedia) (call : ReadCall) : Request where
  drive := part.drive
  sector := part.partStart + call.sector + call.byteOffset / media.blockSize
  byteOffset := call.byteOffset % media.blockSize
  byteLen := call.byteLen

/-- The last sector of a call, from the start of the partition on. -/
def ReadCall.last (call : ReadCall) (media : BlockMedia) : Int :=
  call.sector + (call.byteOffset + call.byteLen - 1) / media.blockSize

/-- The offset and the length do not fit into an `int` together, the last sector is
outside of the partition but the one that is 2^32 bytes before is inside, and the read
begins on the drive. -/
structure Slips (part : PartBounds) (media : BlockMedia) (call : ReadCall) : Prop where
  wraps : 2 ^ 31 < call.byteOffset + call.byteLen
  shown_low : 2 ^ 32 / media.blockSize ≤ call.last media
  shown_high : call.last media - 2 ^ 32 / media.blockSize < part.partLength
  beyond : part.partLength ≤ call.last media
  begins : Begins media (part.wanted media call)

variable {part : PartBounds} {call : ReadCall}

/-- The sectors of a partition are those of its medium. -/
theorem sectorBits_efi (found : firmware.media part.drive = some media) (world : Traced World) :
    part.sectorBits (efiService firmware) world = media.bits ∧
      (efiService firmware).getSectorSize world part.drive = media.blockSize := by
  have size : (efiService firmware).getSectorSize world part.drive = media.blockSize := by
    show ((firmware.media part.drive).map BlockMedia.blockSize).getD 0 = _
    rw [found]
    rfl
  rw [PartBounds.sectorBits, size]
  exact ⟨media.log2_blockSize, rfl⟩

/-- A drive with such a partition has fewer than 2^31 sectors. -/
theorem PartBounds.OnDrive.totalSectors (onDrive : part.OnDrive firmware media) :
    media.geometry.totalSectors < 2 ^ 31 := by
  have small := onDrive.small
  have exact_ := @toUInt32_of_range (media.lastBlock + 1) (by omega)
  rw [Int.natCast_add, Int.natCast_one] at exact_
  show (toUInt32 (media.lastBlock + 1) : Int) < 2 ^ 31
  omega

/-- A call passes the test when its last sector looks like one of the partition. -/
theorem not_refuses_iff (valid : call.Valid) (small : part.partLength < 2 ^ 31) :
    ¬ part.Refuses media.bits call ↔
      call.byteOffset + call.byteLen ≤ 2 ^ 31 ∧ call.last media < part.partLength ∨
      2 ^ 31 < call.byteOffset + call.byteLen ∧ 2 ^ 32 / media.blockSize ≤ call.last media ∧
        call.last media - 2 ^ 32 / media.blockSize < part.partLength := by
  obtain ⟨sector, sector_lt, offset, offset_lt, len, len_lt⟩ := valid
  have power : (2 : Int) ^ media.bits = media.blockSize := rfl
  rw [PartBounds.Refuses, ReadCall.last, power]
  rcases Int.lt_or_le (2 ^ 31) (call.byteOffset + call.byteLen) with wraps | fits
  · rw [toInt32_of_overflow (by omega) (by omega)]
    unfold toUInt32
    rcases media.blockSize_cases with ⟨size, _⟩ | ⟨size, _⟩ | ⟨size, _⟩ | ⟨size, _⟩
    all_goals
      rw [size]
      omega
  · rw [toInt32_of_range (by omega) (by omega)]
    unfold toUInt32
    rcases media.blockSize_cases with ⟨size, _⟩ | ⟨size, _⟩ | ⟨size, _⟩ | ⟨size, _⟩
    all_goals
      rw [size]
      omega

/-- What is passed on is what the call is for, or starts at a negative number. -/
theorem passedOn_cases (onDrive : part.OnDrive firmware media) (valid : call.Valid)
    (passes : ¬ part.Refuses media.bits call) :
    part.passedOn media.bits call = part.wanted media call ∨
      (part.passedOn media.bits call).sector < 0 ∧ 2 ^ 31 ≤ (part.wanted media call).sector := by
  have inside := onDrive.inside
  have small := onDrive.small
  have step : 2 ^ 32 / media.blockSize ≤ 2 ^ 23 := by
    rcases media.blockSize_cases with ⟨size, _⟩ | ⟨size, _⟩ | ⟨size, _⟩ | ⟨size, _⟩
    all_goals
      rw [size]
      omega
  have near : part.partStart + call.last media < 2 ^ 32 := by
    rcases (not_refuses_iff valid (by omega)).mp passes with ⟨_, last⟩ | ⟨_, _, last⟩
    · omega
    · omega
  obtain ⟨sector, sector_lt, offset, offset_lt, len, len_lt⟩ := valid
  have power : (2 : Int) ^ media.bits = media.blockSize := rfl
  have below : call.byteOffset / media.blockSize ≤
      (call.byteOffset + call.byteLen - 1) / media.blockSize := by
    rcases media.blockSize_cases with ⟨size, _⟩ | ⟨size, _⟩ | ⟨size, _⟩ | ⟨size, _⟩
    all_goals
      rw [size]
      omega
  have nonneg : 0 ≤ call.byteOffset / media.blockSize := by
    rcases media.blockSize_cases with ⟨size, _⟩ | ⟨size, _⟩ | ⟨size, _⟩ | ⟨size, _⟩
    all_goals
      rw [size]
      omega
  rw [ReadCall.last] at near
  rw [PartBounds.passedOn, PartBounds.wanted, power, toInt32_add_toInt32, ← Int.add_assoc]
  dsimp only
  rcases Int.lt_or_le (part.partStart + call.sector + call.byteOffset / media.blockSize) (2 ^ 31)
    with fits | wraps
  · rw [toInt32_of_range (by omega) fits]
    exact .inl rfl
  · rw [toInt32_of_overflow wraps (by omega)]
    exact .inr ⟨by omega, wraps⟩

/-- The sectors a call is for are those up to its last one. -/
theorem wanted_touches (valid : call.Valid) (sector : Int) :
    (part.wanted media call).Touches media.blockSize sector ↔
      (part.wanted media call).sector ≤ sector ∧
        sector ≤ part.partStart + call.last media := by
  have offset := valid.offset
  rw [Request.Touches, PartBounds.wanted, ReadCall.last]
  dsimp only
  rcases media.blockSize_cases with ⟨size, _⟩ | ⟨size, _⟩ | ⟨size, _⟩ | ⟨size, _⟩
  all_goals
    rw [size]
    omega

/-- A call starts at or after the sector it names, and ends at or after its start. -/
theorem wanted_start (valid : call.Valid) :
    part.partStart ≤ (part.wanted media call).sector ∧
      (part.wanted media call).sector ≤ part.partStart + call.last media := by
  have sector := valid.sector
  have offset := valid.offset
  have len := valid.len
  rw [PartBounds.wanted, ReadCall.last]
  dsimp only
  rcases media.blockSize_cases with ⟨size, _⟩ | ⟨size, _⟩ | ⟨size, _⟩ | ⟨size, _⟩
  all_goals
    rw [size]
    omega

/-- What begins on the medium is passed on as it is. -/
theorem passedOn_of_begins (onDrive : part.OnDrive firmware media) (valid : call.Valid)
    (passes : ¬ part.Refuses media.bits call) (begins : Begins media (part.wanted media call)) :
    part.passedOn media.bits call = part.wanted media call := by
  have small := onDrive.totalSectors
  refine (passedOn_cases onDrive valid passes).resolve_right ?_
  rintro ⟨_, wraps⟩
  have := begins.first
  omega

/-- A call that passes the test returns 1 when its reads begin on the medium, and leaves
an error otherwise. -/
theorem devread_value (onDrive : part.OnDrive firmware media) (valid : call.Valid)
    (known : GeometryKnown firmware state) (noError : state.errnum = .none)
    (passes : ¬ part.Refuses media.bits call) :
    ((part.devread (efiService firmware) state call).value = 1 ↔
      Begins media (part.wanted media call)) ∧
    ((part.devread (efiService firmware) state call).value ≠ 1 →
      (part.devread (efiService firmware) state call).state.errnum ≠ .none) := by
  have total := onDrive.totalSectors
  have asked : Asked media (part.passedOn media.bits call) := by
    have size : 0 < media.blockSize := by
      rcases media.blockSize_cases with ⟨size, _⟩ | ⟨size, _⟩ | ⟨size, _⟩ | ⟨size, _⟩ <;> omega
    exact ⟨onDrive.nonneg, toInt32_upper _, Int.emod_nonneg _ (Int.ne_of_gt size),
      Int.emod_lt_of_pos _ size, valid.len_lt⟩
  have len : 0 < (part.passedOn media.bits call).byteLen := valid.len
  obtain ⟨value, error⟩ := rawreadLoop_value
    ((part.passedOn media.bits call).byteLen.toNat + 1) onDrive.found total asked
    (Int.le_of_lt len) (by omega) noError known
  rw [PartBounds.devread, (sectorBits_efi onDrive.found state.world).1]
  dsimp only
  rw [if_neg passes, rawread, if_neg (Int.not_le.mpr len)]
  refine ⟨value.trans ?_, error⟩
  rcases passedOn_cases onDrive valid passes with same | ⟨negative, wraps⟩
  · rw [same] at len ⊢
    exact ⟨fun begins => begins len, fun begins _ => begins⟩
  · refine iff_of_false (fun begins => ?_) fun begins => ?_
    · have := (begins len).low
      omega
    · have := begins.first
      omega

/-- Reads of an open partition stay inside of it, in any state that calls lead to, unless
the offset and the length slip past the test. -/
theorem devread_confined (onDrive : part.OnDrive firmware media)
    {start : DiskState (Traced World)} (empty : start.bufDrive = -1) (calls : List RawCall)
    (valid : call.Valid) :
    Confined part (efiService firmware) (runOps (rawStep firmware) start calls) call ↔
      ¬ ((runOps (rawStep firmware) start calls).errnum = .none ∧ Slips part media call) := by
  have known : GeometryKnown firmware (runOps (rawStep firmware) start calls) :=
    runOps_known fun some_ => absurd empty some_
  generalize runOps (rawStep firmware) start calls = state at known
  have inside := onDrive.inside
  have small := onDrive.small
  have zero : ¬ (0 : Int) = 1 := by decide
  have tests := @not_refuses_iff media part call valid (by omega)
  obtain ⟨bits, size⟩ := sectorBits_efi onDrive.found state.world
  by_cases refuses : part.Refuses media.bits call
  · have result : part.devread (efiService firmware) state call =
        ⟨0, [], { state with errnum := .outsidePart }⟩ := by
      rw [PartBounds.devread, bits]
      exact if_pos refuses
    refine iff_of_true ⟨fun one => ?_, fun _ => ?_⟩ ?_
    · rw [result] at one
      exact absurd one zero
    · rw [result]
      exact nofun
    · rintro ⟨_, slips⟩
      exact tests.mpr (.inr ⟨slips.wraps, slips.shown_low, slips.shown_high⟩) refuses
  · by_cases noError : state.errnum = .none
    · obtain ⟨value, error⟩ := devread_value onDrive valid known noError refuses
      constructor
      · rintro ⟨insideAll, _⟩ ⟨_, slips⟩
        have begins := slips.begins
        have touches := (wanted_touches valid (part.partStart + call.last media)).mpr
          ⟨(wanted_start valid).2, Int.le_refl _⟩
        rw [bits, size, passedOn_of_begins onDrive valid refuses begins] at insideAll
        have := insideAll (value.mpr begins) _ touches
        have := slips.beyond
        omega
      · intro steady
        refine ⟨fun one sector touches => ?_, error⟩
        have begins := value.mp one
        rw [bits, size, passedOn_of_begins onDrive valid refuses begins] at touches
        obtain ⟨first, last⟩ := (wanted_touches valid sector).mp touches
        have begun := (@wanted_start media part call valid).1
        have final : call.last media < part.partLength := by
          rcases tests.mp refuses with ⟨_, last⟩ | ⟨wraps, low, high⟩
          · exact last
          · by_contra beyond
            exact steady ⟨noError, wraps, low, high, Int.not_lt.mp beyond, begins⟩
        omega
    · have result : part.devread (efiService firmware) state call = ⟨0, [], state⟩ := by
        have len : ¬ (part.passedOn media.bits call).byteLen ≤ 0 := Int.not_le.mpr valid.len
        rw [PartBounds.devread, bits]
        dsimp only
        rw [if_neg refuses, rawread, if_neg len, rawreadLoop, if_neg fun serve => noError serve.2,
          if_neg noError]
      refine iff_of_true ⟨fun one => ?_, fun _ => ?_⟩ fun slips => noError slips.1
      · rw [result] at one
        exact absurd one zero
      · rw [result]
        exact noError

/-- A partition of 100 sectors on a drive of 2^24. -/
def smallPart : PartBounds := ⟨0x80, 63, 100⟩

/-- The small partition is on its drive, -/
theorem smallPart_onDrive :
    smallPart.OnDrive (ramFirmware (2 ^ 24)) ⟨2 ^ 24 - 1, 9, by decide, by decide⟩ :=
  ⟨rfl, by decide, by decide, by decide⟩

/-- and its reads stay inside it. -/
theorem devread_confined_small :
    Confined smallPart (efiService (ramFirmware (2 ^ 24)))
      (runOps (rawStep (ramFirmware (2 ^ 24))) tracedStart [⟨0x80, .rawread 5 0 4⟩])
      ⟨99, 0, 512⟩ :=
  (devread_confined smallPart_onDrive rfl _
    ⟨by decide, by decide, by decide, by decide, by decide, by decide⟩).mpr
    fun slips => absurd slips.2.wraps (by decide)

/-- A long seek and a short read: the sectors that are delivered are far behind the end of
the partition. -/
theorem devread_escapes :
    smallPart.OnDrive (ramFirmware (2 ^ 24)) ⟨2 ^ 24 - 1, 9, by decide, by decide⟩ ∧
      ReadCall.Valid ⟨2 ^ 22 + 5, 2 ^ 31 - 512, 1024⟩ ∧
      ¬ Confined smallPart (efiService (ramFirmware (2 ^ 24))) tracedStart
        ⟨2 ^ 22 + 5, 2 ^ 31 - 512, 1024⟩ := by
  refine ⟨smallPart_onDrive, ⟨by decide, by decide, by decide, by decide, by decide, by decide⟩,
    fun confined => ?_⟩
  have delivered := confined.inside (by decide +kernel) (63 + 2 ^ 22 + 5 + (2 ^ 22 - 1))
    (by decide +kernel)
  exact absurd delivered.2 (by decide)

end GrubLegacy.DiskIo
