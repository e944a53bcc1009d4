import GrubLegacy.DiskIo.EfiDisk

/-!
# Filling the track buffer from the EFI disk layer

`biosdisk` reports success whatever the firmware says, so the buffer is labelled
with its track in any case. It holds what the disk holds when the transfer was a
success and started where the label says.
-/

namespace GrubLegacy.DiskIo

open GrubLegacy.Base GrubLegacy.Stage2

variable {World : Type} {firmware : Firmware World} {media : BlockMedia} {request : Request}
  {state : DiskState (Traced World)}

/-! ## The transfers only grow -/

/-- A call of `biosdisk` adds to the transfers, -/
theorem biosdisk_grows (traced : Traced World) (func : BiosdiskFunc) (drive : Int)
    (geometry : Geometry) (sector nsec : Int) (segment : Int → UInt8) :
    traced.transfers <+:
      ((efiService firmware).biosdisk traced func drive geometry sector nsec
        segment).world.transfers := by
  change _ <+: (biosdisk firmware traced func drive geometry sector nsec segment).world.transfers
  rw [biosdisk]
  cases firmware.media drive with
  | none => exact List.prefix_rfl
  | some media => cases func <;> exact List.prefix_append _ _

/-- so a short read does, -/
theorem retryRead_grows (win : Window) (biosErr bufaddr : Int) :
    state.world.transfers <+:
      (retryRead (efiService firmware) state request win biosErr bufaddr).1.world.transfers := by
  rw [retryRead]
  dsimp only
  split
  · exact List.prefix_rfl
  · split
    · exact List.prefix_rfl
    · exact biosdisk_grows _ _ _ _ _ _ _

/-- the copy for EZ-Drive, -/
theorem mapEzd_grows (win : Window) :
    state.world.transfers <+:
      (mapEzd (efiService firmware) state request win).world.transfers := by
  rw [mapEzd]
  split
  · split
    · exact List.prefix_rfl
    · exact biosdisk_grows _ _ _ _ _ _ _
  · exact List.prefix_rfl

/-- what settles the read -/
theorem settleRead_grows (win : Window) (biosErr bufaddr : Int) :
    state.world.transfers <+:
      (settleRead (efiService firmware) state request win biosErr bufaddr).1.world.transfers := by
  rw [settleRead]
  split
  · exact retryRead_grows win biosErr bufaddr
  · exact List.prefix_rfl

/-- and filling the buffer. -/
theorem fillBuffer_grows (win : Window) :
    state.world.transfers <+:
      (fillBuffer (efiService firmware) state request win).1.world.transfers := by
  have first := @biosdisk_grows World firmware state.world .read request.drive state.bufGeom
    (if win.slen > win.numSect then request.sector else win.track)
    (if win.slen > win.numSect then win.numSect else win.perVtrack) state.buffer
  rw [fillBuffer]
  dsimp only
  revert first
  generalize (efiService firmware).biosdisk state.world .read request.drive state.bufGeom
    (if win.slen > win.numSect then request.sector else win.track)
    (if win.slen > win.numSect then win.numSect else win.perVtrack) state.buffer = transfer
  intro first
  have settled := @settleRead_grows World firmware request
    { state with buffer := transfer.segment, world := transfer.world } win transfer.status
    ((if win.slen > win.numSect then 0 else win.soff * 2 ^ win.bits) + request.byteOffset)
  exact first.trans (settled.trans (mapEzd_grows win))

/-- The globals a round leaves. -/
def Round.after {World : Type} : Round World → DiskState World
  | .refused state => state
  | .served state _ _ => state

/-- The note of the sectors asks nothing of the firmware. -/
theorem noteSectors_world (size : Int) : (noteSectors state request size).world = state.world := by
  rw [noteSectors]
  split <;> rfl

/-- Loading the geometry makes no transfer. -/
theorem loadGeometry_world {drive : Int} {loaded : DiskState (Traced World)}
    (loads : loadGeometry (efiService firmware) state drive = some loaded) :
    loaded.world = state.world := by
  rw [loadGeometry] at loads
  split at loads
  · rw [Option.some.inj loads]
  · split at loads
    · cases loads
    · rw [← Option.some.inj loads]

/-- A round of `rawread` adds to the transfers, -/
theorem rawreadRound_grows :
    state.world.transfers <+:
      (rawreadRound (efiService firmware) state request).after.world.transfers := by
  rw [rawreadRound]
  cases loads : loadGeometry (efiService firmware) state request.drive with
  | none => exact List.prefix_rfl
  | some loaded =>
      rw [← loadGeometry_world loads]
      dsimp only
      split
      · exact List.prefix_rfl
      · rw [Round.after]
        rw [noteSectors_world]
        split
        · exact fillBuffer_grows _
        · exact List.prefix_rfl

/-- and so do all of them. -/
theorem rawreadLoop_grows (rounds : Nat) :
    state.world.transfers <+:
      (rawreadLoop (efiService firmware) rounds state request).state.world.transfers := by
  induction rounds generalizing state request with
  | zero => exact List.prefix_rfl
  | succ rounds inductionHypothesis =>
      rw [rawreadLoop]
      split
      · have grows := @rawreadRound_grows World firmware request state
        cases round : rawreadRound (efiService firmware) state request with
        | refused after =>
            rw [round] at grows
            exact grows
        | served after bytes rest =>
            rw [round] at grows
            exact grows.trans inductionHypothesis
      · exact List.prefix_rfl

/-! ## Where bytes come from -/

/-- A successful read brought in the byte at an address of the disk. -/
def Delivered (transfers : List DiskTransfer) (drive address : Int) (byte : UInt8) : Prop :=
  ∃ transfer ∈ transfers, transfer.func = .read ∧ transfer.success = true ∧
    transfer.drive = drive ∧ transfer.offset ≤ address ∧
    address < transfer.offset + transfer.size ∧
    transfer.segment (address - transfer.offset) = byte

/-- The byte of an address comes from a successful read of it, or, in the first
sector, of the second one, which an EZ-Drive disk shows in its place. -/
def Sourced (media : BlockMedia) (transfers : List DiskTransfer) (drive address : Int)
    (byte : UInt8) : Prop :=
  Delivered transfers drive address byte ∨
    address < media.blockSize ∧ Delivered transfers drive (address + media.blockSize) byte

/-- A byte that came from a transfer still does with more of them. -/
theorem Sourced.grow {transfers more : List DiskTransfer} {drive address : Int} {byte : UInt8}
    (sourced : Sourced media transfers drive address byte) (grows : transfers <+: more) :
    Sourced media more drive address byte := by
  rcases sourced with ⟨transfer, recorded, came⟩ | ⟨first, transfer, recorded, came⟩
  · exact .inl ⟨transfer, grows.subset recorded, came⟩
  · exact .inr ⟨first, transfer, grows.subset recorded, came⟩

/-- The buffer holds the virtual track `buf_track`. -/
def Backed (media : BlockMedia) (state : DiskState (Traced World)) : Prop :=
  ∀ i, 0 ≤ i → i < sectorsPerVtrack media.geometry * media.blockSize →
    Sourced media state.world.transfers state.bufDrive (state.bufTrack * media.blockSize + i)
      (state.buffer i)

/-- What `buf_drive` and `buf_track` promise. -/
def CacheSound (firmware : Firmware World) (state : DiskState (Traced World)) : Prop :=
  state.bufDrive = -1 ∨ ∃ media, firmware.media state.bufDrive = some media ∧
    state.bufGeom = media.geometry ∧ (state.bufTrack = -1 ∨ Backed media state)

namespace BlockMedia

/-- The four block sizes a medium can have. -/
theorem blockSize_cases (media : BlockMedia) :
    media.blockSize = 512 ∧ media.bits = 9 ∨ media.blockSize = 1024 ∧ media.bits = 10 ∨
      media.blockSize = 2048 ∧ media.bits = 11 ∨ media.blockSize = 4096 ∧ media.bits = 12 := by
  have large := media.large
  have small := media.small
  have bits : media.bits = 9 ∨ media.bits = 10 ∨ media.bits = 11 ∨ media.bits = 12 := by omega
  rw [blockSize]
  rcases bits with bits | bits | bits | bits
  all_goals
    rw [bits]
    decide

/-- `grub_log2` finds the exponent of the block size. -/
theorem log2_blockSize (media : BlockMedia) : grubLog2 media.blockSize = media.bits := by
  rcases media.blockSize_cases with ⟨size, bits⟩ | ⟨size, bits⟩ | ⟨size, bits⟩ | ⟨size, bits⟩
  all_goals
    rw [size, bits]
    decide

/-- The virtual track fills the buffer. -/
theorem perVtrack_cases (media : BlockMedia) :
    media.blockSize = 512 ∧ sectorsPerVtrack media.geometry = 56 ∨
      media.blockSize = 1024 ∧ sectorsPerVtrack media.geometry = 28 ∨
      media.blockSize = 2048 ∧ sectorsPerVtrack media.geometry = 14 ∨
      media.blockSize = 4096 ∧ sectorsPerVtrack media.geometry = 7 := by
  have log := media.log2_blockSize
  have size : media.geometry.sectorSize = media.blockSize := rfl
  have sectors : media.geometry.sectors = 63 := rfl
  rw [sectorsPerVtrack, size, sectors, log]
  rcases media.blockSize_cases with ⟨size, bits⟩ | ⟨size, bits⟩ | ⟨size, bits⟩ | ⟨size, bits⟩
  all_goals
    rw [size, bits]
    decide

end BlockMedia

/-- What `rawread` is called with: a drive number, `int`s, and an offset inside of
the first sector. -/
structure Asked (media : BlockMedia) (request : Request) : Prop where
  drive : 0 ≤ request.drive
  sector_lt : request.sector < 2 ^ 31
  offset : 0 ≤ request.byteOffset
  offset_lt : request.byteOffset < media.blockSize
  len_lt : request.byteLen < 2 ^ 31

/-- The locals of a round. -/
theorem window_media (asked : Asked media request) (len : 0 < request.byteLen) :
    window media.geometry request =
      { bits := media.bits
        slen := (request.byteOffset + request.byteLen + media.blockSize - 1) / media.blockSize
        perVtrack := sectorsPerVtrack media.geometry
        soff := request.sector % sectorsPerVtrack media.geometry
        track := request.sector - request.sector % sectorsPerVtrack media.geometry
        numSect := sectorsPerVtrack media.geometry -
          request.sector % sectorsPerVtrack media.geometry } := by
  have log := media.log2_blockSize
  have size : media.geometry.sectorSize = media.blockSize := rfl
  have offset := asked.offset
  have offset_lt := asked.offset_lt
  have len_lt := asked.len_lt
  have small : media.blockSize ≤ 4096 := by
    rcases media.blockSize_cases with ⟨size, _⟩ | ⟨size, _⟩ | ⟨size, _⟩ | ⟨size, _⟩ <;> omega
  have exact_sum : (toUInt32 (request.byteOffset + request.byteLen + media.blockSize - 1) : Int) =
      request.byteOffset + request.byteLen + media.blockSize - 1 := by
    unfold toUInt32
    omega
  rw [window, size, log, exact_sum]
  rfl

/-! ## Filling the buffer -/

/-- The first sector of the virtual track of a request. -/
def trackOf (media : BlockMedia) (request : Request) : Int :=
  request.sector - request.sector % sectorsPerVtrack media.geometry

/-- The request runs past the end of its virtual track. -/
def Overruns (media : BlockMedia) (request : Request) : Prop :=
  (request.byteOffset + request.byteLen + media.blockSize - 1) / media.blockSize >
    sectorsPerVtrack media.geometry - request.sector % sectorsPerVtrack media.geometry

instance : Decidable (Overruns media request) := inferInstanceAs (Decidable (_ > _))

/-- The transfer that fills the buffer for a request. -/
def fillTransfer (firmware : Firmware World) (media : BlockMedia) (request : Request)
    (state : DiskState (Traced World)) : Transfer (Traced World) :=
  efidiskTransfer firmware .read request.drive media state.world
    (if Overruns media request then request.sector else trackOf media request)
    (if Overruns media request then
      sectorsPerVtrack media.geometry - request.sector % sectorsPerVtrack media.geometry
    else sectorsPerVtrack media.geometry)
    state.buffer

/-- The buffer with sector 1 in the place of sector 0 on an EZ-Drive disk. -/
def remapped (media : BlockMedia) (track : Int) (segment : Int → UInt8) : Int → UInt8 :=
  if track = 0 ∧ carriesEzd segment then fun i =>
    if 0 ≤ i ∧ i < media.blockSize then segment (i + media.blockSize) else segment i
  else segment

/-- Where a round takes its bytes from, once the buffer is filled for it. -/
def fillAddress (media : BlockMedia) (request : Request) : Int :=
  (if Overruns media request then 0
    else request.sector % sectorsPerVtrack media.geometry * media.blockSize) +
    request.byteOffset

/-- The buffer once it is filled. -/
def filledState (firmware : Firmware World) (media : BlockMedia) (request : Request)
    (state : DiskState (Traced World)) : DiskState (Traced World) :=
  { state with
    bufTrack := trackOf media request
    buffer := remapped media (trackOf media request)
      (fillTransfer firmware media request state).segment
    world := (fillTransfer firmware media request state).world }

/-- Filling never sees an error: the track is recorded whatever became of it. -/
theorem fillBuffer_efi (found : firmware.media request.drive = some media)
    (asked : Asked media request) (len : 0 < request.byteLen)
    (geom : state.bufGeom = media.geometry) :
    fillBuffer (efiService firmware) state request (window state.bufGeom request) =
      (filledState firmware media request state, fillAddress media request) := by
  have transferred : ∀ sector nsec, (efiService firmware).biosdisk state.world .read request.drive
      media.geometry sector nsec state.buffer =
        { efidiskTransfer firmware .read request.drive media state.world sector nsec
            state.buffer with status := 0 } := by
    intro sector nsec
    have service : (efiService firmware).biosdisk = biosdisk firmware := rfl
    rw [service, biosdisk, found]
    rfl
  have first : request.sector = 0 → trackOf media request = 0 := by
    intro zero
    rw [trackOf, zero, Int.zero_emod, Int.sub_zero]
  rw [filledState, fillBuffer, geom, window_media asked len]
  dsimp only
  rw [transferred, settleRead, if_neg (not_not_intro rfl)]
  dsimp only
  change (mapEzd (efiService firmware)
    { state with
      bufGeom := media.geometry
      bufTrack := trackOf media request
      buffer := (fillTransfer firmware media request state).segment
      world := (fillTransfer firmware media request state).world } request _, _) = _
  rw [mapEzd, remapped]
  dsimp only
  by_cases marked : trackOf media request = 0 ∧
      carriesEzd (fillTransfer firmware media request state).segment = true
  · rw [if_pos ⟨.inl marked.1, marked.2⟩, if_pos (.inl marked.1), if_pos marked]
    rfl
  · rw [if_neg (fun looked => marked ⟨looked.1.elim id first, looked.2⟩), if_neg marked]
    rfl

/-- Every transfer so far was a success. -/
def Succeeded (transfers : List DiskTransfer) : Prop :=
  ∀ transfer ∈ transfers, transfer.success = true

instance (transfers : List DiskTransfer) : Decidable (Succeeded transfers) :=
  inferInstanceAs (Decidable (∀ _ ∈ _, _))

/-- What a successful read brings in. -/
theorem efidiskTransfer_delivers {drive sector nsec : Int} {traced : Traced World}
    {segment : Int → UInt8} (low : 0 ≤ sector) (high : sector < 2 ^ 31) (nonneg : 0 ≤ nsec)
    (few : nsec ≤ 56)
    (succeeded : Succeeded
      (efidiskTransfer firmware .read drive media traced sector nsec segment).world.transfers) :
    let transfer := efidiskTransfer firmware .read drive media traced sector nsec segment
    ∀ j, 0 ≤ j → j < nsec * media.blockSize →
      Delivered transfer.world.transfers drive (sector * media.blockSize + j)
        (transfer.segment j) := by
  intro transfer j first last
  have offset : sector * media.blockSize % 2 ^ 64 = sector * media.blockSize := by
    rcases media.blockSize_cases with ⟨size, _⟩ | ⟨size, _⟩ | ⟨size, _⟩ | ⟨size, _⟩
    all_goals
      rw [size]
      omega
  have count : (toUInt32 nsec : Int) = nsec := by
    rw [toUInt32]
    omega
  let outcome := firmware.transfer traced.world .read drive (sector * media.blockSize % 2 ^ 64)
    (toUInt32 nsec * media.blockSize) segment
  have recorded : ⟨.read, drive, sector * media.blockSize % 2 ^ 64,
      toUInt32 nsec * media.blockSize, outcome.success, outcome.segment⟩ ∈
        transfer.world.transfers :=
    List.mem_append_right _ (List.mem_singleton.mpr rfl)
  refine ⟨_, recorded, rfl, succeeded _ recorded, rfl, ?_, ?_, ?_⟩
  · dsimp only
    omega
  · dsimp only
    rw [count]
    omega
  · dsimp only
    rw [offset, Int.add_comm, Int.add_sub_cancel]
    rfl

/-- The request starts in the middle of the first track and runs past its end, and
the sector it is read from has an EZ-Drive type byte. -/
def Misplaced (firmware : Firmware World) (media : BlockMedia) (request : Request)
    (state : DiskState (Traced World)) : Prop :=
  Overruns media request ∧ request.sector % sectorsPerVtrack media.geometry ≠ 0 ∧
    trackOf media request = 0 ∧
    carriesEzd (fillTransfer firmware media request state).segment = true

/-- How many bytes the first round of a request delivers. -/
def firstLength (media : BlockMedia) (request : Request) : Int :=
  min request.byteLen
    ((sectorsPerVtrack media.geometry - request.sector % sectorsPerVtrack media.geometry) *
      media.blockSize - request.byteOffset)

/-- A whole track in the buffer holds the bytes of any request in it. -/
theorem Backed.sourced (backed : Backed media state) (asked : Asked media request)
    (track : state.bufTrack = trackOf media request) {i : Int}
    (first : 0 ≤ i) (last : i < firstLength media request) :
    Sourced media state.world.transfers state.bufDrive
      (request.sector * media.blockSize + request.byteOffset + i)
      (state.buffer (request.sector % sectorsPerVtrack media.geometry * media.blockSize +
        request.byteOffset + i)) := by
  have offset := asked.offset
  rw [firstLength, Int.sub_mul] at last
  have positive : 0 < sectorsPerVtrack media.geometry := by
    rcases media.perVtrack_cases with ⟨_, per⟩ | ⟨_, per⟩ | ⟨_, per⟩ | ⟨_, per⟩ <;> omega
  have size : 0 < media.blockSize := by
    rcases media.perVtrack_cases with ⟨size, _⟩ | ⟨size, _⟩ | ⟨size, _⟩ | ⟨size, _⟩ <;> omega
  have soff : 0 ≤ request.sector % sectorsPerVtrack media.geometry * media.blockSize :=
    Int.mul_nonneg (Int.emod_nonneg _ (by omega)) (by omega)
  have place := backed (request.sector % sectorsPerVtrack media.geometry * media.blockSize +
    request.byteOffset + i) (by omega) (by omega)
  have address : state.bufTrack * media.blockSize +
      (request.sector % sectorsPerVtrack media.geometry * media.blockSize +
        request.byteOffset + i) =
      request.sector * media.blockSize + request.byteOffset + i := by
    rw [track, trackOf, Int.sub_mul]
    omega
  rw [address] at place
  exact place

/-- The track of a request starts at or before its sector. -/
theorem trackOf_bounds (media : BlockMedia) (low : 0 ≤ request.sector) :
    0 ≤ trackOf media request ∧ trackOf media request ≤ request.sector ∧
      request.sector < trackOf media request + sectorsPerVtrack media.geometry := by
  rw [trackOf]
  rcases media.perVtrack_cases with ⟨_, per⟩ | ⟨_, per⟩ | ⟨_, per⟩ | ⟨_, per⟩
  all_goals
    rw [per]
    omega

/-- A whole track read from its start backs the buffer. -/
theorem backed_of_whole (drive : state.bufDrive = request.drive)
    (high : request.sector < 2 ^ 31) (low : 0 ≤ request.sector)
    (whole : ¬ Overruns media request ∨ request.sector % sectorsPerVtrack media.geometry = 0)
    (succeeded : Succeeded (filledState firmware media request state).world.transfers) :
    Backed media (filledState firmware media request state) := by
  obtain ⟨trackLow, trackHigh, _⟩ := @trackOf_bounds request media low
  have transfer : fillTransfer firmware media request state =
      efidiskTransfer firmware .read request.drive media state.world (trackOf media request)
        (sectorsPerVtrack media.geometry) state.buffer := by
    rw [fillTransfer]
    by_cases overruns : Overruns media request
    · have aligned := whole.resolve_left (not_not_intro overruns)
      rw [if_pos overruns, if_pos overruns, trackOf, aligned, Int.sub_zero, Int.sub_zero]
    · rw [if_neg overruns, if_neg overruns]
  have few : 0 ≤ sectorsPerVtrack media.geometry ∧ sectorsPerVtrack media.geometry ≤ 56 := by
    rcases media.perVtrack_cases with ⟨_, per⟩ | ⟨_, per⟩ | ⟨_, per⟩ | ⟨_, per⟩ <;> omega
  have second : 0 < media.blockSize ∧
      2 * media.blockSize ≤ sectorsPerVtrack media.geometry * media.blockSize := by
    rcases media.perVtrack_cases with ⟨size, per⟩ | ⟨size, per⟩ | ⟨size, per⟩ | ⟨size, per⟩
    all_goals
      rw [size, per]
      decide
  rw [filledState, transfer] at succeeded ⊢
  have delivers := efidiskTransfer_delivers trackLow (by omega) few.1 few.2 succeeded
  intro i first last
  rw [drive]
  dsimp only
  rw [remapped]
  by_cases marked : trackOf media request = 0 ∧ carriesEzd (efidiskTransfer firmware .read
      request.drive media state.world (trackOf media request) (sectorsPerVtrack media.geometry)
      state.buffer).segment = true
  · rw [if_pos marked]
    by_cases inFirst : 0 ≤ i ∧ i < media.blockSize
    · rw [if_pos inFirst]
      refine .inr ⟨?_, ?_⟩
      · rw [marked.1, Int.zero_mul]
        omega
      · rw [Int.add_assoc]
        exact delivers (i + media.blockSize) (by omega) (by omega)
    · rw [if_neg inFirst]
      exact .inl (delivers i first last)
  · rw [if_neg marked]
    exact .inl (delivers i first last)

/-- The first round after filling the buffer delivers what the transfer brought in. -/
theorem filledState_sourced (drive : state.bufDrive = request.drive)
    (asked : Asked media request) (low : 0 ≤ request.sector)
    (placed : ¬ Misplaced firmware media request state)
    (succeeded : Succeeded (filledState firmware media request state).world.transfers) {i : Int}
    (first : 0 ≤ i) (last : i < firstLength media request) :
    Sourced media (filledState firmware media request state).world.transfers request.drive
      (request.sector * media.blockSize + request.byteOffset + i)
      ((filledState firmware media request state).buffer (fillAddress media request + i)) := by
  by_cases whole : ¬ Overruns media request ∨
      request.sector % sectorsPerVtrack media.geometry = 0
  · have backed := backed_of_whole drive asked.sector_lt low whole succeeded
    have sourced := backed.sourced asked rfl first last
    have address : fillAddress media request =
        request.sector % sectorsPerVtrack media.geometry * media.blockSize +
          request.byteOffset := by
      rw [fillAddress]
      by_cases overruns : Overruns media request
      · rw [if_pos overruns, whole.resolve_left (not_not_intro overruns), Int.zero_mul]
      · rw [if_neg overruns]
    rw [address, ← drive]
    exact sourced
  · obtain ⟨overruns, middle⟩ := not_or.mp whole
    have overruns := not_not.mp overruns
    have unmarked : ¬ (trackOf media request = 0 ∧
        carriesEzd (fillTransfer firmware media request state).segment = true) :=
      fun marked => placed ⟨overruns, middle, marked⟩
    have transfer : fillTransfer firmware media request state =
        efidiskTransfer firmware .read request.drive media state.world request.sector
          (sectorsPerVtrack media.geometry -
            request.sector % sectorsPerVtrack media.geometry) state.buffer := by
      rw [fillTransfer, if_pos overruns, if_pos overruns]
    have few : 0 ≤ sectorsPerVtrack media.geometry -
          request.sector % sectorsPerVtrack media.geometry ∧
        sectorsPerVtrack media.geometry -
          request.sector % sectorsPerVtrack media.geometry ≤ 56 := by
      rcases media.perVtrack_cases with ⟨_, per⟩ | ⟨_, per⟩ | ⟨_, per⟩ | ⟨_, per⟩
      all_goals
        rw [per]
        omega
    have offset := asked.offset
    rw [fillAddress, if_pos overruns, filledState]
    rw [filledState] at succeeded
    dsimp only at succeeded ⊢
    rw [remapped, if_neg unmarked]
    rw [transfer] at succeeded ⊢
    rw [firstLength] at last
    have delivers := efidiskTransfer_delivers low asked.sector_lt few.1 few.2 succeeded
      (request.byteOffset + i) (by omega) (by omega)
    rw [← Int.add_assoc] at delivers
    rw [Int.zero_add]
    exact .inl delivers

end GrubLegacy.DiskIo
