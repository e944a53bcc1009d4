import GrubLegacy.Base.Runs
import GrubLegacy.DiskIo.RawAccess

/-!
# Coherence of the track buffer

`Medium` is a drive with 512-byte sectors, 63 of them on a track, whose
transfers succeed exactly inside the medium. The buffer keeps an image of the disk:
the sectors as they are stored, or as the EZ-Drive mapping shows them, which puts
sector 1 in the place of a marked sector 0. `Coherent` ties `buf_drive` and
`buf_track` to what the buffer holds, and `Kept` says what filling it achieves.
-/

namespace GrubLegacy.DiskIo

open GrubLegacy.Base GrubLegacy.Stage2

/-- The EZ-Drive test looks at one sector only. -/
theorem carriesEzd_congr {left right : Int → UInt8}
    (same : ∀ i, 0 ≤ i → i < 512 → left i = right i) : carriesEzd left = carriesEzd right := by
  have slot : ∀ part : Int, 0 ≤ part → part < 4 → sliceTypeAt left part = sliceTypeAt right part :=
    fun part nonneg lt => same _ (by omega) (by omega)
  simp only [carriesEzd, slot 0 (by decide) (by decide), slot 1 (by decide) (by decide),
    slot 2 (by decide) (by decide), slot 3 (by decide) (by decide)]

/-- The sectors `sector, …, sector + nsec - 1` exist on a disk of this geometry. -/
def OnMedium (geometry : Geometry) (sector nsec : Int) : Prop :=
  0 ≤ sector ∧ 0 ≤ nsec ∧ sector + nsec ≤ geometry.totalSectors

instance (geometry : Geometry) (sector nsec : Int) : Decidable (OnMedium geometry sector nsec) :=
  inferInstanceAs (Decidable (_ ∧ _ ∧ _))

/-- A drive whose transfers succeed exactly when the sectors lie on the medium.
`content` is the byte stored at an address of the disk. -/
structure Medium (World : Type) where
  service : DiskService World
  drive : Int
  geometry : Geometry
  content : World → Int → UInt8
  drive_nonneg : 0 ≤ drive
  sectors_eq : geometry.sectors = 63
  sectorSize_eq : geometry.sectorSize = 512
  diskinfo : ∀ world, service.getDiskinfo world drive = some geometry
  getSectorSize : ∀ world, service.getSectorSize world drive = 512
  read_status : ∀ world geom sector nsec segment,
    (service.biosdisk world .read drive geom sector nsec segment).status = 0 ↔
      OnMedium geometry sector nsec
  read_segment : ∀ world geom sector nsec segment, OnMedium geometry sector nsec →
    ∀ i, 0 ≤ i → i < nsec * 512 →
      (service.biosdisk world .read drive geom sector nsec segment).segment i =
        content world (sector * 512 + i)
  read_content : ∀ world geom sector nsec segment,
    content (service.biosdisk world .read drive geom sector nsec segment).world = content world
  write_status : ∀ world geom sector nsec segment,
    (service.biosdisk world .write drive geom sector nsec segment).status = 0 ↔
      OnMedium geometry sector nsec
  write_content : ∀ world geom sector nsec segment, OnMedium geometry sector nsec →
    content (service.biosdisk world .write drive geom sector nsec segment).world =
      fun address =>
        if sector * 512 ≤ address ∧ address < (sector + nsec) * 512 then
          segment (address - sector * 512)
        else content world address
  write_refused : ∀ world geom sector nsec segment, ¬ OnMedium geometry sector nsec →
    content (service.biosdisk world .write drive geom sector nsec segment).world = content world

namespace Medium

variable {World : Type} (medium : Medium World)

/-- The bytes of one sector, as memory holding that sector would show them. -/
def sectorBytes (world : World) (sector : Int) : Int → UInt8 :=
  fun i => medium.content world (sector * 512 + i)

/-- The buffer takes 56 sectors of 63. -/
theorem sectorsPerVtrack_eq : sectorsPerVtrack medium.geometry = 56 := by
  have bits : grubLog2 (512 : Int) = 9 := by decide
  simp [sectorsPerVtrack, medium.sectors_eq, medium.sectorSize_eq, bits, bufferlen]

/-- The locals of a round, for a request inside one `int`. -/
theorem window_eq {request : Request} (offset : 0 ≤ request.byteOffset)
    (offset_lt : request.byteOffset < 512) (len : 0 < request.byteLen)
    (len_lt : request.byteLen < 2 ^ 31) :
    window medium.geometry request =
      { bits := 9
        slen := (request.byteOffset + request.byteLen + 511) / 512
        perVtrack := 56
        soff := request.sector % 56
        track := request.sector - request.sector % 56
        numSect := 56 - request.sector % 56 } := by
  have bits : grubLog2 (512 : Int) = 9 := by decide
  have exact_sum : (toUInt32 (request.byteOffset + request.byteLen + 512 - 1) : Int) =
      request.byteOffset + request.byteLen + 511 := by
    unfold toUInt32
    omega
  have power : (2 : Int) ^ 9 = 512 := by decide
  simp only [window, medium.sectorsPerVtrack_eq, medium.sectorSize_eq, bits, exact_sum, power]

/-- The disk as it is to be shown: sector 1 in the place of sector 0, if a slot of the
stored sector 0 has the EZ-Drive type. -/
def shown (world : World) (address : Int) : UInt8 :=
  if carriesEzd (medium.sectorBytes world 0) = true ∧ 0 ≤ address ∧ address < 512 then
    medium.content world (address + 512)
  else medium.content world address

variable {medium} in
/-- What a disk shows depends on its contents only. -/
theorem shown_congr {world other : World} (same : medium.content other = medium.content world) :
    medium.shown other = medium.shown world := by
  have sector : medium.sectorBytes other 0 = medium.sectorBytes world 0 := by
    funext i
    rw [sectorBytes, sectorBytes, same]
  funext address
  rw [shown, shown, sector, same]

/-- Only sector 0 is mapped. -/
theorem shown_late {world : World} {address : Int} (late : 512 ≤ address) :
    medium.shown world address = medium.content world address :=
  if_neg fun mapped => Int.not_lt.mpr late mapped.2.2

/-- Without the mark of EZ-Drive a disk shows itself. -/
theorem shown_unmarked {world : World} (unmarked : carriesEzd (medium.sectorBytes world 0) = false)
    (address : Int) : medium.shown world address = medium.content world address :=
  if_neg fun mapped => Bool.false_ne_true (unmarked.symm.trans mapped.1)

/-- With it the first sector shows the second one. -/
theorem shown_marked {world : World} (marked : carriesEzd (medium.sectorBytes world 0) = true)
    {address : Int} (low : 0 ≤ address) (high : address < 512) :
    medium.shown world address = medium.content world (address + 512) :=
  if_pos ⟨marked, low, high⟩

/-! ## The image in the buffer -/

/-- The buffer holds the whole virtual track `buf_track` of an image of the disk. -/
def TrackHeld (image : World → Int → UInt8) (state : DiskState World) : Prop :=
  0 ≤ state.bufTrack ∧ state.bufTrack % 56 = 0 ∧
    state.bufTrack + 56 ≤ medium.geometry.totalSectors ∧
    ∀ i, 0 ≤ i → i < 56 * 512 →
      state.buffer i = image state.world (state.bufTrack * 512 + i)

/-- What `buf_drive` and `buf_track` promise about the buffer. -/
def Coherent (image : World → Int → UInt8) (state : DiskState World) : Prop :=
  state.bufDrive = medium.drive →
    state.bufGeom = medium.geometry ∧ (state.bufTrack = -1 ∨ medium.TrackHeld image state)

variable {image : World → Int → UInt8}

/-- An empty buffer is coherent. -/
theorem coherent_of_empty {state : DiskState World} (empty : state.bufDrive = -1) :
    medium.Coherent image state := by
  intro same
  have := medium.drive_nonneg
  omega

/-! ## Filling the buffer -/

/-- `mapEzd` leaves everything alone when the buffer's first sector is not an
EZ-Drive boot sector that would be looked at. -/
theorem mapEzd_clean {state : DiskState World} {request : Request} {win : Window}
    (clean : state.bufTrack = 0 ∨ request.sector = 0 → carriesEzd state.buffer = false) :
    mapEzd medium.service state request win = state := by
  unfold mapEzd
  rw [if_neg]
  rintro ⟨looked, marked⟩
  rw [clean looked] at marked
  cases marked

/-- Whatever `mapEzd` does, it keeps the disk, the geometry and the cache key,
and never clears an error. -/
theorem mapEzd_frame (state : DiskState World) {request : Request} (win : Window)
    (drive : request.drive = medium.drive) :
    let after := mapEzd medium.service state request win
    medium.content after.world = medium.content state.world ∧ after.bufGeom = state.bufGeom ∧
      after.bufDrive = state.bufDrive ∧ after.bufTrack = state.bufTrack ∧
      (state.errnum ≠ .none → after.errnum ≠ .none) := by
  unfold mapEzd
  split
  · split
    · exact ⟨rfl, rfl, rfl, rfl, id⟩
    · refine ⟨?_, rfl, rfl, rfl, fun err => ?_⟩
      · rw [drive]
        exact medium.read_content _ _ _ _ _
      · show (if _ then GrubError.read else state.errnum) ≠ GrubError.none
        split
        · simp
        · exact err
  · exact ⟨rfl, rfl, rfl, rfl, id⟩

/-- The test at the start of the buffer, when that is sector 0 and sector 1 is behind it. -/
theorem mapEzd_start {state : DiskState World} {request : Request} {win : Window} {count : Int}
    (size : state.bufGeom.sectorSize = 512) (looked : state.bufTrack = 0 ∨ request.sector = 0)
    (copies : state.bufTrack = 0 ∨ win.slen ≥ 2) (two : 2 ≤ count)
    (stored : ∀ i, 0 ≤ i → i < count * 512 → state.buffer i = medium.content state.world i) :
    ∃ buffer, mapEzd medium.service state request win = { state with buffer := buffer } ∧
      ∀ i, 0 ≤ i → i < count * 512 → buffer i = medium.shown state.world i := by
  have first : carriesEzd state.buffer = carriesEzd (medium.sectorBytes state.world 0) := by
    refine carriesEzd_congr fun i low high => (stored i low (by omega)).trans ?_
    rw [sectorBytes, Int.zero_mul, Int.zero_add]
  cases marked : carriesEzd (medium.sectorBytes state.world 0) with
  | false =>
      rw [medium.mapEzd_clean fun _ => first.trans marked]
      exact ⟨state.buffer, rfl, fun i low high =>
        (stored i low high).trans (medium.shown_unmarked marked i).symm⟩
  | true =>
      rw [mapEzd, if_pos ⟨looked, first.trans marked⟩, if_pos copies, size]
      refine ⟨_, rfl, fun i low high => ?_⟩
      by_cases inFirst : i < 512
      · rw [if_pos ⟨low, inFirst⟩, medium.shown_marked marked low inFirst]
        exact stored _ (by omega) (by omega)
      · rw [if_neg fun mapped => inFirst mapped.2, medium.shown_late (Int.not_lt.mp inFirst)]
        exact stored i low high

/-- The test when only sector 0 was read: sector 1 is read in its place. -/
theorem mapEzd_single {state : DiskState World} {request : Request} {win : Window}
    (drive : request.drive = medium.drive) (dropped : state.bufTrack = -1)
    (first : request.sector = 0) (single : ¬ win.slen ≥ 2)
    (stored : ∀ i, 0 ≤ i → i < 512 → state.buffer i = medium.content state.world i)
    (noError : (mapEzd medium.service state request win).errnum = .none) :
    ∀ i, 0 ≤ i → i < 512 →
      (mapEzd medium.service state request win).buffer i = medium.shown state.world i := by
  have same : carriesEzd state.buffer = carriesEzd (medium.sectorBytes state.world 0) := by
    refine carriesEzd_congr fun i low high => (stored i low high).trans ?_
    rw [sectorBytes, Int.zero_mul, Int.zero_add]
  cases marked : carriesEzd (medium.sectorBytes state.world 0) with
  | false =>
      rw [medium.mapEzd_clean fun _ => same.trans marked]
      exact fun i low high => (stored i low high).trans (medium.shown_unmarked marked i).symm
  | true =>
      have noTrack : ¬ (state.bufTrack = 0 ∨ win.slen ≥ 2) := by omega
      have looked : (state.bufTrack = 0 ∨ request.sector = 0) ∧ carriesEzd state.buffer = true :=
        ⟨.inr first, same.trans marked⟩
      rw [mapEzd, if_pos looked, if_neg noTrack, drive] at noError ⊢
      dsimp only at noError ⊢
      have status : (medium.service.biosdisk state.world .read medium.drive state.bufGeom 1 1
          state.buffer).status = 0 := by
        by_contra failed
        rw [if_pos failed] at noError
        cases noError
      have second := medium.read_segment state.world state.bufGeom 1 1 state.buffer
        ((medium.read_status _ _ _ _ _).mp status)
      intro i low high
      rw [medium.shown_marked marked low high, second i low (by omega)]
      congr 1
      omega

/-- A request `rawread` is called with: a byte offset inside the first sector
and a positive length. -/
structure Sane (request : Request) : Prop where
  drive : request.drive = medium.drive
  offset : 0 ≤ request.byteOffset
  offset_lt : request.byteOffset < 512
  len : 0 < request.byteLen
  len_lt : request.byteLen < 2 ^ 31

/-- The request runs past the end of the virtual track it starts in. -/
def Spills (request : Request) : Prop :=
  (request.byteOffset + request.byteLen + 511) / 512 > 56 - request.sector % 56

instance (request : Request) : Decidable (Spills request) := inferInstanceAs (Decidable (_ > _))

/-- Number of bytes the first round of a request delivers. -/
def firstPiece (request : Request) : Int :=
  min request.byteLen ((56 - request.sector % 56) * 512 - request.byteOffset)

/-- The buffer was filled from the middle of its track, under the track's number. -/
def Displaced (request : Request) (state : DiskState World) : Prop :=
  Spills request ∧ request.sector % 56 ≠ 0 ∧
    state.bufTrack = request.sector - request.sector % 56 ∧
    request.sector - request.sector % 56 + 56 ≤ medium.geometry.totalSectors

/-- The buffer was filled with the whole track of the request. -/
def Replaced (image : World → Int → UInt8) (request : Request) (state : DiskState World) : Prop :=
  state.bufTrack = request.sector - request.sector % 56 ∧
    (Spills request → request.sector % 56 = 0) ∧ medium.TrackHeld image state

/-- What filling the buffer for a request achieves. -/
structure Filled (image : World → Int → UInt8) (request : Request) (before : DiskState World)
    (after : DiskState World × Int) : Prop where
  content : medium.content after.1.world = medium.content before.world
  geometry : after.1.bufGeom = before.bufGeom
  drive : after.1.bufDrive = before.bufDrive
  bytes : after.1.errnum = .none → ∀ i, 0 ≤ i → i < firstPiece request →
    after.1.buffer (after.2 + i) =
      image before.world (request.sector * 512 + request.byteOffset + i)
  cache : after.1.bufTrack = -1 ∨ medium.Replaced image request after.1 ∨
    medium.Displaced request after.1 ∧ after.1.errnum = .none

/-- An error drops the cache. -/
theorem filled_of_error {request : Request} {before after : DiskState World} {win : Window}
    {bufaddr : Int} (drive : request.drive = medium.drive)
    (content : medium.content after.world = medium.content before.world)
    (geometry : after.bufGeom = before.bufGeom) (bufDrive : after.bufDrive = before.bufDrive)
    (dropped : after.bufTrack = -1) (error : after.errnum ≠ .none) :
    medium.Filled image request before (mapEzd medium.service after request win, bufaddr) := by
  obtain ⟨contentEq, geomEq, driveEq, trackEq, errKept⟩ := medium.mapEzd_frame after win drive
  exact {
    content := contentEq.trans content
    geometry := geomEq.trans geometry
    drive := driveEq.trans bufDrive
    bytes := fun none => absurd none (errKept error)
    cache := Or.inl (trackEq.trans dropped) }

/-- A failed transfer whose retry is not attempted or fails as well drops the cache and
leaves an error. -/
theorem settleRead_drops {request : Request} {before state : DiskState World} {win : Window}
    {status bufaddr : Int} (drive : request.drive = medium.drive) (failed : status ≠ 0)
    (noRetry : win.slen > win.numSect ∨ ¬ OnMedium medium.geometry request.sector win.slen)
    (content : medium.content state.world = medium.content before.world)
    (geometry : state.bufGeom = before.bufGeom) (bufDrive : state.bufDrive = before.bufDrive) :
    let after := (settleRead medium.service state request win status bufaddr).1
    medium.content after.world = medium.content before.world ∧ after.bufGeom = before.bufGeom ∧
      after.bufDrive = before.bufDrive ∧ after.bufTrack = -1 ∧ after.errnum ≠ .none := by
  simp only [settleRead, failed, ne_eq, not_false_eq_true, if_true, retryRead, drive]
  split
  · exact ⟨content, geometry, bufDrive, rfl, by simp⟩
  · split
    · exact ⟨content, geometry, bufDrive, rfl, by simp⟩
    · rename_i fits
      have absent := noRetry.resolve_left fits
      have status := mt (medium.read_status state.world state.bufGeom request.sector win.slen
        state.buffer).mp absent
      exact ⟨(medium.read_content _ _ _ _ _).trans content, geometry, bufDrive, rfl,
        by simp [status]⟩

/-- A failed transfer whose retry is not attempted or fails as well. -/
theorem filled_of_failed {request : Request} {before state : DiskState World} {win : Window}
    {status bufaddr : Int} (drive : request.drive = medium.drive) (failed : status ≠ 0)
    (noRetry : win.slen > win.numSect ∨ ¬ OnMedium medium.geometry request.sector win.slen)
    (content : medium.content state.world = medium.content before.world)
    (geometry : state.bufGeom = before.bufGeom) (bufDrive : state.bufDrive = before.bufDrive) :
    let settled := settleRead medium.service state request win status bufaddr
    medium.Filled image request before (mapEzd medium.service settled.1 request win, settled.2) := by
  obtain ⟨content, geometry, bufDrive, dropped, error⟩ := @settleRead_drops World medium request
    before state win status bufaddr drive failed noRetry content geometry bufDrive
  exact medium.filled_of_error drive content geometry bufDrive dropped error

/-- A failed transfer of a whole track whose retry finds the sectors that are needed. -/
theorem filled_of_retried {request : Request} {before state : DiskState World} {win : Window}
    {status bufaddr : Int} (sane : medium.Sane request) (low : 0 ≤ request.sector)
    (failed : status ≠ 0) (fits : ¬ win.slen > win.numSect)
    (needed : win.slen = (request.byteOffset + request.byteLen + 511) / 512)
    (again : OnMedium medium.geometry request.sector win.slen)
    (content : medium.content state.world = medium.content before.world)
    (loaded : state.bufGeom = medium.geometry) (geometry : state.bufGeom = before.bufGeom)
    (bufDrive : state.bufDrive = before.bufDrive) :
    let settled := settleRead medium.service state request win status bufaddr
    medium.Filled medium.shown request before (mapEzd medium.service settled.1 request win, settled.2) := by
  have ok := (medium.read_status state.world state.bufGeom request.sector win.slen
    state.buffer).mpr again
  have segment := medium.read_segment state.world state.bufGeom request.sector win.slen
    state.buffer again
  have content' := medium.read_content state.world state.bufGeom request.sector win.slen
    state.buffer
  have offset := sane.offset
  have len := sane.len
  rw [← content'] at segment
  simp only [settleRead, failed, ne_eq, not_false_eq_true, if_true, retryRead, sane.drive, fits,
    if_false, ok, not_true_eq_false]
  generalize medium.service.biosdisk state.world .read medium.drive state.bufGeom request.sector
    win.slen state.buffer = transfer at segment content'
  split
  · exact medium.filled_of_error sane.drive content geometry bufDrive rfl (by simp)
  · by_cases first : request.sector = 0
    · rw [first, Int.zero_mul] at segment
      simp only [Int.zero_add] at segment
      have bytes : ∀ {after : DiskState World}, (∀ i, 0 ≤ i → i < win.slen * 512 →
          after.buffer i = medium.shown transfer.world i) →
          ∀ i, 0 ≤ i → i < firstPiece request → after.buffer (request.byteOffset + i) =
            medium.shown before.world (request.sector * 512 + request.byteOffset + i) := by
        intro after shows i nonneg lt
        rw [firstPiece] at lt
        rw [shows _ (by omega) (by omega), shown_congr (content'.trans content), first]
        congr 1
        omega
      obtain ⟨contentEq, geomEq, driveEq, trackEq, _⟩ := medium.mapEzd_frame
        { state with bufTrack := -1, buffer := transfer.segment, world := transfer.world } win
        sane.drive
      refine ⟨contentEq.trans (content'.trans content), geomEq.trans geometry,
        driveEq.trans bufDrive, fun noError => bytes ?_, .inl trackEq⟩
      by_cases two : win.slen ≥ 2
      · obtain ⟨buffer, mapped, shows⟩ := @mapEzd_start World medium
          { state with bufTrack := -1, buffer := transfer.segment, world := transfer.world }
          request win win.slen (by rw [loaded, medium.sectorSize_eq]) (.inr first) (.inr two) two
          segment
        rw [mapped]
        exact shows
      · have shows := medium.mapEzd_single sane.drive rfl first two
          (fun i nonneg lt => segment i nonneg (by omega)) noError
        exact fun i nonneg lt => shows i nonneg (by omega)
    · rw [medium.mapEzd_clean fun looked => by dsimp only at looked; omega]
      refine ⟨content'.trans content, geometry, bufDrive, fun _ i nonneg lt => ?_, .inl rfl⟩
      rw [firstPiece] at lt
      refine (segment _ (by omega) (by omega)).trans ?_
      rw [content', content, medium.shown_late (by omega)]
      congr 1
      omega

/-- The buffer was filled with the whole track of a request. -/
theorem filled_of_whole {request : Request} {before state : DiskState World} {win : Window}
    {bufaddr : Int} (sane : medium.Sane request) (low : 0 ≤ request.sector)
    (content : medium.content state.world = medium.content before.world)
    (loaded : state.bufGeom = medium.geometry) (geometry : state.bufGeom = before.bufGeom)
    (bufDrive : state.bufDrive = before.bufDrive)
    (track : state.bufTrack = request.sector - request.sector % 56)
    (aligned : Spills request → request.sector % 56 = 0)
    (inside : request.sector - request.sector % 56 + 56 ≤ medium.geometry.totalSectors)
    (place : bufaddr = request.sector % 56 * 512 + request.byteOffset)
    (stored : ∀ i, 0 ≤ i → i < 56 * 512 → state.buffer i =
      medium.content state.world ((request.sector - request.sector % 56) * 512 + i)) :
    medium.Filled medium.shown request before (mapEzd medium.service state request win, bufaddr) := by
  have mapped : ∃ buffer, mapEzd medium.service state request win = { state with buffer := buffer } ∧
      ∀ i, 0 ≤ i → i < 56 * 512 → buffer i = medium.shown state.world
        ((request.sector - request.sector % 56) * 512 + i) := by
    by_cases first : request.sector - request.sector % 56 = 0
    · rw [first, Int.zero_mul] at stored ⊢
      simp only [Int.zero_add] at stored ⊢
      exact medium.mapEzd_start (by rw [loaded, medium.sectorSize_eq]) (.inl (track.trans first))
        (.inl (track.trans first)) (by decide) stored
    · rw [medium.mapEzd_clean fun looked => by omega]
      exact ⟨state.buffer, rfl, fun i nonneg lt =>
        (stored i nonneg lt).trans (medium.shown_late (by omega)).symm⟩
  obtain ⟨buffer, mapped, bytes⟩ := mapped
  have offset := sane.offset
  rw [mapped]
  refine ⟨content, geometry, bufDrive, fun _ i nonneg lt => ?_,
    .inr (.inl ⟨track, aligned, ?_, ?_, ?_, ?_⟩)⟩
  · rw [firstPiece] at lt
    show buffer (bufaddr + i) = _
    rw [bytes _ (by omega) (by omega), shown_congr content, place]
    congr 1
    omega
  · show 0 ≤ state.bufTrack
    omega
  · show state.bufTrack % 56 = 0
    omega
  · show state.bufTrack + 56 ≤ _
    omega
  · intro i nonneg lt
    show buffer i = medium.shown state.world (state.bufTrack * 512 + i)
    rw [track]
    exact bytes i nonneg lt

/-- The request runs past the end of track 0 from the middle of it, and the sector it
starts with looks like the first one of an EZ-Drive disk. -/
def Mistaken (request : Request) (world : World) : Prop :=
  Spills request ∧ 0 < request.sector ∧ request.sector < 56 ∧
    56 ≤ medium.geometry.totalSectors ∧
    carriesEzd (medium.sectorBytes world request.sector) = true

instance (request : Request) (world : World) : Decidable (medium.Mistaken request world) :=
  inferInstanceAs (Decidable (_ ∧ _))

/-- Filling for a request that runs past its track. -/
theorem fillBuffer_spills {request : Request} {state : DiskState World}
    (sane : medium.Sane request) (geom : state.bufGeom = medium.geometry)
    (noErr : state.errnum = .none) (low : 0 ≤ request.sector) (spills : Spills request)
    (placed : ¬ medium.Mistaken request state.world) :
    medium.Filled medium.shown request state
      (fillBuffer medium.service state request (window state.bufGeom request)) := by
  have spills' : (request.byteOffset + request.byteLen + 511) / 512 >
    56 - request.sector % 56 := spills
  have offset := sane.offset
  simp only [fillBuffer, geom, medium.window_eq sane.offset sane.offset_lt sane.len sane.len_lt,
    spills', if_true, sane.drive]
  by_cases onMedium : OnMedium medium.geometry request.sector (56 - request.sector % 56)
  · have status := (medium.read_status state.world medium.geometry request.sector
      (56 - request.sector % 56) state.buffer).mpr onMedium
    have segment := medium.read_segment state.world medium.geometry request.sector
      (56 - request.sector % 56) state.buffer onMedium
    have content := medium.read_content state.world medium.geometry request.sector
      (56 - request.sector % 56) state.buffer
    obtain ⟨_, _, inside⟩ := onMedium
    simp only [settleRead, status, ne_eq, not_true_eq_false, if_false]
    by_cases aligned : request.sector % 56 = 0
    · refine medium.filled_of_whole sane low content rfl geom.symm rfl rfl (fun _ => aligned)
        (by omega) (by omega) fun i nonneg lt => ?_
      refine (segment i nonneg (by omega)).trans ?_
      rw [content, aligned, Int.sub_zero]
    · have unlooked : ∀ {buffer : Int → UInt8}, (∀ i, 0 ≤ i → i < 512 →
          buffer i = medium.sectorBytes state.world request.sector i) → request.sector < 56 →
          carriesEzd buffer = false := by
        intro buffer bytes first
        rw [carriesEzd_congr bytes]
        exact Bool.eq_false_iff.mpr fun marked => placed ⟨spills, by omega, first, by omega, marked⟩
      rw [medium.mapEzd_clean fun looked => unlooked
        (fun i nonneg lt => segment i nonneg (by omega)) (by dsimp only at looked; omega)]
      refine ⟨content, geom.symm, rfl, fun _ i nonneg lt => ?_, .inr (.inr ?_)⟩
      · rw [firstPiece] at lt
        refine (segment _ (by omega) (by omega)).trans ?_
        rw [medium.shown_late (by omega)]
        congr 1
        omega
      · exact ⟨⟨spills, aligned, rfl, by omega⟩, noErr⟩
  · have status := mt (medium.read_status state.world medium.geometry request.sector
      (56 - request.sector % 56) state.buffer).mp onMedium
    exact medium.filled_of_failed sane.drive status (.inl spills')
      (medium.read_content _ _ _ _ _) geom.symm rfl

/-- Filling for a request inside one track. -/
theorem fillBuffer_fits {request : Request} {state : DiskState World}
    (sane : medium.Sane request) (geom : state.bufGeom = medium.geometry)
    (low : 0 ≤ request.sector) (fits : ¬ Spills request) :
    medium.Filled medium.shown request state
      (fillBuffer medium.service state request (window state.bufGeom request)) := by
  have fits' : ¬ (request.byteOffset + request.byteLen + 511) / 512 >
    56 - request.sector % 56 := fits
  have power : (2 : Int) ^ 9 = 512 := by decide
  simp only [fillBuffer, geom, medium.window_eq sane.offset sane.offset_lt sane.len sane.len_lt,
    fits', if_false, sane.drive, power]
  by_cases onMedium : OnMedium medium.geometry (request.sector - request.sector % 56) 56
  · have status := (medium.read_status state.world medium.geometry
      (request.sector - request.sector % 56) 56 state.buffer).mpr onMedium
    have segment := medium.read_segment state.world medium.geometry
      (request.sector - request.sector % 56) 56 state.buffer onMedium
    have content := medium.read_content state.world medium.geometry
      (request.sector - request.sector % 56) 56 state.buffer
    simp only [settleRead, status, ne_eq, not_true_eq_false, if_false]
    refine medium.filled_of_whole sane low content rfl geom.symm rfl rfl
      (fun spills => absurd spills fits) onMedium.2.2 rfl
      fun i nonneg lt => ?_
    refine (segment i nonneg lt).trans ?_
    rw [content]
  · have status := mt (medium.read_status state.world medium.geometry
      (request.sector - request.sector % 56) 56 state.buffer).mp onMedium
    by_cases again : OnMedium medium.geometry request.sector
        ((request.byteOffset + request.byteLen + 511) / 512)
    · exact medium.filled_of_retried sane low status fits' rfl again
        (medium.read_content _ _ _ _ _) rfl geom.symm rfl
    · exact medium.filled_of_failed sane.drive status (.inr again)
        (medium.read_content _ _ _ _ _) geom.symm rfl

/-- The first sector the filling of the buffer brings in. -/
def firstBuffered (request : Request) : Int :=
  if Spills request then request.sector
  else if request.sector - request.sector % 56 + 56 ≤ medium.geometry.totalSectors then
    request.sector - request.sector % 56
  else request.sector

variable {medium} in
/-- Where the sector that the buffer starts with is not marked, the disk shows itself. -/
theorem Filled.stored {request : Request} {state : DiskState World}
    {after : DiskState World × Int} (filled : medium.Filled medium.shown request state after)
    (sane : medium.Sane request) (low : 0 ≤ request.sector)
    (clean : request.sector < 56 →
      carriesEzd (medium.sectorBytes state.world (medium.firstBuffered request)) = false) :
    medium.Filled medium.content request state after := by
  -- a buffer that starts with sector 0 was seen to be unmarked
  have unmarked : ∀ {address : Int}, 512 ≤ address ∨ medium.firstBuffered request = 0 ∧
      request.sector < 56 → medium.shown state.world address =
        medium.content state.world address := by
    rintro address (late | ⟨start, first⟩)
    · exact medium.shown_late late
    · exact medium.shown_unmarked (start ▸ clean first) address
  have offset := sane.offset
  refine ⟨filled.content, filled.geometry, filled.drive, fun noErr i nonneg lt =>
    (filled.bytes noErr i nonneg lt).trans (unmarked ?_), ?_⟩
  · rcases Int.lt_or_le 0 request.sector with later | first
    · exact .inl (by omega)
    · refine .inr ⟨?_, by omega⟩
      rw [firstBuffered]
      split
      · omega
      · split <;> omega
  · refine filled.cache.imp_right (Or.imp_left ?_)
    rintro ⟨track, aligned, trackLow, trackAligned, inside, bytes⟩
    refine ⟨track, aligned, trackLow, trackAligned, inside, fun i nonneg lt => ?_⟩
    rw [bytes i nonneg lt, shown_congr filled.content, filled.content]
    refine unmarked ?_
    rcases Int.lt_or_le request.sector 56 with first | later
    · refine .inr ⟨?_, first⟩
      rw [firstBuffered]
      split
      · next spills =>
        have := aligned spills
        omega
      · rw [if_pos (by omega)]
        omega
    · exact .inl (by omega)

/-- An image that the buffer keeps: it depends on what is stored only, and filling the
buffer for a request that is well placed shows it. -/
structure Kept (image : World → Int → UInt8) (placed : Request → World → Prop) : Prop where
  congr : ∀ {world other}, medium.content other = medium.content world → image other = image world
  fills : ∀ {request : Request} {state : DiskState World}, medium.Sane request →
    state.bufGeom = medium.geometry → state.errnum = .none → 0 ≤ request.sector →
    placed request state.world →
    medium.Filled image request state
      (fillBuffer medium.service state request (window state.bufGeom request))
  later : ∀ {request : Request} {world : World}, request.sector < 0 ∨ 56 ≤ request.sector →
    placed request world

/-- The disk as it is to be shown is kept for every request but the mistaken ones. -/
theorem kept_shown :
    medium.Kept medium.shown fun request world => ¬ medium.Mistaken request world where
  congr := shown_congr
  fills := by
    intro request state sane geom noErr low placed
    by_cases spills : Spills request
    · exact medium.fillBuffer_spills sane geom noErr low spills placed
    · exact medium.fillBuffer_fits sane geom low spills
  later := by
    rintro request world apart ⟨_, low, high, _⟩
    omega

/-- The sector that the buffer will start with is not marked, where that is looked at. -/
def Unmarked (request : Request) (world : World) : Prop :=
  0 ≤ request.sector → request.sector < 56 →
    carriesEzd (medium.sectorBytes world (medium.firstBuffered request)) = false

/-- The disk as it is stored is kept for the requests that meet no mark. -/
theorem kept_content : medium.Kept medium.content medium.Unmarked where
  congr := id
  fills := by
    intro request state sane geom noErr low clean
    refine Filled.stored ?_ sane low (clean low)
    refine medium.kept_shown.fills sane geom noErr low ?_
    rintro ⟨spills, _, first, _, marked⟩
    have start : medium.firstBuffered request = request.sector := if_pos spills
    exact Bool.false_ne_true ((start ▸ clean low first).symm.trans marked)
  later := by
    intro request world apart low high
    omega

/-! ## A usable buffer -/

/-- The track of the request is in the buffer, by its number. -/
def Buffered (request : Request) (state : DiskState World) : Prop :=
  state.bufDrive = medium.drive ∧ state.bufTrack = request.sector - request.sector % 56

/-- The buffer is usable for a request: it is empty, or holds its track, or
holds something under another track's number while the request will succeed in
replacing it. -/
def Usable (image : World → Int → UInt8) (request : Request)
    (state : DiskState World) : Prop :=
  state.bufDrive = medium.drive →
    state.bufGeom = medium.geometry ∧
      (state.bufTrack = -1 ∨ medium.TrackHeld image state ∨
        state.bufTrack ≠ request.sector - request.sector % 56 ∧ 0 ≤ request.sector ∧
          request.sector < medium.geometry.totalSectors ∧ 0 < request.byteLen ∧
          state.errnum = .none)

variable {medium} in
/-- A coherent buffer can be used for every request. -/
theorem Coherent.usable {state : DiskState World} (coherent : medium.Coherent image state)
    (request : Request) : medium.Usable image request state := by
  intro same
  obtain ⟨geom, empty | held⟩ := coherent same
  · exact ⟨geom, Or.inl empty⟩
  · exact ⟨geom, Or.inr (Or.inl held)⟩

variable {medium} in
/-- A request that will not be served leaves a usable cache coherent. -/
theorem Usable.coherent {request : Request} {state : DiskState World}
    (usable : medium.Usable image request state)
    (idle : ¬ (0 ≤ request.sector ∧ request.sector < medium.geometry.totalSectors ∧
      0 < request.byteLen ∧ state.errnum = .none)) : medium.Coherent image state := by
  intro same
  obtain ⟨geom, empty | held | ⟨_, serves⟩⟩ := usable same
  · exact ⟨geom, Or.inl empty⟩
  · exact ⟨geom, Or.inr held⟩
  · exact absurd serves idle

/-- The geometry is loaded: the cache belongs to this drive. -/
theorem loadGeometry_spec {request : Request} {state : DiskState World}
    (usable : medium.Usable image request state) :
    ∃ loaded, loadGeometry medium.service state medium.drive = some loaded ∧
      loaded.bufDrive = medium.drive ∧ loaded.bufGeom = medium.geometry ∧
      loaded.world = state.world ∧ loaded.errnum = state.errnum ∧
      medium.Usable image request loaded ∧ (state.bufDrive = medium.drive → loaded = state) := by
  unfold loadGeometry
  by_cases same : state.bufDrive = medium.drive
  · rw [if_pos same]
    exact ⟨state, rfl, same, (usable same).1, rfl, rfl, usable, fun _ => rfl⟩
  · rw [if_neg same, medium.diskinfo]
    exact ⟨_, rfl, rfl, rfl, rfl, rfl, fun _ => ⟨rfl, Or.inl rfl⟩, fun hit => absurd hit same⟩

end Medium

end GrubLegacy.DiskIo
