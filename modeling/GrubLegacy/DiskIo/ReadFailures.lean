import GrubLegacy.Base.Runs
import GrubLegacy.DiskIo.EfiBuffer

/-!
# Failed transfers

Rounds, calls and runs of `rawread` and `rawwrite` over the EFI disk layer: what is
returned stands on successful transfers only as long as none fails.
-/

namespace GrubLegacy.DiskIo

open GrubLegacy.Base GrubLegacy.Stage2

variable {World : Type} {firmware : Firmware World} {media : BlockMedia} {request : Request}
  {state : DiskState (Traced World)}

/-! ## One round -/

/-- The bytes from an address of the disk on come from successful reads. -/
def SourcedFrom (media : BlockMedia) (transfers : List DiskTransfer) (drive address : Int)
    (bytes : List UInt8) : Prop :=
  ∀ i (inside : i < bytes.length), Sourced media transfers drive (address + i)
    (bytes.get ⟨i, inside⟩)

/-- Two pieces that came from the disk are one that did. -/
theorem SourcedFrom.append {transfers : List DiskTransfer} {drive address : Int}
    {first second : List UInt8} (head : SourcedFrom media transfers drive address first)
    (tail : SourcedFrom media transfers drive (address + first.length) second) :
    SourcedFrom media transfers drive address (first ++ second) := by
  intro i inside
  rcases Nat.lt_or_ge i first.length with early | late
  · have byte : (first ++ second).get ⟨i, inside⟩ = first.get ⟨i, early⟩ :=
      List.getElem_append_left early
    rw [byte]
    exact head i early
  · have within : i - first.length < second.length := by
      rw [List.length_append] at inside
      omega
    have byte : (first ++ second).get ⟨i, inside⟩ = second.get ⟨i - first.length, within⟩ :=
      List.getElem_append_right late
    have address_ : address + (i : Int) = address + first.length + (i - first.length : Nat) := by
      omega
    rw [byte, address_]
    exact tail (i - first.length) within

/-- Bytes of memory came from the disk if each of them did. -/
theorem sourcedFrom_bytesFrom {transfers : List DiskTransfer} {drive address place count : Int}
    {memory : Int → UInt8}
    (sourced : ∀ i, 0 ≤ i → i < count →
      Sourced media transfers drive (address + i) (memory (place + i))) :
    SourcedFrom media transfers drive address (bytesFrom memory place count) := by
  intro i inside
  have last : i < count.toNat := length_bytesFrom memory place count ▸ inside
  have byte : (bytesFrom memory place count).get ⟨i, inside⟩ = memory (place + i) := by
    simp only [bytesFrom_eq, List.get_eq_getElem, List.getElem_map, List.getElem_range]
  rw [byte]
  exact sourced i (Int.natCast_nonneg i) (by omega)

/-- The virtual track of the request is the one in the buffer. -/
def Cached (media : BlockMedia) (request : Request) (state : DiskState (Traced World)) : Prop :=
  state.bufDrive = request.drive ∧ state.bufTrack = trackOf media request

/-- The request starts in the middle of a track, runs past its end, and the next
track does not begin on the medium or has no `int` number. -/
def CutShort (media : BlockMedia) (request : Request) (state : DiskState (Traced World)) : Prop :=
  state.errnum = .none ∧ ¬ Cached media request state ∧ 0 ≤ request.sector ∧
    Overruns media request ∧ request.sector % sectorsPerVtrack media.geometry ≠ 0 ∧
    ¬ (trackOf media request + sectorsPerVtrack media.geometry < media.geometry.totalSectors ∧
      trackOf media request + sectorsPerVtrack media.geometry < 2 ^ 31)

/-- What the loop of `rawread` keeps. The buffer may hold something under the wrong
track number while the request is bound to replace it. -/
structure Ready (firmware : Firmware World) (media : BlockMedia) (request : Request)
    (state : DiskState (Traced World)) : Prop where
  found : firmware.media request.drive = some media
  asked : Asked media request
  usable : state.bufDrive = request.drive → state.bufGeom = media.geometry ∧
    (state.bufTrack = -1 ∨ Backed media state ∨
      state.bufTrack ≠ trackOf media request ∧ 0 ≤ request.sector ∧
        request.sector < media.geometry.totalSectors ∧ 0 < request.byteLen ∧
        state.errnum = .none)
  other : state.bufDrive ≠ request.drive → CacheSound firmware state
  whole : ¬ CutShort media request state
  placed : ¬ Cached media request state → ¬ Misplaced firmware media request state

/-- A request that is not served leaves the cache sound. -/
theorem Ready.sound (ready : Ready firmware media request state)
    (idle : ¬ (0 ≤ request.sector ∧ request.sector < media.geometry.totalSectors ∧
      0 < request.byteLen ∧ state.errnum = .none)) : CacheSound firmware state := by
  by_cases same : state.bufDrive = request.drive
  · obtain ⟨geom, empty | backed | ⟨_, serves⟩⟩ := ready.usable same
    · exact .inr ⟨media, same ▸ ready.found, geom, .inl empty⟩
    · exact .inr ⟨media, same ▸ ready.found, geom, .inr backed⟩
    · exact absurd serves idle
  · exact ready.other same

/-- What is left of a request after a round. -/
def nextRequest (media : BlockMedia) (request : Request) : Request :=
  { request with
    sector := toInt32 (request.sector + (sectorsPerVtrack media.geometry -
      request.sector % sectorsPerVtrack media.geometry))
    byteOffset := 0
    byteLen := request.byteLen - firstLength media request }

/-- The next round starts on a track, or at a number that `int` cannot hold. -/
theorem nextRequest_sector (media : BlockMedia) (low : 0 ≤ request.sector)
    (high : request.sector < 2 ^ 31) :
    ((nextRequest media request).sector =
        trackOf media request + sectorsPerVtrack media.geometry ∧
      (nextRequest media request).sector % sectorsPerVtrack media.geometry = 0 ∧
      trackOf media request + sectorsPerVtrack media.geometry < 2 ^ 31) ∨
    (nextRequest media request).sector < 0 ∧
      2 ^ 31 ≤ trackOf media request + sectorsPerVtrack media.geometry := by
  have next : (nextRequest media request).sector =
    toInt32 (request.sector + (sectorsPerVtrack media.geometry -
      request.sector % sectorsPerVtrack media.geometry)) := rfl
  have per : 0 < sectorsPerVtrack media.geometry ∧ sectorsPerVtrack media.geometry ≤ 56 := by
    rcases media.perVtrack_cases with ⟨_, per⟩ | ⟨_, per⟩ | ⟨_, per⟩ | ⟨_, per⟩ <;> omega
  have soff := Int.emod_nonneg request.sector (Int.ne_of_gt per.1)
  have soff_lt := Int.emod_lt_of_pos request.sector per.1
  have sum : request.sector + (sectorsPerVtrack media.geometry -
      request.sector % sectorsPerVtrack media.geometry) =
        trackOf media request + sectorsPerVtrack media.geometry := by
    rw [trackOf]
    omega
  rw [next, sum]
  obtain ⟨trackLow, trackHigh, _⟩ := @trackOf_bounds request media low
  rcases Int.lt_or_le (trackOf media request + sectorsPerVtrack media.geometry) (2 ^ 31) with
    fits | wraps
  · rw [toInt32_of_range (by omega) fits]
    refine .inl ⟨rfl, ?_, fits⟩
    rw [Int.add_emod_right, trackOf]
    exact Int.emod_eq_zero_of_dvd (Int.dvd_self_sub_emod)
  · rw [toInt32_of_overflow wraps (by omega)]
    exact .inr ⟨by omega, wraps⟩

/-- A request that runs past its track is not done after a round. -/
theorem nextRequest_more (overruns : Overruns media request) :
    0 < (nextRequest media request).byteLen := by
  have size : 0 < media.blockSize := by
    rcases media.perVtrack_cases with ⟨size, _⟩ | ⟨size, _⟩ | ⟨size, _⟩ | ⟨size, _⟩ <;> omega
  have beyond := (Int.le_ediv_iff_mul_le size).mp (Int.add_one_le_of_lt overruns)
  have len : (nextRequest media request).byteLen =
    request.byteLen - firstLength media request := rfl
  rw [Int.add_mul, Int.one_mul] at beyond
  rw [len, firstLength]
  omega

/-- A round delivers something. -/
theorem firstLength_pos (asked : Asked media request) (len : 0 < request.byteLen) :
    0 < firstLength media request := by
  have offset_lt := asked.offset_lt
  rw [firstLength]
  have rest : media.blockSize ≤
      (sectorsPerVtrack media.geometry - request.sector % sectorsPerVtrack media.geometry) *
        media.blockSize := by
    rcases media.perVtrack_cases with ⟨size, per⟩ | ⟨size, per⟩ | ⟨size, per⟩ | ⟨size, per⟩
    all_goals
      rw [size, per]
      omega
  omega

/-- What a round that delivers leaves. -/
structure ServedRound (firmware : Firmware World) (media : BlockMedia) (request : Request)
    (after : DiskState (Traced World)) (bytes : List UInt8) : Prop where
  errnum : after.errnum = .none
  length : bytes.length = firstLength media request
  sourced : SourcedFrom media after.world.transfers request.drive
    (request.sector * media.blockSize + request.byteOffset) bytes
  drive : after.bufDrive = request.drive
  geometry : after.bufGeom = media.geometry
  cache : Backed media after ∨
    after.bufTrack = trackOf media request ∧ Overruns media request ∧
      request.sector % sectorsPerVtrack media.geometry ≠ 0 ∧
      trackOf media request + sectorsPerVtrack media.geometry < media.geometry.totalSectors ∧
      trackOf media request + sectorsPerVtrack media.geometry < 2 ^ 31

/-- Noting the sectors leaves a round served. -/
theorem ServedRound.note {bytes : List UInt8}
    (served : ServedRound firmware media request state bytes) (size : Int) :
    ServedRound firmware media request (noteSectors state request size) bytes := by
  obtain ⟨reported, noted⟩ := noteSectors_eq state request size
  rw [noted]
  exact ⟨served.errnum, served.length, served.sourced, served.drive, served.geometry,
    served.cache⟩

/-- A round whose track is in the buffer. -/
theorem served_of_cached (asked : Asked media request) (noError : state.errnum = .none)
    (len : 0 < request.byteLen) (drive : state.bufDrive = request.drive)
    (geom : state.bufGeom = media.geometry) (backed : Backed media state)
    (track : state.bufTrack = trackOf media request) :
    ServedRound firmware media request state
      (bytesFrom state.buffer (request.sector % sectorsPerVtrack media.geometry *
        media.blockSize + request.byteOffset) (firstLength media request)) where
  errnum := noError
  length := by
    rw [length_bytesFrom]
    exact Int.toNat_of_nonneg (Int.le_of_lt (firstLength_pos asked len))
  sourced := by
    refine sourcedFrom_bytesFrom fun i first last => ?_
    rw [← drive]
    exact backed.sourced asked track first last
  drive := drive
  geometry := geom
  cache := .inl backed

/-- A round that fills the buffer. -/
theorem served_of_filled (asked : Asked media request) (noError : state.errnum = .none)
    (low : 0 ≤ request.sector) (len : 0 < request.byteLen) (drive : state.bufDrive = request.drive)
    (geom : state.bufGeom = media.geometry) (uncached : ¬ Cached media request state)
    (whole : ¬ CutShort media request state)
    (placed : ¬ Misplaced firmware media request state)
    (succeeded : Succeeded (filledState firmware media request state).world.transfers) :
    ServedRound firmware media request (filledState firmware media request state)
      (bytesFrom (filledState firmware media request state).buffer (fillAddress media request)
        (firstLength media request)) where
  errnum := noError
  length := by
    rw [length_bytesFrom]
    exact Int.toNat_of_nonneg (Int.le_of_lt (firstLength_pos asked len))
  sourced := sourcedFrom_bytesFrom fun _ first last =>
    filledState_sourced drive asked low placed succeeded first last
  drive := drive
  geometry := geom
  cache := by
    by_cases aligned : ¬ Overruns media request ∨
        request.sector % sectorsPerVtrack media.geometry = 0
    · exact .inl (backed_of_whole drive asked.sector_lt low aligned succeeded)
    · obtain ⟨overruns, middle⟩ := not_or.mp aligned
      have overruns := not_not.mp overruns
      have next := not_not.mp fun ends => whole ⟨noError, uncached, low, overruns, middle, ends⟩
      exact .inr ⟨rfl, overruns, middle, next⟩

/-- The geometry is loaded. -/
theorem loadGeometry_ready (ready : Ready firmware media request state) :
    ∃ loaded, loadGeometry (efiService firmware) state request.drive = some loaded ∧
      loaded.bufDrive = request.drive ∧ loaded.bufGeom = media.geometry ∧
      loaded.errnum = state.errnum ∧ Ready firmware media request loaded := by
  rw [loadGeometry]
  by_cases same : state.bufDrive = request.drive
  · rw [if_pos same]
    exact ⟨state, rfl, same, (ready.usable same).1, rfl, ready⟩
  · have uncached : ¬ Cached media request state := fun cached => same cached.1
    have known : (efiService firmware).getDiskinfo state.world request.drive =
        some media.geometry := congrArg (Option.map BlockMedia.geometry) ready.found
    rw [if_neg same, known]
    refine ⟨_, rfl, rfl, rfl, rfl, ready.found, ready.asked, fun _ => ⟨rfl, .inl rfl⟩,
      fun differs => absurd rfl differs, ?_, fun _ => ready.placed uncached⟩
    rintro ⟨noError, _, cut⟩
    exact ready.whole ⟨noError, uncached, cut⟩

/-- One round: a sector off the medium is refused, any other is served. -/
theorem rawreadRound_ready (ready : Ready firmware media request state)
    (noError : state.errnum = .none) (len : 0 < request.byteLen)
    (succeeded : Succeeded
      (rawreadRound (efiService firmware) state request).after.world.transfers) :
    (∃ after, rawreadRound (efiService firmware) state request = .refused after ∧
      after.errnum ≠ .none ∧ CacheSound firmware after) ∨
    0 ≤ request.sector ∧ ∃ after bytes, rawreadRound (efiService firmware) state request =
        .served after bytes (nextRequest media request) ∧
      ServedRound firmware media request after bytes := by
  obtain ⟨loaded, loads, drive, geom, errnum, ready⟩ := loadGeometry_ready ready
  rw [rawreadRound, loads] at succeeded ⊢
  dsimp only at succeeded ⊢
  by_cases outside : request.sector < 0 ∨ request.sector ≥ loaded.bufGeom.totalSectors
  · rw [if_pos outside]
    rw [geom] at outside
    have sound := ready.sound fun serves => by omega
    exact .inl ⟨_, rfl, (by rintro ⟨⟩), sound⟩
  · rw [if_neg outside] at succeeded ⊢
    have low : 0 ≤ request.sector := by omega
    have noError := errnum.trans noError
    refine .inr ⟨low, ?_⟩
    rw [geom, window_media ready.asked len] at succeeded ⊢
    dsimp only [Round.after] at succeeded ⊢
    rw [noteSectors_world] at succeeded
    refine ⟨_, _, rfl, ServedRound.note ?_ _⟩
    have length : roundSize
        { bits := media.bits
          slen := (request.byteOffset + request.byteLen + media.blockSize - 1) / media.blockSize
          perVtrack := sectorsPerVtrack media.geometry
          soff := request.sector % sectorsPerVtrack media.geometry
          track := request.sector - request.sector % sectorsPerVtrack media.geometry
          numSect := sectorsPerVtrack media.geometry -
            request.sector % sectorsPerVtrack media.geometry } request =
          firstLength media request := rfl
    have track : request.sector - request.sector % sectorsPerVtrack media.geometry =
        trackOf media request := rfl
    rw [length, track]
    rw [track] at succeeded
    by_cases cached : trackOf media request = loaded.bufTrack
    · rw [if_neg (fun differs => differs cached)]
      refine served_of_cached ready.asked noError len drive geom ?_ cached.symm
      obtain ⟨_, empty | backed | ⟨other, _⟩⟩ := ready.usable drive
      · have trackLow := (@trackOf_bounds request media low).1
        omega
      · exact backed
      · exact absurd cached.symm other
    · rw [if_pos (Ne.intro cached)] at succeeded ⊢
      have filled := fillBuffer_efi ready.found ready.asked len geom
      rw [geom, window_media ready.asked len, track] at filled
      rw [filled] at succeeded ⊢
      have uncached : ¬ Cached media request loaded := fun hit => cached hit.2.symm
      exact served_of_filled ready.asked noError low len drive geom uncached ready.whole
        (ready.placed uncached) succeeded

/-! ## The loop -/

/-- The rest of a served request is ready again. -/
theorem ready_next {bytes : List UInt8} (ready : Ready firmware media request state)
    (low : 0 ≤ request.sector) (len : 0 < request.byteLen) {after : DiskState (Traced World)}
    (served : ServedRound firmware media request after bytes) :
    Ready firmware media (nextRequest media request) after := by
  have positive := firstLength_pos ready.asked len
  have len_lt := ready.asked.len_lt
  have restLen : (nextRequest media request).byteLen =
    request.byteLen - firstLength media request := rfl
  have per : 0 < sectorsPerVtrack media.geometry := by
    rcases media.perVtrack_cases with ⟨_, per⟩ | ⟨_, per⟩ | ⟨_, per⟩ | ⟨_, per⟩ <;> omega
  have size : 0 < media.blockSize := by
    rcases media.perVtrack_cases with ⟨size, _⟩ | ⟨size, _⟩ | ⟨size, _⟩ | ⟨size, _⟩ <;> omega
  have next := nextRequest_sector media low ready.asked.sector_lt
  refine {
    found := ready.found
    asked := ⟨ready.asked.drive, toInt32_upper _, Int.le_refl 0, size, by omega⟩
    usable := fun _ => ⟨served.geometry, ?_⟩
    other := fun differs => absurd served.drive differs
    whole := ?_
    placed := fun _ => ?_ }
  · rcases served.cache with backed | ⟨track, overruns, middle, inside, fits⟩
    · exact .inr (.inl backed)
    · obtain ⟨sector, aligned, _⟩ := next.resolve_right fun wraps => by omega
      have trackLow := (@trackOf_bounds request media low).1
      have more := nextRequest_more overruns
      refine .inr (.inr ⟨?_, by omega, by omega, more, served.errnum⟩)
      rw [track, trackOf, trackOf, aligned, sector, trackOf]
      omega
  · rintro ⟨_, _, nonneg, _, middle, _⟩
    rcases next with ⟨_, aligned, _⟩ | ⟨negative, _⟩
    · exact middle aligned
    · omega
  · rintro ⟨_, middle, first, _⟩
    rcases next with ⟨_, aligned, _⟩ | ⟨negative, _⟩
    · exact middle aligned
    · rw [trackOf] at first
      have remainder := Int.emod_nonneg (nextRequest media request).sector (Int.ne_of_gt per)
      omega

/-- What a call of `rawread` comes to. -/
structure ReadOutcome (firmware : Firmware World) (media : BlockMedia) (request : Request)
    (result : RawResult (Traced World)) : Prop where
  sound : CacheSound firmware result.state
  reported : result.value = 0 ∧ result.state.errnum ≠ .none ∨ result.value = 1 ∧
    result.bytes.length = request.byteLen.toNat ∧
    SourcedFrom media result.state.world.transfers request.drive
      (request.sector * media.blockSize + request.byteOffset) result.bytes
  inside : result.value = 1 → 0 < request.byteLen → 0 ≤ request.sector

/-- The address the next round reads from. -/
theorem nextRequest_address (low : 0 ≤ request.sector) (high : request.sector < 2 ^ 31)
    (more : 0 < (nextRequest media request).byteLen)
    (inside : 0 ≤ (nextRequest media request).sector) :
    request.sector * media.blockSize + request.byteOffset + firstLength media request =
      (nextRequest media request).sector * media.blockSize +
        (nextRequest media request).byteOffset := by
  have restLen : (nextRequest media request).byteLen =
    request.byteLen - firstLength media request := rfl
  have restOffset : (nextRequest media request).byteOffset = 0 := rfl
  obtain ⟨sector, _⟩ := (nextRequest_sector media low high).resolve_right fun wraps => by omega
  rw [restLen, firstLength] at more
  rw [restOffset, sector, trackOf, firstLength, Int.add_mul, Int.sub_mul]
  rw [Int.sub_mul] at more ⊢
  omega

/-- The first round and the rest make up the whole. -/
theorem ReadOutcome.after_round {after : DiskState (Traced World)} {bytes : List UInt8}
    {later : RawResult (Traced World)} (ready : Ready firmware media request state)
    (low : 0 ≤ request.sector) (len : 0 < request.byteLen)
    (served : ServedRound firmware media request after bytes)
    (grows : after.world.transfers <+: later.state.world.transfers)
    (rest : ReadOutcome firmware media (nextRequest media request) later) :
    ReadOutcome firmware media request { later with bytes := bytes ++ later.bytes } where
  sound := rest.sound
  inside := fun _ _ => low
  reported := by
    have restLen : (nextRequest media request).byteLen =
      request.byteLen - firstLength media request := rfl
    have positive := firstLength_pos ready.asked len
    have most : firstLength media request ≤ request.byteLen := Int.min_le_left _ _
    have length := served.length
    rcases rest.reported with failed | ⟨one, restLength, sourced⟩
    · exact .inl failed
    · refine .inr ⟨one, ?_, ?_⟩
      · rw [List.length_append, restLength]
        omega
      · have head : SourcedFrom media later.state.world.transfers request.drive
            (request.sector * media.blockSize + request.byteOffset) bytes :=
          fun i inside => (served.sourced i inside).grow grows
        refine head.append ?_
        by_cases more : 0 < (nextRequest media request).byteLen
        · rw [length, nextRequest_address low ready.asked.sector_lt more (rest.inside one more)]
          exact sourced
        · intro i inside
          omega

/-- The loop of `rawread`, by induction on its rounds. -/
theorem rawreadLoop_outcome (rounds : Nat) (nonneg : 0 ≤ request.byteLen)
    (enough : request.byteLen < rounds) (ready : Ready firmware media request state)
    (succeeded : Succeeded
      (rawreadLoop (efiService firmware) rounds state request).state.world.transfers) :
    ReadOutcome firmware media request
      (rawreadLoop (efiService firmware) rounds state request) := by
  induction rounds generalizing request state with
  | zero => omega
  | succ rounds inductionHypothesis =>
      rw [rawreadLoop] at succeeded ⊢
      by_cases serve : request.byteLen > 0 ∧ state.errnum = .none
      · rw [if_pos serve] at succeeded ⊢
        obtain ⟨len, noError⟩ := serve
        have round := @rawreadRound_ready World firmware media request state ready noError len
        cases made : rawreadRound (efiService firmware) state request with
        | refused after =>
            rw [made] at succeeded round
            rcases round succeeded with ⟨_, refused, error, sound⟩ | ⟨_, _, _, served, _⟩
            · obtain rfl := Round.refused.inj refused
              exact ⟨sound, .inl ⟨rfl, error⟩, fun one => absurd (show (0 : Int) = 1 from one) (by decide)⟩
            · cases served
        | served after bytes rest =>
            rw [made] at succeeded round
            have grows := @rawreadLoop_grows World firmware rest after rounds
            have early : Succeeded after.world.transfers := fun transfer recorded =>
              succeeded transfer (grows.subset recorded)
            rcases round early with ⟨_, refused, _⟩ | ⟨low, _, _, isServed, served⟩
            · cases refused
            · obtain ⟨rfl, rfl, rfl⟩ := Round.served.inj isServed
              have restLen : (nextRequest media request).byteLen =
                request.byteLen - firstLength media request := rfl
              have positive := firstLength_pos ready.asked len
              have most : firstLength media request ≤ request.byteLen := Int.min_le_left _ _
              have rest := inductionHypothesis (by omega) (by omega)
                (ready_next ready low len served) succeeded
              exact rest.after_round ready low len served grows
      · rw [if_neg serve] at succeeded ⊢
        have sound := ready.sound fun serves => serve ⟨serves.2.2.1, serves.2.2.2⟩
        by_cases noError : state.errnum = .none
        · have done : request.byteLen = 0 := by
            have idle : ¬ request.byteLen > 0 := fun len => serve ⟨len, noError⟩
            omega
          rw [if_pos noError]
          refine ⟨sound, .inr ⟨rfl, by rw [done]; rfl, ?_⟩, fun _ len => by omega⟩
          intro i inside
          exact absurd inside (Nat.not_lt_zero i)
        · rw [if_neg noError]
          exact ⟨sound, .inl ⟨rfl, noError⟩, fun one => absurd (show (0 : Int) = 1 from one) (by decide)⟩

/-! ## Whole runs -/

/-- What keeps a cache sound: the buffer and its labels stay, or the track is dropped. -/
theorem CacheSound.keep {after : DiskState (Traced World)} (sound : CacheSound firmware state)
    (drive : after.bufDrive = state.bufDrive) (geometry : after.bufGeom = state.bufGeom)
    (buffer : after.buffer = state.buffer)
    (track : after.bufTrack = -1 ∨ after.bufTrack = state.bufTrack)
    (grows : state.world.transfers <+: after.world.transfers) : CacheSound firmware after := by
  rcases sound with none | ⟨media, found, geom, held⟩
  · exact .inl (drive.trans none)
  · refine .inr ⟨media, drive ▸ found, geometry.trans geom, ?_⟩
    rcases track with dropped | same
    · exact .inl dropped
    · rcases held with empty | backed
      · exact .inl (same.trans empty)
      · refine .inr fun i first last => ?_
        rw [drive, same, buffer]
        exact (backed i first last).grow grows

/-- Storing a sector keeps the cache sound, and fails with an error only. -/
theorem storeSector_sound (sound : CacheSound firmware state) (drive sector : Int)
    (data : Int → UInt8) :
    let result := storeSector (efiService firmware) state drive sector data
    CacheSound firmware result.2 ∧ (result.1 = 0 ∧ result.2.errnum ≠ .none ∨ result.1 = 1) := by
  have grows := @biosdisk_grows World firmware state.world .write drive state.bufGeom sector 1
  rw [storeSector]
  dsimp only
  split
  · exact ⟨sound.keep rfl rfl rfl (.inr rfl) (grows _), .inl ⟨rfl, nofun⟩⟩
  · split
    · exact ⟨sound.keep rfl rfl rfl (.inl rfl) (grows _), .inr rfl⟩
    · exact ⟨sound.keep rfl rfl rfl (.inr rfl) (grows _), .inr rfl⟩

/-- A write leaves the cache sound. -/
theorem rawwrite_sound (sound : CacheSound firmware state) (drive sector : Int)
    (data : Int → UInt8) :
    let result := rawwrite (efiService firmware) state drive sector data
    CacheSound firmware result.2 ∧ (result.1 = 0 ∧ result.2.errnum ≠ .none ∨ result.1 = 1) := by
  rw [rawwrite]
  split
  · have grows := @biosdisk_grows World firmware state.world .read drive state.bufGeom 0 1
      state.scratch
    dsimp only
    split
    · exact ⟨sound.keep rfl rfl rfl (.inr rfl) grows, .inl ⟨rfl, nofun⟩⟩
    · refine storeSector_sound ?_ drive _ data
      exact sound.keep rfl rfl rfl (.inr rfl) grows
  · exact storeSector_sound sound drive sector data

/-- A call on one of the drives. -/
structure RawCall where
  drive : Int
  call : DiskCall

/-- The globals after one call. -/
def rawStep (firmware : Firmware World) (state : DiskState (Traced World)) (call : RawCall) :
    DiskState (Traced World) :=
  diskStep (efiService firmware) call.drive state call.call

/-- A call fails with an error, or a read delivers bytes of successful transfers only
and a write made successful transfers only. -/
def Reports (firmware : Firmware World) (state : DiskState (Traced World)) : RawCall → Prop
  | ⟨drive, .rawread sector byteOffset byteLen⟩ =>
    let result := rawread (efiService firmware) state drive sector byteOffset byteLen
    result.value = 0 ∧ result.state.errnum ≠ .none ∨
      result.value = 1 ∧ result.bytes.length = byteLen.toNat ∧
        ∀ media ∈ firmware.media drive, SourcedFrom media result.state.world.transfers drive
          (sector * media.blockSize + byteOffset) result.bytes
  | ⟨drive, .rawwrite sector data⟩ =>
    let result := rawwrite (efiService firmware) state drive sector data
    result.1 = 0 ∧ result.2.errnum ≠ .none ∨
      result.1 = 1 ∧ ∀ transfer ∈ result.2.world.transfers,
        transfer ∈ state.world.transfers ∨ transfer.success = true
  | ⟨_, .clearError⟩ => True

/-- The calls considered: a drive number, arguments that are `int`s, and a byte
offset inside of the sector. -/
def Callable (firmware : Firmware World) : RawCall → Prop
  | ⟨drive, .rawread sector byteOffset byteLen⟩ =>
    0 ≤ drive ∧ sector < 2 ^ 31 ∧ 0 ≤ byteOffset ∧ byteLen < 2 ^ 31 ∧
      ∀ media ∈ firmware.media drive, byteOffset < media.blockSize
  | ⟨drive, .rawwrite _ _⟩ => 0 ≤ drive
  | ⟨_, .clearError⟩ => True

/-- No transfer fails, and no read is cut short by the end of the medium after it has
filled the buffer from the middle of a track, or takes such a buffer for an
EZ-Drive boot track. -/
def Undisturbed (firmware : Firmware World) (state : DiskState (Traced World))
    (call : RawCall) : Prop :=
  Succeeded (rawStep firmware state call).world.transfers ∧
    match call with
    | ⟨drive, .rawread sector byteOffset byteLen⟩ =>
      ∀ media ∈ firmware.media drive,
        ¬ CutShort media ⟨drive, sector, byteOffset, byteLen⟩ state ∧
        (¬ Cached media ⟨drive, sector, byteOffset, byteLen⟩ state →
          ¬ Misplaced firmware media ⟨drive, sector, byteOffset, byteLen⟩ state)
    | _ => True

/-- A drive without a medium. -/
theorem rawreadLoop_absent (rounds : Nat) (sound : CacheSound firmware state) {drive : Int}
    (low : 0 ≤ drive) (absent : firmware.media drive = none) {byteLen : Int} (len : 0 < byteLen)
    (sector byteOffset : Int) :
    let result := rawreadLoop (efiService firmware) (rounds + 1) state
      ⟨drive, sector, byteOffset, byteLen⟩
    CacheSound firmware result.state ∧ result.value = 0 ∧ result.state.errnum ≠ .none := by
  rw [rawreadLoop]
  by_cases noError : state.errnum = .none
  · have serve : byteLen > 0 ∧ state.errnum = .none := ⟨len, noError⟩
    have other : state.bufDrive ≠ drive := by
      rintro rfl
      rcases sound with none | ⟨media, found, _⟩
      · omega
      · cases absent.symm.trans found
    have unknown : (efiService firmware).getDiskinfo state.world drive = none :=
      congrArg (Option.map BlockMedia.geometry) absent
    have refused : rawreadRound (efiService firmware) state
        ⟨drive, sector, byteOffset, byteLen⟩ = .refused { state with errnum := .noDisk } := by
      rw [rawreadRound, loadGeometry, if_neg other, unknown]
    rw [if_pos serve, refused]
    exact ⟨sound, rfl, (by rintro ⟨⟩)⟩
  · rw [if_neg fun serve => noError serve.2]
    dsimp only
    rw [if_neg noError]
    exact ⟨sound, rfl, noError⟩

/-- One call on a sound cache. -/
theorem rawread_sound {drive sector byteOffset byteLen : Int} (sound : CacheSound firmware state)
    (callable : Callable firmware ⟨drive, .rawread sector byteOffset byteLen⟩)
    (undisturbed : Undisturbed firmware state ⟨drive, .rawread sector byteOffset byteLen⟩) :
    CacheSound firmware (rawStep firmware state ⟨drive, .rawread sector byteOffset byteLen⟩) ∧
      Reports firmware state ⟨drive, .rawread sector byteOffset byteLen⟩ := by
  obtain ⟨driveLow, sector_lt, offset, len_lt, offset_lt⟩ := callable
  obtain ⟨succeeded, regular⟩ := undisturbed
  rw [rawStep, diskStep] at succeeded ⊢
  rw [Reports]
  rw [rawread] at succeeded ⊢
  by_cases nothing : byteLen ≤ 0
  · rw [if_pos nothing]
    have zero : byteLen.toNat = 0 := Int.toNat_of_nonpos nothing
    refine ⟨sound, .inr ⟨rfl, zero.symm, fun _ _ i inside => ?_⟩⟩
    exact absurd inside (Nat.not_lt_zero i)
  · rw [if_neg nothing] at succeeded ⊢
    have len : 0 < byteLen := Int.not_le.mp nothing
    cases found : firmware.media drive with
    | none =>
        have absent := rawreadLoop_absent byteLen.toNat sound driveLow found len sector byteOffset
        exact ⟨absent.1, .inl absent.2⟩
    | some media =>
        obtain ⟨whole, placed⟩ := regular media found
        have ready : Ready firmware media ⟨drive, sector, byteOffset, byteLen⟩ state := {
          found := found
          asked := ⟨driveLow, sector_lt, offset, offset_lt media found, len_lt⟩
          usable := fun same => by
            rcases sound with none | ⟨other, isOther, geom, held⟩
            · have same : state.bufDrive = drive := same
              omega
            · obtain rfl := Option.some.inj (found.symm.trans (same ▸ isOther))
              exact ⟨geom, held.imp_right .inl⟩
          other := fun _ => sound
          whole := whole
          placed := placed }
        have outcome := rawreadLoop_outcome (byteLen.toNat + 1) (Int.le_of_lt len)
          (by dsimp only; omega) ready succeeded
        refine ⟨outcome.sound, outcome.reported.imp_right ?_⟩
        rintro ⟨one, length, sourced⟩
        refine ⟨one, length, fun other isOther => ?_⟩
        obtain rfl := Option.some.inj isOther
        exact sourced

/-- A call leaves the cache sound, and reports its failures. -/
theorem step_sound {call : RawCall} (sound : CacheSound firmware state)
    (allowed : Callable firmware call ∧ Undisturbed firmware state call) :
    CacheSound firmware (rawStep firmware state call) ∧ Reports firmware state call := by
  obtain ⟨callable, undisturbed⟩ := allowed
  obtain ⟨drive, call⟩ := call
  cases call with
  | rawread sector byteOffset byteLen => exact rawread_sound sound callable undisturbed
  | rawwrite sector data =>
      obtain ⟨kept, outcome⟩ := rawwrite_sound sound drive sector data
      refine ⟨kept, outcome.imp_right fun one => ⟨one, ?_⟩⟩
      exact fun transfer recorded => .inr (undisturbed.1 transfer recorded)
  | clearError => exact ⟨sound.keep rfl rfl rfl (.inr rfl) List.prefix_rfl, trivial⟩

/-- From an empty cache, in every run in which no transfer fails and no read leaves
the buffer under the wrong track, each call fails with an error or stands on
successful transfers. -/
theorem rawread_reports_failures (firmware : Firmware World) {state : DiskState (Traced World)}
    (empty : state.bufDrive = -1) {calls : List RawCall}
    (run : Along (rawStep firmware)
      (fun state call => Callable firmware call ∧ Undisturbed firmware state call) state calls) :
    Along (rawStep firmware) (Reports firmware) state calls :=
  Along.of_invariant (CacheSound firmware) (fun _ _ sound allowed => (step_sound sound allowed).1)
    (fun _ _ sound allowed => (step_sound sound allowed).2) (.inl empty) run

/-- A disk of that many 512-byte blocks as drive 0x80. Transfers off its end fail and
change nothing. -/
def ramFirmware (blocks : Nat) : Firmware (Int → UInt8) where
  media drive :=
    if drive = 0x80 then some ⟨blocks - 1, 9, by decide, by decide⟩ else none
  transfer disk func _ offset size segment :=
    if offset + size ≤ blocks * 512 then
      match func with
      | .read =>
        ⟨true, fun i => if 0 ≤ i ∧ i < size then disk (offset + i) else segment i, disk⟩
      | .write =>
        ⟨true, segment, fun address =>
          if offset ≤ address ∧ address < offset + size then segment (address - offset)
          else disk address⟩
    else ⟨false, segment, disk⟩

/-- The globals before the first access, over a blank disk. -/
def tracedStart : DiskState (Traced (Int → UInt8)) :=
  { bufDrive := -1
    bufTrack := 0
    bufGeom := ⟨0, 0, 0, 0, 0, 0⟩
    buffer := fun _ => 0
    scratch := fun _ => 0
    errnum := .none
    diskReadFunc := false
    reported := []
    world := ⟨fun _ => 0, []⟩ }

/-- A sector is read. -/
def sectorRead : RawCall := ⟨0x80, .rawread 5 0 4⟩

/-- On a disk of two whole tracks it can be, from any state in which the transfers succeed. -/
theorem sectorRead_allowed {state : DiskState (Traced (Int → UInt8))}
    (succeeded : Succeeded (rawStep (ramFirmware 112) state sectorRead).world.transfers) :
    Callable (ramFirmware 112) sectorRead ∧ Undisturbed (ramFirmware 112) state sectorRead := by
  refine ⟨⟨by decide, by decide, by decide, by decide, ?_⟩, succeeded, ?_⟩
  · rintro media ⟨⟩
    decide
  · rintro media ⟨⟩
    have short : ¬ Overruns ⟨111, 9, by decide, by decide⟩ ⟨0x80, 5, 0, 4⟩ := by decide +kernel
    exact ⟨fun cut => short cut.2.2.2.1, fun _ misplaced => short misplaced.1⟩

/-- It is read, which fills in the geometry, stored, and read again. -/
theorem rawread_reports_stored_sector :
    Along (rawStep (ramFirmware 112)) (Reports (ramFirmware 112)) tracedStart
      [sectorRead, ⟨0x80, .rawwrite 5 fun _ => 1⟩, sectorRead] :=
  rawread_reports_failures (ramFirmware 112) rfl
    ⟨sectorRead_allowed (by decide +kernel),
      ⟨(by decide : (0 : Int) ≤ 0x80), by decide +kernel, trivial⟩,
      sectorRead_allowed (by decide +kernel), trivial⟩

/-- On a disk of 100 sectors the last track is partial: reading it whole fails, and
what the buffer held before is returned as sector 99. -/
theorem rawread_reports_garbage :
    Callable (ramFirmware 100) ⟨0x80, .rawread 99 0 1⟩ ∧
      ¬ Along (rawStep (ramFirmware 100)) (Reports (ramFirmware 100)) tracedStart
        [⟨0x80, .rawread 99 0 1⟩] := by
  constructor
  · refine ⟨by decide, by decide, by decide, by decide, ?_⟩
    rintro media ⟨⟩
    decide
  · rintro ⟨⟨zero, _⟩ | ⟨_, length, sourced⟩, _⟩
    · revert zero
      decide +kernel
    · have failed : ∀ transfer ∈ (rawread (efiService (ramFirmware 100)) tracedStart 0x80 99 0
          1).state.world.transfers, transfer.success = false := by
        decide +kernel
      have inside : 0 < (rawread (efiService (ramFirmware 100)) tracedStart 0x80 99 0
          1).bytes.length := by
        rw [length]
        decide
      rcases sourced _ rfl 0 inside with ⟨transfer, recorded, _, success, _⟩ |
        ⟨_, transfer, recorded, _, success, _⟩
      · cases (failed transfer recorded).symm.trans success
      · cases (failed transfer recorded).symm.trans success

end GrubLegacy.DiskIo
