import GrubLegacy.DiskIo.TrackCache

/-!
# Reading back what is on the disk

One round of `rawread`, its loop, and whole runs of `rawread` and `rawwrite`
calls on one drive.
-/

namespace GrubLegacy.DiskIo

open GrubLegacy.Base GrubLegacy.Stage2

namespace Medium

variable {World : Type} (medium : Medium World) {image : World → Int → UInt8}
  {placed : Request → World → Prop}

/-! ## Rounds -/

/-- What is left of a request after its first round. -/
def afterRound (request : Request) : Request :=
  { request with
    sector := toInt32 (request.sector + (56 - request.sector % 56))
    byteOffset := 0
    byteLen := request.byteLen - firstPiece request }

/-- What a round leaves behind when it has handed over bytes. -/
structure Served (image : World → Int → UInt8) (request : Request)
    (before after : DiskState World) (bytes : List UInt8) : Prop where
  content : medium.content after.world = medium.content before.world
  drive : after.bufDrive = medium.drive
  geometry : after.bufGeom = medium.geometry
  bytes_eq : after.errnum = .none →
    bytes = bytesFrom (image before.world)
      (request.sector * 512 + request.byteOffset) (firstPiece request)
  cache : after.bufTrack = -1 ∨ medium.TrackHeld image after ∨
    medium.Displaced request after ∧ after.errnum = .none ∧ ¬ medium.Buffered request before

variable {medium} in
/-- The instrumentation does not matter. -/
theorem Served.note {request : Request} {before after : DiskState World} {bytes : List UInt8}
    (served : medium.Served image request before after bytes) (size : Int) :
    medium.Served image request before (noteSectors after request size) bytes := by
  obtain ⟨reported, noted⟩ := noteSectors_eq after request size
  rw [noted]
  exact ⟨served.content, served.drive, served.geometry, served.bytes_eq, served.cache⟩

/-- A round on a loaded geometry that finds its track in the buffer. -/
theorem served_of_hit (kept : medium.Kept image placed) {request : Request}
    {before state : DiskState World} (sane : medium.Sane request)
    (content : medium.content state.world = medium.content before.world)
    (drive : state.bufDrive = medium.drive) (geom : state.bufGeom = medium.geometry)
    (usable : medium.Usable image request state)
    (hit : state.bufTrack = request.sector - request.sector % 56) :
    medium.Served image request before state
      (bytesFrom state.buffer (request.sector % 56 * 512 + request.byteOffset)
        (firstPiece request)) := by
  have held : medium.TrackHeld image state := by
    obtain ⟨_, empty | held | ⟨other, _⟩⟩ := usable drive
    · omega
    · exact held
    · exact absurd hit other
  have offset := sane.offset
  refine ⟨content, drive, geom, fun _ => bytesFrom_congr fun i nonneg lt => ?_, Or.inr (Or.inl held)⟩
  obtain ⟨_, _, _, bytes⟩ := held
  unfold firstPiece at lt
  rw [bytes _ (by omega) (by omega), hit, kept.congr content]
  congr 1
  omega

/-- A round on a loaded geometry that has to fill the buffer. -/
theorem served_of_fill (kept : medium.Kept image placed) {request : Request}
    {before state : DiskState World} {filled : DiskState World × Int}
    (content : medium.content state.world = medium.content before.world)
    (drive : state.bufDrive = medium.drive) (geom : state.bufGeom = medium.geometry)
    (miss : ¬ medium.Buffered request before)
    (fill : medium.Filled image request state filled) :
    medium.Served image request before filled.1
      (bytesFrom filled.1.buffer filled.2 (firstPiece request)) := by
  refine ⟨fill.content.trans content, fill.drive.trans drive, fill.geometry.trans geom,
    fun none => bytesFrom_congr fun i nonneg lt => ?_, ?_⟩
  · rw [fill.bytes none i nonneg lt, kept.congr content]
  · obtain empty | ⟨_, _, held⟩ | ⟨displaced, none⟩ := fill.cache
    · exact Or.inl empty
    · exact Or.inr (Or.inl held)
    · exact Or.inr (Or.inr ⟨displaced, none, miss⟩)

/-- One round: a sector off the medium is refused and the cache stays coherent;
any other is served. -/
theorem rawreadRound_spec (kept : medium.Kept image placed) {request : Request}
    {state : DiskState World} (sane : medium.Sane request) (noErr : state.errnum = .none)
    (usable : medium.Usable image request state)
    (may : ¬ medium.Buffered request state → placed request state.world) :
    (¬ (0 ≤ request.sector ∧ request.sector < medium.geometry.totalSectors) ∧
      ∃ after, rawreadRound medium.service state request = .refused after ∧
        medium.content after.world = medium.content state.world ∧ medium.Coherent image after) ∨
    ((0 ≤ request.sector ∧ request.sector < medium.geometry.totalSectors) ∧
      ∃ after bytes, rawreadRound medium.service state request =
          .served after bytes (afterRound request) ∧
        medium.Served image request state after bytes) := by
  obtain ⟨loaded, loadEq, drive, geom, world, errnum, ready, unchanged⟩ :=
    medium.loadGeometry_spec usable
  rw [← sane.drive] at loadEq
  simp only [rawreadRound, loadEq]
  by_cases outside : request.sector < 0 ∨ request.sector ≥ loaded.bufGeom.totalSectors
  · left
    rw [if_pos outside]
    rw [geom] at outside
    have idle : ¬ (0 ≤ request.sector ∧ request.sector < medium.geometry.totalSectors) := by
      omega
    have coherent := ready.coherent fun serves => idle ⟨serves.1, serves.2.1⟩
    exact ⟨idle, _, rfl, by rw [world], coherent⟩
  · right
    rw [if_neg outside]
    rw [geom] at outside
    have inside : 0 ≤ request.sector ∧ request.sector < medium.geometry.totalSectors := by omega
    have power : (2 : Int) ^ 9 = 512 := by decide
    have win := medium.window_eq sane.offset sane.offset_lt sane.len sane.len_lt
    refine ⟨inside, ?_⟩
    simp only [geom, win, roundSize, power]
    refine ⟨_, _, rfl, Served.note ?_ _⟩
    split
    · rename_i other
      have miss : ¬ medium.Buffered request state := by
        intro hit
        rw [unchanged hit.1] at other
        exact other hit.2.symm
      have filled := kept.fills sane geom (errnum.trans noErr) inside.1 (world ▸ may miss)
      rw [geom, win] at filled
      exact medium.served_of_fill kept (by rw [world]) drive geom miss filled
    · rename_i hit
      exact medium.served_of_hit kept sane (by rw [world]) drive geom ready
        (Decidable.not_not.mp hit).symm

/-- The request begins in the middle of a track, runs past its end, and the
next track does not begin on the medium (or has no `int` number): its first
part is read into the buffer and its second part is refused. -/
def CutOff (request : Request) (state : DiskState World) : Prop :=
  state.errnum = .none ∧ 0 ≤ request.sector ∧ ¬ medium.Buffered request state ∧
    Spills request ∧ request.sector % 56 ≠ 0 ∧
    request.sector - request.sector % 56 + 56 ≤ medium.geometry.totalSectors ∧
    ¬ (request.sector - request.sector % 56 + 56 < medium.geometry.totalSectors ∧
      request.sector - request.sector % 56 + 56 < 2 ^ 31)

/-- What the loop of `rawread` needs of a request. -/
structure Loopable (image : World → Int → UInt8) (placed : Request → World → Prop)
    (request : Request) (state : DiskState World) : Prop where
  drive : request.drive = medium.drive
  sector_lt : request.sector < 2 ^ 31
  offset : 0 ≤ request.byteOffset
  offset_lt : request.byteOffset < 512
  len_nonneg : 0 ≤ request.byteLen
  len_lt : request.byteLen < 2 ^ 31
  usable : medium.Usable image request state
  whole : ¬ medium.CutOff request state
  placed : state.errnum = .none → ¬ medium.Buffered request state → placed request state.world

/-- What `rawread` achieves. -/
structure ReadBack (image : World → Int → UInt8) (request : Request)
    (before : DiskState World) (result : RawResult World) : Prop where
  content : medium.content result.state.world = medium.content before.world
  coherent : medium.Coherent image result.state
  bytes_eq : result.value = 1 → result.bytes =
    bytesFrom (image before.world) (request.sector * 512 + request.byteOffset)
      request.byteLen
  inside : result.value = 1 → 0 < request.byteLen → 0 ≤ request.sector

/-- The next round begins on a track boundary, or at a number that `int` cannot hold. -/
theorem afterRound_sector {request : Request} (low : 0 ≤ request.sector)
    (high : request.sector < 2 ^ 31) :
    ((afterRound request).sector = request.sector - request.sector % 56 + 56 ∧
      request.sector - request.sector % 56 + 56 < 2 ^ 31) ∨
    ((afterRound request).sector < 0 ∧ 2 ^ 31 ≤ request.sector - request.sector % 56 + 56) := by
  have next : (afterRound request).sector =
    toInt32 (request.sector + (56 - request.sector % 56)) := rfl
  rcases Int.lt_or_le (request.sector + (56 - request.sector % 56)) (2 ^ 31) with fits | wraps
  · rw [next, toInt32_of_range (by omega) fits]
    omega
  · rw [next, toInt32_of_overflow wraps (by omega)]
    omega

variable {medium} in
/-- The bytes of the first round and those of the rest are the bytes asked for. -/
theorem pieces_join (memory : Int → UInt8) {request : Request} (sane : medium.Sane request)
    (low : 0 ≤ request.sector) (high : request.sector < 2 ^ 31)
    (next : 0 < (afterRound request).byteLen → 0 ≤ (afterRound request).sector) :
    bytesFrom memory (request.sector * 512 + request.byteOffset) (firstPiece request) ++
        bytesFrom memory ((afterRound request).sector * 512 + (afterRound request).byteOffset)
          (afterRound request).byteLen =
      bytesFrom memory (request.sector * 512 + request.byteOffset) request.byteLen := by
  obtain ⟨_, offset, offset_lt, len, len_lt⟩ := sane
  have restLen : (afterRound request).byteLen = request.byteLen - firstPiece request := rfl
  have restOffset : (afterRound request).byteOffset = 0 := rfl
  have next_sector := afterRound_sector low high
  by_cases more : 0 < (afterRound request).byteLen
  · have piece : firstPiece request = (56 - request.sector % 56) * 512 - request.byteOffset := by
      unfold firstPiece at restLen ⊢
      omega
    have address : (afterRound request).sector * 512 + (afterRound request).byteOffset =
        request.sector * 512 + request.byteOffset + firstPiece request := by
      have := next more
      omega
    rw [address, ← bytesFrom_add _ _ (by omega) (by omega), restLen]
    congr 1
    omega
  · have all : firstPiece request = request.byteLen := by
      unfold firstPiece at restLen ⊢
      omega
    have none : (afterRound request).byteLen ≤ 0 := by omega
    rw [bytesFrom_none _ _ none, all, List.append_nil]

/-- The rest of a served request is loopable again. -/
theorem loopable_afterRound (kept : medium.Kept image placed) {request : Request}
    {before after : DiskState World} {bytes : List UInt8}
    (loopable : medium.Loopable image placed request before)
    (noErr : before.errnum = .none) (inside : 0 ≤ request.sector)
    (served : medium.Served image request before after bytes) :
    medium.Loopable image placed (afterRound request) after := by
  have offset := loopable.offset
  have offset_lt := loopable.offset_lt
  have len := loopable.len_nonneg
  have len_lt := loopable.len_lt
  have sector_lt := loopable.sector_lt
  have rest_len : (afterRound request).byteLen = request.byteLen - firstPiece request := rfl
  unfold firstPiece at rest_len
  have next_sector := afterRound_sector inside sector_lt
  refine ⟨loopable.drive, by omega, Int.le_refl 0, by show (0 : Int) < 512; decide, by omega,
    by omega, fun _ => ?_, ?_, fun _ _ => kept.later (by omega)⟩
  · refine ⟨served.geometry, ?_⟩
    obtain empty | held | ⟨⟨spills, middle, track, full⟩, none, miss⟩ := served.cache
    · exact Or.inl empty
    · exact Or.inr (Or.inl held)
    · refine Or.inr (Or.inr ?_)
      have next : request.sector - request.sector % 56 + 56 < medium.geometry.totalSectors ∧
          request.sector - request.sector % 56 + 56 < 2 ^ 31 := by
        by_contra ends
        exact loopable.whole ⟨noErr, inside, miss, spills, middle, full, ends⟩
      unfold Spills at spills
      rw [track]
      exact ⟨by omega, by omega, by omega, by omega, none⟩
  · rintro ⟨_, low, _, _, middle, _⟩
    omega

/-- A loop that ends with 1 started without an error. -/
theorem rawreadLoop_quiet (service : DiskService World) (rounds : Nat) {request : Request}
    {state : DiskState World} (one : (rawreadLoop service rounds state request).value = 1) :
    state.errnum = .none := by
  cases rounds with
  | zero => exact absurd (show (0 : Int) = 1 from one) (by decide)
  | succ rounds =>
      by_contra err
      simp [rawreadLoop, err] at one

/-- The loop of `rawread`, by induction on its rounds. -/
theorem rawreadLoop_spec (kept : medium.Kept image placed) (rounds : Nat) {request : Request}
    {state : DiskState World}
    (enough : request.byteLen < rounds)
    (loopable : medium.Loopable image placed request state) :
    medium.ReadBack image request state (rawreadLoop medium.service rounds state request) := by
  induction rounds generalizing request state with
  | zero =>
      have := loopable.len_nonneg
      omega
  | succ rounds ih =>
      unfold rawreadLoop
      by_cases serve : request.byteLen > 0 ∧ state.errnum = .none
      · rw [if_pos serve]
        obtain ⟨len, noErr⟩ := serve
        have sane : medium.Sane request := ⟨loopable.drive, loopable.offset, loopable.offset_lt,
          len, loopable.len_lt⟩
        obtain ⟨_, after, roundEq, content, coherent⟩ |
          ⟨inside, after, bytes, roundEq, served⟩ :=
          medium.rawreadRound_spec kept sane noErr loopable.usable (loopable.placed noErr)
        · rw [roundEq]
          exact ⟨content, coherent, fun one => absurd (show (0 : Int) = 1 from one) (by decide),
            fun one => absurd (show (0 : Int) = 1 from one) (by decide)⟩
        · rw [roundEq]
          have shorter : (afterRound request).byteLen < rounds := by
            have offset_lt := loopable.offset_lt
            show request.byteLen - firstPiece request < rounds
            unfold firstPiece
            omega
          have rest := ih shorter (medium.loopable_afterRound kept loopable noErr inside.1 served)
          refine ⟨rest.content.trans served.content, rest.coherent, fun one => ?_,
            fun _ _ => inside.1⟩
          have restBytes := rest.bytes_eq one
          have quiet := rawreadLoop_quiet medium.service rounds one
          show bytes ++ _ = _
          rw [restBytes, served.bytes_eq quiet, kept.congr served.content]
          exact pieces_join _ sane inside.1 loopable.sector_lt (rest.inside one)
      · rw [if_neg serve]
        refine ⟨rfl, loopable.usable.coherent fun serves => serve ⟨serves.2.2.1, serves.2.2.2⟩,
          fun one => ?_, fun one len => ?_⟩
        · have done : request.byteLen ≤ 0 := by
            by_contra more
            exact serve ⟨by omega, Decidable.not_not.mp fun err => by simp [err] at one⟩
          exact (bytesFrom_none _ _ done).symm
        · exact absurd ⟨len, Decidable.not_not.mp fun err => by simp [err] at one⟩ serve

/-- One call of `rawread` on a coherent cache. -/
theorem rawread_spec (kept : medium.Kept image placed) {state : DiskState World}
    {sector byteOffset byteLen : Int} (coherent : medium.Coherent image state)
    (sector_lt : sector < 2 ^ 31) (offset : 0 ≤ byteOffset) (offset_lt : byteOffset < 512)
    (len_lt : byteLen < 2 ^ 31)
    (whole : ¬ medium.CutOff ⟨medium.drive, sector, byteOffset, byteLen⟩ state)
    (may : state.errnum = .none →
      ¬ medium.Buffered ⟨medium.drive, sector, byteOffset, byteLen⟩ state →
      placed ⟨medium.drive, sector, byteOffset, byteLen⟩ state.world) :
    let result := rawread medium.service state medium.drive sector byteOffset byteLen
    medium.content result.state.world = medium.content state.world ∧
      medium.Coherent image result.state ∧
      (result.value = 1 → result.bytes =
        bytesFrom (image state.world) (sector * 512 + byteOffset) byteLen) := by
  unfold rawread
  by_cases nothing : byteLen ≤ 0
  · rw [if_pos nothing]
    exact ⟨rfl, coherent, fun _ => (bytesFrom_none _ _ nothing).symm⟩
  · rw [if_neg nothing]
    have loopable : medium.Loopable image placed ⟨medium.drive, sector, byteOffset, byteLen⟩
        state :=
      ⟨rfl, sector_lt, offset, offset_lt, by show 0 ≤ byteLen; omega, len_lt,
        coherent.usable _, whole, may⟩
    have back := medium.rawreadLoop_spec kept (byteLen.toNat + 1)
      (by show byteLen < _; omega) loopable
    exact ⟨back.content, back.coherent, back.bytes_eq⟩

/-- A sector of the buffered track whose track, rounded with the geometry's 63
sectors, is not the buffered one: a store there does not drop the buffer. -/
def Missed (sector : Int) (state : DiskState World) : Prop :=
  state.bufDrive = medium.drive ∧ 0 ≤ state.bufTrack ∧ state.bufTrack ≤ sector ∧
    sector < state.bufTrack + 56 ∧ sector - sector % 63 ≠ state.bufTrack

/-- Storing a sector keeps the cache coherent unless the rounding misses it. -/
theorem storeSector_coherent {state : DiskState World} {sector : Int} (data : Int → UInt8)
    (coherent : medium.Coherent medium.content state) (seen : ¬ medium.Missed sector state) :
    medium.Coherent medium.content (storeSector medium.service state medium.drive sector data).2 := by
  simp only [storeSector]
  split
  · rename_i failed
    have absent := mt (medium.write_status _ _ _ _ _).mpr failed
    intro same
    obtain ⟨geom, empty | held⟩ := coherent same
    · exact ⟨geom, Or.inl empty⟩
    · obtain ⟨low, aligned, inside, bytes⟩ := held
      refine ⟨geom, Or.inr ⟨low, aligned, inside, fun i nonneg lt => ?_⟩⟩
      refine (bytes i nonneg lt).trans ?_
      rw [medium.write_refused _ _ _ _ _ absent]
  · rename_i stored
    have onMedium := (medium.write_status _ _ _ _ _).mp (Decidable.not_not.mp stored)
    split
    · intro same
      exact ⟨(coherent same).1, Or.inl rfl⟩
    · rename_i other
      intro same
      obtain ⟨geom, empty | held⟩ := coherent same
      · exact ⟨geom, Or.inl empty⟩
      · obtain ⟨low, aligned, inside, bytes⟩ := held
        refine ⟨geom, Or.inr ⟨low, aligned, inside, fun i nonneg lt => ?_⟩⟩
        refine (bytes i nonneg lt).trans ?_
        have rounded : sector - sector % 63 ≠ state.bufTrack := by
          rw [← medium.sectors_eq, ← geom]
          exact other
        have apart : ¬ (sector * 512 ≤ state.bufTrack * 512 + i ∧
            state.bufTrack * 512 + i < (sector + 1) * 512) :=
          fun overlap => seen ⟨same, low, by omega, by omega, rounded⟩
        rw [medium.write_content _ _ _ _ _ onMedium]
        exact (if_neg apart).symm

/-- `rawwrite` keeps the cache coherent unless the rounding misses the sector. -/
theorem rawwrite_coherent {state : DiskState World} {sector : Int} (data : Int → UInt8)
    (coherent : medium.Coherent medium.content state) (seen : ¬ medium.Missed sector state) :
    medium.Coherent medium.content
      (rawwrite medium.service state medium.drive sector data).2 := by
  unfold rawwrite
  split
  · have reread : ∀ scratch world errnum, medium.content world = medium.content state.world →
        medium.Coherent medium.content
          { state with scratch := scratch, world := world, errnum := errnum } := by
      intro scratch world errnum content same
      obtain ⟨geom, empty | ⟨low, aligned, inside, bytes⟩⟩ := coherent same
      · exact ⟨geom, Or.inl empty⟩
      · exact ⟨geom, Or.inr ⟨low, aligned, inside, fun i nonneg lt =>
          (bytes i nonneg lt).trans (by rw [content])⟩⟩
    have content := medium.read_content state.world state.bufGeom 0 1 state.scratch
    dsimp only
    split
    · exact reread _ _ _ content
    · refine medium.storeSector_coherent data (reread _ _ state.errnum content) ?_
      rintro ⟨same, low, above, below, rounded⟩
      obtain ⟨_, empty | ⟨_, aligned, _⟩⟩ := coherent same
      · dsimp only at low
        omega
      · have boot : ∀ {k : Int}, k = 0 ∨ k = 1 → state.bufTrack ≤ k → k < state.bufTrack + 56 →
            k - k % 63 = state.bufTrack := by
          intro k boot above below
          omega
        refine rounded (boot ?_ above below)
        split
        · exact Or.inr rfl
        · exact Or.inl rfl
  · exact medium.storeSector_coherent data coherent seen

end Medium

namespace Medium

variable {World : Type} (medium : Medium World)

/-- The globals after one call on the drive. -/
def step (state : DiskState World) (call : DiskCall) : DiskState World :=
  diskStep medium.service medium.drive state call

/-- The call, if it is a `rawread` that returns 1, delivers the bytes now on the disk. -/
def Delivers (state : DiskState World) : DiskCall → Prop
  | .rawread sector byteOffset byteLen =>
    let result := rawread medium.service state medium.drive sector byteOffset byteLen
    result.value = 1 → result.bytes =
      bytesFrom (medium.content state.world) (sector * 512 + byteOffset) byteLen
  | _ => True

/-- The calls considered: arguments that are `int`s, a byte offset inside the
sector, and no EZ-Drive type byte in the sector the buffer will start with where
that is looked at, on the first track. -/
def Admitted (state : DiskState World) : DiskCall → Prop
  | .rawread sector byteOffset byteLen =>
    sector < 2 ^ 31 ∧ 0 ≤ byteOffset ∧ byteOffset < 512 ∧ byteLen < 2 ^ 31 ∧
      (0 ≤ sector → sector < 56 → carriesEzd (medium.sectorBytes state.world
        (medium.firstBuffered ⟨medium.drive, sector, byteOffset, byteLen⟩)) = false)
  | _ => True

/-- No read is cut off in the middle, and no store is missed by the rounding. -/
def Tracked (state : DiskState World) : DiskCall → Prop
  | .rawread sector byteOffset byteLen =>
    ¬ medium.CutOff ⟨medium.drive, sector, byteOffset, byteLen⟩ state
  | .rawwrite sector _ => ¬ medium.Missed sector state
  | .clearError => True

/-- An admitted call that the track number follows keeps the cache coherent. -/
theorem step_coherent {state : DiskState World} {call : DiskCall}
    (coherent : medium.Coherent medium.content state)
    (allowed : medium.Admitted state call ∧ medium.Tracked state call) :
    medium.Coherent medium.content (medium.step state call) := by
  obtain ⟨admitted, tracked⟩ := allowed
  cases call with
  | rawread sector byteOffset byteLen =>
      obtain ⟨sector_lt, offset, offset_lt, len_lt, clean⟩ := admitted
      exact (medium.rawread_spec medium.kept_content coherent sector_lt offset offset_lt len_lt tracked
        fun _ _ => clean).2.1
  | rawwrite sector data => exact medium.rawwrite_coherent data coherent tracked
  | clearError => exact coherent

/-- Such a call on a coherent cache delivers what is on the disk. -/
theorem delivers_of_coherent {state : DiskState World} {call : DiskCall}
    (coherent : medium.Coherent medium.content state)
    (allowed : medium.Admitted state call ∧ medium.Tracked state call) :
    medium.Delivers state call := by
  obtain ⟨admitted, tracked⟩ := allowed
  cases call with
  | rawread sector byteOffset byteLen =>
      obtain ⟨sector_lt, offset, offset_lt, len_lt, clean⟩ := admitted
      exact (medium.rawread_spec medium.kept_content coherent sector_lt offset offset_lt len_lt tracked
        fun _ _ => clean).2.2
  | rawwrite sector data => trivial
  | clearError => trivial

/-- Read-after-write coherence: from an empty cache, in every run of calls that
never cut off a read in the middle of a track nor store into the buffered track
past the rounding, each successful `rawread` delivers the bytes on the disk. -/
theorem rawread_delivers_disk {state : DiskState World} (empty : state.bufDrive = -1)
    {calls : List DiskCall}
    (run : Along medium.step (fun state call => medium.Admitted state call ∧
      medium.Tracked state call) state calls) :
    Along medium.step medium.Delivers state calls :=
  Along.of_invariant (medium.Coherent medium.content) (fun _ _ => medium.step_coherent)
    (fun _ _ => medium.delivers_of_coherent) (medium.coherent_of_empty empty) run

end Medium

/-- A disk held in memory: transfers off its end fail with -1 and change nothing. -/
def ramService (geometry : Geometry) : DiskService (Int → UInt8) where
  getDiskinfo _ _ := some geometry
  getSectorSize _ _ := 512
  biosdisk disk func _ _ sector nsec segment :=
    if OnMedium geometry sector nsec then
      match func with
      | .read =>
        ⟨0, fun i => if 0 ≤ i ∧ i < nsec * 512 then disk (sector * 512 + i) else segment i, disk⟩
      | .write =>
        ⟨0, segment, fun address =>
          if sector * 512 ≤ address ∧ address < (sector + nsec) * 512 then
            segment (address - sector * 512)
          else disk address⟩
    else ⟨-1, segment, disk⟩

/-- What `get_diskinfo` reports for a disk of that many 512-byte sectors. -/
def ramGeometry (totalSectors : Int) : Geometry :=
  { cylinders := totalSectors / 63 / (if totalSectors / 63 < 255 then 1 else 255)
    heads := if totalSectors / 63 < 255 then 1 else 255
    sectors := 63
    totalSectors := totalSectors
    sectorSize := 512
    flags := 1 }

/-- The disk in memory as drive 0x80. -/
def ramMedium (totalSectors : Int) : Medium (Int → UInt8) where
  service := ramService (ramGeometry totalSectors)
  drive := 0x80
  geometry := ramGeometry totalSectors
  content disk := disk
  drive_nonneg := by decide
  sectors_eq := rfl
  sectorSize_eq := rfl
  diskinfo _ := rfl
  getSectorSize _ := rfl
  read_status disk _ sector nsec segment := by
    by_cases onMedium : OnMedium (ramGeometry totalSectors) sector nsec <;>
      simp [ramService, onMedium]
  read_segment disk _ sector nsec segment onMedium i nonneg lt := by
    simp [ramService, onMedium, nonneg, lt]
  read_content disk _ sector nsec segment := by
    by_cases onMedium : OnMedium (ramGeometry totalSectors) sector nsec <;>
      simp [ramService, onMedium]
  write_status disk _ sector nsec segment := by
    by_cases onMedium : OnMedium (ramGeometry totalSectors) sector nsec <;>
      simp [ramService, onMedium]
  write_content disk _ sector nsec segment onMedium := by simp [ramService, onMedium]
  write_refused disk _ sector nsec segment absent := by simp [ramService, absent]

/-- The globals before the first access, over a blank disk. -/
def blankState : DiskState (Int → UInt8) :=
  { bufDrive := -1
    bufTrack := 0
    bufGeom := ⟨0, 0, 0, 0, 0, 0⟩
    buffer := fun _ => 0
    scratch := fun _ => 0
    errnum := .none
    diskReadFunc := false
    reported := []
    world := fun _ => 0 }

/-- A store into a track whose number is a multiple of 63 is read back. -/
theorem rawread_delivers_stored_sector :
    Along (ramMedium 112).step (ramMedium 112).Delivers blankState
      [.rawread 3 0 4, .rawwrite 3 (fun _ => 1), .rawread 3 0 4] :=
  (ramMedium 112).rawread_delivers_disk rfl (by
    refine ⟨⟨⟨by decide, by decide, by decide, by decide, fun _ _ => rfl⟩, fun cut => ?_⟩,
      ⟨trivial, fun missed => ?_⟩, ⟨⟨by decide, by decide, by decide, by decide,
        fun _ _ => by decide +kernel⟩, fun cut => ?_⟩, trivial⟩
    · exact absurd cut.2.2.2.1 (by decide)
    · exact absurd missed.2.2.2.2 (by decide +kernel)
    · exact absurd cut.2.2.2.1 (by decide))

/-- Sector 60 lies in the buffered track 56 but rounds to 0: after a store there
the old byte is still delivered. -/
theorem rawread_delivers_stale_sector :
    Along (ramMedium 112).step (ramMedium 112).Admitted blankState
        [.rawread 56 0 1, .rawwrite 60 (fun _ => 1), .rawread 60 0 1] ∧
      ¬ Along (ramMedium 112).step (ramMedium 112).Delivers blankState
        [.rawread 56 0 1, .rawwrite 60 (fun _ => 1), .rawread 60 0 1] := by
  refine ⟨⟨⟨by decide, by decide, by decide, by decide, fun _ lt => absurd lt (by decide)⟩,
    trivial, ⟨by decide, by decide, by decide, by decide, fun _ lt => absurd lt (by decide)⟩,
    trivial⟩, fun delivers => ?_⟩
  have last := delivers.2.2.1 (by decide +kernel)
  exact absurd last (by decide +kernel)

end GrubLegacy.DiskIo
