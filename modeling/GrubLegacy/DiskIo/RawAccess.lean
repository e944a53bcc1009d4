import GrubLegacy.Base.ByteArea
import GrubLegacy.Base.MachineInt
import GrubLegacy.Stage2.Shared

/-!
# Raw sector access through the track buffer

`rawread` and `rawwrite` of `disk_io.c`, over the calls they make to the
firmware layer (`get_diskinfo`, `get_sector_size`, `biosdisk`). Addresses inside
`BUFFERADDR` and `SCRATCHADDR` are offsets from their starts.
-/

namespace GrubLegacy.DiskIo

open GrubLegacy.Base GrubLegacy.Stage2

/-- The function codes of `biosdisk`. -/
inductive BiosdiskFunc where
  | read
  | write
deriving DecidableEq, Repr

/-- What a call of `biosdisk` returns and leaves behind. -/
structure Transfer (World : Type) where
  status : Int
  segment : Int → UInt8
  world : World

/-- The firmware layer below `disk_io.c`; `World` is everything it owns. -/
structure DiskService (World : Type) where
  getDiskinfo : World → Int → Option Geometry
  getSectorSize : World → Int → Int
  biosdisk : World → BiosdiskFunc → (drive : Int) → Geometry → (sector nsec : Int) →
    (segment : Int → UInt8) → Transfer World

/-- `BIOSDISK_ERROR_GEOMETRY`. -/
def biosdiskErrorGeometry : Int := 0x100

/-- One call of `disk_read_func`: sector, byte offset and length. -/
structure SectorReport where
  sector : Int
  offset : Int
  length : Int
deriving DecidableEq, Repr

/-- The globals of `disk_io.c` that raw access reads and writes. -/
structure DiskState (World : Type) where
  bufDrive : Int
  bufTrack : Int
  bufGeom : Geometry
  buffer : Int → UInt8
  scratch : Int → UInt8
  errnum : GrubError
  diskReadFunc : Bool
  reported : List SectorReport
  world : World

/-- The `bsfl` instruction on a 32-bit word: the index of its lowest set bit. -/
def lowestSetBit : Nat → Nat → Nat
  | 0, _ => 0
  | width + 1, word => if word % 2 = 1 then 0 else lowestSetBit width (word / 2) + 1

/-- `grub_log2`. -/
def grubLog2 (word : Int) : Nat := lowestSetBit 32 word.toNat

/-- `PC_SLICE_TYPE_EZD`. -/
def pcSliceTypeEzd : UInt8 := 0x55

/-- `PC_SLICE_TYPE` of one of the four slots of the sector at the given memory. -/
def sliceTypeAt (memory : Int → UInt8) (part : Int) : UInt8 := memory (446 + 4 + 16 * part)

/-- One of the four slots of the sector carries the EZ-Drive type. -/
def carriesEzd (memory : Int → UInt8) : Bool :=
  sliceTypeAt memory 0 = pcSliceTypeEzd || sliceTypeAt memory 1 = pcSliceTypeEzd ||
    sliceTypeAt memory 2 = pcSliceTypeEzd || sliceTypeAt memory 3 = pcSliceTypeEzd

/-- What one round of the loop of `rawread` still has to deliver. -/
structure Request where
  drive : Int
  sector : Int
  byteOffset : Int
  byteLen : Int

/-- The locals one round computes from the geometry and the request. -/
structure Window where
  bits : Nat
  slen : Int
  perVtrack : Int
  soff : Int
  track : Int
  numSect : Int

/-- `sectors_per_vtrack`: a track cut down to what the buffer holds. -/
def sectorsPerVtrack (geometry : Geometry) : Int :=
  let bits := grubLog2 geometry.sectorSize
  if geometry.sectors * 2 ^ bits > bufferlen then bufferlen / 2 ^ bits else geometry.sectors

/-- The part of a round that only computes. -/
def window (geometry : Geometry) (request : Request) : Window :=
  let bits := grubLog2 geometry.sectorSize
  let perVtrack := sectorsPerVtrack geometry
  let soff := request.sector % perVtrack
  { bits := bits
    slen := toUInt32 (request.byteOffset + request.byteLen + geometry.sectorSize - 1) / 2 ^ bits
    perVtrack := perVtrack
    soff := soff
    track := request.sector - soff
    numSect := perVtrack - soff }

variable {World : Type}

/-- The cache belongs to another drive: take the geometry of this one. -/
def loadGeometry (service : DiskService World) (state : DiskState World) (drive : Int) :
    Option (DiskState World) :=
  if state.bufDrive = drive then some state
  else match service.getDiskinfo state.world drive with
    | none => none
    | some geometry => some { state with bufGeom := geometry, bufDrive := drive, bufTrack := -1 }

/-- A failed first transfer: give up on a geometry error, else try again with
only the sectors that are needed, at the start of the buffer. Returns the new
`bufaddr` too. -/
def retryRead (service : DiskService World) (state : DiskState World) (request : Request)
    (win : Window) (biosErr bufaddr : Int) : DiskState World × Int :=
  let state := { state with bufTrack := -1 }
  if biosErr = biosdiskErrorGeometry then ({ state with errnum := .geom }, bufaddr)
  else if win.slen > win.numSect then ({ state with errnum := .read }, request.byteOffset)
  else
    let again := service.biosdisk state.world .read request.drive state.bufGeom
      request.sector win.slen state.buffer
    ({ state with
        buffer := again.segment
        world := again.world
        errnum := if again.status ≠ 0 then .read else state.errnum }, request.byteOffset)

/-- On an EZ-Drive disk the first sector of the buffer is replaced by sector 1. -/
def mapEzd (service : DiskService World) (state : DiskState World) (request : Request)
    (win : Window) : DiskState World :=
  if (state.bufTrack = 0 ∨ request.sector = 0) ∧ carriesEzd state.buffer then
    if state.bufTrack = 0 ∨ win.slen ≥ 2 then
      let size := state.bufGeom.sectorSize
      { state with
        buffer := fun i => if 0 ≤ i ∧ i < size then state.buffer (i + size) else state.buffer i }
    else
      let second := service.biosdisk state.world .read request.drive state.bufGeom 1 1 state.buffer
      { state with
        buffer := second.segment
        world := second.world
        errnum := if second.status ≠ 0 then .read else state.errnum }
  else state

/-- The branch on `bios_err`: retry a failed transfer, or record the track. -/
def settleRead (service : DiskService World) (state : DiskState World) (request : Request)
    (win : Window) (biosErr bufaddr : Int) : DiskState World × Int :=
  if biosErr ≠ 0 then retryRead service state request win biosErr bufaddr
  else ({ state with bufTrack := win.track }, bufaddr)

/-- The branch `track != buf_track`: fill the buffer, with the whole track or,
when the request runs past its end, only from `sector` on. Returns `bufaddr`. -/
def fillBuffer (service : DiskService World) (state : DiskState World) (request : Request)
    (win : Window) : DiskState World × Int :=
  let spills := win.slen > win.numSect
  let readStart := if spills then request.sector else win.track
  let readLen := if spills then win.numSect else win.perVtrack
  let bufaddr := (if spills then 0 else win.soff * 2 ^ win.bits) + request.byteOffset
  let first := service.biosdisk state.world .read request.drive state.bufGeom
    readStart readLen state.buffer
  let settled := settleRead service { state with buffer := first.segment, world := first.world }
    request win first.status bufaddr
  (mapEzd service settled.1 request win, settled.2)

/-- The calls of `disk_read_func` for `length` further bytes from `sector` on. -/
def reportRest (sectorSize : Int) : Nat → (sector length : Int) → List SectorReport
  | 0, _, _ => []
  | rounds + 1, sector, length =>
    if length > sectorSize then
      ⟨sector, 0, sectorSize⟩ :: reportRest sectorSize rounds (sector + 1) (length - sectorSize)
    else [⟨sector, 0, length⟩]

/-- All calls of `disk_read_func` for one piece that was read. -/
def reportSectors (sectorSize sector byteOffset size : Int) : List SectorReport :=
  let length := min (sectorSize - byteOffset) size
  ⟨sector, byteOffset, length⟩ ::
    if size - length > 0 then
      reportRest sectorSize (size - length).toNat (sector + 1) (size - length)
    else []

/-- `count` bytes of memory from an address on. -/
def bytesFrom (memory : Int → UInt8) (address count : Int) : List UInt8 :=
  bytesAt (fun i => memory (address + i)) 0 count.toNat

/-- One round either makes `rawread` return 0 or hands over bytes. -/
inductive Round (World : Type) where
  | refused (state : DiskState World)
  | served (state : DiskState World) (bytes : List UInt8) (rest : Request)

/-- Number of bytes one round delivers. -/
def roundSize (win : Window) (request : Request) : Int :=
  min request.byteLen (win.numSect * 2 ^ win.bits - request.byteOffset)

/-- The instrumentation: report the sectors of one piece if anyone asked. -/
def noteSectors (state : DiskState World) (request : Request) (size : Int) : DiskState World :=
  if state.diskReadFunc then
    { state with reported := state.reported ++
        reportSectors state.bufGeom.sectorSize request.sector request.byteOffset size }
  else state

/-- The instrumentation changes nothing but the list of reports. -/
theorem noteSectors_eq (state : DiskState World) (request : Request) (size : Int) :
    ∃ reported, noteSectors state request size = { state with reported := reported } := by
  unfold noteSectors
  split
  · exact ⟨_, rfl⟩
  · exact ⟨state.reported, rfl⟩

/-- The body of the loop of `rawread`. -/
def rawreadRound (service : DiskService World) (state : DiskState World) (request : Request) :
    Round World :=
  match loadGeometry service state request.drive with
  | none => .refused { state with errnum := .noDisk }
  | some state =>
    if request.sector < 0 ∨ request.sector ≥ state.bufGeom.totalSectors then
      .refused { state with errnum := .geom }
    else
      let win := window state.bufGeom request
      let held :=
        if win.track ≠ state.bufTrack then fillBuffer service state request win
        else (state, win.soff * 2 ^ win.bits + request.byteOffset)
      let size := roundSize win request
      .served (noteSectors held.1 request size) (bytesFrom held.1.buffer held.2 size)
        { request with
          sector := toInt32 (request.sector + win.numSect)
          byteOffset := 0
          byteLen := request.byteLen - size }

/-- Return value of `rawread`, the bytes stored at `buf`, and the new globals. -/
structure RawResult (World : Type) where
  value : Int
  bytes : List UInt8
  state : DiskState World

/-- The loop of `rawread`. A round delivers at least one byte when `byte_offset`
lies inside the first sector, so `byte_len` rounds are enough. -/
def rawreadLoop (service : DiskService World) : Nat → DiskState World → Request → RawResult World
  | 0, state, _ => ⟨0, [], state⟩
  | rounds + 1, state, request =>
    if request.byteLen > 0 ∧ state.errnum = .none then
      match rawreadRound service state request with
      | .refused state => ⟨0, [], state⟩
      | .served state bytes rest =>
        let later := rawreadLoop service rounds state rest
        { later with bytes := bytes ++ later.bytes }
    else ⟨if state.errnum = .none then 1 else 0, [], state⟩

/-- `rawread`. -/
def rawread (service : DiskService World) (state : DiskState World)
    (drive sector byteOffset byteLen : Int) : RawResult World :=
  if byteLen ≤ 0 then ⟨1, [], state⟩
  else rawreadLoop service (byteLen.toNat + 1) state ⟨drive, sector, byteOffset, byteLen⟩

/-- The second half of `rawwrite`, once the target sector is known. The cached
track is dropped when the sector's track, rounded with the geometry's
`sectors`, is the buffered one. -/
def storeSector (service : DiskService World) (state : DiskState World) (drive sector : Int)
    (data : Int → UInt8) : Int × DiskState World :=
  let size := service.getSectorSize state.world drive
  let state := { state with
    scratch := fun i => if 0 ≤ i ∧ i < size then data i else state.scratch i }
  let stored := service.biosdisk state.world .write drive state.bufGeom sector 1 state.scratch
  let state := { state with scratch := stored.segment, world := stored.world }
  if stored.status ≠ 0 then (0, { state with errnum := .write })
  else if sector - sector % state.bufGeom.sectors = state.bufTrack then
    (1, { state with bufTrack := -1 })
  else (1, state)

/-- `rawwrite`. The last test divides by the sectors of a track: it traps where no
read has filled in the geometry yet, and here it then compares with the sector itself. -/
def rawwrite (service : DiskService World) (state : DiskState World) (drive sector : Int)
    (data : Int → UInt8) : Int × DiskState World :=
  if sector = 0 then
    let boot := service.biosdisk state.world .read drive state.bufGeom 0 1 state.scratch
    let state := { state with scratch := boot.segment, world := boot.world }
    if boot.status ≠ 0 then (0, { state with errnum := .write })
    else storeSector service state drive (if carriesEzd state.scratch then 1 else 0) data
  else storeSector service state drive sector data

/-- The calls of raw access on a drive; callers clear `errnum` between them. -/
inductive DiskCall where
  | rawread (sector byteOffset byteLen : Int)
  | rawwrite (sector : Int) (data : Int → UInt8)
  | clearError

/-- The globals after one call. -/
def diskStep (service : DiskService World) (drive : Int) (state : DiskState World) :
    DiskCall → DiskState World
  | .rawread sector byteOffset byteLen =>
    (rawread service state drive sector byteOffset byteLen).state
  | .rawwrite sector data => (rawwrite service state drive sector data).2
  | .clearError => { state with errnum := .none }

/-! ## Bytes of memory -/

/-- The bytes, one by one. -/
theorem bytesFrom_eq (memory : Int → UInt8) (address count : Int) :
    bytesFrom memory address count =
      (List.range count.toNat).map fun (i : Nat) => memory (address + i) := by
  simp only [bytesFrom, bytesAt, Nat.zero_add]

/-- As many bytes are taken as are asked for. -/
theorem length_bytesFrom (memory : Int → UInt8) (address count : Int) :
    (bytesFrom memory address count).length = count.toNat := length_bytesAt _ _ _

/-- For a length that is not positive none is taken. -/
theorem bytesFrom_none (memory : Int → UInt8) (address : Int) {count : Int} (none : count ≤ 0) :
    bytesFrom memory address count = [] :=
  List.eq_nil_of_length_eq_zero (by rw [length_bytesFrom, Int.toNat_of_nonpos none])

/-- Consecutive pieces of memory. -/
theorem bytesFrom_add (memory : Int → UInt8) (address : Int) {first second : Int}
    (first_nonneg : 0 ≤ first) (second_nonneg : 0 ≤ second) :
    bytesFrom memory address (first + second) =
      bytesFrom memory address first ++ bytesFrom memory (address + first) second := by
  simp only [bytesFrom]
  rw [Int.toNat_add first_nonneg second_nonneg, bytesAt_add]
  congr 1
  refine bytesAt_congr fun i _ => ?_
  have cast : ((0 + first.toNat + i : Nat) : Int) = first + (0 + i : Nat) := by omega
  rw [cast, Int.add_assoc]

/-- Equal memory has equal bytes. -/
theorem bytesFrom_congr {left right : Int → UInt8} {a b count : Int}
    (same : ∀ i, 0 ≤ i → i < count → left (a + i) = right (b + i)) :
    bytesFrom left a count = bytesFrom right b count :=
  bytesAt_congr fun i inside => same _ (by omega) (by omega)

end GrubLegacy.DiskIo
