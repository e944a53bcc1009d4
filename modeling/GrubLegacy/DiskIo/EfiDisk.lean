import GrubLegacy.DiskIo.RawAccess

/-!
# The EFI disk layer

`biosdisk` and `get_diskinfo` of `efidisk.c` over the disk I/O protocol of the
firmware, which is a parameter. Every transfer the firmware is asked for is
recorded with its outcome.
-/

namespace GrubLegacy.DiskIo

open GrubLegacy.Base GrubLegacy.Stage2

/-- The medium in a drive: its last block and the size of a block, a power of two
from 512 to 4096. -/
structure BlockMedia where
  lastBlock : Nat
  bits : Nat
  large : 9 ≤ bits
  small : bits ≤ 12

/-- `media->block_size`. -/
def BlockMedia.blockSize (media : BlockMedia) : Int := 2 ^ media.bits

/-- What the firmware makes of one transfer. -/
structure FirmwareOutcome (World : Type) where
  success : Bool
  segment : Int → UInt8
  world : World

/-- The firmware: the media `get_device_from_drive` knows, and the `read` and `write`
of the disk I/O protocol, with a byte offset and a length. -/
structure Firmware (World : Type) where
  media : Int → Option BlockMedia
  transfer : World → BiosdiskFunc → (drive : Int) → (offset size : Int) →
    (segment : Int → UInt8) → FirmwareOutcome World

/-- A transfer that was asked for, and the memory it left in the segment. -/
structure DiskTransfer where
  func : BiosdiskFunc
  drive : Int
  offset : Int
  size : Int
  success : Bool
  segment : Int → UInt8

/-- The world of the firmware with the transfers so far. -/
structure Traced (World : Type) where
  world : World
  transfers : List DiskTransfer

variable {World : Type}

/-- `grub_efidisk_read` or `grub_efidisk_write`. The offset and the length are
64-bit numbers of bytes, the number of sectors is a 32-bit one before. -/
def efidiskTransfer (firmware : Firmware World) (func : BiosdiskFunc) (drive : Int)
    (media : BlockMedia) (traced : Traced World) (sector size : Int) (segment : Int → UInt8) :
    Transfer (Traced World) :=
  let offset := sector * media.blockSize % 2 ^ 64
  let length := toUInt32 size * media.blockSize
  let outcome := firmware.transfer traced.world func drive offset length segment
  { status := if outcome.success then 0 else -1
    segment := outcome.segment
    world :=
      { world := outcome.world
        transfers := traced.transfers ++
          [⟨func, drive, offset, length, outcome.success, outcome.segment⟩] } }

def grubEfidiskRead (firmware : Firmware World) := efidiskTransfer firmware .read

def grubEfidiskWrite (firmware : Firmware World) := efidiskTransfer firmware .write

/-- `biosdisk`. -/
def biosdisk (firmware : Firmware World) (traced : Traced World) (subfunc : BiosdiskFunc)
    (drive : Int) (_geometry : Geometry) (sector nsec : Int) (segment : Int → UInt8) :
    Transfer (Traced World) :=
  match firmware.media drive with
  | none => { status := -1, segment, world := traced }
  | some media =>
    let ret :=
      match subfunc with
      | .read => grubEfidiskRead firmware drive media traced sector nsec segment
      | .write => grubEfidiskWrite firmware drive media traced sector nsec segment
    -- the status of the transfer is not passed on
    { ret with status := 0 }

/-- `get_diskinfo`, with the number of sectors as an `unsigned long`. -/
def BlockMedia.geometry (media : BlockMedia) : Geometry :=
  let totalSectors := toUInt32 (media.lastBlock + 1)
  let heads := if totalSectors / 63 < 255 then 1 else 255
  { cylinders := totalSectors / 63 / heads
    heads := heads
    sectors := 63
    totalSectors := totalSectors
    sectorSize := media.blockSize
    flags := 1 }

/-- The firmware layer as raw access sees it. -/
def efiService (firmware : Firmware World) : DiskService (Traced World) where
  getDiskinfo _ drive := (firmware.media drive).map BlockMedia.geometry
  getSectorSize _ drive := ((firmware.media drive).map BlockMedia.blockSize).getD 0
  biosdisk := biosdisk firmware

end GrubLegacy.DiskIo
