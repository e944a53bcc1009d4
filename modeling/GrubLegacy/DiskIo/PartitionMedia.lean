import GrubLegacy.Base.ByteArea
import GrubLegacy.Base.MachineInt
import GrubLegacy.Stage2.Shared

/-!
# The medium below an open partition

`devread` of `disk_io.c`. `rawread` delivers what is on the disk or leaves an error.
-/

namespace GrubLegacy.DiskIo

open Base Stage2

/-- Bytes in sectors, the logarithm of the size of a sector, and the errors `rawread`
leaves. -/
structure SectorMedia where
  content : Nat → UInt8
  sectorBits : Nat
  fails : (sector byteOffset byteLen : Int) → Option {errnum : GrubError // errnum ≠ .none}

namespace SectorMedia

variable (media : SectorMedia)

/-- `get_sector_size` -/
def sectorSize : Nat := 2 ^ media.sectorBits

/-- The bytes from a position on. -/
def bytes (position len : Nat) : List UInt8 := bytesAt media.content position len

end SectorMedia

/-- The bytes of a partition, and its length in sectors. -/
structure PartitionMedia extends SectorMedia where
  partLength : Nat

namespace PartitionMedia

variable (media : PartitionMedia)

/-- `devread` -/
def devread (sector byteOffset byteLen : Int) :
    Except {errnum : GrubError // errnum ≠ .none} (List UInt8) :=
  if sector < 0 ∨ media.partLength ≤
      toUInt32 (sector + (byteOffset + byteLen - 1) / media.sectorSize) then
    .error ⟨.outsidePart, nofun⟩
  else
    match media.fails sector byteOffset byteLen with
    | some failure => .error failure
    | none => .ok (media.bytes (sector * media.sectorSize + byteOffset).toNat byteLen.toNat)

/-- What `devread` leaves in `errnum`, and the bytes. After an error the disk is not read. -/
def readDone (errnum : GrubError) :
    Except {errnum : GrubError // errnum ≠ .none} (List UInt8) → GrubError × Option (List UInt8)
  | .error failure =>
      (if errnum = .none ∨ failure.1 = .outsidePart then failure.1 else errnum, none)
  | .ok bytes => (errnum, if errnum = .none then some bytes else none)

end PartitionMedia

section

variable {media : SectorMedia}

/-- A sector has a byte at least. -/
theorem sectorSize_pos (media : SectorMedia) : 0 < media.sectorSize := Nat.two_pow_pos _

/-- As many bytes are taken as are asked for, -/
@[simp]
theorem bytes_length (position len : Nat) : (media.bytes position len).length = len :=
  length_bytesAt _ _ _

/-- each of them in its place. -/
@[simp]
theorem getElem_bytes {position len i : Nat} (inside : i < (media.bytes position len).length) :
    (media.bytes position len)[i] = media.content (position + i) := getElem_bytesAt inside

/-- The byte at a place that is asked for. -/
theorem getElem?_bytes {position len i : Nat} (inside : i < len) :
    (media.bytes position len)[i]? = some (media.content (position + i)) := by
  rw [List.getElem?_eq_getElem (by rw [bytes_length]; exact inside), getElem_bytes]

/-- Bytes are taken in two pieces. -/
theorem bytes_append (position first second : Nat) :
    media.bytes position first ++ media.bytes (position + first) second =
      media.bytes position (first + second) := (bytesAt_add _ _ _ _).symm

/-- Part of the bytes from a position on. -/
theorem bytes_drop (position len count : Nat) :
    (media.bytes position len).drop count = media.bytes (position + count) (len - count) :=
  drop_bytesAt _ _ _ _

/-- and the first of them are fewer from the same place. -/
theorem bytes_take (position len count : Nat) :
    (media.bytes position len).take count = media.bytes position (min count len) := by
  apply List.ext_getElem
  · simp
  · intro i inside inside'
    simp

end

section

variable {media : PartitionMedia}

/-- What is read is on the medium. -/
theorem devread_ok {sector byteOffset byteLen : Int} {stored : List UInt8}
    (reads : media.devread sector byteOffset byteLen = .ok stored) :
    0 ≤ sector ∧
      stored = media.bytes (sector * media.sectorSize + byteOffset).toNat byteLen.toNat := by
  rw [PartitionMedia.devread] at reads
  split at reads
  · cases reads
  · next inside =>
      cases failing : media.fails sector byteOffset byteLen with
      | some failure =>
          rw [failing] at reads
          cases reads
      | none =>
          rw [failing] at reads
          exact ⟨Int.not_lt.mp (not_or.mp inside).1, (Except.ok.inj reads).symm⟩

/-- Nothing is read when nothing is asked for. -/
theorem devread_none {errnum : GrubError} {sector byteOffset byteLen : Int}
    (nothing : byteLen = 0) :
    (PartitionMedia.readDone errnum (media.devread sector byteOffset byteLen)).2.getD [] = [] := by
  cases result : media.devread sector byteOffset byteLen with
  | error failure => rfl
  | ok bytes =>
      have empty := (devread_ok result).2
      rw [nothing, Int.toNat_zero] at empty
      rw [PartitionMedia.readDone, empty]
      by_cases clean : errnum = .none
      · rw [if_pos clean]
        rfl
      · rw [if_neg clean]
        rfl

/-- A read inside the partition, where there are no errors. -/
theorem devread_inside {sector offset size : Nat}
    (reads : media.fails sector offset size = none) (some_ : 0 < size)
    (inside : sector + (offset + size - 1) / media.sectorSize < media.partLength)
    (inRange : sector + (offset + size - 1) / media.sectorSize < 2 ^ 32) :
    media.devread sector offset size =
      .ok (media.bytes (sector * media.sectorSize + offset) size) := by
  have cast : (offset : Int) + size - 1 = (offset + size - 1 : Nat) := by omega
  have final : ((offset : Int) + size - 1) / media.sectorSize =
      ((offset + size - 1) / media.sectorSize : Nat) := by
    rw [cast]
    exact (Int.natCast_ediv _ _).symm
  have allowed : ¬ ((sector : Int) < 0 ∨
      media.partLength ≤ sector + (offset + size - 1) / media.sectorSize) :=
    not_or.mpr ⟨Int.not_lt.mpr (Int.natCast_nonneg _), Nat.not_le.mpr inside⟩
  rw [PartitionMedia.devread, final, ← Int.natCast_add, toUInt32_of_range inRange, if_neg allowed,
    reads]
  rw [← Int.natCast_mul, ← Int.natCast_add, Int.toNat_natCast, Int.toNat_natCast]

/-- A read of consecutive blocks of so many sectors, or of a part of them. -/
theorem devread_blocks {perBlock place count offset size : Nat}
    (reads : media.fails (place * perBlock : Nat) offset size = none)
    (inPart : (place + count) * perBlock ≤ media.partLength)
    (inRange : (place + count) * perBlock ≤ 2 ^ 31) (some_ : 0 < size)
    (inside : offset + size ≤ count * (perBlock * media.sectorSize)) :
    media.devread (toInt32 (place * perBlock : Nat)) offset size =
      .ok (media.bytes (place * (perBlock * media.sectorSize) + offset) size) := by
  have sectorSize_pos := sectorSize_pos media.toSectorMedia
  rw [Nat.add_mul] at inPart inRange
  have last : (offset + size - 1) / media.sectorSize < count * perBlock := by
    apply Nat.div_lt_of_lt_mul
    rw [← Nat.mul_assoc, Nat.mul_comm] at inside
    omega
  have before : place * perBlock + (offset + size - 1) / media.sectorSize <
      place * perBlock + count * perBlock := Nat.add_lt_add_left last _
  have first : place * perBlock < 2 ^ 31 :=
    Nat.lt_of_le_of_lt (Nat.le_add_right _ _) (Nat.lt_of_lt_of_le before inRange)
  have sector : toInt32 (place * perBlock : Nat) = (place * perBlock : Nat) := by
    generalize place * perBlock = sector at first
    apply toInt32_of_range
    · omega
    · omega
  have delivered := devread_inside reads some_ (Nat.lt_of_lt_of_le before inPart)
    (Nat.lt_of_lt_of_le before (Nat.le_trans inRange (by decide)))
  rw [sector, ← Nat.mul_assoc]
  exact delivered

end

/-- A medium without errors. -/
def plainMedia (content : Nat → UInt8) (partLength sectorBits : Nat) : PartitionMedia where
  content
  partLength
  sectorBits
  fails _ _ _ := none

end GrubLegacy.DiskIo
