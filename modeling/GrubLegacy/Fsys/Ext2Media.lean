import GrubLegacy.DiskIo.PartitionMedia
import GrubLegacy.Partition.SliceTables

/-!
# The partition of an ext2 file system

The medium below `fsys_ext2fs.c`, and `ext2_rdfsb`. What is left of a read on a disk without
errors is whether the bounds of the partition allow it, and the numbers of the sectors.
-/

namespace GrubLegacy.Fsys

open Base Stage2 DiskIo GrubLegacy.Partition

/-- The partition, the sector of the disk it starts at, and the logarithm of the size of a
block. -/
structure Ext2Media extends PartitionMedia where
  partStart : Nat
  blockBits : Nat
  sectors : 9 ≤ sectorBits ∧ sectorBits ≤ 12
  blocks : 10 ≤ blockBits ∧ blockBits ≤ 13

/-- The smallest sectors and blocks. -/
theorem smallestSectors : 9 ≤ 9 ∧ 9 ≤ 12 := by decide

theorem smallestBlocks : 10 ≤ 10 ∧ 10 ≤ 13 := by decide

namespace Ext2Media

variable (media : Ext2Media)

/-- DEV_BSIZE -/
def devBsize : Nat := media.sectorSize

/-- EXT2_BLOCK_SIZE -/
def blockSize : Nat := 2 ^ media.blockBits

/-- `ext2_rdfsb`, without the buffer. -/
def ext2Rdfsb (fsblock : Int) : Except {errnum : GrubError // errnum ≠ .none} (List UInt8) :=
  media.devread (toInt32 (fsblock * (media.blockSize / media.devBsize : Nat))) 0 media.blockSize

/-- A block of the file system as a buffer shows it. -/
def block (fsblock : Nat) : Buffer := fun i => media.content (fsblock * media.blockSize + i)

/-- The block lies in the partition, and the numbers of its sectors on the disk are `int`s. -/
def InReach (fsblock : Nat) : Prop :=
  (fsblock + 1) * (media.blockSize / media.devBsize) ≤ media.partLength ∧
    media.partStart + (fsblock + 1) * (media.blockSize / media.devBsize) ≤ 2 ^ 31

instance (fsblock : Nat) : Decidable (media.InReach fsblock) :=
  inferInstanceAs (Decidable (_ ∧ _))

/-- There is no disk error: `rawread` delivers what lies in the partition, if the numbers of
the sectors on the disk are `int`s. -/
def NoDiskError : Prop :=
  ∀ sector offset size : Nat, 0 < size →
    sector + (offset + size - 1) / media.sectorSize < media.partLength →
    media.partStart + sector + (offset + size - 1) / media.sectorSize < 2 ^ 31 →
      media.fails sector offset size = none

end Ext2Media

section

variable {media : Ext2Media}

/-- Blocks are whole sectors. -/
theorem sectorsPerBlock (whole : media.sectorBits ≤ media.blockBits) :
    media.blockSize / media.devBsize * media.devBsize = media.blockSize :=
  Nat.div_mul_cancel (Nat.pow_dvd_pow 2 whole)

/-- A read of a part of a block in reach. -/
theorem devread_inReach (whole : media.sectorBits ≤ media.blockBits)
    (noError : media.NoDiskError) {fsblock offset size : Nat} (inReach : media.InReach fsblock)
    (some_ : 0 < size) (inside : offset + size ≤ media.blockSize) :
    media.devread (toInt32 (fsblock * (media.blockSize / media.devBsize : Nat))) offset size =
      .ok (media.bytes (fsblock * media.blockSize + offset) size) := by
  have perBlock : media.blockSize / media.devBsize * media.sectorSize = media.blockSize :=
    sectorsPerBlock whole
  obtain ⟨inPart, inRange⟩ := inReach
  have positive : 0 < media.sectorSize := sectorSize_pos _
  -- The last byte read lies in the last sector of the block.
  have last : (offset + size - 1) / media.sectorSize < media.blockSize / media.devBsize := by
    apply Nat.div_lt_of_lt_mul
    rw [Nat.mul_comm, perBlock]
    omega
  generalize media.blockSize / media.devBsize = perSector at perBlock inPart inRange last
  have final : (fsblock + 1) * perSector = fsblock * perSector + perSector := Nat.succ_mul _ _
  have reads : media.fails (fsblock * perSector : Nat) offset size = none :=
    noError _ _ _ some_ (by omega) (by omega)
  have delivered := devread_blocks reads inPart
    (Nat.le_trans (Nat.le_add_left _ _) inRange) some_ (by rw [Nat.one_mul, perBlock]; exact inside)
  rw [perBlock] at delivered
  exact delivered

/-- A whole block is read to a buffer. -/
theorem ext2Rdfsb_inReach (whole : media.sectorBits ≤ media.blockBits)
    (noError : media.NoDiskError) {fsblock : Nat} (inReach : media.InReach fsblock) :
    media.ext2Rdfsb fsblock =
      .ok (media.bytes (fsblock * media.blockSize) media.blockSize) :=
  devread_inReach whole noError inReach (Nat.two_pow_pos _) (Nat.le_of_eq (Nat.zero_add _))

/-- The buffer then shows that block. -/
theorem fill_block (buf : Buffer) (fsblock : Nat) {i : Nat} (inside : i < media.blockSize) :
    buf.fill (media.bytes (fsblock * media.blockSize) media.blockSize) i =
      media.block fsblock i := by
  rw [Area.fill, List.getD_eq_getElem _ _ (by simpa using inside), getElem_bytes, Ext2Media.block]

end

/-- What `rawread` refuses on a disk without errors: sectors whose numbers are no `int`s. -/
def refusesFarSectors (partStart sectorBits : Nat) (sector byteOffset byteLen : Int) :
    Option {errnum : GrubError // errnum ≠ .none} :=
  if partStart + sector + (byteOffset + byteLen - 1) / (2 ^ sectorBits : Nat) < 2 ^ 31 then none
  else some ⟨.geom, nofun⟩

/-- Such a disk has no errors. -/
theorem noDiskError_of_refuses {media : Ext2Media}
    (refuses : media.fails = refusesFarSectors media.partStart media.sectorBits) :
    media.NoDiskError := by
  intro sector offset size some_ _ near
  rw [refuses, refusesFarSectors, if_pos]
  rw [SectorMedia.sectorSize] at near
  have cast : (offset : Int) + size - 1 = (offset + size - 1 : Nat) := by omega
  rw [cast, ← Int.natCast_ediv, ← Int.natCast_add, ← Int.natCast_add]
  exact Int.ofNat_lt.mpr near

end GrubLegacy.Fsys
