import Mathlib

/-!
# Shared definitions of Stage 2

The error numbers, the disk geometry record and the buffer sizes every part of
Stage 2 uses. The build is 32-bit (`-m32 -march=i586`), so `int` and
`unsigned long` have 32 bits throughout.
-/

namespace GrubLegacy.Stage2

/-- The value of `errnum`. -/
inductive GrubError where
  | none
  | badFilename
  | badFiletype
  | badGzipData
  | badGzipHeader
  | badPartTable
  | badVersion
  | below1MB
  | bootCommand
  | bootFailure
  | bootFeatures
  | devFormat
  | devValues
  | execFormat
  | filelength
  | fileNotFound
  | fsysCorrupt
  | fsysMount
  | geom
  | needLxKernel
  | needMbKernel
  | noDisk
  | noPart
  | numberParsing
  | outsidePart
  | read
  | symlinkLoop
  | unrecognized
  | wontFit
  | write
  | badArgument
  | unaligned
  | privileged
  | devNeedInit
  | noDiskSpace
  | numberOverflow
  | clnVerification
  | sgnFileNotFound
deriving DecidableEq, Repr

/-- The value of `kernel_type`. -/
inductive KernelType where
  | none
  | multiboot
  | linux
  | bigLinux
  | freeBsd
  | netBsd
  | chainloader
deriving DecidableEq, Repr

/-- `struct geometry`. -/
structure Geometry where
  cylinders : Int
  heads : Int
  sectors : Int
  totalSectors : Int
  sectorSize : Int
  flags : Int
deriving DecidableEq, Repr

/-- Size of the raw device buffer at `BUFFERADDR`. -/
def bufferlen : Int := 0x7000

/-- Longest configuration line, and the room kept for an edited menu entry. -/
def newHeapsize : Nat := 1500

end GrubLegacy.Stage2
