import GrubLegacy.Base.Enumeration
import GrubLegacy.Base.LittleEndian
import GrubLegacy.Base.MachineInt
import GrubLegacy.Stage2.Shared

/-!
# Walking over the partitions of a drive

`next_partition` of `disk_io.c` with its nested functions, over the reads it makes
from the drive. The arguments passed by reference and the caller's buffer are the
state. A call that uses the buffer past its end faults.
-/

namespace GrubLegacy.Partition

open Base Stage2

/-! ## The buffer -/

/-- The bytes of the caller's buffer and of the memory behind it. -/
abbrev Buffer := Area

/-! ## The tables in it -/

/-- PC_SLICE_MAX -/
def pcSliceMax : Int := 4

/-- PC_MBR_CHECK_SIG -/
def pcMbrCheckSig (buf : Buffer) : Bool := buf.word16 510 = 0xaa55

/-- PC_SLICE_TYPE -/
def pcSliceType (buf : Buffer) (part : Nat) : Nat := buf.byte (446 + 4 + part * 16)

/-- PC_SLICE_START -/
def pcSliceStart (buf : Buffer) (part : Nat) : Nat := buf.word32 (446 + 8 + part * 16)

/-- PC_SLICE_LENGTH -/
def pcSliceLength (buf : Buffer) (part : Nat) : Nat := buf.word32 (446 + 12 + part * 16)

def pcSliceTypeNone : Nat := 0
def pcSliceTypeExt2fs : Nat := 0x83
def pcSliceTypeGpt : Nat := 0xee
def pcSliceTypeFreebsd : Nat := 0xa5

/-- IS_PC_SLICE_TYPE_EXTENDED -/
def isPcSliceTypeExtended (type : Nat) : Bool := type = 5 || type = 0xf || type = 0x85

/-- IS_PC_SLICE_TYPE_BSD -/
def isPcSliceTypeBsd (type : Nat) : Bool := type = 0xa5 || type = 0xa6 || type = 0xa9

/-- BSD_LABEL_SECTOR -/
def bsdLabelSector : Nat := 1

/-- BSD_LABEL_CHECK_MAG -/
def bsdLabelCheckMag (buf : Buffer) : Bool := buf.word32 0 = 0x82564557

/-- BSD_LABEL_DTYPE -/
def bsdLabelDtype (buf : Buffer) : Nat := buf.word16 4

/-- DTYPE_SCSI -/
def dtypeScsi : Nat := 4

/-- BSD_LABEL_NPARTS -/
def bsdLabelNparts (buf : Buffer) : Nat := buf.word16 138

/-- BSD_PART_LENGTH -/
def bsdPartLength (buf : Buffer) (part : Nat) : Nat := buf.word32 (148 + part * 16)

/-- BSD_PART_START -/
def bsdPartStart (buf : Buffer) (part : Nat) : Nat := buf.word32 (148 + 4 + part * 16)

/-- Where BSD_PART_TYPE looks. -/
def bsdPartTypeOffset (part : Nat) : Nat := 148 + 12 + part * 16

/-- BSD_PART_TYPE -/
def bsdPartType (buf : Buffer) (part : Nat) : Nat := buf.byte (bsdPartTypeOffset part)

/-- `struct grub_gpt_header`, what is read of it. -/
structure GptHeader where
  magic : Nat
  version : Nat
  partitions : Nat
  maxpart : Nat
  partentrySize : Nat
deriving DecidableEq, Repr

def gptHeader (buf : Buffer) : GptHeader :=
  { magic := buf.word64 0
    version := buf.word32 8
    partitions := buf.word64 72
    maxpart := buf.word32 80
    partentrySize := buf.word32 84 }

/-- GPT_HEADER_MAGIC -/
def gptHeaderMagic : Nat := 0x5452415020494645

/-- A header `next_pc_slice` accepts. -/
def GptHeader.accepted (header : GptHeader) : Bool :=
  header.magic = gptHeaderMagic && header.version = 0x10000

/-- `struct grub_gpt_partentry`, what is read of it. -/
structure GptEntry where
  type1 : Nat
  type2 : Nat
  start : Nat
  last : Nat
deriving DecidableEq, Repr

def gptEntry (buf : Buffer) : GptEntry :=
  { type1 := buf.word64 0
    type2 := buf.word64 8
    start := buf.word64 32
    last := buf.word64 40 }

/-- Both halves of the type are set. -/
def GptEntry.used (entry : GptEntry) : Bool := entry.type1 ≠ 0 && entry.type2 ≠ 0

/-! ## The state -/

/-- What `next_partition` has of its drive: `rawread` with the error it leaves, the
sector size and its logarithm, whether the number has the bit for hard disks, and
whether the current drive is the network. `bufSize` is the size of the buffer. -/
structure PartDrive where
  rawread : (sector : Nat) → (byteOffset byteLen : Int) → Except GrubError (List UInt8)
  sectorSize : Nat
  sectorBits : Nat
  hardDisk : Bool
  network : Bool
  bufSize : Nat

/-- The arguments of `next_partition` and the globals it sets. -/
structure PartState where
  partition : Nat
  type : Nat
  start : Nat
  len : Nat
  offset : Nat
  entry : Int
  extOffset : Nat
  gptOffset : Nat
  gptCount : Int
  gptSize : Int
  buf : Buffer
  errnum : GrubError
  bsdEvilHack : Nat

/-- The slice number in `*partition`. -/
def pcSliceNo (partition : Nat) : Nat := (partition &&& 0xFF0000) >>> 16

/-- The BSD partition number in it. -/
def bsdPartNo (partition : Nat) : Nat := (partition &&& 0xFF00) >>> 8

/-- The value of `*partition` for a whole slice. -/
def packSlice (pcSliceNo : Int) : Nat := (pcSliceNo.toNat <<< 16) ||| 0xFFFF

section

variable (drive : PartDrive)

/-- `rawread` into the buffer, and on with `next` if it succeeds. -/
def readBuf (state : PartState) (sector : Nat) (byteOffset byteLen : Int)
    (next : PartState → Scan PartState) : Scan PartState :=
  match drive.rawread sector byteOffset byteLen with
  | .error errnum => .stop { state with errnum }
  | .ok bytes =>
    if drive.bufSize < byteLen then .fault
    else next { state with buf := state.buf.fill bytes }

/-- Read a whole sector. -/
def readSector (state : PartState) (sector : Nat) (next : PartState → Scan PartState) :
    Scan PartState :=
  readBuf drive state sector 0 drive.sectorSize next

/-! ## The nested functions -/

/-- The loop of `next_bsd_partition` from partition `i` on, with that many left. -/
def searchBsd (state : PartState) : (left i : Nat) → Scan PartState
  | 0, _ => .stop { state with errnum := .noPart }
  | left + 1, i =>
    if drive.bufSize ≤ bsdPartTypeOffset i then .fault
    else if bsdPartType state.buf i ≠ 0 then
      .found { state with
        type := (bsdPartType state.buf i <<< 8) ||| (state.type &&& 0xFF)
        start := bsdPartStart state.buf i
        len := bsdPartLength state.buf i
        partition := (state.partition &&& 0xFF00FF) ||| (i <<< 8)
        bsdEvilHack :=
          if drive.hardDisk && bsdLabelDtype state.buf = dtypeScsi then 4
          else state.bsdEvilHack }
    else searchBsd state left (i + 1)

/-- `next_bsd_partition` -/
def nextBsdPartition (state : PartState) : Scan PartState :=
  if bsdPartNo state.partition = 0xFF then
    if state.len < bsdLabelSector + 1 then .stop { state with errnum := .badPartTable }
    else
      readSector drive state ((state.start + bsdLabelSector) % 2 ^ 32) fun state =>
        if !bsdLabelCheckMag state.buf then .stop { state with errnum := .badPartTable }
        else searchBsd drive state (bsdLabelNparts state.buf) 0
  else
    let i := bsdPartNo state.partition + 1
    searchBsd drive state (bsdLabelNparts state.buf - i) i

/-- The position GPT_ENTRY_SECTOR and GPT_ENTRY_INDEX split, computed in `int`. -/
def gptEntryPosition (size entry : Int) : Int := toInt32 (toInt32 (entry * size) + 1)

/-- GPT_ENTRY_SECTOR -/
def gptEntrySector (size entry : Int) : Int :=
  (gptEntryPosition size entry - gptEntryPosition size entry % drive.sectorSize) /
    2 ^ drive.sectorBits

/-- GPT_ENTRY_INDEX -/
def gptEntryIndex (size entry : Int) : Int := gptEntryPosition size entry % drive.sectorSize - 1

/-- The loop of `next_gpt_slice`, with that many entries left after `*entry`. -/
def searchGpt (found : PartState → Scan PartState) :
    (left : Nat) → PartState → Scan PartState
  | 0, state => .stop { state with entry := state.entry + 1, errnum := .noPart }
  | left + 1, state =>
    let entry := state.entry + 1
    readBuf drive { state with entry }
      (toUInt32 (state.gptOffset + gptEntrySector drive state.gptSize entry))
      (gptEntryIndex drive state.gptSize entry) state.gptSize fun state =>
        if (gptEntry state.buf).used then found state else searchGpt found left state

/-- `next_gpt_slice` -/
def nextGptSlice (state : PartState) : Scan PartState :=
  let first := pcSliceNo state.partition = 0xFF
  let pcSliceNo : Int := if first then -1 else pcSliceNo state.partition
  let state := { state with entry := if first then -1 else state.entry }
  searchGpt drive (fun state =>
      let pcSliceNo := pcSliceNo + 1
      .found { state with
        start := (gptEntry state.buf).start % 2 ^ 32
        len := toUInt32 ((gptEntry state.buf).last - (gptEntry state.buf).start + 1)
        type := pcSliceTypeExt2fs
        entry := pcSliceNo
        partition := packSlice pcSliceNo })
    (state.gptCount - (state.entry + 1)).toNat state

/-- The first extended slot of the table in the buffer. -/
def firstExtended (buf : Buffer) : Option Nat :=
  (List.range 4).find? fun i => isPcSliceTypeExtended (pcSliceType buf i)

/-- `next_pc_slice` from where it looks at the table in the buffer as one of slots;
`again` is its call of itself. -/
def takePcSlot (again : PartState → Scan PartState) (no : Int) (state : PartState) :
    Scan PartState :=
  let state := { state with gptOffset := 0, entry := state.entry + 1 }
  if state.entry = pcSliceMax then
    match firstExtended state.buf with
    | none => .stop { state with errnum := .noPart }
    | some i =>
      let offset := (state.extOffset + pcSliceStart state.buf i) % 2 ^ 32
      again { state with
        offset
        extOffset := if state.extOffset = 0 then offset else state.extOffset
        entry := -1 }
  else
    let part := state.entry.toNat
    if drive.bufSize < 446 + 16 + part * 16 then .fault
    else
      let type := pcSliceType state.buf part
      let no := if no < pcSliceMax ∨ (isPcSliceTypeExtended type = false ∧ type ≠ pcSliceTypeNone)
        then no + 1 else no
      .found { state with
        type
        start := (state.offset + pcSliceStart state.buf part) % 2 ^ 32
        len := pcSliceLength state.buf part
        partition := packSlice no }

/-- `next_pc_slice` from where it reads the table on. -/
def readPcTable (again : PartState → Scan PartState) (no : Int) (state : PartState) :
    Scan PartState :=
  readSector drive state state.offset fun state =>
    if !pcMbrCheckSig state.buf then .stop { state with errnum := .badPartTable }
    else if state.entry = -1 ∧ state.offset = 0 ∧ pcSliceType state.buf 0 = pcSliceTypeGpt then
      readSector drive state 1 fun state =>
        if (gptHeader state.buf).accepted then
          nextGptSlice drive { state with
            gptOffset := (gptHeader state.buf).partitions % 2 ^ 32
            gptCount := toInt32 (gptHeader state.buf).maxpart
            gptSize := toInt32 (gptHeader state.buf).partentrySize }
        else readSector drive state state.offset fun state => takePcSlot drive again no state
    else takePcSlot drive again no state

/-- One call of `next_pc_slice`. -/
def pcSliceCall (again : PartState → Scan PartState) (state : PartState) : Scan PartState :=
  if pcSliceNo state.partition = 0xFF then
    readPcTable drive again (-1) { state with offset := 0, extOffset := 0, entry := -1 }
  else readPcTable drive again (pcSliceNo state.partition) state

/-- `next_pc_slice`. It calls itself only with `*entry` at the start of a table,
where it takes a slot at once, so one level of recursion is enough. -/
def nextPcSlice (state : PartState) : Scan PartState :=
  pcSliceCall drive (pcSliceCall drive .stop) state

/-- `next_partition` -/
def nextPartition (dest : Nat) (state : PartState) : Scan PartState :=
  if drive.network then .stop state
  else if state.partition ≠ 0xFFFFFF ∧ state.gptOffset ≠ 0 then nextGptSlice drive state
  else if (state.partition ≠ 0xFFFFFF ∧ isPcSliceTypeBsd (state.type &&& 0xFF)) ∨
      drive.hardDisk = false then
    let state :=
      if state.type = pcSliceTypeNone then { state with type := pcSliceTypeFreebsd } else state
    match nextBsdPartition drive state with
    | .found state => .found state
    | .fault => .fault
    | .stop state =>
      if dest &&& 0xFF00 ≠ 0xFF00 ∧
          (dest &&& 0xFF0000 = 0xFF0000 ∨ dest &&& 0xFF0000 = state.partition &&& 0xFF0000) then
        .stop state
      else nextPcSlice drive { state with errnum := .none }
  else nextPcSlice drive state

end

end GrubLegacy.Partition
