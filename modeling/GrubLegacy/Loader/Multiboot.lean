import GrubLegacy.Base.FlatMemory
import GrubLegacy.Base.MachineInt
import GrubLegacy.Loader.OpenFile

/-!
# Loading a multiboot kernel

`grub_load_multiboot` of `linux.c`. The start of the kernel file is read into a buffer on
the stack, where the ELF header and the program headers are looked at; the segments are
read to the physical addresses these name, wherever that is. The headers are followed as
they were read. Where the program stores over memory of its own, its stack with the buffer
included, nothing is known of what it goes on with.
-/

namespace GrubLegacy.Loader

open Base Stage2

/-! ## The headers -/

/-- MULTIBOOT_SEARCH -/
def multibootSearch : Nat := 8192

/-- The little-endian half word at an address. -/
def loadHalf (memory : Memory) (address : Address) : Nat :=
  (memory address).toNat + 0x100 * (memory (address + 1)).toNat

/-- MULTIBOOT_FOUND -/
def multibootFound (stack : Memory) (address : Address) (len : Int) : Bool :=
  address.toNat % 4 = 0 && 12 ≤ len && loadWord stack address = 0x1BADB002 &&
    (loadWord stack address + loadWord stack (address + 4) + loadWord stack (address + 8)) %
      2 ^ 32 = 0 &&
    (loadWord stack (address + 4) &&& 0x10000 = 0 || 32 ≤ len) &&
    (loadWord stack (address + 4) &&& 0x4 = 0 || 48 ≤ len)

/-- The flags of the first multiboot header in the buffer, if there is one. -/
def multibootFlags (stack : Memory) (buffer : Address) (len : Nat) : Nat :=
  match (List.range len).find? fun i =>
    multibootFound stack (buffer + BitVec.ofNat 32 i) (len - i) with
  | none => 0
  | some i => loadWord stack (buffer + BitVec.ofNat 32 i + 4)

/-- `Elf32_Ehdr`, what is read of it. -/
structure Elf32Ehdr where
  eIdent : List UInt8
  eType : Nat
  eMachine : Nat
  eVersion : Nat
  eEntry : Nat
  ePhoff : Nat
  ePhentsize : Nat
  ePhnum : Nat
deriving DecidableEq, Repr

def elf32Ehdr (stack : Memory) (buffer : Address) : Elf32Ehdr :=
  { eIdent := (List.range 16).map fun i => stack (buffer + BitVec.ofNat 32 i)
    eType := loadHalf stack (buffer + 16)
    eMachine := loadHalf stack (buffer + 18)
    eVersion := loadWord stack (buffer + 20)
    eEntry := loadWord stack (buffer + 24)
    ePhoff := loadWord stack (buffer + 28)
    ePhentsize := loadHalf stack (buffer + 42)
    ePhnum := loadHalf stack (buffer + 44) }

/-- `sizeof (Elf32_Ehdr)` -/
def elf32EhdrSize : Nat := 52

/-- BOOTABLE_I386_ELF -/
def bootableI386Elf (elf : Elf32Ehdr) : Bool :=
  elf.eIdent.take 7 = [0x7f, 0x45, 0x4c, 0x46, 1, 1, 1] && elf.eType = 2 && elf.eMachine = 3 &&
    elf.eVersion = 1

/-- `Elf32_Phdr`, what is read of it. -/
structure Elf32Phdr where
  pType : Nat
  pOffset : Nat
  pPaddr : Nat
  pFilesz : Nat
  pMemsz : Nat
deriving DecidableEq, Repr

def elf32Phdr (stack : Memory) (address : Address) : Elf32Phdr :=
  { pType := loadWord stack address
    pOffset := loadWord stack (address + 4)
    pPaddr := loadWord stack (address + 12)
    pFilesz := loadWord stack (address + 16)
    pMemsz := loadWord stack (address + 20) }

/-- `sizeof (Elf32_Phdr)` -/
def elf32PhdrSize : Nat := 32

/-- PT_LOAD -/
def ptLoad : Nat := 1

/-- `&phdr[i]`, counted from the start of the buffer. -/
def phdrOffset (elf : Elf32Ehdr) (i : Nat) : Nat := (elf.ePhoff + elf32PhdrSize * i) % 2 ^ 32

def phdrAddress (buffer : Address) (elf : Elf32Ehdr) (i : Nat) : Address :=
  buffer + BitVec.ofNat 32 (phdrOffset elf i)

/-- The error for a header that is refused, of which `len` bytes are in the buffer. -/
def refusal (stack : Memory) (buffer : Address) (len : Int) : GrubError :=
  let elf := elf32Ehdr stack buffer
  if len < 32 then .execFormat
  else if multibootFlags stack buffer len.toNat &&& 0xFFF8 ≠ 0 then .bootFeatures
  else if ¬ (elf32EhdrSize < len ∧ bootableI386Elf elf) then .execFormat
  else if elf.eEntry < 0x100000 then .below1MB
  else if elf.ePhoff = 0 ∨ elf.ePhnum = 0 ∨
      toUInt32 len ≤ toUInt32 (elf.ePhoff + elf.ePhentsize * elf.ePhnum) then .execFormat
  else .none

/-! ## Kernels of given headers -/

/-- A program header. -/
def phdrBytes (phdr : Elf32Phdr) : List UInt8 :=
  wordBytes phdr.pType ++ wordBytes phdr.pOffset ++ wordBytes 0 ++ wordBytes phdr.pPaddr ++
    wordBytes phdr.pFilesz ++ wordBytes phdr.pMemsz ++ wordBytes 0 ++ wordBytes 0

/-- The headers of a multiboot kernel: an ELF header that gives this size and number of
program headers, these program headers, and the multiboot header. -/
def kernelHeaders (phentsize phnum : Nat) (phdrs : List Elf32Phdr) : List UInt8 :=
  [0x7f, 0x45, 0x4c, 0x46, 1, 1, 1, 0, 0, 0, 0, 0, 0, 0, 0, 0, 2, 0, 3, 0] ++ wordBytes 1 ++
    wordBytes 0x100000 ++ wordBytes elf32EhdrSize ++ List.replicate 10 0 ++
    [UInt8.ofNat phentsize, 0, UInt8.ofNat phnum, 0] ++ List.replicate 6 0 ++
    phdrs.flatMap phdrBytes ++ wordBytes 0x1BADB002 ++ wordBytes 0 ++ wordBytes 0xE4524FFE

/-! ## The load -/

/-- MB_CMDLINE_BUFLEN -/
def mbCmdlineBuflen : Nat := 0x6000

/-- GRUB_MULTIBOOT_ADDR -/
def grubMultibootAddr : Nat := 0x100000

/-- What `grub_load_multiboot` leaves: the memory, `cur_addr`, `mbi.mods_count`, the pages
it allocated, where it read program headers, and its stores to memory in order. -/
structure MultibootLoad where
  errnum : GrubError
  memory : Memory
  filepos : Int
  curAddr : Nat
  modsCount : Nat
  allocated : Option (Address × Nat)
  headerReads : List (Address × Nat)
  stores : List (Address × List UInt8)

def MultibootLoad.put (load : MultibootLoad) (start : Address) (bytes : List UInt8) :
    MultibootLoad :=
  { load with
    memory := store load.memory start bytes
    stores := load.stores ++ [(start, bytes)] }

/-- What the function finds when it is called. -/
def MultibootLoad.start (memory : Memory) (curAddr modsCount : Nat) : MultibootLoad :=
  { errnum := .none, memory, filepos := 0, curAddr, modsCount, allocated := none
    headerReads := [], stores := [] }

/-- A read of program headers. -/
def MultibootLoad.look (load : MultibootLoad) (start : Address) (length : Nat) : MultibootLoad :=
  { load with headerReads := load.headerReads ++ [(start, length)] }

/-- After a read, at another position of the file. -/
def MultibootLoad.moved (load : MultibootLoad) (filepos : Int) (errnum : GrubError) :
    MultibootLoad :=
  { load with filepos, errnum }

/-- With another `cur_addr`. -/
def MultibootLoad.reach (load : MultibootLoad) (curAddr : Nat) : MultibootLoad :=
  { load with curAddr }

/-- With pages for the kernel. -/
def MultibootLoad.grant (load : MultibootLoad) (pages : Address × Nat) : MultibootLoad :=
  { load with allocated := some pages }

/-- Without modules. -/
def MultibootLoad.dropModules (load : MultibootLoad) : MultibootLoad := { load with modsCount := 0 }

def MultibootLoad.fail (load : MultibootLoad) (errnum : GrubError) : MultibootLoad :=
  { load with errnum }

/-- After `cln_early_uart_init`, which leaves an error unless it finds the UART. -/
def MultibootLoad.console (load : MultibootLoad) : (uart : Option Address) → MultibootLoad
  | none => load.fail .devValues
  | some _ => load

/-- The stack of the program, with the place of the buffer on it. `own` is the memory of the
program itself, which has the buffer in it. -/
structure LoaderStack (own : Address → Bool) where
  bytes : Memory
  buffer : Address
  within : ∀ address, InRegion buffer multibootSearch address → own address = true

/-- Stores that reach memory of the program itself. -/
def overwrites (own : Address → Bool) (stores : List (Address × List UInt8)) : Bool :=
  stores.any fun write => (List.range write.2.length).any fun i =>
    own (write.1 + BitVec.ofNat 32 i)

/-- What becomes of a load: anything, once the program has overwritten itself. -/
def MultibootLoad.settle (load : MultibootLoad) (own : Address → Bool)
    (overrun : MultibootLoad → MultibootLoad) : MultibootLoad :=
  if overwrites own load.stores then overrun load else load

/-- What `grub_memset` stores for a length that is passed as an `int`. -/
def zeroes (len : Nat) : List UInt8 := List.replicate (toInt32 len).toNat 0

/-- The error after a step that may have left another one. -/
def GrubError.after (errnum : GrubError) : GrubError → GrubError
  | .none => errnum
  | later => later

/-- No error is left just when neither the first nor the later step had one. -/
@[simp]
theorem after_eq_none {errnum later : GrubError} :
    GrubError.after errnum later = .none ↔ errnum = .none ∧ later = .none := by
  cases later <;> simp [GrubError.after]

/-- Stores spare the program just if none of their bytes goes to its memory. -/
theorem overwrites_eq_false_iff {own : Address → Bool} {stores : List (Address × List UInt8)} :
    overwrites own stores = false ↔ ∀ write ∈ stores, ∀ address,
      InRegion write.1 write.2.length address → own address = false := by
  rw [overwrites, List.any_eq_false]
  refine forall₂_congr fun write _ => ?_
  rw [List.any_eq_true, not_exists]
  constructor
  · intro spares address inside
    have place : write.1 + BitVec.ofNat 32 (address - write.1).toNat = address := by
      rw [BitVec.ofNat_toNat, BitVec.setWidth_eq, BitVec.add_comm, BitVec.sub_add_cancel]
    have here := spares (address - write.1).toNat
    rw [place] at here
    exact Bool.eq_false_iff.mpr fun isOwn => here ⟨List.mem_range.mpr inside, isOwn⟩
  · rintro spares i ⟨isIn, isOwn⟩
    have inside : InRegion write.1 write.2.length (write.1 + BitVec.ofNat 32 i) := by
      have below := List.mem_range.mp isIn
      rw [InRegion]
      bv_omega
    rw [spares _ inside] at isOwn
    cases isOwn

/-- Two lists of stores overwrite the loader's own data if either does. -/
theorem overwrites_append (own : Address → Bool) (stores stores' : List (Address × List UInt8)) :
    overwrites own (stores ++ stores') = (overwrites own stores || overwrites own stores') :=
  List.any_append

/-- A store spares the program if it is not to its memory. -/
theorem spares_put_iff {load : MultibootLoad} {own : Address → Bool} {start : Address}
    {bytes : List UInt8} :
    overwrites own (load.put start bytes).stores = false ↔
      overwrites own load.stores = false ∧
        ∀ address, InRegion start bytes.length address → own address = false := by
  rw [MultibootLoad.put, overwrites_append, Bool.or_eq_false_iff, and_congr_right_iff]
  intro _
  rw [overwrites_eq_false_iff, List.forall_mem_singleton]

/-- Without such a store the load is the one that was computed. -/
theorem settle_of_spares {load : MultibootLoad} {own : Address → Bool}
    {overrun : MultibootLoad → MultibootLoad} (spares : overwrites own load.stores = false) :
    load.settle own overrun = load := by
  rw [MultibootLoad.settle, spares]
  rfl

section Fields

variable (load : MultibootLoad) (start : Address) (bytes : List UInt8) (length : Nat)
  (filepos : Int) (errnum : GrubError) (curAddr : Nat)

/-- A store allocates no pages. -/
@[simp]
theorem put_allocated : (load.put start bytes).allocated = load.allocated := rfl

/-- A store does not move the file. -/
@[simp]
theorem put_filepos : (load.put start bytes).filepos = load.filepos := rfl

/-- A look at memory allocates no pages. -/
@[simp]
theorem look_allocated : (load.look start length).allocated = load.allocated := rfl

/-- A look at memory does not move the file. -/
@[simp]
theorem look_filepos : (load.look start length).filepos = load.filepos := rfl

/-- A read that is over allocates no pages. -/
@[simp]
theorem moved_allocated : (load.moved filepos errnum).allocated = load.allocated := rfl

/-- Behind a read the file is where this left it. -/
@[simp]
theorem moved_filepos : (load.moved filepos errnum).filepos = filepos := rfl

/-- Pages that are granted are the allocated ones. -/
@[simp]
theorem grant_allocated (pages : Address × Nat) : (load.grant pages).allocated = some pages := rfl

/-- Pages that are granted do not move the file. -/
@[simp]
theorem grant_filepos (pages : Address × Nat) : (load.grant pages).filepos = load.filepos := rfl

/-- A new end of what is loaded allocates no pages. -/
@[simp]
theorem reach_allocated : (load.reach curAddr).allocated = load.allocated := rfl

/-- A new end of what is loaded does not move the file. -/
@[simp]
theorem reach_filepos : (load.reach curAddr).filepos = load.filepos := rfl

end Fields

/-! ## The function -/

/-- What is read of a segment, from `filepos` on if its offset cannot be reached. -/
def segmentRead (file : OpenFile) (filepos : Int) (phdr : Elf32Phdr) : Transfer :=
  grubRead file (grubSeek file filepos (toInt32 phdr.pOffset)) (toInt32 phdr.pFilesz)

/-- The segment is read in full. -/
def readsSegment (file : OpenFile) (filepos : Int) (phdr : Elf32Phdr) : Bool :=
  toUInt32 (segmentRead file filepos phdr).returned = phdr.pFilesz

/-- Read what the file has of a segment to its place. -/
def loadSegment (file : OpenFile) (phdr : Elf32Phdr) (load : MultibootLoad) : MultibootLoad :=
  let read := segmentRead file load.filepos phdr
  (load.put (BitVec.ofNat 32 phdr.pPaddr) read.stored).moved read.filepos
    (GrubError.after load.errnum read.errnum)

/-- Clear the rest of it and move `cur_addr` on. -/
def finishSegment (phdr : Elf32Phdr) (load : MultibootLoad) : MultibootLoad :=
  let load :=
    if phdr.pFilesz < phdr.pMemsz then
      load.put (BitVec.ofNat 32 (phdr.pPaddr + phdr.pFilesz)) (zeroes (phdr.pMemsz - phdr.pFilesz))
    else load
  let segmentEnd := (phdr.pPaddr + phdr.pMemsz) % 2 ^ 32
  load.reach (if load.curAddr < segmentEnd then segmentEnd else load.curAddr)

/-- The loop over these program headers. -/
def loadSegments (file : OpenFile) (stack : Memory) (buffer : Address) (elf : Elf32Ehdr) :
    List Nat → MultibootLoad → MultibootLoad
  | [], load => load
  | i :: rest, load =>
    let address := phdrAddress buffer elf i
    let phdr := elf32Phdr stack address
    let load := load.look address 4
    if phdr.pType = ptLoad then
      let load := load.look address 24
      if readsSegment file load.filepos phdr then
        loadSegments file stack buffer elf rest (finishSegment phdr (loadSegment file phdr load))
      else loadSegment file phdr load
    else loadSegments file stack buffer elf rest load

/-- The start of the file, as it is read into the buffer. -/
def headerRead (file : OpenFile) : Transfer := grubRead file 0 multibootSearch

/-- The stack with it. -/
def headerStack (stack : Memory) (buffer : Address) (file : OpenFile) : Memory :=
  store stack buffer (headerRead file).stored

/-- `prot_mode_pages` -/
def protModePages (file : OpenFile) : Nat := file.content.length / 2 ^ 12

section Steps

variable {file : OpenFile} {stack : Memory} {buffer : Address} {elf : Elf32Ehdr} {i : Nat}
  {load : MultibootLoad}

/-- After the program header of a segment was read. -/
def MultibootLoad.lookAll (load : MultibootLoad) (address : Address) : MultibootLoad :=
  (load.look address 4).look address 24

/-- A program header of another type is looked at and skipped. -/
theorem loadSegments_skip (rest : List Nat)
    (other : (elf32Phdr stack (phdrAddress buffer elf i)).pType ≠ ptLoad) :
    loadSegments file stack buffer elf (i :: rest) load =
      loadSegments file stack buffer elf rest (load.look (phdrAddress buffer elf i) 4) :=
  if_neg other

/-- A segment that is read in full is finished, and the others follow. -/
theorem loadSegments_full (rest : List Nat)
    (isLoad : (elf32Phdr stack (phdrAddress buffer elf i)).pType = ptLoad)
    (full : readsSegment file load.filepos (elf32Phdr stack (phdrAddress buffer elf i)) = true) :
    loadSegments file stack buffer elf (i :: rest) load =
      loadSegments file stack buffer elf rest
        (finishSegment (elf32Phdr stack (phdrAddress buffer elf i))
          (loadSegment file (elf32Phdr stack (phdrAddress buffer elf i))
            (load.lookAll (phdrAddress buffer elf i)))) :=
  (if_pos isLoad).trans (if_pos full)

/-- A segment that is cut off ends the loop. -/
theorem loadSegments_short (rest : List Nat)
    (isLoad : (elf32Phdr stack (phdrAddress buffer elf i)).pType = ptLoad)
    (short : ¬ readsSegment file load.filepos (elf32Phdr stack (phdrAddress buffer elf i)) = true) :
    loadSegments file stack buffer elf (i :: rest) load =
      loadSegment file (elf32Phdr stack (phdrAddress buffer elf i))
        (load.lookAll (phdrAddress buffer elf i)) :=
  (if_pos isLoad).trans (if_neg short)

end Steps

/-- `grub_load_multiboot` once the kernel is accepted and has its pages. -/
def loadAccepted (uart : Option Address) (stack : Memory) (buffer : Address) (file : OpenFile)
    (load : MultibootLoad) : MultibootLoad :=
  let load := load.grant (BitVec.ofNat 32 grubMultibootAddr, protModePages file * 2 ^ 12)
  let load := load.put (BitVec.ofNat 32 grubMultibootAddr) (zeroes file.content.length)
  let elf := elf32Ehdr stack buffer
  let load := loadSegments file stack buffer elf (List.range elf.ePhnum) (load.reach 0)
  (load.console uart).dropModules

/-- `grub_load_multiboot` on a file it has opened, with its buffer at this address of the
stack. `allocates` says whether `grub_efi_allocate_pages` gets that many pages, and `uart`
is what `cln_early_uart_init` finds. -/
def loadMultibootFile (allocates : Nat → Bool) (uart : Option Address) (stack : Memory)
    (buffer : Address) (file : OpenFile) (load : MultibootLoad) : MultibootLoad :=
  let header := headerRead file
  let stack := headerStack stack buffer file
  let load := load.moved header.filepos (GrubError.after load.errnum header.errnum)
  let refused := refusal stack buffer header.returned
  if refused ≠ .none then load.fail refused
  else if allocates (protModePages file) then loadAccepted uart stack buffer file load
  else load.fail .wontFit

/-- `grub_load_multiboot` -/
def grubLoadMultiboot (allocates : Nat → Bool) (uart : Option Address) (stack : Memory)
    (buffer : Address) (opening : FileOpening) (load : MultibootLoad) : MultibootLoad :=
  match opening with
  | .error errnum => load.fail errnum
  | .ok file => loadMultibootFile allocates uart stack buffer file load

/-- With the file open the loader goes on with it. -/
theorem grubLoadMultiboot_ok (allocates : Nat → Bool) (uart : Option Address) (stack : Memory)
    (buffer : Address) (file : OpenFile) (load : MultibootLoad) :
    grubLoadMultiboot allocates uart stack buffer (.ok file) load =
      loadMultibootFile allocates uart stack buffer file load := rfl

end GrubLegacy.Loader
