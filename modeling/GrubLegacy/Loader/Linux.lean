import GrubLegacy.Clanton.Initrd
import GrubLegacy.Clanton.SpiAsset
import GrubLegacy.Loader.Multiboot
import GrubLegacy.Menu.Builtins

/-!
# Loading a Linux kernel

`grub_load_linux` of `linux.c`. The kernel is a file or an item of the flash. Its first
page is read into a buffer of the function's own, where its header is looked at; then pages
are allocated for the parameters of the kernel and for the kernel itself, and both are
filled.
-/

namespace GrubLegacy.Loader

open Base Stage2 Efi Clanton CStrings

/-! ## The kernel as an asset -/

/-- An open item of the flash, which is mapped into memory: `spi_open` found it and took
its length to be sane. With `skipCsbh` it is a signed one that is loaded without being
verified. -/
structure FlashItem (secure : Bool) where
  flash : Memory
  state : SpiState
  small : state.flashItemLen < 2 ^ 32
  sane : clnFlashItemIsSane secure SpiType.kernel.minSize state = true

/-- A kernel that `grub_cln_asset_open` opened. -/
inductive KernelAsset (secure : Bool) where
  | file (file : OpenFile)
  | flash (item : FlashItem secure)

section Assets

variable {secure : Bool}

/-- `cln_flash_item_len` -/
def FlashItem.len (item : FlashItem secure) : Nat := item.state.flashItemLen

/-- Where the kernel begins in its item, behind the security header if there is one. -/
def FlashItem.skipped (item : FlashItem secure) : Nat := item.state.skipped secure

/-- The bytes of an item from a position on. -/
def FlashItem.bytes (item : FlashItem secure) (position : Int) (len : Nat) : List UInt8 :=
  (List.range len).map fun i =>
    item.flash (item.state.flashItemAddr + BitVec.ofInt 32 position + BitVec.ofNat 32 i)

/-- The bytes of the kernel. -/
def KernelAsset.content : KernelAsset secure → List UInt8
  | .file opened => opened.content
  | .flash item => item.bytes item.skipped (item.len - item.skipped)

/-- `grub_cln_asset_size` -/
def KernelAsset.size : KernelAsset secure → Int
  | .file opened => opened.filemax
  | .flash item => grubClnAssetSize secure item.state

/-- The position `grub_cln_asset_open` leaves. -/
def KernelAsset.opened : KernelAsset secure → Int
  | .file _ => 0
  | .flash item => item.skipped

/-- `grub_cln_asset_seek` -/
def KernelAsset.seek (position offset : Int) : KernelAsset secure → Int
  | .file opened => grubSeek opened position offset
  | .flash item => offset + item.skipped

/-- `grub_cln_asset_read`. Of an item `grub_memcpy` copies nothing where the length is
negative. -/
def KernelAsset.read (position len : Int) : KernelAsset secure → Transfer
  | .file opened => grubRead opened position len
  | .flash item =>
    { stored := item.bytes position len.toNat
      returned := len
      filepos := toUInt32 (position + len)
      errnum := .none }

end Assets

/-- How opening something ends; a failure leaves an error. -/
abbrev Attempt (α : Type) := Except {errnum : GrubError // errnum ≠ .none} α

/-- Where the kernel and its security header come from: from files, one of which is named,
or with `grub_cln_linux_spi` from the flash. -/
inductive KernelSource (secure : Bool) where
  | files (named : Bool) (header : Opening) (kernel : FileOpening)
  | spi (header : Opening) (kernel : Attempt (FlashItem secure))

section Sources

variable {secure : Bool}

def KernelSource.header : KernelSource secure → Opening
  | .files _ header _ => header
  | .spi header _ => header

def KernelSource.kernel : KernelSource secure → Attempt (KernelAsset secure)
  | .files _ _ kernel => kernel.map .file
  | .spi _ kernel => kernel.map .flash

def KernelSource.isSpi : KernelSource secure → Bool
  | .files .. => false
  | .spi .. => true

/-- A kernel has a name, or needs none. -/
def KernelSource.asked : KernelSource secure → Bool
  | .files named _ _ => named
  | .spi .. => true

end Sources

/-! ## The kernel header -/

/-- `sizeof (struct linux_kernel_params)` -/
def linuxKernelParamsSize : Nat := 0x1000

/-- The position of `hdr` in the parameters. -/
def hdrOffset : Nat := 0x1F1

/-- `struct grub_linux_kernel_header`, what is read of it. -/
structure GrubLinuxKernelHeader where
  setupSects : Nat
  bootFlag : Nat
  jumpOff : Nat
  header : Nat
  version : Nat
  loadflags : Nat
deriving DecidableEq, Repr

/-- `lh`, in `params_buf`. -/
def kernelHeader (paramsBuf : List UInt8) : GrubLinuxKernelHeader :=
  { setupSects := (paramsBuf.getD 0x1F1 0).toNat
    bootFlag := halfAt paramsBuf 0x1FE
    jumpOff := (paramsBuf.getD 0x201 0).toNat
    header := wordAt paramsBuf 0x202
    version := halfAt paramsBuf 0x206
    loadflags := (paramsBuf.getD 0x211 0).toNat }

/-- GRUB_LINUX_MAGIC_SIGNATURE -/
def grubLinuxMagicSignature : Nat := 0x53726448

/-- The header is the one of a kernel that can be loaded. -/
def GrubLinuxKernelHeader.accepted (lh : GrubLinuxKernelHeader) : Bool :=
  lh.bootFlag = 0xAA55 && lh.header = grubLinuxMagicSignature && 0x0203 ≤ lh.version &&
    lh.loadflags &&& 0x1 ≠ 0

/-- What lies before the protected mode part of a kernel. -/
def setupSize (lh : GrubLinuxKernelHeader) : Nat := lh.setupSects * 512 + 512

/-! ## The command line -/

/-- A command line that `kernel_func` passes on. -/
abbrev CommandLine := {text : List UInt8 // text.length < mbCmdlineBuflen}

/-- A command without an argument. -/
def noArgument : CommandLine := ⟨[], by decide⟩

/-- QUARK_UART_MMIO_TOKEN -/
def quarkUartMmioToken : List UInt8 := ascii "$EARLY_CON_ADDR_REPLACE"

/-- `strstr`: where a text occurs first. -/
def strstr (text token : List UInt8) : Option Nat :=
  (List.range (text.length + 1)).find? fun i => token.isPrefixOf (text.drop i)

/-- A hexadecimal digit. -/
def hexDigit (digit : Nat) : UInt8 := UInt8.ofNat (if 9 < digit then digit + 87 else digit + 48)

/-- The digits of a number, as `convert_to_ascii` writes them; at most `count`. -/
def convertToAscii : (count : Nat) → Nat → List UInt8
  | 0, _ => []
  | count + 1, num =>
    (if num / 16 = 0 then [] else convertToAscii count (num / 16)) ++ [hexDigit (num % 16)]

/-- `cln_detect_early_uart`: the command line it leaves, and an error if the UART is asked
for and `cln_early_uart_init` does not find it. -/
def clnDetectEarlyUart (uart : Option Address) (cmdline : List UInt8) : List UInt8 × GrubError :=
  match strstr cmdline quarkUartMmioToken with
  | none => (cmdline, .none)
  | some i =>
    match uart with
    | none => (cmdline, .devValues)
    | some mmio =>
      if mmio = 0 then (cmdline, .none)
      else
        (cmdline.take i ++ ascii "0x" ++ convertToAscii 8 mmio.toNat ++
          cmdline.drop (i + quarkUartMmioToken.length), .none)

/-! ## Room for the kernel -/

/-- The memory there is for a kernel: the memory map if it can be had, and whether the
firmware gives that many pages at an address. -/
structure LinuxRoom where
  memoryMap : Option (List MemoryDescriptor)
  allocates : (addr pages : Nat) → Bool

/-- `grub_efi_allocate_pages`, for an address that is not 0. -/
def LinuxRoom.allocatePages (room : LinuxRoom) (addr pages : Nat) : Bool :=
  addr ≤ 0x7FFFFFFF && room.allocates addr pages

/-- A range of pages: its start and its length in bytes. -/
abbrev Pages := Address × Nat

/-- The address of the pages for the parameters: at the end of the first descriptor with
enough of them. -/
def realModeAddr (realSize : Nat) : List MemoryDescriptor → Option Nat
  | [] => none
  | desc :: rest =>
    if desc.type = .conventionalMemory ∧ realSize / pageSize ≤ desc.numPages then
      let physicalEnd := (desc.physicalStart + desc.numPages * pageSize) % 2 ^ 64
      let addr := (physicalEnd + 2 ^ 64 - realSize) % 2 ^ 64
      if addr < 0x10000 then realModeAddr realSize rest else some addr
    else realModeAddr realSize rest

/-- The pages for the parameters. The firmware is asked once, at the address that is found. -/
def findRealModePages (room : LinuxRoom) (realSize : Nat) (memoryMap : List MemoryDescriptor) :
    Option Address :=
  (realModeAddr realSize memoryMap).bind fun addr =>
    if room.allocatePages addr (realSize / pageSize) then some (BitVec.ofNat 32 addr) else none

/-- GRUB_LINUX_BZIMAGE_ADDR -/
def grubLinuxBzimageAddr : Nat := 0x100000

/-- `allocate_pages` of `linux.c`: `real_mode_mem` and `prot_mode_mem`. -/
def allocateKernelPages (room : LinuxRoom) (realSize protSize : Nat) : Attempt (Pages × Pages) :=
  let realSize := pageAlign (realSize + 512)
  let protSize := pageAlign protSize
  match room.memoryMap with
  | none => .error ⟨.bootFailure, nofun⟩
  | some memoryMap =>
    match findRealModePages room realSize memoryMap with
    | none => .error ⟨.wontFit, nofun⟩
    | some realModeMem =>
      if room.allocatePages grubLinuxBzimageAddr (protSize / pageSize) then
        .ok ((realModeMem, realSize), (BitVec.ofNat 32 grubLinuxBzimageAddr, protSize))
      else .error ⟨.wontFit, nofun⟩

/-- `intel_cln_imr_setup` refuses a range of less than `IMR_MIN_SIZE` bytes. -/
def intelClnImrSetup (size : Nat) : Bool := 0x400 ≤ size

/-- `real_size` -/
def realSize (arg : CommandLine) : Nat := 0x1000 + arg.1.length

/-- `prot_size`, as it is computed first. -/
def protSize (secure : Bool) (size : Int) (sbhLen : Nat) (lh : GrubLinuxKernelHeader) : Nat :=
  toUInt32 (if secure then size + sbhLen else size - setupSize lh)

/-- A kernel that can be put into its pages: the asset and the position its first read
leaves, `params_buf`, and the pages. -/
structure OpenedKernel (secure : Bool) where
  asset : KernelAsset secure
  filepos : Int
  paramsBuf : List UInt8
  realMode : Pages
  protMode : Pages

/-- `grub_load_linux` from where the kernel is opened to where its pages are protected. -/
def openKernel (secure : Bool) (sbhLen : Nat) (room : LinuxRoom) (arg : CommandLine)
    (kernel : Attempt (KernelAsset secure)) : Attempt (OpenedKernel secure) :=
  match kernel with
  | .error failure => .error failure
  | .ok asset =>
    let transfer := asset.read asset.opened linuxKernelParamsSize
    let lh := kernelHeader transfer.stored
    if transfer.returned ≠ linuxKernelParamsSize then .error ⟨.execFormat, nofun⟩
    else if !lh.accepted then .error ⟨.execFormat, nofun⟩
    else
      match allocateKernelPages room (realSize arg)
        (protSize secure asset.size sbhLen lh) with
      | .error failure => .error failure
      | .ok (realMode, protMode) =>
        if intelClnImrSetup (realSize arg) &&
            intelClnImrSetup (protSize secure asset.size sbhLen lh) then
          .ok { asset, filepos := transfer.filepos, paramsBuf := transfer.stored, realMode
                protMode }
        else .error ⟨.badArgument, nofun⟩

/-! ## The parameters of the kernel -/

/-- Some bytes with others put in at a position. -/
def overwrite (bytes : List UInt8) (position : Nat) (new : List UInt8) : List UInt8 :=
  bytes.take position ++ new ++ bytes.drop (position + new.length)

/-- `params_buf` after the loader entered what it has to say into the header. -/
def enteredParams (paramsBuf : List UInt8) (realModeMem : Address) : List UInt8 :=
  let loadflags := (paramsBuf.getD 0x211 0).toNat ||| 0x80
  let entered := overwrite paramsBuf 0x210 [0x50, UInt8.ofNat loadflags]
  let entered := overwrite entered 0x228 (wordBytes (realModeMem + 0x1000).toNat)
  let entered := overwrite entered 0x224 (halfBytes 0x8E00)
  overwrite entered 0x218 (wordBytes 0 ++ wordBytes 0)

/-- The header that is moved to the parameters; it ends where its jump instruction goes. -/
def movedHeader (paramsBuf : List UInt8) (realModeMem : Address) : List UInt8 :=
  ((enteredParams paramsBuf realModeMem).drop hdrOffset).take
    (0x202 + (kernelHeader paramsBuf).jumpOff - hdrOffset)

/-- `code32_start_offs` -/
def code32StartOffs (secure : Bool) (sbhLen : Nat) (lh : GrubLinuxKernelHeader) : Nat :=
  if secure then setupSize lh + sbhLen else 0

/-- `params->hdr.code32_start`, the entry point of the kernel. Where the moved header does
not reach, the parameters are zero. -/
def code32Start (secure : Bool) (sbhLen : Nat) (paramsBuf : List UInt8) (realModeMem : Address) :
    Address :=
  BitVec.ofNat 32 (wordAt (movedHeader paramsBuf realModeMem) (0x214 - hdrOffset) +
    code32StartOffs secure sbhLen (kernelHeader paramsBuf))

/-- The EFI system table in the parameters; where it goes depends on the boot protocol. -/
def efiParams (version systemTable : Nat) : List (Nat × List UInt8) :=
  if 0x0206 ≤ version then [(0x1C0, ascii "EL32"), (0x1C4, wordBytes systemTable)]
  else if 0x0204 ≤ version then [(0x1C0, ascii "EFIL"), (0x1B8, wordBytes systemTable)]
  else [(0x1C0, ascii "EFIL"), (0x1C4, wordBytes systemTable), (0x1D8, wordBytes 0)]

/-- The parameters that are the same for every kernel. -/
def fixedParams : List (Nat × List UInt8) :=
  [(0x20, halfBytes 0xA33F), (0x22, halfBytes 0x1000), (0x2, halfBytes 0x8000),
    (0x1E0, wordBytes 0x8000), (0x40, halfBytes 0), (0x42, halfBytes 0), (0x44, wordBytes 0),
    (0x48, halfBytes 0), (0x4A, halfBytes 0), (0x4C, halfBytes 0), (0x4E, wordBytes 0),
    (0x52, halfBytes 0), (0x60, wordBytes 0), (0x64, wordBytes 0), (0x68, wordBytes 0),
    (0x6C, wordBytes 0), (0x80, List.replicate 16 0), (0x90, List.replicate 16 0),
    (0xA0, halfBytes 0)]

/-- The command line in the parameters, without the name of a kernel file. -/
def paramsCmdline (spi : Bool) (arg : List UInt8) : List UInt8 :=
  (if spi then arg else Menu.skipTo false arg) ++ [0]

/-- What is stored to `real_mode_mem`, at which distance from it and in which order. -/
def paramStores (secure spi : Bool) (sbhLen systemTable : Nat) (paramsBuf : List UInt8)
    (realModeMem : Address) (arg : CommandLine) (cmdline : List UInt8) :
    List (Nat × List UInt8) :=
  [(0, List.replicate (realSize arg) 0), (hdrOffset, movedHeader paramsBuf realModeMem),
      (0x214, wordBytes (code32Start secure sbhLen paramsBuf realModeMem).toNat)] ++
    fixedParams ++ efiParams (kernelHeader paramsBuf).version systemTable ++
    [(0x1E9, [0]), (0x1EA, [0]), (0x1000, paramsCmdline spi cmdline)]

/-! ## The load -/

/-- What `grub_load_linux` leaves: the pages it allocated, its stores to each of them in
order, where the image was read to and how many bytes of it, the memory and the address
`IAROM_validate_module` was called with, and the entry point of the kernel. -/
structure LinuxLoad where
  errnum : GrubError
  memory : Memory
  realMode : Option Pages
  protMode : Option Pages
  realStores : List (Address × List UInt8)
  protStores : List (Address × List UInt8)
  image : Option (Address × Nat)
  validated : Option (Memory × Address)
  entry : Option Address

/-- The stores of some bytes at these distances. -/
def storeAll (memory : Memory) (stores : List (Address × List UInt8)) : Memory :=
  stores.foldl (fun memory write => store memory write.1 write.2) memory

/-- A load that ends before anything is stored to its pages. -/
def LinuxLoad.failed (memory : Memory) (errnum : GrubError) : LinuxLoad :=
  { errnum, memory, realMode := none, protMode := none, realStores := [], protStores := []
    image := none, validated := none, entry := none }

/-- The type that is returned. -/
def LinuxLoad.kernelType (load : LinuxLoad) : KernelType :=
  if load.errnum = .none then .bigLinux else .none

section Opened

variable {secure : Bool}

/-- The stores to `real_mode_mem`, for an opened kernel. -/
def OpenedKernel.realStores (kernel : OpenedKernel secure) (spi : Bool) (sbhLen systemTable : Nat)
    (arg : CommandLine) (cmdline : List UInt8) : List (Address × List UInt8) :=
  (paramStores secure spi sbhLen systemTable kernel.paramsBuf kernel.realMode.1 arg cmdline).map
    fun write => (kernel.realMode.1 + BitVec.ofNat 32 write.1, write.2)

/-- How many bytes of the kernel are asked for, once the security header is taken off. -/
def OpenedKernel.len (kernel : OpenedKernel secure) (sbhLen : Nat) : Int :=
  let size := protSize secure kernel.asset.size sbhLen (kernelHeader kernel.paramsBuf)
  toInt32 (if secure then toUInt32 (size - sbhLen) else size)

/-- Where the kernel is read to. -/
def OpenedKernel.start (kernel : OpenedKernel secure) (sbhLen : Nat) : Address :=
  kernel.protMode.1 + BitVec.ofNat 32 (if secure then sbhLen else 0)

/-- The read of the kernel. -/
def OpenedKernel.transfer (kernel : OpenedKernel secure) (sbhLen : Nat) : Transfer :=
  kernel.asset.read
    (kernel.asset.seek kernel.filepos
      (if secure then 0 else setupSize (kernelHeader kernel.paramsBuf)))
    (kernel.len sbhLen)

/-- The stores to `prot_mode_mem`; `sbh` is `cln_sbh`. -/
def OpenedKernel.protStores (kernel : OpenedKernel secure) (sbh : List UInt8)
    (sbhLen : Nat) : List (Address × List UInt8) :=
  (if secure then [(kernel.protMode.1, sbh)] else []) ++
    [(kernel.start sbhLen, (kernel.transfer sbhLen).stored)]

end Opened

/-- With an error. -/
def LinuxLoad.fail (load : LinuxLoad) (errnum : GrubError) : LinuxLoad := { load with errnum }

/-- After `grub_cln_verify_asset_signature` looked at an address. -/
def LinuxLoad.validate (load : LinuxLoad) (address : Address) : LinuxLoad :=
  { load with validated := some (load.memory, address) }

/-- The load with the pages filled. The `mem=` option sets only a limit for an initrd and
leaves no error. -/
def filledLoad (secure spi : Bool) (sbh : List UInt8) (sbhLen : Nat) (uart : Option Address)
    (systemTable : Nat) (arg : CommandLine) (memory : Memory) (kernel : OpenedKernel secure) :
    LinuxLoad :=
  let detected := clnDetectEarlyUart uart arg.1
  let realStores := kernel.realStores spi sbhLen systemTable arg detected.1
  let protStores := kernel.protStores sbh sbhLen
  let transfer := kernel.transfer sbhLen
  { errnum := GrubError.after detected.2 transfer.errnum
    memory := storeAll memory (realStores ++ protStores)
    realMode := some kernel.realMode
    protMode := some kernel.protMode
    realStores
    protStores
    image := some (kernel.start sbhLen, transfer.stored.length)
    validated := none
    entry := some (code32Start secure sbhLen kernel.paramsBuf kernel.realMode.1) }

/-- The rest of `grub_load_linux`, for an opened kernel. -/
def fillKernel (rom : SecureRom) (secure spi : Bool) (sbh : List UInt8) (sbhLen : Nat)
    (uart : Option Address) (systemTable : Nat) (arg : CommandLine) (memory : Memory)
    (kernel : OpenedKernel secure) : LinuxLoad :=
  let load := filledLoad secure spi sbh sbhLen uart systemTable arg memory kernel
  if (kernel.transfer sbhLen).returned ≠ kernel.len sbhLen then load.fail .execFormat
  else if secure then
    if rom.validate load.memory kernel.protMode.1 then load.validate kernel.protMode.1
    else (load.validate kernel.protMode.1).fail .clnVerification
  else load

/-- `grub_load_linux` from where the kernel is opened. -/
def loadKernel (rom : SecureRom) (secure : Bool) (sbh : List UInt8) (sbhLen : Nat)
    (source : KernelSource secure) (room : LinuxRoom) (uart : Option Address) (systemTable : Nat)
    (arg : CommandLine) (memory : Memory) : LinuxLoad :=
  match openKernel secure sbhLen room arg source.kernel with
  | .error failure => .failed memory failure
  | .ok kernel =>
    fillKernel rom secure source.isSpi sbh sbhLen uart systemTable arg memory kernel

/-- `grub_load_linux`, with `cln_sbh` at `csbh`. -/
def grubLoadLinux (rom : SecureRom) (secure : Bool) (csbh : Address)
    (source : KernelSource secure) (room : LinuxRoom) (uart : Option Address) (systemTable : Nat)
    (arg : CommandLine) (memory : Memory) : LinuxLoad :=
  let header := source.header
  if !source.asked then .failed memory .badFilename
  else if secure then
    let fetched := withSbh header.toOption memory csbh
    if fetchesSbh header.toOption memory csbh then
      loadKernel rom secure (headerBytes header.toOption) (securityHeader fetched csbh).headerLen
        source room uart systemTable arg fetched
    else
      .failed fetched
        (if fetchErrnum header = .fileNotFound ∧ !source.isSpi then .sgnFileNotFound
          else fetchErrnum header)
  else loadKernel rom secure [] 0 source room uart systemTable arg memory

end GrubLegacy.Loader
