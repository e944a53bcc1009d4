import GrubLegacy.Base.CStrings
import GrubLegacy.Base.Runs
import GrubLegacy.Loader.MultibootSegments

/-!
# The list of modules

`kernel_func` and `module_func` of `builtins.c` for multiboot kernels, with `load_image` and
`load_module` of `boot.c`. The arguments of the commands are copied to `MB_CMDLINE_BUF`, and
each module is read behind the kernel and the modules before it, to memory that nobody has
allocated. Where that is memory of the program itself, what it goes on with is not known.
-/

namespace GrubLegacy.Loader

open Base CStrings Stage2

/-! ## The commands -/

/-- A used `struct mod_list` of `mll`. `cmdline` counts from the start of MB_CMDLINE_BUF;
`arg` is what the command was given. -/
structure ModList where
  modStart : Nat
  modEnd : Nat
  cmdline : Nat
  arg : List UInt8
deriving DecidableEq

/-- What the commands work on. `mods` are the first `mods_count` elements of `mll`, and
`mbCmdline` counts from the start of MB_CMDLINE_BUF. `kernelArg` and `kernelEnd` are the
arguments and the end of the last kernel that was loaded. -/
structure MultibootState where
  errnum : GrubError
  memory : Memory
  kernelType : KernelType
  mbCmdline : Nat
  curAddr : Nat
  mods : List ModList
  kernelArg : List UInt8
  kernelEnd : Nat

/-- A `kernel --type=multiboot` command: its arguments, how the file opens, whether there
are pages for it, the UART, and the stack with the place of the buffer on it. -/
structure KernelCommand (own : Address → Bool) where
  arg : List UInt8
  opening : FileOpening
  allocates : Nat → Bool
  uart : Option Address
  stack : LoaderStack own

/-- What happens to the list of modules. `initBuiltins` runs before scripts and command
lines; `shellLeft` is the end of a `kernel` command that had entered the recovery shell. -/
inductive BootCommand (own : Address → Bool) where
  | kernel (command : KernelCommand own)
  | module (arg : List UInt8) (opening : FileOpening)
  | initBuiltins
  | shellLeft

/-- GRUB in memory: MB_CMDLINE_BUF, and where its code, its data and its stack are. Once it
has overwritten any of that, it goes on with `overrun`, which may be anything. -/
structure Program where
  cmdlineBuf : Address
  own : Address → Bool
  overrun : MultibootState × Bool → MultibootState × Bool

/-- What becomes of a command that made these stores. -/
def Program.settle (program : Program) (stores : List (Address × List UInt8))
    (outcome : MultibootState × Bool) : MultibootState × Bool :=
  if overwrites program.own stores then program.overrun outcome else outcome

/-- The end of the segments of a kernel file. -/
def kernelEndOf : FileOpening → Nat
  | .error _ => 0
  | .ok file => segmentsEnd (loadPhdrs file.content)

/-- The load of a kernel command, which finds this memory. -/
def KernelCommand.load {own : Address → Bool} (command : KernelCommand own) (memory : Memory)
    (state : MultibootState) : MultibootLoad :=
  grubLoadMultiboot command.allocates command.uart command.stack.bytes command.stack.buffer
    command.opening (.start memory state.curAddr state.mods.length)

/-- What `grub_load_multiboot` leaves. -/
def MultibootState.loaded (state : MultibootState) (load : MultibootLoad) : MultibootState :=
  { state with
    errnum := load.errnum
    memory := load.memory
    curAddr := load.curAddr
    mods := state.mods.take load.modsCount }

/-- The memory with the arguments of a command copied to MB_CMDLINE_BUF. -/
def copyArg (cmdlineBuf : Address) (memory : Memory) (mbCmdline : Nat) (arg : List UInt8) :
    Memory :=
  store memory (cmdlineBuf + BitVec.ofNat 32 mbCmdline) (encodeString arg)

section Commands

variable (program : Program)

/-- `kernel_func` after its options. The recovery shell that a failing load enters calls
`init_builtins`. -/
def kernelFunc (state : MultibootState) (command : KernelCommand program.own) :
    MultibootState × Bool :=
  if mbCmdlineBuflen < command.arg.length + 1 then
    ({ state with mbCmdline := 0, errnum := .wontFit }, false)
  else
    let load := command.load (copyArg program.cmdlineBuf state.memory 0 command.arg) state
    program.settle load.stores
      (if load.errnum = .none then
        ({ state.loaded load with
            kernelType := .multiboot
            mbCmdline := command.arg.length + 1
            kernelArg := command.arg
            kernelEnd := kernelEndOf command.opening }, true)
      else ({ state.loaded load with kernelType := .none, mbCmdline := 0 }, false))

/-- On a page boundary. -/
def pageBoundary (curAddr : Nat) : Nat := (curAddr + 0xFFF) % 2 ^ 32 / 0x1000 * 0x1000

/-- The list after a module was read to `cur_addr`. -/
def addModule (state : MultibootState) (arg : List UInt8) (read : Transfer) :
    MultibootState × Bool :=
  let state := { state with
    errnum := read.errnum
    memory := store state.memory (BitVec.ofNat 32 state.curAddr) read.stored }
  if read.returned = 0 then (state, false)
  else
    let modEnd := toUInt32 (state.curAddr + read.returned)
    let entry := { modStart := state.curAddr, modEnd, cmdline := state.mbCmdline, arg }
    ({ state with
        curAddr := modEnd
        mods := state.mods ++ [entry]
        mbCmdline := state.mbCmdline + (arg.length + 1) }, read.errnum = .none)

/-- `load_module` after it has aligned `cur_addr`, on a file it has opened. -/
def readModule (state : MultibootState) (arg : List UInt8) (file : OpenFile) :
    MultibootState × Bool :=
  let read := grubRead file 0 (-1)
  program.settle [(BitVec.ofNat 32 state.curAddr, read.stored)] (addModule state arg read)

/-- `load_module`, and the advance of `mb_cmdline` in `module_func`. -/
def loadModule (state : MultibootState) (arg : List UInt8) (opening : FileOpening) :
    MultibootState × Bool :=
  let state := { state with curAddr := pageBoundary state.curAddr }
  match opening with
  | .error errnum => ({ state with errnum }, false)
  | .ok file => readModule program state arg file

/-- `module_func`. The only kernels that are loaded here are multiboot kernels. -/
def moduleFunc (state : MultibootState) (arg : List UInt8) (opening : FileOpening) :
    MultibootState × Bool :=
  if state.kernelType = .multiboot then
    if mbCmdlineBuflen < state.mbCmdline + (arg.length + 1) then
      ({ state with errnum := .wontFit }, false)
    else
      loadModule program
        { state with memory := copyArg program.cmdlineBuf state.memory state.mbCmdline arg } arg
        opening
  else ({ state with errnum := .needMbKernel }, false)

/-- A command, and whether it succeeds. -/
def runCommand (state : MultibootState) : BootCommand program.own → MultibootState × Bool
  | .kernel command => kernelFunc program state command
  | .module arg opening => moduleFunc program state arg opening
  | .initBuiltins => ({ state with kernelType := .none, mbCmdline := 0 }, true)
  | .shellLeft => ({ state with kernelType := .none }, true)

/-- The state after a command. -/
def afterCommand (state : MultibootState) (command : BootCommand program.own) : MultibootState :=
  (runCommand program state command).1

end Commands

/-! ## The list -/

section Property

variable (cmdlineBuf : Address)

/-- MB_CMDLINE_BUF has a copy of this text from here on, with its terminator. -/
structure HoldsText (memory : Memory) (cmdline : Nat) (arg : List UInt8) : Prop where
  inside : cmdline + (arg.length + 1) ≤ mbCmdlineBuflen
  copy : ∀ i (isIn : i < (encodeString arg).length),
    memory (cmdlineBuf + BitVec.ofNat 32 (cmdline + i)) = (encodeString arg).get ⟨i, isIn⟩

/-- The list of modules is as a kernel may rely on. -/
structure ModulesSound (state : MultibootState) : Prop where
  count : state.mods.length ≤ 99
  aligned : ∀ entry ∈ state.mods, entry.modStart % 0x1000 = 0
  nonempty : ∀ entry ∈ state.mods, entry.modStart < entry.modEnd
  inOrder : state.mods.Pairwise fun earlier later => earlier.modEnd ≤ later.modStart
  above : ∀ entry ∈ state.mods, state.kernelEnd ≤ entry.modStart
  texts : ∀ entry ∈ state.mods, HoldsText cmdlineBuf state.memory entry.cmdline entry.arg
  kernelText : state.kernelType = .multiboot →
    HoldsText cmdlineBuf state.memory 0 state.kernelArg

/-- These bytes are not in MB_CMDLINE_BUF. -/
def OffCmdline (start : Address) (length : Nat) : Prop :=
  ∀ address, InRegion cmdlineBuf mbCmdlineBuflen address → ¬ InRegion start length address

end Property

section Conditions

variable (program : Program)

/-- A command that succeeds leaves a sound list, one that fails the list it found; no
command overwrites the arguments in it. -/
structure CommandSound (state : MultibootState) (command : BootCommand program.own) : Prop where
  succeeds : (runCommand program state command).2 = true →
    ModulesSound program.cmdlineBuf (afterCommand program state command)
  fails : (runCommand program state command).2 = false →
    (afterCommand program state command).mods = state.mods
  texts : ∀ entry ∈ (afterCommand program state command).mods,
    HoldsText program.cmdlineBuf (afterCommand program state command).memory entry.cmdline
      entry.arg

/-! ## The conditions -/

/-- The kernel is opened, accepted and has its pages. -/
def KernelCommand.Placed {own : Address → Bool} (command : KernelCommand own) : Prop :=
  match command.opening with
  | .error _ => False
  | .ok file =>
    refusal (headerStack command.stack.bytes command.stack.buffer file) command.stack.buffer
        (headerRead file).returned = .none ∧
      command.allocates (protModePages file) = true

/-- Nothing is wrong with the kernel behind its header: the UART is there, and no read of
the file leaves an error. -/
structure KernelCommand.Finishes {own : Address → Bool} (command : KernelCommand own) : Prop where
  uart : command.uart.isSome = true
  header : ∀ file, command.opening = .ok file → (headerRead file).errnum = .none
  segments : ∀ file, command.opening = .ok file → ∀ phdr ∈ loadPhdrs file.content, ∀ filepos,
    (segmentRead file filepos phdr).errnum = .none

/-- A kernel file that is loaded up to its end, and neither to MB_CMDLINE_BUF nor to where
the program is. -/
structure KernelFile (content : List UInt8) : Prop where
  walked : TableWalked content
  segments : ∀ phdr ∈ loadPhdrs content, SegmentLoadable content phdr
  pages : OffCmdline program.cmdlineBuf (BitVec.ofNat 32 grubMultibootAddr) content.length
  stored : ∀ phdr ∈ loadPhdrs content, OffCmdline program.cmdlineBuf phdr.start phdr.pFilesz
  cleared : ∀ phdr ∈ loadPhdrs content, OffCmdline program.cmdlineBuf
    (phdr.start + BitVec.ofNat 32 phdr.pFilesz) (phdr.pMemsz - phdr.pFilesz)
  off : KernelApart program.own content

/-- What `kernel` relies on: the file of a kernel that is placed is as it should be, and
nothing is wrong with it behind its header if there are modules; arguments of other kernels
do not reach those of modules. -/
structure MayLoadKernel (state : MultibootState) (command : KernelCommand program.own) :
    Prop where
  start : ∀ file, command.opening = .ok file → ReadsStart file
  file : ∀ file, command.opening = .ok file → command.Placed → KernelFile program file.content
  alone : command.Placed → ¬ command.Finishes → state.mods = []
  other : ¬ command.Placed → ∀ entry ∈ state.mods, command.arg.length + 1 ≤ entry.cmdline

/-- What `module` relies on: `mb_cmdline` is behind the arguments in use, `cur_addr` can be
aligned, and the file is read to the memory above it, is read neither to MB_CMDLINE_BUF nor
to where the program is, finds a free slot, and is read in full or not at all. -/
structure MayLoadModule (state : MultibootState) (opening : FileOpening) : Prop where
  kernelArg : state.kernelArg.length + 1 ≤ state.mbCmdline
  args : ∀ entry ∈ state.mods, entry.cmdline + (entry.arg.length + 1) ≤ state.mbCmdline
  aligns : state.curAddr + 0xFFF < 2 ^ 32
  slot : ∀ file, opening = .ok file → file.content ≠ [] → state.mods.length < 99
  ends : ∀ file, opening = .ok file → pageBoundary state.curAddr + file.content.length < 2 ^ 32
  off : ∀ file, opening = .ok file → OffCmdline program.cmdlineBuf
    (BitVec.ofNat 32 (pageBoundary state.curAddr)) file.content.length
  spares : ∀ file, opening = .ok file → ∀ address,
    InRegion (BitVec.ofNat 32 (pageBoundary state.curAddr)) file.content.length address →
      program.own address = false
  whole : ∀ file, opening = .ok file → (grubRead file 0 (-1)).errnum ≠ .none →
    (grubRead file 0 (-1)).returned = 0

/-- What must hold before a command that is not refused right away. -/
def MayCommand (state : MultibootState) : BootCommand program.own → Prop
  | .kernel command => command.arg.length + 1 ≤ mbCmdlineBuflen →
      MayLoadKernel program state command
  | .module arg opening => state.kernelType = .multiboot →
      state.mbCmdline + (arg.length + 1) ≤ mbCmdlineBuflen → MayLoadModule program state opening
  | .initBuiltins => True
  | .shellLeft => True

end Conditions

/-! ## The texts -/

section Texts

variable {cmdlineBuf : Address} {memory memory' : Memory} {cmdline offset : Nat}
  {arg text : List UInt8}

/-- An encoded string has its NUL more. -/
theorem encodeString_length (arg : List UInt8) : (encodeString arg).length = arg.length + 1 := by
  rw [encodeString, List.length_append, List.length_singleton]

/-- A text stays as long as nothing is stored to MB_CMDLINE_BUF. -/
theorem HoldsText.frame (holds : HoldsText cmdlineBuf memory cmdline arg)
    (same : ∀ address, InRegion cmdlineBuf mbCmdlineBuflen address →
      memory' address = memory address) : HoldsText cmdlineBuf memory' cmdline arg := by
  refine ⟨holds.inside, fun i isIn => ?_⟩
  have inside := holds.inside
  have length := encodeString_length arg
  have size : mbCmdlineBuflen = 0x6000 := rfl
  rw [same _ (inRegion_add (by omega) (by omega))]
  exact holds.copy i isIn

/-- A copied text is there. -/
theorem holdsText_copyArg (room : offset + (arg.length + 1) ≤ mbCmdlineBuflen) :
    HoldsText cmdlineBuf (copyArg cmdlineBuf memory offset arg) offset arg := by
  refine ⟨room, fun i isIn => ?_⟩
  have length := encodeString_length arg
  have size : mbCmdlineBuflen = 0x6000 := rfl
  rw [copyArg, BitVec.ofNat_add, ← BitVec.add_assoc]
  exact store_add isIn (by omega)

/-- Copying a text leaves the texts before and behind it. -/
theorem HoldsText.copyArg (holds : HoldsText cmdlineBuf memory cmdline arg)
    (room : offset + (text.length + 1) ≤ mbCmdlineBuflen)
    (apart : cmdline + (arg.length + 1) ≤ offset ∨ offset + (text.length + 1) ≤ cmdline) :
    HoldsText cmdlineBuf (copyArg cmdlineBuf memory offset text) cmdline arg := by
  refine ⟨holds.inside, fun i isIn => ?_⟩
  have inside := holds.inside
  have length := encodeString_length arg
  have size : mbCmdlineBuflen = 0x6000 := rfl
  rw [Loader.copyArg, store_outside]
  · exact holds.copy i isIn
  · rw [InRegion, encodeString_length]
    bv_omega

end Texts

/-! ## Loading a kernel -/

section Fields

variable (load : MultibootLoad) (filepos : Int) (errnum : GrubError)

/-- A failure changes no byte. -/
@[simp]
theorem fail_memory : (load.fail errnum).memory = load.memory := rfl

/-- A failure leaves the count of the modules, -/
@[simp]
theorem fail_modsCount : (load.fail errnum).modsCount = load.modsCount := rfl

/-- and so does a read. -/
@[simp]
theorem moved_modsCount : (load.moved filepos errnum).modsCount = load.modsCount := rfl

/-- An emptied list has no modules. -/
@[simp]
theorem dropModules_modsCount : load.dropModules.modsCount = 0 := rfl

/-- A load starts with the modules there are. -/
@[simp]
theorem start_modsCount (memory : Memory) (curAddr modsCount : Nat) :
    (MultibootLoad.start memory curAddr modsCount).modsCount = modsCount := rfl

end Fields

section Kernel

variable {program : Program} {state : MultibootState} {command : KernelCommand program.own}
  {memory : Memory}

/-- A kernel that is not placed leaves everything as it was, and an error. -/
theorem load_unplaced (unplaced : ¬ command.Placed) :
    (command.load memory state).errnum ≠ .none ∧ (command.load memory state).memory = memory ∧
      (command.load memory state).modsCount = state.mods.length ∧
        (command.load memory state).stores = [] := by
  rw [KernelCommand.Placed] at unplaced
  rw [KernelCommand.load]
  cases isOpening : command.opening with
  | error errnum =>
      rw [grubLoadMultiboot, fail_errnum, fail_memory, fail_modsCount, fail_stores, start_memory,
        start_modsCount]
      exact ⟨errnum.2, rfl, rfl, rfl⟩
  | ok file =>
      rw [isOpening] at unplaced
      rw [grubLoadMultiboot_ok, loadMultibootFile]
      by_cases refused : refusal (headerStack command.stack.bytes command.stack.buffer file)
          command.stack.buffer (headerRead file).returned ≠ .none
      · rw [if_pos refused, fail_errnum, fail_memory, fail_modsCount, fail_stores, moved_memory,
          moved_modsCount, moved_stores, start_memory, start_modsCount]
        exact ⟨refused, rfl, rfl, rfl⟩
      · rw [if_neg refused, if_neg fun pages => unplaced ⟨not_not.mp refused, pages⟩, fail_errnum,
          fail_memory, fail_modsCount, fail_stores, moved_memory, moved_modsCount, moved_stores,
          start_memory, start_modsCount]
        exact ⟨(by rintro ⟨⟩), rfl, rfl, rfl⟩

/-- The file of a kernel that is placed. -/
theorem KernelCommand.Placed.file (placed : command.Placed) :
    ∃ file, command.opening = .ok file ∧
      refusal (headerStack command.stack.bytes command.stack.buffer file) command.stack.buffer
          (headerRead file).returned = .none ∧
        command.load memory state =
          loadAccepted command.uart
            (headerStack command.stack.bytes command.stack.buffer file) command.stack.buffer file
            (.moved (.start memory state.curAddr state.mods.length) (headerRead file).filepos
              (GrubError.after .none (headerRead file).errnum)) := by
  rw [KernelCommand.Placed] at placed
  rw [KernelCommand.load]
  cases isOpening : command.opening with
  | error errnum => rw [isOpening] at placed; exact placed.elim
  | ok file =>
      rw [isOpening] at placed
      refine ⟨file, rfl, placed.1, ?_⟩
      rw [grubLoadMultiboot_ok, loadMultibootFile, if_neg (not_not.mpr placed.1), if_pos placed.2]
      rfl

/-- A kernel that is placed drops the modules. -/
theorem load_placed (placed : command.Placed) : (command.load memory state).modsCount = 0 := by
  obtain ⟨_, _, _, isLoad⟩ := @KernelCommand.Placed.file _ state command memory placed
  rw [isLoad, loadAccepted, dropModules_modsCount]

/-- The load of a kernel file spares the program. -/
theorem load_spares {file : OpenFile} (opened : command.opening = .ok file)
    (reads : ReadsStart file) (kernel : KernelFile program file.content) :
    overwrites program.own (command.load memory state).stores = false := by
  rw [KernelCommand.load, opened, grubLoadMultiboot_ok]
  exact loadMultibootFile_spares reads rfl fun _ => ⟨kernel.walked, kernel.off⟩

/-- A kernel with which nothing is wrong is loaded without an error. -/
theorem load_finishes {file : OpenFile} (opened : command.opening = .ok file)
    (kernel : KernelFile program file.content) (placed : command.Placed)
    (finishes : command.Finishes) : (command.load memory state).errnum = .none := by
  obtain ⟨other, isOther, accepted, isLoad⟩ :=
    @KernelCommand.Placed.file _ state command memory placed
  obtain rfl := Except.ok.inj (opened.symm.trans isOther)
  have silent := finishes.header file opened
  obtain ⟨stored, returned⟩ := headerRead_whole silent
  rw [headerStack, stored, returned] at accepted
  obtain ⟨long, _⟩ := refusal_none accepted
  rw [isLoad, headerStack, stored, silent, loadAccepted, dropModules_errnum, console_errnum,
    header_ehdr (Nat.le_of_lt long)]
  refine ⟨finishes.uart, loadSegments_silent _ (fun i isIn isLoad filepos => ?_) ?_⟩
  · rw [walked_phdr kernel.walked (List.mem_range.mp isIn)] at isLoad ⊢
    exact finishes.segments file opened _ (List.mem_filter.mpr
      ⟨List.mem_map_of_mem isIn, by simpa using isLoad⟩) filepos
  · rw [reach_errnum, put_errnum, grant_errnum, moved_errnum]
    rfl

/-- The loop moves `cur_addr` to the end of the segments. -/
theorem loadSegments_end {file : OpenFile} {stack : Memory} {buffer : Address} {elf : Elf32Ehdr}
    {header : Nat → Elf32Phdr} {indices : List Nat}
    (walked : ∀ i ∈ indices, elf32Phdr stack (phdrAddress buffer elf i) = header i)
    (loadable : ∀ phdr ∈ (indices.map header).filter (·.pType = ptLoad),
      SegmentLoadable file.content phdr)
    {load : MultibootLoad} {done : List Elf32Phdr} (ends : load.curAddr = segmentsEnd done)
    (succeeds : (loadSegments file stack buffer elf indices load).errnum = .none) :
    (loadSegments file stack buffer elf indices load).curAddr =
      segmentsEnd (done ++ (indices.map header).filter (·.pType = ptLoad)) := by
  induction indices generalizing load done with
  | nil =>
      rw [loadSegments, List.map_nil, List.filter_nil, List.append_nil]
      exact ends
  | cons i rest ih =>
      obtain ⟨here, walked⟩ := List.forall_mem_cons.mp walked
      rw [List.map_cons] at loadable ⊢
      by_cases isLoad : (header i).pType = ptLoad
      · rw [List.filter_cons_of_pos (by simpa using isLoad)] at loadable ⊢
        obtain ⟨this_, loadable⟩ := List.forall_mem_cons.mp loadable
        rw [← here] at isLoad
        by_cases full : readsSegment file load.filepos (elf32Phdr stack (phdrAddress buffer elf i))
        · rw [loadSegments_full rest isLoad full, here] at succeeds ⊢
          rw [← List.singleton_append, ← List.append_assoc]
          refine ih walked loadable ?_ succeeds
          rw [segment_curAddr, segmentsEnd_append, lookAll_curAddr, ends,
            Nat.mod_eq_of_lt this_.ends]
        · rw [loadSegments_short rest isLoad full, loadSegment, moved_errnum, after_eq_none,
            here] at succeeds
          rw [here] at full
          exact absurd (@segmentRead_whole file (header i) _ this_.inFile succeeds.2).2 full
      · rw [List.filter_cons_of_neg (by simpa using isLoad)] at loadable ⊢
        rw [← here] at isLoad
        rw [loadSegments_skip rest isLoad] at succeeds ⊢
        exact ih walked loadable ends succeeds

/-- A kernel that is loaded ends at `cur_addr` and leaves MB_CMDLINE_BUF alone. -/
theorem load_kernelFile {file : OpenFile} (opened : command.opening = .ok file)
    (kernel : KernelFile program file.content)
    (succeeds : (command.load memory state).errnum = .none) :
    (command.load memory state).curAddr = segmentsEnd (loadPhdrs file.content) ∧
      ∀ address, InRegion program.cmdlineBuf mbCmdlineBuflen address →
        (command.load memory state).memory address = memory address := by
  rw [KernelCommand.load, opened, grubLoadMultiboot_ok] at succeeds ⊢
  obtain ⟨_, accepted, isLoad⟩ := loadMultibootFile_succeeds succeeds
  obtain ⟨long, _⟩ := refusal_none accepted
  have isEhdr := @header_ehdr command.stack.bytes command.stack.buffer file.content (Nat.le_of_lt long)
  have walked : ∀ i ∈ List.range (fileEhdr file.content).ePhnum,
      elf32Phdr (store command.stack.bytes command.stack.buffer (file.content.take multibootSearch))
        (phdrAddress command.stack.buffer (fileEhdr file.content) i) = filePhdr file.content i :=
    fun i isIn => walked_phdr kernel.walked (List.mem_range.mp isIn)
  rw [isLoad, loadAccepted, dropModules_errnum, console_errnum, isEhdr] at succeeds
  rw [isLoad, loadAccepted, dropModules_memory, dropModules_curAddr, console_memory,
    console_curAddr, isEhdr]
  constructor
  · have ends := @loadSegments_end file _ command.stack.buffer _ _ _ walked kernel.segments _ []
      (reach_curAddr _) succeeds.2
    exact ends
  · intro address inside
    rw [loadSegments_frame]
    · rw [reach_memory, put_memory, store_outside, grant_memory, moved_memory, start_memory]
      rw [zeroes_length file.small]
      exact kernel.pages address inside
    · intro i isIn isSegment
      rw [walked i isIn] at isSegment ⊢
      have isPhdr : filePhdr file.content i ∈ loadPhdrs file.content := by
        rw [loadPhdrs, List.mem_filter]
        exact ⟨List.mem_map_of_mem isIn, by simpa using isSegment⟩
      refine ⟨kernel.stored _ isPhdr address inside, ?_⟩
      rw [zeroes_length (kernel.segments _ isPhdr).short]
      exact kernel.cleared _ isPhdr address inside

end Kernel

/-! ## Every sequence of commands -/

/-- What the commands keep: a sound list, and while there is a kernel, that `cur_addr` is
behind it and behind the modules. -/
structure ModulesKept (cmdlineBuf : Address) (state : MultibootState) : Prop
    extends ModulesSound cmdlineBuf state where
  ends : state.kernelType = .multiboot → state.kernelEnd ≤ state.curAddr
  behind : state.kernelType = .multiboot → ∀ entry ∈ state.mods, entry.modEnd ≤ state.curAddr

section Keeping

variable {cmdlineBuf : Address} {state : MultibootState}

/-- An empty list is sound. -/
theorem modulesSound_nil (empty : state.mods = []) (kernelText : state.kernelType = .multiboot →
      HoldsText cmdlineBuf state.memory 0 state.kernelArg) : ModulesSound cmdlineBuf state where
  count := by rw [empty]; decide
  aligned := by rw [empty]; exact fun _ isIn => absurd isIn List.not_mem_nil
  nonempty := by rw [empty]; exact fun _ isIn => absurd isIn List.not_mem_nil
  inOrder := by rw [empty]; exact List.Pairwise.nil
  above := by rw [empty]; exact fun _ isIn => absurd isIn List.not_mem_nil
  texts := by rw [empty]; exact fun _ isIn => absurd isIn List.not_mem_nil
  kernelText

/-- The list stays as it is, with the texts it refers to. -/
theorem ModulesSound.keeps (sound : ModulesSound cmdlineBuf state) {state' : MultibootState}
    (mods : state'.mods = state.mods) (kernelEnd : state'.kernelEnd = state.kernelEnd)
    (texts : ∀ entry ∈ state.mods, HoldsText cmdlineBuf state'.memory entry.cmdline entry.arg)
    (kernelText : state'.kernelType = .multiboot →
      HoldsText cmdlineBuf state'.memory 0 state'.kernelArg) : ModulesSound cmdlineBuf state' where
  count := mods ▸ sound.count
  aligned := mods ▸ sound.aligned
  nonempty := mods ▸ sound.nonempty
  inOrder := mods ▸ sound.inOrder
  above := by rw [mods, kernelEnd]; exact sound.above
  texts := mods ▸ texts
  kernelText

end Keeping

section Commands

variable {program : Program} {state : MultibootState}

/-- Stores that spare the program leave the outcome. -/
theorem Program.settle_of_spares {stores : List (Address × List UInt8)}
    {outcome : MultibootState × Bool} (spares : overwrites program.own stores = false) :
    program.settle stores outcome = outcome := by
  rw [Program.settle, spares]
  rfl

/-- `kernel` keeps the list sound, and if it fails as it is. -/
theorem kernelFunc_keeps {command : KernelCommand program.own}
    (kept : ModulesKept program.cmdlineBuf state)
    (may : command.arg.length + 1 ≤ mbCmdlineBuflen → MayLoadKernel program state command) :
    ModulesKept program.cmdlineBuf (kernelFunc program state command).1 ∧
      ((kernelFunc program state command).2 = false →
        (kernelFunc program state command).1.mods = state.mods) := by
  have sound := kept.toModulesSound
  rw [kernelFunc]
  by_cases long : mbCmdlineBuflen < command.arg.length + 1
  · rw [if_pos long]
    exact ⟨⟨sound.keeps rfl rfl sound.texts sound.kernelText, kept.ends, kept.behind⟩,
      fun _ => rfl⟩
  have room : command.arg.length + 1 ≤ mbCmdlineBuflen := Nat.le_of_not_lt long
  obtain ⟨start, file, alone, other⟩ := may room
  have copied := @holdsText_copyArg program.cmdlineBuf state.memory 0 command.arg (by omega)
  rw [if_neg long]
  dsimp only
  by_cases placed : command.Placed
  · obtain ⟨opened, isOpened, _, _⟩ := @KernelCommand.Placed.file program state command
      state.memory placed
    have kernel := file opened isOpened placed
    have dropped := @load_placed program state command
      (copyArg program.cmdlineBuf state.memory 0 command.arg) placed
    rw [Program.settle_of_spares (load_spares isOpened (start opened isOpened) kernel)]
    by_cases success : (command.load (copyArg program.cmdlineBuf state.memory 0 command.arg)
        state).errnum = .none
    · obtain ⟨ends, same⟩ := load_kernelFile isOpened kernel success
      rw [if_pos success]
      generalize command.load (copyArg program.cmdlineBuf state.memory 0 command.arg) state =
        load at *
      have empty : (state.loaded load).mods = [] := by
        rw [MultibootState.loaded, dropped, List.take_zero]
      refine ⟨⟨modulesSound_nil empty fun _ => copied.frame same, fun _ => ?_, fun _ => ?_⟩, nofun⟩
      · rw [isOpened]
        exact Nat.le_of_eq ends.symm
      · intro entry isIn
        exact absurd (empty ▸ isIn) List.not_mem_nil
    · have none_ := alone placed fun finishes =>
        success (load_finishes isOpened kernel placed finishes)
      rw [if_neg success]
      generalize command.load (copyArg program.cmdlineBuf state.memory 0 command.arg) state =
        load at *
      have empty : (state.loaded load).mods = [] := by
        rw [MultibootState.loaded, dropped, List.take_zero]
      exact ⟨⟨modulesSound_nil empty nofun, nofun, nofun⟩, fun _ => empty.trans none_.symm⟩
  · obtain ⟨fails, memory, modsCount, stores⟩ := @load_unplaced program state command
      (copyArg program.cmdlineBuf state.memory 0 command.arg) placed
    have apart := other placed
    rw [Program.settle_of_spares (by rw [stores]; rfl), if_neg fails]
    generalize command.load (copyArg program.cmdlineBuf state.memory 0 command.arg) state =
      load at *
    have mods : (state.loaded load).mods = state.mods := by
      rw [MultibootState.loaded, modsCount, List.take_length]
    refine ⟨⟨sound.keeps mods rfl (fun entry isIn => ?_) nofun, nofun, nofun⟩, fun _ => mods⟩
    change HoldsText program.cmdlineBuf load.memory _ _
    rw [memory]
    exact (sound.texts entry isIn).copyArg (by omega) (.inr (by have := apart entry isIn; omega))

/-- A page boundary is not before what it is for. -/
theorem pageBoundary_spec {curAddr : Nat} (aligns : curAddr + 0xFFF < 2 ^ 32) :
    curAddr ≤ pageBoundary curAddr ∧ pageBoundary curAddr % 0x1000 = 0 ∧
      pageBoundary curAddr < 2 ^ 32 := by
  rw [pageBoundary, Nat.mod_eq_of_lt aligns]
  omega

/-- What `load_module` reads of a file. -/
theorem moduleRead {file : OpenFile} (whole : (grubRead file 0 (-1)).errnum ≠ .none →
      (grubRead file 0 (-1)).returned = 0) :
    (grubRead file 0 (-1)).stored.length ≤ file.content.length ∧
      ((grubRead file 0 (-1)).returned ≠ 0 →
        (grubRead file 0 (-1)).errnum = .none ∧
          (grubRead file 0 (-1)).returned = file.content.length ∧ file.content ≠ []) := by
  have isMax : file.filemax = file.content.length := rfl
  have start : saneFilepos file.filemax 0 = 0 := saneFilepos_of_range (by decide) (by omega)
  have length : saneLen file.filemax 0 (-1) = file.content.length := by
    rw [saneLen, if_pos (.inl (by decide)), Int.sub_zero]
    exact isMax
  constructor
  · have within := grubRead_within file 0 (-1)
    rw [start, length] at within
    omega
  · intro some_
    have done : (grubRead file 0 (-1)).errnum = .none := by
      by_contra failed
      exact some_ (whole failed)
    obtain ⟨_, returned, _⟩ := grubRead_whole done
    rw [start, length] at returned
    refine ⟨done, returned, ?_⟩
    rintro empty
    rw [returned, empty] at some_
    exact some_ rfl

/-- Reading a module to the page at `cur_addr` keeps the list sound, and if it fails as
it is. -/
theorem addModule_keeps {cmdlineBuf : Address} {arg : List UInt8} {file : OpenFile}
    (kept : ModulesKept cmdlineBuf state) (multiboot : state.kernelType = .multiboot)
    (text : HoldsText cmdlineBuf state.memory state.mbCmdline arg)
    (aligned : state.curAddr % 0x1000 = 0) (slot : file.content ≠ [] → state.mods.length < 99)
    (fits : state.curAddr + file.content.length < 2 ^ 32)
    (off : OffCmdline cmdlineBuf (BitVec.ofNat 32 state.curAddr) file.content.length)
    (whole : (grubRead file 0 (-1)).errnum ≠ .none → (grubRead file 0 (-1)).returned = 0) :
    ModulesKept cmdlineBuf (addModule state arg (grubRead file 0 (-1))).1 ∧
      ((addModule state arg (grubRead file 0 (-1))).2 = false →
        (addModule state arg (grubRead file 0 (-1))).1.mods = state.mods) := by
  have sound := kept.toModulesSound
  have ends := kept.ends multiboot
  have behind := kept.behind multiboot
  obtain ⟨short, reads⟩ := moduleRead whole
  generalize grubRead file 0 (-1) = read at short reads ⊢
  rw [addModule]
  have same : ∀ address, InRegion cmdlineBuf mbCmdlineBuflen address →
      store state.memory (BitVec.ofNat 32 state.curAddr) read.stored address =
        state.memory address := fun address inside =>
    store_outside fun stored => off address inside (stored.mono short)
  have kernelText := (sound.kernelText multiboot).frame same
  dsimp only
  by_cases none_ : read.returned = 0
  · rw [if_pos none_]
    exact ⟨⟨sound.keeps rfl rfl (fun entry isIn => (sound.texts entry isIn).frame same)
      fun _ => kernelText, fun _ => ends, fun _ => behind⟩, fun _ => rfl⟩
  · obtain ⟨done, returned, some_⟩ := reads none_
    have modEnd : toUInt32 (state.curAddr + read.returned) =
        state.curAddr + file.content.length := by
      rw [returned]
      exact_mod_cast toUInt32_of_range fits
    have positive : 0 < file.content.length := List.length_pos_iff.mpr some_
    have free := slot some_
    rw [if_neg none_, modEnd]
    refine ⟨⟨⟨?_, ?_, ?_, ?_, ?_, ?_, fun _ => kernelText⟩, fun _ => ?_, fun _ => ?_⟩, ?_⟩
    · dsimp only
      rw [List.length_append, List.length_singleton]
      omega
    · exact List.forall_mem_append.mpr ⟨sound.aligned, List.forall_mem_singleton.mpr aligned⟩
    · refine List.forall_mem_append.mpr ⟨sound.nonempty, List.forall_mem_singleton.mpr ?_⟩
      dsimp only
      omega
    · refine List.pairwise_append.mpr ⟨sound.inOrder, List.pairwise_singleton _ _, ?_⟩
      intro earlier isIn later isLast
      obtain rfl := List.mem_singleton.mp isLast
      exact behind earlier isIn
    · exact List.forall_mem_append.mpr ⟨sound.above, List.forall_mem_singleton.mpr ends⟩
    · exact List.forall_mem_append.mpr ⟨fun entry isIn => (sound.texts entry isIn).frame same,
        List.forall_mem_singleton.mpr (text.frame same)⟩
    · exact Nat.le_add_right_of_le ends
    · refine List.forall_mem_append.mpr ⟨fun entry isIn => ?_, List.forall_mem_singleton.mpr ?_⟩
      · exact Nat.le_add_right_of_le (behind entry isIn)
      · exact Nat.le_refl _
    · rw [done]
      rintro ⟨⟩

/-- A module that is not read to where the program is spares it. -/
theorem readModule_of_spares {arg : List UInt8} {file : OpenFile}
    (spares : ∀ address, InRegion (BitVec.ofNat 32 state.curAddr) file.content.length address →
      program.own address = false)
    (whole : (grubRead file 0 (-1)).errnum ≠ .none → (grubRead file 0 (-1)).returned = 0) :
    readModule program state arg file = addModule state arg (grubRead file 0 (-1)) := by
  obtain ⟨short, _⟩ := moduleRead whole
  rw [readModule]
  generalize grubRead file 0 (-1) = read at short ⊢
  refine Program.settle_of_spares (overwrites_eq_false_iff.mpr (List.forall_mem_singleton.mpr ?_))
  exact fun address inside => spares address (inside.mono short)

/-- So does reading it there from a file. -/
theorem readModule_keeps {arg : List UInt8} {file : OpenFile}
    (kept : ModulesKept program.cmdlineBuf state) (multiboot : state.kernelType = .multiboot)
    (text : HoldsText program.cmdlineBuf state.memory state.mbCmdline arg)
    (aligned : state.curAddr % 0x1000 = 0) (slot : file.content ≠ [] → state.mods.length < 99)
    (fits : state.curAddr + file.content.length < 2 ^ 32)
    (off : OffCmdline program.cmdlineBuf (BitVec.ofNat 32 state.curAddr) file.content.length)
    (spares : ∀ address, InRegion (BitVec.ofNat 32 state.curAddr) file.content.length address →
      program.own address = false)
    (whole : (grubRead file 0 (-1)).errnum ≠ .none → (grubRead file 0 (-1)).returned = 0) :
    ModulesKept program.cmdlineBuf (readModule program state arg file).1 ∧
      ((readModule program state arg file).2 = false →
        (readModule program state arg file).1.mods = state.mods) := by
  rw [readModule_of_spares spares whole]
  exact addModule_keeps kept multiboot text aligned slot fits off whole

/-- `module` keeps the list sound, and if it fails as it is. -/
theorem moduleFunc_keeps {arg : List UInt8} {opening : FileOpening}
    (kept : ModulesKept program.cmdlineBuf state)
    (may : state.kernelType = .multiboot →
      state.mbCmdline + (arg.length + 1) ≤ mbCmdlineBuflen →
        MayLoadModule program state opening) :
    ModulesKept program.cmdlineBuf (moduleFunc program state arg opening).1 ∧
      ((moduleFunc program state arg opening).2 = false →
        (moduleFunc program state arg opening).1.mods = state.mods) := by
  have sound := kept.toModulesSound
  rw [moduleFunc]
  by_cases multiboot : state.kernelType = .multiboot
  · rw [if_pos multiboot]
    by_cases full : mbCmdlineBuflen < state.mbCmdline + (arg.length + 1)
    · rw [if_pos full]
      exact ⟨⟨sound.keeps rfl rfl sound.texts sound.kernelText, kept.ends, kept.behind⟩,
        fun _ => rfl⟩
    rw [if_neg full]
    have room : state.mbCmdline + (arg.length + 1) ≤ mbCmdlineBuflen := Nat.le_of_not_lt full
    have may := may multiboot room
    obtain ⟨after, aligned, small⟩ := pageBoundary_spec may.aligns
    have ends := kept.ends multiboot
    have behind := kept.behind multiboot
    have copied : ModulesKept program.cmdlineBuf
        { state with
          memory := copyArg program.cmdlineBuf state.memory state.mbCmdline arg
          curAddr := pageBoundary state.curAddr } :=
      ⟨sound.keeps rfl rfl
        (fun entry isIn => (sound.texts entry isIn).copyArg room (.inl (may.args entry isIn)))
        fun _ => (sound.kernelText multiboot).copyArg room
          (.inl (by have := may.kernelArg; omega)),
        fun _ => Nat.le_trans ends after,
        fun _ entry isIn => Nat.le_trans (behind entry isIn) after⟩
    cases opening with
    | error errnum =>
        exact ⟨⟨copied.toModulesSound.keeps rfl rfl copied.texts copied.kernelText, copied.ends,
          copied.behind⟩, fun _ => rfl⟩
    | ok file =>
        exact readModule_keeps copied multiboot (holdsText_copyArg room) aligned (may.slot file rfl)
          (may.ends file rfl) (may.off file rfl) (may.spares file rfl) (may.whole file rfl)
  · rw [if_neg multiboot]
    exact ⟨⟨sound.keeps rfl rfl sound.texts sound.kernelText, kept.ends, kept.behind⟩, fun _ => rfl⟩

/-- One command that may run is sound and keeps what later ones rely on. -/
theorem runCommand_keeps {command : BootCommand program.own}
    (kept : ModulesKept program.cmdlineBuf state) (may : MayCommand program state command) :
    ModulesKept program.cmdlineBuf (afterCommand program state command) ∧
      CommandSound program state command := by
  have keeps : ModulesKept program.cmdlineBuf (afterCommand program state command) ∧
      ((runCommand program state command).2 = false →
        (afterCommand program state command).mods = state.mods) := by
    have sound := kept.toModulesSound
    cases command with
    | kernel command => exact kernelFunc_keeps kept may
    | module arg opening => exact moduleFunc_keeps kept may
    | initBuiltins => exact ⟨⟨sound.keeps rfl rfl sound.texts nofun, nofun, nofun⟩, fun _ => rfl⟩
    | shellLeft => exact ⟨⟨sound.keeps rfl rfl sound.texts nofun, nofun, nofun⟩, fun _ => rfl⟩
  exact ⟨keeps.1, fun _ => keeps.1.toModulesSound, keeps.2, keeps.1.texts⟩

end Commands

/-- GRUB before the first command. -/
def MultibootState.initial (memory : Memory) (curAddr : Nat) : MultibootState where
  errnum := .none
  memory := memory
  kernelType := .none
  mbCmdline := 0
  curAddr := curAddr
  mods := []
  kernelArg := []
  kernelEnd := 0

/-- In every sequence of commands that may all run, each leaves the list of modules sound,
or if it fails as it found it, and the arguments in it where they are. -/
theorem commands_sound (program : Program) (memory : Memory) (curAddr : Nat)
    {commands : List (BootCommand program.own)}
    (may : Along (afterCommand program) (MayCommand program) (.initial memory curAddr)
      commands) :
    Along (afterCommand program) (CommandSound program) (.initial memory curAddr) commands := by
  refine Along.of_invariant (ModulesKept program.cmdlineBuf)
    (fun state command kept isMay => (runCommand_keeps kept isMay).1)
    (fun state command kept isMay => (runCommand_keeps kept isMay).2) ?_ may
  exact ⟨modulesSound_nil rfl nofun, nofun, nofun⟩

/-- A program below 1 MiB, with MB_CMDLINE_BUF in front of it. -/
def lowProgram : Program where
  cmdlineBuf := 0x2000
  own := lowMegabyte
  overrun := id

/-- Memory above MB_CMDLINE_BUF. -/
theorem offCmdline_above {cmdlineBuf : Address} {start length : Nat}
    (above : cmdlineBuf.toNat + mbCmdlineBuflen ≤ start) (fits : start + length ≤ 2 ^ 32) :
    OffCmdline cmdlineBuf (BitVec.ofNat 32 start) length := by
  intro address inside other
  rw [mbCmdlineBuflen] at above inside
  rw [InRegion] at inside other
  bv_omega

/-- A `kernel` command for the kernel of two segments. -/
def plainKernel : KernelCommand lowMegabyte where
  arg := ascii "/k"
  opening := .ok (plainFile segmentKernel (by decide +kernel))
  allocates := fun _ => true
  uart := some 0
  stack := lowStack

/-- A `module` command for a module of one byte. -/
def plainModule {own : Address → Bool} : BootCommand own :=
  .module (ascii "/m") (.ok (plainFile [7] (by decide)))

/-- The state after the kernel. -/
def afterKernel : MultibootState :=
  afterCommand lowProgram (.initial (fun _ => 0) 0) (.kernel plainKernel)

/-- The kernel of two segments may be loaded. -/
theorem kernelFile_segmentKernel : KernelFile lowProgram segmentKernel := by
  have two : loadPhdrs segmentKernel =
      [⟨ptLoad, 128, 0x100000, 4, 8⟩, ⟨ptLoad, 132, 0x100010, 2, 2⟩] := by decide +kernel
  have length : segmentKernel.length = 134 := by decide +kernel
  refine ⟨by decide +kernel, ?_, ?_, ?_, ?_, ⟨?_, ?_⟩⟩
  · rw [two, List.forall_mem_cons, List.forall_mem_singleton]
    exact ⟨⟨.inr (by rw [length]; decide), by decide, by decide⟩,
      ⟨.inr (by rw [length]; decide), by decide, by decide⟩⟩
  · exact offCmdline_above (by decide) (by rw [length]; decide)
  · rw [two, List.forall_mem_cons, List.forall_mem_singleton]
    exact ⟨offCmdline_above (by decide) (by decide), offCmdline_above (by decide) (by decide)⟩
  · rw [two, List.forall_mem_cons, List.forall_mem_singleton]
    exact ⟨@offCmdline_above 0x2000 0x100004 4 (by decide) (by decide),
      @offCmdline_above 0x2000 0x100012 0 (by decide) (by decide)⟩
  · intro address inside
    rw [length] at inside
    exact lowMemory_above (by decide) (by decide) inside
  · rw [two, List.forall_mem_cons, List.forall_mem_singleton]
    exact ⟨fun _ inside => lowMemory_above (by decide) (by decide) inside,
      fun _ inside => lowMemory_above (by decide) (by decide) inside⟩

/-- What the kernel leaves. -/
theorem afterKernel_state : afterKernel.kernelType = .multiboot ∧ afterKernel.mods = [] ∧
    afterKernel.mbCmdline = 3 ∧ afterKernel.kernelArg.length = 2 ∧
      afterKernel.curAddr = 0x100012 := by
  decide +kernel

/-- A plain kernel with a plain module is loaded soundly. -/
theorem commands_sound_plain :
    Along (afterCommand lowProgram) (CommandSound lowProgram) (.initial (fun _ => 0) 0)
      [.kernel plainKernel, plainModule] := by
  obtain ⟨_, mods, mbCmdline, kernelArg, curAddr⟩ := afterKernel_state
  have isPage : pageBoundary afterKernel.curAddr = 0x101000 := by
    rw [curAddr]
    decide
  have mayModule : MayLoadModule lowProgram afterKernel (.ok (plainFile [7] (by decide))) := by
    refine ⟨?_, ?_, ?_, ?_, ?_, ?_, ?_, ?_⟩
    · rw [kernelArg, mbCmdline]
    · rw [mods]
      exact fun _ isIn => absurd isIn List.not_mem_nil
    · rw [curAddr]
      decide
    · intro _ _ _
      rw [mods]
      decide
    · rintro file ⟨⟩
      rw [isPage]
      decide
    · rintro file ⟨⟩
      rw [isPage]
      exact offCmdline_above (by decide) (by decide)
    · rintro file ⟨⟩ address inside
      rw [isPage] at inside
      exact lowMemory_above (by decide) (by decide) inside
    · rintro file ⟨⟩ failed
      exact absurd rfl failed
  refine commands_sound lowProgram (fun _ => 0) 0 ⟨fun _ => ⟨?_, ?_, fun _ _ => rfl, ?_⟩,
    fun _ _ => mayModule, trivial⟩
  · rintro file ⟨⟩
    exact readsStart_plainFile _
  · rintro file ⟨⟩ _
    exact kernelFile_segmentKernel
  · exact fun _ _ isIn => absurd isIn List.not_mem_nil

/-- A module of one byte is loaded to the next page whatever there is already. -/
theorem plainModule_loads {state : MultibootState} (multiboot : state.kernelType = .multiboot)
    (room : state.mbCmdline + 3 ≤ mbCmdlineBuflen) (above : 0x100000 ≤ state.curAddr)
    (below : state.curAddr < 2 ^ 31) :
    (runCommand lowProgram state plainModule).2 = true ∧
      (afterCommand lowProgram state plainModule).kernelType = .multiboot ∧
        (afterCommand lowProgram state plainModule).mbCmdline = state.mbCmdline + 3 ∧
          (afterCommand lowProgram state plainModule).mods.length = state.mods.length + 1 ∧
            (afterCommand lowProgram state plainModule).curAddr =
              pageBoundary state.curAddr + 1 := by
  have notFull : ¬ mbCmdlineBuflen < state.mbCmdline + ((ascii "/m").length + 1) :=
    Nat.not_lt_of_le room
  have small : pageBoundary state.curAddr ≤ state.curAddr + 0xFFF := by
    rw [pageBoundary]
    omega
  obtain ⟨after, _, _⟩ := @pageBoundary_spec state.curAddr (by omega)
  have run : runCommand lowProgram state plainModule =
      addModule
        { state with
          memory := copyArg 0x2000 state.memory state.mbCmdline (ascii "/m")
          curAddr := pageBoundary state.curAddr } (ascii "/m")
        (grubRead (plainFile [7] (by decide)) 0 (-1)) := by
    rw [← @readModule_of_spares lowProgram]
    · have isModule : runCommand lowProgram state plainModule =
          moduleFunc lowProgram state (ascii "/m") (.ok (plainFile [7] (by decide))) := rfl
      rw [isModule, moduleFunc, if_pos multiboot, if_neg notFull]
      rfl
    · intro address inside
      rw [plainFile_content, List.length_singleton] at inside
      refine lowMemory_above ?_ ?_ inside <;> rw [BitVec.toNat_ofNat] <;> dsimp only <;> omega
    · exact fun failed => absurd rfl failed
  have modEnd : toUInt32 (pageBoundary state.curAddr + 1) = pageBoundary state.curAddr + 1 := by
    exact_mod_cast @toUInt32_of_range (pageBoundary state.curAddr + 1) (by omega)
  rw [afterCommand, run]
  exact ⟨rfl, multiboot, rfl, List.length_append, modEnd⟩

/-- After `n` of them there are `n` more modules. -/
theorem plainModules_load {state : MultibootState} (multiboot : state.kernelType = .multiboot)
    (n : Nat) (room : state.mbCmdline + 3 * n ≤ mbCmdlineBuflen)
    (above : 0x100000 ≤ state.curAddr) (below : state.curAddr + n * 0x1000 < 2 ^ 31) :
    (runOps (afterCommand lowProgram) state (List.replicate n plainModule)).kernelType =
        .multiboot ∧
      (runOps (afterCommand lowProgram) state (List.replicate n plainModule)).mbCmdline =
          state.mbCmdline + 3 * n ∧
        (runOps (afterCommand lowProgram) state (List.replicate n plainModule)).mods.length =
            state.mods.length + n ∧
          0x100000 ≤ (runOps (afterCommand lowProgram) state
            (List.replicate n plainModule)).curAddr ∧
            (runOps (afterCommand lowProgram) state (List.replicate n plainModule)).curAddr ≤
              state.curAddr + n * 0x1000 := by
  induction n generalizing state with
  | zero => exact ⟨multiboot, rfl, rfl, above, Nat.le_refl _⟩
  | succ n ih =>
      obtain ⟨after, _, _⟩ := @pageBoundary_spec state.curAddr (by omega)
      obtain ⟨_, loaded, moved, longer, higher⟩ :=
        plainModule_loads multiboot (Nat.le_trans (by omega) room) above (by omega)
      have small : pageBoundary state.curAddr ≤ state.curAddr + 0xFFF := by
        rw [pageBoundary]
        omega
      have room' : state.mbCmdline + 3 + 3 * n ≤ mbCmdlineBuflen := by omega
      have above' : 0x100000 ≤ pageBoundary state.curAddr + 1 := by omega
      have below' : pageBoundary state.curAddr + 1 + n * 0x1000 < 2 ^ 31 := by omega
      rw [← moved] at room'
      rw [← higher] at above' below'
      obtain ⟨last, cursor, length, low, high⟩ := ih loaded room' above' below'
      rw [List.replicate_succ, runOps_cons]
      refine ⟨last, ?_, ?_, low, ?_⟩
      · rw [cursor, moved]
        omega
      · rw [length, longer]
        omega
      · rw [higher] at high
        omega

/-- The list takes more modules than `mll` has room for. -/
theorem commands_overflow_mll :
    ¬ ∀ (program : Program) (memory : Memory) (curAddr : Nat)
      (commands : List (BootCommand program.own)),
      Along (afterCommand program) (CommandSound program) (.initial memory curAddr) commands := by
  intro sound
  obtain ⟨multiboot, mods, mbCmdline, _, curAddr⟩ := afterKernel_state
  have all := along_iff_starts.mp (sound lowProgram (fun _ => 0) 0
    (.kernel plainKernel :: (List.replicate 99 plainModule ++ [plainModule])))
  have last := all (.kernel plainKernel :: List.replicate 99 plainModule) plainModule [] rfl
  rw [runOps_cons] at last
  change CommandSound lowProgram (runOps _ afterKernel _) plainModule at last
  obtain ⟨loaded, cursor, length, low, high⟩ := @plainModules_load afterKernel multiboot 99
    (by rw [mbCmdline]; decide) (by rw [curAddr]; decide) (by rw [curAddr]; decide)
  rw [curAddr] at high
  obtain ⟨succeeds, _, _, longer, _⟩ := plainModule_loads loaded
    (by rw [cursor, mbCmdline]; decide) low (by omega)
  have count := (last.succeeds succeeds).count
  rw [longer, length, mods] at count
  exact absurd count (by decide)

end GrubLegacy.Loader
