import GrubLegacy.Base.Runs
import GrubLegacy.Loader.ModuleList
import GrubLegacy.Menu.Builtins
import GrubLegacy.Stage2.GzipFiles

/-!
# The decompression mode

The commands that set `no_decompression`, and those that may enter a recovery shell, which has
commands of its own and goes on with the command that entered it when it is left. A run is the list
of what happens to GRUB.
-/

namespace GrubLegacy.Gunzip

open Base CStrings Stage2 Loader Menu

/-! ## The commands -/

/-- What a command that has entered the recovery shell still does when the shell is left. -/
inductive Unfinished where
  | nothing
  | modulenounzip
  | kernel (returned : KernelType) (len : Nat)
deriving DecidableEq

/-- The variables that the commands share; `mb_cmdline` is a place in its buffer. The commands that
wait for a recovery shell to be left are in `shells`, the last one first. -/
structure CommandState where
  errnum : GrubError
  kernelType : KernelType
  mbCmdline : Nat
  clnLinuxSpi : Bool
  clnInitrdSpi : Bool
  noDecompression : Bool
  shells : List Unfinished

/-- The state after a function was called, and what it still does if it has entered the recovery
shell. -/
structure Called where
  state : CommandState
  unfinished : Option Unfinished

/-- A function returns. -/
def CommandState.done (state : CommandState) : Called := { state, unfinished := none }

def CommandState.fail (state : CommandState) (errnum : GrubError) : Called :=
  { state := { state with errnum }, unfinished := none }

/-- `init_builtins` -/
def initBuiltins (state : CommandState) : CommandState :=
  { state with kernelType := .none, mbCmdline := 0 }

/-- `grub_cln_recovery_shell`, which keeps the error. -/
def grubClnRecoveryShell (state : CommandState) (unfinished : Unfinished) : Called :=
  { state := initBuiltins state, unfinished := some unfinished }

/-- How `grub_load_initrd` or `load_module` ends. -/
structure LoadResult where
  returned : Bool
  errnum : GrubError

/-- How `grub_load_linux` or `grub_load_multiboot` ends. -/
structure KernelResult where
  returned : KernelType
  errnum : GrubError

/-- `load_initrd` -/
def loadInitrd (state : CommandState) (spi : Bool) (load : LoadResult) : Called :=
  let state :=
    { state with noDecompression := true, clnInitrdSpi := spi, errnum := load.errnum }
  if load.errnum = .none then state.done else grubClnRecoveryShell state .nothing

/-- The kernels that an initrd can be loaded for. -/
def takesInitrd (kernelType : KernelType) : Bool :=
  kernelType = .linux || kernelType = .bigLinux

/-- The option `--spi` of `initrd`. -/
def initrdOptions : (fuel : Nat) → (spi : Bool) → (arg : List UInt8) → Bool
  | 0, spi, _ => spi
  | fuel + 1, spi, arg =>
    if (ascii "--spi").isPrefixOf arg then initrdOptions fuel true (skipTo false arg) else spi

/-- `initrd_func` -/
def initrdFunc (state : CommandState) (arg : List UInt8) (load : LoadResult) : Called :=
  if takesInitrd state.kernelType then
    loadInitrd state (initrdOptions arg.length false arg) load
  else state.fail .needLxKernel

/-- `module_func`, for the result of what it loads. -/
def moduleFunc (state : CommandState) (arg : List UInt8) (load : LoadResult) : Called :=
  if state.kernelType = .multiboot then
    if mbCmdlineBuflen < state.mbCmdline + arg.length + 1 then state.fail .wontFit
    else
      { state with
        errnum := load.errnum
        mbCmdline :=
          if load.returned then state.mbCmdline + arg.length + 1 else state.mbCmdline }.done
  else if takesInitrd state.kernelType then loadInitrd state false load
  else state.fail .needMbKernel

/-- `modulenounzip_func` -/
def modulenounzipFunc (state : CommandState) (arg : List UInt8) (load : LoadResult) : Called :=
  let called := moduleFunc { state with noDecompression := true } arg load
  match called.unfinished with
  | none => { called.state with noDecompression := false }.done
  | some _ => { called with unfinished := some .modulenounzip }

/-- The names behind `--type=`. -/
def kernelTypes : List (List UInt8 × KernelType) :=
  [(ascii "netbsd", .netBsd), (ascii "freebsd", .freeBsd), (ascii "openbsd", .netBsd),
    (ascii "linux", .linux), (ascii "biglinux", .bigLinux), (ascii "multiboot", .multiboot)]

structure KernelOptions where
  suggestedType : KernelType
  spi : Bool
  arg : List UInt8

/-- The options of `kernel`; nothing for a type that is not known. -/
def kernelOptions : (fuel : Nat) → KernelOptions → Option KernelOptions
  | 0, options => some options
  | fuel + 1, options =>
    if (ascii "--type=").isPrefixOf options.arg then
      let arg := options.arg.drop 7
      match kernelTypes.find? (fun known => known.1.isPrefixOf arg) with
      | none => none
      | some known =>
        kernelOptions fuel { options with suggestedType := known.2, arg := skipTo false arg }
    else if (ascii "--no-mem-option").isPrefixOf options.arg then
      kernelOptions fuel { options with arg := skipTo false options.arg }
    else if (ascii "--spi").isPrefixOf options.arg then
      kernelOptions fuel { options with spi := true, arg := skipTo false options.arg }
    else some options

/-- The end of `kernel_func`. -/
def kernelLoaded (state : CommandState) (returned : KernelType) (len : Nat) : CommandState :=
  { state with
    kernelType := returned
    mbCmdline := if returned = .none then state.mbCmdline else state.mbCmdline + len + 1 }

/-- `load_image` and the end of `kernel_func`. Kernels of the other types are not loaded. -/
def loadImage (state : CommandState) (options : KernelOptions) (load : KernelResult) : Called :=
  let load :=
    if options.suggestedType = .none ∨ options.suggestedType = .multiboot then load
    else { returned := .none, errnum := state.errnum }
  let state := { state with clnLinuxSpi := options.spi, errnum := load.errnum }
  if load.errnum = .none then (kernelLoaded state load.returned options.arg.length).done
  else grubClnRecoveryShell state (.kernel load.returned options.arg.length)

/-- `kernel_func` -/
def kernelFunc (state : CommandState) (arg : List UInt8) (load : KernelResult) : Called :=
  match kernelOptions arg.length { suggestedType := .none, spi := false, arg } with
  | none => state.fail .badArgument
  | some options =>
    let state := { state with mbCmdline := 0 }
    if mbCmdlineBuflen < options.arg.length + 1 then state.fail .wontFit
    else loadImage state options load

/-- What another command does to the variables, which is anything but to touch
`no_decompression`. -/
structure OtherResult where
  errnum : GrubError
  kernelType : KernelType
  mbCmdline : Nat
  entersShell : Bool

def otherFunc (state : CommandState) (result : OtherResult) : Called :=
  let state :=
    { state with
      errnum := result.errnum, kernelType := result.kernelType, mbCmdline := result.mbCmdline }
  if result.entersShell then grubClnRecoveryShell state .nothing else state.done

/-- A command with its argument and the result of what it loads. -/
inductive Command where
  | kernel (arg : List UInt8) (load : KernelResult)
  | initrd (arg : List UInt8) (load : LoadResult)
  | module (arg : List UInt8) (load : LoadResult)
  | modulenounzip (arg : List UInt8) (load : LoadResult)
  | other (result : OtherResult)

/-- The function of the builtin. -/
def Command.call (state : CommandState) : Command → Called
  | .kernel arg load => kernelFunc state arg load
  | .initrd arg load => initrdFunc state arg load
  | .module arg load => moduleFunc state arg load
  | .modulenounzip arg load => modulenounzipFunc state arg load
  | .other result => otherFunc state result

/-! ## Runs -/

/-- What happens: the command line or a script is begun; it, or the menu, starts a command, or enters
the recovery shell for an error; the escape key leaves the last shell; or `configfile` starts GRUB
again, and nothing that waits is finished. -/
inductive Op where
  | begin
  | start (command : Command)
  | shell
  | escape
  | restart

/-- After a shell was left. -/
def finish (state : CommandState) : Unfinished → CommandState
  | .nothing => state
  | .modulenounzip => { state with noDecompression := false }
  | .kernel returned len => kernelLoaded state returned len

/-- The state after a call, where a function may wait. -/
def Called.waits (called : Called) : CommandState :=
  { called.state with shells := called.unfinished.toList ++ called.state.shells }

/-- No command is started with an error. -/
def step (state : CommandState) : Op → CommandState
  | .begin => initBuiltins { state with errnum := .none }
  | .start command => (command.call { state with errnum := .none }).waits
  | .shell => (grubClnRecoveryShell state .nothing).waits
  | .escape =>
    match state.shells with
    | [] => state
    | unfinished :: shells => finish { state with errnum := .none, shells } unfinished
  | .restart => { state with shells := [] }

/-- GRUB starts. -/
def CommandState.initial : CommandState where
  errnum := .none
  kernelType := .none
  mbCmdline := 0
  clnLinuxSpi := false
  clnInitrdSpi := false
  noDecompression := false
  shells := []

/-- The commands that ask for files as they are. -/
def Command.asksForRaw : Command → Bool
  | .initrd _ _ => true
  | .modulenounzip _ _ => true
  | _ => false

section Property

variable (inflateWindow : InflateWindow) (inflate : List UInt8 → Option (List UInt8))

/-- The mode is off, and a gzip file that is opened reads like its contents. -/
structure Decompresses (state : CommandState) : Prop where
  off : state.noDecompression = false
  reads : ∀ (gzip : GzipFile inflate) (file : OpenFile) (fileState : FileState),
    file.content = gzip.bytes → Readable file → fileState.errnum = .none →
      ReadsLike inflateWindow state.noDecompression file fileState gzip.plain

/-- Whenever a command starts that does not ask for raw files, it gets them decompressed. -/
def NeverLeaks (ops : List Op) : Prop :=
  Along step
    (fun state op => ∀ command, op = .start command → command.asksForRaw = false →
      Decompresses inflateWindow inflate state) .initial ops

end Property

/-- A step that calls `load_initrd`, whose mode is not taken back by `modulenounzip`, which does not
come to do it before a recovery shell is left. -/
def LeavesMode (state : CommandState) : Op → Prop
  | .start (.initrd _ _) => takesInitrd state.kernelType = true
  | .start (.module _ _) => takesInitrd state.kernelType = true
  | .start (.modulenounzip _ load) =>
    takesInitrd state.kernelType = true ∧ load.errnum ≠ .none
  | _ => False

/-! ## What a step does to the mode -/

section Mode

variable {state : CommandState} {arg : List UInt8}

/-- A command that is done leaves the state it has. -/
@[simp] theorem done_state (state : CommandState) : state.done.state = state := rfl

/-- A command that is done is finished. -/
@[simp] theorem done_unfinished (state : CommandState) : state.done.unfinished = none := rfl

/-- A failure leaves the mode. -/
@[simp] theorem fail_mode (state : CommandState) (errnum : GrubError) :
    (state.fail errnum).state.noDecompression = state.noDecompression := rfl

/-- A command that fails is finished. -/
@[simp] theorem fail_unfinished (state : CommandState) (errnum : GrubError) :
    (state.fail errnum).unfinished = none := rfl

/-- The recovery shell leaves the mode. -/
@[simp] theorem shell_mode (state : CommandState) (unfinished : Unfinished) :
    (grubClnRecoveryShell state unfinished).state.noDecompression = state.noDecompression := rfl

/-- A command that waits leaves the mode it has. -/
@[simp] theorem waits_mode (called : Called) :
    called.waits.noDecompression = called.state.noDecompression := rfl

/-- Loading an initrd turns decompression off. -/
theorem loadInitrd_mode (state : CommandState) (spi : Bool) (load : LoadResult) :
    (loadInitrd state spi load).state.noDecompression = true := by
  rw [loadInitrd]
  split <;> rfl

/-- It returns just when the load has no error. -/
theorem loadInitrd_returns_iff (state : CommandState) (spi : Bool) (load : LoadResult) :
    (loadInitrd state spi load).unfinished = none ↔ load.errnum = .none := by
  rw [loadInitrd]
  split
  next success => exact iff_of_true rfl success
  next failed => exact iff_of_false nofun failed

/-- `module` loads an initrd for a kernel that takes one, and leaves the mode alone otherwise. -/
theorem moduleFunc_initrd (takes : takesInitrd state.kernelType = true) (load : LoadResult) :
    moduleFunc state arg load = loadInitrd state false load := by
  have other : state.kernelType ≠ .multiboot := by
    rintro multiboot
    rw [multiboot] at takes
    exact absurd takes (by decide)
  rw [moduleFunc, if_neg other, if_pos takes]

/-- A module for a multiboot kernel leaves the mode, and returns. -/
theorem moduleFunc_mode (takesNot : takesInitrd state.kernelType = false) (load : LoadResult) :
    (moduleFunc state arg load).state.noDecompression = state.noDecompression ∧
      (moduleFunc state arg load).unfinished = none := by
  rw [moduleFunc]
  split
  next multiboot =>
    split
    next full => simp
    next room => simp
  next other => simp [takesNot]

/-- `kernel` leaves the mode. -/
theorem kernelFunc_mode (load : KernelResult) :
    (kernelFunc state arg load).state.noDecompression = state.noDecompression := by
  have image : ∀ (state : CommandState) options load,
      (loadImage state options load).state.noDecompression = state.noDecompression := by
    intro state options load
    simp only [loadImage]
    split <;> split <;> rfl
  rw [kernelFunc]
  cases kernelOptions arg.length { suggestedType := .none, spi := false, arg } with
  | none => rfl
  | some options =>
      dsimp only
      split
      next long => rfl
      next short => rw [image]

/-- The commands that have nothing to do with it leave the mode. -/
theorem otherFunc_mode (result : OtherResult) :
    (otherFunc state result).state.noDecompression = state.noDecompression := by
  simp only [otherFunc]
  split <;> rfl

/-- `modulenounzip` takes the mode back unless it waits for a recovery shell. -/
theorem modulenounzipFunc_mode (load : LoadResult) :
    (modulenounzipFunc state arg load).state.noDecompression = true ↔
      takesInitrd state.kernelType = true ∧ load.errnum ≠ .none := by
  have returns : (modulenounzipFunc state arg load).state.noDecompression = true ↔
      (moduleFunc { state with noDecompression := true } arg load).unfinished ≠ none ∧
        (moduleFunc { state with noDecompression := true } arg load).state.noDecompression = true := by
    rw [modulenounzipFunc]
    cases unfinished : (moduleFunc { state with noDecompression := true } arg load).unfinished with
    | none => simp
    | some rest => simp
  rw [returns]
  cases takes : takesInitrd state.kernelType with
  | false => simp [@moduleFunc_mode { state with noDecompression := true } arg takes load]
  | true =>
      rw [@moduleFunc_initrd { state with noDecompression := true } arg takes load, loadInitrd_mode,
        ne_eq, loadInitrd_returns_iff]
      simp

/-- With the mode off before, `initrd` turns it on just when the kernel takes an initrd. -/
theorem initrdFunc_mode (off : state.noDecompression = false) (load : LoadResult) :
    (initrdFunc state arg load).state.noDecompression = takesInitrd state.kernelType := by
  rw [initrdFunc]
  split
  next takes => rw [loadInitrd_mode, takes]
  next takesNot => rw [fail_mode, off, Bool.eq_false_iff.mpr takesNot]

/-- A command leaves the mode on just when it is one that leaks it. -/
theorem call_mode (off : state.noDecompression = false) (command : Command) :
    (command.call state).state.noDecompression = true ↔ LeavesMode state (.start command) := by
  cases command with
  | kernel arg load => simp [Command.call, LeavesMode, kernelFunc_mode, off]
  | initrd arg load => simp [Command.call, LeavesMode, initrdFunc_mode off]
  | module arg load =>
      cases takes : takesInitrd state.kernelType with
      | true => simp [Command.call, LeavesMode, moduleFunc_initrd takes, loadInitrd_mode, takes]
      | false => simp [Command.call, LeavesMode, moduleFunc_mode takes, takes, off]
  | modulenounzip arg load => exact modulenounzipFunc_mode load
  | other result => simp [Command.call, LeavesMode, otherFunc_mode, off]

/-- A step sets the mode just if it leaves it set. -/
theorem step_mode (off : state.noDecompression = false) (op : Op) :
    (step state op).noDecompression = true ↔ LeavesMode state op := by
  cases op with
  | begin => simp [step, initBuiltins, LeavesMode, off]
  | start command => exact @call_mode { state with errnum := .none } off command
  | shell => simp [step, LeavesMode, off]
  | escape =>
      cases shells : state.shells with
      | nil => simp [step, shells, LeavesMode, off]
      | cons unfinished shells =>
          cases unfinished <;> simp [step, shells, finish, kernelLoaded, LeavesMode, off]
  | restart => simp [step, LeavesMode, off]

/-- In a run whose steps do not leave the mode set it is never found set. -/
theorem runOps_mode {ops : List Op} (off : state.noDecompression = false)
    (keeps : Along step (fun state op => ¬ LeavesMode state op) state ops) :
    (runOps step state ops).noDecompression = false := by
  refine Along.invariant_end (fun state => state.noDecompression = false) ?_ off keeps
  intro state op off keeps
  rw [← Bool.not_eq_true, step_mode off]
  exact keeps

end Mode

/-- If the mode is off before every step, no step leaks it. -/
theorem along_of_mode {state : CommandState} {ops : List Op}
    (off : ∀ before after, ops = before ++ after →
      (runOps step state before).noDecompression = false) :
    Along step (fun state op => ¬ LeavesMode state op) state ops := by
  rw [along_iff_starts]
  rintro before op after rfl leaves
  rw [← step_mode (off before (op :: after) rfl)] at leaves
  have later := off (before ++ [op]) after (by simp)
  rw [runOps_append, runOps_cons, runOps_nil, leaves] at later
  cases later

/-- The commands that are started anywhere in a run find the mode off, and gzip files that they open
decompressed, if and only if no step of the run has left it set. -/
theorem neverLeaks_iff {inflateWindow : InflateWindow} {inflate : List UInt8 → Option (List UInt8)}
    (inflates : Inflates inflateWindow inflate) (ops : List Op) :
    (∀ before after command, ops = before ++ after →
        NeverLeaks inflateWindow inflate (before ++ [.start command])) ↔
      Along step (fun state op => ¬ LeavesMode state op) .initial ops := by
  constructor
  · intro never
    refine along_of_mode fun before after split => ?_
    have last := never before after (.other ⟨.none, .none, 0, false⟩) split
    rw [NeverLeaks, along_iff_starts] at last
    exact (last before _ [] rfl _ rfl rfl).off
  · rintro keeps before after command rfl
    have decompresses : ∀ state : CommandState, state.noDecompression = false →
        Decompresses inflateWindow inflate state := by
      rintro state off
      refine ⟨off, fun gzip file fileState content readable clear => ?_⟩
      rw [off]
      exact readsLike_gzip inflates gzip content readable clear
    have kept := (along_append.mp keeps).1
    have off := runOps_mode rfl kept
    refine along_append.mpr ⟨?_, fun _ _ _ => decompresses _ off, trivial⟩
    refine Along.of_invariant (fun state => state.noDecompression = false) ?_ ?_ rfl kept
    · intro state op off stays
      rw [← Bool.not_eq_true, step_mode off]
      exact stays
    · exact fun state op off _ _ _ _ => decompresses state off

/-! ## A leak -/

/-- The contents of a stream of one block that is stored as it is. -/
def storedContents : List UInt8 → Option (List UInt8)
  | 1 :: low :: high :: _ :: _ :: block =>
    if halfAt [low, high] 0 ≤ block.length then some (block.take (halfAt [low, high] 0)) else none
  | _ => none

/-- The windows of what a stream decompresses to. -/
def windowOf (inflate : List UInt8 → Option (List UInt8)) : InflateWindow :=
  fun file gzipDataOffset calls =>
    let contents := (inflate (file.content.drop gzipDataOffset.toNat)).getD []
    { slide := (contents.drop (calls * wsize)).take wsize
      filepos := file.content.length
      errnum := .none
      finished := true }

/-- A window of what is inflated gives its bytes. -/
theorem inflates_windowOf (inflate : List UInt8 → Option (List UInt8)) :
    Inflates (windowOf inflate) inflate := by
  rintro file offset contents - isStream k -
  simp [windowOf, isStream]

/-- A file with two bytes. -/
def storedGzip : GzipFile storedContents where
  flags := 0
  info := [0, 0, 0, 0, 0, 3]
  extra := []
  name := []
  comment := []
  deflated := [1, 2, 0, 0xFD, 0xFF, 0x68, 0x69]
  crc := [0xAC, 0x2A, 0x93, 0xD8]
  contents := [0x68, 0x69]
  supported := by decide
  infoSize := rfl
  extraShort := by decide
  nameFree := by simp [NulFree]
  commentFree := by simp [NulFree]
  crcSize := rfl
  decompressed := rfl
  small := by decide

/-- A Linux kernel is loaded, and its initrd. -/
def loadedInitrd : List Op :=
  [.start (.kernel (ascii "/bzImage") ⟨.bigLinux, .none⟩),
    .start (.initrd (ascii "/initrd") ⟨true, .none⟩)]

/-- The file of a memory that does not fail. -/
def storedFile : OpenFile := plainFile storedGzip.bytes (by decide)

/-- The variables before a file is opened. -/
def noFile : FileState :=
  ⟨0, 0, 0, false, 0, 0, 0, 0, 0, 0, [], 0, .none⟩

/-- Modules of a multiboot kernel never leak the mode, and the next file is read as it should
be. -/
theorem neverLeaks_multiboot :
    NeverLeaks (windowOf storedContents) storedContents
        ([.start (.kernel (ascii "--type=multiboot /kernel") ⟨.multiboot, .none⟩),
            .start (.modulenounzip (ascii "/module.gz") ⟨true, .none⟩)] ++
          [.start (.module (ascii "/module.gz") ⟨true, .none⟩)]) ∧
      ReadsLike (windowOf storedContents) false storedFile noFile storedGzip.plain := by
  have never : NeverLeaks (windowOf storedContents) storedContents
      ([.start (.kernel (ascii "--type=multiboot /kernel") ⟨.multiboot, .none⟩),
          .start (.modulenounzip (ascii "/module.gz") ⟨true, .none⟩)] ++
        [.start (.module (ascii "/module.gz") ⟨true, .none⟩)]) := by
    refine (neverLeaks_iff (inflates_windowOf storedContents) _).mpr ?_ _ [] _
      (List.append_nil _).symm
    refine ⟨not_false, ?_, trivial⟩
    rintro ⟨takes, -⟩
    revert takes
    decide
  refine ⟨never, ?_⟩
  have last := (along_append.mp never).2.1 _ rfl rfl
  have reads := last.reads storedGzip storedFile noFile rfl ⟨by decide, fun _ _ => rfl⟩ rfl
  rwa [last.off] at reads

/-- `cat` is started after an initrd was loaded, and shows a gzip file as it is. -/
theorem neverLeaks_initrd :
    ¬ NeverLeaks (windowOf storedContents) storedContents
        (loadedInitrd ++ [.start (.other ⟨.none, .bigLinux, 0, false⟩)]) ∧
      ¬ ReadsLike (windowOf storedContents) (runOps step .initial loadedInitrd).noDecompression
        storedFile noFile storedGzip.plain := by
  have set : (runOps step .initial loadedInitrd).noDecompression = true := by decide
  constructor
  · intro never
    have last := (along_append.mp never).2.1 _ rfl rfl
    exact Bool.false_ne_true (last.off.symm.trans set)
  · rw [set]
    rintro ⟨-, reads⟩
    have first := reads [.read 1]
    revert first
    decide

end GrubLegacy.Gunzip
