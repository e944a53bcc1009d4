import GrubLegacy.Base.PageLedger
import GrubLegacy.Base.Runs
import GrubLegacy.Loader.Linux

/-!
# The pages of the loader

Which pages the loads of `linux.c` and the memory map of `efimm.c` ask the firmware for and
give back, as a machine that takes one answer at a time: a command, an answer of the
firmware, or how the rest of a load ends. Beside the variables of the source it keeps the
ledger of what the firmware gave out.
-/

namespace GrubLegacy.Loader

open Base Efi Clanton

/-! ## The state -/

/-- What pages are allocated for. -/
inductive PagePurpose where
  | realMode
  | protMode
  | initrd
  | memoryMap
deriving DecidableEq, Repr

/-- `allocated_pages`: where the table is, and the address in each of its places, 0 in one
that is not used. -/
structure PageTable where
  address : Nat
  places : List Nat
deriving DecidableEq

/-- Who waits for the memory map: a call of `grub_efi_get_memory_map` alone,
`allocate_pages`, or `grub_load_initrd` with the size of its pages and the limits for them. -/
inductive MapCaller where
  | direct
  | allocatePages (realSize : Nat)
  | loadInitrd (secure : Bool) (size initrdAddrMax linuxMemSize : Nat)
deriving DecidableEq

/-- Where control is: at the prompt, in the loop of `grub_efi_get_memory_map`, where
`grub_efi_allocate_pages` asks for pages, or behind the allocations of a load. -/
inductive LoadPhase where
  | idle
  | mapping (caller : MapCaller)
  | realPages (addr : Nat)
  | protPages
  | multibootPages
  | initrdPages (secure : Bool) (addr : Nat)
  | fillingLinux
  | fillingMultiboot
  | readingInitrd (secure : Bool)
deriving DecidableEq

/-- A call of the firmware's `get_memory_map`: the size and the buffer it was given, and
whether it reported a map. -/
structure MapRequest where
  size : Nat
  buffer : Nat
  reported : Bool
deriving DecidableEq

/-- The globals, where NULL is 0. `live` is what the firmware gave out, `strays` what
`free_pages` gave back though it was not given out like that, and `requests` are the calls
of `get_memory_map`, the latest first. -/
structure PagesState where
  phase : LoadPhase
  loaded : Bool
  realModeMem : Nat
  protModeMem : Nat
  initrdMem : Nat
  realModePages : Nat
  protModePages : Nat
  initrdPages : Nat
  mmapBuf : Nat
  mmapSize : Nat
  mmapPages : Nat
  allocatedPages : Option PageTable
  live : List (Holding PagePurpose)
  strays : List (Holding PagePurpose)
  requests : List MapRequest

/-- The load, or the call, is over. -/
def PagesState.goTo (state : PagesState) (phase : LoadPhase) : PagesState := { state with phase }

/-- A load failed. -/
def PagesState.fail (state : PagesState) : PagesState :=
  { state with phase := .idle, loaded := false }

/-! ## Allocating and freeing -/

/-- The table with an address entered, unless it is full. -/
def PageTable.enter (table : PageTable) (address : Nat) : Option PageTable :=
  (table.places.findIdx? (· = 0)).map fun i => { table with places := table.places.set i address }

/-- The table with an address taken out. -/
def PageTable.clear (table : PageTable) (address : Nat) : PageTable :=
  if table.address = address then table
  else
    match table.places.findIdx? (· = address) with
    | none => table
    | some i => { table with places := table.places.set i 0 }

/-- The end of `grub_efi_allocate_pages`: the firmware gave the pages out, and they are
entered into the table. NULL is returned when the table is full. -/
def recordPages (pages : Holding PagePurpose) (state : PagesState) : Nat × PagesState :=
  let state := { state with live := pages :: state.live }
  match state.allocatedPages with
  | none => (pages.range.start, state)
  | some table =>
    match table.enter pages.range.start with
    | none => (0, state)
    | some table => (pages.range.start, { state with allocatedPages := some table })

/-- `grub_efi_allocate_pages` for an address that is not 0. -/
def grubEfiAllocatePages (pages : Holding PagePurpose) (granted : Bool) (state : PagesState) :
    Nat × PagesState :=
  if 0x7FFFFFFF < pages.range.start then (0, state)
  else if granted then recordPages pages state
  else (0, state)

/-- Where the firmware put pages below 0x7fffffff, and where again if that was 0. -/
structure AnyPages where
  first : Option Nat
  second : Option Nat
deriving DecidableEq

/-- The pages that are kept. -/
def AnyPages.chosen (anyPages : AnyPages) : Option Nat :=
  anyPages.first.bind fun address => if address = 0 then anyPages.second else some address

/-- `grub_efi_allocate_pages (0, pages)`. Pages at 0 are given back at once. -/
def grubEfiAllocateAnyPages (purpose : PagePurpose) (pages : Nat) (anyPages : AnyPages)
    (state : PagesState) : Nat × PagesState :=
  match anyPages.chosen with
  | none => (0, state)
  | some address => recordPages ⟨purpose, address, pages⟩ state

/-- `grub_efi_free_pages` -/
def grubEfiFreePages (pages : Holding PagePurpose) (state : PagesState) : PagesState :=
  { state with
    allocatedPages := state.allocatedPages.map (·.clear pages.range.start)
    live := giveBack pages state.live }

/-- One of the steps of `free_pages`, for a variable that is not NULL. -/
def freeVariable (pages : Holding PagePurpose) (state : PagesState) : PagesState :=
  if pages.range.start = 0 then state
  else
    { grubEfiFreePages pages state with
      strays := if pages ∈ state.live then state.strays else pages :: state.strays }

/-- `free_pages` -/
def freePages (state : PagesState) : PagesState :=
  let state := { freeVariable ⟨.realMode, state.realModeMem, state.realModePages⟩ state with
    realModeMem := 0 }
  let state := { freeVariable ⟨.protMode, state.protModeMem, state.protModePages⟩ state with
    protModeMem := 0 }
  let state := { freeVariable ⟨.initrd, state.initrdMem, state.initrdPages⟩ state with
    initrdMem := 0 }
  { freeVariable ⟨.memoryMap, state.mmapBuf, state.mmapPages⟩ state with mmapBuf := 0 }

/-! ## The commands -/

/-- The initrd of a load that gets as far as to its size: whether the mode is secure, its
size, and the limits from the kernel header and the command line. -/
structure InitrdRequest where
  secure : Bool
  size : Nat
  initrdAddrMax : Nat
  linuxMemSize : Nat

/-- What is done at the prompt. A load that has no sizes fails before it looks for pages. -/
inductive LoadCommand where
  | getMemoryMap
  | freePages
  | loadLinux (sizes : Option (Nat × Nat))
  | loadMultiboot (filemax : Option Nat)
  | loadInitrd (request : Option InitrdRequest)

/-- `grub_load_linux` up to where `allocate_pages` needs the memory map. -/
def startLinux (realSize protSize : Nat) (state : PagesState) : PagesState :=
  let realSize := pageAlign (realSize + 512)
  { state with
    realModePages := realSize / pageSize
    protModePages := pageAlign protSize / pageSize
    realModeMem := 0
    protModeMem := 0
    initrdMem := 0
    phase := .mapping (.allocatePages realSize) }

/-- `grub_load_multiboot` up to where it asks for pages. -/
def startMultiboot (filemax : Nat) (state : PagesState) : PagesState :=
  { state with
    protModePages := filemax / pageSize
    realModePages := 0
    realModeMem := 0
    protModeMem := 0
    phase := .multibootPages }

/-- `grub_load_initrd` up to where it needs the memory map. -/
def startInitrd (request : InitrdRequest) (state : PagesState) : PagesState :=
  let size := (if request.secure then request.size + pageSize else request.size) % 2 ^ 32
  { state with
    initrdPages := pageAlign size / pageSize
    phase := .mapping
      (.loadInitrd request.secure size request.initrdAddrMax request.linuxMemSize) }

def startCommand (state : PagesState) : LoadCommand → PagesState
  | .getMemoryMap => state.goTo (.mapping .direct)
  | .freePages => freePages state
  | .loadLinux none => state.fail
  | .loadLinux (some (realSize, protSize)) => startLinux realSize protSize state
  | .loadMultiboot none => state.fail
  | .loadMultiboot (some filemax) => startMultiboot filemax state
  | .loadInitrd none => state
  | .loadInitrd (some request) => if state.loaded then startInitrd request state else state

/-! ## The memory map -/

/-- What the firmware's `get_memory_map` answers: the map, the size it needs, with where
a larger buffer is put then, or another error. -/
inductive MapAnswer where
  | success (size : Nat) (memoryMap : List MemoryDescriptor)
  | tooSmall (size : Nat) (anyPages : AnyPages)
  | failed

/-- The address for an initrd, by the search of its load. -/
def PagesState.initrdAddr (state : PagesState) (size initrdAddrMax linuxMemSize : Nat)
    (memoryMap : List MemoryDescriptor) : Nat :=
  findInitrdAddr
    { initrdAddrMax, linuxMemSize
      protModeMem := state.protModeMem
      protModePages := state.protModePages
      memoryMap := some memoryMap
      allocates := fun _ _ => true } size memoryMap

/-- Where a caller of `grub_efi_get_memory_map` goes on without a map. -/
def mapFailed (state : PagesState) : MapCaller → PagesState
  | .direct => state.goTo .idle
  | .allocatePages _ => state.fail
  | .loadInitrd .. => state.goTo .idle

/-- Where it goes on with one. -/
def mapReported (memoryMap : List MemoryDescriptor) (state : PagesState) : MapCaller → PagesState
  | .direct => state.goTo .idle
  | .allocatePages realSize =>
    match realModeAddr realSize memoryMap with
    | none => (freePages state).fail
    | some addr => state.goTo (.realPages addr)
  | .loadInitrd secure size initrdAddrMax linuxMemSize =>
    if state.initrdAddr size initrdAddrMax linuxMemSize memoryMap = 0 then state.goTo .idle
    else
      state.goTo (.initrdPages secure
        (state.initrdAddr size initrdAddrMax linuxMemSize memoryMap))

/-- PAGES_TO_BYTES (`mmap_pages`) -/
def PagesState.tmpMmapSize (state : PagesState) : Nat := state.mmapPages * 0x1000 % 2 ^ 32

/-- The pages for a memory map of some size, and one more. -/
def mapPages (size : Nat) : Nat := (size + 4095) % 2 ^ 32 / 0x1000 + 1

/-- The firmware is asked with the buffer there is. -/
def PagesState.request (state : PagesState) (reported : Bool) : PagesState :=
  { state with requests := ⟨state.tmpMmapSize, state.mmapBuf, reported⟩ :: state.requests }

/-- The buffer is given back, if there is one. -/
def dropBuffer (state : PagesState) : PagesState :=
  if state.mmapBuf = 0 then state
  else grubEfiFreePages ⟨.memoryMap, state.mmapBuf, state.mmapPages⟩ state

/-- A larger buffer is allocated. -/
def enlargeBuffer (size : Nat) (anyPages : AnyPages) (caller : MapCaller) (state : PagesState) :
    PagesState :=
  let (mmapBuf, state) :=
    grubEfiAllocateAnyPages .memoryMap (mapPages size) anyPages (dropBuffer state)
  if mmapBuf = 0 then mapFailed { state with mmapBuf := 0, mmapPages := 0 } caller
  else { state with mmapBuf, mmapPages := mapPages size }

/-- One turn of the loop of `grub_efi_get_memory_map`. -/
def mapTurn (caller : MapCaller) (state : PagesState) : MapAnswer → PagesState
  | .success size memoryMap =>
    mapReported memoryMap { state.request true with mmapSize := size } caller
  | .tooSmall size anyPages => enlargeBuffer size anyPages caller (state.request false)
  | .failed => mapFailed (state.request false) caller

/-! ## The rest of the loads -/

/-- The pages that are asked for. -/
def PagesState.asked (state : PagesState) : Option (Holding PagePurpose) :=
  match state.phase with
  | .realPages addr => some ⟨.realMode, addr, state.realModePages⟩
  | .protPages => some ⟨.protMode, grubLinuxBzimageAddr, state.protModePages⟩
  | .multibootPages => some ⟨.protMode, grubMultibootAddr, state.protModePages⟩
  | .initrdPages _ addr => some ⟨.initrd, addr, state.initrdPages⟩
  | _ => none

/-- The firmware grants the pages that are asked for, or refuses them. -/
def grantTurn (state : PagesState) (granted : Bool) : PagesState :=
  match state.phase with
  | .realPages addr =>
    let (realModeMem, state) :=
      grubEfiAllocatePages ⟨.realMode, addr, state.realModePages⟩ granted state
    if realModeMem = 0 then (freePages { state with realModeMem := 0 }).fail
    else { state with realModeMem, phase := .protPages }
  | .protPages =>
    let (protModeMem, state) :=
      grubEfiAllocatePages ⟨.protMode, grubLinuxBzimageAddr, state.protModePages⟩ granted state
    if protModeMem = 0 then (freePages { state with protModeMem := 0 }).fail
    else { state with protModeMem, phase := .fillingLinux }
  | .multibootPages =>
    let (protModeMem, state) :=
      grubEfiAllocatePages ⟨.protMode, grubMultibootAddr, state.protModePages⟩ granted state
    if protModeMem = 0 then (freePages { state with protModeMem := 0 }).fail
    else { state with protModeMem, phase := .fillingMultiboot }
  | .initrdPages secure addr =>
    let (initrdMem, state) :=
      grubEfiAllocatePages ⟨.initrd, addr, state.initrdPages⟩ granted state
    if initrdMem = 0 then { state with initrdMem := 0, phase := .idle }
    else
      { state with
        initrdMem := if secure then initrdMem + pageSize else initrdMem
        phase := .readingInitrd secure }
  | _ => state

/-- How the rest of a load ends. A secure initrd gives back the page of its header. -/
def endTurn (state : PagesState) (success : Bool) : PagesState :=
  match state.phase with
  | .fillingLinux => if success then { state with loaded := true, phase := .idle } else state.fail
  | .fillingMultiboot => if success then state.goTo .idle else state.fail
  | .readingInitrd secure =>
    if success && secure then
      (grubEfiFreePages ⟨.initrd, state.initrdMem - pageSize, 1⟩ state).goTo .idle
    else state.goTo .idle
  | _ => state

/-- What the machine is told. -/
inductive PagesInput where
  | command (command : LoadCommand)
  | map (answer : MapAnswer)
  | grant (granted : Bool)
  | finish (success : Bool)

/-- One turn; an input for another phase changes nothing. -/
def pagesTurn (state : PagesState) : PagesInput → PagesState
  | .command command => if state.phase = .idle then startCommand state command else state
  | .map answer =>
    match state.phase with
    | .mapping caller => mapTurn caller state answer
    | _ => state
  | .grant granted => grantTurn state granted
  | .finish success => endTurn state success

/-- At the start nothing is allocated but the table. -/
def freshPages (allocatedPages : Option PageTable) : PagesState :=
  { phase := .idle, loaded := false, realModeMem := 0, protModeMem := 0, initrdMem := 0
    realModePages := 0, protModePages := 0, initrdPages := 0, mmapBuf := 0, mmapSize := 0
    mmapPages := 0, allocatedPages, live := [], strays := [], requests := [] }

/-- The firmware as it is documented: it gives out some pages, apart from those that are
given out, a larger buffer below 2 GiB; the map is not empty and does not fill the address
space, and a buffer is too small just if it is smaller than the map. -/
def Documented (state : PagesState) : PagesInput → Prop
  | .command _ => True
  | .map (.success size _) => 0 < size ∧ size ≤ state.tmpMmapSize
  | .map (.tooSmall size anyPages) =>
    state.tmpMmapSize < size ∧ size + 4095 < 2 ^ 32 ∧ ∀ address ∈ anyPages.chosen,
      address ≠ 0 ∧ address + mapPages size * 0x1000 ≤ 2 ^ 31 ∧
        ∀ held ∈ (dropBuffer state).live, held.range.Apart ⟨address, mapPages size⟩
  | .map .failed => True
  | .grant granted => granted = true → ∀ pages ∈ state.asked,
      0 < pages.range.pages ∧ ∀ held ∈ state.live, held.range.Apart pages.range
  | .finish _ => True

instance (state : PagesState) : (input : PagesInput) → Decidable (Documented state input)
  | .command _ | .map .failed | .finish _ => inferInstanceAs (Decidable True)
  | .map (.success _ _) => inferInstanceAs (Decidable (_ ∧ _))
  | .map (.tooSmall _ _) => inferInstanceAs (Decidable (_ ∧ _))
  | .grant _ => inferInstanceAs (Decidable (_ → _))

/-- The states after documented answers of the firmware in turns that may happen. -/
inductive PagesRun (may : PagesState → PagesInput → Prop) (start : PagesState) :
    PagesState → Prop where
  | start : PagesRun may start start
  | turn {state : PagesState} {input : PagesInput} (before : PagesRun may start state)
      (documented : Documented state input) (allowed : may state input) :
      PagesRun may start (pagesTurn state input)

/-- The turns of a list. -/
theorem PagesRun.turns {may : PagesState → PagesInput → Prop} {start state : PagesState}
    (run : PagesRun may start state) {inputs : List PagesInput}
    (turns : Along pagesTurn (fun state input => Documented state input ∧ may state input)
      state inputs) : PagesRun may start (runOps pagesTurn state inputs) := by
  induction inputs generalizing state with
  | nil => exact run
  | cons input inputs inductionHypothesis =>
      exact inductionHypothesis (run.turn turns.1.1 turns.1.2) turns.2

end GrubLegacy.Loader
