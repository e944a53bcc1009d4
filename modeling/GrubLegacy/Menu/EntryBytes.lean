import GrubLegacy.Base.MachineInt
import GrubLegacy.Menu.Entries
import GrubLegacy.Menu.RunMenu
import GrubLegacy.Stage2.Shared

/-!
# The bytes of the menu

What `run_menu` of `stage2.c` does to its pointers and to the memory they point to,
turn by turn beside the machine of `RunMenu`. A pointer counts from the first of the
parsed entries; `size` is where the memory ends. A turn in which `get_entry` runs off
the memory, or follows a NULL pointer, has no result.
-/

namespace GrubLegacy.Menu

open Base CStrings Stage2

/-! ## Memory -/

/-- The memory that the menu works on. -/
abbrev MenuMemory := Nat → UInt8

section Memory

variable (memory : MenuMemory) (size : Nat)

/-- The bytes from a pointer on. -/
def bytesFrom (pointer : Nat) : List UInt8 :=
  (List.range (size - pointer)).map fun i => memory (pointer + i)

/-- `get_entry` -/
def entryAt (list : Nat) (num : Int) (nested : Bool) : Option Nat :=
  (getEntry (bytesFrom memory size list) num.toNat nested).map fun rest =>
    list + (size - list - rest.length)

/-- The string at a pointer. -/
def stringAt (pointer : Nat) : List UInt8 := readString (bytesFrom memory size pointer)

/-- The strings that are copied of an entry: the first, and those up to an empty one. -/
def scriptAt (pointer : Nat) : List (List UInt8) :=
  let first := stringAt memory size pointer
  first :: readGroup (bytesFrom memory size (pointer + first.length + 1))

/-- Store bytes. -/
def putBytes (pointer : Nat) (bytes : List UInt8) : MenuMemory :=
  fun address => if pointer ≤ address then bytes[address - pointer]?.getD (memory address)
    else memory address

/-- `grub_memmove`, whose count is unsigned in the end. -/
def memmove (target source : Nat) (len : Int) : MenuMemory :=
  fun address =>
    if target ≤ address ∧ address < target + toUInt32 len then
      memory (source + (address - target))
    else memory address

/-- After something that was given the memory from `heap` on. -/
def leaveFrom (heap : Nat) (left : MenuMemory) : MenuMemory :=
  fun address => if heap ≤ address then left address else memory address

end Memory

/-! ## The session -/

/-- The pointers of one call of `run_menu`; NULL is `none`. -/
structure CallBytes where
  menuEntries : Nat
  configEntries : Option Nat
  heap : Nat
  curEntry : Option Nat
deriving DecidableEq

/-- The machine of the menu with its memory, and the pointers of its calls. -/
structure MenuSession where
  menu : MenuState
  memory : MenuMemory
  call : CallBytes
  callers : List CallBytes

/-- The answer to a prompt: a line, or the escape key after some bytes were stored. -/
inductive PromptAnswer where
  | entered (text : List UInt8)
  | cancelled (stored : List UInt8)
deriving DecidableEq

/-- The prompt was answered. -/
def PromptAnswer.isEntered : PromptAnswer → Bool
  | .entered _ => true
  | .cancelled _ => false

/-- What the outside answers while the menu reads keys: what `KeyAnswers` has, the answer
to a prompt, and what the command line leaves in its heap. -/
structure KeyInput where
  key : Option UInt8
  passwordRight : Bool
  newFile : Bool
  prompt : PromptAnswer
  dumb : Bool
  consoleDumb : Bool
  left : MenuMemory

/-- One turn of the loop that is running. -/
inductive SessionInput where
  | poll (keyPressed modifierHeld : Bool)
  | key (input : KeyInput)
  | boot (answers : BootAnswers) (left : MenuMemory)

/-- With this memory. -/
def MenuSession.store (session : MenuSession) (memory : MenuMemory) : MenuSession :=
  { session with memory }

/-- With these pointers. -/
def MenuSession.point (session : MenuSession) (call : CallBytes) : MenuSession :=
  { session with call }

/-- The machine is in this state. -/
def MenuSession.turned (session : MenuSession) (menu : MenuState) : MenuSession :=
  { session with menu }

/-- The number of the highlighted entry. -/
def MenuCall.selected (call : MenuCall) : Int := call.firstEntry + call.entryno

/-! ## The keys -/

/-- `o` and `O` put a line with a space in front of the selected one. -/
def insertBytes (size : Nat) (selected : Int) (session : MenuSession) : Option MenuSession :=
  let call := session.call
  (entryAt session.memory size call.menuEntries selected false).map fun curEntry =>
    let moved := memmove session.memory (curEntry + 2) curEntry (call.heap - curEntry : Int)
    (session.store (putBytes moved curEntry [charOf ' ', 0])).point
      { call with heap := call.heap + 2 }

/-- `d` removes the selected line. -/
def deleteBytes (size : Nat) (numEntries selected : Int) (session : MenuSession) :
    Option MenuSession :=
  let call := session.call
  (entryAt session.memory size call.menuEntries selected false).bind fun curEntry =>
    if 0 < numEntries then
      (entryAt session.memory size call.menuEntries (selected + 1) false).map fun ptr =>
        (session.store (memmove session.memory curEntry ptr (call.heap - ptr : Int))).point
          { call with heap := call.heap - (ptr - curEntry) }
    else some session

/-- The keys that change the lines of an entry being edited. -/
def editBytes (size : Nat) (dumb : Bool) (c : UInt8) (call : MenuCall) (session : MenuSession) :
    Option MenuSession :=
  if c = charOf 'd' then deleteBytes size call.numEntries call.selected session
  else if c = charOf 'o' ∨ c = charOf 'O' then
    insertBytes size (insertLine dumb c call).selected session
  else some session

/-- The strings of a parsed entry. -/
def entryScript (size : Nat) (selected : Int) (session : MenuSession) :
    Option (Nat × List (List UInt8)) :=
  session.call.configEntries.bind fun configEntries =>
    (entryAt session.memory size configEntries selected true).map fun curEntry =>
      (curEntry, scriptAt session.memory size curEntry)

/-- `e` in the menu of the parsed entries: another call edits a copy of the entry. -/
def openEditor (size : Nat) (selected : Int) (session : MenuSession) : Option MenuSession :=
  (entryScript size selected session).map fun (curEntry, script) =>
    let call := session.call
    let copied := encodeGroup script
    { session with
      memory := putBytes session.memory call.heap copied
      call :=
        { menuEntries := call.heap
          configEntries := none
          heap := call.heap + copied.length
          curEntry := none }
      callers := { call with curEntry := some curEntry } :: session.callers }

/-- `e` on a line of an entry being edited. -/
def editText (size : Nat) (selected : Int) (prompt : PromptAnswer) (session : MenuSession) :
    Option MenuSession :=
  let call := session.call
  (entryAt session.memory size call.menuEntries selected false).map fun curEntry =>
    let line := stringAt session.memory size curEntry
    let newHeap := call.heap + newHeapsize + 1
    let copied := putBytes session.memory newHeap (encodeString line ++ [0])
    let i := line.length + 1
    match prompt with
    | .cancelled stored =>
      (session.store (putBytes copied newHeap stored)).point { call with curEntry := some curEntry }
    | .entered text =>
      let command := encodeString (if text = [] then [charOf ' '] else text)
      let j := command.length
      let typed := putBytes copied newHeap command
      let aligned := memmove typed (curEntry + j) (curEntry + i) (call.heap - (curEntry + i) : Int)
      (session.store (memmove aligned curEntry newHeap j)).point
        { call with heap := call.heap + j - i, curEntry := some curEntry }

/-- `grub_isspace` -/
def grubIsspace (c : UInt8) : Bool :=
  c = charOf ' ' || c = charOf '\t' || c = charOf '\r' || c = charOf '\n'

/-- A line with the command `kernel`. -/
def isKernelLine (text : List UInt8) : Bool :=
  (ascii "kernel").isPrefixOf text && grubIsspace (text[6]?.getD 0)

/-- The first line with the command `kernel`, and where it starts. -/
def kernelLine : List (List UInt8) → Option (Nat × List UInt8)
  | [] => none
  | text :: rest =>
    if text = [] then none
    else if isKernelLine text then some (0, text)
    else (kernelLine rest).map fun (offset, line) => (text.length + 1 + offset, line)

/-- What is behind the name of the kernel. -/
def afterKernel (text : List UInt8) : List UInt8 :=
  ((text.drop 6).dropWhile grubIsspace).dropWhile fun c => !grubIsspace c

/-- `a`: the arguments of the kernel are edited in a copy of the entry. -/
def appendArgs (size : Nat) (selected : Int) (prompt : PromptAnswer) (session : MenuSession) :
    Option MenuSession :=
  (entryScript size selected session).map fun (curEntry, script) =>
    let call := session.call
    let copied := putBytes session.memory call.heap (encodeGroup script)
    let appendLine := call.heap + newHeapsize + 1
    match kernelLine script with
    | none => (session.store copied).point { call with curEntry := some curEntry }
    | some (offset, line) =>
      let needsPadding := if afterKernel line = [] then 1 else 0
      let args := (afterKernel line).dropWhile grubIsspace
      let start := call.heap + offset + (line.length - args.length)
      let prompted := putBytes copied appendLine (encodeString args)
      match prompt with
      | .cancelled stored =>
        (session.store (putBytes prompted appendLine stored)).point
          { call with curEntry := some curEntry }
      | .entered text =>
        let typed := putBytes prompted appendLine (encodeString text)
        let i := (stringAt typed size start).length
        let j := text.length
        let aligned := memmove typed (start + j + needsPadding) (start + i)
          (appendLine - start - max i (j + needsPadding) : Int)
        let padded := putBytes aligned start (List.replicate needsPadding (charOf ' '))
        (session.store (memmove padded (start + needsPadding) appendLine j)).point
          { call with configEntries := none, curEntry := some call.heap, heap := appendLine }

/-- The call returns. -/
def popBytes (session : MenuSession) : MenuSession :=
  match session.callers with
  | [] => session
  | caller :: callers => { session with call := caller, callers }

/-- The keys that need the rights to change what is booted. -/
def settingsBytes (setup : MenuSetup) (size : Nat) (call : MenuCall) (c : UInt8) (input : KeyInput)
    (session : MenuSession) : Option MenuSession :=
  if setup.secureLocked then some session
  else if !session.menu.auth && setup.password then
    if c = charOf 'p' ∧ input.passwordRight ∧ input.newFile then some (popBytes session)
    else some session
  else if c = charOf 'e' then
    if call.configEntries then openEditor size call.selected session
    else editText size call.selected input.prompt session
  else if c = charOf 'c' then
    some (session.store (leaveFrom session.memory session.call.heap input.left))
  else if call.configEntries ∧ c = charOf 'a' then
    appendArgs size call.selected input.prompt session
  else some session

/-- What a key does to the pointers and the memory; `cur_entry` is NULL before. -/
def keyBytes (setup : MenuSetup) (size : Nat) (c : UInt8) (input : KeyInput)
    (session : MenuSession) : Option MenuSession :=
  let dumb := session.menu.dumb
  let call := moveKey dumb c session.menu.call
  if call.configEntries then
    if c = charOf '\n' ∨ c = charOf '\r' ∨ c = 6 then some session
    else settingsBytes setup size call c input session
  else
    (editBytes size dumb c call session).bind fun session =>
      let session := session.point { session.call with curEntry := some session.call.menuEntries }
      if c = 27 then some (popBytes session)
      else if c = charOf 'b' then some session
      else settingsBytes setup size { editKey dumb c call with curEntry := true } c input session

/-! ## The turns -/

/-- The arguments of a kernel were entered for this entry. -/
def entersArgs (prompt : PromptAnswer) : Option (Nat × List (List UInt8)) → Bool
  | none => false
  | some (_, script) => (kernelLine script).isSome && prompt.isEntered

/-- What the machine is told of a turn that reads a key. -/
def KeyInput.answers (size : Nat) (session : MenuSession) (input : KeyInput) : KeyAnswers :=
  let script := match input.key with
    | none => none
    | some c =>
      entryScript size (moveKey session.menu.dumb c session.menu.call).selected session
  { key := input.key
    passwordRight := input.passwordRight
    newFile := input.newFile
    moreCommands := match script with
      | none => 0
      | some (_, script) => script.length - 1
    appended := entersArgs input.prompt script
    dumb := input.dumb
    consoleDumb := input.consoleDumb }

/-- The script that is run for the selected entry. -/
def bootScript (size : Nat) (session : MenuSession) : Option Nat :=
  match session.call.curEntry with
  | some curEntry => some curEntry
  | none => session.call.configEntries.bind fun configEntries =>
      entryAt session.memory size configEntries session.menu.call.selected true

/-- A turn of the loop that boots, for the pointers and the memory. -/
def bootBytes (size : Nat) (failed : Bool) (left : MenuMemory) (session : MenuSession) :
    Option MenuSession :=
  (bootScript size session).map fun curEntry =>
    (session.store (leaveFrom session.memory session.call.heap left)).point
      { session.call with
        curEntry :=
          if failed ∧ 0 ≤ session.menu.fallbackEntryno then none else some curEntry }

/-- `cur_entry` is NULL at the start of a turn of the loop that reads keys. -/
def MenuSession.fetched (session : MenuSession) : MenuSession :=
  { session with
    menu := { session.menu with call := { session.menu.call with curEntry := false } }
    call := { session.call with curEntry := none } }

/-- The rest of the turn, for the pointers and the memory. -/
def keyTurnBytes (setup : MenuSetup) (size : Nat) (input : KeyInput) (session : MenuSession) :
    Option MenuSession :=
  if 0 ≤ session.menu.grubTimeout ∧ session.menu.grubTimeout ≤ 0 then some session
  else
    match input.key with
    | none => some session
    | some c => keyBytes setup size c input session

/-- One turn; an input for another loop than the running one changes nothing. -/
def sessionTurn (setup : MenuSetup) (size : Nat) (session : MenuSession) :
    SessionInput → Option MenuSession
  | .poll keyPressed modifierHeld =>
    some (session.turned (menuTurn setup session.menu (.poll keyPressed modifierHeld)))
  | .key input =>
    if session.menu.loop = .keys then
      (keyTurnBytes setup size input session.fetched).map fun next =>
        next.turned (keyTurn setup session.menu (input.answers size session.fetched))
    else some session
  | .boot answers left =>
    if session.menu.loop = .booting then
      (bootBytes size answers.failed left session).map fun next =>
        next.turned (bootTurn session.menu answers)
    else some session

/-- `run_menu` is called with the parsed entries. -/
def runMenuSession (menu : MenuState) (memory : MenuMemory) (menuEntries configEntries heap : Nat)
    (numEntries entryno : Int) : MenuSession :=
  { menu := runMenu menu numEntries entryno
    memory
    call := { menuEntries, configEntries := some configEntries, heap, curEntry := none }
    callers := [] }

end GrubLegacy.Menu
