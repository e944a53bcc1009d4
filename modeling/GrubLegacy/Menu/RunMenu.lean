import GrubLegacy.Base.CStrings

/-!
# The menu

`run_menu` of `stage2.c` as a machine that takes one turn of one of its loops at a
time: waiting while the menu is hidden, reading a key, and booting. Editing an
entry calls `run_menu` again, so the machine keeps a stack of calls. What is drawn
on the screen and the bytes of the entries are left out.
-/

namespace GrubLegacy.Menu

open CStrings

/-- MAX_FALLBACK_ENTRIES -/
def maxFallbackEntries : Int := 8

/-- What stays fixed while menus run: whether the secure mode of the board locks
the boot settings, and whether a password is set. -/
structure MenuSetup where
  secureLocked : Bool
  password : Bool

/-- The locals of one call of `run_menu`. Of the pointers `config_entries` and
`cur_entry` only whether they are not NULL is kept. -/
structure MenuCall where
  firstEntry : Int
  entryno : Int
  numEntries : Int
  configEntries : Bool
  curEntry : Bool
deriving DecidableEq, Repr

/-- The loop a call is in. -/
inductive MenuLoop where
  | hidden
  | keys
  | booting
  | returned
deriving DecidableEq, Repr

/-- The globals, the call that is running and the calls waiting for it. `dumb` is
TERM_DUMB of `current_term`, while booting of `prev_term`, and `consoleDumb` that of the first
terminal of the table. -/
structure MenuState where
  dumb : Bool
  consoleDumb : Bool
  auth : Bool
  showMenu : Bool
  grubTimeout : Int
  fallbackEntryno : Int
  fallbackEntries : Int → Int
  loop : MenuLoop
  call : MenuCall
  callers : List MenuCall

/-- What the outside answers during a turn of the key loop. -/
structure KeyAnswers where
  /-- The key read, if there is one. -/
  key : Option UInt8
  /-- The password entered is right. -/
  passwordRight : Bool
  /-- The password comes with a configuration file of its own. -/
  newFile : Bool
  /-- How many commands the entry to edit has besides the first. -/
  moreCommands : Nat
  /-- The entry has a kernel line and its new arguments were entered. -/
  appended : Bool
  /-- The terminals when the command line returns. -/
  dumb : Bool
  consoleDumb : Bool

/-- What the outside answers during a turn of the loop that boots. -/
structure BootAnswers where
  /-- `run_script` returns that the entry failed. -/
  failed : Bool
  /-- The terminals as the script leaves them: the command `terminal` changes their flags. -/
  dumb : Bool
  consoleDumb : Bool
  /-- The terminal cannot be started again. -/
  startupFailed : Bool

/-- One turn of the loop that is running. -/
inductive MenuTurn where
  | poll (keyPressed modifierHeld : Bool)
  | key (answers : KeyAnswers)
  | boot (answers : BootAnswers)

/-- The loop at `restart` that makes room on the page for the highlighted entry. -/
def scrollPage (call : MenuCall) : MenuCall :=
  Nat.repeat
    (fun call => { call with firstEntry := call.firstEntry + 1, entryno := call.entryno - 1 })
    (call.entryno - 11).toNat call

/-- From the label `restart` to the next loop. -/
def restart (state : MenuState) : MenuState :=
  let call := if state.dumb then state.call else scrollPage state.call
  let showMenu := state.grubTimeout < 0 || state.showMenu
  { state with call, showMenu, loop := if showMenu then .keys else .hidden }

/-- The call returns; a caller goes on at its label `restart`. -/
def returnMenu (state : MenuState) : MenuState :=
  match state.callers with
  | [] => { state with loop := .returned }
  | caller :: callers => restart { state with call := caller, callers }

/-- The turn of the loop that waits for the menu to be asked for. -/
def pollTurn (state : MenuState) (keyPressed modifierHeld : Bool) : MenuState :=
  if keyPressed || modifierHeld then
    { state with grubTimeout := -1, showMenu := true, loop := .keys }
  else if 0 ≤ state.grubTimeout then
    if state.grubTimeout ≤ 0 then { state with grubTimeout := -1, loop := .booting }
    else { state with grubTimeout := state.grubTimeout - 1 }
  else state

/-! ## The keys -/

/-- Control-P or `^`. -/
def moveUp (dumb : Bool) (call : MenuCall) : MenuCall :=
  if dumb then
    if 0 < call.entryno then { call with entryno := call.entryno - 1 } else call
  else if 0 < call.entryno then { call with entryno := call.entryno - 1 }
  else if 0 < call.firstEntry then { call with firstEntry := call.firstEntry - 1 }
  else call

/-- Control-N or `v`, unless the last entry is highlighted. -/
def moveDown (dumb : Bool) (call : MenuCall) : MenuCall :=
  if dumb then { call with entryno := call.entryno + 1 }
  else if call.entryno < 11 then { call with entryno := call.entryno + 1 }
  else if 12 + call.firstEntry < call.numEntries then
    { call with firstEntry := call.firstEntry + 1 }
  else call

/-- Page Up -/
def pageUp (call : MenuCall) : MenuCall :=
  let firstEntry := call.firstEntry - 12
  if firstEntry < 0 then
    let entryno := call.entryno + firstEntry
    { call with firstEntry := 0, entryno := if entryno < 0 then 0 else entryno }
  else { call with firstEntry }

/-- Page Down -/
def pageDown (call : MenuCall) : MenuCall :=
  let firstEntry := call.firstEntry + 12
  if call.numEntries ≤ firstEntry + call.entryno + 1 then
    let firstEntry := if call.numEntries - 12 < 0 then 0 else call.numEntries - 12
    { call with firstEntry, entryno := call.numEntries - firstEntry - 1 }
  else { call with firstEntry }

/-- The keys that move the highlight. -/
def moveKey (dumb : Bool) (c : UInt8) (call : MenuCall) : MenuCall :=
  if c = 16 ∨ c = charOf '^' then moveUp dumb call
  else if (c = 14 ∨ c = charOf 'v') ∧ call.firstEntry + call.entryno + 1 < call.numEntries then
    moveDown dumb call
  else if c = 7 then pageUp call
  else if c = 3 then pageDown call
  else call

/-- `O` opens a new line before the highlighted one, `o` after it. -/
def insertLine (dumb : Bool) (c : UInt8) (call : MenuCall) : MenuCall :=
  let call :=
    if c = charOf 'o' then
      if call.entryno < 11 ∨ dumb then { call with entryno := call.entryno + 1 }
      else { call with firstEntry := call.firstEntry + 1 }
    else call
  { call with numEntries := call.numEntries + 1 }

/-- `d` removes the highlighted line. -/
def deleteLine (call : MenuCall) : MenuCall :=
  if 0 < call.numEntries then
    let numEntries := call.numEntries - 1
    let entryno := if numEntries ≤ call.entryno then call.entryno - 1 else call.entryno
    let firstEntry :=
      if call.firstEntry ≠ 0 ∧ numEntries < 12 + call.firstEntry then call.firstEntry - 1
      else call.firstEntry
    { call with firstEntry, entryno, numEntries }
  else call

/-- The keys that change the lines of an entry being edited. -/
def editKey (dumb : Bool) (c : UInt8) (call : MenuCall) : MenuCall :=
  if c = charOf 'd' then deleteLine call
  else if c = charOf 'o' ∨ c = charOf 'O' then insertLine dumb c call
  else call

/-- The keys that need the rights to change what is booted. -/
def settingsKey (setup : MenuSetup) (state : MenuState) (answers : KeyAnswers) (c : UInt8) :
    MenuState :=
  if setup.secureLocked then state
  else if !state.auth && setup.password then
    if c = charOf 'p' then
      if answers.passwordRight then
        if answers.newFile then returnMenu { state with auth := false }
        else restart { state with auth := true }
      else restart state
    else state
  else if c = charOf 'e' then
    if state.call.configEntries then
      restart { state with
        call := { firstEntry := 0, entryno := 0, numEntries := answers.moreCommands + 1,
                  configEntries := false, curEntry := false }
        callers := state.call :: state.callers }
    else restart state
  else if c = charOf 'c' then
    restart { state with dumb := answers.dumb, consoleDumb := answers.consoleDumb }
  else if state.call.configEntries ∧ c = charOf 'a' then
    if answers.appended then
      -- the edited copy is booted, and the list of entries is forgotten
      { state with
        call := { state.call with configEntries := false, curEntry := true }
        loop := .booting }
    else restart state
  else state

/-- A key ends the countdown, and with it the fallback entries. -/
def stopTimeout (state : MenuState) : MenuState :=
  if 0 ≤ state.grubTimeout then { state with grubTimeout := -1, fallbackEntryno := -1 } else state

/-- What a key does. -/
def keyPressed (setup : MenuSetup) (state : MenuState) (answers : KeyAnswers) (c : UInt8) :
    MenuState :=
  let state := stopTimeout state
  let call := moveKey state.dumb c state.call
  if call.configEntries then
    if c = charOf '\n' ∨ c = charOf '\r' ∨ c = 6 then { state with call, loop := .booting }
    else settingsKey setup { state with call } answers c
  else
    let state := { state with call := { editKey state.dumb c call with curEntry := true } }
    if c = 27 then returnMenu state
    else if c = charOf 'b' then { state with loop := .booting }
    else settingsKey setup state answers c

/-- The turn of the loop that reads keys. -/
def keyTurn (setup : MenuSetup) (state : MenuState) (answers : KeyAnswers) : MenuState :=
  let state := { state with call := { state.call with curEntry := false } }
  if 0 ≤ state.grubTimeout ∧ state.grubTimeout ≤ 0 then
    { state with grubTimeout := -1, loop := .booting }
  else
    let state :=
      if 0 ≤ state.grubTimeout then { state with grubTimeout := state.grubTimeout - 1 } else state
    match answers.key with
    | none => state
    | some c => keyPressed setup state answers c

/-- Back from booting: the terminal is started again, or the console instead. -/
def endBoot (state : MenuState) (startupFailed : Bool) : MenuState :=
  restart { state with
    dumb := if startupFailed then state.consoleDumb else state.dumb
    showMenu := true }

/-- The turn of the loop that boots: `run_script` runs the entry, and if it fails
the next fallback entry is tried. -/
def bootTurn (state : MenuState) (answers : BootAnswers) : MenuState :=
  let state := { state with
    dumb := answers.dumb
    consoleDumb := answers.consoleDumb
    call := { state.call with curEntry := true } }
  if answers.failed then
    if 0 ≤ state.fallbackEntryno then
      let call := { state.call with
        curEntry := false
        firstEntry := 0
        entryno := state.fallbackEntries state.fallbackEntryno }
      let next := state.fallbackEntryno + 1
      { state with
        call
        fallbackEntryno :=
          if maxFallbackEntries ≤ next ∨ state.fallbackEntries next < 0 then -1 else next }
    else endBoot state answers.startupFailed
  else endBoot state answers.startupFailed

/-- One turn; an answer for another loop than the running one changes nothing. -/
def menuTurn (setup : MenuSetup) (state : MenuState) (turn : MenuTurn) : MenuState :=
  match state.loop, turn with
  | .hidden, .poll keyPressed modifierHeld => pollTurn state keyPressed modifierHeld
  | .keys, .key answers => keyTurn setup state answers
  | .booting, .boot answers => bootTurn state answers
  | _, _ => state

/-- `run_menu` is called with the parsed entries: control reaches `restart`. -/
def runMenu (state : MenuState) (numEntries entryno : Int) : MenuState :=
  restart { state with
    call := { firstEntry := 0, entryno, numEntries, configEntries := true, curEntry := false }
    callers := [] }

end GrubLegacy.Menu
