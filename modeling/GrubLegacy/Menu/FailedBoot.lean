import GrubLegacy.Menu.EntryBytes
import GrubLegacy.Menu.Selection

/-!
# After a failed boot

When `run_script` returns, the menu shows the entries it started with, unless
`config_entries` is NULL: after `a` it is in the menu of the parsed entries, and it always
is while an entry is edited. What editing writes stays above the parsed entries.
-/

namespace GrubLegacy.Menu

open CStrings Stage2

/-! ## What stays below a pointer -/

/-- The bytes below a pointer are the same. -/
def SameBelow (pointer : Nat) (memory memory' : MenuMemory) : Prop :=
  ∀ address < pointer, memory' address = memory address

section Memory

variable {pointer : Nat} {memory memory' : MenuMemory}

/-- Memory is the same as itself below any pointer, -/
theorem SameBelow.refl (pointer : Nat) (memory : MenuMemory) : SameBelow pointer memory memory :=
  fun _ _ => rfl

/-- and what stays the same twice stays the same. -/
theorem SameBelow.trans {memory'' : MenuMemory} (first : SameBelow pointer memory memory')
    (second : SameBelow pointer memory' memory'') : SameBelow pointer memory memory'' :=
  fun address below => (second address below).trans (first address below)

/-- Stores from the pointer on leave what is below, -/
theorem SameBelow.put (same : SameBelow pointer memory memory') {target : Nat}
    (above : pointer ≤ target) (bytes : List UInt8) :
    SameBelow pointer memory (putBytes memory' target bytes) := by
  intro address below
  rw [putBytes, if_neg (by omega)]
  exact same address below

/-- a move does -/
theorem SameBelow.move (same : SameBelow pointer memory memory') {target : Nat}
    (above : pointer ≤ target) (source : Nat) (len : Int) :
    SameBelow pointer memory (memmove memory' target source len) := by
  intro address below
  rw [memmove, if_neg (by omega)]
  exact same address below

/-- and what a script leaves on the heap. -/
theorem SameBelow.leave (same : SameBelow pointer memory memory') {heap : Nat}
    (above : pointer ≤ heap) (left : MenuMemory) :
    SameBelow pointer memory (leaveFrom memory' heap left) := by
  intro address below
  rw [leaveFrom, if_neg (by omega)]
  exact same address below

/-- An entry does not start before its list. -/
theorem le_of_entryAt {size list entry : Nat} {num : Int} {nested : Bool}
    (found : entryAt memory size list num nested = some entry) : list ≤ entry := by
  obtain ⟨rest, _, rfl⟩ := Option.map_eq_some_iff.mp found
  exact Nat.le_add_right _ _

end Memory

/-! ## The keys of the editor -/

/-- What the keys for the lines of an entry act on lies in the bytes of the entry: the line
behind the one `d` removes starts there, the line `o` and `O` move starts there, and the
line `e` edits ends there. -/
structure LineInside (size : Nat) (c : UInt8) (session : MenuSession) (call : MenuCall) : Prop where
  deleted : c = charOf 'd' → ∀ ptr,
    entryAt session.memory size session.call.menuEntries (call.selected + 1) false = some ptr →
      ptr ≤ session.call.heap
  inserted : c = charOf 'o' ∨ c = charOf 'O' → ∀ curEntry,
    entryAt session.memory size session.call.menuEntries
      (insertLine session.menu.dumb c call).selected false = some curEntry →
      curEntry ≤ session.call.heap
  edited : c = charOf 'e' → ∀ curEntry,
    entryAt session.memory size session.call.menuEntries call.selected false = some curEntry →
      curEntry + (stringAt session.memory size curEntry).length < session.call.heap

/-- The session goes on in the same call, whose list and bytes below a pointer stay. -/
structure StaysIn (pointer : Nat) (session next : MenuSession) : Prop where
  menu : next.menu = session.menu
  callers : next.callers = session.callers
  menuEntries : next.call.menuEntries = session.call.menuEntries
  configEntries : next.call.configEntries = session.call.configEntries
  heap : pointer ≤ next.call.heap
  memory : SameBelow pointer session.memory next.memory

section Editor

variable {size : Nat} {c : UInt8} {call : MenuCall} {session next : MenuSession}

/-- The keys that insert stay above the list they edit, -/
theorem insertBytes_stays {selected : Int} (room : session.call.menuEntries ≤ session.call.heap)
    (inserts : insertBytes size selected session = some next) :
    StaysIn session.call.menuEntries session next := by
  obtain ⟨curEntry, found, rfl⟩ := Option.map_eq_some_iff.mp inserts
  have above := le_of_entryAt found
  exact
    { menu := rfl
      callers := rfl
      menuEntries := rfl
      configEntries := rfl
      heap := Nat.le_add_right_of_le room
      memory := ((SameBelow.refl _ _).move (Nat.le_add_right_of_le above) _ _).put above _ }

/-- the one that deletes does, -/
theorem deleteBytes_stays {numEntries selected : Int}
    (room : session.call.menuEntries ≤ session.call.heap)
    (inside : ∀ ptr,
      entryAt session.memory size session.call.menuEntries (selected + 1) false = some ptr →
        ptr ≤ session.call.heap)
    (deletes : deleteBytes size numEntries selected session = some next) :
    StaysIn session.call.menuEntries session next := by
  obtain ⟨curEntry, found, deletes⟩ := Option.bind_eq_some_iff.mp deletes
  have above := le_of_entryAt found
  split at deletes
  · obtain ⟨ptr, behind, rfl⟩ := Option.map_eq_some_iff.mp deletes
    have within := inside ptr behind
    refine ⟨rfl, rfl, rfl, rfl, ?_, (SameBelow.refl _ _).move above _ _⟩
    change session.call.menuEntries ≤ session.call.heap - (ptr - curEntry)
    omega
  · obtain rfl := Option.some.inj deletes
    exact ⟨rfl, rfl, rfl, rfl, room, .refl _ _⟩

/-- so all that edit do, -/
theorem editBytes_stays (room : session.call.menuEntries ≤ session.call.heap)
    (inside : LineInside size c session call)
    (edits : editBytes size session.menu.dumb c call session = some next) :
    StaysIn session.call.menuEntries session next := by
  rw [editBytes] at edits
  split at edits
  next isDelete => exact deleteBytes_stays room (inside.deleted isDelete) edits
  · split at edits
    · exact insertBytes_stays room edits
    · obtain rfl := Option.some.inj edits
      exact ⟨rfl, rfl, rfl, rfl, room, .refl _ _⟩

/-- and the text of a line too. -/
theorem editText_stays {selected : Int} {prompt : PromptAnswer}
    (room : session.call.menuEntries ≤ session.call.heap)
    (inside : ∀ curEntry,
      entryAt session.memory size session.call.menuEntries selected false = some curEntry →
        curEntry + (stringAt session.memory size curEntry).length < session.call.heap)
    (edits : editText size selected prompt session = some next) :
    StaysIn session.call.menuEntries session next := by
  obtain ⟨curEntry, found, edited⟩ := Option.map_eq_some_iff.mp edits
  have above := le_of_entryAt found
  have within := inside curEntry found
  have new : session.call.menuEntries ≤ session.call.heap + newHeapsize + 1 := by omega
  cases prompt with
  | cancelled stored =>
      obtain rfl := edited
      exact ⟨rfl, rfl, rfl, rfl, room, ((SameBelow.refl _ _).put new _).put new _⟩
  | entered text =>
      obtain rfl := edited
      refine ⟨rfl, rfl, rfl, rfl, ?_, ?_⟩
      · change session.call.menuEntries ≤ session.call.heap + _ - _
        omega
      · exact ((((SameBelow.refl _ _).put new _).put new _).move (by omega) _ _).move above _ _

end Editor

/-! ## The session -/

/-- A call has the entries that the session started with. -/
structure ParsedCall (start : MenuSession) (call : MenuCall) (pointers : CallBytes) : Prop where
  parsed : call.configEntries = true
  numEntries : call.numEntries = start.menu.call.numEntries
  menuEntries : pointers.menuEntries = start.call.menuEntries
  configEntries : pointers.configEntries = start.call.configEntries
  heap : pointers.heap = start.call.heap

/-- The pointers of a call that edits an entry above the parsed entries. -/
structure EditsAbove (start : MenuSession) (pointers : CallBytes) : Prop where
  list : pointers.menuEntries = start.call.heap
  null : pointers.configEntries = none
  room : pointers.menuEntries ≤ pointers.heap

/-- What a session keeps: the call with the parsed entries runs, or was left for an
appended copy, or waits while an entry is edited above its heap, or has returned. -/
inductive SessionKept (start : MenuSession) : MenuSession → Prop where
  | outer {session : MenuSession} (alone : session.menu.callers = [])
      (single : session.callers = []) (parsed : ParsedCall start session.menu.call session.call)
      (memory : SameBelow start.call.heap start.memory session.memory) : SessionKept start session
  | appended {session : MenuSession} (alone : session.menu.callers = [])
      (forgotten : session.menu.call.configEntries = false)
      (null : session.call.configEntries = none)
      (booting : session.menu.loop = .booting) : SessionKept start session
  | nested {session : MenuSession} {caller : MenuCall} {pointers : CallBytes}
      (waiting : session.menu.callers = [caller]) (waits : session.callers = [pointers])
      (parsed : ParsedCall start caller pointers)
      (editing : session.menu.call.configEntries = false)
      (above : EditsAbove start session.call)
      (memory : SameBelow start.call.heap start.memory session.memory) : SessionKept start session
  | returned {session : MenuSession} (loop : session.menu.loop = .returned) :
      SessionKept start session

/-- The editor stays above the parsed entries. -/
theorem StaysIn.above {start session next : MenuSession}
    (stays : StaysIn session.call.menuEntries session next)
    (above : EditsAbove start session.call) : EditsAbove start next.call :=
  ⟨stays.menuEntries.trans above.list, stays.configEntries.trans above.null,
    stays.menuEntries ▸ stays.heap⟩

section Restart

variable (state : MenuState)

/-- A menu that restarts leaves the menus around it, -/
@[simp]
theorem restart_callers : (restart state).callers = state.callers := rfl

/-- which list is shown -/
@[simp]
theorem restart_configEntries :
    (restart state).call.configEntries = state.call.configEntries := by
  rw [restart]
  dsimp only
  split
  · rfl
  · rw [scrollPage_eq]

/-- and how many entries it has. -/
@[simp]
theorem restart_numEntries : (restart state).call.numEntries = state.call.numEntries := by
  rw [restart]
  dsimp only
  split
  · rfl
  · rw [scrollPage_eq]

end Restart

section Kept

variable {setup : MenuSetup} {size : Nat} {start session next : MenuSession} {menu : MenuState}
  {call : MenuCall} {c : UInt8} {input : KeyInput} {answers : KeyAnswers}

/-- So its pointers are those it was parsed with. -/
theorem ParsedCall.restart {pointers : CallBytes} (parsed : ParsedCall start menu.call pointers) :
    ParsedCall start (restart menu).call pointers :=
  ⟨by rw [restart_configEntries]; exact parsed.parsed,
    by rw [restart_numEntries]; exact parsed.numEntries, parsed.menuEntries, parsed.configEntries,
    parsed.heap⟩

/-- The call with the parsed entries goes on at `restart`. -/
theorem kept_restart (alone : menu.callers = []) (single : session.callers = [])
    (parsed : ParsedCall start menu.call session.call)
    (memory : SameBelow start.call.heap start.memory session.memory) :
    SessionKept start (session.turned (restart menu)) :=
  .outer alone single parsed.restart memory

/-- The call that edits an entry goes on at `restart`. -/
theorem kept_restart_nested {caller : MenuCall} {pointers : CallBytes}
    (waiting : menu.callers = [caller]) (waits : session.callers = [pointers])
    (parsed : ParsedCall start caller pointers) (editing : menu.call.configEntries = false)
    (above : EditsAbove start session.call)
    (memory : SameBelow start.call.heap start.memory session.memory) :
    SessionKept start (session.turned (restart menu)) :=
  .nested waiting waits parsed ((restart_configEntries menu).trans editing) above memory

/-- The call that edits an entry returns. -/
theorem kept_return_nested {caller : MenuCall} {pointers : CallBytes}
    (waiting : menu.callers = [caller]) (waits : session.callers = [pointers])
    (parsed : ParsedCall start caller pointers)
    (memory : SameBelow start.call.heap start.memory session.memory) :
    SessionKept start ((popBytes session).turned (returnMenu menu)) := by
  rw [returnMenu, waiting, popBytes, waits]
  exact kept_restart rfl rfl parsed memory

/-- The call with the parsed entries returns. -/
theorem kept_return (alone : menu.callers = []) :
    SessionKept start (session.turned (returnMenu menu)) := by
  refine .returned ?_
  change (returnMenu menu).loop = .returned
  rw [returnMenu, alone]

/-- `a` leaves the call with the parsed entries for booting a copy, or goes on. -/
theorem kept_append (alone : menu.callers = []) (single : session.callers = [])
    (parsed : ParsedCall start menu.call session.call)
    (memory : SameBelow start.call.heap start.memory session.memory)
    (appended : answers.appended =
      entersArgs input.prompt (entryScript size menu.call.selected session))
    (appends : appendArgs size menu.call.selected input.prompt session = some next) :
    SessionKept start (next.turned
      (if answers.appended then
        { menu with
          call := { menu.call with configEntries := false, curEntry := true }
          loop := .booting }
      else restart menu)) := by
  have heap : start.call.heap ≤ session.call.heap := Nat.le_of_eq parsed.heap.symm
  have above : start.call.heap ≤ session.call.heap + newHeapsize + 1 := by omega
  obtain ⟨⟨curEntry, script⟩, found, appended'⟩ := Option.map_eq_some_iff.mp appends
  have pointed : ParsedCall start menu.call { session.call with curEntry := some curEntry } :=
    ⟨parsed.parsed, parsed.numEntries, parsed.menuEntries, parsed.configEntries, parsed.heap⟩
  rw [found, entersArgs] at appended
  dsimp only at appended'
  cases isKernel : kernelLine script with
  | none =>
      rw [isKernel] at appended appended'
      subst appended'
      rw [if_neg (by rw [appended]; nofun)]
      exact kept_restart alone single pointed (memory.put heap _)
  | some kernel =>
      rw [isKernel] at appended appended'
      cases isPrompt : input.prompt with
      | cancelled stored =>
          rw [isPrompt] at appended appended'
          subst appended'
          rw [if_neg (by rw [appended]; nofun)]
          exact kept_restart alone single pointed
            (((memory.put heap _).put above _).put above _)
      | entered text =>
          have isAppended : answers.appended = true := by rw [appended, isPrompt]; rfl
          have null : next.call.configEntries = none := by
            rw [← appended', isPrompt]
            rfl
          rw [if_pos isAppended]
          exact .appended alone rfl null rfl

/-- The keys for the settings, in the menu of the parsed entries. -/
theorem kept_settings (alone : menu.callers = []) (single : session.callers = [])
    (parsed : ParsedCall start menu.call session.call)
    (memory : SameBelow start.call.heap start.memory session.memory)
    (auth : menu.auth = session.menu.auth) (right : answers.passwordRight = input.passwordRight)
    (newFile : answers.newFile = input.newFile)
    (appended : answers.appended =
      entersArgs input.prompt (entryScript size menu.call.selected session))
    (turn : settingsBytes setup size menu.call c input session = some next) :
    SessionKept start (next.turned (settingsKey setup menu answers c)) := by
  have stays : SessionKept start (session.turned menu) := .outer alone single parsed memory
  have heap : start.call.heap ≤ session.call.heap := Nat.le_of_eq parsed.heap.symm
  have popped : popBytes session = session := by rw [popBytes, single]
  rw [settingsBytes, ← auth] at turn
  rw [settingsKey, right, newFile]
  by_cases locked : setup.secureLocked = true
  · rw [if_pos locked] at turn ⊢
    obtain rfl := Option.some.inj turn
    exact stays
  rw [if_neg locked] at turn ⊢
  by_cases guarded : (!menu.auth && setup.password) = true
  · rw [if_pos guarded, popped, ite_self] at turn
    obtain rfl := Option.some.inj turn
    rw [if_pos guarded]
    split
    · split
      · split
        · exact kept_return alone
        · exact kept_restart alone single
            ⟨parsed.parsed, parsed.numEntries, parsed.menuEntries, parsed.configEntries,
              parsed.heap⟩ memory
      · exact kept_restart alone single parsed memory
    · exact stays
  rw [if_neg guarded] at turn ⊢
  by_cases isEdit : c = charOf 'e'
  · rw [if_pos isEdit, if_pos parsed.parsed] at turn ⊢
    obtain ⟨⟨curEntry, script⟩, _, rfl⟩ := Option.map_eq_some_iff.mp turn
    have waits : ParsedCall start menu.call { session.call with curEntry := some curEntry } :=
      ⟨parsed.parsed, parsed.numEntries, parsed.menuEntries, parsed.configEntries, parsed.heap⟩
    exact kept_restart_nested (congrArg (menu.call :: ·) alone) (congrArg (_ :: ·) single) waits
      rfl ⟨parsed.heap, rfl, Nat.le_add_right _ _⟩ (memory.put heap _)
  rw [if_neg isEdit] at turn ⊢
  by_cases isCommandLine : c = charOf 'c'
  · rw [if_pos isCommandLine] at turn ⊢
    obtain rfl := Option.some.inj turn
    exact kept_restart alone single
      ⟨parsed.parsed, parsed.numEntries, parsed.menuEntries, parsed.configEntries, parsed.heap⟩
      (memory.leave heap _)
  rw [if_neg isCommandLine] at turn ⊢
  by_cases isAppend : menu.call.configEntries = true ∧ c = charOf 'a'
  · rw [if_pos isAppend] at turn ⊢
    exact kept_append alone single parsed memory appended turn
  · rw [if_neg isAppend] at turn ⊢
    obtain rfl := Option.some.inj turn
    exact stays

/-- The same keys while an entry is edited. -/
theorem kept_settings_nested {caller : MenuCall} {pointers : CallBytes}
    (waiting : menu.callers = [caller]) (waits : session.callers = [pointers])
    (parsed : ParsedCall start caller pointers) (editing : menu.call.configEntries = false)
    (above : EditsAbove start session.call)
    (memory : SameBelow start.call.heap start.memory session.memory)
    (auth : menu.auth = session.menu.auth) (right : answers.passwordRight = input.passwordRight)
    (newFile : answers.newFile = input.newFile)
    (inside : c = charOf 'e' → ∀ curEntry,
      entryAt session.memory size session.call.menuEntries menu.call.selected false =
        some curEntry →
        curEntry + (stringAt session.memory size curEntry).length < session.call.heap)
    (turn : settingsBytes setup size menu.call c input session = some next) :
    SessionKept start (next.turned (settingsKey setup menu answers c)) := by
  have stays : SessionKept start (session.turned menu) :=
    .nested waiting waits parsed editing above memory
  have notParsed : ¬ menu.call.configEntries = true := by rw [editing]; nofun
  rw [settingsBytes, ← auth] at turn
  rw [settingsKey, right, newFile]
  by_cases locked : setup.secureLocked = true
  · rw [if_pos locked] at turn ⊢
    obtain rfl := Option.some.inj turn
    exact stays
  rw [if_neg locked] at turn ⊢
  by_cases guarded : (!menu.auth && setup.password) = true
  · rw [if_pos guarded] at turn ⊢
    by_cases asked : c = charOf 'p' ∧ input.passwordRight = true ∧ input.newFile = true
    · rw [if_pos asked] at turn
      obtain rfl := Option.some.inj turn
      rw [if_pos asked.1, if_pos asked.2.1, if_pos asked.2.2]
      exact kept_return_nested waiting waits parsed memory
    · rw [if_neg asked] at turn
      obtain rfl := Option.some.inj turn
      split
      next isPassword =>
        split
        next isRight =>
          rw [if_neg fun new => asked ⟨isPassword, isRight, new⟩]
          exact kept_restart_nested waiting waits parsed editing above memory
        · exact kept_restart_nested waiting waits parsed editing above memory
      · exact stays
  rw [if_neg guarded] at turn ⊢
  by_cases isEdit : c = charOf 'e'
  · rw [if_pos isEdit, if_neg notParsed] at turn ⊢
    have edited := editText_stays above.room (inside isEdit) turn
    exact kept_restart_nested waiting (edited.callers.trans waits) parsed editing
      (edited.above above) (memory.trans (above.list ▸ edited.memory))
  rw [if_neg isEdit] at turn ⊢
  by_cases isCommandLine : c = charOf 'c'
  · rw [if_pos isCommandLine] at turn ⊢
    obtain rfl := Option.some.inj turn
    exact kept_restart_nested waiting waits parsed editing above
      (memory.leave (above.list ▸ above.room) _)
  · rw [if_neg isCommandLine, if_neg fun isAppend => notParsed isAppend.1] at turn ⊢
    obtain rfl := Option.some.inj turn
    exact stays

end Kept

/-! ## The turns -/

/-- What must not happen in a turn: a key of the editor that acts on a line behind the
entry, and a return of `run_script` without the parsed entries, except to the editor of an
entry when there is no fallback entry to try. -/
def MayRun (size : Nat) (session : MenuSession) : SessionInput → Prop
  | .poll _ _ => True
  | .key input =>
    session.menu.loop = .keys → session.menu.call.configEntries = false →
      ∀ c, input.key = some c →
        LineInside size c session.fetched (moveKey session.menu.dumb c session.fetched.menu.call)
  | .boot answers _ =>
    session.menu.loop = .booting → session.menu.call.configEntries = true ∨
      session.menu.callers ≠ [] ∧ ¬ (answers.failed = true ∧ 0 ≤ session.menu.fallbackEntryno)

section Turns

variable {setup : MenuSetup} {size : Nat} {start session next : MenuSession}

/-- `e` moves no byte of the list, -/
theorem editBytes_edit {dumb : Bool} {call : MenuCall} :
    editBytes size dumb (charOf 'e') call session = some session := by
  rw [editBytes, if_neg (by decide), if_neg (by decide)]

/-- and no cursor. -/
theorem editKey_edit {dumb : Bool} {call : MenuCall} : editKey dumb (charOf 'e') call = call := by
  rw [editKey, if_neg (by decide), if_neg (by decide)]

/-- A key, in the menu of the parsed entries. -/
theorem kept_key {menu : MenuState} {c : UInt8} {input : KeyInput} {answers : KeyAnswers}
    (alone : menu.callers = []) (single : session.callers = [])
    (parsed : ParsedCall start menu.call session.call)
    (memory : SameBelow start.call.heap start.memory session.memory)
    (call : session.menu.call = menu.call) (dumb : session.menu.dumb = menu.dumb)
    (auth : session.menu.auth = menu.auth) (right : answers.passwordRight = input.passwordRight)
    (newFile : answers.newFile = input.newFile)
    (appended : answers.appended = entersArgs input.prompt
      (entryScript size (moveKey session.menu.dumb c session.menu.call).selected session))
    (turn : keyBytes setup size c input session = some next) :
    SessionKept start (next.turned (keyPressed setup menu answers c)) := by
  have alone' : (stopTimeout menu).callers = [] := stopTimeout_callers.trans alone
  have call' : session.menu.call = (stopTimeout menu).call := call.trans stopTimeout_call.symm
  have dumb' : session.menu.dumb = (stopTimeout menu).dumb := dumb.trans stopTimeout_dumb.symm
  have auth' : (stopTimeout menu).auth = session.menu.auth := stopTimeout_auth.trans auth.symm
  rw [← stopTimeout_call] at parsed
  rw [keyPressed]
  generalize stopTimeout menu = stopped at alone' call' dumb' auth' parsed ⊢
  have moved : ParsedCall start (moveKey stopped.dumb c stopped.call) session.call :=
    ⟨(moveKey_configEntries c).trans parsed.parsed, (moveKey_numEntries c).trans parsed.numEntries,
      parsed.menuEntries, parsed.configEntries, parsed.heap⟩
  rw [keyBytes] at turn
  dsimp only at turn ⊢
  rw [call', dumb'] at turn appended
  rw [if_pos moved.parsed] at turn ⊢
  by_cases isBoot : c = charOf '\n' ∨ c = charOf '\r' ∨ c = 6
  · rw [if_pos isBoot] at turn ⊢
    obtain rfl := Option.some.inj turn
    exact .outer alone' single moved memory
  · rw [if_neg isBoot] at turn ⊢
    exact @kept_settings setup size start session next
      { stopped with call := moveKey stopped.dumb c stopped.call } c input answers alone' single
      moved memory auth' right newFile appended turn

/-- A key while an entry is edited. -/
theorem kept_key_nested {menu : MenuState} {c : UInt8} {input : KeyInput} {answers : KeyAnswers}
    {caller : MenuCall} {pointers : CallBytes} (waiting : menu.callers = [caller])
    (waits : session.callers = [pointers]) (parsed : ParsedCall start caller pointers)
    (editing : menu.call.configEntries = false)
    (above : EditsAbove start session.call)
    (memory : SameBelow start.call.heap start.memory session.memory)
    (call : session.menu.call = menu.call) (dumb : session.menu.dumb = menu.dumb)
    (auth : session.menu.auth = menu.auth) (right : answers.passwordRight = input.passwordRight)
    (newFile : answers.newFile = input.newFile)
    (inside : LineInside size c session (moveKey session.menu.dumb c session.menu.call))
    (turn : keyBytes setup size c input session = some next) :
    SessionKept start (next.turned (keyPressed setup menu answers c)) := by
  have waiting' : (stopTimeout menu).callers = [caller] := stopTimeout_callers.trans waiting
  have call' : session.menu.call = (stopTimeout menu).call := call.trans stopTimeout_call.symm
  have dumb' : session.menu.dumb = (stopTimeout menu).dumb := dumb.trans stopTimeout_dumb.symm
  have auth' : (stopTimeout menu).auth = session.menu.auth := stopTimeout_auth.trans auth.symm
  rw [← stopTimeout_call] at editing
  rw [keyPressed]
  generalize stopTimeout menu = stopped at waiting' call' dumb' auth' editing ⊢
  have notParsed : ¬ (moveKey stopped.dumb c stopped.call).configEntries = true := by
    rw [moveKey_configEntries, editing]
    rintro ⟨⟩
  have edited : (editKey stopped.dumb c (moveKey stopped.dumb c stopped.call)).configEntries =
      false := by
    rw [editKey_configEntries, moveKey_configEntries]
    exact editing
  rw [keyBytes] at turn
  dsimp only at turn ⊢
  rw [call', if_neg (by rw [dumb']; exact notParsed)] at turn
  rw [if_neg notParsed]
  rw [call'] at inside
  obtain ⟨after, edits, turn⟩ := Option.bind_eq_some_iff.mp turn
  have stays := editBytes_stays above.room inside edits
  rw [dumb'] at inside edits turn
  have memory' : SameBelow start.call.heap start.memory after.memory :=
    memory.trans (above.list ▸ stays.memory)
  have above' := stays.above above
  have waits' := stays.callers.trans waits
  by_cases isEscape : c = 27
  · rw [if_pos isEscape] at turn ⊢
    obtain rfl := Option.some.inj turn
    exact kept_return_nested waiting' waits' parsed memory'
  rw [if_neg isEscape] at turn ⊢
  by_cases isBoot : c = charOf 'b'
  · rw [if_pos isBoot] at turn ⊢
    obtain rfl := Option.some.inj turn
    exact .nested waiting' waits' parsed edited ⟨above'.list, above'.null, above'.room⟩ memory'
  rw [if_neg isBoot] at turn ⊢
  refine @kept_settings_nested setup size start
    (after.point { after.call with curEntry := some after.call.menuEntries }) next
    { stopped with
      call := { editKey stopped.dumb c (moveKey stopped.dumb c stopped.call) with curEntry := true } }
    c input answers caller pointers waiting' waits' parsed edited
    ⟨above'.list, above'.null, above'.room⟩ memory' ?_ right newFile ?_ turn
  · rw [auth', ← stays.menu]
    rfl
  · rintro rfl
    rw [editBytes_edit] at edits
    obtain rfl := Option.some.inj edits
    dsimp only
    rw [editKey_edit]
    exact inside.edited rfl

/-- Another state of the same call is kept. -/
theorem SessionKept.loops {session' : MenuSession} (kept : SessionKept start session)
    (running : session.menu.loop ≠ .returned) (here : session.menu.loop ≠ .booting)
    (callers : session'.menu.callers = session.menu.callers)
    (parsed : session'.menu.call.configEntries = session.menu.call.configEntries)
    (numEntries : session'.menu.call.numEntries = session.menu.call.numEntries)
    (pointers : session'.call = { session.call with curEntry := session'.call.curEntry })
    (memory : session'.memory = session.memory)
    (waits : session'.callers = session.callers) : SessionKept start session' := by
  have list : session'.call.menuEntries = session.call.menuEntries := by rw [pointers]
  have config : session'.call.configEntries = session.call.configEntries := by rw [pointers]
  have heap : session'.call.heap = session.call.heap := by rw [pointers]
  cases kept with
  | outer alone single isParsed same =>
      exact .outer (callers.trans alone) (waits.trans single)
        ⟨parsed.trans isParsed.parsed, numEntries.trans isParsed.numEntries,
          list.trans isParsed.menuEntries, config.trans isParsed.configEntries,
          heap.trans isParsed.heap⟩ (memory ▸ same)
  | appended _ _ _ booting => exact absurd booting here
  | nested waiting waits' isParsed editing above same =>
      exact .nested (callers.trans waiting) (waits.trans waits') isParsed (parsed.trans editing)
        ⟨list.trans above.list, config.trans above.null, by rw [list, heap]; exact above.room⟩
        (memory ▸ same)
  | returned loop => exact absurd loop running

/-- A turn of the timeout leaves the menus around -/
theorem pollTurn_callers {state : MenuState} {pressed held : Bool} :
    (pollTurn state pressed held).callers = state.callers := by
  rw [pollTurn]
  repeat' split
  all_goals rfl

/-- and the list. -/
theorem pollTurn_call {state : MenuState} {pressed held : Bool} :
    (pollTurn state pressed held).call = state.call := by
  rw [pollTurn]
  repeat' split
  all_goals rfl

/-- A turn of the loop that waits for the menu to be asked for. -/
theorem kept_poll (kept : SessionKept start session) (pressed held : Bool) :
    SessionKept start (session.turned (menuTurn setup session.menu (.poll pressed held))) := by
  by_cases hidden : session.menu.loop = .hidden
  · have polled : menuTurn setup session.menu (.poll pressed held) =
        pollTurn session.menu pressed held := by
      rw [menuTurn.eq_def, hidden]
    rw [polled]
    exact kept.loops (by rw [hidden]; nofun) (by rw [hidden]; nofun) pollTurn_callers
      (congrArg _ pollTurn_call) (congrArg _ pollTurn_call) rfl rfl rfl
  · have idle : menuTurn setup session.menu (.poll pressed held) = session.menu := by
      unfold menuTurn
      split
      next here _ => exact absurd here hidden
      next same => cases same
      next same => cases same
      · rfl
    rw [idle]
    exact kept

/-- Before the timeout has expired, the countdown changes nothing that the keys look at. -/
theorem keyTurn_waits {menu : MenuState} {answers : KeyAnswers}
    (waits : ¬ (0 ≤ menu.grubTimeout ∧ menu.grubTimeout ≤ 0)) :
    ∃ state : MenuState, state.call = { menu.call with curEntry := false } ∧
      state.callers = menu.callers ∧ state.dumb = menu.dumb ∧ state.auth = menu.auth ∧
        keyTurn setup menu answers = match answers.key with
          | none => state
          | some c => keyPressed setup state answers c := by
  by_cases counting : 0 ≤ menu.grubTimeout
  · refine ⟨{ menu with
      call := { menu.call with curEntry := false }
      grubTimeout := menu.grubTimeout - 1 }, rfl, rfl, rfl, rfl, ?_⟩
    cases key : answers.key with
    | none => simp only [keyTurn, if_neg waits, if_pos counting, key]
    | some c => simp only [keyTurn, if_neg waits, if_pos counting, key]
  · refine ⟨{ menu with call := { menu.call with curEntry := false } }, rfl, rfl, rfl, rfl, ?_⟩
    cases key : answers.key with
    | none => simp only [keyTurn, if_neg waits, if_neg counting, key]
    | some c => simp only [keyTurn, if_neg waits, if_neg counting, key]

/-- A turn of the loop that reads keys. -/
theorem kept_keyTurn {input : KeyInput} (kept : SessionKept start session)
    (keys : session.menu.loop = .keys) (may : MayRun size session (.key input))
    (turn : keyTurnBytes setup size input session.fetched = some next) :
    SessionKept start
      (next.turned (keyTurn setup session.menu (input.answers size session.fetched))) := by
  have running : session.menu.loop ≠ .returned := by rw [keys]; nofun
  have here : session.menu.loop ≠ .booting := by rw [keys]; nofun
  have editable := may keys
  rw [keyTurnBytes, show session.fetched.menu.grubTimeout = session.menu.grubTimeout from rfl]
    at turn
  by_cases expired : 0 ≤ session.menu.grubTimeout ∧ session.menu.grubTimeout ≤ 0
  · rw [keyTurn]
    dsimp only
    rw [if_pos expired] at turn ⊢
    obtain rfl := Option.some.inj turn
    exact kept.loops running here rfl rfl rfl rfl rfl rfl
  rw [if_neg expired] at turn
  obtain ⟨state, sameCall, sameCallers, sameDumb, sameAuth, turned⟩ :=
    @keyTurn_waits setup session.menu (input.answers size session.fetched) expired
  rw [turned]
  cases isKey : input.key with
  | none =>
      rw [isKey] at turn
      obtain rfl := Option.some.inj turn
      have silent : (input.answers size session.fetched).key = none := isKey
      rw [silent]
      have parsed : state.call.configEntries = session.menu.call.configEntries := by rw [sameCall]
      have numEntries : state.call.numEntries = session.menu.call.numEntries := by rw [sameCall]
      exact kept.loops running here sameCallers parsed numEntries rfl rfl rfl
  | some c =>
      rw [isKey] at turn
      have pressed : (input.answers size session.fetched).key = some c := isKey
      rw [pressed]
      have appended : (input.answers size session.fetched).appended =
          entersArgs input.prompt (entryScript size (moveKey session.fetched.menu.dumb c
            session.fetched.menu.call).selected session.fetched) := by
        simp only [KeyInput.answers, isKey]
      cases kept with
      | outer alone single parsed same =>
          have fetched : ParsedCall start state.call session.fetched.call := by
            rw [sameCall]
            exact ⟨parsed.parsed, parsed.numEntries, parsed.menuEntries, parsed.configEntries,
              parsed.heap⟩
          exact @kept_key setup size start session.fetched next state c input
            (input.answers size session.fetched) (sameCallers.trans alone) single fetched same
            sameCall.symm sameDumb.symm sameAuth.symm rfl rfl appended turn
      | appended _ _ _ booting => exact absurd booting here
      | nested waiting waits parsed editing above same =>
          have stillEditing : state.call.configEntries = false := by
            rw [sameCall]
            exact editing
          exact @kept_key_nested setup size start session.fetched next state c input
            (input.answers size session.fetched) _ _ (sameCallers.trans waiting) waits parsed
            stillEditing ⟨above.list, above.null, above.room⟩ same sameCall.symm sameDumb.symm
            sameAuth.symm rfl rfl (editable editing c isKey) turn
      | returned loop => exact absurd loop running

/-- What a turn of the loop that boots does to the pointers and the memory. -/
structure Booted (session : MenuSession) (failed : Bool) (left : MenuMemory)
    (next : MenuSession) : Prop where
  callers : next.callers = session.callers
  menuEntries : next.call.menuEntries = session.call.menuEntries
  configEntries : next.call.configEntries = session.call.configEntries
  heap : next.call.heap = session.call.heap
  memory : next.memory = leaveFrom session.memory session.call.heap left
  fallback : failed = true ∧ 0 ≤ session.menu.fallbackEntryno → next.call.curEntry = none

/-- What the boot turn does to the bytes is a boot. -/
theorem booted_of_bootBytes {failed : Bool} {left : MenuMemory}
    (turn : bootBytes size failed left session = some next) : Booted session failed left next := by
  obtain ⟨curEntry, _, rfl⟩ := Option.map_eq_some_iff.mp turn
  exact ⟨rfl, rfl, rfl, rfl, rfl, fun more => if_pos more⟩

/-- A turn of the loop that boots, to which `run_script` returns. -/
theorem kept_boot {answers : BootAnswers} {left : MenuMemory}
    (kept : SessionKept start session) (booting : session.menu.loop = .booting)
    (may : MayRun size session (.boot answers left))
    (turn : bootBytes size answers.failed left session = some next) :
    SessionKept start (next.turned (bootTurn session.menu answers)) := by
  obtain ⟨waits', list', config', heap', memory', _⟩ := booted_of_bootBytes turn
  rw [bootTurn]
  dsimp only
  cases kept with
  | outer alone single parsed same =>
      have same' : SameBelow start.call.heap start.memory next.memory := by
        rw [memory']
        exact same.leave (Nat.le_of_eq parsed.heap.symm) left
      have parsed' : ∀ call : MenuCall, call.configEntries = session.menu.call.configEntries →
          call.numEntries = session.menu.call.numEntries → ParsedCall start call next.call :=
        fun call isParsed number =>
          ⟨isParsed.trans parsed.parsed, number.trans parsed.numEntries,
            list'.trans parsed.menuEntries, config'.trans parsed.configEntries,
            heap'.trans parsed.heap⟩
      split
      · split
        · exact .outer alone (waits'.trans single) (parsed' _ rfl rfl) same'
        · exact kept_restart alone (waits'.trans single) (parsed' _ rfl rfl) same'
      · exact kept_restart alone (waits'.trans single) (parsed' _ rfl rfl) same'
  | appended alone forgotten _ _ =>
      rcases may booting with parsed | ⟨waiting, _⟩
      · cases parsed.symm.trans forgotten
      · exact absurd alone waiting
  | nested waiting waits parsed editing above same =>
      have same' : SameBelow start.call.heap start.memory next.memory := by
        rw [memory']
        exact same.leave (above.list ▸ above.room) left
      have above' : EditsAbove start next.call :=
        ⟨list'.trans above.list, config'.trans above.null, by rw [list', heap']; exact above.room⟩
      rcases may booting with isParsed | ⟨_, noFallback⟩
      · cases isParsed.symm.trans editing
      · split
        next isFailed =>
          rw [if_neg fun more => noFallback ⟨isFailed, more⟩]
          exact kept_restart_nested waiting (waits'.trans waits) parsed editing above' same'
        · exact kept_restart_nested waiting (waits'.trans waits) parsed editing above' same'
  | returned loop => cases loop.symm.trans booting

/-- What a turn that may run keeps. -/
theorem kept_turn {input : SessionInput} (kept : SessionKept start session)
    (may : MayRun size session input) (turn : sessionTurn setup size session input = some next) :
    SessionKept start next := by
  cases input with
  | poll pressed held =>
      obtain rfl := Option.some.inj turn
      exact kept_poll kept pressed held
  | key input =>
      rw [sessionTurn] at turn
      split at turn
      next keys =>
        obtain ⟨after, turned, rfl⟩ := Option.map_eq_some_iff.mp turn
        exact kept_keyTurn kept keys may turned
      · obtain rfl := Option.some.inj turn
        exact kept
  | boot answers left =>
      rw [sessionTurn] at turn
      split at turn
      next booting =>
        obtain ⟨after, turned, rfl⟩ := Option.map_eq_some_iff.mp turn
        exact kept_boot kept booting may turned
      · obtain rfl := Option.some.inj turn
        exact kept

end Turns

/-! ## Every session -/

/-- The menu shows the entries that the session started with. -/
structure Restored (start session : MenuSession) : Prop where
  menuEntries : session.call.menuEntries = start.call.menuEntries
  configEntries : session.call.configEntries = start.call.configEntries
  heap : session.call.heap = start.call.heap
  numEntries : session.menu.call.numEntries = start.menu.call.numEntries
  memory : SameBelow start.call.heap start.memory session.memory

/-- The next attempt runs this fallback entry of the parsed configuration. -/
structure FallsBack (size : Nat) (start : MenuSession) (fallback : Int) (session : MenuSession) :
    Prop where
  configEntries : session.call.configEntries = start.call.configEntries
  script : bootScript size session = start.call.configEntries.bind fun configEntries =>
    entryAt session.memory size configEntries fallback true
  memory : SameBelow start.call.heap start.memory session.memory

/-- What `run_script` leaves when it returns: with a fallback entry to try, that entry is
the next attempt; and if not, and the parsed entries were booted, they are shown again. -/
def BootRestores (size : Nat) (start session : MenuSession) (failed : Bool)
    (next : MenuSession) : Prop :=
  (failed = true ∧ 0 ≤ session.menu.fallbackEntryno →
    FallsBack size start (session.menu.fallbackEntries session.menu.fallbackEntryno) next) ∧
  (session.menu.callers = [] → next.menu.loop ≠ .booting → Restored start next)

/-- The states of a session whose turns so far might run. -/
inductive SessionRun (setup : MenuSetup) (size : Nat) (start : MenuSession) :
    MenuSession → Prop where
  | start : SessionRun setup size start start
  | turn {session next : MenuSession} {input : SessionInput}
      (before : SessionRun setup size start session) (may : MayRun size session input)
      (turn : sessionTurn setup size session input = some next) : SessionRun setup size start next

section Sessions

variable {setup : MenuSetup} {size : Nat} {start session next : MenuSession}

/-- Every state of a session is kept. -/
theorem kept_of_run (kept : SessionKept start start) (run : SessionRun setup size start session) :
    SessionKept start session := by
  induction run with
  | start => exact kept
  | turn _ may turn inductionHypothesis => exact kept_turn inductionHypothesis may turn

/-- `run_menu` starts with the parsed entries. -/
theorem kept_start (menu : MenuState) (memory : MenuMemory)
    (menuEntries configEntries heap : Nat) (numEntries entryno : Int) :
    SessionKept (runMenuSession menu memory menuEntries configEntries heap numEntries entryno)
      (runMenuSession menu memory menuEntries configEntries heap numEntries entryno) := by
  refine .outer rfl rfl ⟨?_, rfl, rfl, rfl, rfl⟩ (.refl _ _)
  exact restart_configEntries _

/-- In a session whose turns so far might run, the next return of `run_script` leaves what
it should just if it may happen. -/
theorem restores_iff_of_kept {answers : BootAnswers} {left : MenuMemory}
    {list : Nat} (parsed : start.call.configEntries = some list)
    (kept : SessionKept start session) (booting : session.menu.loop = .booting)
    (turn : sessionTurn setup size session (.boot answers left) = some next) :
    BootRestores size start session answers.failed next ↔
      MayRun size session (.boot answers left) := by
  rw [sessionTurn, if_pos booting] at turn
  obtain ⟨after, turned, rfl⟩ := Option.map_eq_some_iff.mp turn
  have booted := booted_of_bootBytes turned
  have lost : session.call.configEntries = none →
      after.call.configEntries ≠ start.call.configEntries := by
    intro null
    rw [booted.configEntries, null, parsed]
    rintro ⟨⟩
  cases kept with
  | outer alone single isParsed same =>
      refine iff_of_true ⟨fun fallback => ?_, fun _ waits => ?_⟩ fun _ => .inl isParsed.parsed
      · refine ⟨booted.configEntries.trans isParsed.configEntries, ?_, ?_⟩
        · have noEntry := booted.fallback fallback
          have list := booted.configEntries.trans isParsed.configEntries
          have script : ∀ turned : MenuState, bootScript size (after.turned turned) =
              after.call.configEntries.bind fun configEntries =>
                entryAt after.memory size configEntries turned.call.selected true := by
            intro turned
            have none_ : (after.turned turned).call.curEntry = none := noEntry
            rw [bootScript, none_]
            rfl
          rw [script, list, bootTurn_fallback fallback]
          change (start.call.configEntries.bind fun configEntries =>
            entryAt after.memory size configEntries (0 + _) true) = _
          rw [Int.zero_add]
          rfl
        · change SameBelow start.call.heap start.memory after.memory
          rw [booted.memory]
          exact same.leave (Nat.le_of_eq isParsed.heap.symm) left
      · have noFallback : ¬ (answers.failed = true ∧ 0 ≤ session.menu.fallbackEntryno) := by
          intro fallback
          apply waits
          change (bootTurn session.menu answers).loop = .booting
          rw [bootTurn_fallback fallback]
          exact booting
        refine ⟨booted.menuEntries.trans isParsed.menuEntries,
          booted.configEntries.trans isParsed.configEntries, booted.heap.trans isParsed.heap,
          ?_, ?_⟩
        · change (bootTurn session.menu answers).call.numEntries = _
          rw [bootTurn_ends noFallback, endBoot, restart_numEntries]
          exact isParsed.numEntries
        · change SameBelow start.call.heap start.memory after.memory
          rw [booted.memory]
          exact same.leave (Nat.le_of_eq isParsed.heap.symm) left
  | appended alone forgotten null _ =>
      refine iff_of_false (fun restores => ?_) fun may => ?_
      · by_cases fallback : answers.failed = true ∧ 0 ≤ session.menu.fallbackEntryno
        · exact lost null (restores.1 fallback).configEntries
        · refine lost null (restores.2 alone ?_).configEntries
          change (bootTurn session.menu answers).loop ≠ .booting
          rw [bootTurn_ends fallback]
          exact restart_waits _
      · rcases may booting with isParsed | ⟨waiting, _⟩
        · cases isParsed.symm.trans forgotten
        · exact waiting alone
  | nested waiting waits isParsed editing above same =>
      have isWaiting : session.menu.callers ≠ [] := by rw [waiting]; rintro ⟨⟩
      constructor
      · exact fun restores _ => .inr ⟨isWaiting, fun fallback =>
          lost above.null (restores.1 fallback).configEntries⟩
      · intro may
        rcases may booting with parsedCall | ⟨_, noFallback⟩
        · cases parsedCall.symm.trans editing
        · exact ⟨fun fallback => absurd fallback noFallback, fun alone => absurd alone isWaiting⟩
  | returned loop => cases loop.symm.trans booting

end Sessions

/-- When `run_script` returns in a session of the menu, the parsed entries are shown again
and a fallback entry is one of theirs, just if `run_script` did not run a copy of an entry:
one made by `a`, or one being edited while there is a fallback entry to try. -/
theorem runMenu_restores_iff {setup : MenuSetup} {size : Nat} (menu : MenuState)
    (memory : MenuMemory) (menuEntries configEntries heap : Nat) (numEntries entryno : Int)
    {session next : MenuSession} {answers : BootAnswers} {left : MenuMemory}
    (reached : SessionRun setup size
      (runMenuSession menu memory menuEntries configEntries heap numEntries entryno) session)
    (booting : session.menu.loop = .booting)
    (turn : sessionTurn setup size session (.boot answers left) = some next) :
    BootRestores size
        (runMenuSession menu memory menuEntries configEntries heap numEntries entryno) session
        answers.failed next ↔
      MayRun size session (.boot answers left) :=
  restores_iff_of_kept rfl (kept_of_run (kept_start _ _ _ _ _ _ _) reached) booting turn

/-- The bytes of one entry: its script, and its title. -/
def oneEntryBytes : List UInt8 := encodeGroup [ascii "kernel /k"] ++ [0] ++ encodeGroup [ascii "t"]

/-- The menu of this entry. -/
def oneEntry : MenuSession :=
  runMenuSession (plainMenu false) (fun address => oneEntryBytes[address]?.getD 0) 12 0 15 1 0

/-- A key, with a line for the prompt it may lead to. -/
def pressedKey (c : UInt8) : SessionInput :=
  .key
    { key := some c
      passwordRight := false
      newFile := false
      prompt := .entered (ascii "quiet")
      dumb := false
      consoleDumb := false
      left := fun _ => 0 }

/-- Booting fails, and the terminals are as before. -/
def bootFails : BootAnswers := ⟨true, false, false, false⟩

/-- Booting comes back without an error. -/
def bootReturns : BootAnswers := ⟨false, false, false, false⟩

/-- Editing an entry, leaving the editor and booting. -/
theorem runMenu_restores_edited :
    ∃ session next, sessionTurn ⟨false, false⟩ 40 session (.boot bootFails fun _ => 0) = some next ∧
      BootRestores 40 oneEntry session true next := by
  have turns : (((sessionTurn ⟨false, false⟩ 40 oneEntry (pressedKey (charOf 'e'))).bind
      (sessionTurn ⟨false, false⟩ 40 · (pressedKey 27))).bind
      (sessionTurn ⟨false, false⟩ 40 · (pressedKey 6))).map
        (fun session => (session.menu.loop, session.menu.call.configEntries,
          (sessionTurn ⟨false, false⟩ 40 session (.boot bootFails fun _ => 0)).isSome)) =
      some (.booting, true, true) := by
    decide +kernel
  obtain ⟨session, third, facts⟩ := Option.map_eq_some_iff.mp turns
  obtain ⟨edited, second, third⟩ := Option.bind_eq_some_iff.mp third
  obtain ⟨editing, first, second⟩ := Option.bind_eq_some_iff.mp second
  obtain ⟨booting, parsed, returns⟩ : session.menu.loop = .booting ∧
      session.menu.call.configEntries = true ∧
        (sessionTurn ⟨false, false⟩ 40 session (.boot bootFails fun _ => 0)).isSome = true := by
    simpa only [Prod.mk.injEq] using facts
  obtain ⟨next, turn⟩ := Option.isSome_iff_exists.mp returns
  have quiet : ∀ c : UInt8, c ≠ charOf 'd' → ¬ (c = charOf 'o' ∨ c = charOf 'O') →
      c ≠ charOf 'e' → ∀ session : MenuSession, MayRun 40 session (pressedKey c) := by
    rintro c notDelete notInsert notEdit session _ _ _ ⟨⟩
    exact ⟨fun isDelete => absurd isDelete notDelete, fun isInsert => absurd isInsert notInsert,
      fun isEdit => absurd isEdit notEdit⟩
  have opens : MayRun 40 oneEntry (pressedKey (charOf 'e')) := fun _ editing =>
    absurd editing (by decide : ¬ oneEntry.menu.call.configEntries = false)
  have reached : SessionRun ⟨false, false⟩ 40 oneEntry session :=
    .turn (.turn (.turn .start opens first)
      (quiet 27 (by decide) (by decide) (by decide) editing) second)
      (quiet 6 (by decide) (by decide) (by decide) edited) third
  exact ⟨session, next, turn, (runMenu_restores_iff _ _ _ _ _ _ _ reached booting turn).mpr
    fun _ => .inl parsed⟩

/-- After `a` the menu of the parsed entries is lost, even when booting succeeds. -/
theorem runMenu_forgets_entries :
    ¬ ∀ session next,
      sessionTurn ⟨false, false⟩ 40 oneEntry (pressedKey (charOf 'a')) = some session →
      sessionTurn ⟨false, false⟩ 40 session (.boot bootReturns fun _ => 0) = some next →
        BootRestores 40 oneEntry session false next := by
  intro restores
  have turns : (sessionTurn ⟨false, false⟩ 40 oneEntry (pressedKey (charOf 'a'))).map
      (fun session => (session.menu.callers,
        (sessionTurn ⟨false, false⟩ 40 session (.boot bootReturns fun _ => 0)).map
          fun next => (next.menu.loop, next.call.configEntries))) =
      some ([], some (.keys, none)) := by
    decide +kernel
  obtain ⟨session, first, facts⟩ := Option.map_eq_some_iff.mp turns
  obtain ⟨alone, second⟩ := Prod.mk.inj facts
  obtain ⟨next, second, facts⟩ := Option.map_eq_some_iff.mp second
  obtain ⟨keys, null⟩ := Prod.mk.inj facts
  have restored := (restores session next first second).2 alone (by rw [keys]; nofun)
  exact nomatch null.symm.trans restored.configEntries

end GrubLegacy.Menu
