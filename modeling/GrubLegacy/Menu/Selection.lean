import GrubLegacy.Base.Runs
import GrubLegacy.Menu.RunMenu

/-!
# What the menu has selected

The entry highlighted or booted is one of the entries there are, over whole runs
of the menu. Two keys can break this: Page Down scrolls a dumb terminal, and `d`
removes the only entry left once the list of entries is forgotten.
-/

namespace GrubLegacy.Menu

open Base CStrings

/-- The selected entry is one of the entries. -/
structure InRange (call : MenuCall) : Prop where
  first : 0 ≤ call.firstEntry
  entry : 0 ≤ call.entryno
  last : call.firstEntry + call.entryno < call.numEntries

/-- It is also on the page, which a dumb terminal does not scroll. -/
structure OnPage (dumb : Bool) (call : MenuCall) : Prop extends InRange call where
  unscrolled : dumb = true → call.firstEntry = 0
  page : dumb = false → call.entryno ≤ 11

/-! ## One key -/

section Keys

variable {dumb : Bool} {call : MenuCall}

/-- What `restart` makes of the selection. -/
theorem scrollPage_eq (call : MenuCall) :
    scrollPage call =
      { call with
        firstEntry := call.firstEntry + (call.entryno - 11).toNat
        entryno := call.entryno - (call.entryno - 11).toNat } := by
  have turns : ∀ count : Nat,
      Nat.repeat (fun call : MenuCall =>
          { call with firstEntry := call.firstEntry + 1, entryno := call.entryno - 1 })
        count call =
      { call with firstEntry := call.firstEntry + count, entryno := call.entryno - count } := by
    intro count
    induction count with
    | zero => simp [Nat.repeat]
    | succ count ih =>
        rw [Nat.repeat, ih]
        simp only [MenuCall.mk.injEq, and_true]
        omega
  exact turns _

/-- On a terminal with pages the entry is on the page if it is one of its twelve. -/
theorem onPage_full (inRange : InRange call) (page : call.entryno ≤ 11) : OnPage false call :=
  ⟨inRange, nofun, fun _ => page⟩

/-- On a dumb terminal it is if nothing is scrolled. -/
theorem onPage_dumb (inRange : InRange call) (unscrolled : call.firstEntry = 0) :
    OnPage true call :=
  ⟨inRange, fun _ => unscrolled, nofun⟩

/-- A page is made for any entry in range. -/
theorem InRange.scrollPage (inRange : InRange call) : OnPage false (scrollPage call) := by
  obtain ⟨first, entry, last⟩ := inRange
  rw [scrollPage_eq]
  apply onPage_full
  · constructor <;> dsimp only <;> omega
  · dsimp only
    omega

/-- The entry is still on the page a step up, -/
theorem OnPage.moveUp (onPage : OnPage dumb call) : OnPage dumb (moveUp dumb call) := by
  obtain ⟨⟨first, entry, last⟩, unscrolled, page⟩ := onPage
  rw [Menu.moveUp]
  cases dumb with
  | false =>
      have page := page rfl
      rw [if_neg (by decide)]
      split
      · exact onPage_full ⟨first, by dsimp only; omega, by dsimp only; omega⟩ (by dsimp only; omega)
      · split
        · exact onPage_full ⟨by dsimp only; omega, entry, by dsimp only; omega⟩ page
        · exact onPage_full ⟨first, entry, last⟩ page
  | true =>
      have unscrolled := unscrolled rfl
      rw [if_pos rfl]
      split
      · exact onPage_dumb ⟨first, by dsimp only; omega, by dsimp only; omega⟩ unscrolled
      · exact onPage_dumb ⟨first, entry, last⟩ unscrolled

/-- a step down -/
theorem OnPage.moveDown (onPage : OnPage dumb call)
    (more : call.firstEntry + call.entryno + 1 < call.numEntries) :
    OnPage dumb (moveDown dumb call) := by
  obtain ⟨⟨first, entry, last⟩, unscrolled, page⟩ := onPage
  rw [Menu.moveDown]
  cases dumb with
  | false =>
      have page := page rfl
      rw [if_neg (by decide)]
      split
      · exact onPage_full ⟨first, by dsimp only; omega, by dsimp only; omega⟩ (by dsimp only; omega)
      · split
        · exact onPage_full ⟨by dsimp only; omega, entry, by dsimp only; omega⟩ page
        · exact onPage_full ⟨first, entry, last⟩ page
  | true =>
      rw [if_pos rfl]
      exact onPage_dumb ⟨first, by dsimp only; omega, by dsimp only; omega⟩ (unscrolled rfl)

/-- and a page up, -/
theorem OnPage.pageUp (onPage : OnPage dumb call) : OnPage dumb (pageUp call) := by
  obtain ⟨⟨first, entry, last⟩, unscrolled, page⟩ := onPage
  rw [Menu.pageUp]
  dsimp only
  split
  · have inRange : InRange { call with
        firstEntry := 0
        entryno := if call.entryno + (call.firstEntry - 12) < 0 then 0
          else call.entryno + (call.firstEntry - 12) } := by
      constructor <;> dsimp only <;> omega
    refine ⟨inRange, fun _ => rfl, fun isFull => ?_⟩
    have page := page isFull
    dsimp only
    omega
  · refine ⟨⟨by dsimp only; omega, entry, by dsimp only; omega⟩, fun isDumb => ?_, page⟩
    have unscrolled := unscrolled isDumb
    dsimp only
    omega

/-- Page Down scrolls, so a dumb terminal must show everything on one page. -/
theorem OnPage.pageDown (onPage : OnPage dumb call)
    (onePage : dumb = true → call.numEntries ≤ 12) : OnPage dumb (pageDown call) := by
  obtain ⟨⟨first, entry, last⟩, unscrolled, page⟩ := onPage
  rw [Menu.pageDown]
  dsimp only
  split
  · have inRange : InRange { call with
        firstEntry := if call.numEntries - 12 < 0 then 0 else call.numEntries - 12
        entryno := call.numEntries -
          (if call.numEntries - 12 < 0 then 0 else call.numEntries - 12) - 1 } := by
      constructor <;> dsimp only <;> omega
    refine ⟨inRange, fun isDumb => ?_, fun _ => by dsimp only; omega⟩
    have onePage := onePage isDumb
    dsimp only
    omega
  · refine ⟨⟨by dsimp only; omega, entry, by dsimp only; omega⟩, fun isDumb => ?_, page⟩
    have onePage := onePage isDumb
    dsimp only
    omega

/-- so after every key that moves it, but for Page Down on a dumb terminal. -/
theorem OnPage.moveKey (onPage : OnPage dumb call) {c : UInt8}
    (onePage : c = 3 → dumb = true → call.numEntries ≤ 12) :
    OnPage dumb (moveKey dumb c call) := by
  rw [Menu.moveKey]
  split
  · exact onPage.moveUp
  · split
    next down => exact onPage.moveDown down.2
    · split
      · exact onPage.pageUp
      · split
        next isPageDown => exact onPage.pageDown (onePage isPageDown)
        · exact onPage

/-- A key that moves the cursor adds no entry, -/
theorem moveKey_numEntries (c : UInt8) : (moveKey dumb c call).numEntries = call.numEntries := by
  simp only [moveKey, moveUp, moveDown, pageUp, pageDown]
  repeat' split
  all_goals rfl

/-- and leaves which list is shown. -/
theorem moveKey_configEntries (c : UInt8) :
    (moveKey dumb c call).configEntries = call.configEntries := by
  simp only [moveKey, moveUp, moveDown, pageUp, pageDown]
  repeat' split
  all_goals rfl

/-- The key for the command line moves nothing. -/
theorem moveKey_command : moveKey dumb (charOf 'c') call = call := by
  rw [moveKey, if_neg (by decide), if_neg (fun down => absurd down.1 (by decide)),
    if_neg (by decide), if_neg (by decide)]

/-- `c` is no key that edits. -/
theorem editKey_command : editKey dumb (charOf 'c') call = call := by
  rw [editKey, if_neg (by decide), if_neg (by decide)]

/-- The entry is on the page with a line inserted, -/
theorem OnPage.insertLine (onPage : OnPage dumb call) (c : UInt8) :
    OnPage dumb (insertLine dumb c call) := by
  obtain ⟨⟨first, entry, last⟩, unscrolled, page⟩ := onPage
  rw [Menu.insertLine]
  split
  · split
    next room =>
      refine ⟨⟨first, by dsimp only; omega, by dsimp only; omega⟩, unscrolled, fun isFull => ?_⟩
      have short : call.entryno < 11 := by simpa [isFull] using room
      dsimp only
      omega
    next full =>
      refine ⟨⟨by dsimp only; omega, entry, by dsimp only; omega⟩, fun isDumb => ?_, page⟩
      simp [isDumb] at full
  · exact ⟨⟨first, entry, by dsimp only; omega⟩, unscrolled, page⟩

/-- Removing a line keeps the selection if another is left. -/
theorem OnPage.deleteLine (onPage : OnPage dumb call) (another : call.numEntries ≠ 1) :
    OnPage dumb (deleteLine call) := by
  obtain ⟨⟨first, entry, last⟩, unscrolled, page⟩ := onPage
  have bounded : call.firstEntry = 0 ∨ call.entryno ≤ 11 := by
    cases dumb with
    | false => exact .inr (page rfl)
    | true => exact .inl (unscrolled rfl)
  rw [Menu.deleteLine]
  dsimp only
  split
  · have inRange : InRange { call with
        firstEntry :=
          if call.firstEntry ≠ 0 ∧ call.numEntries - 1 < 12 + call.firstEntry then
            call.firstEntry - 1
          else call.firstEntry
        entryno :=
          if call.numEntries - 1 ≤ call.entryno then call.entryno - 1 else call.entryno
        numEntries := call.numEntries - 1 } := by
      constructor <;> dsimp only <;> (repeat' split) <;> omega
    refine ⟨inRange, fun isDumb => ?_, fun isFull => ?_⟩
    · have unscrolled := unscrolled isDumb
      dsimp only
      rw [if_neg (by omega)]
      exact unscrolled
    · have page := page isFull
      dsimp only
      omega
  · exact ⟨⟨first, entry, last⟩, unscrolled, page⟩

/-- and after every key that edits, unless the last line is deleted. -/
theorem OnPage.editKey (onPage : OnPage dumb call) {c : UInt8}
    (another : c = charOf 'd' → call.numEntries ≠ 1) : OnPage dumb (editKey dumb c call) := by
  rw [Menu.editKey]
  split
  next isDelete => exact onPage.deleteLine (another isDelete)
  · split
    · exact onPage.insertLine c
    · exact onPage

/-- A key that edits leaves which list is shown. -/
theorem editKey_configEntries (c : UInt8) :
    (editKey dumb c call).configEntries = call.configEntries := by
  simp only [editKey, deleteLine, insertLine]
  repeat' split
  all_goals rfl

end Keys

/-! ## The property and its conditions -/

/-- The call made with the parsed entries; a call above it edits one of them. -/
def outerCall (state : MenuState) : MenuCall := state.callers.getLastD state.call

/-- Up to the first negative one, the fallback entries are among the entries. -/
def FallbacksBelow (fallbackEntries : Int → Int) (numEntries : Int) : Prop :=
  ∀ i, 0 ≤ i → i < maxFallbackEntries → (∀ j, 0 ≤ j → j ≤ i → 0 ≤ fallbackEntries j) →
    fallbackEntries i < numEntries

/-- The next fallback entry, if there is one, comes before the first negative one. -/
def FallbackReady (state : MenuState) : Prop :=
  0 ≤ state.fallbackEntryno → state.fallbackEntryno < maxFallbackEntries ∧
    ∀ j, 0 ≤ j → j ≤ state.fallbackEntryno → 0 ≤ state.fallbackEntries j

/-- The menu of the parsed entries selects one of them. On a full terminal only a
fallback entry about to be booted can lie below the first page. -/
structure Selects (state : MenuState) : Prop where
  inRange : InRange (outerCall state)
  unscrolled : state.dumb = true → (outerCall state).firstEntry = 0
  page : state.callers = [] → state.dumb = false →
    state.call.entryno ≤ 11 ∨ state.loop = .booting ∧ state.call.firstEntry = 0
  fetched : state.callers = [] → state.loop = .booting → state.call.curEntry = false →
    state.call.configEntries = true

/-- The keys for the settings are enabled. -/
def MayChange (setup : MenuSetup) (state : MenuState) : Prop :=
  setup.secureLocked = false ∧ (state.auth = true ∨ setup.password = false)

/-- `run_script` failed and there is a fallback entry to try. -/
def TriesFallback (state : MenuState) (answers : BootAnswers) : Prop :=
  answers.failed = true ∧ 0 ≤ state.fallbackEntryno

/-- The menu is shown again on a dumb terminal: the one the script leaves, or the console
if that one does not start. -/
def BootAnswers.ShowsDumb (answers : BootAnswers) : Prop :=
  if answers.startupFailed then answers.consoleDumb = true else answers.dumb = true

/-- What must not happen in a turn: Page Down on a dumb terminal with more than a
page of entries, `d` on the only entry left, a fallback after the entries were
forgotten, and a scrolled menu moved to a dumb terminal, by the command line, by a booted
script or because the terminal does not start again. -/
def Steady (setup : MenuSetup) (state : MenuState) : MenuTurn → Prop
  | .poll _ _ => True
  | .key answers => state.loop = .keys → ∀ c ∈ answers.key,
      (state.callers = [] → c = 3 → state.dumb = true → state.call.numEntries ≤ 12) ∧
      (state.callers = [] → c = charOf 'd' → state.call.configEntries = false →
        state.call.numEntries ≠ 1) ∧
      (c = charOf 'c' → MayChange setup state → answers.dumb = true →
        (outerCall state).firstEntry = 0)
  | .boot answers => state.loop = .booting →
      (TriesFallback state answers → state.callers = [] → state.call.configEntries = true) ∧
      (TriesFallback state answers → state.callers ≠ [] → answers.dumb = true →
        (outerCall state).firstEntry = 0) ∧
      (¬ TriesFallback state answers → answers.ShowsDumb → (outerCall state).firstEntry = 0)

/-! ## The invariant -/

/-- What holds of the call with the parsed entries, whether it runs or waits. -/
structure Sound (state : MenuState) (call : MenuCall) : Prop where
  inRange : InRange call
  unscrolled : state.dumb = true → call.firstEntry = 0
  fallbacks : call.configEntries = true → FallbacksBelow state.fallbackEntries call.numEntries
  ready : FallbackReady state

/-- The call with the parsed entries runs. -/
structure OuterInv (state : MenuState) : Prop where
  alone : state.callers = []
  sound : Sound state state.call
  page : state.dumb = false →
    state.call.entryno ≤ 11 ∨ state.loop = .booting ∧ state.call.firstEntry = 0
  fetched : state.loop = .booting → state.call.curEntry = false →
    state.call.configEntries = true
  forgotten : state.call.configEntries = false → state.grubTimeout < 0

/-- It waits while one of its entries is edited. -/
structure NestedInv (state : MenuState) (caller : MenuCall) : Prop where
  waiting : state.callers = [caller]
  parsed : caller.configEntries = true
  editing : state.call.configEntries = false
  quiet : state.grubTimeout < 0
  sound : Sound state caller

def MenuInv (state : MenuState) : Prop := OuterInv state ∨ ∃ caller, NestedInv state caller

/-- The invariant says that the menu selects the entry it shows. -/
theorem MenuInv.selects {state : MenuState} (inv : MenuInv state) : Selects state := by
  rcases inv with outer | ⟨caller, nested⟩
  · have isOuter : outerCall state = state.call := by rw [outerCall, outer.alone]; rfl
    exact
      { inRange := by rw [isOuter]; exact outer.sound.inRange
        unscrolled := by rw [isOuter]; exact outer.sound.unscrolled
        page := fun _ => outer.page
        fetched := fun _ => outer.fetched }
  · have isOuter : outerCall state = caller := by rw [outerCall, nested.waiting]; rfl
    have running : state.callers ≠ [] := by rw [nested.waiting]; exact List.cons_ne_nil _ _
    exact
      { inRange := by rw [isOuter]; exact nested.sound.inRange
        unscrolled := by rw [isOuter]; exact nested.sound.unscrolled
        page := fun alone => absurd alone running
        fetched := fun alone => absurd alone running }

/-- A menu that restarts boots nothing yet. -/
theorem restart_waits (state : MenuState) : (restart state).loop ≠ .booting := by
  rw [restart]
  dsimp only
  split <;> nofun

/-- The running call goes on at `restart`. -/
theorem outer_restart {state : MenuState} (alone : state.callers = [])
    (sound : Sound state state.call)
    (forgotten : state.call.configEntries = false → state.grubTimeout < 0) :
    OuterInv (restart state) := by
  have ⟨onPage, unchanged⟩ : OnPage state.dumb (restart state).call ∧
      (restart state).call.configEntries = state.call.configEntries ∧
      (restart state).call.numEntries = state.call.numEntries := by
    cases isDumb : state.dumb with
    | false =>
        have scrolled : (restart state).call = scrollPage state.call := by simp [restart, isDumb]
        rw [scrolled]
        exact ⟨sound.inRange.scrollPage, by rw [scrollPage_eq]; exact ⟨rfl, rfl⟩⟩
    | true =>
        have kept : (restart state).call = state.call := by simp [restart, isDumb]
        rw [kept]
        exact ⟨onPage_dumb sound.inRange (sound.unscrolled isDumb), rfl, rfl⟩
  exact
    { alone
      sound :=
        { inRange := onPage.toInRange
          unscrolled := onPage.unscrolled
          fallbacks := fun parsed => by
            rw [unchanged.2]
            exact sound.fallbacks (unchanged.1 ▸ parsed)
          ready := sound.ready }
      page := fun isFull => .inl (onPage.page isFull)
      fetched := fun booting => absurd booting (restart_waits state)
      forgotten := fun none_ => forgotten (unchanged.1 ▸ none_) }

/-- A restart keeps the invariant of a menu within a menu. -/
theorem nested_restart {state : MenuState} {caller : MenuCall} (nested : NestedInv state caller) :
    NestedInv (restart state) caller := by
  have editing : (restart state).call.configEntries = false := by
    rw [restart]
    dsimp only
    split
    · exact nested.editing
    · rw [scrollPage_eq]
      exact nested.editing
  have ⟨inRange, unscrolled, fallbacks, ready⟩ := nested.sound
  exact ⟨nested.waiting, nested.parsed, editing, nested.quiet, inRange, unscrolled, fallbacks, ready⟩

/-- The call that edits an entry returns to the one with the parsed entries. -/
theorem nested_return {state : MenuState} {caller : MenuCall} (nested : NestedInv state caller) :
    OuterInv (returnMenu state) := by
  have ⟨inRange, unscrolled, fallbacks, ready⟩ := nested.sound
  rw [returnMenu, nested.waiting]
  exact outer_restart rfl ⟨inRange, unscrolled, fallbacks, ready⟩ fun _ => nested.quiet

/-- A menu that returns to the outer list keeps the invariant there. -/
theorem outer_return {state : MenuState} (outer : OuterInv state) (keys : state.loop = .keys) :
    OuterInv (returnMenu state) := by
  have ⟨alone, ⟨inRange, unscrolled, fallbacks, ready⟩, page, _, forgotten⟩ := outer
  rw [returnMenu, alone]
  refine ⟨rfl, ⟨inRange, unscrolled, fallbacks, ready⟩, fun isFull => ?_, nofun, forgotten⟩
  rcases page isFull with onPage | ⟨booting, _⟩
  · exact .inl onPage
  · rw [keys] at booting
    cases booting

/-- The keys for the settings, in the menu of the parsed entries. -/
theorem outer_settings {setup : MenuSetup} {state : MenuState} {answers : KeyAnswers} {c : UInt8}
    (outer : OuterInv state) (keys : state.loop = .keys) (quiet : state.grubTimeout < 0)
    (steady : c = charOf 'c' → MayChange setup state → answers.dumb = true →
      state.call.firstEntry = 0) :
    MenuInv (settingsKey setup state answers c) := by
  have ⟨alone, ⟨inRange, unscrolled, fallbacks, ready⟩, page, fetched, forgotten⟩ := outer
  have sound : Sound state state.call := outer.sound
  rw [settingsKey]
  by_cases locked : setup.secureLocked = true
  · rw [if_pos locked]
    exact .inl outer
  rw [if_neg locked]
  by_cases guarded : (!state.auth && setup.password) = true
  · rw [if_pos guarded]
    split
    · split
      · split
        · exact .inl (outer_return ⟨alone, ⟨inRange, unscrolled, fallbacks, ready⟩, page, fetched,
            forgotten⟩ keys)
        · exact .inl (outer_restart alone ⟨inRange, unscrolled, fallbacks, ready⟩ forgotten)
      · exact .inl (outer_restart alone sound forgotten)
    · exact .inl outer
  rw [if_neg guarded]
  split
  · split
    next parsed =>
      refine .inr ⟨state.call, nested_restart ⟨?_, parsed, rfl, quiet, inRange, unscrolled,
        fallbacks, ready⟩⟩
      dsimp only
      rw [alone]
    · exact .inl (outer_restart alone sound forgotten)
  · split
    next isCommandLine =>
      have mayChange : MayChange setup state := by
        refine ⟨by simpa using locked, ?_⟩
        cases authed : state.auth with
        | true => exact .inl rfl
        | false => exact .inr (by simpa [authed] using guarded)
      exact .inl (outer_restart alone ⟨inRange, steady isCommandLine mayChange, fallbacks, ready⟩
        forgotten)
    · split
      · split
        · refine .inl ⟨alone, ⟨⟨inRange.first, inRange.entry, inRange.last⟩, unscrolled, nofun,
            ready⟩, fun isFull => ?_,
            nofun, fun _ => quiet⟩
          exact (page isFull).imp_right fun ⟨_, top⟩ => ⟨rfl, top⟩
        · exact .inl (outer_restart alone sound forgotten)
      · exact .inl outer

/-- The same keys while an entry is edited. -/
theorem nested_settings {setup : MenuSetup} {state : MenuState} {caller : MenuCall}
    {answers : KeyAnswers} {c : UInt8} (nested : NestedInv state caller)
    (steady : c = charOf 'c' → MayChange setup state → answers.dumb = true →
      caller.firstEntry = 0) :
    MenuInv (settingsKey setup state answers c) := by
  have ⟨waiting, parsed, editing, quiet, inRange, unscrolled, fallbacks, ready⟩ := nested
  rw [settingsKey]
  by_cases locked : setup.secureLocked = true
  · rw [if_pos locked]
    exact .inr ⟨caller, nested⟩
  rw [if_neg locked]
  by_cases guarded : (!state.auth && setup.password) = true
  · rw [if_pos guarded]
    split
    · split
      · split
        · exact .inl (nested_return ⟨waiting, parsed, editing, quiet, inRange, unscrolled,
            fallbacks, ready⟩)
        · exact .inr ⟨caller, nested_restart ⟨waiting, parsed, editing, quiet, inRange, unscrolled,
            fallbacks, ready⟩⟩
      · exact .inr ⟨caller, nested_restart nested⟩
    · exact .inr ⟨caller, nested⟩
  rw [if_neg guarded]
  split
  · rw [if_neg (by rw [editing]; decide)]
    exact .inr ⟨caller, nested_restart nested⟩
  · split
    next isCommandLine =>
      have mayChange : MayChange setup state := by
        refine ⟨by simpa using locked, ?_⟩
        cases authed : state.auth with
        | true => exact .inl rfl
        | false => exact .inr (by simpa [authed] using guarded)
      exact .inr ⟨caller, nested_restart ⟨waiting, parsed, editing, quiet, inRange,
        steady isCommandLine mayChange, fallbacks, ready⟩⟩
    · rw [if_neg (by simp [editing])]
      exact .inr ⟨caller, nested⟩

/-! ## One turn -/

section Turns

variable {state : MenuState}

/-- A key stops the timeout for good, -/
theorem stopTimeout_quiet : (stopTimeout state).grubTimeout < 0 := by
  rw [stopTimeout]
  split
  · exact Int.negSucc_lt_zero 0
  · omega

/-- and leaves the list, -/
@[simp] theorem stopTimeout_call : (stopTimeout state).call = state.call := by
  rw [stopTimeout]
  split <;> rfl

/-- the menus around it, -/
@[simp] theorem stopTimeout_callers : (stopTimeout state).callers = state.callers := by
  rw [stopTimeout]
  split <;> rfl

/-- the terminal, -/
@[simp] theorem stopTimeout_dumb : (stopTimeout state).dumb = state.dumb := by
  rw [stopTimeout]
  split <;> rfl

/-- the loop it is in, -/
@[simp] theorem stopTimeout_loop : (stopTimeout state).loop = state.loop := by
  rw [stopTimeout]
  split <;> rfl

/-- and the password as they were. -/
@[simp] theorem stopTimeout_auth : (stopTimeout state).auth = state.auth := by
  rw [stopTimeout]
  split <;> rfl

/-- So what is sound stays so. -/
theorem Sound.stopTimeout {call : MenuCall} (sound : Sound state call) :
    Sound (stopTimeout state) call := by
  have ⟨inRange, unscrolled, fallbacks, ready⟩ := sound
  rw [Menu.stopTimeout]
  split
  · exact ⟨inRange, unscrolled, fallbacks,
      fun ready => absurd ready (Int.not_le.mpr (Int.negSucc_lt_zero 0))⟩
  · exact sound

/-- While the outer menu waits for keys its entry is on the page. -/
theorem OuterInv.onPage (outer : OuterInv state) (keys : state.loop = .keys) :
    OnPage state.dumb state.call := by
  refine ⟨outer.sound.inRange, outer.sound.unscrolled, fun isFull => ?_⟩
  rcases outer.page isFull with onPage | ⟨booting, _⟩
  · exact onPage
  · rw [keys] at booting
    cases booting

/-- The selection of the running call may move on the page. -/
theorem OuterInv.moved (outer : OuterInv state) {call : MenuCall} (onPage : OnPage state.dumb call)
    (parsed : call.configEntries = true →
      state.call.configEntries = true ∧ call.numEntries = state.call.numEntries)
    (quiet : state.grubTimeout < 0) (loop : MenuLoop)
    (fetched : loop = .booting → call.curEntry = false → call.configEntries = true) :
    OuterInv { state with call, loop } where
  alone := outer.alone
  sound :=
    { inRange := onPage.toInRange
      unscrolled := onPage.unscrolled
      fallbacks := fun isParsed => by
        have ⟨wasParsed, same⟩ := parsed isParsed
        dsimp only
        rw [same]
        exact outer.sound.fallbacks wasParsed
      ready := outer.sound.ready }
  page := fun isFull => .inl (onPage.page isFull)
  fetched
  forgotten := fun _ => quiet

/-- A key, in the menu of the parsed entries. -/
theorem outer_keyPressed {setup : MenuSetup} {answers : KeyAnswers} {c : UInt8}
    (outer : OuterInv state) (keys : state.loop = .keys)
    (onePage : c = 3 → state.dumb = true → state.call.numEntries ≤ 12)
    (another : c = charOf 'd' → state.call.configEntries = false → state.call.numEntries ≠ 1)
    (commandLine : c = charOf 'c' → MayChange setup state → answers.dumb = true →
      state.call.firstEntry = 0) :
    MenuInv (keyPressed setup state answers c) := by
  have stopped : OuterInv (stopTimeout state) :=
    { alone := by rw [stopTimeout_callers]; exact outer.alone
      sound := by rw [stopTimeout_call]; exact outer.sound.stopTimeout
      page := by simpa using outer.page
      fetched := by simpa using outer.fetched
      forgotten := fun _ => stopTimeout_quiet }
  have keys' : (stopTimeout state).loop = .keys := by rw [stopTimeout_loop]; exact keys
  have quiet : (stopTimeout state).grubTimeout < 0 := stopTimeout_quiet
  have moved : OnPage (stopTimeout state).dumb (moveKey (stopTimeout state).dumb c
      (stopTimeout state).call) :=
    (stopped.onPage keys').moveKey (by simpa using onePage)
  have ready : c = charOf 'c' → MayChange setup (stopTimeout state) → answers.dumb = true →
      (moveKey (stopTimeout state).dumb c (stopTimeout state).call).firstEntry = 0 := by
    rintro rfl mayChange toDumb
    rw [moveKey_command, stopTimeout_call]
    exact commandLine rfl (by simpa [MayChange] using mayChange) toDumb
  rw [keyPressed]
  dsimp only
  split
  next parsed =>
    have kept := stopped.moved moved (fun isParsed =>
      ⟨(moveKey_configEntries c).symm.trans isParsed, moveKey_numEntries c⟩) quiet
    split
    · exact .inl (kept .booting fun _ _ => parsed)
    · exact outer_settings (kept _ fun booting => nomatch keys'.symm.trans booting) keys' quiet
        ready
  next forgotten =>
    have forgotten' : state.call.configEntries = false := by
      simpa [moveKey_configEntries] using forgotten
    have edited : OnPage (stopTimeout state).dumb { editKey (stopTimeout state).dumb c
        (moveKey (stopTimeout state).dumb c (stopTimeout state).call) with curEntry := true } := by
      have ⟨⟨first, entry, last⟩, unscrolled, page⟩ := @OnPage.editKey _ _ moved c fun isDelete => by
        rw [moveKey_numEntries, stopTimeout_call]
        exact another isDelete forgotten'
      exact ⟨⟨first, entry, last⟩, unscrolled, page⟩
    have kept := stopped.moved edited (fun isParsed => by
      rw [editKey_configEntries] at isParsed
      exact absurd isParsed forgotten) quiet
    split
    · exact .inl (outer_return (kept _ nofun) keys')
    · split
      · exact .inl (kept .booting nofun)
      · refine outer_settings (kept _ nofun) keys' quiet ?_
        rintro rfl mayChange toDumb
        dsimp only
        rw [editKey_command]
        exact ready rfl mayChange toDumb

/-- A key while an entry is edited. -/
theorem nested_keyPressed {setup : MenuSetup} {answers : KeyAnswers} {c : UInt8} {caller : MenuCall}
    (nested : NestedInv state caller)
    (commandLine : c = charOf 'c' → MayChange setup state → answers.dumb = true →
      caller.firstEntry = 0) :
    MenuInv (keyPressed setup state answers c) := by
  have ⟨inRange, unscrolled, fallbacks, ready⟩ := nested.sound.stopTimeout
  have waiting : (stopTimeout state).callers = [caller] := by
    rw [stopTimeout_callers]
    exact nested.waiting
  have editing : (moveKey (stopTimeout state).dumb c (stopTimeout state).call).configEntries =
      false := by
    rw [moveKey_configEntries, stopTimeout_call]
    exact nested.editing
  have kept : ∀ loop, NestedInv { stopTimeout state with
      call := { editKey (stopTimeout state).dumb c
        (moveKey (stopTimeout state).dumb c (stopTimeout state).call) with curEntry := true }
      loop } caller := fun loop =>
    ⟨waiting, nested.parsed, (editKey_configEntries c).trans editing, stopTimeout_quiet, inRange,
      unscrolled, fallbacks, ready⟩
  rw [keyPressed]
  dsimp only
  rw [if_neg (by rw [editing]; decide)]
  split
  · exact .inl (nested_return (kept _))
  · split
    · exact .inr ⟨caller, kept _⟩
    · exact nested_settings (kept _) fun isCommandLine mayChange =>
        commandLine isCommandLine (by simpa [MayChange] using mayChange)

/-- The fallback entry after the one that failed is still before the negative ones. -/
theorem fallbackReady_next (ready : FallbackReady state) (more : 0 ≤ state.fallbackEntryno)
    (dumb consoleDumb : Bool) (call : MenuCall) :
    FallbackReady { state with
      dumb
      consoleDumb
      call
      fallbackEntryno :=
        if maxFallbackEntries ≤ state.fallbackEntryno + 1 ∨
            state.fallbackEntries (state.fallbackEntryno + 1) < 0 then -1
        else state.fallbackEntryno + 1 } := by
  have ⟨_, nonneg⟩ := ready more
  intro here
  dsimp only at here ⊢
  split at here
  · exact absurd here (Int.not_le.mpr (Int.negSucc_lt_zero 0))
  next within =>
    rw [if_neg within]
    refine ⟨by omega, fun j low high => ?_⟩
    rcases Int.lt_or_eq_of_le high with before | rfl
    · exact nonneg j low (by omega)
    · omega

/-- The state in which `run_script` comes back. -/
def scriptLeft (state : MenuState) (answers : BootAnswers) : MenuState :=
  { state with
    dumb := answers.dumb
    consoleDumb := answers.consoleDumb
    call := { state.call with curEntry := true } }

/-- With a fallback entry to try, that entry is booted next. -/
theorem bootTurn_fallback {answers : BootAnswers} (more : TriesFallback state answers) :
    bootTurn state answers = { scriptLeft state answers with
      call := { (scriptLeft state answers).call with
        curEntry := false
        firstEntry := 0
        entryno := state.fallbackEntries state.fallbackEntryno }
      fallbackEntryno :=
        if maxFallbackEntries ≤ state.fallbackEntryno + 1 ∨
            state.fallbackEntries (state.fallbackEntryno + 1) < 0 then -1
        else state.fallbackEntryno + 1 } := by
  simp only [bootTurn, scriptLeft, if_pos more.1, if_pos more.2]

/-- Without one the menu is shown again. -/
theorem bootTurn_ends {answers : BootAnswers} (none_ : ¬ TriesFallback state answers) :
    bootTurn state answers = endBoot (scriptLeft state answers) answers.startupFailed := by
  rw [bootTurn]
  dsimp only
  split
  next failed => exact if_neg fun more => none_ ⟨failed, more⟩
  · rfl

/-- The terminal that shows the menu again. -/
theorem endBoot_dumb {answers : BootAnswers}
    (isDumb : (if answers.startupFailed then (scriptLeft state answers).consoleDumb
      else (scriptLeft state answers).dumb) = true) : answers.ShowsDumb := by
  rw [BootAnswers.ShowsDumb]
  split at isDumb
  next failed =>
    rw [if_pos failed]
    exact isDumb
  next starts =>
    rw [if_neg starts]
    exact isDumb

/-- The end of booting, in the menu of the parsed entries. -/
theorem outer_endBoot {answers : BootAnswers} (alone : state.callers = [])
    (sound : Sound state state.call)
    (forgotten : state.call.configEntries = false → state.grubTimeout < 0)
    (steady : answers.ShowsDumb → state.call.firstEntry = 0) :
    OuterInv (endBoot (scriptLeft state answers) answers.startupFailed) := by
  have ⟨inRange, _, fallbacks, ready⟩ := sound
  have range : InRange { state.call with curEntry := true } :=
    ⟨inRange.first, inRange.entry, inRange.last⟩
  exact outer_restart alone
    ⟨range, fun isDumb => steady (endBoot_dumb isDumb), fallbacks, ready⟩ forgotten

/-- The end of booting, while an entry is edited. -/
theorem nested_endBoot {answers : BootAnswers} {caller : MenuCall}
    (nested : NestedInv state caller)
    (steady : answers.ShowsDumb → caller.firstEntry = 0) :
    NestedInv (endBoot (scriptLeft state answers) answers.startupFailed) caller := by
  have ⟨waiting, parsed, editing, quiet, inRange, _, fallbacks, ready⟩ := nested
  exact nested_restart ⟨waiting, parsed, editing, quiet, inRange,
    fun isDumb => steady (endBoot_dumb isDumb), fallbacks, ready⟩

/-- A turn in the menu of the parsed entries. -/
theorem outer_turn {setup : MenuSetup} {turn : MenuTurn} (outer : OuterInv state)
    (steady : Steady setup state turn) : MenuInv (menuTurn setup state turn) := by
  have ⟨alone, ⟨inRange, unscrolled, fallbacks, ready⟩, page, fetched, forgotten⟩ := outer
  have isOuter : outerCall state = state.call := by rw [outerCall, alone]; rfl
  have parsed : 0 ≤ state.grubTimeout → state.call.configEntries = true := by
    intro counting
    cases isParsed : state.call.configEntries with
    | true => rfl
    | false => exact absurd (forgotten isParsed) (by omega)
  have onPage : state.loop ≠ .booting → state.dumb = false → state.call.entryno ≤ 11 :=
    fun waiting isFull => (page isFull).resolve_right fun ⟨booting, _⟩ => waiting booting
  unfold menuTurn
  split
  next pressed held hidden =>
    have waiting : state.loop ≠ .booting := by rw [hidden]; decide
    rw [pollTurn]
    split
    · exact .inl ⟨alone, ⟨inRange, unscrolled, fallbacks, ready⟩,
        fun isFull => .inl (onPage waiting isFull), nofun, fun _ => Int.negSucc_lt_zero 0⟩
    · split
      next counting =>
        split
        · exact .inl ⟨alone, ⟨inRange, unscrolled, fallbacks, ready⟩,
            fun isFull => .inl (onPage waiting isFull), fun _ _ => parsed counting,
            fun _ => Int.negSucc_lt_zero 0⟩
        · exact .inl ⟨alone, ⟨inRange, unscrolled, fallbacks, ready⟩, page, fetched, fun none_ => by
            rw [parsed counting] at none_
            cases none_⟩
      · exact .inl outer
  next answers keys =>
    have waiting : state.loop ≠ .booting := by rw [keys]; decide
    have range : InRange { state.call with curEntry := false } :=
      ⟨inRange.first, inRange.entry, inRange.last⟩
    rw [keyTurn]
    dsimp only
    split
    next expired =>
      exact .inl ⟨alone, ⟨range, unscrolled, fallbacks, ready⟩,
        fun isFull => .inl (onPage waiting isFull), fun _ _ => parsed expired.1,
        fun _ => Int.negSucc_lt_zero 0⟩
    next going =>
      have next : ∀ timeout, (state.grubTimeout < 0 → timeout < 0) → OuterInv { state with
          grubTimeout := timeout, call := { state.call with curEntry := false } } :=
        fun timeout still => ⟨alone, ⟨range, unscrolled, fallbacks, ready⟩,
          fun isFull => .inl (onPage waiting isFull), fun booting => absurd booting waiting,
          fun none_ => still (forgotten none_)⟩
      have key : ∀ c ∈ answers.key, ∀ timeout, (state.grubTimeout < 0 → timeout < 0) →
          MenuInv (keyPressed setup { state with
            grubTimeout := timeout, call := { state.call with curEntry := false } } answers c) := by
        intro c isKey timeout still
        obtain ⟨onePage, another, commandLine⟩ := steady keys c isKey
        rw [isOuter] at commandLine
        exact outer_keyPressed (next timeout still) keys (onePage alone) (another alone) commandLine
      cases isKey : answers.key with
      | none =>
          dsimp only
          split
          · exact .inl (next _ fun _ => by omega)
          · exact .inl (next _ id)
      | some c =>
          dsimp only
          split
          · exact key c isKey _ fun _ => by omega
          · exact key c isKey _ id
  next answers booting =>
    obtain ⟨still, _, shows⟩ := steady booting
    rw [isOuter] at shows
    rcases Classical.em (TriesFallback state answers) with more | none_
    · have isParsed := still more alone
      have ⟨bounded, nonneg⟩ := ready more.2
      have below := fallbacks isParsed state.fallbackEntryno more.2 bounded nonneg
      have first := nonneg state.fallbackEntryno more.2 (Int.le_refl _)
      have ready' := fallbackReady_next ready more.2 answers.dumb answers.consoleDumb
        { state.call with
          curEntry := false
          firstEntry := 0
          entryno := state.fallbackEntries state.fallbackEntryno }
      rw [bootTurn_fallback more]
      exact .inl ⟨alone, ⟨⟨Int.le_refl 0, first, by dsimp only [scriptLeft]; omega⟩, fun _ => rfl,
        fallbacks, ready'⟩, fun _ => .inr ⟨booting, rfl⟩, fun _ _ => isParsed, forgotten⟩
    · rw [bootTurn_ends none_]
      exact .inl (outer_endBoot alone outer.sound forgotten (shows none_))
  · exact .inl outer

/-- A turn while an entry is edited. -/
theorem nested_turn {setup : MenuSetup} {turn : MenuTurn} {caller : MenuCall}
    (nested : NestedInv state caller) (steady : Steady setup state turn) :
    MenuInv (menuTurn setup state turn) := by
  have ⟨waiting, parsed, editing, quiet, inRange, unscrolled, fallbacks, ready⟩ := nested
  have isOuter : outerCall state = caller := by rw [outerCall, waiting]; rfl
  have notCounting : ¬ 0 ≤ state.grubTimeout := by omega
  unfold menuTurn
  split
  next pressed held hidden =>
    rw [pollTurn, if_neg notCounting]
    split
    · exact .inr ⟨caller, waiting, parsed, editing, Int.negSucc_lt_zero 0, inRange, unscrolled,
        fallbacks, ready⟩
    · exact .inr ⟨caller, nested⟩
  next answers keys =>
    have next : NestedInv { state with call := { state.call with curEntry := false } } caller :=
      ⟨waiting, parsed, editing, quiet, inRange, unscrolled, fallbacks, ready⟩
    rw [keyTurn]
    dsimp only
    rw [if_neg (fun expired => notCounting expired.1), if_neg notCounting]
    cases isKey : answers.key with
    | none => exact .inr ⟨caller, next⟩
    | some c =>
        obtain ⟨_, _, commandLine⟩ := steady keys c isKey
        rw [isOuter] at commandLine
        exact nested_keyPressed next commandLine
  next answers booting =>
    obtain ⟨_, leavesDumb, shows⟩ := steady booting
    rw [isOuter] at leavesDumb shows
    have running : state.callers ≠ [] := by rw [waiting]; exact List.cons_ne_nil _ _
    rcases Classical.em (TriesFallback state answers) with more | none_
    · rw [bootTurn_fallback more]
      exact .inr ⟨caller, waiting, parsed, editing, quiet, inRange, leavesDumb more running,
        fallbacks, fallbackReady_next ready more.2 answers.dumb answers.consoleDumb _⟩
    · rw [bootTurn_ends none_]
      exact .inr ⟨caller, nested_endBoot nested (shows none_)⟩
  · exact .inr ⟨caller, nested⟩

end Turns

/-! ## Whole runs -/

/-- The globals when `run_menu` is called without a timeout and without fallbacks. -/
def plainMenu (dumb : Bool) : MenuState :=
  { dumb
    consoleDumb := false
    auth := false
    showMenu := true
    grubTimeout := -1
    fallbackEntryno := -1
    fallbackEntries := fun _ => -1
    loop := .keys
    call := ⟨0, 0, 0, true, false⟩
    callers := [] }

/-- A turn that reads a key and changes nothing else. -/
def typed (c : UInt8) : MenuTurn :=
  .key
    { key := some c
      passwordRight := false
      newFile := false
      moreCommands := 0
      appended := false
      dumb := false
      consoleDumb := false }

end GrubLegacy.Menu
