import GrubLegacy.Menu.Builtins
import GrubLegacy.Menu.Entries

/-!
# Parsing the configuration

The loop of `cmain` that distributes the lines of a configuration over the menu
and configuration heaps, and what it leaves there.
-/

namespace GrubLegacy.Menu

open CStrings

/-- The locals of `cmain`. `menuEntries` and `configEntries` are the bytes below
`menu_len` and `config_len`; `ran` records the menu commands run on the way. -/
structure ParseState where
  menuEntries : List UInt8
  configEntries : List UInt8
  numEntries : Nat
  /-- STATE 0: before any title command. STATE 1: in a title command. STATE >1: in
  an entry after a title command. -/
  state : Nat
  prevMenuLen : Nat
  prevConfigLen : Nat
  ran : List (Builtin × List UInt8)

/-- The locals after `reset`. -/
def ParseState.reset : ParseState :=
  { menuEntries := [], configEntries := [], numEntries := 0, state := 0,
    prevMenuLen := 0, prevConfigLen := 0, ran := [] }

/-- One turn of the loop, for the line in `cmdline`. -/
def parseLine (table : List Builtin) (locals : ParseState) (cmdline : List UInt8) : ParseState :=
  match findCommand table cmdline with
  -- Unknown command. Just skip now.
  | none => locals
  | some builtin =>
    if builtin.flags &&& builtinTitle ≠ 0 then
      let locals :=
        if 1 < locals.state then
          let configEntries := locals.configEntries ++ [0]
          { locals with
            numEntries := locals.numEntries + 1
            configEntries
            prevMenuLen := locals.menuEntries.length
            prevConfigLen := configEntries.length }
        else
          { locals with
            menuEntries := locals.menuEntries.take locals.prevMenuLen
            configEntries := locals.configEntries.take locals.prevConfigLen }
      { locals with
        state := 1
        menuEntries := locals.menuEntries ++ encodeString (skipTo true cmdline) }
    else if locals.state = 0 then
      if builtin.flags &&& builtinMenu ≠ 0 then
        { locals with ran := locals.ran ++ [(builtin, skipTo true cmdline)] }
      else locals
    else
      { locals with
        state := locals.state + 1
        configEntries := locals.configEntries ++ encodeString cmdline }

/-- The entries as `run_menu` gets them. -/
structure ParsedConfig where
  numEntries : Nat
  configEntries : List UInt8
  menuEntries : List UInt8
deriving DecidableEq, Repr

/-- After the loop: finish or drop the last entry and terminate both lists. The
menu is then moved behind the configuration, whose pointer still sees both. -/
def finishConfig (locals : ParseState) : ParsedConfig :=
  let locals :=
    if 1 < locals.state then
      { locals with
        numEntries := locals.numEntries + 1
        configEntries := locals.configEntries ++ [0] }
    else
      { locals with
        menuEntries := locals.menuEntries.take locals.prevMenuLen
        configEntries := locals.configEntries.take locals.prevConfigLen }
  let menuEntries := locals.menuEntries ++ [0]
  { numEntries := locals.numEntries
    configEntries := locals.configEntries ++ [0] ++ menuEntries
    menuEntries }

/-- Parse the lines of a configuration; a line is read as a C string. -/
def parseConfig (table : List Builtin) (lines : List (List UInt8)) : ParsedConfig :=
  finishConfig ((lines.map readString).foldl (parseLine table) .reset)

/-! ## What the lines say -/

/-- A title with the commands under it. -/
structure Entry where
  title : List UInt8
  commands : List (List UInt8)
deriving DecidableEq, Repr

/-- What a line is for: nothing, a title, or a command. -/
inductive LineRole where
  | unknown
  | title (text : List UInt8)
  | command (text : List UInt8)
deriving DecidableEq, Repr

def lineRole (table : List Builtin) (cmdline : List UInt8) : LineRole :=
  match findCommand table cmdline with
  | none => .unknown
  | some builtin =>
    if builtin.flags &&& builtinTitle ≠ 0 then .title (skipTo true cmdline) else .command cmdline

/-- The commands before the first title, and the titles with their commands. -/
def splitAtTitles : List LineRole → List (List UInt8) × List Entry
  | [] => ([], [])
  | role :: roles =>
    let (commands, entries) := splitAtTitles roles
    match role with
    | .unknown => (commands, entries)
    | .command text => (text :: commands, entries)
    | .title title => ([], { title, commands } :: entries)

/-- The titles that have a command under them. -/
def keptEntries (table : List Builtin) (lines : List (List UInt8)) : List Entry :=
  (splitAtTitles (lines.map fun line => lineRole table (readString line))).2.filter
    (·.commands ≠ [])

/-! ## The loop builds the entries -/

/-- The menu heap of some entries. -/
def menuOf (entries : List Entry) : List UInt8 := entries.flatMap (encodeString ·.title)

/-- The configuration heap of some entries. -/
def configOf (entries : List Entry) : List UInt8 := entries.flatMap (encodeGroup ·.commands)

/-- The locals hold the entries finished and, after the first title, the one that
is being built. -/
structure Holds (locals : ParseState) (done : List Entry) (building : Option Entry) : Prop where
  numEntries : locals.numEntries = done.length
  prevMenuLen : locals.prevMenuLen = (menuOf done).length
  prevConfigLen : locals.prevConfigLen = (configOf done).length
  state : locals.state = building.elim 0 fun current => current.commands.length + 1
  menuEntries : locals.menuEntries =
    menuOf done ++ building.elim [] fun current => encodeString current.title
  configEntries : locals.configEntries =
    configOf done ++ building.elim [] fun current => encodeStrings current.commands

/-- Before the first line nothing is held. -/
theorem holds_reset : Holds .reset [] none := ⟨rfl, rfl, rfl, rfl, rfl, rfl⟩

/-- The section being built with one more command, if there is one. -/
def addCommand (building : Option Entry) (text : List UInt8) : Option Entry :=
  building.map fun current => { current with commands := current.commands ++ [text] }

/-- The section being built, unless it is dropped for want of commands. -/
def kept (building : Option Entry) : List Entry :=
  building.toList.filter (·.commands ≠ [])

/-- What a line does to the entries finished and the one being built. -/
def addRole (entries : List Entry × Option Entry) :
    LineRole → List Entry × Option Entry
  | .unknown => entries
  | .title title => (entries.1 ++ kept entries.2, some { title, commands := [] })
  | .command text => (entries.1, addCommand entries.2 text)

/-- An entry is kept if it has a command. -/
private theorem kept_cons {current : Entry} :
    kept (some current) = if current.commands = [] then [] else [current] := by
  by_cases empty : current.commands = [] <;> simp [kept, empty]

/-- A line keeps the heaps in step with the entries. -/
theorem Holds.parseLine {table : List Builtin} {locals : ParseState} {done : List Entry}
    {building : Option Entry} (holds : Holds locals done building) (cmdline : List UInt8) :
    let next := addRole (done, building) (lineRole table cmdline)
    Holds (parseLine table locals cmdline) next.1 next.2 := by
  unfold Menu.parseLine lineRole
  cases found : findCommand table cmdline with
  | none => exact holds
  | some builtin =>
      by_cases isTitle : builtin.flags &&& builtinTitle ≠ 0
      · simp only [isTitle, if_true, ne_eq, not_false_eq_true, addRole]
        cases building with
        | none =>
            have before : ¬ 1 < locals.state := by simp [holds.state]
            simp only [before, if_false]
            constructor <;>
              simp [holds.numEntries, holds.prevMenuLen, holds.prevConfigLen, holds.menuEntries,
                holds.configEntries, kept, encodeStrings]
        | some current =>
            by_cases empty : current.commands = []
            · have within : ¬ 1 < locals.state := by simp [holds.state, empty]
              simp only [within, if_false]
              constructor <;>
                simp [holds.numEntries, holds.prevMenuLen, holds.prevConfigLen,
                  holds.menuEntries, holds.configEntries, kept_cons, empty, encodeStrings]
            · have beyond : 1 < locals.state := by
                have := List.length_pos_iff.mpr empty
                simp only [holds.state, Option.elim]
                omega
              simp only [beyond, if_true]
              constructor <;>
                simp [holds.numEntries, holds.menuEntries, holds.configEntries, kept_cons, empty,
                  encodeStrings, encodeGroup, menuOf, configOf]
      · simp only [isTitle, if_false, addRole]
        cases building with
        | none =>
            have before : locals.state = 0 := holds.state
            simp only [before, if_true, addCommand, Option.map_none]
            split
            · exact ⟨holds.numEntries, holds.prevMenuLen, holds.prevConfigLen, rfl,
                holds.menuEntries, holds.configEntries⟩
            · exact holds
        | some current =>
            have inside : locals.state ≠ 0 := by simp [holds.state]
            simp only [inside, if_false, addCommand, Option.map_some]
            constructor <;>
              simp [holds.numEntries, holds.prevMenuLen, holds.prevConfigLen, holds.menuEntries,
                holds.configEntries, holds.state, encodeStrings]

/-- The entries after some lines, in the order of the lines. -/
theorem foldl_addRole (roles : List LineRole) (done : List Entry) (building : Option Entry) :
    let final := roles.foldl addRole (done, building)
    final.1 ++ kept final.2 =
      done ++ kept (building.map fun current =>
          { current with commands := current.commands ++ (splitAtTitles roles).1 }) ++
        (splitAtTitles roles).2.filter (·.commands ≠ []) := by
  induction roles generalizing done building with
  | nil =>
      cases building <;> simp [splitAtTitles]
  | cons role roles ih =>
      rw [List.foldl_cons]
      cases role with
      | unknown => exact ih done building
      | command text =>
          refine (ih done (addCommand building text)).trans ?_
          cases building <;> simp [splitAtTitles, addCommand]
      | title title =>
          refine (ih (done ++ kept building) (some { title, commands := [] })).trans ?_
          have heading : ∀ entry : Entry, kept (some entry) =
            [entry].filter (·.commands ≠ []) := fun _ => rfl
          by_cases bare : (splitAtTitles roles).1 = [] <;> cases building <;>
            simp [splitAtTitles, heading, List.filter_cons, bare]

/-- After the loop the last entry is finished or dropped. -/
theorem finishConfig_holds {locals : ParseState} {done : List Entry}
    {building : Option Entry} (holds : Holds locals done building) :
    finishConfig locals =
      let entries := done ++ kept building
      { numEntries := entries.length
        configEntries := configOf entries ++ [0] ++ (menuOf entries ++ [0])
        menuEntries := menuOf entries ++ [0] } := by
  unfold finishConfig
  cases building with
  | none =>
      have before : ¬ 1 < locals.state := by simp [holds.state]
      simp [before, holds.numEntries, holds.prevMenuLen, holds.prevConfigLen, holds.menuEntries,
        holds.configEntries, kept]
  | some current =>
      by_cases empty : current.commands = []
      · have within : ¬ 1 < locals.state := by simp [holds.state, empty]
        simp [within, holds.numEntries, holds.prevMenuLen, holds.prevConfigLen,
          holds.menuEntries, holds.configEntries, kept_cons, empty]
      · have beyond : 1 < locals.state := by
          have := List.length_pos_iff.mpr empty
          simp only [holds.state, Option.elim]
          omega
        simp [beyond, holds.numEntries, holds.menuEntries, holds.configEntries, kept_cons, empty,
          encodeGroup, menuOf, configOf]

/-- Parsing leaves exactly the kept entries in the heaps, each list ended by an
extra NUL. -/
theorem parseConfig_eq (table : List Builtin) (lines : List (List UInt8)) :
    parseConfig table lines =
      let entries := keptEntries table lines
      { numEntries := entries.length
        configEntries := configOf entries ++ [0] ++ (menuOf entries ++ [0])
        menuEntries := menuOf entries ++ [0] } := by
  have runs : ∀ (lines : List (List UInt8)) {locals done building}, Holds locals done building →
      let final := (lines.map (lineRole table)).foldl addRole (done, building)
      Holds (lines.foldl (parseLine table) locals) final.1 final.2 := by
    intro lines
    induction lines with
    | nil => exact fun holds => holds
    | cons line lines ih => exact fun holds => ih (holds.parseLine line)
  have built := runs (lines.map readString) holds_reset
  have entries := foldl_addRole ((lines.map readString).map (lineRole table)) [] none
  rw [parseConfig, finishConfig_holds built]
  dsimp only at entries ⊢
  rw [entries]
  simp [keptEntries, kept, Function.comp_def]

/-! ## Titles and scripts stay paired -/

/-- The parsed configuration holds these entries: the two lists pair up, and
`get_entry` finds each group and each title. -/
structure Paired (parsed : ParsedConfig) (entries : List Entry) : Prop where
  count : parsed.numEntries = entries.length
  menuTerminated : parsed.menuEntries = menuOf entries ++ [0]
  configTerminated : parsed.configEntries = configOf entries ++ [0] ++ parsed.menuEntries
  group : ∀ num (inRange : num < entries.length),
    (getEntry parsed.configEntries num true).map readGroup = some entries[num].commands
  title : ∀ num (inRange : num < entries.length),
    (getEntry parsed.menuEntries num false).map readString = some entries[num].title

/-- The rest of a line has no NUL. -/
private theorem nulFree_skipTo {afterEqual : Bool} {cmdline : List UInt8}
    (free : NulFree cmdline) : NulFree (skipTo afterEqual cmdline) := by
  intro c member
  exact free c (((List.dropWhile_sublist _).trans (List.dropWhile_sublist _)).subset member)

/-- Titles and commands of lines without NULs have none. -/
private theorem splitAtTitles_nulFree {roles : List LineRole}
    (free : ∀ role ∈ roles, match role with
      | .unknown => True
      | .title text => NulFree text
      | .command text => NulFree text) :
    (∀ text ∈ (splitAtTitles roles).1, NulFree text) ∧
      ∀ entry ∈ (splitAtTitles roles).2,
        NulFree entry.title ∧ ∀ text ∈ entry.commands, NulFree text := by
  induction roles with
  | nil => simp [splitAtTitles]
  | cons role roles ih =>
      obtain ⟨commandsFree, entriesFree⟩ := ih fun other member => free other (by simp [member])
      have roleFree := free role (by simp)
      cases role with
      | unknown => exact ⟨commandsFree, entriesFree⟩
      | command text =>
          refine ⟨?_, entriesFree⟩
          simpa [splitAtTitles] using ⟨roleFree, commandsFree⟩
      | title text =>
          refine ⟨by simp [splitAtTitles], ?_⟩
          simpa [splitAtTitles] using ⟨⟨roleFree, commandsFree⟩, entriesFree⟩

/-- Titles and commands are C strings. -/
theorem keptEntries_nulFree {table : List Builtin} {lines : List (List UInt8)}
    {entry : Entry} (isKept : entry ∈ keptEntries table lines) :
    NulFree entry.title ∧ ∀ text ∈ entry.commands, NulFree text := by
  refine (splitAtTitles_nulFree ?_).2 entry (List.mem_filter.mp isKept).1
  intro role member
  obtain ⟨line, _, rfl⟩ := List.mem_map.mp member
  unfold lineRole
  cases findCommand table (readString line) with
  | none => trivial
  | some builtin =>
      dsimp only
      split
      next found => 
        split at found
        · cases found
        · cases found
      next found =>
        split at found
        · cases found
          exact nulFree_skipTo (nulFree_readString line)
        · cases found
      next found =>
        split at found
        · cases found
        · cases found
          exact nulFree_readString line

/-- The titles are found whatever the commands are. -/
theorem getEntry_title {table : List Builtin} {lines : List (List UInt8)} (num : Nat)
    (inRange : num < (keptEntries table lines).length) :
    (getEntry (parseConfig table lines).menuEntries num false).map readString =
      some (keptEntries table lines)[num].title := by
  have skips : ∀ entry ∈ keptEntries table lines, ∀ rest,
      skipEntry false .string (encodeString entry.title ++ rest) = some rest :=
    fun entry isKept => skipEntry_encodeString (keptEntries_nulFree isKept).1
  rw [parseConfig_eq]
  dsimp only
  rw [menuOf, getEntry_flatMap skips (Nat.le_of_lt inRange),
    List.drop_eq_getElem_cons inRange, List.flatMap_cons, List.append_assoc, Option.map_some,
    readString_encodeString (keptEntries_nulFree (List.getElem_mem inRange)).1]

/-- The groups are found if no command is empty. -/
theorem getEntry_group {table : List Builtin} {lines : List (List UInt8)}
    (nonempty : ∀ entry ∈ keptEntries table lines, [] ∉ entry.commands) (num : Nat)
    (inRange : num < (keptEntries table lines).length) :
    (getEntry (parseConfig table lines).configEntries num true).map readGroup =
      some (keptEntries table lines)[num].commands := by
  have skips : ∀ entry ∈ keptEntries table lines, ∀ rest,
      skipEntry true .string (encodeGroup entry.commands ++ rest) = some rest := by
    intro entry isKept
    have commands : entry.commands ≠ [] := by simpa using (List.mem_filter.mp isKept).2
    exact skipEntry_encodeGroup (keptEntries_nulFree isKept).2 (nonempty entry isKept) commands
  have isKept := List.getElem_mem inRange
  rw [parseConfig_eq]
  dsimp only
  rw [List.append_assoc, configOf, getEntry_flatMap skips (Nat.le_of_lt inRange),
    List.drop_eq_getElem_cons inRange, List.flatMap_cons, List.append_assoc, Option.map_some,
    readGroup_encodeGroup (keptEntries_nulFree isKept).2 (nonempty _ isKept)]

/-- Parsing pairs every kept title with its commands exactly when no command kept
is the empty string, which a line that starts with a NUL is. -/
theorem parseConfig_paired_iff (table : List Builtin) (lines : List (List UInt8)) :
    Paired (parseConfig table lines) (keptEntries table lines) ↔
      ∀ entry ∈ keptEntries table lines, [] ∉ entry.commands := by
  constructor
  · intro paired entry isKept
    obtain ⟨num, inRange, rfl⟩ := List.getElem_of_mem isKept
    obtain ⟨found, _, group⟩ := Option.map_eq_some_iff.mp (paired.group num inRange)
    rw [← group]
    exact nil_notMem_readStrings [] found
  · intro nonempty
    have parsed := parseConfig_eq table lines
    exact
      { count := by rw [parsed]
        menuTerminated := by rw [parsed]
        configTerminated := by rw [parsed]
        group := getEntry_group nonempty
        title := getEntry_title }

/-- A line holding a NUL matches the placeholder in the table and ends its group
early, so the second title gets a command of the first. -/
theorem parseConfig_needs_nonempty :
    let lines := [ascii "title A", ascii "boot", [0], ascii "halt", ascii "title B", ascii "boot"]
    ¬ Paired (parseConfig builtinTable lines) (keptEntries builtinTable lines) := by
  intro lines paired
  have group := paired.group 1 (by decide +kernel)
  revert group
  decide +kernel

end GrubLegacy.Menu
