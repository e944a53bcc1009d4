import GrubLegacy.Base.Runs
import GrubLegacy.Menu.Builtins

/-!
# The recovery shell

`grub_cln_recovery_shell` of `recovery.c`, which restricts `builtin_table` and adds a
command for the source of the failing asset, and the command line that it enters.
The table points to structures that are changed in place, two of which can be
entered into it again and again; the lines go to a buffer that is smaller than the
command line takes it to be.
-/

namespace GrubLegacy.Clanton

open Base CStrings Menu

/-! ## The builtins -/

/-- What a `func` points to: the function of the builtin of this name, or one of the
two recovery programs. -/
inductive Routine where
  | standard (name : List UInt8)
  | sdioProgram
  | spiProgram
deriving DecidableEq, Repr

/-- The structures there are: those the table starts with, `builtin_cln_sdio_program`
and `builtin_cln_spi_program`. -/
inductive BuiltinId where
  | standard (index : Nat)
  | sdioProgram
  | spiProgram
deriving DecidableEq, Repr

/-- A `struct builtin`; a NULL `func` is `none`. -/
structure ShellBuiltin where
  name : List UInt8
  func : Option Routine
  flags : Nat
deriving DecidableEq, Repr

/-- The structures and `builtin_table`. -/
structure ShellTable where
  builtins : BuiltinId → ShellBuiltin
  table : List BuiltinId

/-- The flags of the two recovery commands. -/
def recoveryFlags : Nat := builtinCmdline ||| builtinHelpList

/-- `builtin_cln_sdio_program` -/
def builtinSdioProgram : ShellBuiltin :=
  { name := ascii "cln_sdio_program", func := some .sdioProgram, flags := recoveryFlags }

/-- `builtin_cln_spi_program` -/
def builtinSpiProgram : ShellBuiltin :=
  { name := ascii "cln_fw_recovery", func := some .spiProgram, flags := recoveryFlags }

/-- The structures of a table. An empty name is the one of the placeholder, which has
no function. -/
def standardBuiltins (table : List Builtin) : BuiltinId → ShellBuiltin
  | .standard index =>
    match table[index]? with
    | none => { name := [], func := none, flags := 0 }
    | some builtin =>
      { name := builtin.name
        func := if builtin.name = [] then none else some (.standard builtin.name)
        flags := builtin.flags }
  | .sdioProgram => builtinSdioProgram
  | .spiProgram => builtinSpiProgram

/-- The table as it is built. -/
def ShellTable.initial (table : List Builtin) : ShellTable where
  builtins := standardBuiltins table
  table := (List.range table.length).map .standard

/-! ## Entering the shell -/

/-- `debug_recovery_cmds` -/
def debugRecoveryCmds : List (List UInt8) :=
  [ascii "cat", ascii "clear", ascii "displaymem", ascii "find", ascii "geometry", ascii "halt",
    ascii "help", ascii "read", ascii "reboot"]

/-- `release_recovery_cmds` -/
def releaseRecoveryCmds : List (List UInt8) := []

/-- The one that applies. -/
def recoveryCmds (debug : Bool) : List (List UInt8) :=
  if debug then debugRecoveryCmds else releaseRecoveryCmds

/-- Change a structure. -/
def ShellTable.set (shell : ShellTable) (id : BuiltinId) (builtin : ShellBuiltin) : ShellTable :=
  { shell with builtins := Function.update shell.builtins id builtin }

/-- A command that is set is read back, and the others are as they were. -/
theorem ShellTable.set_builtins (shell : ShellTable) (id id' : BuiltinId)
    (builtin : ShellBuiltin) :
    (shell.set id builtin).builtins id' = if id' = id then builtin else shell.builtins id' :=
  Function.update_apply _ _ _ _

/-- One builtin in the loop of `restrict_builtin_commands`. -/
def restrictOne (cmdTable : List (List UInt8)) (shell : ShellTable) (id : BuiltinId) : ShellTable :=
  if (shell.builtins id).name ∈ cmdTable then shell
  else shell.set id { shell.builtins id with func := none, flags := 0 }

/-- `restrict_builtin_commands` -/
def restrictBuiltinCommands (cmdTable : List (List UInt8)) (shell : ShellTable) : ShellTable :=
  shell.table.foldl (restrictOne cmdTable) shell

/-- The first entry without a function is replaced; without one there is no room. -/
def placeCommand (builtins : BuiltinId → ShellBuiltin) (command : BuiltinId) :
    List BuiltinId → Option (List BuiltinId)
  | [] => none
  | id :: table =>
    if (builtins id).func = none then some (command :: table)
    else (placeCommand builtins command table).map (id :: ·)

/-- The command of a source. -/
def recoveryCommand (isSpiAsset : Bool) : BuiltinId :=
  if isSpiAsset then .spiProgram else .sdioProgram

/-- `add_cln_recovery_command` -/
def addClnRecoveryCommand (isSpiAsset : Bool) (shell : ShellTable) : ShellTable :=
  let shell := shell.set .sdioProgram
    { shell.builtins .sdioProgram with func := some .sdioProgram, flags := recoveryFlags }
  let shell := shell.set .spiProgram
    { shell.builtins .spiProgram with func := some .spiProgram, flags := recoveryFlags }
  { shell with
    table := (placeCommand shell.builtins (recoveryCommand isSpiAsset) shell.table).getD
      shell.table }

/-- `grub_cln_recovery_shell`, up to the command line it enters. -/
def grubClnRecoveryShell (secure debug isSpiAsset : Bool) (shell : ShellTable) : ShellTable :=
  addClnRecoveryCommand isSpiAsset
    (if secure then restrictBuiltinCommands (recoveryCmds debug) shell else shell)

/-! ## The command line -/

/-- `find_command` -/
def ShellTable.findCommand (shell : ShellTable) (command : List UInt8) : Option BuiltinId :=
  shell.table.find? fun id =>
    command.takeWhile (fun c => !endsName c) = (shell.builtins id).name

/-- The builtin that a line given to `enter_cmdline` runs. -/
def ShellTable.runs (shell : ShellTable) (heap : List UInt8) : Option BuiltinId :=
  if heap = [] then none
  else
    match shell.findCommand heap with
    | none => none
    | some id => if (shell.builtins id).flags &&& builtinCmdline = 0 then none else some id

/-- What a routine may do: return to the command line, never return, leave the
command line for another part of GRUB, or enter the recovery shell. -/
inductive Control where
  | returns
  | stops
  | leaves
  | enters (isSpiAsset : Bool)
deriving DecidableEq, Repr

/-- Where GRUB is: somewhere else, in the recovery shell for a source, or stopped. -/
inductive Location where
  | elsewhere
  | shell (isSpiAsset : Bool)
  | stopped
deriving DecidableEq, Repr

structure ShellState where
  shell : ShellTable
  location : Location

/-- GRUB before it is first entered, with this table. -/
def ShellState.initial (table : List Builtin) : ShellState :=
  { shell := .initial table, location := .elsewhere }

/-- The shell is entered. -/
def ShellState.enter (secure debug isSpiAsset : Bool) (state : ShellState) : ShellState :=
  { shell := grubClnRecoveryShell secure debug isSpiAsset state.shell
    location := .shell isSpiAsset }

/-- After a routine was run. -/
def ShellState.after (secure debug : Bool) (state : ShellState) : Control → ShellState
  | .returns => state
  | .stops => { state with location := .stopped }
  | .leaves => { state with location := .elsewhere }
  | .enters isSpiAsset => state.enter secure debug isSpiAsset

/-- A line that `get_cmdline` took, and how many bytes of `heap` it stored to for it. -/
structure TypedLine where
  text : List UInt8
  stored : Nat
  ends : text.length < stored

/-- `sizeof (heap)`; `get_cmdline` is told 2048. -/
def heapSize : Nat := 0x80

/-- What happens. An error anywhere in GRUB enters the shell. In it lines are typed, and the
routine of the builtin that a line runs may do anything; the escape key leaves it, but not
in secure mode. -/
inductive ShellAction where
  | error (isSpiAsset : Bool)
  | escape
  | line (typed : TypedLine) (control : Control)

/-- The state after an action. A line that does not fit into `heap` is stored to the data
behind it; `overrun` is what that leaves. -/
def ShellState.act (secure debug : Bool) (overrun : ShellState → TypedLine → ShellState)
    (state : ShellState) (action : ShellAction) : ShellState :=
  match action, state.location with
  | .error isSpiAsset, .elsewhere => state.enter secure debug isSpiAsset
  | .escape, .shell _ => if secure then state else { state with location := .elsewhere }
  | .line typed control, .shell _ =>
    if heapSize < typed.stored then overrun state typed
    else if (state.shell.runs typed.text).isSome then state.after secure debug control
    else state
  | _, _ => state

/-- The name of the command of a source. -/
def recoveryName (isSpiAsset : Bool) : List UInt8 :=
  if isSpiAsset then ascii "cln_fw_recovery" else ascii "cln_sdio_program"

/-- The commands that are allowed for a source. -/
def allowList (debug isSpiAsset : Bool) : List (List UInt8) :=
  recoveryName isSpiAsset :: recoveryCmds debug

/-- The routine of that command. -/
def recoveryRoutine (isSpiAsset : Bool) : Routine :=
  if isSpiAsset then .spiProgram else .sdioProgram

/-- A builtin that is on the list of a source, with the routine of its name. -/
structure ShellBuiltin.Allowed (debug isSpiAsset : Bool) (builtin : ShellBuiltin) : Prop where
  listed : builtin.name ∈ allowList debug isSpiAsset
  routine : ∀ routine, builtin.func = some routine →
    routine = recoveryRoutine isSpiAsset ∨ routine = .standard builtin.name

/-- In the shell, a line runs nothing but what is allowed for the source. -/
def ShellState.Restricted (debug : Bool) (state : ShellState) : Prop :=
  ∀ isSpiAsset, state.location = .shell isSpiAsset → ∀ heap id,
    state.shell.runs heap = some id → (state.shell.builtins id).Allowed debug isSpiAsset

/-! ## What entering leaves -/

section Restrict

variable {cmdTable : List (List UInt8)} {shell : ShellTable}

/-- A restriction leaves the names, -/
theorem restrictOne_name (id id' : BuiltinId) :
    ((restrictOne cmdTable shell id).builtins id').name = (shell.builtins id').name := by
  rw [restrictOne]
  split
  · rfl
  · rw [ShellTable.set_builtins]
    split
    · next same => rw [same]
    · rfl

/-- The whole loop: the structures in the table that are not on the list lose their
function and their flags. -/
theorem restrictBuiltinCommands_builtins (ids : List BuiltinId) (shell : ShellTable)
    (id : BuiltinId) :
    (ids.foldl (restrictOne cmdTable) shell).builtins id =
      if id ∈ ids ∧ (shell.builtins id).name ∉ cmdTable then
        { shell.builtins id with func := none, flags := 0 }
      else shell.builtins id := by
  induction ids generalizing shell with
  | nil => exact (if_neg (fun held => List.not_mem_nil held.1)).symm
  | cons first ids inductionHypothesis =>
      rw [List.foldl_cons, inductionHypothesis, restrictOne_name]
      by_cases allowed : (shell.builtins first).name ∈ cmdTable
      · have kept : restrictOne cmdTable shell first = shell := by
          rw [restrictOne, if_pos allowed]
        rw [kept]
        by_cases same : id = first
        · rw [same, if_neg (fun held => held.2 allowed), if_neg (fun held => held.2 allowed)]
        · simp only [List.mem_cons, or_iff_right same]
      · have changed : restrictOne cmdTable shell first =
            shell.set first { shell.builtins first with func := none, flags := 0 } := by
          rw [restrictOne, if_neg allowed]
        rw [changed, ShellTable.set_builtins]
        by_cases same : id = first
        · subst same
          have here : id ∈ id :: ids ∧ (shell.builtins id).name ∉ cmdTable :=
            ⟨List.mem_cons_self, allowed⟩
          rw [if_pos rfl, if_pos here]
          split
          · rfl
          · rfl
        · simp only [if_neg same, List.mem_cons, or_iff_right same]

/-- and which commands there are. -/
theorem restrictBuiltinCommands_table (ids : List BuiltinId) (shell : ShellTable) :
    (ids.foldl (restrictOne cmdTable) shell).table = shell.table := by
  induction ids generalizing shell with
  | nil => rfl
  | cons first ids inductionHypothesis =>
      rw [List.foldl_cons, inductionHypothesis, restrictOne]
      split
      · rfl
      · rfl

end Restrict

/-- The table with a command placed holds that command and what it held before. -/
theorem mem_placeCommand {builtins : BuiltinId → ShellBuiltin} {command id : BuiltinId}
    {table placed : List BuiltinId} (places : placeCommand builtins command table = some placed)
    (member : id ∈ placed) : id = command ∨ id ∈ table := by
  induction table generalizing placed with
  | nil => cases places
  | cons first table inductionHypothesis =>
      rw [placeCommand] at places
      split at places
      · obtain rfl := Option.some.inj places
        exact (List.mem_cons.mp member).imp_right (List.mem_cons_of_mem first)
      · obtain ⟨rest, placesRest, rfl⟩ := Option.map_eq_some_iff.mp places
        rcases List.mem_cons.mp member with rfl | later
        · exact .inr List.mem_cons_self
        · exact (inductionHypothesis placesRest later).imp_right (List.mem_cons_of_mem first)

/-- The standard structures stay, and besides them the table holds at most the
command of one source. -/
structure Sourced (isSpiAsset : Bool) (shell : ShellTable) : Prop where
  table : ∀ id ∈ shell.table, id = recoveryCommand isSpiAsset ∨ ∃ index, id = .standard index
  genuine : ∀ index routine, (shell.builtins (.standard index)).func = some routine →
    routine = .standard (shell.builtins (.standard index)).name
  named : (shell.builtins (recoveryCommand isSpiAsset)).name = recoveryName isSpiAsset

/-- Besides, a standard structure in the table is on the list or cannot be run. -/
structure Confined (debug isSpiAsset : Bool) (shell : ShellTable) : Prop
    extends Sourced isSpiAsset shell where
  restricted : ∀ index, .standard index ∈ shell.table →
    (shell.builtins (.standard index)).flags = 0 ∨
      (shell.builtins (.standard index)).name ∈ recoveryCmds debug
  program : ∀ routine, (shell.builtins (recoveryCommand isSpiAsset)).func = some routine →
    routine = recoveryRoutine isSpiAsset

/-- The commands of the program have no source yet. -/
theorem sourced_initial (isSpiAsset : Bool) (table : List Builtin) :
    Sourced isSpiAsset (.initial table) where
  table := by
    intro id member
    obtain ⟨index, _, rfl⟩ := List.mem_map.mp member
    exact .inr ⟨index, rfl⟩
  genuine := by
    intro index routine func
    simp only [ShellTable.initial, standardBuiltins] at func ⊢
    split at func
    · cases func
    · split at func
      · cases func
      · exact (Option.some.inj func).symm
  named := by
    cases isSpiAsset with
    | false => rfl
    | true => rfl

section Enter

variable {debug isSpiAsset : Bool} {shell : ShellTable}

/-- Adding the command of the source changes the two program structures only. -/
theorem addClnRecoveryCommand_standard (index : Nat) :
    (addClnRecoveryCommand isSpiAsset shell).builtins (.standard index) =
      shell.builtins (.standard index) := by
  rw [addClnRecoveryCommand]
  dsimp only
  rw [ShellTable.set_builtins, if_neg nofun, ShellTable.set_builtins, if_neg nofun]

/-- The recovery command of the source gets its program. -/
theorem addClnRecoveryCommand_program :
    (addClnRecoveryCommand isSpiAsset shell).builtins (recoveryCommand isSpiAsset) =
      { shell.builtins (recoveryCommand isSpiAsset) with
        func := some (recoveryRoutine isSpiAsset)
        flags := recoveryFlags } := by
  cases isSpiAsset with
  | false => rfl
  | true => rfl

/-- One command is added at most. -/
theorem addClnRecoveryCommand_table {id : BuiltinId}
    (member : id ∈ (addClnRecoveryCommand isSpiAsset shell).table) :
    id = recoveryCommand isSpiAsset ∨ id ∈ shell.table := by
  have placing : ∀ builtins, id ∈ (placeCommand builtins (recoveryCommand isSpiAsset)
      shell.table).getD shell.table → id = recoveryCommand isSpiAsset ∨ id ∈ shell.table := by
    intro builtins member
    cases places : placeCommand builtins (recoveryCommand isSpiAsset) shell.table with
    | none =>
        rw [places] at member
        exact .inr member
    | some placed =>
        rw [places] at member
        exact mem_placeCommand places member
  exact placing _ member

/-- In secure mode, entering the shell confines it to the list. -/
theorem Sourced.enter (sourced : Sourced isSpiAsset shell) :
    Confined debug isSpiAsset (grubClnRecoveryShell true debug isSpiAsset shell) := by
  rw [grubClnRecoveryShell, if_pos rfl, restrictBuiltinCommands]
  have inTable : ∀ index, .standard index ∈ (addClnRecoveryCommand isSpiAsset
      (shell.table.foldl (restrictOne (recoveryCmds debug))
        shell)).table → .standard index ∈ shell.table := by
    intro index member
    rcases addClnRecoveryCommand_table member with program | standard
    · cases isSpiAsset with
      | false => cases program
      | true => cases program
    · rw [restrictBuiltinCommands_table] at standard
      exact standard
  constructor
  · constructor
    · intro id member
      rcases addClnRecoveryCommand_table member with program | standard
      · exact .inl program
      · rw [restrictBuiltinCommands_table] at standard
        exact sourced.table id standard
    · intro index routine func
      rw [addClnRecoveryCommand_standard, restrictBuiltinCommands_builtins] at func ⊢
      split at func
      · cases func
      · next kept =>
          rw [if_neg kept]
          exact sourced.genuine index routine func
    · rw [addClnRecoveryCommand_program, restrictBuiltinCommands_builtins]
      dsimp only
      split
      · exact sourced.named
      · exact sourced.named
  · intro index member
    rw [addClnRecoveryCommand_standard, restrictBuiltinCommands_builtins]
    by_cases allowed : (shell.builtins (.standard index)).name ∈
        (recoveryCmds debug)
    · rw [if_neg (fun held => held.2 allowed)]
      exact .inr allowed
    · rw [if_pos ⟨inTable index member, allowed⟩]
      exact .inl rfl
  · intro routine func
    rw [addClnRecoveryCommand_program] at func
    exact (Option.some.inj func).symm

/-- What a confined shell runs. -/
theorem Confined.runs (confined : Confined debug isSpiAsset shell) {heap : List UInt8}
    {id : BuiltinId} (runs : shell.runs heap = some id) :
    id = recoveryCommand isSpiAsset ∨
      ∃ index, id = .standard index ∧ (shell.builtins id).name ∈ recoveryCmds debug := by
  rw [ShellTable.runs] at runs
  split at runs
  · cases runs
  · split at runs
    · cases runs
    · next found isFound =>
        split at runs
        · cases runs
        · next flagged =>
            obtain rfl := Option.some.inj runs
            have member : found ∈ shell.table := List.mem_of_find?_eq_some isFound
            rcases confined.table found member with program | ⟨index, rfl⟩
            · exact .inl program
            · rcases confined.restricted index member with none | allowed
              · exact absurd (by rw [none, Nat.zero_and]) flagged
              · exact .inr ⟨index, rfl, allowed⟩

/-- A confined shell runs what is allowed for its source. -/
theorem Confined.allowed (confined : Confined debug isSpiAsset shell) {heap : List UInt8}
    {id : BuiltinId} (runs : shell.runs heap = some id) :
    (shell.builtins id).Allowed debug isSpiAsset := by
  rcases confined.runs runs with rfl | ⟨index, rfl, allowed⟩
  · refine ⟨?_, fun routine func => .inl (confined.program routine func)⟩
    rw [confined.named]
    exact List.mem_cons_self
  · exact ⟨List.mem_cons_of_mem _ allowed,
      fun routine func => .inr (confined.genuine index routine func)⟩

end Enter

/-! ## Every sequence of lines -/

/-- What secure mode keeps while the shell is entered for one source only. -/
structure ShellKept (debug source : Bool) (state : ShellState) : Prop where
  sourced : Sourced source state.shell
  confined : ∀ isSpiAsset, state.location = .shell isSpiAsset →
    isSpiAsset = source ∧ Confined debug source state.shell

/-- The shell is not entered for another source, and no line is too long for `heap`. -/
def ShellAction.Keeps (source : Bool) : ShellAction → Prop
  | .error isSpiAsset => isSpiAsset = source
  | .escape => True
  | .line typed control => typed.stored ≤ heapSize ∧
      ∀ isSpiAsset, control = .enters isSpiAsset → isSpiAsset = source

section Runs

variable {debug source : Bool} {overrun : ShellState → TypedLine → ShellState}
  {state : ShellState}

/-- Entering the shell restricts it. -/
theorem ShellKept.enter (sourced : Sourced source state.shell) :
    ShellKept debug source (state.enter true debug source) := by
  have confined : Confined debug source (state.enter true debug source).shell := sourced.enter
  exact ⟨confined.toSourced, fun _ here => ⟨(Location.shell.inj here).symm, confined⟩⟩

/-- What a command does afterwards keeps it restricted, if it enters from the same source. -/
theorem ShellKept.after (kept : ShellKept debug source state) {control : Control}
    (enters : ∀ isSpiAsset, control = .enters isSpiAsset → isSpiAsset = source) :
    ShellKept debug source (state.after true debug control) := by
  cases control with
  | returns => exact kept
  | stops => exact ⟨kept.sourced, fun _ here => nomatch here⟩
  | leaves => exact ⟨kept.sourced, fun _ here => nomatch here⟩
  | enters isSpiAsset =>
      obtain rfl := enters isSpiAsset rfl
      exact .enter kept.sourced

/-- One action keeps the shell confined. -/
theorem ShellKept.act (kept : ShellKept debug source state) {action : ShellAction}
    (keeps : action.Keeps source) :
    ShellKept debug source (state.act true debug overrun action) := by
  unfold ShellState.act
  split
  · next isSpiAsset here =>
      obtain rfl : isSpiAsset = source := keeps
      exact .enter kept.sourced
  · exact kept
  · next typed control isSpiAsset here =>
      obtain ⟨fits, enters⟩ := keeps
      rw [if_neg (Nat.not_lt_of_le fits)]
      split
      · exact kept.after enters
      · exact kept
  · exact kept

/-- Before it is entered nothing is claimed. -/
theorem shellKept_initial (table : List Builtin) : ShellKept debug source (.initial table) :=
  ⟨sourced_initial source table, fun _ here => nomatch here⟩

/-- Every run of such actions does. -/
theorem ShellKept.run (kept : ShellKept debug source state) {actions : List ShellAction}
    (keeps : ∀ action ∈ actions, action.Keeps source) :
    ShellKept debug source (runOps (ShellState.act true debug overrun) state actions) := by
  induction actions generalizing state with
  | nil => exact kept
  | cons action actions ih =>
      obtain ⟨here, later⟩ := List.forall_mem_cons.mp keeps
      exact ih (kept.act here) later

end Runs

/-- In secure mode the recovery shell runs only what is allowed for its source, after
any lines that fit into its buffer, as long as it is not entered for another source. -/
theorem recoveryShell_runs_allowed (debug source : Bool)
    (overrun : ShellState → TypedLine → ShellState) (table : List Builtin)
    {actions : List ShellAction} (keeps : ∀ action ∈ actions, action.Keeps source) :
    (runOps (ShellState.act true debug overrun) (.initial table) actions).Restricted debug := by
  have kept : ShellKept debug source
      (runOps (ShellState.act true debug overrun) (.initial table) actions) :=
    (shellKept_initial table).run keeps
  intro isSpiAsset here heap id runs
  obtain ⟨rfl, confined⟩ := kept.confined isSpiAsset here
  exact confined.allowed runs

/-- A typed line that fits as far as its text does. -/
def typedLine (text : List UInt8) : TypedLine := ⟨text, text.length + 1, Nat.lt_succ_self _⟩

/-- A run with a line that is typed, ESC and an error stays restricted. -/
theorem recoveryShell_runs_cat :
    (runOps (ShellState.act true true fun state _ => state) (.initial builtinTable)
      [.error true, .line (typedLine (ascii "help")) .returns,
        .line (typedLine (ascii "boot")) .leaves, .escape,
        .line (typedLine (ascii "cat /x")) .leaves, .error true]).Restricted true := by
  refine recoveryShell_runs_allowed true true _ builtinTable ?_
  simp only [List.forall_mem_cons]
  refine ⟨rfl, ⟨by decide, nofun⟩, ⟨by decide, nofun⟩, trivial, ⟨by decide, nofun⟩, rfl, ?_⟩
  exact fun _ isIn => absurd isIn List.not_mem_nil

/-- A line runs a builtin that is not allowed. -/
theorem not_restricted {debug isSpiAsset : Bool} {state : ShellState} (heap : List UInt8)
    (id : BuiltinId) (here : state.location = .shell isSpiAsset)
    (runs : state.shell.runs heap = some id)
    (unlisted : (state.shell.builtins id).name ∉ allowList debug isSpiAsset) :
    ¬ state.Restricted debug :=
  fun restricted => unlisted (restricted isSpiAsset here heap id runs).listed

/-- Entered for the other source, the shell has the commands of both; and a line of 128
characters may leave it with any. -/
theorem recoveryShell_enables_both :
    (¬ ∀ (debug : Bool) (overrun : ShellState → TypedLine → ShellState) (table : List Builtin)
      (actions : List ShellAction),
      (∀ typed control, .line typed control ∈ actions → typed.stored ≤ heapSize) →
        (runOps (ShellState.act true debug overrun) (.initial table) actions).Restricted debug) ∧
    ¬ ∀ (debug : Bool) (overrun : ShellState → TypedLine → ShellState) (table : List Builtin)
      (typed : TypedLine),
        (runOps (ShellState.act true debug overrun) (.initial table)
          [.error true, .line typed .returns]).Restricted debug := by
  constructor
  · intro restricted
    refine @not_restricted true false _ (ascii "cln_fw_recovery") .spiProgram ?_ ?_ ?_
      (restricted true (fun state _ => state) builtinTable
        [.error true, .line (typedLine (ascii "help")) (.enters false)] ?_)
    · decide +kernel
    · decide +kernel
    · decide +kernel
    · rintro typed control isIn
      obtain ⟨rfl, rfl⟩ : typed = typedLine (ascii "help") ∧ control = .enters false := by
        simpa using isIn
      decide
  · intro restricted
    refine @not_restricted true true _ (ascii "boot") (.standard 2) ?_ ?_ ?_
      (restricted true (fun _ _ => { shell := .initial builtinTable, location := .shell true })
        builtinTable (typedLine (List.replicate 128 0x61)))
    · decide +kernel
    · decide +kernel
    · decide +kernel

end GrubLegacy.Clanton
