import GrubLegacy.Clanton.RecoveryShell
import GrubLegacy.Stage2.Shared

/-!
# Running a script

`run_script` and `enter_cmdline` of `cmdline.c`. The commands are functions that come
from outside; one that does not return (it boots, stops or jumps to the menu) has no
result. What the user types is a list, at whose end GRUB waits for ever.
-/

namespace GrubLegacy.Menu

open CStrings Clanton Stage2

/-- What is answered at the prompt of the command line. -/
inductive Typed where
  | line (heap : List UInt8)
  | escape

/-- What the command line and the commands work on. `world` is all that only the
commands look at. -/
structure GrubState (World : Type) where
  errnum : GrubError
  kernelType : KernelType
  shell : ShellTable
  input : List Typed
  world : World

/-- The functions of the builtins. -/
abbrev Commands (World : Type) :=
  Routine → (arg : List UInt8) → GrubState World → Option (GrubState World)

variable {World : Type}

/-- `set_bootdev`, which reads a sector of the partition GRUB was installed to: what that
leaves, and the error if it fails. -/
abbrev SetBootdev (World : Type) := World → World × GrubError

/-! ## The command line -/

/-- `init_builtins`; an error of `set_bootdev` stays. -/
def initBuiltins (setBootdev : SetBootdev World) (state : GrubState World) : GrubState World :=
  let (world, failed) := setBootdev state.world
  { state with
    errnum := if failed = .none then state.errnum else failed
    kernelType := .none
    world }

/-- `init_cmdline` -/
def initCmdline (setBootdev : SetBootdev World) (clnRecovery : Bool) (state : GrubState World) :
    GrubState World :=
  initBuiltins setBootdev
    { state with errnum := if clnRecovery then state.errnum else .none }

/-- The answer that `get_cmdline` comes back with: a line, or `none` for the escape key. -/
def nextAnswer (secure : Bool) : List Typed → Option (Option (List UInt8) × List Typed)
  | [] => none
  | .line heap :: input => some (some heap, input)
  -- in secure mode the key does not leave the command line
  | .escape :: input => if secure then nextAnswer secure input else some (none, input)

/-- The state with an error. -/
def GrubState.fail (state : GrubState World) (errnum : GrubError) : GrubState World :=
  { state with errnum }

/-- Run a line that is not empty. -/
def runLine (commands : Commands World) (heap : List UInt8) (state : GrubState World) :
    Option (GrubState World) :=
  match state.shell.runs heap with
  | none => some (state.fail .unrecognized)
  | some id =>
    match (state.shell.builtins id).func with
    | none => none
    | some routine => commands routine (skipTo true heap) state

/-- A turn of the loop of `enter_cmdline` in which a line is typed. -/
def enterLine (commands : Commands World) (heap : List UInt8) (state : GrubState World) :
    Option (GrubState World) :=
  if heap = [] then some state else runLine commands heap state

/-- The state after the error was printed and an answer was typed. -/
def GrubState.typed (state : GrubState World) (input : List Typed) : GrubState World :=
  { state with errnum := .none, input }

/-- The loop of `enter_cmdline` is left, with this state. -/
inductive CmdlineLeft (secure : Bool) (commands : Commands World) :
    GrubState World → GrubState World → Prop where
  | escape {state : GrubState World} {input : List Typed}
      (answer : nextAnswer secure state.input = some (none, input)) :
      CmdlineLeft secure commands state (state.typed input)
  | line {state next left : GrubState World} {heap : List UInt8} {input : List Typed}
      (answer : nextAnswer secure state.input = some (some heap, input))
      (runs : enterLine commands heap (state.typed input) = some next)
      (later : CmdlineLeft secure commands next left) : CmdlineLeft secure commands state left

/-- How GRUB was set up: `grub_cln_secure`, `grub_cln_debug` and
`grub_cln_loaded_from_spi`. -/
structure ClnMode where
  secure : Bool
  debug : Bool
  loadedFromSpi : Bool

/-- The recovery shell for an error in a script, up to the loop of its command line. -/
def recover (mode : ClnMode) (setBootdev : SetBootdev World) (state : GrubState World) :
    GrubState World :=
  initCmdline setBootdev true
    { state with
      shell := grubClnRecoveryShell mode.secure mode.debug mode.loadedFromSpi state.shell }

/-- The recovery shell returns, although it never should. -/
def ShellLeft (mode : ClnMode) (setBootdev : SetBootdev World) (commands : Commands World)
    (state left : GrubState World) : Prop :=
  CmdlineLeft mode.secure commands (recover mode setBootdev state) left

/-! ## The script -/

/-- The string that starts here and what is behind it. -/
def nextString (bytes : List UInt8) : Option (List UInt8 × List UInt8) :=
  if 0 ∈ bytes then some (readString bytes, bytes.drop ((readString bytes).length + 1)) else none

/-- What is run for a string of the script; an empty one runs `boot` if there is a
kernel, and ends the script otherwise. -/
def scriptCommand (kernelType : KernelType) (text : List UInt8) : Option (List UInt8) :=
  if text = [] then if kernelType = .none then none else some (ascii "boot") else some text

/-- The loop of `run_script`: the bytes from `cur_entry` on, and the rest. -/
structure ScriptState (World : Type) where
  curEntry : List UInt8
  grub : GrubState World

/-- `run_script` is called. It may find an error of `set_bootdev` before its first command. -/
def runScript (setBootdev : SetBootdev World) (script : List UInt8) (grub : GrubState World) :
    ScriptState World :=
  { curEntry := script, grub := initCmdline setBootdev false grub }

section Script

variable (mode : ClnMode) (setBootdev : SetBootdev World) (commands : Commands World)

/-- The start of a turn of the loop: after an error, the recovery shell. -/
inductive Resumes : GrubState World → GrubState World → Prop where
  | clear {state : GrubState World} (success : state.errnum = .none) : Resumes state state
  | recovered {state left : GrubState World} (failed : state.errnum ≠ .none)
      (leaves : ShellLeft mode setBootdev commands state left) : Resumes state left

/-- A turn comes to run this line. -/
structure TurnRuns (state : ScriptState World) (grub : GrubState World) (heap rest : List UInt8) :
    Prop where
  resumes : Resumes mode setBootdev commands state.grub grub
  command : ∃ text, nextString state.curEntry = some (text, rest) ∧
    scriptCommand grub.kernelType text = some heap

/-- A turn of the loop. -/
inductive ScriptTurn : ScriptState World → ScriptState World → Prop where
  | turn {state : ScriptState World} {grub next : GrubState World} {heap rest : List UInt8}
      (runs : TurnRuns mode setBootdev commands state grub heap rest)
      (returns : runLine commands heap grub = some next) :
      ScriptTurn state { curEntry := rest, grub := next }

/-- In this turn the function of a builtin is called. -/
def Executes (state : ScriptState World) : Prop :=
  ∃ grub heap rest, TurnRuns mode setBootdev commands state grub heap rest ∧
    ∃ id, grub.shell.runs heap = some id

/-- The states of the loop after any number of turns. -/
abbrev ScriptReaches : ScriptState World → ScriptState World → Prop :=
  Relation.ReflTransGen (ScriptTurn mode setBootdev commands)

/-- A turn of a script that starts like this has left an error. -/
def CommandFails (start failed : ScriptState World) : Prop :=
  failed.grub.errnum ≠ .none ∧ Relation.TransGen (ScriptTurn mode setBootdev commands) start failed

/-- Once a turn has left an error, nothing is executed. -/
def ErrorStops (start : ScriptState World) : Prop :=
  ∀ failed, CommandFails mode setBootdev commands start failed →
    ∀ later, ScriptReaches mode setBootdev commands failed later →
      ¬ Executes mode setBootdev commands later

/-- There is nothing to execute at the head of these bytes: the script is at its end and
no kernel is loaded, or the string is no command. -/
def NothingFollows (curEntry : List UInt8) (grub : GrubState World) : Prop :=
  match nextString curEntry with
  | none => True
  | some ([], _) => grub.kernelType = .none ∨ grub.shell.runs (ascii "boot") = none
  | some (text, _) => grub.shell.runs text = none

/-- An error in this state does no harm: the recovery shell is not left, or with nothing
to execute. -/
def StaysStopped (state : ScriptState World) : Prop :=
  ∀ left, ShellLeft mode setBootdev commands state.grub left → NothingFollows state.curEntry left

end Script

/-! ## After an error -/

section Stopping

variable {mode : ClnMode} {setBootdev : SetBootdev World} {commands : Commands World}

/-- In secure mode the escape key has no effect. -/
theorem nextAnswer_secure (input : List Typed) {rest : List Typed} :
    nextAnswer true input ≠ some (none, rest) := by
  induction input with
  | nil => exact nofun
  | cons typed input inductionHypothesis =>
      cases typed with
      | line heap => exact fun same => nomatch (Prod.mk.inj (Option.some.inj same)).1
      | escape =>
          rw [nextAnswer, if_pos rfl]
          exact inductionHypothesis

/-- In secure mode the command line is not left. -/
theorem not_cmdlineLeft_secure {state left : GrubState World} :
    ¬ CmdlineLeft true commands state left := by
  intro leaves
  induction leaves with
  | escape answer => exact nextAnswer_secure _ answer
  | line _ _ _ inductionHypothesis => exact inductionHypothesis

/-- In secure mode a script that stopped stays so. -/
theorem staysStopped_secure (secure : mode.secure = true) (state : ScriptState World) :
    StaysStopped mode setBootdev commands state := by
  intro left leaves
  rw [ShellLeft, secure] at leaves
  exact absurd leaves not_cmdlineLeft_secure

/-- Where nothing follows, the line that would be run names no command. -/
theorem nothingFollows_iff {curEntry : List UInt8} {grub : GrubState World} :
    NothingFollows curEntry grub ↔
      ∀ text rest heap, nextString curEntry = some (text, rest) →
        scriptCommand grub.kernelType text = some heap → grub.shell.runs heap = none := by
  rw [NothingFollows]
  cases next : nextString curEntry with
  | none => exact iff_of_true trivial nofun
  | some string =>
      obtain ⟨text, rest⟩ := string
      cases text with
      | nil =>
          constructor
          · rintro nothing _ _ heap ⟨⟩ isHeap
            rw [scriptCommand, if_pos rfl] at isHeap
            split at isHeap
            case isTrue => cases isHeap
            case isFalse loaded =>
                obtain rfl := Option.some.inj isHeap
                exact nothing.resolve_left loaded
          · intro nothing
            by_cases loaded : grub.kernelType = .none
            · exact .inl loaded
            · refine .inr (nothing [] rest _ rfl ?_)
              rw [scriptCommand, if_pos rfl, if_neg loaded]
      | cons first text =>
          constructor
          · rintro nothing _ _ heap ⟨⟩ isHeap
            rw [scriptCommand, if_neg (List.cons_ne_nil _ _)] at isHeap
            obtain rfl := Option.some.inj isHeap
            exact nothing
          · exact fun nothing => nothing _ rest _ rfl (if_neg (List.cons_ne_nil _ _))

/-- After an error, a turn executes something just if the shell is left with something
to execute. -/
theorem executes_iff_of_failed {state : ScriptState World}
    (failed : state.grub.errnum ≠ .none) :
    ¬ Executes mode setBootdev commands state ↔ StaysStopped mode setBootdev commands state := by
  constructor
  · intro idle left leaves
    rw [nothingFollows_iff]
    intro text rest heap next isHeap
    by_contra runs
    obtain ⟨id, isRun⟩ := Option.ne_none_iff_exists'.mp runs
    exact idle ⟨left, heap, rest, ⟨.recovered failed leaves, text, next, isHeap⟩, id, isRun⟩
  · rintro stays ⟨grub, heap, rest, ⟨resumes, text, next, isHeap⟩, id, isRun⟩
    cases resumes with
    | clear success => exact failed success
    | recovered _ leaves =>
        have nothing := nothingFollows_iff.mp (stays grub leaves) text rest heap next isHeap
        exact nomatch nothing.symm.trans isRun

/-- A turn in which nothing is executed leaves an error. -/
theorem ScriptTurn.failed {state next : ScriptState World}
    (turn : ScriptTurn mode setBootdev commands state next)
    (idle : ¬ Executes mode setBootdev commands state) :
    next.grub.errnum ≠ .none := by
  cases turn with
  | @turn grub after heap rest runs returns =>
      cases isRun : grub.shell.runs heap with
      | none =>
          rw [runLine, isRun] at returns
          obtain rfl := Option.some.inj returns
          exact nofun
      | some id => exact absurd ⟨grub, heap, rest, runs, id, isRun⟩ idle

/-- An error stays an error as long as nothing is executed. -/
theorem CommandFails.later {start failed later : ScriptState World}
    (stays : ∀ state, CommandFails mode setBootdev commands start state →
      StaysStopped mode setBootdev commands state)
    (fails : CommandFails mode setBootdev commands start failed)
    (reaches : ScriptReaches mode setBootdev commands failed later) :
    CommandFails mode setBootdev commands start later := by
  induction reaches with
  | refl => exact fails
  | tail before turn ih =>
      refine ⟨turn.failed ?_, ih.2.tail turn⟩
      rw [executes_iff_of_failed ih.1]
      exact stays _ ih

end Stopping

/-- An error stops the script just if after every error of a command the recovery shell is
not left or is left with nothing to execute; in secure mode it always does. -/
theorem runScript_errorStops_iff (mode : ClnMode) (setBootdev : SetBootdev World)
    (commands : Commands World) (script : List UInt8) (grub : GrubState World) :
    ErrorStops mode setBootdev commands (runScript setBootdev script grub) ↔
      mode.secure = true ∨
        ∀ state, CommandFails mode setBootdev commands (runScript setBootdev script grub) state →
          StaysStopped mode setBootdev commands state := by
  constructor
  · intro stops
    refine .inr fun state fails => ?_
    rw [← executes_iff_of_failed fails.1]
    exact stops state fails state .refl
  · intro condition failed fails later reaches
    have stays : ∀ state,
        CommandFails mode setBootdev commands (runScript setBootdev script grub) state →
          StaysStopped mode setBootdev commands state := by
      rcases condition with secure | stays
      · exact fun state _ => staysStopped_secure secure state
      · exact stays
    have stillFails := fails.later stays reaches
    rw [executes_iff_of_failed stillFails.1]
    exact stays later stillFails

/-- A script of two commands. -/
def twoCommands : List UInt8 := encodeGroup [ascii "root (hd9)", ascii "halt"]

/-- Commands that find nothing. -/
def failingCommands : Commands Unit := fun _ _ state => some (state.fail .noDisk)

/-- Not secure, with a user who leaves the recovery shell. -/
def leavingUser : GrubState Unit :=
  { errnum := .none, kernelType := .none, shell := .initial builtinTable, input := [.escape]
    world := () }

/-- A boot partition that is not read. -/
def noBootdev : SetBootdev Unit := fun world => (world, .none)

/-- After a command that fails, the next one is executed when the shell was left. -/
theorem runScript_goes_on :
    ¬ ErrorStops { secure := false, debug := false, loadedFromSpi := false } noBootdev
      failingCommands (runScript noBootdev twoCommands leavingUser) := by
  intro stops
  have first : TurnRuns { secure := false, debug := false, loadedFromSpi := false } noBootdev
      failingCommands (runScript noBootdev twoCommands leavingUser) leavingUser
      (ascii "root (hd9)") (encodeGroup [ascii "halt"]) :=
    ⟨.clear rfl, ascii "root (hd9)", by decide +kernel, by decide⟩
  have fails : runLine failingCommands (ascii "root (hd9)") leavingUser =
      some (leavingUser.fail .noDisk) := by
    rw [runLine, show leavingUser.shell.runs (ascii "root (hd9)") = some (.standard 39) by
      decide +kernel]
    rfl
  have isFailed : (leavingUser.fail .noDisk).errnum ≠ .none := nofun
  have second := stops _ ⟨isFailed, .single (.turn first fails)⟩ _ .refl
  refine second ⟨_, ascii "halt", [0], ⟨.recovered nofun (.escape rfl), ascii "halt", ?_, ?_⟩,
    .standard 20, ?_⟩
  · decide +kernel
  · decide
  · decide +kernel

end GrubLegacy.Menu
