import GrubLegacy.Base.ByteArea
import GrubLegacy.Stage2.Shared

/-!
# The line editor

`get_cmdline` reads a line into its caller's buffer. On a terminal that can edit,
`real_get_cmdline` works on its own copy of the line, in the scratch area that starts
at CMDLINE_BUF, and goes back to the caller's buffer when a history entry is fetched
and at the end of the line. What it prints is left out: the position of the cursor on
the screen decides nothing about the line.
-/

namespace GrubLegacy.Console

open Base

def maxCmdline : Nat := 1600

/-- KILL_BUF, as a position of the scratch area. -/
def killBuf : Nat := maxCmdline

/-- HISTORY_BUF, as a position of the scratch area. -/
def historyBuf : Nat := killBuf + maxCmdline

def historySize : Nat := 5

def space : UInt8 := 32

def equalSign : UInt8 := 61

/-- A call of `add_history`: the index and the line it was given, `num_history` at the
time, and where each of its stores began and how long it was. -/
structure HistoryCall where
  no : Nat
  line : List UInt8
  numHistory : Nat
  stores : List (Nat × Nat)

/-- What lasts from one line to the next: the bytes from CMDLINE_BUF on and
`num_history`. The calls of `add_history` are kept too, the last one first. -/
structure Workspace where
  scratch : Area
  numHistory : Nat
  calls : List HistoryCall

/-- The caller's buffer, and where each store into it began and how long it was, the
last one first. -/
structure Buffer where
  bytes : Area
  stores : List (Nat × Nat)

/-- The arguments of `get_cmdline` other than the prompt and the buffer. -/
structure Request where
  maxlen : Nat
  echoChar : UInt8
  readline : Bool

/-- The flags of `current_term` that `get_cmdline` asks for. -/
structure Terminal where
  noEcho : Bool
  noEdit : Bool

/-- A key, and what `print_completions` would leave behind the word in COMPLETION_BUF
if it were called now: nothing where it returns a negative number. -/
structure KeyPress where
  code : UInt8
  completions : (isFilename : Bool) → (word : List UInt8) → Option (List UInt8)

/-- A key whose completion is never asked for. -/
def press (code : UInt8) : KeyPress where
  code := code
  completions _ _ := none

/-- The variables of `real_get_cmdline`, and what it works on. -/
structure Line extends Workspace where
  cmdline : Buffer
  llen : Nat
  lpos : Nat
  history : Int

/-- `get_cmdline` waits for a key, or it has returned. -/
inductive Outcome where
  | waiting (workspace : Workspace) (cmdline : Buffer)
  | returned (value : Nat) (workspace : Workspace) (cmdline : Buffer)

/-- `real_get_cmdline` waits for a key with the line as it is, or it has returned. -/
inductive Progress where
  | editing (line : Line)
  | returned (value : Nat) (workspace : Workspace) (cmdline : Buffer)

def Progress.outcome : Progress → Outcome
  | editing line => .waiting line.toWorkspace line.cmdline
  | returned value workspace cmdline => .returned value workspace cmdline

/-- Copy bytes into the caller's buffer. -/
def Buffer.copy (buffer : Buffer) (destination : Nat) (source : Area) (start length : Nat) :
    Buffer where
  bytes := copyIn buffer.bytes destination source start length
  stores := (destination, length) :: buffer.stores

/-- Store one byte of it. -/
def Buffer.set (buffer : Buffer) (place : Nat) (byte : UInt8) : Buffer where
  bytes := setByte buffer.bytes place byte
  stores := (place, 1) :: buffer.stores

/-- The place of an entry of the history. -/
def historySlot (no : Nat) : Nat := historyBuf + maxCmdline * no

def getHistory (workspace : Workspace) (no : Int) : Option Nat :=
  if no < 0 ∨ workspace.numHistory ≤ no then none else some (historySlot no.toNat)

/-- The call of `add_history` that is about to be made. -/
def historyCall (workspace : Workspace) (source : Area) (no : Nat) : HistoryCall where
  no := no
  line := stringAt source 0
  numHistory := workspace.numHistory
  stores :=
    [(historySlot (no + 1), maxCmdline * (workspace.numHistory - no)),
      (historySlot no, strlen source 0 + 1)]

/-- Put a line before entry `no` of the history. The line lies outside of HISTORY_BUF. -/
def addHistory (workspace : Workspace) (source : Area) (no : Nat) : Workspace where
  scratch :=
    let moved := copyIn workspace.scratch (historySlot (no + 1)) workspace.scratch
      (historySlot no) (maxCmdline * (workspace.numHistory - no))
    strcpy moved (historySlot no) source 0
  numHistory :=
    if workspace.numHistory < historySize then workspace.numHistory + 1
    else workspace.numHistory
  calls := historyCall workspace source no :: workspace.calls

def clBackward (line : Line) (count : Nat) : Line := { line with lpos := line.lpos - count }

def clForward (line : Line) (count : Nat) : Line := { line with lpos := line.lpos + count }

/-- Insert the string at a position of some area. -/
def clInsert (maxlen : Nat) (line : Line) (source : Area) (start : Nat) : Line :=
  let l := strlen source start
  if line.llen + l < maxlen then
    { line with
      scratch :=
        if line.lpos = line.llen then copyIn line.scratch line.lpos source start (l + 1)
        else
          copyIn
            (copyIn line.scratch (line.lpos + l) line.scratch line.lpos
              (line.llen - line.lpos + 1))
            line.lpos source start l
      llen := line.llen + l
      lpos := line.lpos + l }
  else line

def clDelete (line : Line) (count : Nat) : Line :=
  { line with
    scratch := copyIn line.scratch line.lpos line.scratch (line.lpos + count)
      (line.llen - count + 1)
    llen := line.llen - count }

/-- The first space after the command: leading spaces, then the first word. -/
def afterCommand (buf : Area) : Nat :=
  let first := spanLength (· == space) buf addressSpace 0
  first + spanLength (fun c => isText c && c != equalSign && c != space) buf addressSpace first

/-- The equal character right after the command, before any space. -/
def equalPos (buf : Area) : Option Nat :=
  let pos := afterCommand buf
  let i := pos + spanLength (fun c => isText c && c != space && c != equalSign) buf
    addressSpace pos
  if buf i = equalSign then some i else none

/-- The first character of the word that ends at a position. -/
def wordStart (buf : Area) : Nat → Nat
  | 0 => 0
  | i + 1 => if buf i = space then i + 1 else wordStart buf i

/-- TAB: insert what completes the word before the cursor. An equal character after the
command reads as a space while the word is looked for. -/
def complete (maxlen : Nat) (line : Line) (key : KeyPress) : Line :=
  let isFilename := decide (afterCommand line.scratch < line.lpos)
  let hidden := match equalPos line.scratch with
    | some place => setByte line.scratch place space
    | none => line.scratch
  let i := wordStart hidden line.lpos
  let word := bytesAt hidden i (line.lpos - i)
  let inserted := match key.completions isFilename word with
    | some text => clInsert maxlen { line with scratch := hidden } (areaOf text) 0
    | none => { line with scratch := hidden }
  match equalPos line.scratch with
  | some place => { inserted with scratch := setByte inserted.scratch place equalSign }
  | none => inserted

/-- C-u: kill to the beginning of the line. -/
def killBackward (line : Line) : Line :=
  if line.lpos = 0 then line
  else
    let killed := setByte (copyIn line.scratch killBuf line.scratch 0 line.lpos)
      (killBuf + line.lpos) 0
    clDelete (clBackward { line with scratch := killed } line.lpos) line.lpos

/-- C-k: kill to the end of the line. -/
def killForward (line : Line) : Line :=
  if line.lpos = line.llen then line
  else
    let killed := copyIn line.scratch killBuf line.scratch line.lpos (line.llen - line.lpos + 1)
    clDelete { line with scratch := killed } (line.llen - line.lpos)

/-- If the working buffer is no longer the history entry it came from, it becomes an
entry of its own. -/
def keepChanges (line : Line) : Line :=
  match getHistory line.toWorkspace line.history with
  | none => line
  | some slot =>
      if stringAt line.scratch slot ≠ stringAt line.scratch 0 then
        { line with toWorkspace := addHistory line.toWorkspace line.scratch line.history.toNat }
      else line

/-- Edit the string at a position of some area. -/
def recallLine (line : Line) (source : Area) (start : Nat) : Line :=
  let scratch := strcpy line.scratch 0 source start
  { line with
    scratch := scratch
    llen := strlen scratch 0
    lpos := strlen scratch 0 }

/-- C-p: fetch the previous command. The working buffer is saved in the caller's. -/
def previousCommand (line : Line) : Line :=
  let kept :=
    if line.history < 0 then
      { line with cmdline := line.cmdline.copy 0 line.scratch 0 (strlen line.scratch 0 + 1) }
    else keepChanges line
  match getHistory kept.toWorkspace (kept.history + 1) with
  | none => kept
  | some slot => recallLine { kept with history := kept.history + 1 } kept.scratch slot

/-- C-n: fetch the next command, the saved line after the last of them. -/
def nextCommand (line : Line) : Line :=
  if line.history < 0 then line
  else
    let kept := keepChanges line
    let earlier := { kept with history := kept.history - 1 }
    match getHistory kept.toWorkspace (kept.history - 1) with
    | none => recallLine earlier kept.cmdline.bytes 0
    | some slot => recallLine earlier kept.scratch slot

/-- The bindings of readline: TAB, C-a, C-e, C-f, C-b, C-u, C-k, C-y, C-p and C-n. -/
def readlineKey (maxlen : Nat) (line : Line) (key : KeyPress) : Line :=
  if key.code = 9 then complete maxlen line key
  else if key.code = 1 then clBackward line line.lpos
  else if key.code = 5 then clForward line (line.llen - line.lpos)
  else if key.code = 6 then if line.lpos < line.llen then clForward line 1 else line
  else if key.code = 2 then if 0 < line.lpos then clBackward line 1 else line
  else if key.code = 21 then killBackward line
  else if key.code = 11 then killForward line
  else if key.code = 25 then clInsert maxlen line line.scratch killBuf
  else if key.code = 16 then previousCommand line
  else if key.code = 14 then nextCommand line
  else line

/-- The keys that are always handled: ESC, C-d, C-h and the printable ones. Where ESC
may not leave the editor it goes on as a C-d. -/
def plainKey (maxlen : Nat) (secure : Bool) (line : Line) (code : UInt8) : Option Line :=
  if code = 27 ∧ secure = false then none
  else if code = 27 ∨ code = 4 then
    if line.lpos = line.llen then some line else some (clDelete line 1)
  else if code = 8 then
    if 0 < line.lpos then some (clDelete (clBackward line 1) 1) else some line
  else if 32 ≤ code ∧ code ≤ 126 then some (clInsert maxlen line (areaOf [code]) 0)
  else some line

def newline (code : UInt8) : Bool := code = 10 || code = 13

/-- The end of the line: it goes to the caller, without its leading spaces unless it was
not shown, and to the history. -/
def finish (request : Request) (line : Line) : Progress :=
  let lpos :=
    if request.echoChar = 0 then spanLength (· == space) line.scratch addressSpace 0 else 0
  let cmdline := line.cmdline.copy 0 line.scratch lpos (line.llen - lpos + 1)
  if request.readline ∧ lpos < line.llen then
    .returned 0 (addHistory line.toWorkspace cmdline.bytes 0) cmdline
  else .returned 0 line.toWorkspace cmdline

/-- The loop of `real_get_cmdline` over the keys. -/
def editLoop (request : Request) (maxlen : Nat) (secure : Bool) :
    Line → List KeyPress → Progress
  | line, [] => .editing line
  | line, key :: keys =>
      if newline key.code then finish request line
      else
        let line := if request.readline then readlineKey maxlen line key else line
        match plainKey maxlen secure line key.code with
        | none => .returned 1 line.toWorkspace line.cmdline
        | some line => editLoop request maxlen secure line keys

/-- The line `real_get_cmdline` begins with: the caller's, cut at MAX_CMDLINE where the
caller's limit was cut too. -/
def startLine (request : Request) (workspace : Workspace) (cmdline : Buffer) : Line :=
  let llen := strlen cmdline.bytes 0
  let cut := maxCmdline < request.maxlen ∧ maxCmdline ≤ llen
  let cmdline := if cut then cmdline.set maxCmdline 0 else cmdline
  let llen := if cut then maxCmdline - 1 else llen
  { scratch := strcpy workspace.scratch 0 cmdline.bytes 0
    numHistory := workspace.numHistory
    calls := workspace.calls
    cmdline := cmdline
    llen := llen
    lpos := llen
    history := -1 }

def realGetCmdline (request : Request) (secure : Bool) (workspace : Workspace)
    (cmdline : Buffer) (keys : List KeyPress) : Progress :=
  editLoop request (min request.maxlen maxCmdline) secure (startLine request workspace cmdline)
    keys

/-- Gather characters on a terminal that cannot edit. `place` is where the next one
goes. -/
def gather (secure : Bool) (workspace : Workspace) :
    Buffer → (place : Nat) → List KeyPress → Outcome
  | cmdline, _, [] => .waiting workspace cmdline
  | cmdline, place, key :: keys =>
      if newline key.code then .returned 0 workspace (cmdline.set place 0)
      else if secure = false ∧ key.code = 27 then .returned 1 workspace cmdline
      else if 32 ≤ key.code ∧ key.code ≤ 126 ∧ (key.code ≠ space ∨ place ≠ 0) then
        gather secure workspace (cmdline.set place key.code) (place + 1) keys
      else gather secure workspace cmdline place keys

/-- The limit is made no greater than MAX_CMDLINE on a terminal that cannot edit too,
but nothing there asks for it. -/
def getCmdline (request : Request) (terminal : Terminal) (secure : Bool)
    (workspace : Workspace) (cmdline : Buffer) (keys : List KeyPress) : Outcome :=
  if terminal.noEcho || terminal.noEdit then gather secure workspace cmdline 0 keys
  else (realGetCmdline request secure workspace cmdline keys).outcome

/-- The callers of `get_cmdline`: the command line, given the menu's heap, and the same
from the recovery shell, given its own; the two editors of the menu, whose buffer is the
heap too; the password prompt of the menu and the commands `password` and `md5crypt`. -/
inductive Caller where
  | commandLine (room : Nat) (some_ : 0 < room)
  | recoveryShell
  | menuEdit (room : Nat) (some_ : 0 < room)
  | menuAppend (room : Nat) (some_ : 0 < room)
  | menuPassword
  | passwordCommand
  | md5crypt

namespace Caller

/-- Bytes of the buffer. -/
def room : Caller → Nat
  | commandLine room _ => room
  | recoveryShell => 0x80
  | menuEdit room _ => room
  | menuAppend room _ => room
  | menuPassword => 32
  | passwordCommand => 32
  | md5crypt => 32

def commandRequest : Request where
  maxlen := 2048
  echoChar := 0
  readline := true

def editRequest : Request where
  maxlen := Stage2.newHeapsize + 1
  echoChar := 0
  readline := true

def passwordRequest : Request where
  maxlen := 31
  echoChar := 42
  readline := false

def request : Caller → Request
  | commandLine _ _ => commandRequest
  | recoveryShell => commandRequest
  | menuEdit _ _ => editRequest
  | menuAppend _ _ => editRequest
  | menuPassword => passwordRequest
  | passwordCommand => passwordRequest
  | md5crypt => passwordRequest

/-- What the buffer holds when the caller passes it: nothing, or the line of an entry.
Such a line was read from the configuration file, in at most NEW_HEAPSIZE bytes, or
edited, so that it is shorter than MAX_CMDLINE. -/
def Passes (bytes : Area) : Caller → Prop
  | menuEdit room _ => EndsWithin bytes 0 (min room maxCmdline - 1)
  | menuAppend room _ => EndsWithin bytes 0 (min room maxCmdline - 1)
  | _ => bytes 0 = 0

end Caller

end GrubLegacy.Console
