import GrubLegacy.Stage2.Shared

/-!
# Reading lines of the configuration

`get_line_from_config` of `stage2.c`, byte by byte. The bytes come either from
the buffered configuration file, whose cursor `cln_index` is static, or from the
preset menu.
-/

namespace GrubLegacy.Menu

def charNewline : UInt8 := 0x0a
def charReturn : UInt8 := 0x0d
def charTab : UInt8 := 0x09
def charBlank : UInt8 := 0x20
def charHash : UInt8 := 0x23
def charBackslash : UInt8 := 0x5c

/-- Replace tabs with spaces. -/
def detab (c : UInt8) : UInt8 := if c = charTab then charBlank else c

/-- Where the bytes come from, with the position reached. -/
inductive LineSource where
  | file (buffer : List UInt8) (clnIndex : Nat)
  | preset (rest : List UInt8)

/-- The locals of `get_line_from_config`; `line` is `cmdline[0 .. pos)`. -/
structure LineState where
  line : List UInt8
  literal : Bool
  comment : Bool
deriving DecidableEq, Repr

/-- The locals at the start of a call. -/
def LineState.start : LineState := { line := [], literal := false, comment := false }

/-- What one byte does: leave the loop, or go on. -/
inductive LineStep where
  | stop (state : LineState)
  | more (state : LineState)
deriving DecidableEq, Repr

/-- The comment and storing part of the loop body, for the translated byte. -/
def storeByte (maxlen : Nat) (state : LineState) (c : UInt8) : LineStep :=
  if state.comment then
    .more { state with comment := if c = charNewline then false else state.comment }
  else if state.line.length = 0 then
    if c = charHash then .more { state with comment := true }
    else if c ≠ charBlank ∧ c ≠ charNewline then .more { state with line := state.line ++ [c] }
    else .more state
  else if c = charNewline then .stop state
  else if state.line.length < maxlen then .more { state with line := state.line ++ [c] }
  else .more state

/-- The loop body of `get_line_from_config`. -/
def lineByte (maxlen : Nat) (state : LineState) (c : UInt8) : LineStep :=
  if c = charReturn then .more state
  else
    let c := detab c
    let joins := state.literal && c = charNewline
    -- a newline after a backslash overwrites the backslash with a blank
    let c := if joins then charBlank else c
    let state := { state with
      line := if joins then state.line.dropLast else state.line
      literal := c = charBackslash }
    storeByte maxlen state c

/-- The loop over the remaining bytes: the line, and what is left after the
newline that ended it, or nothing when the data ended first. -/
def scanLine (maxlen : Nat) : List UInt8 → LineState → List UInt8 × Option (List UInt8)
  | [], state => (state.line, none)
  | c :: rest, state =>
    match lineByte maxlen state c with
    | .stop state => (state.line, some rest)
    | .more state => scanLine maxlen rest state

/-- `get_line_from_config`: the line stored at `cmdline` (its length is the
return value) and the source afterwards. At the end of the buffered file
`cln_index` starts again at 0. -/
def getLineFromConfig (maxlen : Nat) : LineSource → List UInt8 × LineSource
  | .file buffer clnIndex =>
    match scanLine maxlen (buffer.drop clnIndex) .start with
    | (line, some rest) => (line, .file buffer (buffer.length - rest.length))
    | (line, none) => (line, .file buffer 0)
  | .preset rest =>
    match scanLine maxlen rest .start with
    | (line, some rest) => (line, .preset rest)
    | (line, none) => (line, .preset [])

/-- The lines returned by that many successive calls. -/
def lineCalls (maxlen : Nat) : Nat → LineSource → List (List UInt8)
  | 0, _ => []
  | calls + 1, source =>
    let answer := getLineFromConfig maxlen source
    answer.1 :: lineCalls maxlen calls answer.2

end GrubLegacy.Menu
