import GrubLegacy.Stage2.FormatAscii

/-!
# Formatted texts

`grub_vsprintf` of `char_io.c` reads its format one character after the other. Behind a percent
sign the characters are kept in `buf`, which is also where the digits of a number are made.
-/

namespace GrubLegacy.Stage2

open CStrings

/-! ## Arguments -/

/-- The machines that there are versions for. -/
inductive Abi where
  | ia32
  | x8664
deriving DecidableEq, Repr

/-- The size of a `long`. -/
def Abi.longBits : Abi → Nat
  | .ia32 => 32
  | .x8664 => 64

/-- A string; `grub_strlen` gives its length as an `int`. -/
structure CString where
  text : List UInt8
  free : NulFree text
  short : text.length < 2 ^ 31

/-- An argument behind the format. -/
inductive VaArg (abi : Abi) where
  | int (value : BitVec 32)
  | long (value : BitVec abi.longBits)
  | longLong (value : BitVec 64)
  | string (value : CString)

variable {abi : Abi}

/-- `va_arg` of an `int`, signed or not; nothing where the next argument is none. -/
def vaInt : List (VaArg abi) → Option (BitVec 32 × List (VaArg abi))
  | .int value :: args => some (value, args)
  | _ => none

def vaLong : List (VaArg abi) → Option (BitVec abi.longBits × List (VaArg abi))
  | .long value :: args => some (value, args)
  | _ => none

def vaLongLong : List (VaArg abi) → Option (BitVec 64 × List (VaArg abi))
  | .longLong value :: args => some (value, args)
  | _ => none

def vaString : List (VaArg abi) → Option (CString × List (VaArg abi))
  | .string value :: args => some (value, args)
  | _ => none

/-- The precision is fetched as a `long` and kept in an `unsigned int`: only the lower half of it
counts, which is where an `int` is passed. -/
def vaPrecision : List (VaArg abi) → Option (Nat × List (VaArg abi))
  | .int value :: args => some (value.toNat, args)
  | .long value :: args => some ((value.setWidth 32).toNat, args)
  | _ => none

/-! ## Output -/

/-- What was stored from `str` on, printed, and stored through `tmp_str`; whether every store to
`buf` was inside of it; the counter, and the arguments that are left. -/
structure Output (abi : Abi) where
  stored : List UInt8
  printed : List UInt8
  foreign : List UInt8
  inBuf : Bool
  count : BitVec 32
  args : List (VaArg abi)

/-- `write_char` -/
def Output.writeChar (toBuffer : Bool) (out : Output abi) (c : UInt8) : Output abi :=
  if toBuffer then { out with stored := out.stored ++ [c], count := out.count + 1 }
  else { out with printed := out.printed ++ [c], count := out.count + 1 }

/-- `write_str` -/
def Output.writeStr (toBuffer : Bool) (out : Output abi) : (s : List UInt8) → (max : Nat) → Output abi
  | [], _ => out
  | _ :: _, 0 => out
  | c :: s, max + 1 => (out.writeChar toBuffer c).writeStr toBuffer s max

/-- `write_str` through `tmp_str`. -/
def Output.writeForeign (out : Output abi) : (s : List UInt8) → (max : Nat) → Output abi
  | [], _ => out
  | _ :: _, 0 => out
  | c :: s, max + 1 =>
    ({ out with foreign := out.foreign ++ [c], count := out.count + 1 } : Output abi).writeForeign s max

/-! ## The format -/

/-- The variables of the loop. -/
structure FormatState (abi : Abi) where
  out : Output abi
  restart : Bool
  isFmt : Bool
  isLong : Nat
  isCap : Bool
  isZeroPadded : Bool
  numPadChars : Nat
  maxLen : Nat
  isPrecision : Bool
  buf : List UInt8

/-- The block of `restart`. -/
def restarted (out : Output abi) : FormatState abi where
  out := out
  restart := false
  isFmt := false
  isLong := 0
  isCap := false
  isZeroPadded := false
  numPadChars := 0
  maxLen := bufSize
  isPrecision := false
  buf := []

namespace FormatState

/-- `buf[pos++] = c`, with a NUL behind it. -/
def append (state : FormatState abi) (c : UInt8) : FormatState abi :=
  { state with
    buf := state.buf ++ [c]
    out := { state.out with inBuf := decide (state.buf.length + 1 < bufSize) && state.out.inBuf } }

/-- The end of a directive. -/
def finish (state : FormatState abi) (out : Output abi) : FormatState abi :=
  { state with out := out, restart := true }

/-- The digits of a value are made in `buf` and written. -/
def number (toBuffer : Bool) (state : FormatState abi) (args : List (VaArg abi)) (text : List UInt8) :
    FormatState abi :=
  let made : Output abi :=
    { state.out with inBuf := decide (text.length < bufSize) && state.out.inBuf, args := args }
  { state with buf := text, out := made.writeStr toBuffer text state.maxLen, restart := true }

/-- The value of a signed directive. -/
def signedArg (state : FormatState abi) : Option (Int × List (VaArg abi)) :=
  if state.isLong = 0 then (vaInt state.out.args).map fun (value, args) => (value.toInt, args)
  else if state.isLong = 1 then
    (vaLong state.out.args).map fun (value, args) => (value.toInt, args)
  else (vaLongLong state.out.args).map fun (value, args) => (value.toInt, args)

/-- The value of an unsigned one. -/
def unsignedArg (state : FormatState abi) : Option (Int × List (VaArg abi)) :=
  if state.isLong = 0 then (vaInt state.out.args).map fun (value, args) => (value.toNat, args)
  else if state.isLong = 1 then
    (vaLong state.out.args).map fun (value, args) => (value.toNat, args)
  else (vaLongLong state.out.args).map fun (value, args) => (value.toNat, args)

/-- The value of a hexadecimal one, a byte or a half-word where two or four digits are wanted. -/
def hexArg (state : FormatState abi) : Option (Int × List (VaArg abi)) :=
  if state.numPadChars = 2 then
    (vaInt state.out.args).map fun (value, args) => ((value &&& 0xff).toNat, args)
  else if state.numPadChars = 4 then
    (vaInt state.out.args).map fun (value, args) => ((value &&& 0xffff).toNat, args)
  else state.unsignedArg

/-- A digit of the width. -/
def widthDigit (state : FormatState abi) (c : UInt8) : FormatState abi :=
  { state.append c with numPadChars := state.numPadChars * 10 + (c.toNat - 48) }

/-- The switch of a directive. -/
def directive (toBuffer : Bool) (state : FormatState abi) (c : UInt8) : Option (FormatState abi) :=
  if c = charOf '%' then
    let out := if state.buf ≠ [] then state.out.writeStr toBuffer state.buf state.maxLen else state.out
    some (state.finish (out.writeChar toBuffer c))
  else if c = charOf '.' then some { state.append c with isPrecision := true }
  else if c = charOf '*' then
    if state.isPrecision then
      (vaPrecision state.out.args).map fun (maxLen, args) =>
        { state.append c with
          maxLen := maxLen
          out := { (state.append c).out with args := args } }
    else some { state.append c with out := (state.append c).out.writeChar toBuffer c }
  else if c = charOf '0' ∧ ¬ state.isZeroPadded then
    some { state.append c with isZeroPadded := true }
  else if charOf '0' ≤ c ∧ c ≤ charOf '9' then some (state.widthDigit c)
  else if c = charOf 'l' then some { state.append c with isLong := state.isLong + 1 }
  else if c = charOf 'L' then some { state.append c with isLong := 2 }
  else if c = charOf 'c' then
    (vaInt state.out.args).map fun (value, args) =>
      let out := { state.out with args := args }
      let intArg := value &&& 0xff
      if intArg = 0 then state.finish (out.writeForeign state.buf state.maxLen)
      else state.finish (out.writeChar toBuffer (UInt8.ofNat intArg.toNat))
  else if c = charOf 'd' then
    state.signedArg.map fun (value, args) =>
      state.number toBuffer args (formatAscii value false false 0)
  else if c = charOf 's' then
    (vaString state.out.args).map fun (value, args) =>
      let out := { state.out with args := args }
      let maxLen := if state.isPrecision then state.maxLen else value.text.length
      { state with out := out.writeStr toBuffer value.text maxLen, maxLen := maxLen, restart := true }
  else if c = charOf 'u' ∨ c = charOf 'U' then
    state.unsignedArg.map fun (value, args) =>
      state.number toBuffer args (formatAscii value false false 0)
  else if c = charOf 'P' ∨ c = charOf 'p' then
    let isCap := state.isCap || c = charOf 'P'
    (vaLong state.out.args).map fun (value, args) =>
      let prefixed := state.out.writeStr toBuffer (ascii (if isCap then "0X" else "0x")) 2
      { state with out := prefixed, isCap := isCap, isZeroPadded := true }.number toBuffer args
        (formatAscii value.toNat true isCap (abi.longBits / 8))
  else if c = charOf 'X' ∨ c = charOf 'x' then
    let isCap := state.isCap || c = charOf 'X'
    state.hexArg.map fun (value, args) =>
      { state with isCap := isCap }.number toBuffer args
        (formatAscii value true isCap state.numPadChars)
  else
    let state := state.append c
    some (state.finish (state.out.writeStr toBuffer state.buf state.maxLen))

end FormatState

/-- A turn of the loop. -/
def formatChar (toBuffer : Bool) (state : FormatState abi) (c : UInt8) : Option (FormatState abi) :=
  let state := if state.restart then restarted state.out else state
  if state.isFmt then state.directive toBuffer c
  else if c = charOf '%' then some { state.append c with isFmt := true }
  else some { state with out := state.out.writeChar toBuffer c }

/-- Nothing is written yet. -/
def emptyOutput (args : List (VaArg abi)) : Output abi where
  stored := []
  printed := []
  foreign := []
  inBuf := true
  count := 0
  args := args

/-- `grub_vsprintf`; nothing where an argument is not of the type it is fetched as. -/
def grubVsprintf (toBuffer : Bool) (fmt : List UInt8) (args : List (VaArg abi)) :
    Option (Output abi) :=
  if fmt = [] then some (emptyOutput args)
  else
    (fmt.foldlM (formatChar toBuffer)
      { restarted (emptyOutput args) with restart := true }).map fun state =>
        if toBuffer then { state.out with stored := state.out.stored ++ [0] } else state.out

/-! ## What is written -/

namespace Output

/-- A text is written, and as many characters are counted. -/
def puts (toBuffer : Bool) (out : Output abi) (text : List UInt8) : Output abi :=
  if toBuffer then
    { out with stored := out.stored ++ text, count := out.count + BitVec.ofNat 32 text.length }
  else { out with printed := out.printed ++ text, count := out.count + BitVec.ofNat 32 text.length }

/-- A text is stored through `tmp_str`. -/
def leaks (out : Output abi) (text : List UInt8) : Output abi :=
  { out with foreign := out.foreign ++ text, count := out.count + BitVec.ofNat 32 text.length }

section

variable {toBuffer : Bool} {out : Output abi}

/-- No text changes nothing. -/
@[simp] theorem puts_nil : out.puts toBuffer [] = out := by
  cases toBuffer <;> simp [puts]

/-- Two texts are put as one. -/
@[simp] theorem puts_puts (first second : List UInt8) :
    (out.puts toBuffer first).puts toBuffer second = out.puts toBuffer (first ++ second) := by
  cases toBuffer <;> simp [puts, BitVec.ofNat_add, BitVec.add_assoc]

/-- A character is put as a text. -/
@[simp] theorem writeChar_eq (c : UInt8) : out.writeChar toBuffer c = out.puts toBuffer [c] := rfl

/-- As many characters of a string are written as are wanted. -/
@[simp] theorem writeStr_eq (text : List UInt8) (max : Nat) :
    out.writeStr toBuffer text max = out.puts toBuffer (text.take max) := by
  induction text generalizing out max with
  | nil => simp [writeStr]
  | cons c text ih =>
      cases max with
      | zero => simp [writeStr]
      | succ max => simp [writeStr, ih]

/-- No foreign text changes nothing. -/
@[simp] theorem leaks_nil : out.leaks [] = out := by
  simp [leaks]

/-- Two foreign texts leak as one. -/
@[simp] theorem leaks_leaks (first second : List UInt8) :
    (out.leaks first).leaks second = out.leaks (first ++ second) := by
  simp [leaks, BitVec.ofNat_add, BitVec.add_assoc]

/-- Of a foreign text as much leaks as is written. -/
@[simp] theorem writeForeign_eq (text : List UInt8) (max : Nat) :
    out.writeForeign text max = out.leaks (text.take max) := by
  induction text generalizing out max with
  | nil => simp [writeForeign]
  | cons c text ih =>
      cases max with
      | zero => simp [writeForeign]
      | succ max =>
          rw [writeForeign, ih]
          exact leaks_leaks [c] _

end

end Output

/-! ## Between directives -/

/-- Nothing of a directive is left over. -/
def FormatState.Idle (state : FormatState abi) : Prop :=
  (if state.restart then restarted state.out else state) = restarted state.out

/-- A directive has begun. -/
def opened (out : Output abi) : FormatState abi :=
  { restarted out with isFmt := true, buf := ascii "%" }

/-- A state that starts anew has nothing pending, -/
theorem idle_of_restart {state : FormatState abi} (again : state.restart = true) : state.Idle :=
  if_pos again

/-- whatever has been written, -/
theorem idle_restarted (out : Output abi) : (restarted out).Idle := ite_self _

section

variable {toBuffer : Bool} {state : FormatState abi}

/-- An ordinary character is written. -/
theorem formatChar_ordinary (idle : state.Idle) {c : UInt8} (other : c ≠ charOf '%') :
    formatChar toBuffer state c = some (restarted (state.out.puts toBuffer [c])) := by
  rw [formatChar, show (if state.restart then restarted state.out else state) = _ from idle]
  simp [restarted, other]

/-- A percent sign opens a directive. -/
theorem formatChar_percent (idle : state.Idle) :
    formatChar toBuffer state (charOf '%') = some (opened state.out) := by
  rw [formatChar, show (if state.restart then restarted state.out else state) = _ from idle]
  simp [restarted, opened, FormatState.append, bufSize, ascii]

/-- and behind a number too. -/
theorem idle_number (args : List (VaArg abi)) (text : List UInt8) :
    (state.number toBuffer args text).Idle := idle_of_restart rfl

/-- Digits that fit into `buf` are written whole. -/
theorem number_out {text : List UInt8} (fits : text.length < bufSize)
    (whole : state.maxLen = bufSize) (args : List (VaArg abi)) :
    (state.number toBuffer args text).out =
      ({ state.out with args := args } : Output abi).puts toBuffer text := by
  simp [FormatState.number, fits, whole, List.take_of_length_le (Nat.le_of_lt fits)]

end

/-- Some characters of a format, from one directive's end to another's. -/
def Runs (toBuffer : Bool) (fmt : List UInt8) (out out' : Output abi) : Prop :=
  ∀ state : FormatState abi, state.Idle → state.out = out →
    ∃ state', fmt.foldlM (formatChar toBuffer) state = some state' ∧ state'.Idle ∧ state'.out = out'

section

variable {toBuffer : Bool} {fmt : List UInt8} {out out' : Output abi}

/-- An empty format writes nothing. -/
theorem runs_nil : Runs toBuffer [] out out := fun state idle same => ⟨state, rfl, idle, same⟩

/-- Two formats run one behind the other. -/
theorem Runs.append (first : Runs toBuffer fmt out out') {fmt' : List UInt8} {last : Output abi}
    (second : Runs toBuffer fmt' out' last) : Runs toBuffer (fmt ++ fmt') out last := by
  intro state idle same
  obtain ⟨middle, runs, idle, same⟩ := first state idle same
  obtain ⟨state', runs', idle', same'⟩ := second middle idle same
  refine ⟨state', ?_, idle', same'⟩
  rw [List.foldlM_append, runs]
  exact runs'

/-- A NUL is stored behind what the loop has stored. -/
theorem grubVsprintf_of_runs {args : List (VaArg abi)} (some_ : fmt ≠ [])
    (runs : Runs true fmt (emptyOutput args) out) :
    grubVsprintf true fmt args = some { out with stored := out.stored ++ [0] } := by
  obtain ⟨last, isLast, -, rfl⟩ :=
    runs { restarted (emptyOutput args) with restart := true } (idle_of_restart rfl) rfl
  rw [grubVsprintf, if_neg some_, isLast]
  rfl

end

end GrubLegacy.Stage2
