import GrubLegacy.Base.ByteArea
import GrubLegacy.Stage2.ParsedNumbers

/-!
# Input from a serial terminal

`fill_input_buf` asks the port for bytes, appends them to `input_buf` and translates an
escape sequence at the front of it; `serial_checkkey` and `serial_getkey` are built on it.
A line says for each time the port is asked whether a byte has arrived, so that every
stream of bytes and every timing of them is a line.
-/

namespace GrubLegacy.Console

open Base Stage2

/-- The three definitions of `serial_hw_fetch`: for the ports of a UART (`stage2/serial.c`),
for the serial protocol of the firmware (`efi/efiserial.c`) and for a file (`grub/asmstub.c`). -/
inductive SerialHardware
  | ports
  | protocol
  | file
deriving DecidableEq, Repr

/-- A byte as `serial_hw_fetch` returns it: out of an `unsigned char`, or out of a `char`. -/
def SerialHardware.fetched : SerialHardware → UInt8 → Int
  | .ports, byte => byte.toNat
  | .protocol, byte => signedChar byte
  | .file, byte => signedChar byte

/-- Which byte has arrived when the port is asked for the n-th time. -/
abbrev SerialLine := Nat → Option UInt8

/-- `input_buf` and `npending`, and how often the port has been asked. -/
structure SerialInput where
  inputBuf : Area
  npending : Int
  clock : Nat

/-- The static variables before anything has been read. -/
def SerialInput.start : SerialInput := ⟨fun _ => 0, 0, 0⟩

def sizeofInputBuf : Int := 8

/-- The pairs of `three_code_table`: the byte after `ESC [`, and the key. -/
def threeCodeTable : List (UInt8 × UInt8) :=
  [(0x41, 16), (0x42, 14), (0x43, 6), (0x44, 2), (0x46, 5), (0x48, 1), (0x34, 4)]

/-- Two bytes as a `short`: `low | (high << 8)`. -/
def shortOf (low high : UInt8) : UInt16 := low.toUInt16 ||| high.toUInt16 <<< 8

/-- The pairs of `four_code_table`: the two bytes after `ESC [` as a `short`, and the key. -/
def fourCodeTable : List (UInt16 × UInt8) :=
  [(shortOf 0x31 0x7E, 1), (shortOf 0x33 0x7E, 4), (shortOf 0x35 0x7E, 7), (shortOf 0x36 0x7E, 3)]

/-- `*((short *) (buffer + place))` -/
def shortAt (buffer : Area) (place : Nat) : UInt16 := shortOf (buffer place) (buffer (place + 1))

/-- `serial_hw_fetch` at this time of asking. -/
def serialHwFetch (hardware : SerialHardware) (line : SerialLine) (clock : Nat) : Int :=
  match line clock with
  | some byte => hardware.fetched byte
  | none => -1

namespace SerialInput

/-- Put the key in front and drop that many more bytes of the sequence. -/
def collapse (input : SerialInput) (ascii : UInt8) (dropped : Nat) : SerialInput :=
  let npending := input.npending - dropped
  { input with
    npending := npending
    inputBuf := copyIn (setByte input.inputBuf 0 ascii) 1 (setByte input.inputBuf 0 ascii)
      (1 + dropped) (npending - 1).toNat }

/-- The entry of the three-code table that the buffer shows. -/
def threeCode (input : SerialInput) : Option (UInt8 × UInt8) :=
  if 3 ≤ input.npending then threeCodeTable.find? fun entry => entry.1 == input.inputBuf 2
  else none

/-- The entry of the four-code table that the buffer shows. -/
def fourCode (input : SerialInput) : Option (UInt16 × UInt8) :=
  if 4 ≤ input.npending then fourCodeTable.find? fun entry => entry.1 == shortAt input.inputBuf 2
  else none

/-- `serial_translate_key_sequence` -/
def serialTranslateKeySequence (input : SerialInput) : SerialInput :=
  if shortAt input.inputBuf 0 ≠ shortOf 0x1B 0x5B then input
  else
    match input.threeCode with
    | some entry => input.collapse entry.2 2
    | none =>
        match input.fourCode with
        | some entry => input.collapse entry.2 3
        | none => input

/-- One turn of the loop: ask the port, and append what it returns. -/
def fetchByte (hardware : SerialHardware) (line : SerialLine) (input : SerialInput) :
    SerialInput :=
  let c := serialHwFetch hardware line input.clock
  if 0 ≤ c then
    { inputBuf := setByte input.inputBuf input.npending.toNat (UInt8.ofNat c.toNat)
      npending := input.npending + 1
      clock := input.clock + 1 }
  else { input with clock := input.clock + 1 }

/-- A byte that arrived is stored, and counted. -/
theorem fetchByte_some {hardware : SerialHardware} {line : SerialLine} {input : SerialInput}
    (arrived : 0 ≤ serialHwFetch hardware line input.clock) :
    input.fetchByte hardware line =
      { inputBuf := setByte input.inputBuf input.npending.toNat
          (UInt8.ofNat (serialHwFetch hardware line input.clock).toNat)
        npending := input.npending + 1
        clock := input.clock + 1 } :=
  if_pos arrived

/-- Without one only the clock goes on. -/
theorem fetchByte_none {hardware : SerialHardware} {line : SerialLine} {input : SerialInput}
    (quiet : ¬ 0 ≤ serialHwFetch hardware line input.clock) :
    input.fetchByte hardware line = { input with clock := input.clock + 1 } :=
  if_neg quiet

/-- The loop. `npending` is compared with the size as an unsigned number. -/
def fillLoop (hardware : SerialHardware) (line : SerialLine) (nowait : Bool) (i : Nat)
    (input : SerialInput) : SerialInput :=
  if i < 10000 ∧ 0 ≤ input.npending ∧ input.npending < sizeofInputBuf then
    let asked := input.fetchByte hardware line
    let i := if 0 ≤ serialHwFetch hardware line input.clock then 0 else i
    if nowait then asked else fillLoop hardware line nowait (i + 1) asked
  else input
termination_by ((sizeofInputBuf - input.npending).toNat, 10000 - i)
decreasing_by
  by_cases arrived : 0 ≤ serialHwFetch hardware line input.clock
  · rw [fetchByte_some arrived]
    apply Prod.Lex.left
    simp only [sizeofInputBuf] at *
    omega
  · rw [fetchByte_none arrived, dif_neg arrived]
    apply Prod.Lex.right
    omega

/-- `fill_input_buf`; it returns `npending`. -/
def fillInputBuf (hardware : SerialHardware) (line : SerialLine) (nowait : Bool)
    (input : SerialInput) : SerialInput :=
  (input.fillLoop hardware line nowait 0).serialTranslateKeySequence

/-- Take the first key out of the buffer. -/
def takeKey (input : SerialInput) : SerialInput :=
  let npending := input.npending - 1
  { input with
    npending := npending
    inputBuf := copyIn input.inputBuf 0 input.inputBuf 1 npending.toNat }

/-- `serial_getkey`; nothing when that many fillings have brought no byte. -/
def serialGetkey (hardware : SerialHardware) (line : SerialLine) :
    (fillings : Nat) → SerialInput → Option (Int × SerialInput)
  | 0, _ => none
  | fillings + 1, input =>
      let filled := input.fillInputBuf hardware line false
      if filled.npending = 0 then serialGetkey hardware line fillings filled
      else some (signedChar (filled.inputBuf 0), filled.takeKey)

/-- `serial_checkkey` -/
def serialCheckkey (hardware : SerialHardware) (line : SerialLine) (input : SerialInput) :
    Int × SerialInput :=
  let filled := input.fillInputBuf hardware line true
  (if filled.npending ≠ 0 then signedChar (filled.inputBuf 0) else -1, filled)

end SerialInput

/-! ## Runs -/

/-- What a call returned; a check also says how often the port had been asked by then. -/
inductive KeyEvent
  | checkkey (key : Int) (clock : Nat)
  | getkey (key : Int)
deriving DecidableEq, Repr

/-- The calls of `serial_checkkey` and `serial_getkey` that have returned, in any order. -/
inductive SerialRun (hardware : SerialHardware) (line : SerialLine) :
    List KeyEvent → SerialInput → Prop
  | start : SerialRun hardware line [] .start
  | checkkey {events : List KeyEvent} {input : SerialInput}
      (prior : SerialRun hardware line events input) :
      SerialRun hardware line
        (events ++ [.checkkey (input.serialCheckkey hardware line).1
          (input.serialCheckkey hardware line).2.clock])
        (input.serialCheckkey hardware line).2
  | getkey {events : List KeyEvent} {input next : SerialInput} {fillings : Nat} {key : Int}
      (prior : SerialRun hardware line events input)
      (returned : input.serialGetkey hardware line fillings = some (key, next)) :
      SerialRun hardware line (events ++ [.getkey key]) next

def KeyEvent.got : KeyEvent → Option Int
  | .checkkey _ _ => none
  | .getkey key => some key

/-- The keys that `serial_getkey` has returned. -/
def gotKeys (events : List KeyEvent) : List Int := events.filterMap KeyEvent.got

/-- The bytes the port had received when it had been asked that often. -/
def received (line : SerialLine) (clock : Nat) : List UInt8 := (List.range clock).filterMap line

/-- The bytes that wait in the buffer. -/
def SerialInput.pending (input : SerialInput) : List UInt8 :=
  bytesAt input.inputBuf 0 input.npending.toNat

/-! ## What the keys should be -/

/-- A recognised escape sequence, and its control key. -/
inductive KeySequence : List UInt8 → Int → Prop
  | three {entry : UInt8 × UInt8} (listed : entry ∈ threeCodeTable) :
      KeySequence [0x1B, 0x5B, entry.1] entry.2.toNat
  | four {entry : UInt16 × UInt8} (listed : entry ∈ fourCodeTable) :
      KeySequence [0x1B, 0x5B, entry.1.toUInt8, (entry.1 >>> 8).toUInt8] entry.2.toNat

/-- The bytes that make one key. -/
inductive KeyOf : List UInt8 → Int → Prop
  | byte (c : UInt8) : KeyOf [c] c.toNat
  | sequence {bytes : List UInt8} {key : Int} (listed : KeySequence bytes key) : KeyOf bytes key

/-- The key got answers the key reported, when the bytes it is made of are the piece that
begins after `start` bytes of the stream. -/
def Answers (line : SerialLine) (start : Nat) (piece : List UInt8) (key : Int) (clock : Nat)
    (answer : Int) : Prop :=
  answer = key ∨
    key = 0x1B ∧ KeySequence piece answer ∧ start < (received line clock).length ∧
      (received line clock).length < start + piece.length

/-- The stream is cut into these pieces, one for each key that was got or waits. -/
structure Explains (line : SerialLine) (events : List KeyEvent) (input : SerialInput)
    (pieces : List (List UInt8)) : Prop where
  stream : pieces.flatten = received line input.clock
  keys : List.Forall₂ KeyOf pieces (gotKeys events ++ input.pending.map signedChar)
  reported : ∀ before key clock checks answer after,
    events = before ++ .checkkey key clock :: (checks ++ .getkey answer :: after) →
    key ≠ -1 → (∀ event ∈ checks, event.got = none) →
    ∃ earlier piece later, pieces = earlier ++ piece :: later ∧
      earlier.length = (gotKeys before).length ∧
      Answers line earlier.flatten.length piece key clock answer

/-- The buffer keeps within its size, and the keys are those of the stream. -/
def KeepsKeys (line : SerialLine) (events : List KeyEvent) (input : SerialInput) : Prop :=
  (0 ≤ input.npending ∧ input.npending ≤ sizeofInputBuf) ∧
    ∃ pieces, Explains line events input pieces

end GrubLegacy.Console
