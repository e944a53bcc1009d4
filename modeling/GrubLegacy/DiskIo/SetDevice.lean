import GrubLegacy.Stage2.Numerals
import GrubLegacy.Stage2.Shared

/-!
# Names of devices

`set_device` and `sane_partition` of `disk_io.c`, and `sprint_device` of `builtins.c`.
A text is the list of its bytes before the NUL.
-/

namespace GrubLegacy.DiskIo

open GrubLegacy.Stage2 CStrings

/-- NETWORK_DRIVE -/
def networkDrive : Nat := 0x20

/-- `cdrom_drive`, as `init_bios_info` sets it. -/
def cdromDrive : Nat := 0x100

/-- GRUB_INVALID_DRIVE -/
def grubInvalidDrive : Nat := 0xFF

/-- MAX_HD_NUM -/
def maxHdNum : Nat := 128

/-- The globals `set_device` reads, two of them of the type `unsigned long`. -/
structure DeviceGlobals where
  savedDrive : Nat
  savedPartition : Nat
  networkReady : Bool
  savedDrive_lt : savedDrive < 2 ^ 32
  savedPartition_lt : savedPartition < 2 ^ 32

/-- The values of `part_choice`. -/
inductive PartChoice where
  | unspecified
  | disk
  | chosen
deriving DecidableEq, Repr

/-- The globals `set_device` writes. -/
structure DeviceState where
  currentDrive : Nat
  currentPartition : Nat
  incomplete : Bool
  diskChoice : Bool
  partChoice : PartChoice
  errnum : GrubError
deriving DecidableEq, Repr

/-- `current_drive & 0x80` -/
def hasBit7 (drive : Nat) : Bool := drive &&& 0x80 ≠ 0

/-- `sane_partition`, but for `errnum`. -/
def DeviceState.sanePartition (state : DeviceState) : Bool :=
  state.currentDrive = networkDrive ||
    (state.currentPartition &&& 0xFF000000 = 0 &&
      (state.currentDrive &&& 0xFFFFFF7F < maxHdNum || state.currentDrive = cdromDrive) &&
      state.currentPartition &&& 0xFF = 0xFF &&
      (state.currentPartition &&& 0xFF00 = 0xFF00 || state.currentPartition &&& 0xFF00 < 0x800) &&
      (state.currentPartition >>> 16 = 0xFF || hasBit7 state.currentDrive))

/-- The character starts the name of a drive. -/
def startsDrive (globals : DeviceGlobals) (ch : UInt8) : Bool :=
  ch = charOf 'f' || ch = charOf 'h' || (ch = charOf 'n' && globals.networkReady) ||
    (ch = charOf 'c' && cdromDrive ≠ grubInvalidDrive)

/-- What `safe_parse_maxint` leaves in `errnum` when it fails. -/
def maxintError (text : List UInt8) : GrubError :=
  if parseDigits (numeralBase text).1 0 (numeralBase text).2 = none then .numberOverflow
  else .numberParsing

/-- The number of the drive, behind the letters of its kind, if it has one. The value that
`safe_parse_maxint` returns is not looked at, but `errnum` is, afterwards. -/
def takeNumber (globals : DeviceGlobals) (ch : UInt8) (state : DeviceState)
    (device : List UInt8) : DeviceState × List UInt8 :=
  if ch = charOf 'n' ∧ globals.networkReady then
    ({ state with currentDrive := networkDrive }, device)
  else if ch = charOf 'c' ∧ cdromDrive ≠ grubInvalidDrive then
    ({ state with currentDrive := cdromDrive }, device)
  else
    let bias := if ch = charOf 'h' then 0x80 else 0
    match safeParseMaxint device with
    | some (value, rest) =>
      ({ state with currentDrive := (value + bias) % 2 ^ 32, diskChoice := false }, rest)
    | none =>
      ({ state with
          currentDrive := (state.currentDrive + bias) % 2 ^ 32
          diskChoice := false
          errnum := maxintError device }, device)

/-- The drive, from the character behind the parenthesis on. -/
def takeDrive (globals : DeviceGlobals) (state : DeviceState) (ch : UInt8)
    (rest : List UInt8) : DeviceState × List UInt8 :=
  if startsDrive globals ch then
    takeNumber globals ch
      (if rest.head? ≠ some (charOf 'd') then { state with errnum := .numberParsing } else state)
      rest.tail
  else takeNumber globals ch state (ch :: rest)

/-- A decimal digit. -/
def isDigit (c : UInt8) : Bool := charOf '0' ≤ c && c ≤ charOf '9'

/-- The letter of a BSD partition. -/
def isLetter (c : UInt8) : Bool := charOf 'a' ≤ c && c ≤ charOf 'h'

/-- The number of a BSD partition, in its place. -/
def letterBits (c : UInt8) : Nat := (c - charOf 'a').toNat <<< 8

/-- The closing parenthesis behind a partition; whether it is there. -/
def closePart (globals : DeviceGlobals) (state : DeviceState) (device : List UInt8) :
    DeviceState × Bool :=
  if device.head? = some (charOf ')') then
    if state.partChoice = .disk then
      ({ state with currentPartition := globals.savedPartition, partChoice := .chosen }, true)
    else (state, true)
  else (state, false)

/-- The comma that may stand before a letter. -/
def skipComma (device : List UInt8) : List UInt8 :=
  if device.head? = some (charOf ',') then device.tail else device

/-- A comma is skipped, -/
theorem skipComma_comma (rest : List UInt8) : skipComma (charOf ',' :: rest) = rest :=
  if_pos List.head?_cons

/-- and nothing else is. -/
theorem skipComma_other {device : List UInt8} (other : device.head? ≠ some (charOf ',')) :
    skipComma device = device :=
  if_neg other

/-- The letter behind a slice. -/
def takeLetter (state : DeviceState) : List UInt8 → DeviceState × List UInt8
  | [] => (state, [])
  | c :: rest =>
    if isLetter c then
      ({ state with currentPartition := letterBits c ||| (state.currentPartition &&& 0xFF00FF) },
        rest)
    else (state, c :: rest)

/-- A slice, and the letter that may follow; the error `ERR_DEV_FORMAT` if it is refused. -/
def takeSlice (state : DeviceState) (device : List UInt8) :
    Except DeviceState (DeviceState × List UInt8) :=
  let state := { state with partChoice := .chosen, currentPartition := 0 }
  if !hasBit7 state.currentDrive then .error { state with errnum := .devFormat }
  else match safeParseMaxint device with
    | none => .error { state with errnum := .devFormat }
    | some (value, rest) =>
      if value > 254 then
        .error { state with currentPartition := value, errnum := .devFormat }
      else
        .ok (takeLetter { state with currentPartition := (value <<< 16) + 0xFFFF }
          (skipComma rest))

/-- What follows the comma behind a drive. -/
def takePart (state : DeviceState) : List UInt8 → Except DeviceState (DeviceState × List UInt8)
  | [] => .ok (state, [])
  | c :: rest =>
    if isDigit c then takeSlice state (c :: rest)
    else if isLetter c then
      .ok ({ state with
        partChoice := .chosen
        currentPartition := letterBits c ||| 0xFF00FF }, rest)
    else .ok (state, c :: rest)

/-- The end of `set_device`: the text behind the parenthesis, if the device is one. -/
def settleDevice (state : DeviceState) (device : List UInt8) (result : Bool) :
    Option (List UInt8) × DeviceState :=
  if !state.sanePartition then (none, { state with errnum := .devValues })
  else if result then (some device.tail, state)
  else (none, { state with incomplete := device = [], errnum := .devFormat })

/-- What follows the drive. -/
def afterDrive (globals : DeviceGlobals) (state : DeviceState) (device : List UInt8) :
    Option (List UInt8) × DeviceState :=
  if state.errnum ≠ .none then (none, state)
  else if device.head? = some (charOf ')') then
    settleDevice { state with partChoice := .chosen } device true
  else if device.head? = some (charOf ',') then
    match takePart { state with diskChoice := false, partChoice := .disk } device.tail with
    | .error state => (none, state)
    | .ok (state, device) =>
      let (state, result) := closePart globals state device
      settleDevice state device result
  else settleDevice state device false

/-- What `set_device` starts from. -/
def DeviceGlobals.start (globals : DeviceGlobals) (errnum : GrubError) : DeviceState :=
  { currentDrive := globals.savedDrive
    currentPartition := 0xFFFFFF
    incomplete := false
    diskChoice := true
    partChoice := .unspecified
    errnum := errnum }

/-- `set_device`. An unfinished name is accepted too: the `d` that is missing in the first of
them is added, and the end of the text is returned. -/
def setDevice (globals : DeviceGlobals) (errnum : GrubError) (device : List UInt8) :
    Option (List UInt8) × DeviceState :=
  let state := globals.start errnum
  match device with
  | [] => settleDevice state [] false
  | paren :: text =>
    if paren ≠ charOf '(' then settleDevice state (paren :: text) false
    else match text with
      | [] => (some [], state)
      | ch :: rest =>
        if ch = charOf ',' ∨ ch = charOf ')' then afterDrive globals state (ch :: rest)
        else if startsDrive globals ch ∧ (rest = [] ∨ rest = [charOf 'd']) then (some [], state)
        else
          let (state, device) := takeDrive globals state ch rest
          afterDrive globals state device

/-! ## The printers -/

/-- A decimal digit of a number. -/
def decimalDigit (digit : Nat) : UInt8 := UInt8.ofNat (digit + 48)

/-- The decimal digits of a number, as `convert_to_ascii` writes them; at most `count`. -/
def decimalDigits : (count : Nat) → Nat → List UInt8
  | 0, _ => []
  | count + 1, num =>
    (if num / 10 = 0 then [] else decimalDigits count (num / 10)) ++ [decimalDigit (num % 10)]

/-- The digits that are written for a negative number: those of its complement, with one added to the
last digit, also to a nine. -/
def negativeDigits (nval : Nat) : List UInt8 :=
  (if nval / 10 = 0 then [] else decimalDigits 9 (nval / 10)) ++ [decimalDigit (nval % 10) + 1]

/-- A `%d` of a word of 32 bits. -/
def decimalInt (num : Nat) : List UInt8 :=
  if num < 2 ^ 31 then decimalDigits 10 num else charOf '-' :: negativeDigits (2 ^ 32 - 1 - num)

/-- `sprint_device`; `blocklist_func` prints the same. -/
def sprintDevice (drive partition : Nat) : List UInt8 :=
  charOf '(' :: (if hasBit7 drive then charOf 'h' else charOf 'f') :: charOf 'd' ::
    (decimalInt (drive &&& 0xFFFFFF7F) ++
      (if partition &&& 0xFF0000 ≠ 0xFF0000 then
        charOf ',' :: decimalInt ((partition >>> 16) &&& 0xFF)
      else []) ++
      (if partition &&& 0xFF00 ≠ 0xFF00 then
        [charOf ',', charOf 'a' + UInt8.ofNat ((partition >>> 8) &&& 0xFF)]
      else []) ++
      [charOf ')'])

end GrubLegacy.DiskIo
