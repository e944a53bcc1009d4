import GrubLegacy.Base.KeyedEntries
import GrubLegacy.BlockFiles.BlockFile
import GrubLegacy.Menu.Builtins
import GrubLegacy.Stage2.Shared

/-!
# Remapping keys

`setkey_func` of `builtins.c` with its two tables, one of ASCII codes and one of scan codes.
A command uses the first one if both of its keys have an ASCII code. A word of a table has
the code of a key in its low byte and that of its target in the high one.
-/

namespace GrubLegacy.Menu

open Base CStrings Stage2

/-! ## Key symbols -/

/-- `struct keysym` -/
structure Keysym where
  unshiftedName : List UInt8
  shiftedName : Option (List UInt8)
  unshiftedAscii : UInt8
  shiftedAscii : UInt8
  keycode : UInt8
deriving DecidableEq, Repr

/-- `keysym_table` -/
def keysymTable : List Keysym :=
  [ ⟨ascii "escape", none, 27, 0, 0x01⟩,
    ⟨ascii "1", some (ascii "exclam"), 49, 33, 0x02⟩,
    ⟨ascii "2", some (ascii "at"), 50, 64, 0x03⟩,
    ⟨ascii "3", some (ascii "numbersign"), 51, 35, 0x04⟩,
    ⟨ascii "4", some (ascii "dollar"), 52, 36, 0x05⟩,
    ⟨ascii "5", some (ascii "percent"), 53, 37, 0x06⟩,
    ⟨ascii "6", some (ascii "caret"), 54, 94, 0x07⟩,
    ⟨ascii "7", some (ascii "ampersand"), 55, 38, 0x08⟩,
    ⟨ascii "8", some (ascii "asterisk"), 56, 42, 0x09⟩,
    ⟨ascii "9", some (ascii "parenleft"), 57, 40, 0x0a⟩,
    ⟨ascii "0", some (ascii "parenright"), 48, 41, 0x0b⟩,
    ⟨ascii "minus", some (ascii "underscore"), 45, 95, 0x0c⟩,
    ⟨ascii "equal", some (ascii "plus"), 61, 43, 0x0d⟩,
    ⟨ascii "backspace", none, 8, 0, 0x0e⟩,
    ⟨ascii "tab", none, 9, 0, 0x0f⟩,
    ⟨ascii "q", some (ascii "Q"), 113, 81, 0x10⟩,
    ⟨ascii "w", some (ascii "W"), 119, 87, 0x11⟩,
    ⟨ascii "e", some (ascii "E"), 101, 69, 0x12⟩,
    ⟨ascii "r", some (ascii "R"), 114, 82, 0x13⟩,
    ⟨ascii "t", some (ascii "T"), 116, 84, 0x14⟩,
    ⟨ascii "y", some (ascii "Y"), 121, 89, 0x15⟩,
    ⟨ascii "u", some (ascii "U"), 117, 85, 0x16⟩,
    ⟨ascii "i", some (ascii "I"), 105, 73, 0x17⟩,
    ⟨ascii "o", some (ascii "O"), 111, 79, 0x18⟩,
    ⟨ascii "p", some (ascii "P"), 112, 80, 0x19⟩,
    ⟨ascii "bracketleft", some (ascii "braceleft"), 91, 123, 0x1a⟩,
    ⟨ascii "bracketright", some (ascii "braceright"), 93, 125, 0x1b⟩,
    ⟨ascii "enter", none, 10, 0, 0x1c⟩,
    ⟨ascii "control", none, 0, 0, 0x1d⟩,
    ⟨ascii "a", some (ascii "A"), 97, 65, 0x1e⟩,
    ⟨ascii "s", some (ascii "S"), 115, 83, 0x1f⟩,
    ⟨ascii "d", some (ascii "D"), 100, 68, 0x20⟩,
    ⟨ascii "f", some (ascii "F"), 102, 70, 0x21⟩,
    ⟨ascii "g", some (ascii "G"), 103, 71, 0x22⟩,
    ⟨ascii "h", some (ascii "H"), 104, 72, 0x23⟩,
    ⟨ascii "j", some (ascii "J"), 106, 74, 0x24⟩,
    ⟨ascii "k", some (ascii "K"), 107, 75, 0x25⟩,
    ⟨ascii "l", some (ascii "L"), 108, 76, 0x26⟩,
    ⟨ascii "semicolon", some (ascii "colon"), 59, 58, 0x27⟩,
    ⟨ascii "quote", some (ascii "doublequote"), 39, 34, 0x28⟩,
    ⟨ascii "backquote", some (ascii "tilde"), 96, 126, 0x29⟩,
    ⟨ascii "shift", none, 0, 0, 0x2a⟩,
    ⟨ascii "backslash", some (ascii "bar"), 92, 124, 0x2b⟩,
    ⟨ascii "z", some (ascii "Z"), 122, 90, 0x2c⟩,
    ⟨ascii "x", some (ascii "X"), 120, 88, 0x2d⟩,
    ⟨ascii "c", some (ascii "C"), 99, 67, 0x2e⟩,
    ⟨ascii "v", some (ascii "V"), 118, 86, 0x2f⟩,
    ⟨ascii "b", some (ascii "B"), 98, 66, 0x30⟩,
    ⟨ascii "n", some (ascii "N"), 110, 78, 0x31⟩,
    ⟨ascii "m", some (ascii "M"), 109, 77, 0x32⟩,
    ⟨ascii "comma", some (ascii "less"), 44, 60, 0x33⟩,
    ⟨ascii "period", some (ascii "greater"), 46, 62, 0x34⟩,
    ⟨ascii "slash", some (ascii "question"), 47, 63, 0x35⟩,
    ⟨ascii "alt", none, 0, 0, 0x38⟩,
    ⟨ascii "space", none, 32, 0, 0x39⟩,
    ⟨ascii "capslock", none, 0, 0, 0x3a⟩,
    ⟨ascii "F1", none, 0, 0, 0x3b⟩,
    ⟨ascii "F2", none, 0, 0, 0x3c⟩,
    ⟨ascii "F3", none, 0, 0, 0x3d⟩,
    ⟨ascii "F4", none, 0, 0, 0x3e⟩,
    ⟨ascii "F5", none, 0, 0, 0x3f⟩,
    ⟨ascii "F6", none, 0, 0, 0x40⟩,
    ⟨ascii "F7", none, 0, 0, 0x41⟩,
    ⟨ascii "F8", none, 0, 0, 0x42⟩,
    ⟨ascii "F9", none, 0, 0, 0x43⟩,
    ⟨ascii "F10", none, 0, 0, 0x44⟩,
    ⟨ascii "delete", none, 127, 0, 0x53⟩ ]

/-- The loop of `find_key_code` and `find_ascii_code`, for the codes of a name in the two
states. -/
def findCode (unshifted shifted : Keysym → UInt8) (key : List UInt8) : List Keysym → UInt8
  | [] => 0
  | keysym :: rest =>
    if key = keysym.unshiftedName then unshifted keysym
    else if keysym.shiftedName = some key then shifted keysym
    else findCode unshifted shifted key rest

/-- `find_key_code` -/
def findKeyCode (key : List UInt8) : UInt8 :=
  findCode Keysym.keycode Keysym.keycode key keysymTable

/-- `find_ascii_code` -/
def findAsciiCode (key : List UInt8) : UInt8 :=
  findCode Keysym.unshiftedAscii Keysym.shiftedAscii key keysymTable

/-! ## The tables -/

/-- KEY_MAP_SIZE -/
def keyMapSize : Nat := 128

/-- `bios_key_map` and `ascii_key_map`, each with a word more than its size. -/
structure KeyMaps where
  ascii : List Nat
  bios : List Nat
deriving DecidableEq, Repr

/-- A table without entries. -/
def emptyKeyMap : List Nat := List.replicate (keyMapSize + 1) 0

def emptyKeyMaps : KeyMaps := ⟨emptyKeyMap, emptyKeyMap⟩

/-- `(to_code << 8) | from_code` -/
def keyWord (toCode fromCode : UInt8) : Nat := toCode.toNat <<< 8 ||| fromCode.toNat

/-- Where the loop for an empty slot stops. -/
def findSlot (map : List Nat) (fromCode : UInt8) : Nat :=
  (map.take keyMapSize).findIdx fun word => word &&& 0xFF = fromCode.toNat || word = 0

/-- Move the words behind a slot, with the last one of the table, one back. -/
def moveBack (map : List Nat) (i : Nat) : List Nat :=
  map.take i ++ (map.drop (i + 1)).take (keyMapSize - i) ++ map.drop keyMapSize

/-- A table after it is changed for the two codes, if it is not full. -/
def remap (map : List Nat) (toCode fromCode : UInt8) : Option (List Nat) :=
  let i := findSlot map fromCode
  if i = keyMapSize then none
  else if toCode = fromCode then some (moveBack map i)
  else some (map.set i (keyWord toCode fromCode))

/-! ## The command -/

inductive KeyTable where
  | ascii
  | bios
deriving DecidableEq, Repr

def KeyMaps.table (maps : KeyMaps) : KeyTable → List Nat
  | .ascii => maps.ascii
  | .bios => maps.bios

def KeyMaps.setTable (maps : KeyMaps) (table : KeyTable) (map : List Nat) : KeyMaps :=
  match table with
  | .ascii => { maps with ascii := map }
  | .bios => { maps with bios := map }

/-- `nul_terminate`: the text up to the first white space. -/
def nulTerminate (text : List UInt8) : List UInt8 := text.takeWhile fun c => !BlockFiles.isspace c

/-- The table that is used for the two keys of a command, and their codes in it. -/
def keyCodes (toKey fromKey : List UInt8) : Option (KeyTable × UInt8 × UInt8) :=
  if findAsciiCode toKey = 0 ∨ findAsciiCode fromKey = 0 then
    if findKeyCode toKey = 0 ∨ findKeyCode fromKey = 0 then none
    else some (.bios, findKeyCode toKey, findKeyCode fromKey)
  else some (.ascii, findAsciiCode toKey, findAsciiCode fromKey)

/-- The tables after a command, and its error. -/
structure SetkeyResult where
  maps : KeyMaps
  errnum : GrubError
deriving DecidableEq, Repr

/-- `setkey_func` -/
def setkeyFunc (arg : List UInt8) (maps : KeyMaps) : SetkeyResult :=
  let fromKey := skipTo false arg
  if arg = [] then ⟨emptyKeyMaps, .none⟩
  else if fromKey = [] then ⟨maps, .badArgument⟩
  else
    match keyCodes (nulTerminate arg) (nulTerminate fromKey) with
    | none => ⟨maps, .badArgument⟩
    | some (table, toCode, fromCode) =>
      match remap (maps.table table) toCode fromCode with
      | none => ⟨maps, .wontFit⟩
      | some map => ⟨maps.setTable table map, .none⟩

/-- The tables after some commands, the last of them first. -/
def runSetkey : List (List UInt8) → KeyMaps
  | [] => emptyKeyMaps
  | arg :: earlier => (setkeyFunc arg (runSetkey earlier)).maps

/-! ## What the tables should hold -/

/-- What a command is about: no keys, or two keys in a table. -/
def remapped (arg : List UInt8) : Option (KeyTable × UInt8 × UInt8) :=
  if arg = [] then none else keyCodes (nulTerminate arg) (nulTerminate (skipTo false arg))

/-- The target in the last successful command, since the last reset, that used the table for
this key. The last command comes first. -/
def lastTarget (table : KeyTable) (fromCode : UInt8) : List (List UInt8) → Option UInt8
  | [] => none
  | arg :: earlier =>
    if (setkeyFunc arg (runSetkey earlier)).errnum ≠ .none then lastTarget table fromCode earlier
    else if arg = [] then none
    else
      match remapped arg with
      | none => lastTarget table fromCode earlier
      | some (used, toCode, code) =>
        if used = table ∧ code = fromCode then some toCode
        else lastTarget table fromCode earlier

/-- A key is mapped to a target. -/
def MapsKey (map : List Nat) (fromCode toCode : UInt8) : Prop :=
  fromCode ≠ 0 ∧ keyWord toCode fromCode ∈ map

/-- A table has its entries at the start and zeros behind them, one entry at most for a key,
and maps the keys that should be mapped. -/
structure MapsKeys (map : List Nat) (target : UInt8 → Option UInt8) : Prop where
  size : map.length = keyMapSize + 1
  filled : ∃ n ≤ keyMapSize, (∀ word ∈ map.take n, word ≠ 0) ∧ ∀ word ∈ map.drop n, word = 0
  once : ∀ (i j word other : Nat), map[i]? = some word → map[j]? = some other → word ≠ 0 →
    word &&& 0xFF = other &&& 0xFF → i = j
  maps : ∀ fromCode toCode,
    MapsKey map fromCode toCode ↔ target fromCode = some toCode ∧ toCode ≠ fromCode

end GrubLegacy.Menu
