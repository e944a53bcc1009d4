import GrubLegacy.Base.CStrings
import GrubLegacy.Stage2.ParsedNumbers

/-!
# Escaped terminal capabilities

`ti_escape_string` and `ti_unescape_string` of `terminfo.c`. Each writes into a static
buffer of its own and returns it. A string is read up to its NUL, and the loops take the
text from `in` on with that NUL at its end.
-/

namespace GrubLegacy.Console

open Base Stage2

/-- What has been written to an `out_buffer`: the bytes before `out`, and the one at `out` if
it has been written without a step. -/
structure OutBuffer where
  filled : List UInt8
  there : Option UInt8
deriving DecidableEq, Repr

namespace OutBuffer

def start : OutBuffer := ⟨[], none⟩

/-- `*out++ = c` -/
def put (output : OutBuffer) (c : UInt8) : OutBuffer := ⟨output.filled ++ [c], none⟩

/-- `*out = c` -/
def poke (output : OutBuffer) (c : UInt8) : OutBuffer := ⟨output.filled, some c⟩

/-- How far the buffer has been written. -/
def written (output : OutBuffer) : Nat := output.filled.length + output.there.toList.length

/-- The string that is returned; `stale` is what the buffer held before. -/
def string (output : OutBuffer) (stale : List UInt8) : List UInt8 :=
  (output.filled ++ output.there.toList ++ stale.drop output.written).takeWhile (· != 0)

end OutBuffer

/-- The size of either `out_buffer`. -/
def sizeofOutBuffer : Nat := 256

/-- `c >= '0' && c <= '9'` -/
def isOctal (c : UInt8) : Bool := 0x30 ≤ c ∧ c ≤ 0x39

/-- The digits of a number, put together as the code does. -/
def octalNumber (digits : List UInt8) : UInt32 :=
  digits.foldl (fun n c => n <<< 4 ||| (c - 0x30).toUInt32) 0

/-- What a letter after a backslash stands for; other characters are dropped. The case for
`0` is not reached, as a digit begins a number. -/
def namedEscape (c : UInt8) : Option UInt8 :=
  if c = 0x65 ∨ c = 0x45 then some 0x1B
  else if c = 0x6E then some 0x0A
  else if c = 0x72 then some 0x0D
  else if c = 0x74 then some 0x09
  else if c = 0x62 then some 0x08
  else if c = 0x66 then some 0x0C
  else if c = 0x73 then some 0x20
  else if c = 0x5C then some 0x5C
  else if c = 0x5E then some 0x5E
  else if c = 0x2C then some 0x2C
  else if c = 0x3A then some 0x3A
  else none

/-- The loop of `ti_unescape_memory`, on what is left from `in` to `end`. -/
def unescapeLoop : List UInt8 → OutBuffer → OutBuffer
  | [], output => output
  | c :: text, output =>
      if c = 0x5E then
        if 0x41 ≤ text.headD 0 ∧ text.headD 0 ≤ 0x5A then
          unescapeLoop text.tail (output.poke (text.headD 0 - 0x41))
        else unescapeLoop text (output.poke 0x5E)
      else if c = 0x5C then
        if isOctal (text.headD 0) then
          unescapeLoop (text.dropWhile isOctal)
            (output.put (octalNumber (text.takeWhile isOctal)).toUInt8)
        else
          match namedEscape (text.headD 0) with
          | some escaped => unescapeLoop text.tail (output.put escaped)
          | none => unescapeLoop text.tail output
      else unescapeLoop text (output.put c)
termination_by text => text.length
decreasing_by
  all_goals
    have dropped := (List.dropWhile_sublist isOctal (l := text)).length_le
    simp only [List.length_cons, List.length_tail]
    omega

/-- `ti_unescape_string` -/
def tiUnescapeString (text : List UInt8) : OutBuffer := unescapeLoop (text ++ [0]) .start

/-- The characters that `ti_escape_memory` leaves as they are. -/
def isLiteral (c : UInt8) : Bool :=
  0x30 ≤ c ∧ c ≤ 0x39 ∨ 0x61 ≤ c ∧ c ≤ 0x7A ∨ 0x41 ≤ c ∧ c ≤ 0x5A ∨
    c ∈ [0x25, 0x2B, 0x2D, 0x2A, 0x2F, 0x3B, 0x3A, 0x7B, 0x7D, 0x5B, 0x5D]

/-- `((c >> shift) & 7) + '0'` -/
def octalDigit (c : UInt8) (shift : Nat) : UInt8 :=
  UInt8.ofNat ((signedChar c >>> shift) % 8).toNat + 0x30

/-- What one character is escaped to. -/
def escapeByte (c : UInt8) : List UInt8 :=
  if c = 0x1B then [0x5C, 0x65]
  else if c = 0x20 then [0x5C, 0x73]
  else if c = 0x5C then [0x5C, 0x5C]
  else if isLiteral c then [c]
  else if c ≤ 25 then [0x5E, 0x41 + c]
  else [0x5C, octalDigit c 8, octalDigit c 4, octalDigit c 0]

/-- The loop of `ti_escape_memory`; `left` is the distance from `in` to `end`. -/
def escapeLoop : (text : List UInt8) → (left : Nat) → OutBuffer → OutBuffer
  | [], _, output => output
  | c :: text, left, output =>
      let output := (escapeByte c).foldl .put output
      if 1 < left then escapeLoop text (left - 1) output else output

/-- `ti_escape_string` -/
def tiEscapeString (text : List UInt8) : OutBuffer :=
  (escapeLoop (text ++ [0]) text.length .start).put 0

/-! ## What the functions should do -/

/-- A string comes back from being escaped if the buffers suffice, and neither function
writes beyond its buffer. -/
structure EscapesSafely (escaped unescaped : List UInt8) (text : List UInt8) : Prop where
  round : (tiEscapeString text).written ≤ sizeofOutBuffer →
    (tiUnescapeString ((tiEscapeString text).string escaped)).written ≤ sizeofOutBuffer →
    (tiUnescapeString ((tiEscapeString text).string escaped)).string unescaped = text
  escapes : (tiEscapeString text).written ≤ sizeofOutBuffer
  unescapes : (tiUnescapeString text).written ≤ sizeofOutBuffer

end GrubLegacy.Console
