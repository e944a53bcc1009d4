import GrubLegacy.Stage2.ParsedNumbers
import GrubLegacy.Stage2.Sha2
import GrubLegacy.Stage2.Vsprintf

/-!
# Passwords of `sha256crypt.c` and `sha512crypt.c`

`sha256_crypt_r` and `sha512_crypt_r`, which only differ in the prefix, in the digest and in the order
of its bytes, and `check_password` of `builtins.c`, which compares what they make of a password with
what is expected.
-/

namespace GrubLegacy.Stage2.Sha2

open Base CStrings

variable {w : Nat}

/-! ## The salt -/

/-- `sha256_rounds_prefix` and `sha512_rounds_prefix` -/
def roundsPrefix : List UInt8 := ascii "rounds="

def dollar : UInt8 := charOf '$'

/-- SALT_LEN_MAX -/
def saltLenMax : Nat := 16

/-- ROUNDS_DEFAULT -/
def roundsDefault : Nat := 5000

/-- ROUNDS_MIN -/
def roundsMin : Nat := 1000

/-- ROUNDS_MAX -/
def roundsMax : Nat := 999999999

/-- What the start of the function makes of its argument, and `errnum` behind it. -/
structure SaltArg where
  salt : List UInt8
  rounds : Nat
  roundsCustom : Bool
  errnum : GrubError
deriving DecidableEq, Repr

/-- The test for a number that would be taken for a hexadecimal one. -/
def LooksHexadecimal (num : List UInt8) : Prop :=
  num.headD 0 = charOf '0' ∧ grubTolower (signedChar (num.tail.headD 0)) = 0x78

instance (num : List UInt8) : Decidable (LooksHexadecimal num) :=
  inferInstanceAs (Decidable (_ ∧ _))

/-- `endp`, `srounds` and `errnum` behind the number of rounds. A hexadecimal one is not parsed, and
an error changes `errnum` only. -/
def parseRounds (errnum : GrubError) (num : List UInt8) : ParseState :=
  if LooksHexadecimal num then
    { strPtr := num.tail
      value := 0
      errnum := errnum }
  else
    (callSafeParseMaxint
      { strPtr := num
        value := 0
        errnum := errnum }).2

/-- The salt behind the prefix, if it has that. -/
def skipPrefix (saltPrefix salt : List UInt8) : List UInt8 :=
  if saltPrefix.isPrefixOf salt then salt.drop saltPrefix.length else salt

/-- The start of `crypt_r`, up to the length of the salt. -/
def parseSalt (saltPrefix : List UInt8) (errnum : GrubError) (salt : List UInt8) : SaltArg :=
  let salt := skipPrefix saltPrefix salt
  if roundsPrefix.isPrefixOf salt then
    let parsed := parseRounds errnum (salt.drop roundsPrefix.length)
    if parsed.strPtr.headD 0 = dollar then
      { salt := parsed.strPtr.tail
        rounds := max roundsMin (min parsed.value roundsMax)
        roundsCustom := true
        errnum := parsed.errnum }
    else
      { salt := salt
        rounds := roundsDefault
        roundsCustom := false
        errnum := parsed.errnum }
  else
    { salt := salt
      rounds := roundsDefault
      roundsCustom := false
      errnum := errnum }

/-- `salt_len` bytes of the salt. -/
def saltField (salt : List UInt8) : List UInt8 :=
  salt.take (min (salt.takeWhile (· ≠ dollar)).length saltLenMax)

/-! ## The digest -/

/-- Where a string is, and where there is room for a copy of it. -/
structure StringPlace where
  address : Nat
  tmp : Nat

/-- The address and the bytes of a string that is to be digested. One that is not aligned is copied,
and then it is where the result of `memcpy` says. -/
def alignedCopy (w : Nat) (globals : Globals) (place : StringPlace) (text : List UInt8) :
    Nat × List UInt8 :=
  if place.address % (w / 8) ≠ 0 then
    (if globals.errnum = .none then place.tmp + w / 8 - place.tmp % (w / 8) else 0,
      globals.copied text)
  else (place.address, text)

/-- Where the other bytes are that are digested. -/
structure Placement where
  altResult : Nat
  pBytes : Nat
  sBytes : Nat

/-- The parts with one byte of the sum for each character of the key; there are fewer parts than
characters. -/
def sumParts (size address : Nat) (altResult : List UInt8) :
    (fuel cnt : Nat) → List (Nat × List UInt8)
  | 0, cnt => [(address, altResult.take cnt)]
  | fuel + 1, cnt =>
    if size < cnt then (address, altResult.take size) :: sumParts size address altResult fuel (cnt - size)
    else [(address, altResult.take cnt)]

/-- The parts for the bits of the key's length. -/
def bitParts (sum key : Nat × List UInt8) : (fuel cnt : Nat) → List (Nat × List UInt8)
  | 0, _ => []
  | fuel + 1, cnt =>
    if 0 < cnt then (if cnt % 2 = 1 then sum else key) :: bitParts sum key fuel (cnt / 2)
    else []

/-- The loop that makes `p_bytes` and `s_bytes` of a digest. -/
def byteSequence (size : Nat) (tempResult : List UInt8) : (fuel cnt : Nat) → List UInt8
  | 0, cnt => tempResult.take cnt
  | fuel + 1, cnt =>
    if size ≤ cnt then tempResult.take size ++ byteSequence size tempResult fuel (cnt - size)
    else tempResult.take cnt

/-- The parts of a round. -/
def roundParts (result p s : Nat × List UInt8) (cnt : Nat) : List (Nat × List UInt8) :=
  (if cnt % 2 = 1 then p else result) :: ((if cnt % 3 ≠ 0 then [s] else []) ++
    (if cnt % 7 ≠ 0 then [p] else []) ++ [if cnt % 2 = 1 then result else p])

/-- The middle of `crypt_r`: what is in `alt_result` in the end. The size of a digest is that of a
word in bits. -/
def cryptDigest (sha : Sha w) (globals : Globals) (place : Placement) (ctx altCtx : Context w)
    (key salt : Nat × List UInt8) (rounds : Nat) : List UInt8 :=
  let keyLen := key.2.length
  let saltLen := salt.2.length
  let (altCtx, altResult) := session sha globals altCtx [key, salt, key]
  let (ctx, altResult) := session sha globals ctx
    (key :: salt :: (sumParts w place.altResult altResult keyLen keyLen ++
      bitParts (place.altResult, altResult) key keyLen keyLen))
  let (altCtx, tempResult) := session sha globals altCtx (List.replicate keyLen key)
  let p := (place.pBytes, byteSequence w tempResult keyLen keyLen)
  let (_, tempResult) := session sha globals altCtx
    (List.replicate (16 + (altResult.headD 0).toNat) salt)
  let s := (place.sBytes, byteSequence w tempResult saltLen saltLen)
  ((List.range rounds).foldl (fun (ctx, altResult) cnt =>
    session sha globals ctx (roundParts (place.altResult, altResult) p s cnt)) (ctx, altResult)).2

/-! ## The string -/

/-- What a file adds to its digest: the prefix of a salt, and the bytes of each group of characters
with their number. -/
structure CryptFile (w : Nat) where
  sha : Sha w
  saltPrefix : List UInt8
  groups : List (Option Nat × Option Nat × Option Nat × Nat)

def sha256Crypt : CryptFile 32 where
  sha := sha256
  saltPrefix := ascii "$5$"
  groups := [
    (some 0, some 10, some 20, 4), (some 21, some 1, some 11, 4), (some 12, some 22, some 2, 4),
    (some 3, some 13, some 23, 4), (some 24, some 4, some 14, 4), (some 15, some 25, some 5, 4),
    (some 6, some 16, some 26, 4), (some 27, some 7, some 17, 4), (some 18, some 28, some 8, 4),
    (some 9, some 19, some 29, 4), (none, some 31, some 30, 3)]

def sha512Crypt : CryptFile 64 where
  sha := sha512
  saltPrefix := ascii "$6$"
  groups := [
    (some 0, some 21, some 42, 4), (some 22, some 43, some 1, 4), (some 44, some 2, some 23, 4),
    (some 3, some 24, some 45, 4), (some 25, some 46, some 4, 4), (some 47, some 5, some 26, 4),
    (some 6, some 27, some 48, 4), (some 28, some 49, some 7, 4), (some 50, some 8, some 29, 4),
    (some 9, some 30, some 51, 4), (some 31, some 52, some 10, 4), (some 53, some 11, some 32, 4),
    (some 12, some 33, some 54, 4), (some 34, some 55, some 13, 4), (some 56, some 14, some 35, 4),
    (some 15, some 36, some 57, 4), (some 37, some 58, some 16, 4), (some 59, some 17, some 38, 4),
    (some 18, some 39, some 60, 4), (some 40, some 61, some 19, 4), (some 62, some 20, some 41, 4),
    (none, none, some 63, 2)]

/-- `b64t` -/
def b64t : List UInt8 := ascii "./0123456789ABCDEFGHIJKLMNOPQRSTUVWXYZabcdefghijklmnopqrstuvwxyz"

/-- How many characters the groups have. -/
def CryptFile.hashChars (file : CryptFile w) : Nat :=
  (file.groups.map fun group => group.2.2.2).sum

/-- The size of `buffer` in `crypt`, where a salt may have 256 characters, and the size that is
needed for a salt. -/
def CryptFile.sizeFor (file : CryptFile w) (saltLength : Nat) : Nat :=
  file.saltPrefix.length + (roundsPrefix.length + 1) + 9 + 1 + saltLength + 1 + file.hashChars + 1

/-- What has been written to the buffer up to `cp`, and `buflen`; `stores` has where and how much. -/
structure CryptBuffer where
  text : List UInt8
  buflen : Int
  stores : List (Nat × Nat)
deriving DecidableEq, Repr

/-- `MAX (0, buflen)` -/
def CryptBuffer.room (buffer : CryptBuffer) : Nat := (max 0 buffer.buflen).toNat

/-- `stpncpy`, which fills up with NULs what the text up to its NUL leaves of its count, and then so
much less of `buflen`. -/
def CryptBuffer.stpncpy (buffer : CryptBuffer) (text : List UInt8) (count spent : Nat) :
    CryptBuffer where
  text := buffer.text ++ (text.take count).takeWhile (· ≠ 0)
  buflen := buffer.buflen - spent
  stores := buffer.stores ++ [(buffer.text.length, count)]

/-- `memcpy` of the rounds, of which `cp` is moved on by all. -/
def CryptBuffer.putRounds (buffer : CryptBuffer) (sbuf : List UInt8) : CryptBuffer where
  text := buffer.text ++ sbuf.take (min buffer.room sbuf.length)
  buflen := buffer.buflen - sbuf.length
  stores := buffer.stores ++ [(buffer.text.length, min buffer.room sbuf.length)]

/-- A character, if there is room for it. -/
def CryptBuffer.putChar (buffer : CryptBuffer) (c : UInt8) : CryptBuffer :=
  if 0 < buffer.buflen then
    { text := buffer.text ++ [c]
      buflen := buffer.buflen - 1
      stores := buffer.stores ++ [(buffer.text.length, 1)] }
  else buffer

/-- The characters of a group. -/
def encodeGroup : (n w : Nat) → CryptBuffer → CryptBuffer
  | 0, _, buffer => buffer
  | n + 1, w, buffer =>
    if 0 < buffer.buflen then encodeGroup n (w / 64) (buffer.putChar (b64t.getD (w % 64) 0))
    else buffer

/-- `b64_from_24bit` -/
def b64From24bit (altResult : List UInt8) (buffer : CryptBuffer)
    (group : Option Nat × Option Nat × Option Nat × Nat) : CryptBuffer :=
  let byte (index : Option Nat) : Nat := (index.map fun i => (altResult.getD i 0).toNat).getD 0
  encodeGroup group.2.2.2 (byte group.1 * 2 ^ 16 + byte group.2.1 * 2 ^ 8 + byte group.2.2.1) buffer

/-- `sbuf`, with the number of rounds between its prefix and a dollar. -/
def roundsText (rounds : Nat) : List UInt8 :=
  ((grubVsprintf true (ascii "%s%llu$")
      [(.string ⟨roundsPrefix, by simp [NulFree, roundsPrefix, ascii, charOf], by decide⟩ : VaArg .ia32),
        .longLong (BitVec.ofNat 64 rounds)]).map fun out =>
    out.stored.takeWhile (· ≠ 0)).getD []

/-- The string up to the digest, with the salt as it was digested. -/
def cryptFront (file : CryptFile w) (arg : SaltArg) (salt : List UInt8) (buflen : Int) :
    CryptBuffer :=
  let start : CryptBuffer := ⟨[], buflen, []⟩
  let buffer := start.stpncpy file.saltPrefix start.room file.saltPrefix.length
  let buffer := if arg.roundsCustom then buffer.putRounds (roundsText arg.rounds) else buffer
  let count := min buffer.room salt.length
  (buffer.stpncpy salt count count).putChar dollar

/-- The end of `crypt_r`: the string, if there is room for it and a NUL. -/
def cryptText (file : CryptFile w) (arg : SaltArg) (salt altResult : List UInt8) (buflen : Int) :
    Option CryptBuffer :=
  let buffer := file.groups.foldl (b64From24bit altResult) (cryptFront file arg salt buflen)
  if 0 < buffer.buflen then
    some { buffer with stores := buffer.stores ++ [(buffer.text.length, 1)] }
  else none

/-- Where the arguments are, and what is in memory beside them. -/
structure Surroundings (w : Nat) where
  key : StringPlace
  salt : StringPlace
  place : Placement
  ctx : Context w
  altCtx : Context w
  globals : Globals

/-- `sha256_crypt` and `sha512_crypt`: the buffer, unless the salt is too long. -/
def CryptFile.crypt (file : CryptFile w) (around : Surroundings w) (key salt : List UInt8) :
    Option CryptBuffer :=
  if file.sizeFor 256 < file.sizeFor salt.length then none
  else
    let arg := parseSalt file.saltPrefix around.globals.errnum salt
    let globals := { around.globals with errnum := arg.errnum }
    let saltPlace := { around.salt with
      address := around.salt.address + (salt.length - arg.salt.length) }
    let key := alignedCopy w globals around.key key
    let salt := alignedCopy w globals saltPlace (saltField arg.salt)
    let altResult := cryptDigest file.sha globals around.place around.ctx around.altCtx key salt
      arg.rounds
    cryptText file arg salt.2 altResult (file.sizeFor 256)

/-- `check_password` for an encrypted password that has the prefix of the file: zero if the password
is right. -/
def CryptFile.checkPassword (file : CryptFile w) (around : Surroundings w)
    (entered expected : List UInt8) : Bool :=
  match file.crypt around entered expected with
  | none => true
  | some hashed => expected ≠ hashed.text

end GrubLegacy.Stage2.Sha2
