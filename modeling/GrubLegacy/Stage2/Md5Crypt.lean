import GrubLegacy.Base.CStrings

/-!
# MD5-crypt

The strings that passwords are kept as: a magic, a salt of up to eight characters, and 22
characters of a digest that is mixed a thousand times. The digest is any function on bytes; of the
magic and the salt any text is taken, so that it can be said what a text comes to that is none.
-/

namespace GrubLegacy.Md5Crypt

open CStrings

section

variable (digest : List UInt8 → List UInt8) (key magic salt : List UInt8)

/-- The digest of the key, the salt and the key again. -/
def alternate : List UInt8 := digest (key ++ salt ++ key)

/-- As many bytes of the alternate digest as the key has, over and over. -/
def repeated : List UInt8 :=
  (List.range key.length).map fun i => (alternate digest key salt).getD (i % 16) 0

/-- A byte for each bit of the key's length, the lowest first: a NUL for a bit that is set, and the
first character of the key for another one. -/
def lengthBits : List UInt8 :=
  (Nat.digits 2 key.length).map fun bit => if bit = 1 then 0 else key.headD 0

/-- The digest that the mixing begins with. -/
def started : List UInt8 :=
  digest (key ++ magic ++ salt ++ repeated digest key salt ++ lengthBits key)

/-- A round of the mixing. -/
def mixed (i : Nat) (last : List UInt8) : List UInt8 :=
  digest ((if i % 2 = 1 then key else last) ++ (if i % 3 = 0 then [] else salt) ++
    (if i % 7 = 0 then [] else key) ++ (if i % 2 = 1 then last else key))

/-- The digest after so many rounds. -/
def mixedBy : Nat → List UInt8
  | 0 => started digest key magic salt
  | i + 1 => mixed digest key salt i (mixedBy i)

/-- The digits, of six bits each. -/
def itoa64 : List UInt8 := ascii "./0123456789ABCDEFGHIJKLMNOPQRSTUVWXYZabcdefghijklmnopqrstuvwxyz"

/-- So many digits of a number, the lowest first. -/
def to64 (count value : Nat) : List UInt8 :=
  (List.range count).map fun n => itoa64.getD (value / 64 ^ n % 64) 0

/-- A digest in 22 characters. -/
def inDigits (final : List UInt8) : List UInt8 :=
  let byte := fun i => (final.getD i 0).toNat
  let group := fun high middle low => to64 4 (byte high * 2 ^ 16 + byte middle * 2 ^ 8 + byte low)
  group 0 6 12 ++ group 1 7 13 ++ group 2 8 14 ++ group 3 9 15 ++ group 4 10 5 ++ to64 2 (byte 11)

/-- What comes behind the salt. -/
def digits : List UInt8 := inDigits (mixedBy digest key magic salt 1000)

end

/-- The magic of MD5. -/
def magic : List UInt8 := ascii "$1$"

/-- The end of a salt. -/
def dollar : UInt8 := charOf '$'

/-- The string a key is kept as, with a salt. -/
def crypt (digest : List UInt8 → List UInt8) (key salt : List UInt8) : List UInt8 :=
  magic ++ salt ++ dollar :: digits digest key magic salt

/-- The salt of a string: up to eight characters behind the magic, and before another dollar. -/
def saltOf (text : List UInt8) : List UInt8 := ((text.drop 3).takeWhile (· ≠ dollar)).take 8

end GrubLegacy.Md5Crypt
