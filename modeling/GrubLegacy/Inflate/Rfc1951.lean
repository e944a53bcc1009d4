import GrubLegacy.Base.CanonicalCodes
import Mathlib.Data.List.GetD

/-!
# The deflate format

What the blocks of a deflated stream stand for: bytes that are stored, or literals and copies of what
came before, with Huffman codes that are fixed or given in the block. The bits of a byte come lowest
first, and the ones of a code highest first.
-/

namespace GrubLegacy.Inflate.Rfc1951

open Base

/-! ## Bits -/

/-- The number with these bits, lowest first. -/
def ofBits : List Bool → Nat
  | [] => 0
  | bit :: bits => bit.toNat + 2 * ofBits bits

/-- The number with these bits, highest first. -/
def ofCode (bits : List Bool) : Nat := bits.foldl (fun n bit => 2 * n + bit.toNat) 0

def byteBits (byte : UInt8) : List Bool := (List.range 8).map byte.toNat.testBit

def streamBits (bytes : List UInt8) : List Bool := bytes.flatMap byteBits

/-! ## Codes -/

/-- The bits are the code of a value. -/
structure IsCode (lens : List Nat) (value : Nat) (bits : List Bool) : Prop where
  length : bits.length = lens.getD value 0
  some_ : bits ≠ []
  code : ofCode bits = codeOf lens value

/-- A code is complete, or there is only one value with one bit. -/
structure Decodable (lens : List Nat) : Prop where
  bounded : ∀ k ∈ lens, k ≤ 15
  complete : kraftSum 15 lens = 2 ^ 15 ∨ (lens.count 1 = 1 ∧ ∀ k ∈ lens, k ≤ 1)

/-- The extra bits for a length. -/
def lengthExtra (i : Nat) : Nat := if i = 28 then 0 else (i - 4) / 4

/-- The smallest length for value `257 + i`. -/
def lengthBase : (i : Nat) → Nat
  | 0 => 3
  | 28 => 258
  | i + 1 => lengthBase i + 2 ^ lengthExtra i

/-- The extra bits for a distance. -/
def distanceExtra (j : Nat) : Nat := (j - 2) / 2

def distanceBase : (j : Nat) → Nat
  | 0 => 1
  | j + 1 => distanceBase j + 2 ^ distanceExtra j

/-- The output after a copy of what is at a distance; it may run into its own bytes. -/
def copyBack (distance : Nat) : (length : Nat) → List UInt8 → List UInt8
  | 0, out => out
  | length + 1, out => copyBack distance length (out ++ [out.getD (out.length - distance) 0])

/-- The codes up to the end of the block, and what they make of the output. -/
inductive Codes (lit dist : List Nat) : List UInt8 → List Bool → List UInt8 → Prop
  | endOfBlock {out : List UInt8} {code : List Bool} (isEnd : IsCode lit 256 code) :
      Codes lit dist out code out
  | literal {out out' : List UInt8} {byte : UInt8} {code bits : List Bool}
      (isByte : IsCode lit byte.toNat code) (rest : Codes lit dist (out ++ [byte]) bits out') :
      Codes lit dist out (code ++ bits) out'
  | copy {out out' : List UInt8} {i j : Nat} {code extra distCode distExtra bits : List Bool}
      (length : i < 29) (isLength : IsCode lit (257 + i) code)
      (extraBits : extra.length = lengthExtra i) (distance : j < 30)
      (isDistance : IsCode dist j distCode) (distExtraBits : distExtra.length = distanceExtra j)
      (inside : distanceBase j + ofBits distExtra ≤ out.length)
      (rest : Codes lit dist
        (copyBack (distanceBase j + ofBits distExtra) (lengthBase i + ofBits extra) out) bits out') :
      Codes lit dist out (code ++ (extra ++ (distCode ++ (distExtra ++ bits)))) out'

/-! ## The codes of a block -/

def fixedLit : List Nat :=
  List.replicate 144 8 ++ List.replicate 112 9 ++ List.replicate 24 7 ++ List.replicate 8 8

def fixedDist : List Nat := List.replicate 32 5

/-- The values that the lengths of the codes for lengths are given for. -/
def codeLengthOrder : List Nat := [16, 17, 18, 0, 8, 7, 9, 6, 10, 5, 11, 4, 12, 3, 13, 2, 14, 1, 15]

/-- The lengths of the codes for lengths. -/
def codeLengthLens (fields : List (List Bool)) : List Nat :=
  (List.range 19).map fun value => ofBits (fields.getD (codeLengthOrder.idxOf value) [])

/-- The lengths of codes, with runs of the last length and of zeros. -/
inductive RunLengths (codeLens : List Nat) : List Nat → List Bool → List Nat → Prop
  | done {lens : List Nat} : RunLengths codeLens lens [] lens
  | length {lens lens' : List Nat} {value : Nat} {code bits : List Bool} (isLength : value < 16)
      (isCode : IsCode codeLens value code) (rest : RunLengths codeLens (lens ++ [value]) bits lens') :
      RunLengths codeLens lens (code ++ bits) lens'
  | again {lens lens' : List Nat} {last : Nat} {code extra bits : List Bool}
      (isCode : IsCode codeLens 16 code) (extraBits : extra.length = 2)
      (isLast : lens.getLast? = some last)
      (rest : RunLengths codeLens (lens ++ List.replicate (3 + ofBits extra) last) bits lens') :
      RunLengths codeLens lens (code ++ (extra ++ bits)) lens'
  | zeros {lens lens' : List Nat} {code extra bits : List Bool} (isCode : IsCode codeLens 17 code)
      (extraBits : extra.length = 3)
      (rest : RunLengths codeLens (lens ++ List.replicate (3 + ofBits extra) 0) bits lens') :
      RunLengths codeLens lens (code ++ (extra ++ bits)) lens'
  | moreZeros {lens lens' : List Nat} {code extra bits : List Bool}
      (isCode : IsCode codeLens 18 code) (extraBits : extra.length = 7)
      (rest : RunLengths codeLens (lens ++ List.replicate (11 + ofBits extra) 0) bits lens') :
      RunLengths codeLens lens (code ++ (extra ++ bits)) lens'

/-- What comes before the codes of a block with its own codes. -/
structure Header (lit dist : List Nat) where
  hlit : List Bool
  hdist : List Bool
  hclen : List Bool
  fields : List (List Bool)
  lengths : List Bool
  hlitBits : hlit.length = 5
  hdistBits : hdist.length = 5
  hclenBits : hclen.length = 4
  fieldCount : fields.length = 4 + ofBits hclen
  fieldBits : ∀ field ∈ fields, field.length = 3
  litCount : lit.length = 257 + ofBits hlit
  distCount : dist.length = 1 + ofBits hdist
  litFew : lit.length ≤ 286
  distFew : dist.length ≤ 30
  codeLens : Decodable (codeLengthLens fields)
  litLens : Decodable lit
  distLens : Decodable dist ∨ ∀ k ∈ dist, k = 0
  runs : RunLengths (codeLengthLens fields) [] lengths (lit ++ dist)

def Header.bits {lit dist : List Nat} (header : Header lit dist) : List Bool :=
  header.hlit ++ (header.hdist ++ (header.hclen ++ (header.fields.flatten ++ header.lengths)))

/-! ## Blocks -/

/-- A block that begins after so many bits, and what it makes of the output. -/
inductive Block (position : Nat) (final : Bool) : List UInt8 → List Bool → List UInt8 → Prop
  | stored {out data : List UInt8} {pad len : List Bool} (short : pad.length < 8)
      (aligned : 8 ∣ position + 3 + pad.length) (lenBits : len.length = 16)
      (dataLength : data.length = ofBits len) :
      Block position final out
        (final :: false :: false :: (pad ++ (len ++ (len.map (!·) ++ streamBits data)))) (out ++ data)
  | fixed {out out' : List UInt8} {codes : List Bool} (isCodes : Codes fixedLit fixedDist out codes out') :
      Block position final out (final :: true :: false :: codes) out'
  | dynamic {out out' : List UInt8} {lit dist : List Nat} {codes : List Bool}
      (header : Header lit dist) (isCodes : Codes lit dist out codes out') :
      Block position final out (final :: false :: true :: (header.bits ++ codes)) out'

/-- The blocks up to the last one. -/
inductive Blocks : Nat → List UInt8 → List Bool → List UInt8 → Prop
  | last {position : Nat} {out out' : List UInt8} {bits : List Bool}
      (block : Block position true out bits out') : Blocks position out bits out'
  | more {position : Nat} {out out' contents : List UInt8} {bits rest : List Bool}
      (block : Block position false out bits out')
      (blocks : Blocks (position + bits.length) out' rest contents) :
      Blocks position out (bits ++ rest) contents

/-- The stream stands for these contents. -/
structure Deflated (bytes contents : List UInt8) : Prop where
  blocks : ∃ bits pad, streamBits bytes = bits ++ pad ∧ pad.length < 8 ∧ Blocks 0 [] bits contents

end GrubLegacy.Inflate.Rfc1951
