import GrubLegacy.Base.BlockFold

/-!
# The SHA-2 message digests

SHA-256 and SHA-512 in the terms of FIPS 180-2: a message is padded, its blocks of 16 words are
processed one after the other, and the digest is the eight words that remain. The two differ in
the length of a word, in the number of rounds and in the rotations.
-/

namespace GrubLegacy.Fips180

open Base

variable {w : Nat}

/-! ## The functions and the constants -/

def Ch (x y z : BitVec w) : BitVec w := (x &&& y) ^^^ (~~~x &&& z)

def Maj (x y z : BitVec w) : BitVec w := (x &&& y) ^^^ (x &&& z) ^^^ (y &&& z)

/-- What the algorithms differ in. -/
structure Algorithm (w : Nat) where
  rounds : Nat
  bigSigma0 : BitVec w → BitVec w
  bigSigma1 : BitVec w → BitVec w
  smallSigma0 : BitVec w → BitVec w
  smallSigma1 : BitVec w → BitVec w

/-- SHA-256, with the functions of 4.1.2. -/
def sha256 : Algorithm 32 where
  rounds := 64
  bigSigma0 x := x.rotateRight 2 ^^^ x.rotateRight 13 ^^^ x.rotateRight 22
  bigSigma1 x := x.rotateRight 6 ^^^ x.rotateRight 11 ^^^ x.rotateRight 25
  smallSigma0 x := x.rotateRight 7 ^^^ x.rotateRight 18 ^^^ (x >>> 3)
  smallSigma1 x := x.rotateRight 17 ^^^ x.rotateRight 19 ^^^ (x >>> 10)

/-- SHA-512, with the functions of 4.1.3. -/
def sha512 : Algorithm 64 where
  rounds := 80
  bigSigma0 x := x.rotateRight 28 ^^^ x.rotateRight 34 ^^^ x.rotateRight 39
  bigSigma1 x := x.rotateRight 14 ^^^ x.rotateRight 18 ^^^ x.rotateRight 41
  smallSigma0 x := x.rotateRight 1 ^^^ x.rotateRight 8 ^^^ (x >>> 7)
  smallSigma1 x := x.rotateRight 19 ^^^ x.rotateRight 61 ^^^ (x >>> 6)

/-- The primes, the first one at 0. -/
noncomputable def prime (t : Nat) : Nat := Nat.nth Nat.Prime t

/-- The first bits of the fractional part of a root. -/
noncomputable def rootBits (w degree number : Nat) : BitVec w :=
  BitVec.ofNat w ⌊((2 ^ w : Nat) : ℝ) * (number : ℝ) ^ ((degree : ℝ)⁻¹)⌋₊

/-- The constants come from the cube roots of the primes. -/
noncomputable def K (w t : Nat) : BitVec w := rootBits w 3 (prime t)

/-- The initial hash value comes from the square roots of the first eight. -/
noncomputable def H0 (w j : Nat) : BitVec w := rootBits w 2 (prime j)

/-! ## The computation -/

/-- The working variables. -/
@[ext]
structure Registers (w : Nat) where
  a : BitVec w
  b : BitVec w
  c : BitVec w
  d : BitVec w
  e : BitVec w
  f : BitVec w
  g : BitVec w
  h : BitVec w
deriving DecidableEq

noncomputable def initial (w : Nat) : Registers w :=
  ⟨H0 w 0, H0 w 1, H0 w 2, H0 w 3, H0 w 4, H0 w 5, H0 w 6, H0 w 7⟩

/-- The message schedule of a block with these words. -/
def W (algorithm : Algorithm w) (M : Nat → BitVec w) (t : Nat) : BitVec w :=
  if t < 16 then M t
  else
    algorithm.smallSigma1 (W algorithm M (t - 2)) + W algorithm M (t - 7) +
      algorithm.smallSigma0 (W algorithm M (t - 15)) + W algorithm M (t - 16)

/-- A round, with its constant and its word of the schedule. -/
def round (algorithm : Algorithm w) (k word : BitVec w) (r : Registers w) : Registers w :=
  let T1 := r.h + algorithm.bigSigma1 r.e + Ch r.e r.f r.g + k + word
  let T2 := algorithm.bigSigma0 r.a + Maj r.a r.b r.c
  { a := T1 + T2
    b := r.a
    c := r.b
    d := r.c
    e := r.d + T1
    f := r.e
    g := r.f
    h := r.g }

/-- The registers of a block are added to those before it. -/
def added (r s : Registers w) : Registers w :=
  { a := r.a + s.a
    b := r.b + s.b
    c := r.c + s.c
    d := r.d + s.d
    e := r.e + s.e
    f := r.f + s.f
    g := r.g + s.g
    h := r.h + s.h }

/-- A number of these bytes, the high-order one first. -/
def bigEndian (bytes : List UInt8) : Nat := Nat.ofDigits 256 (bytes.reverse.map UInt8.toNat)

/-- A word of a block, with its high-order byte first. -/
def wordOf (w : Nat) (block : List UInt8) (t : Nat) : BitVec w :=
  BitVec.ofNat w (bigEndian ((block.drop (w / 8 * t)).take (w / 8)))

/-- What a block makes of the hash value. -/
noncomputable def processBlock (algorithm : Algorithm w) (r : Registers w) (block : List UInt8) :
    Registers w :=
  added r ((List.range algorithm.rounds).foldl (fun r t =>
    round algorithm (K w t) (W algorithm (wordOf w block) t) r) r)

/-! ## Padding and output -/

/-- The bytes of a block. -/
def blockSize (w : Nat) : Nat := 2 * w

/-- The number in so many bytes, the high-order one first. -/
def bytesOf (count n : Nat) : List UInt8 :=
  (List.range count).reverse.map fun i => UInt8.ofNat (n / 256 ^ i)

/-- A single 1 bit, then 0 bits up to the last two words of a block, then the number of bits of the
message in these words. -/
def padding (w length : Nat) : List UInt8 :=
  0x80 :: (List.replicate ((2 * blockSize w - 1 - w / 4 - length % blockSize w) % blockSize w) 0 ++
    bytesOf (w / 4) (8 * length))

/-- The words with their high-order bytes first. -/
def output (r : Registers w) : List UInt8 :=
  [r.a, r.b, r.c, r.d, r.e, r.f, r.g, r.h].flatMap fun word => bytesOf (w / 8) word.toNat

/-- The digest of a message. -/
noncomputable def digest (algorithm : Algorithm w) (message : List UInt8) : List UInt8 :=
  output (foldBlocks (blockSize w) (processBlock algorithm) (initial w)
    (message ++ padding w message.length))

/-- As many bytes are written as are asked for. -/
@[simp] theorem length_bytesOf (count n : Nat) : (bytesOf count n).length = count := by
  simp [bytesOf]

/-- The output has eight words. -/
@[simp] theorem length_output (r : Registers w) : (output r).length = 8 * (w / 8) := by
  simp [output]
  omega

end GrubLegacy.Fips180
