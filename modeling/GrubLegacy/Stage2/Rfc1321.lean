import GrubLegacy.Base.BlockFold

/-!
# The MD5 message digest

The algorithm in the terms of RFC 1321: a message is padded, its blocks of 16 words are processed
one after the other, and the digest is the four words that remain.
-/

namespace GrubLegacy.Rfc1321

open Base

abbrev Word := BitVec 32

/-! ## The functions and the table -/

def F (X Y Z : Word) : Word := (X &&& Y) ||| (~~~X &&& Z)

def G (X Y Z : Word) : Word := (X &&& Z) ||| (Y &&& ~~~Z)

def H (X Y Z : Word) : Word := X ^^^ Y ^^^ Z

def I (X Y Z : Word) : Word := Y ^^^ (X ||| ~~~Z)

/-- The integer part of 4294967296 times abs(sin(i)), where i is in radians. -/
noncomputable def T (i : Nat) : Word := BitVec.ofNat 32 ⌊2 ^ 32 * |Real.sin i|⌋₊

/-! ## The operations -/

/-- The registers. -/
@[ext]
structure Registers where
  A : Word
  B : Word
  C : Word
  D : Word

/-- The four registers before the first block. -/
def initial : Registers := ⟨0x67452301, 0xefcdab89, 0x98badcfe, 0x10325476⟩

/-- The operations k, s, i of each round. They are for the registers ABCD, DABC, CDAB and BCDA in
turn. -/
def round1 : List (Nat × Nat × Nat) :=
  [(0, 7, 1), (1, 12, 2), (2, 17, 3), (3, 22, 4),
   (4, 7, 5), (5, 12, 6), (6, 17, 7), (7, 22, 8),
   (8, 7, 9), (9, 12, 10), (10, 17, 11), (11, 22, 12),
   (12, 7, 13), (13, 12, 14), (14, 17, 15), (15, 22, 16)]

def round2 : List (Nat × Nat × Nat) :=
  [(1, 5, 17), (6, 9, 18), (11, 14, 19), (0, 20, 20),
   (5, 5, 21), (10, 9, 22), (15, 14, 23), (4, 20, 24),
   (9, 5, 25), (14, 9, 26), (3, 14, 27), (8, 20, 28),
   (13, 5, 29), (2, 9, 30), (7, 14, 31), (12, 20, 32)]

def round3 : List (Nat × Nat × Nat) :=
  [(5, 4, 33), (8, 11, 34), (11, 16, 35), (14, 23, 36),
   (1, 4, 37), (4, 11, 38), (7, 16, 39), (10, 23, 40),
   (13, 4, 41), (0, 11, 42), (3, 16, 43), (6, 23, 44),
   (9, 4, 45), (12, 11, 46), (15, 16, 47), (2, 23, 48)]

def round4 : List (Nat × Nat × Nat) :=
  [(0, 6, 49), (7, 10, 50), (14, 15, 51), (5, 21, 52),
   (12, 6, 53), (3, 10, 54), (10, 15, 55), (1, 21, 56),
   (8, 6, 57), (15, 10, 58), (6, 15, 59), (13, 21, 60),
   (4, 6, 61), (11, 10, 62), (2, 15, 63), (9, 21, 64)]

/-- a = b + ((a + f(b,c,d) + X[k] + T[i]) <<< s), where the registers come in the order that belongs
to the place of the operation. -/
def operation (f : Word → Word → Word → Word) (place : Nat) (x t : Word) (s : Nat) (r : Registers) :
    Registers :=
  match place % 4 with
  | 0 => { r with A := r.B + (r.A + f r.B r.C r.D + x + t).rotateLeft s }
  | 1 => { r with D := r.A + (r.D + f r.A r.B r.C + x + t).rotateLeft s }
  | 2 => { r with C := r.D + (r.C + f r.D r.A r.B + x + t).rotateLeft s }
  | _ => { r with B := r.C + (r.B + f r.C r.D r.A + x + t).rotateLeft s }

/-- The operations of a round. -/
noncomputable def performRound (f : Word → Word → Word → Word) (operations : List (Nat × Nat × Nat))
    (X : Nat → Word) (r : Registers) : Registers :=
  (List.range 16).foldl (fun r place =>
    let (k, s, i) := operations.getD place (0, 0, 0)
    operation f place (X k) (T i) s r) r

/-- A word of a block, with its low-order byte first. -/
def wordOf (block : List UInt8) (k : Nat) : Word :=
  BitVec.ofNat 32 (Nat.ofDigits 256 (((block.drop (4 * k)).take 4).map UInt8.toNat))

/-- What a block makes of the registers. -/
noncomputable def processBlock (r : Registers) (block : List UInt8) : Registers :=
  let r1 := performRound F round1 (wordOf block) r
  let r2 := performRound G round2 (wordOf block) r1
  let r3 := performRound H round3 (wordOf block) r2
  let r4 := performRound I round4 (wordOf block) r3
  { A := r.A + r4.A
    B := r.B + r4.B
    C := r.C + r4.C
    D := r.D + r4.D }

/-! ## Padding and output -/

/-- The number in so many bytes, the low-order one first. -/
def bytesOf (count n : Nat) : List UInt8 := (List.range count).map fun i => UInt8.ofNat (n / 256 ^ i)

/-- A single 1 bit, then 0 bits until the length is congruent to 448 modulo 512, then a number of
bits in 64 bits. -/
def padding (length bits : Nat) : List UInt8 :=
  0x80 :: (List.replicate ((119 - length % 64) % 64) 0 ++ bytesOf 8 bits)

/-- A word with its low-order byte first. -/
def output (r : Registers) : List UInt8 :=
  bytesOf 4 r.A.toNat ++ bytesOf 4 r.B.toNat ++ bytesOf 4 r.C.toNat ++ bytesOf 4 r.D.toNat

/-- The digest of a message whose length is given as so many bits. -/
noncomputable def digestOf (bits : Nat) (message : List UInt8) : List UInt8 :=
  output (foldBlocks 64 processBlock initial (message ++ padding message.length bits))

/-- The digest of a message of bytes. -/
noncomputable def digest (message : List UInt8) : List UInt8 :=
  digestOf (8 * message.length) message

/-- The output has sixteen bytes. -/
@[simp] theorem length_output (r : Registers) : (output r).length = 16 := by
  simp [output, bytesOf]

end GrubLegacy.Rfc1321
