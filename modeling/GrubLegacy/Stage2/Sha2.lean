import GrubLegacy.Base.BlockFold
import GrubLegacy.Base.ByteArea
import GrubLegacy.Stage2.Shared

/-!
# SHA-256 and SHA-512

`sha256crypt.c` and `sha512crypt.c` up to the passwords. The functions of the two are the same up to
the word, the constants and the rotations. Bytes are given part by part, and up to a block of them
waits in the buffer, which is two blocks long. The words are stored with their lowest byte first, as
on the machines the code is for.
-/

namespace GrubLegacy.Stage2.Sha2

open Base

variable {w : Nat}

/-! ## What the files differ in -/

/-- CYCLIC -/
def cyclic (x : BitVec w) (s : Nat) : BitVec w := (x >>> s) ||| (x <<< (w - s))

def Ch (x y z : BitVec w) : BitVec w := (x &&& y) ^^^ (~~~x &&& z)

def Maj (x y z : BitVec w) : BitVec w := (x &&& y) ^^^ (x &&& z) ^^^ (y &&& z)

/-- `H` of a context. -/
@[ext]
structure HashWords (w : Nat) where
  a : BitVec w
  b : BitVec w
  c : BitVec w
  d : BitVec w
  e : BitVec w
  f : BitVec w
  g : BitVec w
  h : BitVec w
deriving DecidableEq

def HashWords.list (r : HashWords w) : List (BitVec w) := [r.a, r.b, r.c, r.d, r.e, r.f, r.g, r.h]

/-- The macros and the constants of a file. -/
structure Sha (w : Nat) where
  SWAP : BitVec w → BitVec w
  S0 : BitVec w → BitVec w
  S1 : BitVec w → BitVec w
  R0 : BitVec w → BitVec w
  R1 : BitVec w → BitVec w
  K : List (BitVec w)
  init : HashWords w

/-- The constants of `sha256crypt.c`. -/
def K256 : List (BitVec 32) := [
  0x428a2f98, 0x71374491, 0xb5c0fbcf, 0xe9b5dba5,
  0x3956c25b, 0x59f111f1, 0x923f82a4, 0xab1c5ed5,
  0xd807aa98, 0x12835b01, 0x243185be, 0x550c7dc3,
  0x72be5d74, 0x80deb1fe, 0x9bdc06a7, 0xc19bf174,
  0xe49b69c1, 0xefbe4786, 0x0fc19dc6, 0x240ca1cc,
  0x2de92c6f, 0x4a7484aa, 0x5cb0a9dc, 0x76f988da,
  0x983e5152, 0xa831c66d, 0xb00327c8, 0xbf597fc7,
  0xc6e00bf3, 0xd5a79147, 0x06ca6351, 0x14292967,
  0x27b70a85, 0x2e1b2138, 0x4d2c6dfc, 0x53380d13,
  0x650a7354, 0x766a0abb, 0x81c2c92e, 0x92722c85,
  0xa2bfe8a1, 0xa81a664b, 0xc24b8b70, 0xc76c51a3,
  0xd192e819, 0xd6990624, 0xf40e3585, 0x106aa070,
  0x19a4c116, 0x1e376c08, 0x2748774c, 0x34b0bcb5,
  0x391c0cb3, 0x4ed8aa4a, 0x5b9cca4f, 0x682e6ff3,
  0x748f82ee, 0x78a5636f, 0x84c87814, 0x8cc70208,
  0x90befffa, 0xa4506ceb, 0xbef9a3f7, 0xc67178f2]

/-- The constants of `sha512crypt.c`. -/
def K512 : List (BitVec 64) := [
  0x428a2f98d728ae22, 0x7137449123ef65cd, 0xb5c0fbcfec4d3b2f,
  0xe9b5dba58189dbbc, 0x3956c25bf348b538, 0x59f111f1b605d019,
  0x923f82a4af194f9b, 0xab1c5ed5da6d8118, 0xd807aa98a3030242,
  0x12835b0145706fbe, 0x243185be4ee4b28c, 0x550c7dc3d5ffb4e2,
  0x72be5d74f27b896f, 0x80deb1fe3b1696b1, 0x9bdc06a725c71235,
  0xc19bf174cf692694, 0xe49b69c19ef14ad2, 0xefbe4786384f25e3,
  0x0fc19dc68b8cd5b5, 0x240ca1cc77ac9c65, 0x2de92c6f592b0275,
  0x4a7484aa6ea6e483, 0x5cb0a9dcbd41fbd4, 0x76f988da831153b5,
  0x983e5152ee66dfab, 0xa831c66d2db43210, 0xb00327c898fb213f,
  0xbf597fc7beef0ee4, 0xc6e00bf33da88fc2, 0xd5a79147930aa725,
  0x06ca6351e003826f, 0x142929670a0e6e70, 0x27b70a8546d22ffc,
  0x2e1b21385c26c926, 0x4d2c6dfc5ac42aed, 0x53380d139d95b3df,
  0x650a73548baf63de, 0x766a0abb3c77b2a8, 0x81c2c92e47edaee6,
  0x92722c851482353b, 0xa2bfe8a14cf10364, 0xa81a664bbc423001,
  0xc24b8b70d0f89791, 0xc76c51a30654be30, 0xd192e819d6ef5218,
  0xd69906245565a910, 0xf40e35855771202a, 0x106aa07032bbd1b8,
  0x19a4c116b8d2d0c8, 0x1e376c085141ab53, 0x2748774cdf8eeb99,
  0x34b0bcb5e19b48a8, 0x391c0cb3c5c95a63, 0x4ed8aa4ae3418acb,
  0x5b9cca4f7763e373, 0x682e6ff3d6b2b8a3, 0x748f82ee5defb2fc,
  0x78a5636f43172f60, 0x84c87814a1f0ab72, 0x8cc702081a6439ec,
  0x90befffa23631e28, 0xa4506cebde82bde9, 0xbef9a3f7b2c67915,
  0xc67178f2e372532b, 0xca273eceea26619c, 0xd186b8c721c0c207,
  0xeada7dd6cde0eb1e, 0xf57d4f7fee6ed178, 0x06f067aa72176fba,
  0x0a637dc5a2c898a6, 0x113f9804bef90dae, 0x1b710b35131c471b,
  0x28db77f523047d84, 0x32caab7b40c72493, 0x3c9ebe0a15c9bebc,
  0x431d67c49c100d4c, 0x4cc5d4becb3e42b6, 0x597f299cfc657e2a,
  0x5fcb6fab3ad6faec, 0x6c44198c4a475817]

def swap256 (n : BitVec 32) : BitVec 32 :=
  (n <<< 24) ||| ((n &&& 0xff00) <<< 8) ||| ((n >>> 8) &&& 0xff00) ||| (n >>> 24)

def swap512 (n : BitVec 64) : BitVec 64 :=
  (n <<< 56) ||| ((n &&& 0xff00) <<< 40) ||| ((n &&& 0xff0000) <<< 24) |||
    ((n &&& 0xff000000) <<< 8) ||| ((n >>> 8) &&& 0xff000000) ||| ((n >>> 24) &&& 0xff0000) |||
    ((n >>> 40) &&& 0xff00) ||| (n >>> 56)

def sha256 : Sha 32 where
  SWAP := swap256
  S0 x := cyclic x 2 ^^^ cyclic x 13 ^^^ cyclic x 22
  S1 x := cyclic x 6 ^^^ cyclic x 11 ^^^ cyclic x 25
  R0 x := cyclic x 7 ^^^ cyclic x 18 ^^^ (x >>> 3)
  R1 x := cyclic x 17 ^^^ cyclic x 19 ^^^ (x >>> 10)
  K := K256
  init := ⟨0x6a09e667, 0xbb67ae85, 0x3c6ef372, 0xa54ff53a,
    0x510e527f, 0x9b05688c, 0x1f83d9ab, 0x5be0cd19⟩

def sha512 : Sha 64 where
  SWAP := swap512
  S0 x := cyclic x 28 ^^^ cyclic x 34 ^^^ cyclic x 39
  S1 x := cyclic x 14 ^^^ cyclic x 18 ^^^ cyclic x 41
  R0 x := cyclic x 1 ^^^ cyclic x 8 ^^^ (x >>> 7)
  R1 x := cyclic x 19 ^^^ cyclic x 61 ^^^ (x >>> 6)
  K := K512
  init := ⟨0x6a09e667f3bcc908, 0xbb67ae8584caa73b, 0x3c6ef372fe94f82b,
    0xa54ff53a5f1d36f1, 0x510e527fade682d1, 0x9b05688c2b3e6c1f,
    0x1f83d9abfb41bd6b, 0x5be0cd19137e2179⟩

/-! ## The functions -/

/-- A context. -/
structure Context (w : Nat) where
  H : HashWords w
  total0 : BitVec w
  total1 : BitVec w
  buflen : Nat
  buffer : Area

/-- How many bytes a block has; the buffer has two times as many. -/
def blockSize (w : Nat) : Nat := 2 * w

/-- A word where its lowest byte comes first. -/
def loadWord (w : Nat) (bytes : List UInt8) : BitVec w :=
  BitVec.ofNat w (Nat.ofDigits 256 (bytes.map UInt8.toNat))

/-- The bytes of a word that is stored. -/
def storeWord (word : BitVec w) : List UInt8 :=
  (List.range (w / 8)).map fun i => UInt8.ofNat (word.toNat / 256 ^ i)

/-- `errnum`, and the memory from the address 0 on. -/
structure Globals where
  errnum : GrubError
  low : Area

/-- What is read where the result of `memcpy` says that these bytes are. It is NULL while `errnum` is
set, and the copy is made nevertheless. -/
def Globals.copied (globals : Globals) (bytes : List UInt8) : List UInt8 :=
  if globals.errnum = .none then bytes else bytesAt globals.low 0 bytes.length

section

variable (sha : Sha w) (globals : Globals)

/-- `W`, with the words of the block and then those that are made of them. -/
def schedule (block : List UInt8) : List (BitVec w) :=
  (List.range (sha.K.length - 16)).foldl (fun W i =>
    W ++ [sha.R1 (W.getD (i + 16 - 2) 0) + W.getD (i + 16 - 7) 0 + sha.R0 (W.getD (i + 16 - 15) 0) +
      W.getD (i + 16 - 16) 0])
    ((List.range 16).map fun t => sha.SWAP (loadWord w ((block.drop (w / 8 * t)).take (w / 8))))

/-- A turn of the loop over the rounds. -/
def roundStep (W : List (BitVec w)) (r : HashWords w) (t : Nat) : HashWords w :=
  let T1 := r.h + sha.S1 r.e + Ch r.e r.f r.g + sha.K.getD t 0 + W.getD t 0
  let T2 := sha.S0 r.a + Maj r.a r.b r.c
  { h := r.g
    g := r.f
    f := r.e
    e := r.d + T1
    d := r.c
    c := r.b
    b := r.a
    a := T1 + T2 }

/-- A turn of the loop over the blocks. -/
def blockStep (r : HashWords w) (block : List UInt8) : HashWords w :=
  let s := (List.range sha.K.length).foldl (roundStep sha (schedule sha block)) r
  { a := s.a + r.a
    b := s.b + r.b
    c := s.c + r.c
    d := s.d + r.d
    e := s.e + r.e
    f := s.f + r.f
    g := s.g + r.g
    h := s.h + r.h }

/-- `process_block`, with the bytes that it reads. -/
def processBlock (bytes : List UInt8) (ctx : Context w) : Context w :=
  let total0 := ctx.total0 + BitVec.ofNat w bytes.length
  { ctx with
    H := foldBlocks (blockSize w) (blockStep sha) ctx.H bytes
    total0 := total0
    total1 := if total0.toNat < bytes.length then ctx.total1 + 1 else ctx.total1 }

/-- `init_ctx`. The buffer is not touched. -/
def initCtx (ctx : Context w) : Context w :=
  { ctx with
    H := sha.init
    total0 := 0
    total1 := 0
    buflen := 0 }

/-- `fillbuf` -/
def fillbuf (w : Nat) : List UInt8 := 0x80 :: List.replicate (blockSize w - 1) 0

/-- `finish_ctx`, with what it writes to `resbuf`. The last two words of the padding hold the length
in bits. -/
def finishCtx (ctx : Context w) : Context w × List UInt8 :=
  let bytes := ctx.buflen
  let total0 := ctx.total0 + BitVec.ofNat w bytes
  let total1 := if total0.toNat < bytes then ctx.total1 + 1 else ctx.total1
  let tail := blockSize w - w / 4
  let pad := if tail ≤ bytes then blockSize w + tail - bytes else tail - bytes
  let buffer := copyIn ctx.buffer bytes (areaOf (fillbuf w)) 0 pad
  let buffer := copyIn buffer (bytes + pad + w / 8)
    (areaOf (storeWord (sha.SWAP (total0 <<< 3)))) 0 (w / 8)
  let buffer := copyIn buffer (bytes + pad)
    (areaOf (storeWord (sha.SWAP ((total1 <<< 3) ||| (total0 >>> (w - 3)))))) 0 (w / 8)
  let ctx := processBlock sha (bytesAt buffer 0 (bytes + pad + w / 4))
    { ctx with
      total0 := total0
      total1 := total1
      buffer := buffer }
  (ctx, ctx.H.list.flatMap fun word => storeWord (sha.SWAP word))

/-- The first part of `process_bytes`, when bytes wait already. -/
def topUp (input : List UInt8) (ctx : Context w) : Context w × List UInt8 :=
  let leftOver := ctx.buflen
  let add := if input.length < 2 * blockSize w - leftOver then input.length
    else 2 * blockSize w - leftOver
  let buffer := copyIn ctx.buffer leftOver (areaOf input) 0 add
  let buflen := leftOver + add
  let ctx := { ctx with
    buffer := buffer
    buflen := buflen }
  let ctx :=
    if blockSize w < buflen then
      let ctx := processBlock sha (bytesAt buffer 0 (blockSize w * (buflen / blockSize w))) ctx
      { ctx with
        buflen := buflen % blockSize w
        buffer := copyIn ctx.buffer 0 ctx.buffer (blockSize w * (buflen / blockSize w))
          (buflen % blockSize w) }
    else ctx
  (ctx, input.drop add)

/-- The loop for input that is not aligned; there are fewer blocks than bytes. What is processed is
the result of `memcpy`. -/
def unalignedBlocks : (fuel : Nat) → (input : List UInt8) → Context w → Context w × List UInt8
  | 0, input, ctx => (ctx, input)
  | fuel + 1, input, ctx =>
    if blockSize w < input.length then
      let buffer := copyIn ctx.buffer 0 (areaOf input) 0 (blockSize w)
      unalignedBlocks fuel (input.drop (blockSize w))
        (processBlock sha (globals.copied (bytesAt buffer 0 (blockSize w)))
          { ctx with buffer := buffer })
    else (ctx, input)

/-- The blocks of the input. -/
def completeBlocks (unaligned : Bool) (input : List UInt8) (ctx : Context w) :
    Context w × List UInt8 :=
  if blockSize w ≤ input.length then
    if unaligned then unalignedBlocks sha globals input.length input ctx
    else
      (processBlock sha (input.take (blockSize w * (input.length / blockSize w))) ctx,
        input.drop (blockSize w * (input.length / blockSize w)))
  else (ctx, input)

/-- The bytes that remain. -/
def keepRest (input : List UInt8) (ctx : Context w) : Context w :=
  if 0 < input.length then
    let buffer := copyIn ctx.buffer ctx.buflen (areaOf input) 0 input.length
    let leftOver := ctx.buflen + input.length
    let ctx := { ctx with buffer := buffer }
    if blockSize w ≤ leftOver then
      let ctx := processBlock sha (bytesAt buffer 0 (blockSize w)) ctx
      { ctx with
        buffer := copyIn ctx.buffer 0 ctx.buffer (blockSize w) (leftOver - blockSize w)
        buflen := leftOver - blockSize w }
    else { ctx with buflen := leftOver }
  else ctx

/-- `process_bytes`, with the address of the input. What is left of it once the buffer has been
filled may be at one that is not aligned. -/
def processBytes (address : Nat) (input : List UInt8) (ctx : Context w) : Context w :=
  let (ctx, rest) := if ctx.buflen ≠ 0 then topUp sha input ctx else (ctx, input)
  let unaligned := (address + (input.length - rest.length)) % (w / 8) ≠ 0
  let (ctx, rest) := completeBlocks sha globals unaligned rest ctx
  keepRest sha rest ctx

/-- The parts of a message are given to `process_bytes` one after the other, each with its address. -/
def session (ctx : Context w) (parts : List (Nat × List UInt8)) :
    Context w × List UInt8 :=
  finishCtx sha
    (parts.foldl (fun ctx part => processBytes sha globals part.1 part.2 ctx) (initCtx sha ctx))

end

/-- `sha256_process_block` -/
def sha256ProcessBlock := processBlock sha256

/-- `sha256_init_ctx` -/
def sha256InitCtx := initCtx sha256

/-- `sha256_finish_ctx` -/
def sha256FinishCtx := finishCtx sha256

/-- `sha256_process_bytes` -/
def sha256ProcessBytes := processBytes sha256

/-- `sha512_process_block` -/
def sha512ProcessBlock := processBlock sha512

/-- `sha512_init_ctx` -/
def sha512InitCtx := initCtx sha512

/-- `sha512_finish_ctx` -/
def sha512FinishCtx := finishCtx sha512

/-- `sha512_process_bytes` -/
def sha512ProcessBytes := processBytes sha512

end GrubLegacy.Stage2.Sha2
