import GrubLegacy.Base.BlockFold
import GrubLegacy.Base.LittleEndian

/-!
# MD5

`md5.c` up to the passwords. The state, the length and a buffer for the bytes that do not fill a
block are global; `md5_update` is given the bytes part by part.
-/

namespace GrubLegacy.Stage2

open Base

abbrev UINT4 := BitVec 32

def F (x y z : UINT4) : UINT4 := (x &&& y) ||| (~~~x &&& z)

def G (x y z : UINT4) : UINT4 := (x &&& z) ||| (y &&& ~~~z)

def H (x y z : UINT4) : UINT4 := x ^^^ y ^^^ z

def I (x y z : UINT4) : UINT4 := y ^^^ (x ||| ~~~z)

/-- ROTATE_LEFT -/
def rotateLeft (x : UINT4) (n : Nat) : UINT4 := (x <<< n) ||| (x >>> (32 - n))

/-- The four words of `state`. -/
@[ext]
structure Md5State where
  a : UINT4
  b : UINT4
  c : UINT4
  d : UINT4
deriving DecidableEq

def initstate : Md5State := ⟨0x67452301, 0xefcdab89, 0x98badcfe, 0x10325476⟩

def s1 : List Nat := [7, 12, 17, 22]
def s2 : List Nat := [5, 9, 14, 20]
def s3 : List Nat := [4, 11, 16, 23]
def s4 : List Nat := [6, 10, 15, 21]

def T : List UINT4 := [
  0xd76aa478, 0xe8c7b756, 0x242070db, 0xc1bdceee,
  0xf57c0faf, 0x4787c62a, 0xa8304613, 0xfd469501,
  0x698098d8, 0x8b44f7af, 0xffff5bb1, 0x895cd7be,
  0x6b901122, 0xfd987193, 0xa679438e, 0x49b40821,
  0xf61e2562, 0xc040b340, 0x265e5a51, 0xe9b6c7aa,
  0xd62f105d, 0x02441453, 0xd8a1e681, 0xe7d3fbc8,
  0x21e1cde6, 0xc33707d6, 0xf4d50d87, 0x455a14ed,
  0xa9e3e905, 0xfcefa3f8, 0x676f02d9, 0x8d2a4c8a,
  0xfffa3942, 0x8771f681, 0x6d9d6122, 0xfde5380c,
  0xa4beea44, 0x4bdecfa9, 0xf6bb4b60, 0xbebfbc70,
  0x289b7ec6, 0xeaa127fa, 0xd4ef3085, 0x04881d05,
  0xd9d4d039, 0xe6db99e5, 0x1fa27cf8, 0xc4ac5665,
  0xf4292244, 0x432aff97, 0xab9423a7, 0xfc93a039,
  0x655b59c3, 0x8f0ccc92, 0xffeff47d, 0x85845dd1,
  0x6fa87e4f, 0xfe2ce6e0, 0xa3014314, 0x4e0811a1,
  0xf7537e82, 0xbd3af235, 0x2ad7d2bb, 0xeb86d391]

/-- A word of a block, on a machine that keeps its lowest byte first. -/
def le32 (block : Area) (place : Nat) : UINT4 :=
  BitVec.ofNat 32 (block.word32 place)

/-- The bytes of a word. -/
def uint4Bytes (word : UINT4) : List UInt8 := wordBytes word.toNat

/-- A turn of one of the four loops. -/
def md5Step (f : UINT4 → UINT4 → UINT4 → UINT4) (x t : UINT4) (s : Nat) (r : Md5State) : Md5State :=
  let tmp := r.a + f r.b r.c r.d + x + t
  { a := r.d
    d := r.c
    c := r.b
    b := rotateLeft tmp s + r.b }

/-- One of the four loops: `j` begins at `first` and moves by `by_`. -/
def md5Round (f : UINT4 → UINT4 → UINT4 → UINT4) (s : List Nat) (first by_ base : Nat) (block : Area)
    (r : Md5State) : Md5State :=
  (List.range 16).foldl (fun r i =>
    md5Step f (le32 block (4 * ((first + by_ * i) % 16))) (T.getD (i + base) 0) (s.getD (i % 4) 0) r) r

/-- `md5_transform` -/
def md5Transform (state : Md5State) (block : Area) : Md5State :=
  let r := md5Round F s1 0 1 0 block state
  let r := md5Round G s2 1 5 16 block r
  let r := md5Round H s3 5 3 32 block r
  let r := md5Round I s4 0 7 48 block r
  { a := state.a + r.a
    b := state.b + r.b
    c := state.c + r.c
    d := state.d + r.d }

/-- The global variables. -/
structure Md5 where
  state : Md5State
  length : UINT4
  buffer : Area

/-- `md5_init` -/
def md5Init (md5 : Md5) : Md5 := { md5 with state := initstate, length := 0 }

/-- The loop over the blocks of the input; there are fewer of them than bytes. -/
def md5Blocks : (fuel : Nat) → Md5State → (input : List UInt8) → Md5State × List UInt8
  | 0, state, input => (state, input)
  | fuel + 1, state, input =>
    if 64 ≤ input.length then md5Blocks fuel (md5Transform state (areaOf input)) (input.drop 64)
    else (state, input)

/-- `md5_update` -/
def md5Update (md5 : Md5) (input : List UInt8) : Md5 :=
  let buflen := (md5.length &&& 63).toNat
  let length := md5.length + BitVec.ofNat 32 input.length
  if buflen + input.length < 64 then
    { md5 with
      length := length
      buffer := copyIn md5.buffer buflen (areaOf input) 0 input.length }
  else
    let buffer := copyIn md5.buffer buflen (areaOf input) 0 (64 - buflen)
    let (state, rest) :=
      md5Blocks input.length (md5Transform md5.state buffer) (input.drop (64 - buflen))
    { state := state
      length := length
      buffer := copyIn buffer 0 (areaOf rest) 0 rest.length }

/-- `memset` -/
def memset (area : Area) (start : Nat) (byte : UInt8) (count : Nat) : Area := fun place =>
  if start ≤ place ∧ place < start + count then byte else area place

/-- `md5_final`; the digest is what `state` then holds. -/
def md5Final (md5 : Md5) : Md5 :=
  let buflen := (md5.length &&& 63).toNat
  let buffer := setByte md5.buffer buflen 0x80
  let buflen := buflen + 1
  let buffer := memset buffer buflen 0 (64 - buflen)
  let (state, buffer) :=
    if 56 < buflen then (md5Transform md5.state buffer, memset buffer 0 0 64)
    else (md5.state, buffer)
  let buffer := copyIn buffer 56 (areaOf (uint4Bytes (8 * md5.length))) 0 4
  let buffer := copyIn buffer 60 (areaOf (uint4Bytes 0)) 0 4
  { md5 with
    state := md5Transform state buffer
    buffer := buffer }

/-- The bytes of `state`. -/
def Md5.digest (md5 : Md5) : List UInt8 :=
  uint4Bytes md5.state.a ++ uint4Bytes md5.state.b ++ uint4Bytes md5.state.c ++ uint4Bytes md5.state.d

end GrubLegacy.Stage2
