import GrubLegacy.Inflate.Huft
import GrubLegacy.Stage2.Gunzip

/-!
# Decompression

The inflate code of `gunzip.c`: the bits of the compressed file, the codes and the headers of the
blocks, and `inflate_window`, which fills the window with the next part of the contents.
-/

namespace GrubLegacy.Inflate

open Base Gunzip Loader Stage2

/-! ## Tables of the format -/

def bitorder : List Nat := [16, 17, 18, 0, 8, 7, 9, 6, 10, 5, 11, 4, 12, 3, 13, 2, 14, 1, 15]

/-- Copy lengths for literal codes 257..285. -/
def cplens : List Nat :=
  [3, 4, 5, 6, 7, 8, 9, 10, 11, 13, 15, 17, 19, 23, 27, 31, 35, 43, 51, 59, 67, 83, 99, 115, 131,
    163, 195, 227, 258, 0, 0]

/-- Extra bits for literal codes 257..285; 99 is invalid. -/
def cplext : List Nat :=
  [0, 0, 0, 0, 0, 0, 0, 0, 1, 1, 1, 1, 2, 2, 2, 2, 3, 3, 3, 3, 4, 4, 4, 4, 5, 5, 5, 5, 0, 99, 99]

/-- Copy offsets for distance codes 0..29. -/
def cpdist : List Nat :=
  [1, 2, 3, 4, 5, 7, 9, 13, 17, 25, 33, 49, 65, 97, 129, 193, 257, 385, 513, 769, 1025, 1537, 2049,
    3073, 4097, 6145, 8193, 12289, 16385, 24577]

/-- Extra bits for distance codes. -/
def cpdext : List Nat :=
  [0, 0, 0, 0, 1, 1, 2, 2, 3, 3, 4, 4, 5, 5, 6, 6, 7, 7, 8, 8, 9, 9, 10, 10, 11, 11, 12, 12, 13, 13]

def lbits : Nat := 9

def dbits : Nat := 6

/-- `mask_bits` -/
def maskBits : List Nat :=
  [0x0000, 0x0001, 0x0003, 0x0007, 0x000f, 0x001f, 0x003f, 0x007f, 0x00ff, 0x01ff, 0x03ff, 0x07ff,
    0x0fff, 0x1fff, 0x3fff, 0x7fff, 0xffff]

/-- INBUFSIZ -/
def inbufsiz : Nat := 0x2000

/-! ## The bits of the file -/

/-- What `get_byte` works on, and what is in memory behind `mask_bits`, where broken tables make the
code read. -/
structure Input where
  filepos : Int
  errnum : GrubError
  inbuf : Nat → UInt8
  bufloc : Nat
  behind : Nat → Nat

/-- The variables that `grub_read` looks at while the compressed file is read. -/
def Input.raw (file : OpenFile) (input : Input) : FileState where
  filepos := input.filepos
  filemax := file.filemax
  fsmax := file.fsmax
  compressedFile := false
  gzipDataOffset := 0
  gzipFilepos := 0
  gzipFilemax := 0
  gzipFsmax := 0
  savedFilepos := 0
  gzipCrc := 0
  slide := []
  calls := 0
  errnum := input.errnum

/-- The next part of the file is read into `inbuf`. -/
def Input.refill (file : OpenFile) (input : Input) : Input :=
  let read := readRaw file (input.raw file) inbufsiz
  { filepos := read.state.filepos
    errnum := read.state.errnum
    inbuf := fun n => if n < read.stored.length then read.stored.getD n 0 else input.inbuf n
    bufloc := 0
    behind := input.behind }

/-- The bit buffer `b`, with `k` bits in it. -/
structure BitBuffer where
  input : Input
  b : Nat
  k : Nat

/-- DUMPBITS -/
def BitBuffer.dump (n : Nat) (bits : BitBuffer) : BitBuffer :=
  { bits with b := bits.b >>> n, k := (bits.k + 2 ^ 32 - n) % 2 ^ 32 }

/-- `b & mask_bits[n]` -/
def BitBuffer.masked (n : Nat) (bits : BitBuffer) : Nat :=
  bits.b &&& maskBits.getD n (bits.input.behind n)

/-- The variables of the inflate code. A pointer to a table stands for the tables it was made with. -/
structure InflateState where
  input : Input
  bb : Nat
  bk : Nat
  slide : Nat → UInt8
  wp : Nat
  tl : Tables
  td : Tables
  bl : Nat
  bd : Nat
  blockType : Nat
  blockLen : Nat
  lastBlock : Nat
  codeState : Nat
  inflateN : Nat
  inflateD : Nat

/-- The global bit buffer. -/
def InflateState.bits (state : InflateState) : BitBuffer :=
  { input := state.input, b := state.bb, k := state.bk }

def InflateState.restore (bits : BitBuffer) (state : InflateState) : InflateState :=
  { state with input := bits.input, bb := bits.b, bk := bits.k }

/-- The data are bad. The file has been read up to here. -/
def InflateState.bad (input : Input) (state : InflateState) : InflateState :=
  { state with input := { input with errnum := .badGzipData } }

section Inflate

variable (file : OpenFile) (offset : Int)

/-- `get_byte` -/
def getByte (input : Input) : UInt8 × Input :=
  let input :=
    if input.filepos = offset ∨ input.bufloc = inbufsiz then input.refill file else input
  (input.inbuf input.bufloc, { input with bufloc := input.bufloc + 1 })

/-- The loop of NEEDBITS. -/
def needBits (n : Nat) : (fuel : Nat) → BitBuffer → BitBuffer
  | 0, bits => bits
  | fuel + 1, bits =>
    if bits.k < n then
      let byte := getByte file offset bits.input
      needBits n fuel
        { input := byte.2
          b := bits.b ||| byte.1.toNat <<< bits.k % 2 ^ 32
          k := bits.k + 8 }
    else bits

/-- NEEDBITS -/
def need (n : Nat) (bits : BitBuffer) : BitBuffer := needBits file offset n n bits

/-- NEEDBITS, what is in the bits, and DUMPBITS. -/
def grab (n : Nat) (bits : BitBuffer) : Nat × BitBuffer :=
  ((need file offset n bits).masked n, (need file offset n bits).dump n)

/-! ## The codes of a block -/

/-- An entry is looked up, through as many tables as there can be. There is none for an unused
code. -/
def findEntry (tables : Tables) : (fuel : Nat) → (table n : Nat) → BitBuffer →
    Except BitBuffer (Huft × BitBuffer)
  | 0, _, _, bits => .error bits
  | fuel + 1, table, n, bits =>
    let bits := need file offset n bits
    let t := tables table (bits.masked n)
    if 16 < t.e then
      if t.e = 99 then .error bits
      else findEntry tables fuel t.v (t.e - 16) (bits.dump t.b)
    else .ok (t, bits.dump t.b)

/-- The local variables of `inflate_codes_in_window`, and `slide` and `code_state`. -/
structure Locals where
  bits : BitBuffer
  slide : Nat → UInt8
  w : Nat
  n : Nat
  d : Nat
  codeState : Nat

/-- How a turn of its loop ends. -/
inductive Turn where
  | failed (locals : Locals)
  | left (locals : Locals) (blockEnds : Bool)
  | goesOn (locals : Locals)

variable (state : InflateState)

section Turns

-- Broken tables and damaged data can make the loops of the code run for ever.
variable (turns : Nat)

/-- The part of a turn that reads a code. -/
def readCode (locals : Locals) : Turn :=
  match findEntry file offset state.tl turns 0 state.bl locals.bits with
  | .error bits => .failed { locals with bits }
  | .ok (t, bits) =>
    if t.e = 16 then
      let locals :=
        { locals with
          bits := bits
          slide := Function.update locals.slide locals.w (UInt8.ofNat t.v)
          w := locals.w + 1 }
      if locals.w = wsize then .left locals false else .goesOn locals
    else if t.e = 15 then .left { locals with bits } true
    else
      let extra := grab file offset t.e bits
      let n := t.v + extra.1
      match findEntry file offset state.td turns 0 state.bd extra.2 with
      | .error bits => .failed { locals with bits, n }
      | .ok (t, bits) =>
        let extra := grab file offset t.e bits
        .goesOn
          { locals with
            bits := extra.2
            n := n
            d := (locals.w + 2 ^ 32 - t.v - extra.1) % 2 ^ 32
            codeState := locals.codeState + 1 }

/-- `memmove` inside of the window. -/
def moveBytes (slide : Nat → UInt8) (w d e : Nat) : Nat → UInt8 :=
  fun n => if w ≤ n ∧ n < w + e then slide (d + (n - w)) else slide n

/-- The overlap is used for extra copies. -/
def copyBytes (slide : Nat → UInt8) (w d : Nat) : (e : Nat) → Nat → UInt8
  | 0 => slide
  | e + 1 => copyBytes (Function.update slide w (slide d)) (w + 1) (d + 1) e

/-- The loop that does the copy. -/
def copyChunks : (fuel : Nat) → Locals → Locals
  | 0, locals => locals
  | fuel + 1, locals =>
    let d := locals.d &&& (wsize - 1)
    let e := min (wsize - max d locals.w) locals.n
    let locals :=
      { locals with
        slide :=
          if e ≤ (locals.w + 2 ^ 32 - d) % 2 ^ 32 then moveBytes locals.slide locals.w d e
          else copyBytes locals.slide locals.w d e
        w := locals.w + e
        d := d + e
        n := locals.n - e }
    if locals.w = wsize ∨ locals.n = 0 then locals else copyChunks fuel locals

/-- The part of a turn that copies. -/
def copyCode (locals : Locals) : Locals :=
  let locals := copyChunks (locals.n + 1) locals
  if locals.n = 0 then { locals with codeState := locals.codeState - 1 } else locals

/-- The loop of `inflate_codes_in_window`. -/
def runCodes : (fuel : Nat) → Locals → Turn
  | 0, locals => .left locals false
  | fuel + 1, locals =>
    match if locals.codeState = 0 then readCode file offset state turns locals else .goesOn locals with
    | .goesOn locals =>
      if locals.codeState = 0 then runCodes fuel locals
      else
        let locals := copyCode locals
        if locals.w = wsize then .left locals false else runCodes fuel locals
    | turn => turn

/-- `inflate_codes_in_window` -/
def inflateCodesInWindow : InflateState :=
  match runCodes file offset state turns turns
    { bits := state.bits
      slide := state.slide
      w := state.wp
      n := state.inflateN
      d := state.inflateD
      codeState := state.codeState } with
  | .failed locals =>
    { state with slide := locals.slide, codeState := locals.codeState }.bad locals.bits.input
  | .left locals ends =>
    { state.restore locals.bits with
      slide := locals.slide
      wp := locals.w
      codeState := locals.codeState
      inflateN := locals.n
      inflateD := locals.d
      blockLen := if ends then 0 else state.blockLen }
  | .goesOn _ => state

end Turns

/-! ## The headers of the blocks -/

variable (stale : Stale)

/-- `init_stored_block` -/
def initStoredBlock : InflateState :=
  let len := grab file offset 16 (state.bits.dump (state.bits.k % 8))
  let inverse := grab file offset 16 len.2
  let state := { state.restore inverse.2 with blockLen := len.1 }
  if len.1 = 0xffff - inverse.1 then state else state.bad inverse.2.input

/-- The tables of the codes of a block, where they can be used; what `huft_build` returns for them is
to be at most this. -/
def buildTables (bits : BitBuffer) (lit dist : List Nat) (literalBits distanceBits most : Nat) :
    InflateState :=
  let literals := huftBuild stale lit 257 cplens cplext literalBits
  if literals.returned ≠ 0 then (state.restore bits).bad bits.input
  else
    let distances := huftBuild stale dist 0 cpdist cpdext distanceBits
    if most < distances.returned then (state.restore bits).bad bits.input
    else
      { state.restore bits with
        tl := literals.t.getD stale.memory
        bl := literals.m
        td := distances.t.getD stale.memory
        bd := distances.m
        codeState := 0
        blockLen := state.blockLen + 1 }

/-- `init_fixed_block`, which makes an incomplete set of distance codes. -/
def initFixedBlock : InflateState :=
  buildTables state stale state.bits
    (List.replicate 144 8 ++ List.replicate 112 9 ++ List.replicate 24 7 ++ List.replicate 8 8)
    (List.replicate 30 5) 7 5 1

/-- The bit length code lengths, from the `j`th one on. -/
def readBitLengths : (count : Nat) → (j : Nat) → (ll : Nat → Nat) → BitBuffer →
    (Nat → Nat) × BitBuffer
  | 0, _, ll, bits => (ll, bits)
  | count + 1, j, ll, bits =>
    let length := grab file offset 3 bits
    readBitLengths count (j + 1) (Function.update ll (bitorder.getD j 0) length.1) length.2

/-- Literal and distance code lengths up to `n` of them, where `l` is the last one. -/
def readLengths (tl : Tables) (bl n : Nat) : (fuel : Nat) → (ll : List Nat) → (l : Nat) →
    BitBuffer → Except BitBuffer (List Nat × BitBuffer)
  | 0, ll, _, bits => .ok (ll, bits)
  | fuel + 1, ll, l, bits =>
    if ll.length < n then
      let bits := need file offset bl bits
      let td := tl 0 (bits.masked bl)
      let bits := bits.dump td.b
      if td.v < 16 then readLengths tl bl n fuel (ll ++ [td.v]) td.v bits
      else if td.v = 16 then
        let j := grab file offset 2 bits
        if n < ll.length + (3 + j.1) then .error j.2
        else readLengths tl bl n fuel (ll ++ List.replicate (3 + j.1) l) l j.2
      else if td.v = 17 then
        let j := grab file offset 3 bits
        if n < ll.length + (3 + j.1) then .error j.2
        else readLengths tl bl n fuel (ll ++ List.replicate (3 + j.1) 0) 0 j.2
      else
        let j := grab file offset 7 bits
        if n < ll.length + (11 + j.1) then .error j.2
        else readLengths tl bl n fuel (ll ++ List.replicate (11 + j.1) 0) 0 j.2
    else .ok (ll, bits)

/-- `init_dynamic_block` -/
def initDynamicBlock : InflateState :=
  let hlit := grab file offset 5 state.bits
  let hdist := grab file offset 5 hlit.2
  let hclen := grab file offset 4 hdist.2
  let nl := 257 + hlit.1
  let nd := 1 + hdist.1
  if 286 < nl ∨ 30 < nd then state.bad hclen.2.input
  else
    let lengths := readBitLengths file offset (4 + hclen.1) 0 (fun _ => 0) hclen.2
    let built := huftBuild stale ((List.range 19).map lengths.1) 19 [] [] 7
    if built.returned ≠ 0 then state.bad lengths.2.input
    else
      match readLengths file offset (built.t.getD stale.memory) built.m (nl + nd) (nl + nd + 1) [] 0
        lengths.2 with
      | .error bits => state.bad bits.input
      | .ok (ll, bits) => buildTables state stale bits (ll.take nl) (ll.drop nl) lbits dbits 0

/-- `get_new_block` -/
def getNewBlock : InflateState :=
  let last := grab file offset 1 state.bits
  let type := grab file offset 2 last.2
  let state := { state.restore type.2 with lastBlock := last.1, blockType := type.1 }
  if type.1 = 0 then initStoredBlock file offset state
  else if type.1 = 1 then initFixedBlock state stale
  else if type.1 = 2 then initDynamicBlock file offset state stale
  else state

/-! ## The window -/

/-- The pass-through of a stored block. -/
def passThrough : (fuel : Nat) → InflateState → InflateState
  | 0, state => state
  | fuel + 1, state =>
    if state.blockLen ≠ 0 ∧ state.wp < wsize ∧ state.input.errnum = .none then
      let byte := getByte file offset state.input
      passThrough fuel
        { state with
          input := byte.2
          slide := Function.update state.slide state.wp byte.1
          wp := state.wp + 1
          blockLen := state.blockLen - 1 }
    else state

section Turns

variable (turns : Nat)

/-- The main decompression loop, and whether it is not left by a return. -/
def inflateLoop : (fuel : Nat) → InflateState → InflateState × Bool
  | 0, state => (state, false)
  | fuel + 1, state =>
    if state.wp < wsize ∧ state.input.errnum = .none then
      if state.blockLen = 0 ∧ state.lastBlock ≠ 0 then (state, true)
      else
        let state := if state.blockLen = 0 then getNewBlock file offset state stale else state
        let state := if 2 < state.blockType then state.bad state.input else state
        if state.input.errnum ≠ .none then (state, false)
        else if state.blockType = 0 then inflateLoop fuel (passThrough file offset wsize state)
        else inflateLoop fuel (inflateCodesInWindow file offset state turns)
    else (state, true)

/-- `inflate_window`, with so many turns for each of its loops. -/
def callWindow : InflateState × Bool :=
  inflateLoop file offset stale turns turns { state with wp := 0 }

/-- `initialize_tables`, of what the inflate code uses. -/
def InflateState.initializeTables (offset : Int) (state : InflateState) : InflateState :=
  { state with
    input := { state.input with filepos := offset }
    bk := 0
    bb := 0
    lastBlock := 0
    blockLen := 0 }

/-- The state after a number of calls since `initialize_tables`, and how the last one has ended. There
is no error when it is called. -/
def afterCalls : (calls : Nat) → InflateState × Bool
  | 0 => (state.initializeTables offset, true)
  | calls + 1 =>
    let state := (afterCalls calls).1
    callWindow file offset { state with input := { state.input with errnum := .none } } stale turns

end Turns

end Inflate

/-- `inflate_window`, from whatever was left before. A stream has fewer blocks than bits, and its codes
fill the window in as many turns as it has bytes: the loops end with these turns, if the data are not
damaged. -/
def inflateWindow (state : InflateState) (stale : Stale) : InflateWindow :=
  fun file offset calls =>
    let turns := 8 * file.content.length + wsize + bmax + 2
    let result := afterCalls file offset state stale turns (calls + 1)
    { slide := (List.range wsize).map result.1.slide
      filepos := result.1.input.filepos
      errnum := result.1.input.errnum
      finished := result.2 }

end GrubLegacy.Inflate
