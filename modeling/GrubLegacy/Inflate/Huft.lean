import GrubLegacy.Base.BitReversal
import Mathlib.Logic.Function.Basic

/-!
# Decoding tables

`huft_build` of `gunzip.c`, which makes the tables for a Huffman code. A table has the entries for the
next bits of the input, and an entry for a longer code names another table for the bits after them.
-/

namespace GrubLegacy.Inflate

open Base

/-- `(uch)` -/
def uch (n : Nat) : Nat := n % 0x100

/-- `(ush)` -/
def ush (n : Nat) : Nat := n % 0x10000

/-- A byte is itself as an unsigned character, -/
@[simp] theorem uch_of_lt {n : Nat} (small : n < 0x100) : uch n = n := Nat.mod_eq_of_lt small

/-- and 16 bits as an unsigned short. -/
@[simp] theorem ush_of_lt {n : Nat} (small : n < 0x10000) : ush n = n := Nat.mod_eq_of_lt small

/-- `struct huft`, with the number of the next table for a pointer to it. -/
structure Huft where
  e : Nat
  b : Nat
  v : Nat
deriving DecidableEq, Repr

/-- The tables, in the order in which they are allocated. -/
abbrev Tables := Nat → Nat → Huft

def Tables.store (tables : Tables) (table : Nat) (slots : Nat → Huft) : Tables :=
  Function.update tables table slots

/-- BMAX -/
def bmax : Nat := 16

/-- What is in the memory for the tables and in the variable `v` before it is used. -/
structure Stale where
  memory : Tables
  stack : Nat → Nat

/-! ## The lengths -/

/-- Counts for each bit length. -/
def lengthCounts (b : List Nat) : Nat → Nat :=
  b.foldl (fun c length => Function.update c length (c length + 1)) fun _ => 0

/-- The minimum length, from `j` on. -/
def shortestFrom (c : Nat → Nat) : (fuel : Nat) → (j : Nat) → Nat
  | 0, j => j
  | fuel + 1, j => if c j ≠ 0 then j else shortestFrom c fuel (j + 1)

/-- The maximum length, up to `i`. -/
def longestUpTo (c : Nat → Nat) : (i : Nat) → Nat
  | 0 => 0
  | i + 1 => if c (i + 1) ≠ 0 then i + 1 else longestUpTo c i

/-- What is left of the patterns after the codes of the lengths from `j` on, unless there are more
codes than patterns. -/
def dummyCodes (c : Nat → Nat) : (steps : Nat) → (j y : Nat) → Option Nat
  | 0, j, y => if y < c j then none else some (y - c j)
  | steps + 1, j, y =>
    if y < c j then none else dummyCodes c steps (j + 1) (2 * (y - c j))

/-- The starting offset into the table of values for a length. -/
def valueOffset (c : Nat → Nat) : (length : Nat) → Nat
  | 0 => 0
  | 1 => 0
  | k + 2 => valueOffset c (k + 1) + c (k + 1)

/-- The table of values in order of bit lengths, where the lengths from value `i` on are put in. -/
def sortValues : (b : List Nat) → (i : Nat) → (x v : Nat → Nat) → Nat → Nat
  | [], _, _, v => v
  | j :: b, i, x, v =>
    if j ≠ 0 then
      sortValues b (i + 1) (Function.update x j (x j + 1)) (Function.update v (x j) i)
    else sortValues b (i + 1) x v

/-! ## The tables -/

/-- The variables that do not change while the tables are made. -/
structure CodeSet where
  c : Nat → Nat
  g : Nat
  l : Nat
  n : Nat
  s : Nat
  d : List Nat
  e : List Nat
  v : Nat → Nat

/-- The other ones. There is one level of tables more than `h`, so that `w + l` is `l * levels`. -/
structure Building where
  tables : Tables
  allocated : Nat
  levels : Nat
  u : Nat → Nat
  x : Nat → Nat
  q : Nat
  z : Nat
  r : Huft
  i : Nat
  p : Nat

/-- Smaller tables are tried, up to `z` bits. -/
def growBits (c : Nat → Nat) (z : Nat) : (fuel : Nat) → (f xp j : Nat) → Nat
  | 0, _, _, j => j
  | fuel + 1, f, xp, j =>
    if j + 1 < z then
      if 2 * f ≤ c (xp + 1) then j + 1
      else growBits c z fuel (2 * f - c (xp + 1)) (xp + 1) (j + 1)
    else j + 1

/-- The entry for a value, with the number of bits that are looked up for it. The callers' lists have
entries for all of their values. -/
def valueEntry (s : Nat) (d e : List Nat) (b value : Nat) : Huft :=
  if value < s then { e := if value < 256 then 16 else 15, b, v := ush value }
  else { e := uch (e.getD (value - s) 0), b, v := d.getD (value - s) 0 }

namespace CodeSet

variable (set : CodeSet)

/-- The bits of a table for codes of `k` bits, where `a` codes of this length are to follow. -/
def tableBits (w k a : Nat) : Nat :=
  let z := min (set.g - w) set.l
  let j := k - w
  if a + 1 < 2 ^ j then growBits set.c z (z + 1) (2 ^ j - (a + 1)) k j else j

/-- A new table is allocated, and connected to the last one if there is one. -/
def addTable (k a : Nat) (state : Building) : Building :=
  let w := set.l * state.levels
  let j := set.tableBits w k a
  let q := state.allocated
  let added :=
    { state with
      allocated := state.allocated + 1
      levels := state.levels + 1
      u := Function.update state.u state.levels q
      q := q
      z := 2 ^ j }
  if state.levels = 0 then added
  else
    let r : Huft := { e := uch (16 + j), b := uch set.l, v := q }
    let last := state.u (state.levels - 1)
    { added with
      x := Function.update state.x state.levels state.i
      r := r
      tables := state.tables.store last
        (Function.update (state.tables last) (state.i >>> (w - set.l)) r) }

/-- Tables are made up to the level for `k` bits. -/
def addTables (k a : Nat) : (fuel : Nat) → Building → Building
  | 0, state => state
  | fuel + 1, state =>
    if set.l * state.levels < k then addTables k a fuel (set.addTable k a state) else state

/-- The entry in `r`, and the next value. -/
def setEntry (k : Nat) (state : Building) : Building :=
  let b := uch (k - set.l * (state.levels - 1))
  if set.n ≤ state.p then { state with r := { state.r with e := 99, b } }
  else { state with r := valueEntry set.s set.d set.e b (set.v state.p), p := state.p + 1 }

/-- Every `f`th entry from `j` on is `r`. -/
def fillSlots (r : Huft) (f z : Nat) : (fuel : Nat) → (j : Nat) → (Nat → Huft) → Nat → Huft
  | 0, _, slots => slots
  | fuel + 1, j, slots =>
    if j < z then fillSlots r f z fuel (j + f) (Function.update slots j r) else slots

/-- The entry is put into the current table. -/
def fillTable (k : Nat) (state : Building) : Building :=
  let w := set.l * (state.levels - 1)
  { state with
    tables := state.tables.store state.q
      (fillSlots state.r (2 ^ (k - w)) state.z (state.z + 1) (state.i >>> w)
        (state.tables state.q)) }

/-- The levels that are left after backing up over the finished tables. -/
def backUp (x : Nat → Nat) (i : Nat) : (levels : Nat) → Nat
  | 0 => 0
  | h + 1 => if i &&& (2 ^ (set.l * h) - 1) ≠ x h then backUp x i h else h + 1

/-- The next code. -/
def nextCode (k : Nat) (state : Building) : Building :=
  let i := backwardsIncrement k state.i
  { state with i := i, levels := set.backUp state.x i state.levels }

/-- The entries for a code of `k` bits. -/
def placeCode (k a : Nat) (state : Building) : Building :=
  set.nextCode k (set.fillTable k (set.setEntry k (set.addTables k a k state)))

/-- The entries for the last `a` codes of `k` bits. -/
def placeCodes (k : Nat) : (a : Nat) → Building → Building
  | 0, state => state
  | a + 1, state => placeCodes k a (set.placeCode k a state)

/-- The entries for the codes of so many lengths, from `k` on. -/
def placeLengths : (lengths : Nat) → (k : Nat) → Building → Building
  | 0, _, state => state
  | lengths + 1, k, state => placeLengths lengths (k + 1) (set.placeCodes k (set.c k) state)

/-- Before the first code there are no tables, and the code and the value are the first ones. -/
def start (memory : Tables) : Building where
  tables := memory
  allocated := 0
  levels := 0
  u := fun _ => 0
  x := fun _ => 0
  q := 0
  z := 0
  r := { e := 0, b := 0, v := 0 }
  i := 0
  p := 0

end CodeSet

/-- What `huft_build` makes: the tables, of which the first one is table 0 unless there are none, the
bits for the first one, and what it returns. -/
structure HuftBuild where
  t : Option Tables
  m : Nat
  returned : Nat

/-- `huft_build` -/
def huftBuild (stale : Stale) (b : List Nat) (s : Nat) (d e : List Nat) (m : Nat) : HuftBuild :=
  let c := lengthCounts b
  let n := b.length
  if c 0 = n then { t := none, m := 0, returned := 0 }
  else
    let j := shortestFrom c bmax 1
    let g := longestUpTo c bmax
    let l := min (max m j) g
    match dummyCodes c (g - j) j (2 ^ j) with
    | none => { t := none, m := l, returned := 2 }
    | some y =>
      let set : CodeSet :=
        { c := Function.update c g (c g + y)
          g := g
          l := l
          n := n
          s := s
          d := d
          e := e
          v := sortValues b 0 (valueOffset (Function.update c g (c g + y))) stale.stack }
      { t := some (set.placeLengths (g + 1 - j) j (CodeSet.start stale.memory)).tables
        m := l
        returned := if y ≠ 0 ∧ g ≠ 1 then 1 else 0 }

end GrubLegacy.Inflate
