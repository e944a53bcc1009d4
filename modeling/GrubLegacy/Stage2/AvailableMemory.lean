import GrubLegacy.Base.Coverage

/-!
# Contiguous memory

`mmap_avail_at` of `common.c` raises an address to the end of a record that it lies in, as
long as there is one. The end is a 64-bit sum. A record that ends at the top of the address
space or behind it has a sum that wraps around, and is never taken.
-/

namespace GrubLegacy.Stage2

open Base

/-! ## The function -/

/-- `struct AddrRangeDesc`, without its size. -/
structure AddrRangeDesc where
  baseAddr : UInt64
  length : UInt64
  type : UInt32
deriving DecidableEq, Repr

/-- MB_ARD_MEMORY -/
def mbArdMemory : UInt32 := 1

/-- The end of a record, as the function computes it. -/
def AddrRangeDesc.last (desc : AddrRangeDesc) : Nat := (desc.baseAddr + desc.length).toNat

/-- The body of the sweep, with `top` and `cont`. -/
def availStep (state : Nat × Nat) (desc : AddrRangeDesc) : Nat × Nat :=
  if desc.type = mbArdMemory ∧ desc.baseAddr.toNat ≤ state.1 ∧ desc.last > state.1 then
    (desc.last, state.2 + 1)
  else state

/-- The outer loop, for a number of rounds. -/
def availLoop (map : List AddrRangeDesc) : (rounds : Nat) → (top : Nat) → Option Nat
  | 0, _ => none
  | rounds + 1, top =>
    let state := map.foldl availStep (top, 0)
    if state.2 ≠ 0 then availLoop map rounds state.1 else some state.1

/-- `mmap_avail_at`, with an `unsigned long` of so many bits. -/
def mmapAvailAt (bits : Nat) (map : List AddrRangeDesc) (bottom rounds : Nat) : Option Nat :=
  (availLoop map rounds bottom).map fun (top : Nat) =>
    let top : Nat := if top > 0xFFFFFFFF then 0xFFFFFFFF else top
    (((top : Int) - bottom) % 2 ^ bits).toNat

/-! ## The records as spans -/

/-- The addresses of a record. -/
def AddrRangeDesc.span (desc : AddrRangeDesc) : Span Nat :=
  ⟨desc.baseAddr.toNat, desc.baseAddr.toNat + desc.length.toNat⟩

/-- The addresses up to the end that is computed. -/
def AddrRangeDesc.takenSpan (desc : AddrRangeDesc) : Span Nat := ⟨desc.baseAddr.toNat, desc.last⟩

/-- The record ends at the top of the address space, or behind it. -/
def AddrRangeDesc.Wraps (desc : AddrRangeDesc) : Prop :=
  2 ^ 64 ≤ desc.baseAddr.toNat + desc.length.toNat

instance (desc : AddrRangeDesc) : Decidable desc.Wraps := inferInstanceAs (Decidable (_ ≤ _))

def ramRecords (map : List AddrRangeDesc) : List AddrRangeDesc :=
  map.filter fun desc => desc.type = mbArdMemory

/-- The records of memory. -/
def ramSpans (map : List AddrRangeDesc) : List (Span Nat) :=
  (ramRecords map).map AddrRangeDesc.span

def takenSpans (map : List AddrRangeDesc) : List (Span Nat) :=
  (ramRecords map).map AddrRangeDesc.takenSpan

/-- The records of memory that do not wrap. -/
def plainSpans (map : List AddrRangeDesc) : List (Span Nat) :=
  ((ramRecords map).filter fun desc => ¬ desc.Wraps).map AddrRangeDesc.span

section Spans

variable {map : List AddrRangeDesc} {desc : AddrRangeDesc} {a : Nat}

/-- A record that wraps ends before it starts, -/
theorem last_of_wraps (wraps : desc.Wraps) : desc.last < desc.baseAddr.toNat := by
  have base := desc.baseAddr.toNat_lt
  have length := desc.length.toNat_lt
  rw [AddrRangeDesc.Wraps] at wraps
  rw [AddrRangeDesc.last, UInt64.toNat_add]
  omega

/-- and any other one where it should. -/
theorem last_of_plain (plain : ¬ desc.Wraps) :
    desc.last = desc.baseAddr.toNat + desc.length.toNat := by
  rw [AddrRangeDesc.Wraps] at plain
  rw [AddrRangeDesc.last, UInt64.toNat_add, Nat.mod_eq_of_lt (by omega)]

/-- A record that wraps is never taken. -/
theorem has_takenSpan : desc.takenSpan.Has a ↔ ¬ desc.Wraps ∧ desc.span.Has a := by
  by_cases wraps : desc.Wraps
  · have early := last_of_wraps wraps
    refine iff_of_false ?_ (fun both => both.1 wraps)
    rintro ⟨low, high⟩
    simp only [AddrRangeDesc.takenSpan] at low high
    omega
  · have plain := last_of_plain wraps
    simp only [Span.Has, AddrRangeDesc.takenSpan, AddrRangeDesc.span, plain, wraps,
      not_false_eq_true, true_and]

/-- An address lies in a record of memory. -/
theorem covers_ramSpans :
    Covers (ramSpans map) a ↔ ∃ desc ∈ map, desc.type = mbArdMemory ∧ desc.span.Has a := by
  simp [Covers, ramSpans, ramRecords, and_assoc]

/-- The plain spans cover an address in a record of memory that does not wrap. -/
theorem covers_plainSpans : Covers (plainSpans map) a ↔
    ∃ desc ∈ map, desc.type = mbArdMemory ∧ ¬ desc.Wraps ∧ desc.span.Has a := by
  simp [Covers, plainSpans, ramRecords, and_assoc, and_left_comm]

/-- The records that the loop takes cover as much, -/
theorem covers_takenSpans : Covers (takenSpans map) a ↔ Covers (plainSpans map) a := by
  rw [covers_plainSpans]
  simp [Covers, takenSpans, ramRecords, and_assoc, has_takenSpan]

/-- so they cover the same ranges. -/
theorem coveredTo_takenSpans {bottom top : Nat} :
    CoveredTo (takenSpans map) bottom top ↔ CoveredTo (plainSpans map) bottom top := by
  constructor
  · rintro ⟨behind, inside⟩
    exact ⟨behind, fun a low high => covers_takenSpans.mp (inside a low high)⟩
  · rintro ⟨behind, inside⟩
    exact ⟨behind, fun a low high => covers_takenSpans.mpr (inside a low high)⟩

end Spans

/-! ## The loop -/

section Loop

variable {map : List AddrRangeDesc} {desc : AddrRangeDesc} {top cont bottom : Nat}

/-- A step goes on at the end of a record that has the top. -/
theorem availStep_eq : availStep (top, cont) desc =
    if desc.type = mbArdMemory ∧ desc.takenSpan.Has top then (desc.last, cont + 1)
    else (top, cont) := rfl

/-- The inner loop is a sweep, and counts what changed. -/
theorem foldl_availStep (map : List AddrRangeDesc) (top cont : Nat) :
    (map.foldl availStep (top, cont)).1 = sweep (takenSpans map) top ∧
      cont ≤ (map.foldl availStep (top, cont)).2 ∧
        ((map.foldl availStep (top, cont)).2 = cont ↔ sweep (takenSpans map) top = top) := by
  induction map generalizing top cont with
  | nil => exact ⟨rfl, le_rfl, by simp [sweep, takenSpans, ramRecords]⟩
  | cons desc map ih =>
      rw [List.foldl_cons, availStep_eq]
      by_cases isRam : desc.type = mbArdMemory
      · have spans : takenSpans (desc :: map) = desc.takenSpan :: takenSpans map := by
          simp [takenSpans, ramRecords, isRam]
        have unfolded : sweep (takenSpans (desc :: map)) top =
            sweep (takenSpans map) (raise top desc.takenSpan) := by
          rw [spans]
          rfl
        rw [unfolded]
        by_cases has : desc.takenSpan.Has top
        · have raised : raise top desc.takenSpan = desc.last := if_pos has
          rw [if_pos ⟨isRam, has⟩, raised]
          obtain ⟨same, grows, _⟩ := ih desc.last (cont + 1)
          have further := le_sweep (takenSpans map) desc.last
          have higher : top < desc.last := has.2
          refine ⟨same, by omega, ?_⟩
          constructor
          · omega
          · omega
        · have same : raise top desc.takenSpan = top := if_neg has
          rw [if_neg (fun both => has both.2), same]
          exact ih top cont
      · have spans : takenSpans (desc :: map) = takenSpans map := by
          simp [takenSpans, ramRecords, isRam]
        rw [if_neg (fun both => isRam both.1), spans]
        exact ih top cont

/-- The loop reaches as far as the spans do. -/
theorem availLoop_eq (map : List AddrRangeDesc) (rounds top : Nat) :
    availLoop map rounds top = reach (takenSpans map) rounds top := by
  induction rounds generalizing top with
  | zero => rfl
  | succ rounds ih =>
      obtain ⟨swept, _, counted⟩ := foldl_availStep map top 0
      rw [availLoop, reach]
      by_cases fixed : sweep (takenSpans map) top = top
      · rw [if_pos fixed, if_neg (not_not_intro (counted.mpr fixed)), swept, fixed]
      · rw [if_neg fixed, if_pos (mt counted.mp fixed), swept]
        exact ih _

/-- The loop ends, and at the end of what the records that do not wrap cover. -/
theorem exists_availLoop (map : List AddrRangeDesc) (bottom : Nat) :
    ∃ rounds top, availLoop map rounds bottom = some top := by
  obtain ⟨top, reached⟩ :=
    exists_reach (Nat.lt_succ_self (endsAbove (takenSpans map) bottom))
  exact ⟨_, top, (availLoop_eq map _ bottom).trans reached⟩

/-- Where it ends is the greatest address covered from the bottom. -/
theorem isGreatest_availLoop {rounds : Nat} (ends : availLoop map rounds bottom = some top) :
    IsGreatest {t | CoveredTo (plainSpans map) bottom t} top := by
  rw [availLoop_eq] at ends
  have greatest := isGreatest_reach (coveredTo_self _ bottom) ends
  simpa only [coveredTo_takenSpans] using greatest

end Loop

/-! ## The memory there is -/

/-- The function ends, and gives the memory from `bottom` to the greatest address, below 2^32,
up to which all addresses are in records of memory. -/
def MeasuresMemory (bits : Nat) (map : List AddrRangeDesc) (bottom : Nat) : Prop :=
  ∃ rounds value, mmapAvailAt bits map bottom rounds = some value ∧
    ∃ t, IsGreatest {t | CoveredTo (ramSpans map) bottom t} t ∧
      value = (((min t 0xFFFFFFFF : Nat) - (bottom : Int)) % 2 ^ bits).toNat

/-- No record that wraps begins in the memory that the others cover, below 2^32. -/
def NoWrapInside (map : List AddrRangeDesc) (bottom : Nat) : Prop :=
  ∀ t, IsGreatest {t | CoveredTo (plainSpans map) bottom t} t →
    0xFFFFFFFF ≤ t ∨ ∀ desc ∈ map, desc.type = mbArdMemory → desc.Wraps → t < desc.baseAddr.toNat

section Claims

variable {bits bottom t : Nat} {map : List AddrRangeDesc}

/-- What the plain spans cover is memory. -/
theorem CoveredTo.of_plain (covered : CoveredTo (plainSpans map) bottom t) :
    CoveredTo (ramSpans map) bottom t := by
  refine ⟨covered.behind, ?_⟩
  intro a low high
  obtain ⟨desc, member, isRam, _, has⟩ := covers_plainSpans.mp (covered.inside a low high)
  exact covers_ramSpans.mpr ⟨desc, member, isRam, has⟩

/-- Without a record that wraps there nothing more is covered. -/
theorem isGreatest_of_noWrap (greatest : IsGreatest {t | CoveredTo (plainSpans map) bottom t} t)
    (apart : ∀ desc ∈ map, desc.type = mbArdMemory → desc.Wraps → t < desc.baseAddr.toNat) :
    IsGreatest {t | CoveredTo (ramSpans map) bottom t} t := by
  apply (CoveredTo.of_plain greatest.1).isGreatest
  intro covers
  obtain ⟨desc, member, isRam, has⟩ := covers_ramSpans.mp covers
  have plain : ¬ desc.Wraps := by
    intro wraps
    have behind := apart desc member isRam wraps
    have low : desc.baseAddr.toNat ≤ t := has.1
    omega
  have more : CoveredTo (plainSpans map) bottom (t + 1) := by
    refine ⟨greatest.1.behind.trans (Nat.le_succ t), ?_⟩
    intro a low high
    rcases Nat.lt_succ_iff_lt_or_eq.mp high with before | rfl
    · exact greatest.1.inside a low before
    · exact covers_plainSpans.mpr ⟨desc, member, isRam, plain, has⟩
  have bound := greatest.2 more
  omega

/-- With one, all addresses are covered from there on. -/
theorem coveredTo_of_wraps (greatest : IsGreatest {t | CoveredTo (plainSpans map) bottom t} t)
    {desc : AddrRangeDesc} (member : desc ∈ map) (isRam : desc.type = mbArdMemory)
    (wraps : desc.Wraps) (begins : desc.baseAddr.toNat ≤ t) (low : t < 2 ^ 64) :
    CoveredTo (ramSpans map) bottom (2 ^ 64) := by
  refine ⟨greatest.1.behind.trans low.le, ?_⟩
  intro a behind inside
  by_cases before : a < t
  · exact (CoveredTo.of_plain greatest.1).inside a behind before
  · refine covers_ramSpans.mpr ⟨desc, member, isRam, ?_, ?_⟩
    · exact begins.trans (not_lt.mp before)
    · exact inside.trans_le wraps

/-- A difference of 32-bit numbers is known from its value in an `unsigned long`. -/
theorem difference_inj (isWidth : bits = 32 ∨ bits = 64) {x y : Nat} (x_le : x ≤ 0xFFFFFFFF)
    (y_le : y ≤ 0xFFFFFFFF)
    (same : (((x : Int) - bottom) % 2 ^ bits).toNat = (((y : Int) - bottom) % 2 ^ bits).toNat) :
    x = y := by
  rcases isWidth with rfl | rfl
  · omega
  · omega

/-- What the function gives is known from what the records that do not wrap cover. -/
theorem mmapAvailAt_value {rounds value : Nat}
    (greatest : IsGreatest {t | CoveredTo (plainSpans map) bottom t} t)
    (ends : mmapAvailAt bits map bottom rounds = some value) :
    value = (((min t 0xFFFFFFFF : Nat) - (bottom : Int)) % 2 ^ bits).toNat := by
  rw [mmapAvailAt] at ends
  obtain ⟨top, looped, rfl⟩ := Option.map_eq_some_iff.mp ends
  obtain rfl := (isGreatest_availLoop looped).unique greatest
  dsimp only
  split
  · next high => rw [Nat.min_eq_right high.le]
  · next low => rw [Nat.min_eq_left (not_lt.mp low)]

/-- If the right size is measured no record wraps inside it. -/
theorem noWrapInside_of_measures (isWidth : bits = 32 ∨ bits = 64)
    (measures : MeasuresMemory bits map bottom) : NoWrapInside map bottom := by
  obtain ⟨rounds, value, ends, t, greatest, isValue⟩ := measures
  intro plain isPlain
  by_contra wrong
  obtain ⟨low, apart⟩ := not_or.mp wrong
  push Not at apart
  obtain ⟨desc, member, isRam, wraps, begins⟩ := apart
  have high := greatest.2 (coveredTo_of_wraps isPlain member isRam wraps begins (by omega))
  rw [mmapAvailAt_value isPlain ends] at isValue
  have same := difference_inj isWidth (Nat.min_le_right _ _) (Nat.min_le_right _ _) isValue
  omega

/-- The measured memory is right exactly if no record that wraps begins in it. -/
theorem measuresMemory_iff (isWidth : bits = 32 ∨ bits = 64) (map : List AddrRangeDesc)
    (bottom : Nat) : MeasuresMemory bits map bottom ↔ NoWrapInside map bottom := by
  constructor
  · exact noWrapInside_of_measures isWidth
  · intro noWrap
    obtain ⟨rounds, top, looped⟩ := exists_availLoop map bottom
    have isPlain := isGreatest_availLoop looped
    obtain ⟨t, greatest⟩ := exists_isGreatest (ramSpans map) bottom
    obtain ⟨value, ends⟩ : ∃ value, mmapAvailAt bits map bottom rounds = some value := by
      rw [mmapAvailAt, looped]
      exact ⟨_, rfl⟩
    refine ⟨rounds, value, ends, t, greatest, ?_⟩
    rw [mmapAvailAt_value isPlain ends]
    rcases noWrap top isPlain with high | apart
    · have further : top ≤ t := greatest.2 (CoveredTo.of_plain isPlain.1)
      rw [Nat.min_eq_right high, Nat.min_eq_right (high.trans further)]
    · rw [(isGreatest_of_noWrap isPlain apart).unique greatest]

/-- A map with the memory from one megabyte to two, and a hole behind it. -/
theorem measuresMemory_megabyte :
    MeasuresMemory 64 [⟨0x100000, 0x100000, 1⟩, ⟨0x300000, 0x100000, 1⟩] 0x100000 := by
  refine (measuresMemory_iff (.inr rfl) _ _).mpr ?_
  intro t _
  right
  intro desc member _ wraps
  exfalso
  revert wraps
  rcases List.mem_pair.mp member with rfl | rfl
  · decide
  · decide

/-- A record up to the top of the address space is missed. -/
theorem topRecord_missed :
    ¬ ∀ (map : List AddrRangeDesc) (bottom : Nat), MeasuresMemory 64 map bottom := by
  intro measures
  have none : plainSpans [⟨0x100000, 0xFFFFFFFFFFF00000, 1⟩] = [] := by decide
  have bottomOnly : IsGreatest {t | CoveredTo (plainSpans [⟨0x100000, 0xFFFFFFFFFFF00000, 1⟩])
      0x100000 t} 0x100000 := by
    rw [none]
    exact (coveredTo_self [] 0x100000).isGreatest (by simp [Covers])
  have wrong := noWrapInside_of_measures (.inr rfl)
    (measures [⟨0x100000, 0xFFFFFFFFFFF00000, 1⟩] 0x100000) _ bottomOnly
  rcases wrong with high | apart
  · exact absurd high (by decide)
  · exact absurd (apart _ List.mem_cons_self rfl (by decide)) (by decide)

end Claims

end GrubLegacy.Stage2
