import GrubLegacy.Base.LittleEndian

/-!
# A flat 32-bit memory

Addresses wrap around at 2^32. A region is given by its first address and its
length, and an address lies in it if its distance from the first one is less than
the length, so a region may run over the end of the address space.
-/

namespace GrubLegacy.Base

abbrev Address := BitVec 32

abbrev Memory := Address → UInt8

/-- The addresses of `length` bytes from `start` on. -/
def InRegion (start : Address) (length : Nat) (address : Address) : Prop :=
  (address - start).toNat < length

instance (start : Address) (length : Nat) (address : Address) :
    Decidable (InRegion start length address) :=
  inferInstanceAs (Decidable (_ < _))

/-- An address of a region lies in longer ones. -/
theorem InRegion.mono {start : Address} {length length' : Nat} {address : Address}
    (inside : InRegion start length address) (longer : length ≤ length') :
    InRegion start length' address :=
  Nat.lt_of_lt_of_le inside longer

/-- Put bytes into memory, the first of them at `start`. -/
def store (memory : Memory) (start : Address) (bytes : List UInt8) : Memory := fun address =>
  bytes.getD (address - start).toNat (memory address)

/-- The little-endian 32-bit word at an address. -/
def loadWord (memory : Memory) (address : Address) : Nat :=
  Area.word32 (fun i => memory (address + BitVec.ofNat 32 i)) 0

/-- A word is below 2^32. -/
theorem loadWord_lt (memory : Memory) (address : Address) : loadWord memory address < 2 ^ 32 :=
  Area.word32_lt _ _

/-- No bytes change nothing. -/
@[simp]
theorem store_nil (memory : Memory) (start : Address) : store memory start [] = memory := rfl

/-- Outside of its region a store changes nothing. -/
theorem store_outside {memory : Memory} {start address : Address} {bytes : List UInt8}
    (outside : ¬ InRegion start bytes.length address) :
    store memory start bytes address = memory address := by
  rw [store, List.getD_eq_default _ _ (Nat.le_of_not_lt outside)]

/-- The byte stored at a given distance. -/
theorem store_add {memory : Memory} {start : Address} {bytes : List UInt8} {distance : Nat}
    (inside : distance < bytes.length) (small : distance < 2 ^ 32) :
    store memory start bytes (start + BitVec.ofNat 32 distance) =
      bytes.get ⟨distance, inside⟩ := by
  have value : (start + BitVec.ofNat 32 distance - start).toNat = distance := by
    rw [BitVec.add_comm, BitVec.add_sub_cancel, BitVec.toNat_ofNat]
    omega
  rw [store, value, List.getD_eq_getElem _ _ inside]
  rfl

/-- The address at a given distance from the start of a region. -/
theorem inRegion_add {start : Address} {length distance : Nat} (inside : distance < length)
    (small : distance < 2 ^ 32) : InRegion start length (start + BitVec.ofNat 32 distance) := by
  have value : (start + BitVec.ofNat 32 distance - start).toNat = distance := by
    rw [BitVec.add_comm, BitVec.add_sub_cancel, BitVec.toNat_ofNat]
    omega
  rw [InRegion, value]
  exact inside

/-- Words that agree byte by byte are equal. -/
theorem loadWord_congr {memory memory' : Memory} {address address' : Address}
    (same : ∀ i < 4, memory' (address' + BitVec.ofNat 32 i) =
      memory (address + BitVec.ofNat 32 i)) :
    loadWord memory' address' = loadWord memory address := by
  apply word32_congr
  intro i inside
  rw [Nat.zero_add]
  exact same i inside

/-- A region keeps away from the bytes before it exactly when it starts past them
and does not run over the end of the address space into them. -/
theorem avoids_iff {base : Address} {first length distance : Nat} (nonempty : 0 < first)
    (some_ : 0 < length) (small : distance < 2 ^ 32) :
    (∀ address, InRegion (base + BitVec.ofNat 32 distance) length address →
        ¬ InRegion base first address) ↔
      first ≤ distance ∧ distance + length ≤ 2 ^ 32 := by
  constructor
  · intro avoids
    constructor
    · by_contra inside
      refine avoids (base + BitVec.ofNat 32 distance) ?_ (inRegion_add (by omega) small)
      rw [InRegion, BitVec.sub_self]
      exact some_
    · by_contra wraps
      refine avoids base ?_ (by rw [InRegion, BitVec.sub_self]; exact nonempty)
      rw [InRegion]
      bv_omega
  · rintro ⟨past, fits⟩ address inside low
    rw [InRegion] at inside low
    bv_omega

/-- A region keeps within the bytes from `base` on exactly when it ends among them. -/
theorem within_iff {base : Address} {total length distance : Nat} (some_ : 0 < length)
    (small : distance < 2 ^ 32) (room : total < 2 ^ 32) :
    (∀ address, InRegion (base + BitVec.ofNat 32 distance) length address →
        InRegion base total address) ↔
      distance + length ≤ total := by
  constructor
  · intro within
    have first := within (base + BitVec.ofNat 32 distance) (by
      rw [InRegion, BitVec.sub_self]
      exact some_)
    have start : distance < total := by
      rw [InRegion] at first
      bv_omega
    by_contra past
    have last := within (base + BitVec.ofNat 32 distance + BitVec.ofNat 32 (total - distance))
      (inRegion_add (by omega) (by omega))
    rw [InRegion] at last
    bv_omega
  · intro fits address inside
    rw [InRegion] at inside ⊢
    bv_omega

/-- The same for any number of bytes from `base` on: it may be the whole memory. -/
theorem covered_iff {base : Address} {total length distance : Nat} (some_ : 0 < length)
    (small : distance < 2 ^ 32) :
    (∀ address, InRegion (base + BitVec.ofNat 32 distance) length address →
        InRegion base total address) ↔
      min (distance + length) (2 ^ 32) ≤ total := by
  rcases Nat.lt_or_ge total (2 ^ 32) with room | all
  · rw [within_iff some_ small room]
    omega
  · constructor
    · intro _
      omega
    · intro _ address _
      rw [InRegion]
      omega

/-- Two regions of one start are the longer one of them. -/
theorem inRegion_max {start : Address} {length length' : Nat} {address : Address} :
    InRegion start length address ∨ InRegion start length' address ↔
      InRegion start (max length length') address := by
  rw [InRegion, InRegion, InRegion]
  omega

end GrubLegacy.Base
