import GrubLegacy.Inflate.HuftBuild
import GrubLegacy.Inflate.InflateWindow
import GrubLegacy.Inflate.Rfc1951

/-!
# The bits that are read

What the macros of the bit buffer and the lookups in the tables give, in terms of the bits of the
bytes that `get_byte` returns one after the other.
-/

namespace GrubLegacy.Inflate

open Base Gunzip Loader Stage2 Rfc1951

/-! ## The bits of the input -/

section Stream

variable (file : OpenFile) (offset : Int) (start : Input)

/-- The input after so many calls of `get_byte`. -/
def inputAfter : Nat → Input
  | 0 => start
  | n + 1 => (getByte file offset (inputAfter n)).2

/-- What the next call returns. -/
def byteAt (n : Nat) : UInt8 := (getByte file offset (inputAfter file offset start n)).1

def bitAt (p : Nat) : Nat := (byteAt file offset start (p / 8)).toNat / 2 ^ (p % 8) % 2

/-- The number in `n` bits, lowest first. -/
def field (p : Nat) : (n : Nat) → Nat
  | 0 => 0
  | n + 1 => field p n + 2 ^ n * bitAt file offset start (p + n)

/-- The bits from `p` on begin with these. -/
def Reads : (p : Nat) → List Bool → Prop
  | _, [] => True
  | p, bit :: bits => bitAt file offset start p = bit.toNat ∧ Reads (p + 1) bits

end Stream

variable {file : OpenFile} {offset : Int} {start : Input}

/-- A field is a number of its bits. -/
theorem field_lt (p n : Nat) : field file offset start p n < 2 ^ n := by
  induction n with
  | zero => simp [field]
  | succ n ih =>
      have bit : bitAt file offset start (p + n) < 2 := Nat.mod_lt _ (by decide)
      have most : 2 ^ n * bitAt file offset start (p + n) ≤ 2 ^ n * 1 :=
        Nat.mul_le_mul_left _ (Nat.le_of_lt_succ bit)
      rw [field, Nat.pow_succ]
      omega

/-- A field is made of two behind each other. -/
theorem field_add (p m n : Nat) :
    field file offset start p (m + n) =
      field file offset start p m + 2 ^ m * field file offset start (p + m) n := by
  induction n with
  | zero => simp [field]
  | succ n ih =>
      rw [← Nat.add_assoc, field, field, ih, Nat.pow_add, Nat.add_assoc p]
      ring

/-- The lower bits of a field are the shorter field, -/
@[simp] theorem field_mod {m n : Nat} (le : m ≤ n) (p : Nat) :
    field file offset start p n % 2 ^ m = field file offset start p m := by
  obtain ⟨rest, rfl⟩ := Nat.exists_eq_add_of_le le
  rw [field_add, Nat.add_mul_mod_self_left, Nat.mod_eq_of_lt (field_lt p m)]

/-- and the upper ones that behind it. -/
theorem field_div {m n : Nat} (le : m ≤ n) (p : Nat) :
    field file offset start p n / 2 ^ m = field file offset start (p + m) (n - m) := by
  obtain ⟨rest, rfl⟩ := Nat.exists_eq_add_of_le le
  rw [field_add, Nat.add_mul_div_left _ _ (Nat.two_pow_pos m), Nat.div_eq_of_lt (field_lt p m),
    Nat.zero_add, Nat.add_sub_cancel_left]

/-- Eight bits from the start of a byte. -/
theorem field_byte (n : Nat) :
    field file offset start (8 * n) 8 = (byteAt file offset start n).toNat := by
  have low : ∀ m ≤ 8, field file offset start (8 * n) m = (byteAt file offset start n).toNat % 2 ^ m := by
    intro m le
    induction m with
    | zero => simp [field, Nat.mod_one]
    | succ m ih =>
        have inByte : (8 * n + m) / 8 = n := by omega
        have place : (8 * n + m) % 8 = m := by omega
        rw [field, ih (by omega), bitAt, inByte, place, Nat.mod_pow_succ]
  rw [low 8 (Nat.le_refl 8), Nat.mod_eq_of_lt (byteAt file offset start n).toNat_lt]

/-- Two sequences are read one behind the other. -/
theorem reads_append {p : Nat} {front bits : List Bool} :
    Reads file offset start p (front ++ bits) ↔
      Reads file offset start p front ∧ Reads file offset start (p + front.length) bits := by
  induction front generalizing p with
  | nil => simp [Reads]
  | cons bit front ih =>
      have next : p + 1 + front.length = p + (front.length + 1) := by omega
      simp [Reads, ih, and_assoc, next]

/-- What is read as bits is their number. -/
theorem Reads.field {p : Nat} {bits : List Bool} (reads : Reads file offset start p bits) :
    field file offset start p bits.length = ofBits bits := by
  induction bits generalizing p with
  | nil => rfl
  | cons bit bits ih =>
      obtain ⟨first, rest⟩ := reads
      rw [List.length_cons, Nat.add_comm, field_add, ih rest, ofBits]
      simp [Inflate.field, first]

/-- In the reverse order they are the ones of a code. -/
theorem Reads.reversed {p n : Nat} {bits : List Bool} (reads : Reads file offset start p bits)
    (enough : bits.length ≤ n) :
    reversed bits.length (Inflate.field file offset start p n) = ofCode bits := by
  rw [← reversed_mod enough, field_mod (Nat.le_refl n)]
  induction bits using List.reverseRecOn with
  | nil => rfl
  | append_singleton bits bit ih =>
      obtain ⟨front, last⟩ := reads_append.mp reads
      rw [List.length_append, List.length_singleton] at enough ⊢
      have high : Inflate.field file offset start p n / 2 ^ bits.length % 2 = bit.toNat := by
        rw [field_div (by omega), ← Nat.pow_one 2, field_mod (by omega)]
        simp [Inflate.field, last.1]
      rw [Base.reversed, ih front (by omega), high]
      simp [ofCode]

/-! ## The bit buffer -/

/-- The bit buffer holds the bits from `p` on, up to a byte that has not been read. -/
structure BitsAt (file : OpenFile) (offset : Int) (start : Input) (bits : BitBuffer) (p : Nat) :
    Prop where
  aligned : 8 ∣ p + bits.k
  input : bits.input = inputAfter file offset start ((p + bits.k) / 8)
  b : bits.b = Inflate.field file offset start p bits.k
  short : bits.k ≤ 24

namespace BitsAt

variable {bits : BitBuffer} {p n : Nat}

/-- The loop fills the bit buffer up, and leaves it in its place. -/
theorem needBits {fuel : Nat} (at_ : BitsAt file offset start bits p) (few : n ≤ bmax)
    (enough : n ≤ bits.k + 8 * fuel) :
    BitsAt file offset start (needBits file offset n fuel bits) p ∧
      n ≤ (Inflate.needBits file offset n fuel bits).k ∧
      (Inflate.needBits file offset n fuel bits).k ≤ max bits.k (n + 7) := by
  simp only [bmax] at few
  induction fuel generalizing bits with
  | zero => exact ⟨at_, enough, Nat.le_max_left _ _⟩
  | succ fuel ih =>
      rw [Inflate.needBits]
      by_cases more : bits.k < n
      · obtain ⟨aligned, input, b, -⟩ := at_
        obtain ⟨count, isCount⟩ := aligned
        have number : (p + bits.k) / 8 = count := by omega
        have next : (p + (bits.k + 8)) / 8 = count + 1 := by omega
        rw [number] at input
        have byte : (getByte file offset bits.input).1.toNat =
            Inflate.field file offset start (p + bits.k) 8 := by
          rw [isCount, field_byte, byteAt, ← input]
        have small : (getByte file offset bits.input).1.toNat <<< bits.k < 2 ^ 32 := by
          rw [Nat.shiftLeft_eq]
          calc (getByte file offset bits.input).1.toNat * 2 ^ bits.k
              < 2 ^ 8 * 2 ^ bits.k :=
                Nat.mul_lt_mul_of_pos_right (UInt8.toNat_lt _) (Nat.two_pow_pos _)
            _ ≤ 2 ^ 8 * 2 ^ 16 :=
                Nat.mul_le_mul_left _ (Nat.pow_le_pow_right (by decide) (by omega))
            _ ≤ 2 ^ 32 := by decide
        rw [if_pos more]
        refine (@ih _ ⟨?_, ?_, ?_, ?_⟩ ?_).imp_right (And.imp_right fun most => most.trans ?_)
        · exact ⟨count + 1, by simp only; omega⟩
        · simp only [next, inputAfter, input]
        · dsimp only
          rw [Nat.mod_eq_of_lt small, b, Nat.shiftLeft_eq, byte, Nat.or_comm, Nat.mul_comm,
            ← Nat.two_pow_add_eq_or_of_lt (field_lt p bits.k), field_add, Nat.add_comm]
        all_goals dsimp only
        all_goals omega
      · rw [if_neg more]
        exact ⟨at_, Nat.le_of_not_lt more, Nat.le_max_left _ _⟩

/-- So does the macro. -/
theorem need (at_ : BitsAt file offset start bits p) (few : n ≤ bmax) :
    BitsAt file offset start (need file offset n bits) p ∧ n ≤ (Inflate.need file offset n bits).k ∧
      (Inflate.need file offset n bits).k ≤ max bits.k (n + 7) :=
  at_.needBits few (by omega)

/-- The masked buffer is the field at the place. -/
theorem masked (at_ : BitsAt file offset start bits p) (few : n ≤ bmax) (enough : n ≤ bits.k) :
    bits.masked n = Inflate.field file offset start p n := by
  have mask : ∀ n ≤ 16, maskBits[n]? = some (2 ^ n - 1) := by decide
  rw [BitBuffer.masked, List.getD_eq_getElem?_getD, mask n few, Option.getD_some,
    Nat.and_two_pow_sub_one_eq_mod, at_.b, field_mod enough]

/-- Bits that are dropped move it on. -/
theorem dump (at_ : BitsAt file offset start bits p) (enough : n ≤ bits.k) :
    BitsAt file offset start (bits.dump n) (p + n) := by
  obtain ⟨aligned, input, b, short⟩ := at_
  have left : (bits.k + 2 ^ 32 - n) % 2 ^ 32 = bits.k - n := by omega
  have same : p + n + (bits.k - n) = p + bits.k := by omega
  refine ⟨?_, ?_, ?_, ?_⟩ <;> simp only [BitBuffer.dump, left]
  · rwa [same]
  · rwa [same]
  · rw [b, Nat.shiftRight_eq_div_pow, field_div enough]
  · omega

/-- NEEDBITS and DUMPBITS with what is in between. -/
theorem grab (at_ : BitsAt file offset start bits p) (few : n ≤ bmax) :
    (grab file offset n bits).1 = Inflate.field file offset start p n ∧
      BitsAt file offset start (Inflate.grab file offset n bits).2 (p + n) := by
  obtain ⟨needed, enough, -⟩ := at_.need few
  exact ⟨needed.masked few enough, needed.dump enough⟩

/-- Bits of the stream that are grabbed. -/
theorem grab_reads (at_ : BitsAt file offset start bits p) {read : List Bool}
    (reads : Reads file offset start p read) (few : read.length ≤ bmax) :
    (Inflate.grab file offset read.length bits).1 = ofBits read ∧
      BitsAt file offset start (Inflate.grab file offset read.length bits).2 (p + read.length) := by
  rw [← reads.field]
  exact at_.grab few

/-! ## Lookups -/

/-- What the tables find is what is looked up. -/
theorem findEntry {tables : Tables} {table fuel b used : Nat} {r : Huft}
    (found : Finds tables table n b r used) (entry : r.e ≤ 16) {ahead : Nat}
    (isField : b = Inflate.field file offset start p ahead) (far : used + bmax ≤ ahead)
    (enough : used ≤ fuel) (at_ : BitsAt file offset start bits p) :
    ∃ bits', findEntry file offset tables fuel table n bits = .ok (r, bits') ∧
      BitsAt file offset start bits' (p + used) := by
  induction found generalizing fuel bits p ahead with
  | @entry table n b r short isEntry final uses le =>
      obtain ⟨fuel, rfl⟩ := Nat.exists_eq_succ_of_ne_zero (by omega : fuel ≠ 0)
      obtain ⟨needed, has, -⟩ := at_.need short
      rw [isField, field_mod (by omega)] at isEntry
      refine ⟨_, ?_, needed.dump (le.trans has)⟩
      simp only [Inflate.findEntry, needed.masked short has, isEntry]
      rw [if_neg (by omega)]
  | @link table n b next more used r some_ short isLink nextSome nextShort found ih =>
      obtain ⟨fuel, rfl⟩ := Nat.exists_eq_succ_of_ne_zero (by omega : fuel ≠ 0)
      obtain ⟨needed, has, -⟩ := at_.need short
      have notUnused : ¬ 16 + more = 99 := by
        simp only [bmax] at nextShort
        omega
      rw [isField, field_mod (by omega)] at isLink
      rw [isField, field_div (by omega)] at ih
      obtain ⟨bits', looked, after⟩ := @ih ((Inflate.need file offset n bits).dump n) (p + n) fuel entry _ rfl
        (by omega) (by omega) (needed.dump has)
      refine ⟨bits', ?_, by rwa [Nat.add_assoc] at after⟩
      simp only [Inflate.findEntry, needed.masked short has, isLink]
      rw [if_pos (by omega), if_neg notUnused, Nat.add_sub_cancel_left]
      exact looked

end BitsAt

end GrubLegacy.Inflate
