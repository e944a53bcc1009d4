import GrubLegacy.Base.PrimeRoots
import GrubLegacy.Stage2.Fips180
import GrubLegacy.Stage2.Sha2

/-!
# The rounds of `sha256crypt.c` and `sha512crypt.c`

Each file implements its algorithm: it has the constants and the functions of the standard, and
loads a word with its lowest byte first only to turn it round.
-/

namespace GrubLegacy.Stage2.Sha2

open Base

variable {w : Nat}

/-! ## The constants -/

def primes : List Nat := [
  2, 3, 5, 7, 11, 13, 17, 19, 23, 29, 31, 37, 41, 43, 47, 53, 59, 61, 67, 71, 73, 79, 83, 89, 97,
  101, 103, 107, 109, 113, 127, 131, 137, 139, 149, 151, 157, 163, 167, 173, 179, 181, 191, 193,
  197, 199, 211, 223, 227, 229, 233, 239, 241, 251, 257, 263, 269, 271, 277, 281, 283, 293, 307,
  311, 313, 317, 331, 337, 347, 349, 353, 359, 367, 373, 379, 383, 389, 397, 401, 409]

/-- A test for primes that looks at every smaller number. -/
def isPrime (n : Nat) : Bool := 2 ≤ n && (List.range n).all fun m => m < 2 || n % m ≠ 0

/-- The test of the table is primality. -/
theorem isPrime_iff (n : Nat) : isPrime n = true ↔ Nat.Prime n := by
  rw [Nat.prime_def_lt', isPrime, Bool.and_eq_true, decide_eq_true_eq, List.all_eq_true]
  refine and_congr_right fun _ => forall_congr' fun m => ?_
  simp only [List.mem_range, Bool.or_eq_true, decide_eq_true_eq, Nat.dvd_iff_mod_eq_zero]
  grind

/-- The first 80 primes are those below 410. -/
theorem filter_primes : (List.range 410).filter (fun n => Nat.Prime n) = primes := by
  have same : (fun n => decide (Nat.Prime n)) = isPrime :=
    funext fun n => Bool.eq_iff_iff.mpr (decide_eq_true_iff.trans (isPrime_iff n).symm)
  rw [same]
  decide +kernel

/-- So the table of primes is that of the specification. -/
theorem prime_eq {t : Nat} (small : t < 80) : Fips180.prime t = primes.getD t 0 := by
  have length := length_filter_range (p := Nat.Prime) 410
  rw [filter_primes] at length
  have count : t < Nat.count Nat.Prime 410 := by
    rw [← length]
    exact small
  rw [Fips180.prime, nth_eq_of_filter_range 410 count, filter_primes]

/-- The words are the first bits behind the points of the roots of the first primes. -/
def AreRoots (degree : Nat) (words : List (BitVec w)) : Prop :=
  ∀ t < words.length, ∃ whole < 21,
    (whole * 2 ^ w + (words.getD t 0).toNat) ^ degree ≤ primes.getD t 0 * (2 ^ w) ^ degree ∧
      primes.getD t 0 * (2 ^ w) ^ degree < (whole * 2 ^ w + (words.getD t 0).toNat + 1) ^ degree

instance (degree : Nat) (words : List (BitVec w)) : Decidable (AreRoots degree words) :=
  inferInstanceAs (Decidable (∀ t < words.length, _))

/-- Words that are the roots are those of the specification. -/
theorem AreRoots.rootBits {degree : Nat} {words : List (BitVec w)} (roots : AreRoots degree words)
    (positive : degree ≠ 0) (few : words.length ≤ 80) {t : Nat} (small : t < words.length) :
    words.getD t 0 = Fips180.rootBits w degree (Fips180.prime t) := by
  obtain ⟨whole, -, low, high⟩ := roots t small
  rw [Fips180.rootBits, prime_eq (by omega), floor_root positive low high]
  apply BitVec.eq_of_toNat_eq
  rw [BitVec.toNat_ofNat, Nat.mul_add_mod_self_right, Nat.mod_eq_of_lt (BitVec.isLt _)]

/-! ## Words and bytes -/

/-- A macro turns the bytes of a word round. -/
def TurnsRound (SWAP : BitVec w → BitVec w) : Prop :=
  ∀ x i j, i < w / 8 → j < 8 →
    (SWAP x).getLsbD (8 * i + j) = x.getLsbD (8 * (w / 8 - 1 - i) + j)

/-- The 32-bit swap turns the bytes round, -/
theorem swap256_turnsRound : TurnsRound swap256 := by
  intro x i j place bit
  have places : i < 4 := place
  interval_cases i <;> interval_cases j <;> simp [swap256]

/-- and so does the 64-bit one. -/
theorem swap512_turnsRound : TurnsRound swap512 := by
  intro x i j place bit
  have places : i < 8 := place
  interval_cases i <;> interval_cases j <;> simp [swap512]


/-- A bit of a number that is made of bytes. -/
theorem testBit_ofDigits (bytes : List UInt8) (i : Nat) {j : Nat} (bit : j < 8) :
    (Nat.ofDigits 256 (bytes.map UInt8.toNat)).testBit (8 * i + j) =
      (bytes.getD i 0).toNat.testBit j := by
  induction bytes generalizing i with
  | nil => simp
  | cons byte bytes ih =>
      have small : byte.toNat < 2 ^ 8 := byte.toNat_lt
      rw [List.map_cons, Nat.ofDigits_cons, Nat.add_comm,
        show 256 = 2 ^ 8 from rfl, Nat.testBit_two_pow_mul_add _ small]
      cases i with
      | zero => simp [bit]
      | succ i =>
          rw [if_neg (by omega), show 8 * (i + 1) + j - 8 = 8 * i + j by omega]
          exact ih i

/-- A bit of a word is one of its bytes. -/
theorem getLsbD_loadWord {bytes : List UInt8} {i j : Nat} (inside : 8 * i + j < w) (bit : j < 8) :
    (loadWord w bytes).getLsbD (8 * i + j) = (bytes.getD i 0).toNat.testBit j := by
  rw [loadWord, BitVec.getLsbD_ofNat, testBit_ofDigits bytes i bit]
  simp [inside]

/-- A loaded word that is turned round is one with its highest byte first. -/
theorem turned_loadWord {SWAP : BitVec w → BitVec w} (turns : TurnsRound SWAP) (whole : w % 8 = 0)
    {bytes : List UInt8} (length : bytes.length = w / 8) :
    SWAP (loadWord w bytes) = BitVec.ofNat w (Fips180.bigEndian bytes) := by
  apply BitVec.eq_of_getLsbD_eq
  intro k inside
  obtain ⟨i, j, bit, rfl⟩ : ∃ i j, j < 8 ∧ k = 8 * i + j :=
    ⟨k / 8, k % 8, Nat.mod_lt _ (by decide), (Nat.div_add_mod k 8).symm⟩
  have place : i < bytes.length := by omega
  rw [turns _ _ _ (by omega) bit, getLsbD_loadWord (by omega) bit, BitVec.getLsbD_ofNat,
    Fips180.bigEndian, testBit_ofDigits _ i bit]
  simp [inside, List.getD_eq_getElem?_getD, List.getElem?_reverse place, length]

/-- A word that is turned round is stored with its highest byte first. -/
theorem storeWord_turned {SWAP : BitVec w → BitVec w} (turns : TurnsRound SWAP) (word : BitVec w) :
    storeWord (SWAP word) = Fips180.bytesOf (w / 8) word.toNat := by
  refine List.ext_getElem (by simp [storeWord]) fun i inside _ => ?_
  have place : i < w / 8 := by simpa [storeWord] using inside
  simp only [storeWord, Fips180.bytesOf, List.getElem_map, List.getElem_range, List.getElem_reverse,
    List.length_range]
  apply UInt8.toNat_inj.mp
  apply Nat.eq_of_testBit_eq
  intro j
  rcases Nat.lt_or_ge j 8 with bit | high
  · have lower (k : Nat) : 256 ^ k = 2 ^ (8 * k) := by rw [Nat.pow_mul]
    simp only [UInt8.toNat_ofNat', lower, Nat.testBit_mod_two_pow, Nat.testBit_div_two_pow, bit,
      decide_true, Bool.true_and]
    have turned := turns word i j place bit
    rw [BitVec.getLsbD, BitVec.getLsbD] at turned
    rw [Nat.add_comm j, turned, Nat.add_comm j]
  · have small (n : Nat) : (UInt8.ofNat n).toNat.testBit j = false :=
      Nat.testBit_lt_two_pow ((UInt8.toNat_lt _).trans_le (Nat.pow_le_pow_right (by decide) high))
    rw [small, small]

/-! ## The algorithms -/

/-- The hash value in the terms of the standard. -/
def HashWords.registers (r : HashWords w) : Fips180.Registers w :=
  ⟨r.a, r.b, r.c, r.d, r.e, r.f, r.g, r.h⟩

/-- A file has the functions and the constants of an algorithm. -/
structure Implements (sha : Sha w) (algorithm : Fips180.Algorithm w) : Prop where
  bytes : w % 8 = 0
  wide : 32 ≤ w
  turns : TurnsRound sha.SWAP
  S0 : ∀ x, sha.S0 x = algorithm.bigSigma0 x
  S1 : ∀ x, sha.S1 x = algorithm.bigSigma1 x
  R0 : ∀ x, sha.R0 x = algorithm.smallSigma0 x
  R1 : ∀ x, sha.R1 x = algorithm.smallSigma1 x
  rounds : sha.K.length = algorithm.rounds
  enough : 16 ≤ algorithm.rounds
  K : ∀ t < algorithm.rounds, sha.K.getD t 0 = Fips180.K w t
  init : sha.init.registers = Fips180.initial w

/-- The registers start with the roots of the primes. -/
theorem registers_eq {r : HashWords w} (roots : AreRoots 2 r.list) :
    r.registers = Fips180.initial w := by
  have word (j : Nat) (small : j < 8) : r.list.getD j 0 = Fips180.H0 w j :=
    roots.rootBits (by decide) (Nat.le_add_left 8 72) small
  ext1
  · exact word 0 (by decide)
  · exact word 1 (by decide)
  · exact word 2 (by decide)
  · exact word 3 (by decide)
  · exact word 4 (by decide)
  · exact word 5 (by decide)
  · exact word 6 (by decide)
  · exact word 7 (by decide)

/-- The functions and tables of the code are those of SHA-256, -/
theorem implements_sha256 : Implements sha256 Fips180.sha256 where
  bytes := rfl
  wide := by decide
  turns := swap256_turnsRound
  S0 _ := rfl
  S1 _ := rfl
  R0 _ := rfl
  R1 _ := rfl
  rounds := rfl
  enough := by decide
  K t small := by
    have roots : AreRoots 3 K256 := by decide +kernel
    exact roots.rootBits (by decide) (by decide) small
  init := registers_eq (by decide +kernel)

/-- and those of SHA-512. -/
theorem implements_sha512 : Implements sha512 Fips180.sha512 where
  bytes := rfl
  wide := by decide
  turns := swap512_turnsRound
  S0 _ := rfl
  S1 _ := rfl
  R0 _ := rfl
  R1 _ := rfl
  rounds := rfl
  enough := by decide
  K t small := by
    have roots : AreRoots 3 K512 := by decide +kernel
    exact roots.rootBits (by decide) (by decide) small
  init := registers_eq (by decide +kernel)

section

variable {sha : Sha w} {algorithm : Fips180.Algorithm w} {block : List UInt8}

/-- The words of a block. -/
theorem Implements.word (implements : Implements sha algorithm)
    (filled : block.length = blockSize w) {t : Nat} (first : t < 16) :
    sha.SWAP (loadWord w ((block.drop (w / 8 * t)).take (w / 8))) = Fips180.wordOf w block t := by
  have bytes := implements.bytes
  have behind : w / 8 * t + w / 8 ≤ 2 * w := by
    calc w / 8 * t + w / 8 = w / 8 * (t + 1) := (Nat.mul_succ _ _).symm
      _ ≤ w / 8 * 16 := Nat.mul_le_mul_left _ first
      _ ≤ 2 * w := by omega
  rw [blockSize] at filled
  exact turned_loadWord implements.turns bytes (by
    rw [List.length_take, List.length_drop]
    omega)

/-- Each word that is appended is the next one of the schedule. -/
theorem schedule_append (implements : Implements sha algorithm)
    (filled : block.length = blockSize w) (count : Nat) :
    (List.range count).foldl (fun W i =>
      W ++ [sha.R1 (W.getD (i + 16 - 2) 0) + W.getD (i + 16 - 7) 0 +
        sha.R0 (W.getD (i + 16 - 15) 0) + W.getD (i + 16 - 16) 0])
      ((List.range 16).map fun t =>
        sha.SWAP (loadWord w ((block.drop (w / 8 * t)).take (w / 8)))) =
    (List.range (16 + count)).map (Fips180.W algorithm (Fips180.wordOf w block)) := by
  induction count with
  | zero =>
      refine List.map_congr_left fun t small => ?_
      have first := List.mem_range.mp small
      rw [implements.word filled first, Fips180.W, if_pos first]
  | succ count ih =>
      have known (t : Nat) (small : t < 16 + count) :
          ((List.range (16 + count)).map (Fips180.W algorithm (Fips180.wordOf w block))).getD t 0 =
            Fips180.W algorithm (Fips180.wordOf w block) t := by
        simp [List.getD_eq_getElem?_getD, small]
      have next : Fips180.W algorithm (Fips180.wordOf w block) (16 + count) = _ := Fips180.W.eq_def ..
      rw [if_neg (by omega)] at next
      rw [@List.range_succ count, List.foldl_concat, ih, known _ (by omega), known _ (by omega),
        known _ (by omega), known _ (by omega), implements.R0, implements.R1, ← Nat.add_assoc,
        @List.range_succ (16 + count), List.map_append, List.map_singleton, next, Nat.add_comm 16 count]

/-- The schedule of a block is that of the specification, -/
theorem schedule_eq (implements : Implements sha algorithm) (filled : block.length = blockSize w)
    {t : Nat} (small : t < algorithm.rounds) :
    (schedule sha block).getD t 0 = Fips180.W algorithm (Fips180.wordOf w block) t := by
  have enough := implements.enough
  rw [schedule, schedule_append implements filled, implements.rounds]
  simp [List.getD_eq_getElem?_getD, show t < 16 + (algorithm.rounds - 16) by omega]

/-- and so is a round. -/
theorem roundStep_registers (implements : Implements sha algorithm) (W : List (BitVec w))
    (r : HashWords w) (t : Nat) :
    (roundStep sha W r t).registers =
      Fips180.round algorithm (sha.K.getD t 0) (W.getD t 0) r.registers := by
  rw [roundStep, Fips180.round, implements.S0, implements.S1]
  rfl

/-- A block makes of the hash value what it should. -/
theorem blockStep_registers (implements : Implements sha algorithm)
    (filled : block.length = blockSize w) (r : HashWords w) :
    (blockStep sha r block).registers = Fips180.processBlock algorithm r.registers block := by
  have rounds (count : Nat) (few : count ≤ algorithm.rounds) :
      ((List.range count).foldl (roundStep sha (schedule sha block)) r).registers =
        (List.range count).foldl (fun r t => Fips180.round algorithm (Fips180.K w t)
          (Fips180.W algorithm (Fips180.wordOf w block) t) r) r.registers := by
    induction count with
    | zero => rfl
    | succ count ih =>
        rw [List.range_succ, List.foldl_concat, List.foldl_concat, roundStep_registers implements,
          ih (by omega), implements.K count few, schedule_eq implements filled few]
  rw [Fips180.processBlock, ← rounds _ (Nat.le_refl _), blockStep, implements.rounds]
  simp only [HashWords.registers, Fips180.added, BitVec.add_comm]

/-- So do all of them. -/
theorem foldBlocks_registers (implements : Implements sha algorithm) (r : HashWords w)
    (bytes : List UInt8) :
    (foldBlocks (blockSize w) (blockStep sha) r bytes).registers =
      foldBlocks (blockSize w) (Fips180.processBlock algorithm) r.registers bytes := by
  have counted (count : Nat) (r : HashWords w) (bytes : List UInt8)
      (enough : blockSize w * count ≤ bytes.length) :
      (foldCount (blockSize w) (blockStep sha) count r bytes).registers =
        foldCount (blockSize w) (Fips180.processBlock algorithm) count r.registers bytes := by
    induction count generalizing r bytes with
    | zero => rfl
    | succ count ih =>
        rw [Nat.mul_succ] at enough
        rw [foldCount, foldCount, ih _ _ (by rw [List.length_drop]; omega),
          blockStep_registers implements (by rw [List.length_take]; omega)]
  exact counted _ r bytes (Nat.mul_div_le _ _)

end

end GrubLegacy.Stage2.Sha2
