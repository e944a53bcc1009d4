import GrubLegacy.Base.SineTable
import GrubLegacy.Stage2.Md5
import GrubLegacy.Stage2.Rfc1321

/-!
# The digests of `md5.c`

`md5_transform` moves its registers on where RFC 1321 names them anew, which is the same after
four operations. The bytes that come part by part are absorbed: the state is that of the blocks
which are filled, and the buffer has what is left over.
-/

namespace GrubLegacy.Stage2

open Base CStrings

/-! ## The table -/

/-- The digits of the sines, as far as they are computed exactly. -/
theorem table_fractions : ∀ i < 64,
    2 ^ 28 * (T.getD i 0).toNat * sineDenominator (i + 1) + sineDenominator (i + 1) ≤
        2 ^ 60 * sineNumerator (i + 1) ∧
      2 ^ 60 * sineNumerator (i + 1) + sineDenominator (i + 1) <
        2 ^ 28 * ((T.getD i 0).toNat + 1) * sineDenominator (i + 1) := by
  decide +kernel

/-- The table has the integer parts of the sines. -/
theorem T_eq {i : Nat} (small : i < 64) : Rfc1321.T (i + 1) = T.getD i 0 := by
  obtain ⟨low, high⟩ := table_fractions i small
  rw [Rfc1321.T, floor_sin (by omega) low high, BitVec.ofNat_toNat, BitVec.setWidth_eq]

/-! ## The operations -/

/-- The rotation of the code is that of a word. -/
theorem rotateLeft_eq (x : UINT4) {s : Nat} (small : s < 32) : rotateLeft x s = x.rotateLeft s := by
  rw [rotateLeft, BitVec.rotateLeft, BitVec.rotateLeftAux, Nat.mod_eq_of_lt small]

/-- The registers in the order they have before an operation. -/
def turned (place : Nat) (r : Rfc1321.Registers) : Md5State :=
  match place % 4 with
  | 0 => ⟨r.A, r.B, r.C, r.D⟩
  | 1 => ⟨r.D, r.A, r.B, r.C⟩
  | 2 => ⟨r.C, r.D, r.A, r.B⟩
  | _ => ⟨r.B, r.C, r.D, r.A⟩

/-- A turn of a loop is an operation, and moves the registers on. -/
theorem md5Step_turned (f : UINT4 → UINT4 → UINT4 → UINT4) (place : Nat) (x t : UINT4) {s : Nat}
    (small : s < 32) (r : Rfc1321.Registers) :
    md5Step f x t s (turned place r) =
      turned (place + 1) (Rfc1321.operation f place x t s r) := by
  have cases_ : place % 4 = 0 ∨ place % 4 = 1 ∨ place % 4 = 2 ∨ place % 4 = 3 := by omega
  rcases cases_ with at_ | at_ | at_ | at_
  all_goals
    simp [md5Step, turned, Rfc1321.operation, at_, Nat.add_mod, rotateLeft_eq _ small, BitVec.add_comm]

/-- The operations of a round, as the code finds them. -/
def Performs (operations : List (Nat × Nat × Nat)) (s : List Nat) (first by_ base : Nat) : Prop :=
  ∀ place < 16, operations.getD place (0, 0, 0) =
      ((first + by_ * place) % 16, s.getD (place % 4) 0, place + base + 1) ∧
    s.getD (place % 4) 0 < 32

instance (operations : List (Nat × Nat × Nat)) (s : List Nat) (first by_ base : Nat) :
    Decidable (Performs operations s first by_ base) :=
  inferInstanceAs (Decidable (∀ place < 16, _))

/-- A loop performs the operations of a round. -/
theorem md5Round_eq {f : UINT4 → UINT4 → UINT4 → UINT4} {operations : List (Nat × Nat × Nat)}
    {s : List Nat} {first by_ base : Nat} (performs : Performs operations s first by_ base)
    (inTable : base ≤ 48) {block : Area} {X : Nat → UINT4}
    (words : ∀ k < 16, le32 block (4 * k) = X k) (r : Rfc1321.Registers) :
    md5Round f s first by_ base block (turned 0 r) =
      turned 0 (Rfc1321.performRound f operations X r) := by
  have prefixes : ∀ count ≤ 16, ∀ r : Rfc1321.Registers,
      (List.range count).foldl (fun r i => md5Step f (le32 block (4 * ((first + by_ * i) % 16)))
        (T.getD (i + base) 0) (s.getD (i % 4) 0) r) (turned 0 r) =
      turned count ((List.range count).foldl (fun r place =>
        let step := operations.getD place (0, 0, 0)
        Rfc1321.operation f place (X step.1) (Rfc1321.T step.2.2) step.2.1 r) r) := by
    intro count
    induction count with
    | zero => exact fun _ _ => rfl
    | succ count ih =>
        intro inside r
        obtain ⟨isOperation, small⟩ := performs count inside
        rw [List.range_succ, List.foldl_append, List.foldl_append, ih (by omega)]
        simp only [List.foldl_cons, List.foldl_nil, isOperation]
        rw [words _ (Nat.mod_lt _ (by decide)), ← T_eq (by omega), md5Step_turned f count _ _ small]
  exact prefixes 16 (Nat.le_refl _) r

/-- The words of the block that is read from a place in memory. -/
theorem wordOf_bytesAt (block : Area) {k : Nat} (small : k < 16) :
    le32 block (4 * k) = Rfc1321.wordOf (bytesAt block 0 64) k := by
  have four : ((bytesAt block 0 64).drop (4 * k)).take 4 =
      [block (4 * k), block (4 * k + 1), block (4 * k + 2), block (4 * k + 3)] := by
    have behind : 4 ≤ 64 - 4 * k := by omega
    rw [bytesAt, ← List.map_drop, ← List.map_take, List.range_eq_range', List.drop_range',
      List.take_range'_of_length_ge behind]
    simp [List.range'_succ]
  rw [Rfc1321.wordOf, four, le32]
  congr 1
  simp [Area.word32, Area.word16, Area.byte, Nat.add_assoc, Nat.ofDigits]
  omega

/-- `md5_transform` processes a block. -/
theorem md5Transform_eq (r : Rfc1321.Registers) (block : Area) :
    md5Transform (turned 0 r) block = turned 0 (Rfc1321.processBlock r (bytesAt block 0 64)) := by
  have words := fun k small => @wordOf_bytesAt block k small
  have first : Performs Rfc1321.round1 s1 0 1 0 := by decide
  have second : Performs Rfc1321.round2 s2 1 5 16 := by decide
  have third : Performs Rfc1321.round3 s3 5 3 32 := by decide
  have fourth : Performs Rfc1321.round4 s4 0 7 48 := by decide
  simp only [md5Transform]
  rw [md5Round_eq first (by decide) words, md5Round_eq second (by decide) words,
    md5Round_eq third (by decide) words, md5Round_eq fourth (by decide) words]
  have functions : F = Rfc1321.F ∧ G = Rfc1321.G ∧ H = Rfc1321.H ∧ I = Rfc1321.I :=
    ⟨rfl, rfl, rfl, rfl⟩
  simp only [turned, Rfc1321.processBlock, Nat.zero_mod, functions]

/-! ## Bytes that come part by part -/

/-- The registers after the blocks of some bytes. -/
noncomputable def processed (bytes : List UInt8) : Rfc1321.Registers :=
  foldBlocks 64 Rfc1321.processBlock Rfc1321.initial bytes

/-- These bytes have been given to `md5_update`. -/
structure Absorbed (md5 : Md5) (bytes : List UInt8) : Prop where
  state : md5.state = turned 0 (processed bytes)
  length : md5.length = BitVec.ofNat 32 bytes.length
  buffer : bytesAt md5.buffer 0 (bytes.length % 64) = leftOver 64 bytes

/-- At the start nothing is absorbed. -/
theorem absorbed_md5Init (md5 : Md5) : Absorbed (md5Init md5) [] where
  state := by simp [md5Init, processed, foldBlocks_of_lt]; rfl
  length := rfl
  buffer := rfl

/-- The place in the buffer is the number of bytes that are left over. -/
theorem Absorbed.buflen {md5 : Md5} {bytes : List UInt8} (absorbed : Absorbed md5 bytes) :
    (md5.length &&& 63).toNat = bytes.length % 64 := by
  have mask := Nat.and_two_pow_sub_one_eq_mod (bytes.length % 2 ^ 32) 6
  rw [absorbed.length, BitVec.toNat_and, BitVec.toNat_ofNat]
  exact mask.trans (Nat.mod_mod_of_dvd _ (by decide))

/-- The loop processes the blocks of the input. -/
theorem md5Blocks_eq (r : Rfc1321.Registers) {fuel : Nat} {input : List UInt8}
    (enough : input.length ≤ fuel) :
    md5Blocks fuel (turned 0 r) input =
      (turned 0 (foldBlocks 64 Rfc1321.processBlock r input), leftOver 64 input) := by
  induction fuel generalizing r input with
  | zero =>
      obtain rfl : input = [] := List.length_eq_zero_iff.mp (Nat.le_zero.mp enough)
      rfl
  | succ fuel ih =>
      rw [md5Blocks]
      split
      next filled =>
        have isBlock : (input.take 64).length = 64 := by simp [filled]
        have split := List.take_append_drop 64 input
        rw [md5Transform_eq, bytesAt_areaOf filled, ih _ (by rw [List.length_drop]; omega)]
        conv_rhs => rw [← split, foldBlocks_block (by decide) isBlock, leftOver_block (by decide) isBlock]
      next short =>
        rw [foldBlocks_of_lt (by omega), leftOver_of_lt (by omega)]

/-- An update absorbs its input. -/
theorem Absorbed.update {md5 : Md5} {bytes : List UInt8} (absorbed : Absorbed md5 bytes)
    (input : List UInt8) : Absorbed (md5Update md5 input) (bytes ++ input) := by
  obtain ⟨blocks, left⟩ := @foldBlocks_append _ _ 64 Rfc1321.processBlock (by decide)
    Rfc1321.initial bytes input
  have lengthLeft := @length_leftOver _ 64 bytes
  have length : md5.length + BitVec.ofNat 32 input.length =
      BitVec.ofNat 32 (bytes ++ input).length := by
    rw [absorbed.length, List.length_append, BitVec.ofNat_add]
  rw [md5Update, absorbed.buflen]
  by_cases short : bytes.length % 64 + input.length < 64
  · have stays : (leftOver 64 bytes ++ input).length < 64 := by
      rwa [List.length_append, lengthLeft]
    rw [if_pos short]
    refine ⟨?_, length, ?_⟩
    · rw [processed, blocks, foldBlocks_of_lt stays]
      exact absorbed.state
    · have place : (bytes ++ input).length % 64 = bytes.length % 64 + input.length := by
        rw [List.length_append]
        omega
      rw [place, left, leftOver_of_lt stays, bytesAt_copyIn _ _ (Nat.le_refl _), absorbed.buffer,
        List.take_length]
  · have room : bytes.length % 64 + (64 - bytes.length % 64) = 64 := by omega
    have enough : 64 - bytes.length % 64 ≤ input.length := by omega
    rw [if_neg short]
    -- The first block is what was left over with the start of the input.
    have block : bytesAt (copyIn md5.buffer (bytes.length % 64) (areaOf input) 0
        (64 - bytes.length % 64)) 0 64 =
      leftOver 64 bytes ++ input.take (64 - bytes.length % 64) := by
      have copied := bytesAt_copyIn md5.buffer (bytes.length % 64) enough
      rwa [room, absorbed.buffer] at copied
    have filled : (leftOver 64 bytes ++ input.take (64 - bytes.length % 64)).length = 64 := by
      rw [← block, length_bytesAt]
    have split : leftOver 64 bytes ++ input =
        (leftOver 64 bytes ++ input.take (64 - bytes.length % 64)) ++
          input.drop (64 - bytes.length % 64) := by
      rw [List.append_assoc, List.take_append_drop]
    have rest : (input.drop (64 - bytes.length % 64)).length ≤ input.length := by simp
    simp only [absorbed.state, md5Transform_eq, block, md5Blocks_eq _ rest]
    refine ⟨?_, length, ?_⟩
    · have whole : processed (bytes ++ input) = _ := blocks
      rw [whole, split, foldBlocks_block (by decide) filled]
      rfl
    · rw [left, split, leftOver_block (by decide) filled]
      have place : (bytes ++ input).length % 64 =
          (leftOver 64 (input.drop (64 - bytes.length % 64))).length := by
        rw [length_leftOver, List.length_drop, List.length_append]
        omega
      have copied := bytesAt_copyIn (copyIn md5.buffer (bytes.length % 64) (areaOf input) 0
        (64 - bytes.length % 64)) 0 (Nat.le_refl (leftOver 64 (input.drop (64 - bytes.length % 64))).length)
      rw [Nat.zero_add, List.take_length] at copied
      rw [place]
      exact copied

/-- So do many of them. -/
theorem Absorbed.updates {md5 : Md5} {bytes : List UInt8} (absorbed : Absorbed md5 bytes)
    (parts : List (List UInt8)) :
    Absorbed (parts.foldl md5Update md5) (bytes ++ parts.flatten) := by
  induction parts generalizing md5 bytes with
  | nil => simpa using absorbed
  | cons part parts ih => simpa using ih (absorbed.update part)

/-- The bytes of a word are its low-order ones first. -/
theorem uint4Bytes_eq (word : UINT4) : uint4Bytes word = Rfc1321.bytesOf 4 word.toNat := by
  simp [uint4Bytes, wordBytes, Rfc1321.bytesOf, List.range_succ]

/-- The length is stored modulo 2^32. -/
theorem bytesOf_low (n : Nat) :
    Rfc1321.bytesOf 8 (n % 2 ^ 32) = uint4Bytes (BitVec.ofNat 32 n) ++ uint4Bytes 0 := by
  have small : n % 2 ^ 32 < 2 ^ 32 := Nat.mod_lt _ (by decide)
  have word : (BitVec.ofNat 32 n).toNat = n % 2 ^ 32 := BitVec.toNat_ofNat n 32
  generalize n % 2 ^ 32 = low at small word
  have high : ∀ k, 2 ^ 32 ≤ k → low / k = 0 := fun k large => Nat.div_eq_of_lt (by omega)
  simp [uint4Bytes, wordBytes, word, Rfc1321.bytesOf, List.range_succ, high]

/-- What is set is read back. -/
theorem bytesAt_memset {area : Area} {start place count more : Nat} {byte : UInt8}
    (first : start ≤ place) (last : place + count ≤ start + more) :
    bytesAt (memset area start byte more) place count = List.replicate count byte := by
  refine List.eq_replicate_iff.mpr ⟨length_bytesAt _ _ _, fun other member => ?_⟩
  obtain ⟨i, small, rfl⟩ := List.mem_map.mp member
  have := List.mem_range.mp small
  exact if_pos (by omega)

/-- The buffer with the start of the padding. -/
theorem Absorbed.padded {md5 : Md5} {bytes : List UInt8} (absorbed : Absorbed md5 bytes) {count : Nat}
    (more : bytes.length % 64 < count) (inside : count ≤ 64) :
    bytesAt (memset (setByte md5.buffer (bytes.length % 64) 0x80) (bytes.length % 64 + 1) 0
        (64 - (bytes.length % 64 + 1))) 0 count =
      leftOver 64 bytes ++ 0x80 :: List.replicate (count - (bytes.length % 64 + 1)) 0 := by
  obtain ⟨zeros, rfl⟩ : ∃ zeros, count = bytes.length % 64 + (1 + zeros) :=
    ⟨count - (bytes.length % 64 + 1), by omega⟩
  have kept : bytesAt (memset (setByte md5.buffer (bytes.length % 64) 0x80) (bytes.length % 64 + 1) 0
      (64 - (bytes.length % 64 + 1))) 0 (bytes.length % 64) =
      bytesAt md5.buffer 0 (bytes.length % 64) := List.map_congr_left fun i small => by
    have := List.mem_range.mp small
    rw [memset, if_neg (by omega), setByte_other (by omega)]
  have one : bytesAt (memset (setByte md5.buffer (bytes.length % 64) 0x80) (bytes.length % 64 + 1) 0
      (64 - (bytes.length % 64 + 1))) (bytes.length % 64) 1 = [0x80] := by
    simp [bytesAt, memset, setByte_same]
  rw [bytesAt_add, bytesAt_add, kept, absorbed.buffer, Nat.zero_add, one,
    bytesAt_memset (Nat.le_refl _) (by omega)]
  simp [Nat.add_sub_add_left]

/-- The last block ends with the length. -/
theorem bytesAt_length (area : Area) (word : UINT4) :
    bytesAt (copyIn (copyIn area 56 (areaOf (uint4Bytes word)) 0 4) 60 (areaOf (uint4Bytes 0)) 0 4) 0 64 =
      bytesAt area 0 56 ++ (uint4Bytes word ++ uint4Bytes 0) := by
  have low := @bytesAt_copyIn area 56 4 (uint4Bytes word) (Nat.le_refl _)
  have high := @bytesAt_copyIn (copyIn area 56 (areaOf (uint4Bytes word)) 0 4) 60 4 (uint4Bytes 0)
    (Nat.le_refl _)
  rw [low, List.append_assoc] at high
  exact high

/-- The end of the message is padded, and the digest is that of the message with the lower half of
its length. -/
theorem Absorbed.final {md5 : Md5} {bytes : List UInt8} (absorbed : Absorbed md5 bytes) :
    (md5Final md5).digest = Rfc1321.digestOf (8 * bytes.length % 2 ^ 32) bytes := by
  have output : ∀ md5' : Md5, ∀ r, md5'.state = turned 0 r → md5'.digest = Rfc1321.output r := by
    intro md5' r isState
    simp [Md5.digest, Rfc1321.output, uint4Bytes_eq, isState, turned]
  apply output
  obtain ⟨blocks, -⟩ := @foldBlocks_append _ _ 64 Rfc1321.processBlock (by decide)
    Rfc1321.initial bytes (Rfc1321.padding bytes.length (8 * bytes.length % 2 ^ 32))
  rw [blocks, md5Final, absorbed.buflen]
  have isLength : Rfc1321.bytesOf 8 (8 * bytes.length % 2 ^ 32) =
      uint4Bytes (8 * md5.length) ++ uint4Bytes 0 := by
    rw [absorbed.length, bytesOf_low, BitVec.ofNat_mul]
    rfl
  by_cases full : 56 < bytes.length % 64 + 1
  · have first := absorbed.padded (Nat.mod_lt _ (by decide)) (Nat.le_refl 64)
    have zeros : (119 - bytes.length % 64) % 64 = (64 - (bytes.length % 64 + 1)) + 56 := by omega
    have filled := congrArg List.length first
    rw [length_bytesAt] at filled
    have split : leftOver 64 bytes ++ Rfc1321.padding bytes.length (8 * bytes.length % 2 ^ 32) =
        (leftOver 64 bytes ++ 0x80 :: List.replicate (64 - (bytes.length % 64 + 1)) 0) ++
          ((List.replicate 56 0 ++ (uint4Bytes (8 * md5.length) ++ uint4Bytes 0)) ++ []) := by
      rw [Rfc1321.padding, zeros, isLength, List.replicate_add]
      simp
    rw [if_pos full, split, foldBlocks_block (by decide) filled.symm,
      foldBlocks_block (by decide) (by rfl), foldBlocks_of_lt (by decide)]
    simp only [absorbed.state, md5Transform_eq, first, bytesAt_length]
    rw [bytesAt_memset (Nat.le_refl 0) (by decide)]
    rfl
  · have first := @Absorbed.padded _ _ absorbed 56 (by omega) (by decide)
    have zeros : (119 - bytes.length % 64) % 64 = 56 - (bytes.length % 64 + 1) := by omega
    have filled : (leftOver 64 bytes ++ 0x80 :: List.replicate (56 - (bytes.length % 64 + 1)) 0 ++
        (uint4Bytes (8 * md5.length) ++ uint4Bytes 0)).length = 64 := by
      rw [List.length_append, ← first, length_bytesAt]
      rfl
    have split : leftOver 64 bytes ++ Rfc1321.padding bytes.length (8 * bytes.length % 2 ^ 32) =
        (leftOver 64 bytes ++ 0x80 :: List.replicate (56 - (bytes.length % 64 + 1)) 0 ++
          (uint4Bytes (8 * md5.length) ++ uint4Bytes 0)) ++ [] := by
      rw [Rfc1321.padding, zeros, isLength]
      simp
    rw [if_neg full, split, foldBlocks_block (by decide) filled, foldBlocks_of_lt (by decide)]
    simp only [absorbed.state, md5Transform_eq, first, bytesAt_length]
    rfl

/-- The parts of a message are given to `md5_update` one after the other. -/
def md5Session (md5 : Md5) (parts : List (List UInt8)) : Md5 :=
  md5Final (parts.foldl md5Update (md5Init md5))

/-- Messages of any length, of whose length the lower half counts. -/
noncomputable def lowDigest (message : List UInt8) : List UInt8 :=
  Rfc1321.digestOf (8 * message.length % 2 ^ 32) message

/-- A session gives the digest of its parts, -/
theorem md5Session_digest (md5 : Md5) (parts : List (List UInt8)) :
    (md5Session md5 parts).digest = lowDigest parts.flatten :=
  ((absorbed_md5Init md5).updates parts).final

/-- which is that of the specification for a short message. -/
theorem lowDigest_eq {message : List UInt8} (short : message.length < 2 ^ 29) :
    lowDigest message = Rfc1321.digest message := by
  rw [lowDigest, Nat.mod_eq_of_lt (by omega), Rfc1321.digest]

/-- Whatever was in the buffer before and however a message is split, its digest is the one of RFC
1321. -/
theorem md5_digest (md5 : Md5) (parts : List (List UInt8)) (short : parts.flatten.length < 2 ^ 29) :
    (md5Final (parts.foldl md5Update (md5Init md5))).digest = Rfc1321.digest parts.flatten :=
  (md5Session_digest md5 parts).trans (lowDigest_eq short)

/-- A message in two parts. -/
theorem md5_digest_parts :
    (md5Final (md5Update (md5Update (md5Init ⟨initstate, 0, fun _ => 0⟩) (ascii "message "))
      (ascii "digest"))).digest = Rfc1321.digest (ascii "message digest") :=
  md5_digest ⟨initstate, 0, fun _ => 0⟩ [ascii "message ", ascii "digest"] (by decide)

end GrubLegacy.Stage2
