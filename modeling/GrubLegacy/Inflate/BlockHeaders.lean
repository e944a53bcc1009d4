import GrubLegacy.Inflate.CodeTurns

/-!
# The headers of the blocks

`get_new_block` comes to the bytes of a stored block, or makes the tables for the codes of another one,
from the lengths that are given in the block where it has codes of its own.
-/

namespace GrubLegacy.Inflate

open Base Gunzip Loader Stage2 Rfc1951

variable {file : OpenFile} {offset : Int} {start : Input}

/-! ## Numbers -/

/-- The complement of a number's bits. -/
theorem ofBits_not (bits : List Bool) : ofBits (bits.map (!·)) = 2 ^ bits.length - 1 - ofBits bits := by
  induction bits with
  | nil => rfl
  | cons bit bits ih =>
      have below := ofBits_lt bits
      rw [List.map_cons, ofBits, ofBits, ih, List.length_cons, Nat.pow_succ]
      cases bit <;> simp only [Bool.not_true, Bool.not_false, Bool.toNat_true, Bool.toNat_false] <;>
        omega

/-- Bits in front are the lower ones. -/
theorem ofBits_append (front bits : List Bool) :
    ofBits (front ++ bits) = ofBits front + 2 ^ front.length * ofBits bits := by
  induction front with
  | nil => simp [ofBits]
  | cons bit front ih =>
      rw [List.cons_append, ofBits, ofBits, ih, List.length_cons]
      ring

/-- The lower bits of a number are its remainder. -/
theorem ofBits_testBit (x n : Nat) : ofBits ((List.range n).map x.testBit) = x % 2 ^ n := by
  induction n with
  | zero => simp [ofBits, Nat.mod_one]
  | succ n ih =>
      rw [List.range_succ, List.map_append, ofBits_append, ih, List.length_map, List.length_range,
        Nat.mod_pow_succ]
      simp [ofBits, Nat.testBit_eq_decide_div_mod_eq]
      rcases Nat.mod_two_eq_zero_or_one (x / 2 ^ n) with even | odd <;> simp [*]

/-- A byte has eight bits. -/
@[simp] theorem byteBits_length (byte : UInt8) : (byteBits byte).length = 8 := by
  simp [byteBits]

/-- A stream has eight bits for each byte. -/
@[simp] theorem streamBits_length (bytes : List UInt8) : (streamBits bytes).length = 8 * bytes.length := by
  induction bytes with
  | nil => rfl
  | cons byte bytes ih =>
      rw [streamBits, List.flatMap_cons, List.length_append, byteBits_length, List.length_cons,
        ← streamBits, ih]
      ring

/-- The bytes of a stored block are the ones that come next. -/
theorem byteAt_of_reads {n : Nat} {byte : UInt8} {bytes : List UInt8}
    (reads : Reads file offset start (8 * n) (streamBits (byte :: bytes))) :
    byteAt file offset start n = byte ∧ Reads file offset start (8 * (n + 1)) (streamBits bytes) := by
  rw [streamBits, List.flatMap_cons, reads_append, byteBits_length] at reads
  obtain ⟨first, rest⟩ := reads
  have number := first.field
  rw [byteBits_length, field_byte, byteBits, ofBits_testBit, Nat.mod_eq_of_lt byte.toNat_lt] at number
  exact ⟨UInt8.toNat_inj.mp number, by rwa [Nat.mul_succ]⟩

/-! ## Codes that are made -/

/-- The Kraft sum for one more bit is twice as large. -/
theorem kraftSum_succ {max : Nat} {lens : List Nat} (bounded : ∀ k ∈ lens, k ≤ max) :
    kraftSum (max + 1) lens = 2 * kraftSum max lens := by
  induction lens with
  | nil => rfl
  | cons k lens ih =>
      have le := bounded k (List.mem_cons_self ..)
      have here : (if k = 0 then 0 else 2 ^ (max + 1 - k)) = 2 * if k = 0 then 0 else 2 ^ (max - k) := by
        split
        · rfl
        · rw [Nat.succ_sub le, Nat.pow_succ']
      simp only [kraftSum, List.map_cons, List.sum_cons, here] at ih ⊢
      rw [ih fun k member => bounded k (List.mem_cons_of_mem _ member)]
      ring

/-- With lengths of one at most the sum counts these. -/
theorem kraftSum_single {max : Nat} {lens : List Nat} (short : ∀ k ∈ lens, k ≤ 1) :
    kraftSum max lens = lens.count 1 * 2 ^ (max - 1) := by
  induction lens with
  | nil => simp [kraftSum]
  | cons k lens ih =>
      have sum : kraftSum max (k :: lens) =
          (if k = 0 then 0 else 2 ^ (max - k)) + kraftSum max lens := rfl
      rw [sum, ih fun k member => short k (List.mem_cons_of_mem _ member)]
      have le := short k (List.mem_cons_self ..)
      rcases Nat.eq_or_lt_of_le le with rfl | zero
      · rw [List.count_cons_self, if_neg (by decide)]
        ring
      · obtain rfl : k = 0 := by omega
        simp

section Made

variable {lens : List Nat} (decodable : Decodable lens)

include decodable

/-- A set that can be decoded has no length above the maximum. -/
theorem Rfc1951.Decodable.short : ∀ k ∈ lens, k ≤ bmax :=
  fun k member => (decodable.bounded k member).trans (by decide)

/-- The lengths are as `huft_build` expects them. -/
theorem Rfc1951.Decodable.lengths : Lengths lens := by
  refine ⟨decodable.short, ?_⟩
  by_contra none_
  push Not at none_
  rcases decodable.complete with full | ⟨one, -⟩
  · have zero : kraftSum 15 lens = 0 := by
      rw [kraftSum_single fun k member => by rw [none_ k member]; decide,
        List.count_eq_zero.mpr fun member => by have := none_ 1 member; omega, Nat.zero_mul]
    omega
  · have member : 1 ∈ lens := List.count_pos_iff.mp (by omega)
    have := none_ 1 member
    omega

/-- Its sum is full, or it has a single code. -/
theorem Rfc1951.Decodable.kraft :
    kraftSum bmax lens = 2 ^ bmax ∨ (kraftSum bmax lens < 2 ^ bmax ∧ ∀ k ∈ lens, k ≤ 1) := by
  have twice : kraftSum bmax lens = 2 * kraftSum 15 lens := kraftSum_succ decodable.bounded
  refine decodable.complete.imp (fun full => ?_) fun ⟨one, short⟩ => ⟨?_, short⟩
  · rw [twice, full]
    rfl
  · rw [twice, kraftSum_single short, one]
    decide

/-- Tables are made for codes that can be used. -/
theorem Rfc1951.Decodable.made (stale : Stale) (s : Nat) (d e : List Nat) {m : Nat}
    (positive : 0 < m) (few : lens.length < 2 ^ m) :
    (huftBuild stale lens s d e m).returned = 0 ∧
      ∀ limit, Finder lens limit s d e ((huftBuild stale lens s d e m).t.getD stale.memory)
        (huftBuild stale lens s d e m).m := by
  have lengths := decodable.lengths
  have notOver : kraftSum bmax lens ≤ 2 ^ bmax := by
    rcases decodable.kraft with full | ⟨less, -⟩ <;> omega
  constructor
  · rw [huftBuild_returned stale lengths.bounded, if_neg (by omega), if_neg]
    rintro ⟨less, k, member, long⟩
    rcases decodable.kraft with full | ⟨-, short⟩
    · omega
    · have := short k member
      omega
  · obtain ⟨tables, isTables, finds⟩ := huftBuild_finds stale lengths s d e positive notOver (by
      rcases decodable.kraft with full | ⟨-, short⟩
      · exact .inr ⟨full, few⟩
      · exact .inl fun k member => (short k member).trans (by omega))
    rw [isTables]
    exact fun limit value _ => finds value

end Made

/-- The width that `huft_build` gives back. -/
theorem huftBuild_m (stale : Stale) {lens : List Nat} (lengths : Lengths lens) (s : Nat)
    (d e : List Nat) (m : Nat) : (huftBuild stale lens s d e m).m = tableWidth lens m := by
  rcases lengths.huftBuild_cases stale s d e m with ⟨-, built⟩ | ⟨y, -, built⟩ <;> rw [built]

/-- Where there are no codes, no tables are made and nothing is to be found. -/
theorem huftBuild_zero (stale : Stale) {lens : List Nat} (zero : ∀ k ∈ lens, k = 0) (s : Nat)
    (d e : List Nat) (m : Nat) :
    (huftBuild stale lens s d e m).returned = 0 ∧
      ∀ limit tables bits, Finder lens limit s d e tables bits := by
  have all : lengthCounts lens 0 = lens.length := by
    rw [lengthCounts_eq]
    exact List.count_eq_length.mpr fun k member => (zero k member).symm
  refine ⟨by rw [huftBuild]; simp only [if_pos all], fun limit tables bits value _ isCode => ?_⟩
  refine absurd ?_ isCode
  by_cases inside : value < lens.length
  · rw [List.getD_eq_getElem _ _ inside]
    exact zero _ (List.getElem_mem inside)
  · exact List.getD_eq_default _ _ (Nat.le_of_not_lt inside)

/-! ## A block with codes -/

variable {state : InflateState} {p : Nat}

/-- Both codes have their tables, and the block begins. -/
theorem buildTables_spec (stale : Stale) (state : InflateState) (bits : BitBuffer)
    {lit dist litCodes distCodes : List Nat} {literalBits distanceBits most : Nat}
    (literals : (huftBuild stale lit 257 cplens cplext literalBits).returned = 0)
    (distances : (huftBuild stale dist 0 cpdist cpdext distanceBits).returned ≤ most)
    (literal : Finder litCodes 286 257 cplens cplext
      ((huftBuild stale lit 257 cplens cplext literalBits).t.getD stale.memory)
      (huftBuild stale lit 257 cplens cplext literalBits).m)
    (distance : Finder distCodes 30 0 cpdist cpdext
      ((huftBuild stale dist 0 cpdist cpdext distanceBits).t.getD stale.memory)
      (huftBuild stale dist 0 cpdist cpdext distanceBits).m)
    (litShort : ∀ k ∈ litCodes, k ≤ bmax) (distShort : ∀ k ∈ distCodes, k ≤ bmax) :
    ∃ tl td bl bd, buildTables state stale bits lit dist literalBits distanceBits most =
        { state.restore bits with
          tl := tl, td := td, bl := bl, bd := bd, codeState := 0, blockLen := state.blockLen + 1 } ∧
      BlockTables
        { state.restore bits with
          tl := tl, td := td, bl := bl, bd := bd, codeState := 0, blockLen := state.blockLen + 1 }
        litCodes distCodes := by
  refine ⟨_, _, _, _, ?_, ⟨literal, distance, litShort, distShort⟩⟩
  simp only [buildTables, literals, if_neg (Nat.not_lt.mpr distances)]
  rfl

/-- With one length only the first code is zero. -/
theorem firstCode_replicate (n : Nat) :
    firstCode (fun k => (List.replicate n 5).count k) 5 = 0 :=
  firstCode_eq_zero fun j _ lt => by rw [List.count_replicate]; simp [Nat.ne_of_gt lt]

/-- The codes of 30 values of five bits are the ones of 32 values. -/
theorem finder_fixedDist {tables : Tables} {m : Nat} {d e : List Nat}
    (finder : Finder (List.replicate 30 5) 30 0 d e tables m) :
    Finder fixedDist 30 0 d e tables m := by
  intro value below isCode final p starts
  have five : ∀ n, value < n → (List.replicate n 5).getD value 0 = 5 := fun n inside => by
    rw [List.getD_eq_getElem _ _ (by rwa [List.length_replicate]), List.getElem_replicate]
  have length := (five 30 below).trans (five 32 (by omega)).symm
  have code : codeOf (List.replicate 30 5) value = codeOf fixedDist value := by
    rw [codeOf, codeOf, fixedDist, five 30 below, five 32 (by omega), firstCode_replicate,
      firstCode_replicate, List.take_replicate, List.take_replicate, List.count_replicate_self,
      List.count_replicate_self]
    omega
  rw [fixedDist, ← length] at isCode starts ⊢
  exact finder value below isCode final p (by rwa [code])

/-- `init_fixed_block` makes the tables for the fixed codes. -/
theorem initFixedBlock_spec (stale : Stale) (state : InflateState) :
    ∃ tl td bl bd, initFixedBlock state stale =
        { state with
          tl := tl, td := td, bl := bl, bd := bd, codeState := 0, blockLen := state.blockLen + 1 } ∧
      BlockTables
        { state with
          tl := tl, td := td, bl := bl, bd := bd, codeState := 0, blockLen := state.blockLen + 1 }
        fixedLit fixedDist := by
  have litShort : ∀ k ∈ fixedLit, k ≤ 9 := fun k member => by
    simp only [fixedLit, List.mem_append, List.mem_replicate] at member
    omega
  have distShort : ∀ n, ∀ k ∈ List.replicate n 5, k ≤ 5 := fun n k member =>
    (List.eq_of_mem_replicate member).le
  have litLengths : Lengths fixedLit :=
    ⟨fun k member => (litShort k member).trans (by decide), 8,
      List.mem_append_right _ (List.mem_replicate.mpr ⟨by decide, rfl⟩), by decide⟩
  have distLengths : Lengths (List.replicate 30 5) :=
    ⟨fun k member => (distShort 30 k member).trans (by decide), 5, by simp, by decide⟩
  have litKraft : kraftSum bmax fixedLit = 2 ^ bmax := by decide +kernel
  have distKraft : kraftSum bmax (List.replicate 30 5) < 2 ^ bmax := by decide +kernel
  obtain ⟨tables, isTables, finds⟩ := huftBuild_finds stale litLengths 257 cplens cplext
    (by decide : 0 < 7) litKraft.le (.inl fun k member => (litShort k member).trans (by decide))
  obtain ⟨tables', isTables', finds'⟩ := huftBuild_finds stale distLengths 0 cpdist cpdext
    (by decide : 0 < 5) distKraft.le
    (.inl fun k member => (distShort 30 k member).trans (by decide))
  refine buildTables_spec stale state state.bits ?_ ?_ ?_ ?_ litLengths.bounded
    fun k member => (distShort 32 k member).trans (by decide)
  · change (huftBuild stale fixedLit 257 cplens cplext 7).returned = 0
    rw [huftBuild_returned stale litLengths.bounded, if_neg litKraft.not_gt,
      if_neg fun less => less.1.ne litKraft]
  · rw [huftBuild_returned stale distLengths.bounded, if_neg distKraft.not_gt]
    split <;> decide
  · change Finder fixedLit 286 257 cplens cplext
      ((huftBuild stale fixedLit 257 cplens cplext 7).t.getD stale.memory)
      (huftBuild stale fixedLit 257 cplens cplext 7).m
    rw [isTables]
    exact fun value _ => finds value
  · rw [isTables']
    exact finder_fixedDist fun value _ => finds' value

/-! ## A stored block -/

/-- The bits that are left after some whole bytes have been grabbed. -/
theorem BitsAt.grab_left {bits : BitBuffer} (at_ : BitsAt file offset start bits p) {n : Nat}
    (few : n ≤ bmax) :
    (Inflate.grab file offset n bits).2.k + n ≤ max bits.k (n + 7) := by
  obtain ⟨needed, enough, most⟩ := at_.need few
  have short := needed.short
  simp only [Inflate.grab, BitBuffer.dump]
  omega

/-- Two words that are read from a byte boundary on leave nothing behind. -/
theorem nothing_left {q k₀ k₁ k₂ : Nat} (short : k₀ ≤ 24) (left₁ : k₁ + 16 ≤ max k₀ 23)
    (left₂ : k₂ + 16 ≤ max k₁ 23) (aligned : 8 ∣ q) (aligned₁ : 8 ∣ q + 16 + k₁)
    (aligned₂ : 8 ∣ q + 16 + 16 + k₂) : k₂ = 0 := by
  omega

/-- After the lengths of a stored block nothing is left in the bit buffer. -/
theorem initStoredBlock_spec (at_ : BitsAt file offset start state.bits p)
    {pad len rest : List Bool} (short : pad.length < 8) (aligned : 8 ∣ p + pad.length)
    (lenBits : len.length = 16)
    (reads : Reads file offset start p (pad ++ (len ++ (len.map (!·) ++ rest)))) :
    ∃ bits', initStoredBlock file offset state =
        { state.restore bits' with blockLen := ofBits len } ∧
      BitsAt file offset start bits' (p + pad.length + 32) ∧ bits'.k = 0 := by
  obtain ⟨-, reads⟩ := reads_append.mp reads
  obtain ⟨readsLen, reads⟩ := reads_append.mp reads
  obtain ⟨readsInverse, -⟩ := reads_append.mp reads
  have isPad : state.bits.k % 8 = pad.length := by
    have := at_.aligned
    omega
  have at₀ := at_.dump (Nat.mod_le state.bits.k 8)
  rw [isPad] at at₀
  obtain ⟨isLen, at₁⟩ := at₀.grab_reads readsLen (by rw [lenBits]; decide)
  have left₁ := at₀.grab_left (n := 16) (by decide)
  rw [lenBits] at isLen at₁ readsInverse
  have inverseBits : (len.map (!·)).length = 16 := by rw [List.length_map, lenBits]
  obtain ⟨isInverse, at₂⟩ := at₁.grab_reads readsInverse (by rw [inverseBits]; decide)
  have left₂ := at₁.grab_left (n := 16) (by decide)
  rw [inverseBits] at isInverse at₂
  rw [ofBits_not, lenBits] at isInverse
  have below := ofBits_lt len
  rw [lenBits] at below
  refine ⟨_, ?_, at₂, ?_⟩
  · have matches_ : ofBits len = 0xffff - (2 ^ 16 - 1 - ofBits len) := by omega
    simp only [initStoredBlock, isPad, isLen, isInverse]
    rw [if_pos matches_]
  · exact nothing_left at₀.short left₁ left₂ aligned at₁.aligned at₂.aligned

/-! ## The lengths of codes -/

/-- The order of the bit lengths is a permutation. -/
theorem bitorder_idxOf : ∀ value < 19, ∀ j < 19,
    (bitorder.getD j 0 = value ↔ bitorder.idxOf value = j) := by
  decide +kernel

/-- The lengths are read into their places. -/
theorem readBitLengths_spec {fields : List (List Bool)} {j : Nat} {ll : Nat → Nat} {bits : BitBuffer}
    (at_ : BitsAt file offset start bits p) (three : ∀ field ∈ fields, field.length = 3)
    (few : j + fields.length ≤ 19) (reads : Reads file offset start p fields.flatten) :
    BitsAt file offset start (readBitLengths file offset fields.length j ll bits).2
        (p + fields.flatten.length) ∧
      ∀ value < 19, (readBitLengths file offset fields.length j ll bits).1 value =
        if j ≤ bitorder.idxOf value ∧ bitorder.idxOf value < j + fields.length then
          ofBits (fields.getD (bitorder.idxOf value - j) [])
        else ll value := by
  induction fields generalizing p j ll bits with
  | nil =>
      refine ⟨at_, fun value _ => ?_⟩
      rw [List.length_nil, if_neg (by omega), readBitLengths]
  | cons field fields ih =>
      have isThree := three field (List.mem_cons_self ..)
      rw [List.length_cons] at few
      rw [List.flatten_cons, reads_append] at reads
      obtain ⟨grabbed, next⟩ := at_.grab_reads reads.1 (by rw [isThree]; decide)
      obtain ⟨after, values⟩ := @ih (p + field.length) (j + 1)
        (Function.update ll (bitorder.getD j 0) (ofBits field)) _ next
        (fun field member => three field (List.mem_cons_of_mem _ member)) (by omega) reads.2
      rw [isThree] at grabbed
      have isNext : readBitLengths file offset (field :: fields).length j ll bits =
          readBitLengths file offset fields.length (j + 1)
            (Function.update ll (bitorder.getD j 0) (ofBits field))
            (Inflate.grab file offset field.length bits).2 := by
        rw [List.length_cons, readBitLengths, grabbed, isThree]
      rw [isNext]
      refine ⟨by rwa [List.flatten_cons, List.length_append, ← Nat.add_assoc], fun value below => ?_⟩
      rw [values value below, List.length_cons]
      have here := bitorder_idxOf value below j (by omega)
      rcases Nat.lt_trichotomy (bitorder.idxOf value) j with before | same | after
      · rw [if_neg (by omega), if_neg (by omega), Function.update_of_ne]
        intro same
        have := here.mp same.symm
        omega
      · rw [if_neg (by omega), if_pos (by omega), same, Nat.sub_self, List.getD_cons_zero,
          ← here.mpr same, Function.update_self]
      · have other : value ≠ bitorder.getD j 0 := fun same => by
          have := here.mp same.symm
          omega
        have step : bitorder.idxOf value - j = bitorder.idxOf value - (j + 1) + 1 := by omega
        rw [Function.update_of_ne other, step, List.getD_cons_succ]
        exact if_congr (by omega) rfl rfl

/-- Three bits are read for each code length, in the order of the format. -/
theorem readBitLengths_lens {fields : List (List Bool)} {bits : BitBuffer}
    (at_ : BitsAt file offset start bits p) (three : ∀ field ∈ fields, field.length = 3)
    (few : fields.length ≤ 19) (reads : Reads file offset start p fields.flatten) :
    BitsAt file offset start (readBitLengths file offset fields.length 0 (fun _ => 0) bits).2
        (p + fields.flatten.length) ∧
      (List.range 19).map (readBitLengths file offset fields.length 0 (fun _ => 0) bits).1 =
        codeLengthLens fields := by
  obtain ⟨after, values⟩ := @readBitLengths_spec _ _ _ _ fields 0 (fun _ => 0) bits at_ three
    (by omega) reads
  refine ⟨after, List.map_congr_left fun value member => ?_⟩
  rw [values value (List.mem_range.mp member), Nat.sub_zero, Nat.zero_add]
  change _ = ofBits (fields.getD (bitorder.idxOf value) [])
  split
  · rfl
  · next outside =>
      rw [List.getD_eq_default _ _ (by omega)]
      rfl

/-- A code that is no longer than the bits that are looked up is found without links. -/
theorem BitsAt.findDirect {lens d e : List Nat} {limit s m value : Nat} {tables : Tables}
    {bits : BitBuffer} {code : List Bool} (at_ : BitsAt file offset start bits p)
    (finder : Finder lens limit s d e tables m) (below : value < limit)
    (isCode : IsCode lens value code) (short : code.length ≤ m) (width : m ≤ bmax)
    (reads : Reads file offset start p code)
    (entry : ∀ bits, (valueEntry s d e bits value).e ≤ 16) :
    tables 0 ((Inflate.need file offset m bits).masked m) = valueEntry s d e code.length value ∧
      BitsAt file offset start ((Inflate.need file offset m bits).dump code.length)
        (p + code.length) := by
  obtain ⟨needed, enough, -⟩ := at_.need width
  obtain ⟨isLength, some_, isCode⟩ := isCode
  have starts := reads.reversed (Nat.le_add_right code.length bmax)
  rw [isCode, isLength] at starts
  have positive : lens.getD value 0 ≠ 0 := by
    rw [← isLength]
    exact fun none_ => some_ (List.length_eq_zero_iff.mp none_)
  obtain ⟨n, found⟩ := finder value below positive (fun bits => .inl (entry bits)) _ starts
  obtain ⟨isEntry, used⟩ := found.direct (by omega)
  rw [field_mod (by omega)] at isEntry
  rw [CodeSet.valueEntry_b, ← isLength] at used
  rw [needed.masked width enough, isEntry, used]
  exact ⟨rfl, needed.dump (by omega)⟩

/-- Run lengths only add to the lengths. -/
theorem Rfc1951.RunLengths.prefix_ {codeLens lens lens' : List Nat} {bits : List Bool}
    (runs : RunLengths codeLens lens bits lens') : lens <+: lens' := by
  induction runs with
  | done => exact List.prefix_rfl
  | length _ _ _ ih => exact (List.prefix_append _ _).trans ih
  | again _ _ _ _ ih => exact (List.prefix_append _ _).trans ih
  | zeros _ _ _ ih => exact (List.prefix_append _ _).trans ih
  | moreZeros _ _ _ ih => exact (List.prefix_append _ _).trans ih

/-- A code for lengths, with the bits after it. -/
theorem BitsAt.readSymbol {codeLens : List Nat} {m symbol : Nat} {tables : Tables}
    {bits : BitBuffer} {code extra rest : List Bool} (at_ : BitsAt file offset start bits p)
    (finder : Finder codeLens 19 19 [] [] tables m) (width : m ≤ bmax)
    (short : ∀ k ∈ codeLens, k ≤ m) (below : symbol < 19) (isCode : IsCode codeLens symbol code)
    (few : extra.length ≤ bmax) (reads : Reads file offset start p (code ++ (extra ++ rest))) :
    tables 0 ((Inflate.need file offset m bits).masked m) =
        { e := 16, b := code.length, v := symbol } ∧
      (Inflate.grab file offset extra.length
        ((Inflate.need file offset m bits).dump code.length)).1 = ofBits extra ∧
      BitsAt file offset start (Inflate.grab file offset extra.length
        ((Inflate.need file offset m bits).dump code.length)).2 (p + (code ++ extra).length) ∧
      Reads file offset start (p + (code ++ extra).length) rest := by
  have entry : ∀ bits, valueEntry 19 [] [] bits symbol = { e := 16, b := bits, v := symbol } :=
    fun bits => by rw [valueEntry_simple below (by omega), if_pos (by omega)]
  rw [← List.append_assoc] at reads
  obtain ⟨readsBoth, readsRest⟩ := reads_append.mp reads
  obtain ⟨readsCode, readsExtra⟩ := reads_append.mp readsBoth
  obtain ⟨isEntry, after⟩ := at_.findDirect finder below isCode (isCode.short short) width readsCode
    fun bits => by rw [entry]
  obtain ⟨grabbed, last⟩ := after.grab_reads readsExtra few
  rw [entry] at isEntry
  rw [Nat.add_assoc, ← List.length_append] at last
  exact ⟨isEntry, grabbed, last, readsRest⟩

/-- The last one behind copies of a value is that value. -/
theorem last_replicate (lens : List Nat) (value : Nat) {count : Nat} (some_ : 0 < count) :
    (lens ++ List.replicate count value).getLast?.getD 0 = value := by
  simp [List.getLast?_append, List.getLast?_replicate, some_.ne']

/-- The lengths of the codes are read as they are meant. -/
theorem readLengths_spec {codeLens lens lens' : List Nat} {tables : Tables} {m n l fuel : Nat}
    {bits : BitBuffer} {read : List Bool} (finder : Finder codeLens 19 19 [] [] tables m)
    (width : m ≤ bmax) (short : ∀ k ∈ codeLens, k ≤ m)
    (runs : RunLengths codeLens lens read lens') (total : lens'.length = n)
    (isLast : l = lens.getLast?.getD 0) (at_ : BitsAt file offset start bits p)
    (reads : Reads file offset start p read) (enough : n - lens.length < fuel) :
    ∃ bits', readLengths file offset tables m n fuel lens l bits = .ok (lens', bits') ∧
      BitsAt file offset start bits' (p + read.length) := by
  induction runs generalizing p bits l fuel with
  | @done lens =>
      obtain ⟨fuel, rfl⟩ := Nat.exists_eq_succ_of_ne_zero (by omega : fuel ≠ 0)
      exact ⟨bits, by rw [readLengths, if_neg (by omega)], at_⟩
  | @length lens lens' value code rest isLength isCode runs ih =>
      obtain ⟨fuel, rfl⟩ := Nat.exists_eq_succ_of_ne_zero (by omega : fuel ≠ 0)
      have grown := runs.prefix_.length_le
      rw [List.length_append, List.length_singleton] at grown
      obtain ⟨readsCode, readsRest⟩ := reads_append.mp reads
      have entry : ∀ bits, valueEntry 19 [] [] bits value = { e := 16, b := bits, v := value } :=
        fun bits => by rw [valueEntry_simple (by omega) (by omega), if_pos (by omega)]
      obtain ⟨isEntry, after⟩ := at_.findDirect finder (by omega) isCode (isCode.short short) width
        readsCode fun bits => by rw [entry]
      rw [entry] at isEntry
      obtain ⟨bits', result, last⟩ := @ih (p + code.length) value fuel _ total (by simp) after
        readsRest (by rw [List.length_append, List.length_singleton]; omega)
      refine ⟨bits', ?_, by rwa [List.length_append, ← Nat.add_assoc]⟩
      rw [readLengths, if_pos (by omega)]
      simp only [isEntry, if_pos isLength]
      exact result
  | @again lens lens' last code extra rest isCode extraBits isLast' runs ih =>
      obtain ⟨fuel, rfl⟩ := Nat.exists_eq_succ_of_ne_zero (by omega : fuel ≠ 0)
      have grown := runs.prefix_.length_le
      rw [List.length_append, List.length_replicate] at grown
      obtain ⟨isEntry, grabbed, after, readsRest⟩ := at_.readSymbol finder width short
        (by decide) isCode (by rw [extraBits]; decide) reads
      obtain rfl : l = last := by rw [isLast, isLast']; rfl
      obtain ⟨bits', result, done⟩ := @ih _ l fuel _ total (last_replicate _ _ (by omega)).symm after
        readsRest (by rw [List.length_append, List.length_replicate]; omega)
      rw [extraBits] at grabbed result
      refine ⟨bits', ?_, by rwa [← List.append_assoc, List.length_append, ← Nat.add_assoc]⟩
      have fits : ¬ n < lens.length + (3 + ofBits extra) := by omega
      rw [readLengths, if_pos (by omega)]
      simp only [isEntry, grabbed, Nat.lt_irrefl, if_false, if_true, if_neg fits]
      exact result
  | @zeros lens lens' code extra rest isCode extraBits runs ih =>
      obtain ⟨fuel, rfl⟩ := Nat.exists_eq_succ_of_ne_zero (by omega : fuel ≠ 0)
      have grown := runs.prefix_.length_le
      rw [List.length_append, List.length_replicate] at grown
      obtain ⟨isEntry, grabbed, after, readsRest⟩ := at_.readSymbol finder width short
        (by decide) isCode (by rw [extraBits]; decide) reads
      obtain ⟨bits', result, done⟩ := @ih _ 0 fuel _ total (last_replicate _ _ (by omega)).symm after
        readsRest (by rw [List.length_append, List.length_replicate]; omega)
      rw [extraBits] at grabbed result
      refine ⟨bits', ?_, by rwa [← List.append_assoc, List.length_append, ← Nat.add_assoc]⟩
      have fits : ¬ n < lens.length + (3 + ofBits extra) := by omega
      have others : ¬ 17 < 16 ∧ ¬ 17 = 16 := by decide
      rw [readLengths, if_pos (by omega)]
      simp only [isEntry, grabbed, if_neg others.1, if_neg others.2, if_true, if_neg fits]
      exact result
  | @moreZeros lens lens' code extra rest isCode extraBits runs ih =>
      obtain ⟨fuel, rfl⟩ := Nat.exists_eq_succ_of_ne_zero (by omega : fuel ≠ 0)
      have grown := runs.prefix_.length_le
      rw [List.length_append, List.length_replicate] at grown
      obtain ⟨isEntry, grabbed, after, readsRest⟩ := at_.readSymbol finder width short
        (by decide) isCode (by rw [extraBits]; decide) reads
      obtain ⟨bits', result, done⟩ := @ih _ 0 fuel _ total (last_replicate _ _ (by omega)).symm after
        readsRest (by rw [List.length_append, List.length_replicate]; omega)
      rw [extraBits] at grabbed result
      refine ⟨bits', ?_, by rwa [← List.append_assoc, List.length_append, ← Nat.add_assoc]⟩
      have fits : ¬ n < lens.length + (11 + ofBits extra) := by omega
      have others : ¬ 18 < 16 ∧ ¬ 18 = 16 ∧ ¬ 18 = 17 := by decide
      rw [readLengths, if_pos (by omega)]
      simp only [isEntry, grabbed, if_neg others.1, if_neg others.2.1, if_neg others.2.2, if_neg fits]
      exact result

/-- All lengths in the fields have three bits. -/
theorem codeLengthLens_le {fields : List (List Bool)} (three : ∀ field ∈ fields, field.length = 3) :
    ∀ k ∈ codeLengthLens fields, k ≤ 7 := by
  intro k member
  obtain ⟨value, -, rfl⟩ := List.mem_map.mp member
  by_cases inside : codeLengthOrder.idxOf value < fields.length
  · rw [List.getD_eq_getElem _ _ inside]
    have below := ofBits_lt fields[codeLengthOrder.idxOf value]
    rw [three _ (List.getElem_mem inside)] at below
    omega
  · rw [List.getD_eq_default _ _ (Nat.le_of_not_lt inside)]
    exact Nat.zero_le _

/-- The tables for the codes for lengths have all of them in the first table. -/
theorem codeLengths_made (stale : Stale) {lens : List Nat} (decodable : Decodable lens)
    (seven : ∀ k ∈ lens, k ≤ 7) (count : lens.length = 19) :
    (huftBuild stale lens 19 [] [] 7).returned = 0 ∧
      Finder lens 19 19 [] [] ((huftBuild stale lens 19 [] [] 7).t.getD stale.memory)
        (huftBuild stale lens 19 [] [] 7).m ∧
      (huftBuild stale lens 19 [] [] 7).m ≤ bmax ∧
      ∀ k ∈ lens, k ≤ (huftBuild stale lens 19 [] [] 7).m := by
  obtain ⟨returned, finder⟩ := decodable.made stale 19 [] [] (by decide : 0 < 7)
    (by rw [count]; decide)
  obtain ⟨-, le, isLength, all⟩ := decodable.lengths.longest_spec
  have isLongest : tableWidth lens 7 = longest lens := by
    have := seven _ (List.count_pos_iff.mp isLength)
    simp only [tableWidth]
    omega
  rw [huftBuild_m stale decodable.lengths, isLongest]
  exact ⟨returned, by simpa [huftBuild_m stale decodable.lengths, isLongest] using finder 19, le, all⟩

/-- `init_dynamic_block` makes the tables for the codes that the header gives. -/
theorem initDynamicBlock_spec (stale : Stale) {lit dist : List Nat} (header : Header lit dist)
    (at_ : BitsAt file offset start state.bits p) (reads : Reads file offset start p header.bits) :
    ∃ bits' tl td bl bd, initDynamicBlock file offset state stale =
        { state.restore bits' with
          tl := tl, td := td, bl := bl, bd := bd, codeState := 0, blockLen := state.blockLen + 1 } ∧
      BlockTables
        { state.restore bits' with
          tl := tl, td := td, bl := bl, bd := bd, codeState := 0, blockLen := state.blockLen + 1 }
        lit dist ∧
      BitsAt file offset start bits' (p + header.bits.length) := by
  obtain ⟨hlit, hdist, hclen, fields, lengths, hlitBits, hdistBits, hclenBits, fieldCount, fieldBits,
    litCount, distCount, litFew, distFew, codeLens, litLens, distLens, runs⟩ := header
  simp only [Header.bits] at reads ⊢
  obtain ⟨readsHlit, reads⟩ := reads_append.mp reads
  obtain ⟨readsHdist, reads⟩ := reads_append.mp reads
  obtain ⟨readsHclen, reads⟩ := reads_append.mp reads
  obtain ⟨readsFields, readsLengths⟩ := reads_append.mp reads
  obtain ⟨isHlit, at₁⟩ := at_.grab_reads readsHlit (by rw [hlitBits]; decide)
  obtain ⟨isHdist, at₂⟩ := at₁.grab_reads readsHdist (by rw [hdistBits]; decide)
  obtain ⟨isHclen, at₃⟩ := at₂.grab_reads readsHclen (by rw [hclenBits]; decide)
  have few : fields.length ≤ 19 := by
    have := ofBits_lt hclen
    rw [hclenBits] at this
    omega
  obtain ⟨at₄, isLens⟩ := readBitLengths_lens at₃ fieldBits few readsFields
  obtain ⟨returned, finder, width, short⟩ := codeLengths_made stale codeLens
    (codeLengthLens_le fieldBits) (by simp [codeLengthLens])
  have total : (lit ++ dist).length = 257 + ofBits hlit + (1 + ofBits hdist) := by
    rw [List.length_append, litCount, distCount]
  obtain ⟨bits', result, at₅⟩ := readLengths_spec finder width short runs total (l := 0) rfl at₄
    readsLengths (Nat.lt_succ_of_le (Nat.sub_le _ _))
  rw [hlitBits] at isHlit at₁ isHdist at₂ isHclen at₃ isLens result
  rw [hdistBits] at isHdist at₂ isHclen at₃ isLens result
  rw [hclenBits] at isHclen at₃ isLens result
  rw [fieldCount] at isLens result
  have notMany : ¬ (286 < 257 + ofBits hlit ∨ 30 < 1 + ofBits hdist) := by omega
  have built : initDynamicBlock file offset state stale =
      buildTables state stale bits' lit dist lbits dbits 0 := by
    simp only [initDynamicBlock, isHlit, isHdist, isHclen, if_neg notMany, isLens, returned]
    rw [if_neg (fun bad => bad rfl), result]
    simp only [← litCount, List.take_left, List.drop_left]
  obtain ⟨litReturned, literal⟩ := litLens.made stale 257 cplens cplext
    (by decide : 0 < lbits) (litFew.trans_lt (by decide))
  obtain ⟨distReturned, distance, distShort⟩ :
      (huftBuild stale dist 0 cpdist cpdext dbits).returned = 0 ∧
        Finder dist 30 0 cpdist cpdext
          ((huftBuild stale dist 0 cpdist cpdext dbits).t.getD stale.memory)
          (huftBuild stale dist 0 cpdist cpdext dbits).m ∧ ∀ k ∈ dist, k ≤ bmax := by
    rcases distLens with decodable | zero
    · obtain ⟨returned, distance⟩ := decodable.made stale 0 cpdist cpdext
        (by decide : 0 < dbits) (distFew.trans_lt (by decide))
      exact ⟨returned, distance 30, decodable.short⟩
    · obtain ⟨returned, distance⟩ := huftBuild_zero stale zero 0 cpdist cpdext dbits
      exact ⟨returned, distance 30 _ _, fun k member => by rw [zero k member]; exact Nat.zero_le _⟩
  obtain ⟨tl, td, bl, bd, isState, tables⟩ := buildTables_spec stale state bits' litReturned
    distReturned.le (literal 286) distance litLens.short distShort
  refine ⟨bits', tl, td, bl, bd, built.trans isState, tables, ?_⟩
  simp only [List.length_append, ← Nat.add_assoc]
  exact at₅

end GrubLegacy.Inflate
