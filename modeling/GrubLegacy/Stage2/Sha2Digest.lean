import GrubLegacy.Stage2.Sha2Rounds

/-!
# The digests of `sha256crypt.c` and `sha512crypt.c`

Bytes that come part by part are absorbed: those of whole blocks are in the hash value, and a block
of them at most waits in the buffer, also a full one. So it does not matter how a message is split,
nor which of its parts are aligned.
-/

namespace GrubLegacy.Stage2.Sha2

open Base

variable {w : Nat} {sha : Sha w} {globals : Globals} {ctx : Context w}
  {done pending input bytes : List UInt8}

/-! ## What a context holds -/

/-- These bytes, a number of blocks, are in the hash value, and they are counted. -/
structure Hashed (sha : Sha w) (ctx : Context w) (done : List UInt8) : Prop where
  whole : done.length % blockSize w = 0
  hash : ctx.H = foldBlocks (blockSize w) (blockStep sha) sha.init done
  count : ctx.total0.toNat + 2 ^ w * ctx.total1.toNat = done.length % (2 ^ w * 2 ^ w)

/-- These bytes wait in the buffer. -/
structure Waits (ctx : Context w) (pending : List UInt8) : Prop where
  buflen : ctx.buflen = pending.length
  few : pending.length ≤ blockSize w
  buffer : bytesAt ctx.buffer 0 pending.length = pending

/-- All of these bytes but the input have been absorbed, and if there is input, none of them
waits. -/
def Takes (sha : Sha w) (bytes : List UInt8) (ctx : Context w) (input : List UInt8) : Prop :=
  ∃ done pending, Hashed sha ctx done ∧ Waits ctx pending ∧ bytes = done ++ pending ++ input ∧
    (input = [] ∨ pending = [])

/-- All of these bytes have been absorbed. -/
def Absorbed (sha : Sha w) (ctx : Context w) (bytes : List UInt8) : Prop :=
  ∃ done pending, Hashed sha ctx done ∧ Waits ctx pending ∧ bytes = done ++ pending

/-- At the start nothing is absorbed. -/
theorem absorbed_initCtx (sha : Sha w) (ctx : Context w) : Absorbed sha (initCtx sha ctx) [] := by
  refine ⟨[], [], ⟨Nat.zero_mod _, (foldBlocks_nil _).symm, ?_⟩, ⟨rfl, Nat.zero_le _, rfl⟩, rfl⟩
  simp [initCtx]

/-- Nothing waits. -/
theorem waits_nil (ctx : Context w) (none_ : ctx.buflen = 0) : Waits ctx [] :=
  ⟨none_, Nat.zero_le _, rfl⟩

/-! ## Counting -/

/-- A number of two digits goes up with a carry. -/
theorem add_carry {base low high number more : Nat} (lowSmall : low < base) (highSmall : high < base)
    (fits : more < base) (digits : low + base * high = number % (base * base)) :
    (low + more) % base +
        base * ((high + if (low + more) % base < more then 1 else 0) % base) =
      (number + more) % (base * base) := by
  have sum : (number + more) % (base * base) = (low + more + base * high) % (base * base) := by
    rw [Nat.add_mod, ← digits, Nat.add_mod_mod, Nat.add_right_comm]
  rw [sum, Nat.mod_mul, Nat.add_mul_mod_self_left, Nat.add_mul_div_left _ _ (by omega)]
  rcases Nat.lt_or_ge (low + more) base with short | carries
  · rw [Nat.mod_eq_of_lt short, if_neg (by omega), Nat.div_eq_of_lt short, Nat.add_comm 0]
  · have rest : (low + more) % base = low + more - base := by
      rw [Nat.mod_eq_sub_mod carries, Nat.mod_eq_of_lt (by omega)]
    have one : (low + more) / base = 1 :=
      Nat.div_eq_of_lt_le (by omega) (by omega)
    rw [rest, if_pos (by omega), one, Nat.add_comm 1]

/-- The count goes up by fewer bytes than a word can hold. -/
theorem Hashed.counted (positive : 0 < w) (hashed : Hashed sha ctx done) {more : Nat}
    (fits : more < 2 ^ w) :
    (ctx.total0 + BitVec.ofNat w more).toNat + 2 ^ w *
        (if (ctx.total0 + BitVec.ofNat w more).toNat < more then ctx.total1 + 1
          else ctx.total1).toNat =
      (done.length + more) % (2 ^ w * 2 ^ w) := by
  have one : (1 : BitVec w).toNat = 1 := BitVec.toNat_one positive
  rw [← add_carry ctx.total0.isLt ctx.total1.isLt fits hashed.count]
  simp only [BitVec.toNat_add, BitVec.toNat_ofNat, Nat.add_mod_mod]
  split
  · rw [BitVec.toNat_add, one]
  · rw [Nat.add_zero, Nat.mod_eq_of_lt ctx.total1.isLt]

/-- Whole blocks are processed, fewer bytes than a word can count. -/
theorem Hashed.processBlock (positive : 0 < w) (hashed : Hashed sha ctx done) {more : List UInt8}
    (whole : more.length % blockSize w = 0) (fits : more.length < 2 ^ w) :
    Hashed sha (processBlock sha more ctx) (done ++ more) where
  whole := by rw [List.length_append, Nat.add_mod, hashed.whole, whole, Nat.zero_mod]
  hash := by
    rw [foldBlocks_whole (by rw [blockSize]; omega) _ hashed.whole, ← hashed.hash]
    rfl
  count := by
    rw [List.length_append, ← hashed.counted positive fits]
    rfl

/-- The buffer is shorter than a word can count. -/
theorem buffer_lt (wide : 32 ≤ w) : 2 * blockSize w < 2 ^ w := by
  obtain ⟨more, rfl⟩ := Nat.exists_eq_add_of_le wide
  have grows : more < 2 ^ more := Nat.lt_two_pow_self
  rw [blockSize, Nat.pow_add]
  omega

/-! ## The parts of `process_bytes` -/

/-- What has been put behind the bytes that wait. -/
theorem Waits.appended (waits : Waits ctx pending) {count : Nat} (inside : count ≤ input.length) :
    bytesAt (copyIn ctx.buffer ctx.buflen (areaOf input) 0 count) 0 (pending.length + count) =
      pending ++ input.take count := by
  rw [waits.buflen, bytesAt_copyIn _ _ inside, waits.buffer]

/-- Bytes of the buffer are moved to its start. -/
theorem bytesAt_moved (area : Area) (start count : Nat) :
    bytesAt (copyIn area 0 area start count) 0 count = bytesAt area start count :=
  bytesAt_congr fun distance small => by
    rw [copyIn_inside (by omega) (by omega), Nat.zero_add, Nat.sub_zero]

/-- The buffer is filled up, and what is complete of it is processed. -/
theorem topUp_takes (wide : 32 ≤ w) (hashed : Hashed sha ctx done) (waits : Waits ctx pending)
    (input : List UInt8) :
    Takes sha (done ++ pending ++ input) (topUp sha input ctx).1 (topUp sha input ctx).2 := by
  have room := waits.few
  have fits := buffer_lt wide
  have block : 0 < blockSize w := by
    rw [blockSize]
    omega
  -- As many bytes are added as the buffer has room for.
  generalize isAdd : (if input.length < 2 * blockSize w - ctx.buflen then input.length
    else 2 * blockSize w - ctx.buflen) = add
  have inside : add ≤ input.length := by
    rw [← isAdd]
    split <;> omega
  have filled : pending.length + add ≤ 2 * blockSize w := by
    rw [← isAdd, waits.buflen]
    split <;> omega
  have all : input.drop add = [] ∨ pending.length + add = 2 * blockSize w := by
    rw [List.drop_eq_nil_iff, ← isAdd, waits.buflen]
    split <;> omega
  have buffer := waits.appended inside
  have parts : done ++ pending ++ input = done ++ (pending ++ input.take add) ++ input.drop add := by
    simp
  have length : (pending ++ input.take add).length = pending.length + add := by simp [inside]
  rw [topUp, isAdd, waits.buflen]
  rw [waits.buflen] at buffer
  generalize copyIn ctx.buffer pending.length (areaOf input) 0 add = area at buffer
  generalize pending ++ input.take add = joined at buffer parts length
  rw [← length] at buffer filled all ⊢
  by_cases full : blockSize w < joined.length
  · simp only [if_pos full]
    have split := Nat.div_add_mod joined.length (blockSize w)
    have early : blockSize w * (joined.length / blockSize w) ≤ joined.length := Nat.mul_div_le _ _
    have front := take_bytesAt area 0 early
    have back := drop_bytesAt area 0 joined.length (blockSize w * (joined.length / blockSize w))
    rw [buffer] at front back
    rw [Nat.zero_add, show joined.length - blockSize w * (joined.length / blockSize w) =
      joined.length % blockSize w by omega] at back
    have rest : (joined.drop (blockSize w * (joined.length / blockSize w))).length =
        joined.length % blockSize w := by
      rw [List.length_drop]
      omega
    have before : Hashed sha { ctx with
        buffer := area
        buflen := joined.length } done := ⟨hashed.whole, hashed.hash, hashed.count⟩
    have processed := before.processBlock (by omega)
      (show (bytesAt area 0 (blockSize w * (joined.length / blockSize w))).length % blockSize w = 0 by
        rw [length_bytesAt, Nat.mul_mod_right])
      (by
        rw [length_bytesAt]
        omega)
    refine ⟨_, joined.drop (blockSize w * (joined.length / blockSize w)),
      ⟨processed.whole, processed.hash, processed.count⟩, ⟨rest.symm, ?_, ?_⟩, ?_, ?_⟩
    · rw [rest]
      exact (Nat.mod_lt _ block).le
    · rw [rest, back]
      exact bytesAt_moved _ _ _
    · rw [parts, ← front, List.append_assoc done (joined.take _), List.take_append_drop]
    · refine all.imp_right fun twice => ?_
      rw [← List.length_eq_zero_iff, rest, twice, Nat.mul_mod_left]
  · simp only [if_neg full]
    refine ⟨done, joined, ⟨hashed.whole, hashed.hash, hashed.count⟩, ⟨rfl, by omega, buffer⟩, parts,
      .inl ?_⟩
    exact all.resolve_right (by omega)

/-- While `errnum` is zero `memcpy` gives its first argument back. -/
theorem Globals.copied_clear (clear : globals.errnum = .none) (bytes : List UInt8) :
    globals.copied bytes = bytes := if_pos clear

/-- The loop processes a block of the input in every turn, and leaves a block of it at most. -/
theorem unalignedBlocks_takes (wide : 32 ≤ w) (clear : globals.errnum = .none)
    (hashed : Hashed sha ctx done) (none_ : ctx.buflen = 0) {fuel : Nat}
    (enough : input.length ≤ fuel) :
    Takes sha (done ++ input) (unalignedBlocks sha globals fuel input ctx).1
        (unalignedBlocks sha globals fuel input ctx).2 ∧
      (unalignedBlocks sha globals fuel input ctx).2.length ≤ blockSize w := by
  have stays {input : List UInt8} {ctx : Context w} {done : List UInt8} (none_ : ctx.buflen = 0)
      (hashed : Hashed sha ctx done) : Takes sha (done ++ input) ctx input :=
    ⟨done, [], hashed, waits_nil ctx none_, by rw [List.append_nil], .inr rfl⟩
  have fits := buffer_lt wide
  induction fuel generalizing ctx input done with
  | zero => exact ⟨stays none_ hashed, enough.trans (Nat.zero_le _)⟩
  | succ fuel ih =>
      rw [unalignedBlocks]
      by_cases more : blockSize w < input.length
      · simp only [if_pos more, Globals.copied_clear clear]
        have block : bytesAt (copyIn ctx.buffer 0 (areaOf input) 0 (blockSize w)) 0 (blockSize w) =
            input.take (blockSize w) := by
          have copied := bytesAt_copyIn ctx.buffer 0 more.le
          rwa [Nat.zero_add] at copied
        have length : (input.take (blockSize w)).length = blockSize w := by simp [more.le]
        have before : Hashed sha
            { ctx with buffer := copyIn ctx.buffer 0 (areaOf input) 0 (blockSize w) } done :=
          ⟨hashed.whole, hashed.hash, hashed.count⟩
        have processed := before.processBlock (by omega)
          (show (input.take (blockSize w)).length % blockSize w = 0 by rw [length, Nat.mod_self])
          (by omega)
        have shorter : (input.drop (blockSize w)).length ≤ fuel := by
          have some_ : 0 < blockSize w := Nat.mul_pos (by decide) (by omega)
          rw [List.length_drop]
          omega
        have next := ih processed none_ shorter
        rwa [List.append_assoc, List.take_append_drop, ← block] at next
      · simp only [if_neg more]
        exact ⟨stays none_ hashed, by omega⟩

/-- The blocks of the input are processed, and a block at most is left. -/
theorem completeBlocks_takes (wide : 32 ≤ w) (clear : globals.errnum = .none) (unaligned : Bool)
    (takes : Takes sha bytes ctx input) (fits : input.length < 2 ^ w) :
    Takes sha bytes (completeBlocks sha globals unaligned input ctx).1
        (completeBlocks sha globals unaligned input ctx).2 ∧
      (completeBlocks sha globals unaligned input ctx).2.length ≤ blockSize w := by
  rw [completeBlocks]
  by_cases enough : blockSize w ≤ input.length
  · obtain ⟨done, pending, hashed, waits, rfl, nothing⟩ := takes
    have block : 0 < blockSize w := by
      rw [blockSize]
      omega
    obtain rfl : pending = [] := nothing.resolve_left (List.ne_nil_of_length_pos (by omega))
    rw [if_pos enough, List.append_nil]
    cases unaligned with
    | true => exact unalignedBlocks_takes wide clear hashed waits.buflen (Nat.le_refl _)
    | false =>
        have early := Nat.mul_div_le input.length (blockSize w)
        have rest := Nat.mod_lt input.length block
        have split := Nat.div_add_mod input.length (blockSize w)
        have length : (input.take (blockSize w * (input.length / blockSize w))).length =
            blockSize w * (input.length / blockSize w) := by simp [early]
        have processed := hashed.processBlock (by omega)
          (show (input.take (blockSize w * (input.length / blockSize w))).length % blockSize w = 0 by
            rw [length, Nat.mul_mod_right])
          (by omega)
        simp only [Bool.false_eq_true, if_false]
        refine ⟨⟨_, [], processed, waits_nil _ waits.buflen, ?_, .inr rfl⟩, ?_⟩
        · simp
        · rw [List.length_drop]
          omega
  · rw [if_neg enough]
    exact ⟨takes, (Nat.lt_of_not_le enough).le⟩

/-- What is left is kept, or processed if it is a block. -/
theorem keepRest_absorbs (wide : 32 ≤ w) (takes : Takes sha bytes ctx input)
    (few : input.length ≤ blockSize w) : Absorbed sha (keepRest sha input ctx) bytes := by
  obtain ⟨done, pending, hashed, waits, rfl, nothing⟩ := takes
  have fits := buffer_lt wide
  rw [keepRest]
  by_cases some_ : 0 < input.length
  · obtain rfl : pending = [] := nothing.resolve_left (List.ne_nil_of_length_pos some_)
    have buffer := waits.appended (Nat.le_refl input.length)
    rw [List.length_nil, Nat.zero_add, List.nil_append, List.take_length] at buffer
    have none_ : ctx.buflen = 0 := waits.buflen
    rw [if_pos some_]
    simp only [none_, Nat.zero_add] at buffer ⊢
    by_cases full : blockSize w ≤ input.length
    · have block : input.length = blockSize w := Nat.le_antisymm few full
      have before : Hashed sha
          { ctx with buffer := copyIn ctx.buffer 0 (areaOf input) 0 input.length } done :=
        ⟨hashed.whole, hashed.hash, hashed.count⟩
      have processed := before.processBlock (by omega)
        (show input.length % blockSize w = 0 by rw [block, Nat.mod_self]) (by omega)
      rw [if_pos full]
      refine ⟨done ++ input, [], ?_, waits_nil _ (Nat.sub_eq_zero_of_le few), by simp⟩
      rw [← block, buffer]
      exact ⟨processed.whole, processed.hash, processed.count⟩
    · rw [if_neg full]
      exact ⟨done, input, ⟨hashed.whole, hashed.hash, hashed.count⟩, ⟨rfl, few, buffer⟩, by simp⟩
  · obtain rfl : input = [] := List.length_eq_zero_iff.mp (by omega)
    rw [if_neg some_]
    exact ⟨done, pending, hashed, waits, by simp⟩

/-- `process_bytes` absorbs its input, aligned or not. -/
theorem Absorbed.processBytes (wide : 32 ≤ w) (clear : globals.errnum = .none)
    (absorbed : Absorbed sha ctx bytes) (address : Nat) {input : List UInt8}
    (fits : input.length < 2 ^ w) :
    Absorbed sha (processBytes sha globals address input ctx) (bytes ++ input) := by
  obtain ⟨done, pending, hashed, waits, rfl⟩ := absorbed
  rw [Sha2.processBytes]
  by_cases waiting : ctx.buflen ≠ 0
  · rw [if_pos waiting]
    have shorter : (topUp sha input ctx).2.length ≤ input.length := by
      rw [topUp, List.length_drop]
      exact Nat.sub_le _ _
    obtain ⟨takes, few⟩ := completeBlocks_takes wide clear _ (topUp_takes wide hashed waits input)
      (shorter.trans_lt fits)
    exact keepRest_absorbs wide takes few
  · rw [if_neg waiting]
    have nothing : pending = [] := List.length_eq_zero_iff.mp (by
      rw [← waits.buflen]
      exact not_not.mp waiting)
    obtain ⟨takes, few⟩ := completeBlocks_takes wide clear _
      ⟨done, pending, hashed, waits, rfl, .inr nothing⟩ fits
    exact keepRest_absorbs wide takes few

/-! ## The end of a message -/

/-- A number is written as its upper and its lower bytes. -/
theorem bytesOf_add (first second n : Nat) :
    Fips180.bytesOf (first + second) n =
      Fips180.bytesOf first (n / 256 ^ second) ++ Fips180.bytesOf second n := by
  simp only [Fips180.bytesOf, Nat.add_comm first, List.range_add, List.reverse_append,
    List.map_append, List.map_reverse, List.map_map]
  congr 2
  refine List.map_congr_left fun i _ => ?_
  simp [Nat.pow_add, Nat.div_div_eq_div_mul]

/-- What is written depends on the lower bytes only. -/
theorem bytesOf_congr {count n m : Nat} (same : n % 256 ^ count = m % 256 ^ count) :
    Fips180.bytesOf count n = Fips180.bytesOf count m := by
  refine List.map_congr_left fun i member => ?_
  have small : i < count := by simpa using member
  have digits (n : Nat) : n / 256 ^ i % 256 = n % 256 ^ count % 256 ^ (i + 1) / 256 ^ i := by
    rw [Nat.mod_mod_of_dvd _ (Nat.pow_dvd_pow _ small), Nat.pow_succ, Nat.mod_mul_right_div_self]
  apply UInt8.toNat_inj.mp
  rw [UInt8.toNat_ofNat', UInt8.toNat_ofNat']
  exact (digits n).trans ((congrArg (· % 256 ^ (i + 1) / 256 ^ i) same).trans (digits m).symm)

/-- Eight times a number of two words, of which some bits are lost. -/
theorem eight_times {quarter low high number : Nat} (positive : 0 < quarter)
    (small : low < 8 * quarter)
    (digits : low + 8 * quarter * high = number % (8 * quarter * (8 * quarter))) :
    8 * number % (8 * quarter) = 8 * low % (8 * quarter) ∧
      8 * number / (8 * quarter) % (8 * quarter) = 8 * (high % quarter) + low / quarter := by
  have whole := Nat.div_add_mod number (8 * quarter * (8 * quarter))
  generalize number / (8 * quarter * (8 * quarter)) = more at whole
  have sum : 8 * number = 8 * low + 8 * quarter * (8 * high + 8 * quarter * (8 * more)) := by
    rw [← whole, ← digits]
    ring
  have top : low / quarter < 8 := Nat.div_lt_of_lt_mul (by rwa [Nat.mul_comm])
  rw [sum]
  constructor
  · rw [Nat.add_mul_mod_self_left]
  · rw [Nat.add_mul_div_left _ _ (by omega), Nat.mul_div_mul_left _ _ (by decide), ← Nat.add_assoc,
      Nat.add_mul_mod_self_left, Nat.mod_mul, Nat.add_mul_mod_self_left, Nat.mod_eq_of_lt top,
      Nat.add_mul_div_left _ _ (by decide), Nat.div_eq_of_lt top, Nat.zero_add, Nat.add_comm]

/-- The two words that hold the length in bits. -/
theorem length_words (wide : 32 ≤ w) (whole : w % 8 = 0) {low high : BitVec w} {number : Nat}
    (digits : low.toNat + 2 ^ w * high.toNat = number % (2 ^ w * 2 ^ w)) :
    Fips180.bytesOf (w / 4) (8 * number) =
      Fips180.bytesOf (w / 8) ((high <<< 3) ||| (low >>> (w - 3))).toNat ++
        Fips180.bytesOf (w / 8) (low <<< 3).toNat := by
  have halves : w / 4 = w / 8 + w / 8 := by omega
  have base : 256 ^ (w / 8) = 2 ^ w := by
    rw [show 256 = 2 ^ 8 from rfl, ← Nat.pow_mul]
    congr 1
    omega
  have quarter : 2 ^ w = 8 * 2 ^ (w - 3) := by
    rw [show 8 = 2 ^ 3 from rfl, ← Nat.pow_add]
    congr 1
    omega
  have small := low.isLt
  rw [quarter] at digits small
  obtain ⟨lower, upper⟩ := eight_times (Nat.two_pow_pos _) small digits
  have top : low.toNat / 2 ^ (w - 3) < 2 ^ 3 := Nat.div_lt_of_lt_mul (by rwa [Nat.mul_comm])
  have joined : ((high <<< 3) ||| (low >>> (w - 3))).toNat =
      8 * (high.toNat % 2 ^ (w - 3)) + low.toNat / 2 ^ (w - 3) := by
    rw [BitVec.toNat_or, BitVec.toNat_shiftLeft, BitVec.toNat_ushiftRight, Nat.shiftLeft_eq,
      Nat.shiftRight_eq_div_pow, quarter, Nat.mul_comm high.toNat, Nat.mul_mod_mul_left]
    exact (Nat.two_pow_add_eq_or_of_lt top _).symm
  rw [halves, bytesOf_add, base]
  congr 1
  · apply bytesOf_congr
    rw [base, joined, quarter, upper, ← upper, Nat.mod_mod]
  · apply bytesOf_congr
    rw [base, BitVec.toNat_shiftLeft, Nat.shiftLeft_eq, quarter, lower, Nat.mod_mod, Nat.mul_comm]

/-- A store in the middle of some bytes. -/
theorem bytesAt_stored (area : Area) (place : Nat) (text : List UInt8) (more : Nat) :
    bytesAt (copyIn area place (areaOf text) 0 text.length) 0 (place + text.length + more) =
      bytesAt area 0 place ++ text ++ bytesAt area (place + text.length) more := by
  have behind : bytesAt (copyIn area place (areaOf text) 0 text.length) (place + text.length) more =
      bytesAt area (place + text.length) more :=
    bytesAt_congr fun distance _ => copyIn_outside (by omega)
  rw [bytesAt_add, bytesAt_copyIn _ _ (Nat.le_refl _), List.take_length, Nat.zero_add, behind]

/-- Two words are stored one before the other, the second one first. -/
theorem bytesAt_twoWords (area : Area) (place : Nat) {first second : List UInt8}
    (same : second.length = first.length) :
    bytesAt (copyIn (copyIn area (place + first.length) (areaOf second) 0 first.length) place
        (areaOf first) 0 first.length) 0 (place + first.length + first.length) =
      bytesAt area 0 place ++ first ++ second := by
  have last := bytesAt_copyIn area (place + first.length) same.ge
  rw [← same, List.take_length, same] at last
  have front := congrArg (List.take place) last
  have back := congrArg (List.drop (place + first.length)) last
  rw [take_bytesAt _ _ (by omega), List.take_append_of_le_length (by rw [length_bytesAt]; omega),
    take_bytesAt _ _ (by omega)] at front
  rw [drop_bytesAt, Nat.zero_add, Nat.add_sub_cancel_left, List.drop_left' (length_bytesAt _ _ _)]
    at back
  rw [bytesAt_stored, front, back]

/-- How long the padding is before the two words. -/
def padLength (w waiting : Nat) : Nat :=
  if blockSize w - w / 4 ≤ waiting then blockSize w + (blockSize w - w / 4) - waiting
  else blockSize w - w / 4 - waiting

/-- The padding fills the last block. -/
theorem padLength_bounds (wide : 32 ≤ w) {waiting : Nat} (few : waiting ≤ blockSize w) :
    0 < padLength w waiting ∧ padLength w waiting ≤ blockSize w ∧
      (waiting + padLength w waiting + w / 4) % blockSize w = 0 := by
  have tail : w / 4 < blockSize w := by
    rw [blockSize]
    omega
  rw [padLength]
  split
  · refine ⟨by omega, by omega, ?_⟩
    rw [show waiting + (blockSize w + (blockSize w - w / 4) - waiting) + w / 4 = 2 * blockSize w by
      omega, Nat.mul_mod_left]
  · refine ⟨by omega, by omega, ?_⟩
    rw [show waiting + (blockSize w - w / 4 - waiting) + w / 4 = blockSize w by omega, Nat.mod_self]

/-- The standard asks for as many bytes. -/
theorem padding_eq (wide : 32 ≤ w) (whole : done.length % blockSize w = 0)
    (few : pending.length ≤ blockSize w) :
    Fips180.padding w (done ++ pending).length =
      (fillbuf w).take (padLength w pending.length) ++
        Fips180.bytesOf (w / 4) (8 * (done ++ pending).length) := by
  have tail : w / 4 < blockSize w := by
    rw [blockSize]
    omega
  obtain ⟨some_, most, -⟩ := padLength_bounds wide few
  have rest : (done ++ pending).length % blockSize w = pending.length % blockSize w := by
    rw [List.length_append, Nat.add_mod, whole, Nat.zero_add, Nat.mod_mod]
  have zeros : (2 * blockSize w - 1 - w / 4 - pending.length % blockSize w) % blockSize w =
      padLength w pending.length - 1 := by
    rcases Nat.lt_or_ge pending.length (blockSize w) with short | full
    · rw [Nat.mod_eq_of_lt short, padLength]
      split
      · rw [Nat.mod_eq_of_lt (by omega)]
        omega
      · rw [Nat.mod_eq_sub_mod (by omega), Nat.mod_eq_of_lt (by omega)]
        omega
    · have all : pending.length = blockSize w := Nat.le_antisymm few full
      rw [all, Nat.mod_self, padLength, if_pos (Nat.sub_le _ _), Nat.mod_eq_sub_mod (by omega),
        Nat.mod_eq_of_lt (by omega)]
      omega
  have fill : (fillbuf w).take (padLength w pending.length) =
      0x80 :: List.replicate (padLength w pending.length - 1) 0 := by
    obtain ⟨count, isCount⟩ := Nat.exists_eq_succ_of_ne_zero some_.ne'
    rw [fillbuf, isCount, List.take_succ_cons, List.take_replicate, Nat.min_eq_left (by omega)]
    rfl
  rw [Fips180.padding, show Fips180.blockSize w = blockSize w from rfl, rest, zeros, fill]
  rfl

/-- The output is the digest of the bytes that have been absorbed. -/
theorem Absorbed.finishCtx {algorithm : Fips180.Algorithm w} (implements : Implements sha algorithm)
    (absorbed : Absorbed sha ctx bytes) :
    (finishCtx sha ctx).2 = Fips180.digest algorithm bytes := by
  obtain ⟨done, pending, hashed, waits, rfl⟩ := absorbed
  have wide := implements.wide
  have fits := buffer_lt wide
  obtain ⟨some_, most, even⟩ := padLength_bounds wide waits.few
  have positive : 0 < blockSize w := Nat.mul_pos (by decide) (by omega)
  have room := waits.few
  -- The bytes that wait are counted, and their number is stored behind the padding.
  have length := length_words wide implements.bytes
    (hashed.counted (by omega) (show pending.length < 2 ^ w by omega))
  rw [← List.length_append] at length
  have fill : padLength w pending.length ≤ (fillbuf w).length := by
    rw [fillbuf, List.length_cons, List.length_replicate]
    omega
  have filled := waits.appended fill
  have turned := storeWord_turned implements.turns
  have storedLength (word : BitVec w) : (storeWord word).length = w / 8 := by simp [storeWord]
  have output (r : HashWords w) :
      (r.list.flatMap fun word => storeWord (sha.SWAP word)) = Fips180.output r.registers := by
    simp only [turned]
    rfl
  have padded := padding_eq wide hashed.whole waits.few
  rw [length, ← List.append_assoc] at padded
  rw [Sha2.finishCtx]
  simp only [waits.buflen] at filled ⊢
  generalize ctx.total0 + BitVec.ofNat w pending.length = total0 at padded ⊢
  generalize (if total0.toNat < pending.length then ctx.total1 + 1 else ctx.total1) = total1
    at padded ⊢
  change padLength w pending.length ≤ _ at fill
  rw [show (if blockSize w - w / 4 ≤ pending.length
      then blockSize w + (blockSize w - w / 4) - pending.length
      else blockSize w - w / 4 - pending.length) = padLength w pending.length from rfl]
  have stored := bytesAt_twoWords
    (copyIn ctx.buffer pending.length (areaOf (fillbuf w)) 0 (padLength w pending.length))
    (pending.length + padLength w pending.length)
    ((storedLength (sha.SWAP (total0 <<< 3))).trans
      (storedLength (sha.SWAP (total1 <<< 3 ||| total0 >>> (w - 3)))).symm)
  have halves : w / 8 + w / 8 = w / 4 := by
    have := implements.bytes
    omega
  rw [storedLength, Nat.add_assoc (pending.length + padLength w pending.length), halves, filled,
    List.append_assoc, List.append_assoc] at stored
  rw [output, processBlock, stored]
  simp only [hashed.hash, turned]
  rw [foldBlocks_registers implements, foldBlocks_registers implements, implements.init,
    Fips180.digest, padded, List.append_assoc, show Fips180.blockSize w = blockSize w from rfl,
    foldBlocks_whole positive _ hashed.whole]
  simp only [List.append_assoc]

/-- So many bytes can be given at once. -/
def PartsFit (w : Nat) (parts : List (Nat × List UInt8)) : Prop :=
  ∀ part ∈ parts, part.2.length < 2 ^ w

/-- However a message is split and aligned, and whatever was in the context before, its digest is
the one of the standard. -/
theorem session_digest {algorithm : Fips180.Algorithm w} (implements : Implements sha algorithm)
    (clear : globals.errnum = .none) (ctx : Context w) {parts : List (Nat × List UInt8)}
    (fit : PartsFit w parts) :
    (session sha globals ctx parts).2 = Fips180.digest algorithm (parts.flatMap Prod.snd) := by
  have absorbed {ctx : Context w} {bytes : List UInt8} (before : Absorbed sha ctx bytes) :
      Absorbed sha (parts.foldl (fun ctx part => processBytes sha globals part.1 part.2 ctx) ctx)
        (bytes ++ parts.flatMap Prod.snd) := by
    induction parts generalizing ctx bytes with
    | nil => simpa using before
    | cons part parts ih =>
        obtain ⟨first, rest⟩ := List.forall_mem_cons.mp fit
        have next := ih rest (before.processBytes implements.wide clear part.1 first)
        rwa [List.append_assoc] at next
  exact (absorbed (absorbed_initCtx sha ctx)).finishCtx implements

/-- Both files compute the digests of the standard while `errnum` is zero. -/
theorem sha2_digest (clear : globals.errnum = .none) (ctx256 : Context 32) (ctx512 : Context 64)
    {parts256 parts512 : List (Nat × List UInt8)} (fit256 : PartsFit 32 parts256)
    (fit512 : PartsFit 64 parts512) :
    (session sha256 globals ctx256 parts256).2 =
        Fips180.digest Fips180.sha256 (parts256.flatMap Prod.snd) ∧
      (session sha512 globals ctx512 parts512).2 =
        Fips180.digest Fips180.sha512 (parts512.flatMap Prod.snd) :=
  ⟨session_digest implements_sha256 clear ctx256 fit256,
    session_digest implements_sha512 clear ctx512 fit512⟩

/-- Short parts fit, -/
theorem partsFit_of_mem {parts : List (Nat × List UInt8)} {bound : Nat} (low : bound < 2 ^ w)
    (short : ∀ part ∈ parts, part.2.length ≤ bound) : PartsFit w parts :=
  fun part member => (short part member).trans_lt low

/-- A message of two parts, the second one at an odd address. -/
def twoParts (n : Nat) : List (Nat × List UInt8) := [(8, [0x61]), (3, List.replicate n 0x61)]

/-- and so do two long ones. -/
theorem twoParts_fit {n : Nat} (low : n + 1 < 2 ^ w) : PartsFit w (twoParts n) :=
  partsFit_of_mem low (by simp [twoParts])

/-- Blocks of the second part are copied before they are processed. -/
theorem sha2_digest_parts :
    let globals : Globals := ⟨.none, fun _ => 0⟩
    (session sha256 globals ⟨sha256.init, 0, 0, 0, fun _ => 0⟩ (twoParts 500)).2 =
        Fips180.digest Fips180.sha256 ((twoParts 500).flatMap Prod.snd) ∧
      (session sha512 globals ⟨sha512.init, 0, 0, 0, fun _ => 0⟩ (twoParts 500)).2 =
        Fips180.digest Fips180.sha512 ((twoParts 500).flatMap Prod.snd) :=
  sha2_digest rfl _ _ (twoParts_fit (by decide)) (twoParts_fit (by decide))

end GrubLegacy.Stage2.Sha2
