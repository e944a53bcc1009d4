import GrubLegacy.Stage2.Sha2Digest
import GrubLegacy.Stage2.ShaCrypt

/-!
# The digest of a password

What `crypt_r` digests, in the terms of the messages alone: neither what the contexts held before
nor where the bytes are plays a part.
-/

namespace GrubLegacy.Stage2.Sha2

open Base

variable {w : Nat}

/-! ## Messages -/

namespace ShaCrypt

section

variable (digest : List UInt8 → List UInt8) (key salt : List UInt8)

/-- So many bytes of a digest, over and over. -/
def repeated (bytes : List UInt8) (count : Nat) : List UInt8 :=
  (List.range count).map fun i => bytes.getD (i % bytes.length) 0

/-- The digest of the key, the salt and the key again. -/
def alternate : List UInt8 := digest (key ++ salt ++ key)

/-- For each bit of the key's length, the lowest first, the sum or the key. -/
def lengthBits : List UInt8 :=
  (Nat.digits 2 key.length).flatMap fun bit => if bit = 1 then alternate digest key salt else key

/-- The digest that the rounds begin with. -/
def started : List UInt8 :=
  digest (key ++ salt ++ repeated (alternate digest key salt) key.length ++
    lengthBits digest key salt)

/-- `P` -/
def pBytes : List UInt8 := repeated (digest (List.replicate key.length key).flatten) key.length

/-- `S` -/
def sBytes : List UInt8 :=
  repeated (digest (List.replicate (16 + ((started digest key salt).headD 0).toNat) salt).flatten)
    salt.length

/-- A round. -/
def mixed (i : Nat) (last : List UInt8) : List UInt8 :=
  digest ((if i % 2 = 1 then pBytes digest key else last) ++
    (if i % 3 ≠ 0 then sBytes digest key salt else []) ++
    (if i % 7 ≠ 0 then pBytes digest key else []) ++
    (if i % 2 = 1 then last else pBytes digest key))

/-- The digest after so many rounds. -/
def mixedBy : Nat → List UInt8
  | 0 => started digest key salt
  | i + 1 => mixed digest key salt i (mixedBy i)

end

attribute [local simp] mixedBy

/-- As many bytes are repeated as are asked for. -/
@[simp] theorem length_repeated (bytes : List UInt8) (count : Nat) :
    (repeated bytes count).length = count := by
  simp [repeated]

/-- A few bytes are the start. -/
theorem repeated_of_le {bytes : List UInt8} {count : Nat} (few : count ≤ bytes.length) :
    repeated bytes count = bytes.take count := by
  apply List.ext_getElem
  · simp [few]
  · intro i small inside
    rw [length_repeated] at small
    have low : i % bytes.length = i := Nat.mod_eq_of_lt (by omega)
    simp [repeated, low, Nat.lt_of_lt_of_le small few]

/-- A whole digest comes before the others. -/
theorem repeated_add (bytes : List UInt8) (more : Nat) :
    repeated bytes (bytes.length + more) = bytes ++ repeated bytes more := by
  have whole : (List.range bytes.length).map (fun i => bytes.getD (i % bytes.length) 0) = bytes :=
    (repeated_of_le (Nat.le_refl bytes.length)).trans bytes.take_length
  rw [repeated, List.range_add, List.map_append, whole, List.map_map, repeated]
  congr 1
  refine List.map_congr_left fun i _ => ?_
  rw [Function.comp_apply, Nat.add_mod_left]

end ShaCrypt

/-! ## Parts -/

/-- The parts of the alternate sum are its repetition. -/
theorem sumParts_bytes {altResult : List UInt8} (address : Nat) {fuel cnt : Nat} (some_ : 0 < w)
    (size : altResult.length = w) (enough : cnt ≤ fuel) :
    (sumParts w address altResult fuel cnt).flatMap Prod.snd = ShaCrypt.repeated altResult cnt := by
  have last {cnt : Nat} (few : cnt ≤ w) :
      [(address, altResult.take cnt)].flatMap Prod.snd = ShaCrypt.repeated altResult cnt := by
    rw [ShaCrypt.repeated_of_le (by omega)]
    simp
  induction fuel generalizing cnt with
  | zero => exact last (by omega)
  | succ fuel ih =>
      rw [sumParts]
      split
      next more =>
        obtain ⟨rest, rfl⟩ := Nat.exists_eq_add_of_le more.le
        have whole := ShaCrypt.repeated_add altResult rest
        rw [size] at whole
        rw [List.flatMap_cons, Nat.add_sub_cancel_left, ih (by omega), whole,
          List.take_of_length_le size.le]
      next few => exact last (by omega)

/-- So is the sequence for key and salt. -/
theorem byteSequence_eq {tempResult : List UInt8} {fuel cnt : Nat} (some_ : 0 < w)
    (size : tempResult.length = w) (enough : cnt ≤ fuel) :
    byteSequence w tempResult fuel cnt = ShaCrypt.repeated tempResult cnt := by
  induction fuel generalizing cnt with
  | zero => rw [byteSequence, ShaCrypt.repeated_of_le (by omega)]
  | succ fuel ih =>
      rw [byteSequence]
      split
      next more =>
        obtain ⟨rest, rfl⟩ := Nat.exists_eq_add_of_le more
        have whole := ShaCrypt.repeated_add tempResult rest
        rw [size] at whole
        rw [Nat.add_sub_cancel_left, ih (by omega), whole, List.take_of_length_le size.le]
      next few => rw [ShaCrypt.repeated_of_le (by omega)]

/-- The parts by the bits of the length are those of its digits. -/
theorem bitParts_bytes (sum key : Nat × List UInt8) {fuel cnt : Nat} (enough : cnt ≤ fuel) :
    (bitParts sum key fuel cnt).flatMap Prod.snd =
      (Nat.digits 2 cnt).flatMap fun bit => if bit = 1 then sum.2 else key.2 := by
  induction fuel generalizing cnt with
  | zero =>
      obtain rfl := Nat.le_zero.mp enough
      rfl
  | succ fuel ih =>
      rw [bitParts]
      split
      next positive =>
        rw [List.flatMap_cons, ih (by omega), Nat.digits_def' (by decide) positive,
          List.flatMap_cons, apply_ite Prod.snd]
      next none_ =>
        obtain rfl : cnt = 0 := by omega
        rfl

/-- All parts are ones of these. -/
theorem mem_bitParts {sum key part : Nat × List UInt8} {fuel cnt : Nat}
    (member : part ∈ bitParts sum key fuel cnt) : part = sum ∨ part = key := by
  induction fuel generalizing cnt with
  | zero => cases member
  | succ fuel ih =>
      rw [bitParts] at member
      split at member
      · rcases List.mem_cons.mp member with rfl | later
        · split <;> simp
        · exact ih later
      · cases member

/-- None of them is longer than the sum. -/
theorem mem_sumParts {altResult : List UInt8} {address size : Nat} {part : Nat × List UInt8}
    {fuel cnt : Nat} (member : part ∈ sumParts size address altResult fuel cnt) :
    part.2.length ≤ altResult.length := by
  induction fuel generalizing cnt with
  | zero =>
      rw [sumParts, List.mem_singleton] at member
      simp [member]
  | succ fuel ih =>
      rw [sumParts] at member
      split at member
      · rcases List.mem_cons.mp member with rfl | later
        · simp
        · exact ih later
      · rw [List.mem_singleton] at member
        simp [member]

/-- The parts of a round, as one text. -/
theorem roundParts_bytes (result p s : Nat × List UInt8) (cnt : Nat) :
    (roundParts result p s cnt).flatMap Prod.snd =
      (if cnt % 2 = 1 then p.2 else result.2) ++ (if cnt % 3 ≠ 0 then s.2 else []) ++
        (if cnt % 7 ≠ 0 then p.2 else []) ++ (if cnt % 2 = 1 then result.2 else p.2) := by
  rw [roundParts, List.flatMap_cons, List.flatMap_append, List.flatMap_append,
    List.flatMap_singleton]
  split <;> split <;> split <;> simp

/-- Each of them is the result or one of the two sequences. -/
theorem mem_roundParts {result p s part : Nat × List UInt8} {cnt : Nat}
    (member : part ∈ roundParts result p s cnt) : part = result ∨ part = p ∨ part = s := by
  rw [roundParts] at member
  split at member <;> split at member <;> split at member <;> simp at member <;> tauto

/-! ## Rounds -/

section

variable {sha : Sha w} {algorithm : Fips180.Algorithm w} {globals : Globals}

/-- A digest has the bytes of its algorithm. -/
theorem Implements.length_digest (implements : Implements sha algorithm) (message : List UInt8) :
    (Fips180.digest algorithm message).length = w := by
  have whole := implements.bytes
  rw [Fips180.digest, Fips180.length_output]
  omega

/-- The loop, where `P` and `S` are in memory. -/
theorem rounds_mixed (implements : Implements sha algorithm) (clear : globals.errnum = .none)
    (place : Placement) {bound : Nat} (low : bound < 2 ^ w) (wide : w ≤ bound) {key salt : List UInt8}
    (keyShort : key.length ≤ bound)
    (saltShort : salt.length ≤ bound) (ctx : Context w) (rounds : Nat) :
    ((List.range rounds).foldl (fun (ctx, altResult) cnt => session sha globals ctx
          (roundParts (place.altResult, altResult)
            (place.pBytes, ShaCrypt.pBytes (Fips180.digest algorithm) key)
            (place.sBytes, ShaCrypt.sBytes (Fips180.digest algorithm) key salt) cnt))
        (ctx, ShaCrypt.started (Fips180.digest algorithm) key salt)).2 =
      ShaCrypt.mixedBy (Fips180.digest algorithm) key salt rounds := by
  have digestShort (message : List UInt8) : (Fips180.digest algorithm message).length ≤ bound :=
    (implements.length_digest message).trans_le wide
  have resultShort (rounds : Nat) :
      (ShaCrypt.mixedBy (Fips180.digest algorithm) key salt rounds).length ≤ bound := by
    cases rounds with
    | zero => exact digestShort _
    | succ rounds => exact digestShort _
  induction rounds with
  | zero => rfl
  | succ rounds ih =>
      rw [List.range_succ, List.foldl_append, List.foldl_cons, List.foldl_nil]
      generalize List.foldl _ _ (List.range rounds) = state at ih ⊢
      obtain ⟨last, result⟩ := state
      obtain rfl : result = ShaCrypt.mixedBy (Fips180.digest algorithm) key salt rounds := ih
      have fit : PartsFit w (roundParts
          (place.altResult, ShaCrypt.mixedBy (Fips180.digest algorithm) key salt rounds)
          (place.pBytes, ShaCrypt.pBytes (Fips180.digest algorithm) key)
          (place.sBytes, ShaCrypt.sBytes (Fips180.digest algorithm) key salt) rounds) := by
        refine partsFit_of_mem low fun part member => ?_
        rcases mem_roundParts member with rfl | rfl | rfl
        · exact resultShort rounds
        · simpa [ShaCrypt.pBytes] using keyShort
        · simpa [ShaCrypt.sBytes] using saltShort
      rw [session_digest implements clear _ fit, roundParts_bytes]
      rfl

/-- What `crypt_r` has in `alt_result` in the end is what the algorithm prescribes. -/
theorem cryptDigest_mixed (implements : Implements sha algorithm)
    (clear : globals.errnum = .none) (place : Placement) (ctx altCtx : Context w)
    {keyPart saltPart : Nat × List UInt8} (keyFits : keyPart.2.length < 2 ^ w)
    (saltFits : saltPart.2.length < 2 ^ w) (rounds : Nat) :
    cryptDigest sha globals place ctx altCtx keyPart saltPart rounds =
      ShaCrypt.mixedBy (Fips180.digest algorithm) keyPart.2 saltPart.2 rounds := by
  obtain ⟨keyAddress, key⟩ := keyPart
  obtain ⟨saltAddress, salt⟩ := saltPart
  dsimp only at keyFits saltFits ⊢
  have positive : 0 < w := by have := implements.wide; omega
  obtain ⟨bound, low, wide, keyShort, saltShort⟩ :
      ∃ bound, bound < 2 ^ w ∧ w ≤ bound ∧ key.length ≤ bound ∧ salt.length ≤ bound :=
    ⟨max w (max key.length salt.length), by simp [Nat.lt_two_pow_self, keyFits, saltFits],
      by simp, by simp, by simp⟩
  have size := implements.length_digest
  -- The first sum, and what is digested with it.
  have sumFit : PartsFit w [(keyAddress, key), (saltAddress, salt), (keyAddress, key)] :=
    partsFit_of_mem low (by simp [keyShort, saltShort])
  have sum := session_digest implements clear altCtx sumFit
  rw [show ([(keyAddress, key), (saltAddress, salt), (keyAddress, key)] : List (Nat × List UInt8)).flatMap
      Prod.snd = key ++ salt ++ key by simp] at sum
  have startFit (altResult : List UInt8) (altSize : altResult.length = w) :
      PartsFit w ((keyAddress, key) :: (saltAddress, salt) ::
        (sumParts w place.altResult altResult key.length key.length ++
          bitParts (place.altResult, altResult) (keyAddress, key) key.length key.length)) := by
    refine partsFit_of_mem low fun part member => ?_
    rcases List.mem_cons.mp member with rfl | member
    · exact keyShort
    rcases List.mem_cons.mp member with rfl | member
    · exact saltShort
    rcases List.mem_append.mp member with sums | bits
    · exact (mem_sumParts sums).trans (altSize.trans_le wide)
    · rcases mem_bitParts bits with rfl | rfl
      · exact altSize.trans_le wide
      · exact keyShort
  have altSize : (ShaCrypt.alternate (Fips180.digest algorithm) key salt).length = w := size _
  have start := session_digest implements clear ctx
    (startFit (ShaCrypt.alternate (Fips180.digest algorithm) key salt) altSize)
  rw [List.flatMap_cons, List.flatMap_cons, List.flatMap_append,
    sumParts_bytes _ positive altSize (Nat.le_refl _), bitParts_bytes _ _ (Nat.le_refl _),
    ← List.append_assoc, ← List.append_assoc] at start
  change _ = ShaCrypt.started (Fips180.digest algorithm) key salt at start
  -- `P` and `S`, of which only the number of the parts is large.
  have repeatedFit (address count : Nat) {bytes : List UInt8} (short : bytes.length ≤ bound) :
      PartsFit w (List.replicate count (address, bytes)) :=
    partsFit_of_mem low fun part member => by
      rwa [List.eq_of_mem_replicate member]
  have repeatedBytes (address count : Nat) (bytes : List UInt8) :
      (List.replicate count (address, bytes)).flatMap Prod.snd =
        (List.replicate count bytes).flatten := by
    rw [List.flatMap_def, List.map_replicate]
  have p (ctx : Context w) :
      byteSequence w (session sha globals ctx (List.replicate key.length (keyAddress, key))).2
        key.length key.length = ShaCrypt.pBytes (Fips180.digest algorithm) key := by
    rw [session_digest implements clear _ (repeatedFit _ _ keyShort), repeatedBytes,
      byteSequence_eq positive (size _) (Nat.le_refl _), ShaCrypt.pBytes]
  have s (ctx : Context w) (altResult : List UInt8) :
      byteSequence w (session sha globals ctx
          (List.replicate (16 + (altResult.headD 0).toNat) (saltAddress, salt))).2
          salt.length salt.length =
        ShaCrypt.repeated (Fips180.digest algorithm
          (List.replicate (16 + (altResult.headD 0).toNat) salt).flatten) salt.length := by
    rw [session_digest implements clear _ (repeatedFit _ _ saltShort), repeatedBytes,
      byteSequence_eq positive (size _) (Nat.le_refl _)]
  rw [cryptDigest]
  simp only [sum, p, s]
  rw [show Fips180.digest algorithm (key ++ salt ++ key) =
    ShaCrypt.alternate (Fips180.digest algorithm) key salt from rfl, start]
  exact rounds_mixed implements clear place low wide keyShort saltShort _ rounds

end

/-- Both files compute the digest of a password as the algorithm prescribes it while `errnum` is
zero, whatever the contexts held before and wherever the password, the salt and the digests are. -/
theorem crypt_digest (around256 : Surroundings 32) (around512 : Surroundings 64)
    (clear256 : around256.globals.errnum = .none) (clear512 : around512.globals.errnum = .none)
    {key salt : Nat × List UInt8} (keyFits : key.2.length < 2 ^ 32)
    (saltShort : salt.2.length ≤ saltLenMax) (rounds : Nat) :
    cryptDigest sha256 around256.globals around256.place around256.ctx around256.altCtx key salt
          rounds =
        ShaCrypt.mixedBy (Fips180.digest Fips180.sha256) key.2 salt.2 rounds ∧
      cryptDigest sha512 around512.globals around512.place around512.ctx around512.altCtx key salt
          rounds =
        ShaCrypt.mixedBy (Fips180.digest Fips180.sha512) key.2 salt.2 rounds :=
  ⟨cryptDigest_mixed implements_sha256 clear256 _ _ _ keyFits
      (by rw [saltLenMax] at saltShort; omega) rounds,
    cryptDigest_mixed implements_sha512 clear512 _ _ _ (by omega)
      (by rw [saltLenMax] at saltShort; omega) rounds⟩

/-- Fresh contexts, addresses that are not aligned and `errnum` zero. -/
def someSurroundings (sha : Sha w) : Surroundings w where
  key := ⟨1, 32⟩
  salt := ⟨2, 64⟩
  place := ⟨4, 8, 16⟩
  ctx := ⟨sha.init, 0, 0, 0, fun _ => 0⟩
  altCtx := ⟨sha.init, 0, 0, 0, fun _ => 0⟩
  globals := ⟨.none, fun _ => 0⟩

/-- A password of three characters. -/
theorem crypt_digest_key :
    let around256 := someSurroundings sha256
    let around512 := someSurroundings sha512
    cryptDigest sha256 around256.globals around256.place around256.ctx around256.altCtx
          (1, [0x6b, 0x65, 0x79]) (2, [0x73, 0x61]) 1000 =
        ShaCrypt.mixedBy (Fips180.digest Fips180.sha256) [0x6b, 0x65, 0x79] [0x73, 0x61] 1000 ∧
      cryptDigest sha512 around512.globals around512.place around512.ctx around512.altCtx
          (1, [0x6b, 0x65, 0x79]) (2, [0x73, 0x61]) 1000 =
        ShaCrypt.mixedBy (Fips180.digest Fips180.sha512) [0x6b, 0x65, 0x79] [0x73, 0x61] 1000 :=
  crypt_digest _ _ rfl rfl (by decide) (by decide) 1000

end GrubLegacy.Stage2.Sha2
