import GrubLegacy.Stage2.Md5Crypt
import GrubLegacy.Stage2.Md5Digest
import GrubLegacy.Stage2.Vsprintf

/-!
# Passwords

`md5_password` of `md5.c` crypts a key, or compares what it would make of one with a string. Both
take the salt out of the string, each by a rule of its own.
-/

namespace GrubLegacy.Stage2

open Base CStrings

def b64t : List UInt8 := ascii "./0123456789ABCDEFGHIJKLMNOPQRSTUVWXYZabcdefghijklmnopqrstuvwxyz"

/-- `strstr (salt, "$") - salt`, if there is one before the end of the string. -/
def findDollar (crypted : Area) : Option Nat :=
  let distance := spanLength (fun c => isText c && c != charOf '$') crypted addressSpace 3
  if crypted (3 + distance) = charOf '$' then some distance else none

/-- How far the search for it reads. -/
def searched (crypted : Area) : List Nat :=
  (List.range (spanLength (fun c => isText c && c != charOf '$') crypted addressSpace 3 + 1)).map (3 + ·)

/-- The calls with `alt_result`: `i` counts down from the length of the key. -/
def altParts (altResult : List UInt8) : (fuel i : Nat) → List (List UInt8)
  | 0, i => [altResult.take i]
  | fuel + 1, i =>
    if 16 < i then altResult.take 16 :: altParts altResult fuel (i - 16) else [altResult.take i]

/-- The calls for the bits of the length: the NUL of the key or its first character. -/
def bitParts (key : List UInt8) : (fuel i : Nat) → List (List UInt8)
  | 0, _ => []
  | fuel + 1, i =>
    if 0 < i then [areaOf key (if i % 2 = 1 then key.length else 0)] :: bitParts key fuel (i / 2)
    else []

/-- The calls of one of the thousand turns. -/
def turnParts (key salt altResult : List UInt8) (i : Nat) : List (List UInt8) :=
  [if i % 2 ≠ 0 then key else altResult] ++ (if i % 3 ≠ 0 then [salt] else []) ++
    (if i % 7 ≠ 0 then [key] else []) ++ [if i % 2 ≠ 0 then altResult else key]

/-- The digest of a key, from what is hashed of the string. -/
def passwordDigest (md5 : Md5) (key header salt : List UInt8) : List UInt8 :=
  let md5 := md5Session md5 [key, salt, key]
  let altResult := md5.digest
  let md5 := md5Session md5 ([key, header] ++ altParts altResult key.length key.length ++
    bitParts key key.length key.length)
  ((List.range 1000).foldl (fun md5 i => md5Session md5 (turnParts key salt md5.digest i)) md5).digest

/-- Characters of six bits each. -/
def encode : (count w : Nat) → List UInt8
  | 0, _ => []
  | count + 1, w => b64t.getD (w % 64) 0 :: encode count (w / 64)

/-- The characters that are stored or compared, one after the other. -/
def cryptChars (digest : List UInt8) : List UInt8 :=
  let byte := fun i => (digest.getD i 0).toNat
  (List.range 5).flatMap (fun i => encode 4
    (byte (if i = 4 then 5 else 12 + i) ||| byte (6 + i) <<< 8 ||| byte i <<< 16)) ++
    encode 2 (byte 11)

/-- The comparison from a place on: what is returned, and the places that are read. -/
def compareChars (crypted : Area) : (p : Nat) → List UInt8 → UInt8 × List Nat
  | p, [] => (crypted p, [p])
  | p, c :: chars =>
    if crypted p ≠ c then (1, [p])
    else
      let (returned, reads) := compareChars crypted (p + 1) chars
      (returned, p :: reads)

/-- What a call returns, what it leaves in `crypted`, and where it has read there. -/
structure PasswordRun where
  returned : UInt8
  crypted : Area
  reads : List Nat

/-- `md5_password`; nothing where the length of the salt is the difference of NULL and a pointer. -/
def md5Password (md5 : Md5) (key : List UInt8) (crypted : Area) (check : Bool) : Option PasswordRun :=
  if check then
    if strlen crypted 0 ≤ 3 then
      some { returned := 1, crypted := crypted, reads := List.range (strlen crypted 0 + 1) }
    else
      (findDollar crypted).map fun saltlen =>
        let digest := passwordDigest md5 key (bytesAt crypted 0 (3 + saltlen)) (bytesAt crypted 3 saltlen)
        let compared := compareChars crypted (3 + saltlen + 1) (cryptChars digest)
        { returned := compared.1
          crypted := crypted
          reads := List.range (strlen crypted 0 + 1) ++ searched crypted ++
            List.range (3 + saltlen) ++ compared.2 }
  else
    let saltlen := match findDollar crypted with
      | some distance => if distance < 8 then distance else 8
      | none => 8
    let salted := setByte crypted (3 + saltlen) (charOf '$')
    let chars :=
      cryptChars (passwordDigest md5 key (bytesAt salted 0 (3 + saltlen)) (bytesAt salted 3 saltlen))
    let written := copyIn salted (3 + saltlen + 1) (areaOf chars) 0 chars.length
    some
      { returned := 0
        crypted := setByte written (3 + saltlen + 1 + chars.length) 0
        reads := searched crypted ++ List.range (3 + saltlen) }

/-! ## The digest of a password -/

/-- A digest has 16 bytes. -/
theorem length_lowDigest (message : List UInt8) : (lowDigest message).length = 16 :=
  Rfc1321.length_output _

/-- The calls with the alternate digest give as many bytes as are counted down. -/
theorem altParts_flatten {altResult : List UInt8} (size : altResult.length = 16) {fuel i : Nat}
    (enough : i ≤ fuel) :
    (altParts altResult fuel i).flatten = (List.range i).map fun j => altResult.getD (j % 16) 0 := by
  have start : ∀ i ≤ 16, altResult.take i = (List.range i).map fun j => altResult.getD (j % 16) 0 := by
    intro i few
    apply List.ext_getElem
    · simp [size, few]
    · intro j small inside
      simp only [List.length_map, List.length_range] at inside
      have low : j % 16 = j := Nat.mod_eq_of_lt (by omega)
      simp [low, size, Nat.lt_of_lt_of_le inside few]
  induction fuel generalizing i with
  | zero =>
      obtain rfl := Nat.le_zero.mp enough
      rfl
  | succ fuel ih =>
      rw [altParts]
      split
      next more =>
        obtain ⟨rest, rfl⟩ := Nat.exists_eq_add_of_le (Nat.le_of_lt more)
        rw [List.flatten_cons, Nat.add_sub_cancel_left, ih (by omega), start 16 (Nat.le_refl _),
          List.range_add, List.map_append, List.map_map]
        congr 2
        ext j
        simp
      next few => simp [start i (by omega)]

/-- The calls for the bits of the length. -/
theorem bitParts_flatten (key : List UInt8) {fuel i : Nat} (enough : i ≤ fuel) :
    (bitParts key fuel i).flatten =
      (Nat.digits 2 i).map fun bit => if bit = 1 then 0 else key.headD 0 := by
  have nul : areaOf key key.length = 0 := areaOf_ge (Nat.le_refl _)
  have first : areaOf key 0 = key.headD 0 := by
    cases key <;> rfl
  induction fuel generalizing i with
  | zero =>
      obtain rfl := Nat.le_zero.mp enough
      rfl
  | succ fuel ih =>
      rw [bitParts]
      split
      next positive =>
        rw [List.flatten_cons, ih (by omega), Nat.digits_def' (by decide) positive, List.map_cons]
        split
        next odd => rw [nul]; rfl
        next even => rw [first]; rfl
      next none =>
        obtain rfl : i = 0 := by omega
        rfl

/-- What a turn hashes, as one text. -/
theorem turnParts_flatten (key salt altResult : List UInt8) (i : Nat) :
    (turnParts key salt altResult i).flatten =
      (if i % 2 = 1 then key else altResult) ++ (if i % 3 = 0 then [] else salt) ++
        (if i % 7 = 0 then [] else key) ++ (if i % 2 = 1 then altResult else key) := by
  have parity : (if i % 2 ≠ 0 then key else altResult) = (if i % 2 = 1 then key else altResult) ∧
      (if i % 2 ≠ 0 then altResult else key) = (if i % 2 = 1 then altResult else key) := by
    rcases Nat.mod_two_eq_zero_or_one i with even | odd
    · simp [even]
    · simp [odd]
  rw [turnParts, parity.1, parity.2]
  by_cases third : i % 3 = 0
  · by_cases seventh : i % 7 = 0
    · simp [third, seventh]
    · simp [third, seventh]
  · by_cases seventh : i % 7 = 0
    · simp [third, seventh]
    · simp [third, seventh]

/-- The turns are the rounds of the mixing. -/
theorem turns_digest {md5 : Md5} {key magic salt : List UInt8}
    (begun : md5.digest = Md5Crypt.started lowDigest key magic salt) (count : Nat) :
    ((List.range count).foldl (fun md5 i => md5Session md5 (turnParts key salt md5.digest i))
      md5).digest = Md5Crypt.mixedBy lowDigest key magic salt count := by
  induction count with
  | zero => exact begun
  | succ count ih =>
      rw [List.range_succ, List.foldl_append, List.foldl_cons, List.foldl_nil, md5Session_digest, ih,
        turnParts_flatten]
      rfl

/-- The digest of a password is that of MD5-crypt. -/
theorem passwordDigest_eq (md5 : Md5) (key magic salt : List UInt8) :
    passwordDigest md5 key (magic ++ salt) salt =
      Md5Crypt.mixedBy lowDigest key magic salt 1000 := by
  have alternate : (md5Session md5 [key, salt, key]).digest =
      Md5Crypt.alternate lowDigest key salt := by
    rw [md5Session_digest]
    simp [Md5Crypt.alternate]
  have size : (Md5Crypt.alternate lowDigest key salt).length = 16 := length_lowDigest _
  apply turns_digest
  rw [md5Session_digest, alternate, Md5Crypt.started]
  congr 1
  rw [List.flatten_append, List.flatten_append, altParts_flatten size (Nat.le_refl _),
    bitParts_flatten key (Nat.le_refl _)]
  simp [Md5Crypt.repeated, Md5Crypt.lengthBits]

/-- The encoding of the code is that of the format. -/
theorem encode_eq (count w : Nat) : encode count w = Md5Crypt.to64 count w := by
  induction count generalizing w with
  | zero => rfl
  | succ count ih =>
      rw [encode, ih, Md5Crypt.to64, Md5Crypt.to64, List.range_succ_eq_map, List.map_cons, List.map_map]
      congr 1
      · simp [b64t, Md5Crypt.itoa64]
      · refine List.map_congr_left fun n _ => ?_
        rw [Function.comp_apply, Nat.pow_succ', Nat.div_div_eq_div_mul]

/-- The characters that are stored are the digits of MD5-crypt. -/
theorem cryptChars_eq (digest : List UInt8) : cryptChars digest = Md5Crypt.inDigits digest := by
  have packed : ∀ low middle high : UInt8,
      low.toNat ||| middle.toNat <<< 8 ||| high.toNat <<< 16 =
        high.toNat * 2 ^ 16 + middle.toNat * 2 ^ 8 + low.toNat := by
    intro low middle high
    have two : low.toNat ||| middle.toNat <<< 8 = middle.toNat <<< 8 + low.toNat := by
      rw [Nat.or_comm, Nat.shiftLeft_add_eq_or_of_lt low.toNat_lt]
    have small : middle.toNat <<< 8 + low.toNat < 2 ^ 16 := by
      have := low.toNat_lt
      have := middle.toNat_lt
      rw [Nat.shiftLeft_eq]
      omega
    rw [two, Nat.or_comm, ← Nat.shiftLeft_add_eq_or_of_lt small, Nat.shiftLeft_eq, Nat.shiftLeft_eq]
    omega
  simp only [cryptChars, Md5Crypt.inDigits, packed, encode_eq]
  simp [List.range_succ]

/-! ## The salt of a string -/

/-- A memory begins with these bytes. -/
def BeginsWith (area : Area) (text : List UInt8) : Prop := ∀ i < text.length, area i = areaOf text i

/-- A character of the text that an area begins with. -/
theorem BeginsWith.byte {area : Area} {front rest : List UInt8} {c : UInt8}
    (begins : BeginsWith area (front ++ c :: rest)) : area front.length = c := by
  rw [begins _ (by simp), areaOf_append, if_neg (Nat.lt_irrefl _), Nat.sub_self]
  rfl

/-- A part of the bytes that a memory begins with. -/
theorem BeginsWith.part {area : Area} {front middle rest : List UInt8}
    (begins : BeginsWith area (front ++ middle ++ rest)) :
    bytesAt area front.length middle.length = middle := by
  apply List.ext_getElem (length_bytesAt _ _ _)
  intro i _ inside
  have place : front.length + i < (front ++ middle ++ rest).length := by
    simp only [List.length_append]
    omega
  have byte := begins _ place
  rw [areaOf_lt place] at byte
  simpa [bytesAt, inside] using byte

/-- An area that holds a text begins with it. -/
theorem begins_of_holds {area : Area} {text : List UInt8} (holds : Holds area 0 text) :
    BeginsWith area text := fun i inside => by
  have byte := holds.bytes i (Nat.le_of_lt inside)
  rwa [Nat.zero_add] at byte

/-- The search finds the first dollar behind the salt. -/
theorem findDollar_some {area : Area} {header salt rest : List UInt8} (three : header.length = 3)
    (plain : ∀ c ∈ salt, c ≠ 0 ∧ c ≠ charOf '$') (short : salt.length < addressSpace)
    (begins : BeginsWith area (header ++ salt ++ charOf '$' :: rest)) :
    findDollar area = some salt.length ∧
      searched area = (List.range (salt.length + 1)).map (3 + ·) := by
  have isSalt := begins.part
  have ends : area (3 + salt.length) = charOf '$' := by
    have byte := begins.byte
    rwa [List.length_append, three] at byte
  have span : spanLength (fun c => isText c && c != charOf '$') area addressSpace 3 = salt.length := by
    apply spanLength_eq short
    · intro distance inside
      have isChar : area (3 + distance) ∈ salt := by
        rw [← isSalt, three]
        exact List.mem_map.mpr ⟨distance, List.mem_range.mpr inside, rfl⟩
      simp [isText, plain _ isChar]
    · simp [ends]
  rw [findDollar, searched, span, ends]
  exact ⟨rfl, rfl⟩

/-- Where there is none it finds none. -/
theorem findDollar_none {area : Area} {text : List UInt8} (holds : Holds area 0 text)
    (short : text.length < addressSpace) (long : 3 ≤ text.length)
    (none_ : charOf '$' ∉ text.drop 3) : findDollar area = none := by
  have nul : area text.length = 0 := by
    have byte := holds.nul
    rwa [Nat.zero_add] at byte
  have end_ : 3 + (text.length - 3) = text.length := by omega
  have span : spanLength (fun c => isText c && c != charOf '$') area addressSpace 3 =
      text.length - 3 := by
    apply spanLength_eq (by omega)
    · intro distance inside
      have place : 3 + distance < text.length := by omega
      have byte := begins_of_holds holds _ place
      rw [areaOf_lt place] at byte
      have isChar : area (3 + distance) ∈ text.drop 3 := by
        rw [byte]
        exact List.mem_drop_iff_getElem.mpr ⟨distance, by omega, by simp [Nat.add_comm]⟩
      have isText_ : area (3 + distance) ≠ 0 := holds.free _ (List.mem_of_mem_drop isChar)
      have other : area (3 + distance) ≠ charOf '$' := fun isDollar => none_ (isDollar ▸ isChar)
      simp [isText, isText_, other]
    · rw [end_, nul]
      rfl
  rw [findDollar, span, end_, nul]
  rfl

/-- The comparison reads up to the end of the string, and finds nothing else behind the salt. -/
theorem compareChars_spec {area : Area} {text : List UInt8} (holds : Holds area 0 text) {p : Nat}
    (inside : p ≤ text.length) {chars : List UInt8} (free : NulFree chars) :
    ((compareChars area p chars).1 = 0 ↔ text.drop p = chars) ∧
      ∀ place ∈ (compareChars area p chars).2, place ≤ text.length := by
  induction chars generalizing p with
  | nil =>
      have byte := holds.bytes p inside
      rw [Nat.zero_add] at byte
      refine ⟨?_, by simpa [compareChars] using inside⟩
      rw [compareChars, byte, List.drop_eq_nil_iff]
      constructor
      · intro nul
        by_contra before
        exact areaOf_ne_zero holds.free (Nat.lt_of_not_le before) nul
      · exact areaOf_ge
  | cons c chars ih =>
      have notNul : c ≠ 0 := free c List.mem_cons_self
      have byte := holds.bytes p inside
      rw [Nat.zero_add] at byte
      rw [compareChars]
      by_cases same : area p = c
      · have before : p < text.length := by
          by_contra atEnd
          rw [areaOf_ge (Nat.le_of_not_lt atEnd)] at byte
          exact notNul (same.symm.trans byte)
        obtain ⟨result, reads⟩ := @ih (p + 1) before fun other member =>
          free other (List.mem_cons_of_mem _ member)
        have head : text[p] = c := by
          rw [← same, byte, areaOf_lt before]
          rfl
        rw [if_neg (not_not.mpr same), List.drop_eq_getElem_cons before, head, List.cons.injEq, eq_self,
          true_and]
        exact ⟨result, List.forall_mem_cons.mpr ⟨inside, reads⟩⟩
      · rw [if_pos same]
        have notSame : (1 : UInt8) ≠ 0 := by decide
        refine ⟨iff_of_false notSame fun isRest => same ?_, by simpa using inside⟩
        have before : p < text.length := by
          by_contra atEnd
          rw [List.drop_eq_nil_of_le (Nat.le_of_not_lt atEnd)] at isRest
          cases isRest
        rw [List.drop_eq_getElem_cons before] at isRest
        rw [byte, areaOf_lt before]
        exact (List.cons.inj isRest).1

/-! ## Checking -/

/-- A key; the buffers of the callers have 32 bytes. -/
structure PasswordKey where
  text : List UInt8
  free : NulFree text
  short : text.length < 2 ^ 27

/-- A check reads only inside of the string, and succeeds only for what the key is kept as with the
salt of the string. -/
def Checks (md5 : Md5) (key : PasswordKey) (crypted : CString) (area : Area) : Prop :=
  ∃ run, md5Password md5 key.text area true = some run ∧
    (∀ place ∈ run.reads, place ≤ crypted.text.length) ∧
    (run.returned = 0 →
      crypted.text = Md5Crypt.crypt Rfc1321.digest key.text (Md5Crypt.saltOf crypted.text))

/-- What a string to be checked has to be like: it has no more than three characters, or a dollar
behind them; and what comes behind that is not by chance what the same mixing makes of another
magic or a longer salt. -/
def Checkable (key : PasswordKey) (text : List UInt8) : Prop :=
  text.length ≤ 3 ∨ ∃ header salt rest, text = header ++ salt ++ Md5Crypt.dollar :: rest ∧
    header.length = 3 ∧ Md5Crypt.dollar ∉ salt ∧
    (header = Md5Crypt.magic ∧ salt.length ≤ 8 ∨
      rest ≠ Md5Crypt.digits lowDigest key.text header salt)

/-- A salt that a key may be crypted with. -/
structure IsSalt (salt : List UInt8) : Prop where
  some_ : salt ≠ []
  short : salt.length ≤ 8
  plain : ∀ c ∈ salt, c ≠ 0 ∧ c ≠ Md5Crypt.dollar

/-- A key is crypted to the string that it is kept as, and then the check succeeds. -/
def Crypts (md5 : Md5) (key : PasswordKey) (salt : List UInt8) (area : Area) : Prop :=
  ∃ run, md5Password md5 key.text area false = some run ∧ run.returned = 0 ∧
    Holds run.crypted 0 (Md5Crypt.crypt Rfc1321.digest key.text salt) ∧
    ∀ md5', ∃ run', md5Password md5' key.text run.crypted true = some run' ∧ run'.returned = 0

/-- Either of two texts is no longer than both. -/
private theorem length_ite_le (c : Prop) [Decidable c] (first second : List UInt8) :
    (if c then first else second).length ≤ first.length + second.length := by
  split
  · exact Nat.le_add_right _ _
  · exact Nat.le_add_left _ _

/-- What the mixing of a short enough key and salt hashes is short enough. -/
theorem digits_lowDigest (key : PasswordKey) {magic salt : List UInt8} (three : magic.length = 3)
    (short : salt.length ≤ 8) :
    Md5Crypt.digits lowDigest key.text magic salt =
      Md5Crypt.digits Rfc1321.digest key.text magic salt := by
  have shortKey := key.short
  have alternate : Md5Crypt.alternate lowDigest key.text salt =
      Md5Crypt.alternate Rfc1321.digest key.text salt := by
    refine lowDigest_eq ?_
    simp only [List.length_append]
    omega
  have bits : (Md5Crypt.lengthBits key.text).length ≤ 27 := by
    rw [Md5Crypt.lengthBits, List.length_map]
    exact (Nat.digits_length_le_iff (by decide) _).mpr shortKey
  have repeated : Md5Crypt.repeated lowDigest key.text salt =
      Md5Crypt.repeated Rfc1321.digest key.text salt := by
    rw [Md5Crypt.repeated, Md5Crypt.repeated, alternate]
  have sixteen : ∀ count, (Md5Crypt.mixedBy lowDigest key.text magic salt count).length = 16 := by
    intro count
    cases count <;> exact length_lowDigest _
  have mixed : ∀ count, Md5Crypt.mixedBy lowDigest key.text magic salt count =
      Md5Crypt.mixedBy Rfc1321.digest key.text magic salt count := by
    intro count
    induction count with
    | zero =>
        rw [Md5Crypt.mixedBy, Md5Crypt.mixedBy, Md5Crypt.started, Md5Crypt.started, repeated]
        refine lowDigest_eq ?_
        simp only [List.length_append, Md5Crypt.repeated, List.length_map, List.length_range]
        omega
    | succ count ih =>
        rw [Md5Crypt.mixedBy, Md5Crypt.mixedBy, ← ih, Md5Crypt.mixed, Md5Crypt.mixed]
        refine lowDigest_eq ?_
        have size := sixteen count
        have first := length_ite_le (count % 2 = 1) key.text
          (Md5Crypt.mixedBy lowDigest key.text magic salt count)
        have second := length_ite_le (count % 3 = 0) [] salt
        have third := length_ite_le (count % 7 = 0) [] key.text
        have last := length_ite_le (count % 2 = 1)
          (Md5Crypt.mixedBy lowDigest key.text magic salt count) key.text
        simp only [List.length_append]
        rw [List.length_nil] at second third
        omega
  rw [Md5Crypt.digits, Md5Crypt.digits, mixed]

/-- No digit ends a string. -/
theorem nulFree_to64 (count value : Nat) : NulFree (Md5Crypt.to64 count value) := by
  have every : NulFree Md5Crypt.itoa64 := nulFree_of_all (by decide)
  intro c member
  obtain ⟨n, -, rfl⟩ := List.mem_map.mp member
  have inside : value / 64 ^ n % 64 < Md5Crypt.itoa64.length := Nat.mod_lt _ (by decide)
  rw [List.getD_eq_getElem _ _ inside]
  exact every _ (List.getElem_mem inside)

/-- The encoded digest has no NUL, -/
theorem nulFree_inDigits (final : List UInt8) : NulFree (Md5Crypt.inDigits final) := by
  intro c member
  simp only [Md5Crypt.inDigits, List.mem_append] at member
  rcases member with ((((group | group) | group) | group) | group) | group <;>
    exact nulFree_to64 _ _ _ group

/-- so the digits of a password have none, -/
theorem nulFree_digits (digest : List UInt8 → List UInt8) (key magic salt : List UInt8) :
    NulFree (Md5Crypt.digits digest key magic salt) := by
  rw [Md5Crypt.digits]
  exact nulFree_inDigits _

/-- and there are 22 of them. -/
theorem length_digits (digest : List UInt8 → List UInt8) (key magic salt : List UInt8) :
    (Md5Crypt.digits digest key magic salt).length = 22 := by
  rw [Md5Crypt.digits]
  simp [Md5Crypt.inDigits, Md5Crypt.to64]

/-- The salt ends at the first dollar. -/
theorem takeWhile_dollar {salt rest : List UInt8} (plain : Md5Crypt.dollar ∉ salt) :
    (salt ++ Md5Crypt.dollar :: rest).takeWhile (· ≠ Md5Crypt.dollar) = salt := by
  have kept : ∀ c ∈ salt, decide (c ≠ Md5Crypt.dollar) = true := by
    rintro c member
    exact decide_eq_true fun isDollar => plain (isDollar ▸ member)
  rw [List.takeWhile_append_of_pos kept, List.takeWhile_cons_of_neg (by simp), List.append_nil]

/-- The salt is up to eight characters between the header and the next dollar sign. -/
theorem saltOf_eq {header salt rest : List UInt8} (three : header.length = 3)
    (plain : Md5Crypt.dollar ∉ salt) :
    Md5Crypt.saltOf (header ++ salt ++ Md5Crypt.dollar :: rest) = salt.take 8 := by
  rw [Md5Crypt.saltOf, List.append_assoc, ← three, List.drop_left, takeWhile_dollar plain]

/-- What is hashed of a string. -/
theorem hashed_of_begins {area : Area} {header salt rest : List UInt8} (three : header.length = 3)
    (begins : BeginsWith area (header ++ salt ++ rest)) :
    bytesAt area 0 (3 + salt.length) = header ++ salt ∧ bytesAt area 3 salt.length = salt := by
  have both := @BeginsWith.part area [] (header ++ salt) rest begins
  have isSalt := begins.part
  rw [List.length_nil, List.length_append, three] at both
  rw [three] at isSalt
  exact ⟨both, isSalt⟩

/-- A check of a string with a salt. -/
theorem md5Password_check (md5 : Md5) (key : List UInt8) {area : Area} {header salt rest : List UInt8}
    (holds : Holds area 0 (header ++ salt ++ Md5Crypt.dollar :: rest)) (three : header.length = 3)
    (plain : Md5Crypt.dollar ∉ salt)
    (short : (header ++ salt ++ Md5Crypt.dollar :: rest).length < addressSpace) :
    ∃ run, md5Password md5 key area true = some run ∧
      (∀ place ∈ run.reads, place ≤ (header ++ salt ++ Md5Crypt.dollar :: rest).length) ∧
      (run.returned = 0 ↔ rest = Md5Crypt.digits lowDigest key header salt) := by
  have size : (header ++ salt ++ Md5Crypt.dollar :: rest).length =
      3 + salt.length + (rest.length + 1) := by
    simp [three, Nat.add_assoc]
  have length : strlen area 0 = 3 + salt.length + (rest.length + 1) := (holds.strlen short).trans size
  have begins := begins_of_holds holds
  have isSalt : ∀ c ∈ salt, c ≠ 0 ∧ c ≠ charOf '$' := fun c member =>
    ⟨holds.free c (by simp [member]), by rintro rfl; exact plain member⟩
  obtain ⟨found, searches⟩ := findDollar_some three isSalt (by omega) begins
  obtain ⟨both, alone⟩ := hashed_of_begins three begins
  have digits : cryptChars (passwordDigest md5 key (header ++ salt) salt) =
      Md5Crypt.digits lowDigest key header salt := by
    rw [passwordDigest_eq, cryptChars_eq, Md5Crypt.digits]
  have inside : 3 + salt.length + 1 ≤ (header ++ salt ++ Md5Crypt.dollar :: rest).length := by omega
  obtain ⟨result, reads⟩ := compareChars_spec holds inside
    (nulFree_digits lowDigest key header salt)
  have behind : (header ++ salt ++ Md5Crypt.dollar :: rest).drop (3 + salt.length + 1) = rest := by
    rw [← List.drop_drop, List.drop_left' (by rw [List.length_append, three])]
    rfl
  rw [behind] at result
  rw [md5Password, if_pos rfl, if_neg (by omega), found, Option.map_some, both, alone]
  simp only [digits]
  refine ⟨_, rfl, ?_, result⟩
  intro place member
  simp only [List.mem_append, List.mem_range, searches, List.mem_map, length] at member
  rcases member with ((looked | ⟨distance, looked, rfl⟩) | looked) | compared
  · omega
  · omega
  · omega
  · exact reads place compared

/-- The check is correct just for texts that can be checked. -/
theorem checks_iff (md5 : Md5) (key : PasswordKey) {crypted : CString} {area : Area}
    (holds : Holds area 0 crypted.text) :
    Checks md5 key crypted area ↔ Checkable key crypted.text := by
  have short : crypted.text.length < addressSpace :=
    Nat.lt_of_lt_of_le crypted.short (by decide)
  have length := holds.strlen short
  obtain few | more := Nat.lt_or_ge 3 crypted.text.length |>.symm
  · refine iff_of_true ⟨_, by rw [md5Password, if_pos rfl, if_pos (by omega)], ?_, ?_⟩ (.inl few)
    · intro place member
      rw [List.mem_range] at member
      omega
    · intro isZero
      have isOne : (1 : UInt8) = 0 := isZero
      cases isOne
  by_cases dollar : Md5Crypt.dollar ∈ crypted.text.drop 3
  · obtain ⟨salt, rest, split, plain⟩ := List.eq_append_cons_of_mem dollar
    have three : (crypted.text.take 3).length = 3 := List.length_take_of_le (Nat.le_of_lt more)
    have parts : crypted.text = crypted.text.take 3 ++ salt ++ Md5Crypt.dollar :: rest := by
      rw [List.append_assoc, ← split, List.take_append_drop]
    generalize crypted.text.take 3 = header at three parts
    rw [parts] at holds short
    obtain ⟨run, runs, reads, result⟩ := md5Password_check md5 key.text holds three plain short
    have salted := @saltOf_eq header salt rest three plain
    constructor
    · rintro ⟨run', runs', -, correct⟩
      rw [runs, Option.some.injEq] at runs'
      subst runs'
      refine .inr ⟨header, salt, rest, parts, three, plain, ?_⟩
      by_cases same : rest = Md5Crypt.digits lowDigest key.text header salt
      · left
        have isCrypt := correct (result.mpr same)
        rw [parts, salted, Md5Crypt.crypt, List.append_assoc, List.append_assoc] at isCrypt
        obtain ⟨isMagic, behind⟩ := List.append_inj isCrypt three
        have saltParts := congrArg (List.takeWhile (· ≠ Md5Crypt.dollar)) behind
        rw [takeWhile_dollar plain,
          takeWhile_dollar (fun member => plain (List.mem_of_mem_take member))] at saltParts
        refine ⟨isMagic, ?_⟩
        rw [saltParts]
        exact List.length_take_le _ _
      · exact .inr same
    · rintro (few | ⟨header', salt', rest', parts', three', plain', standard⟩)
      · omega
      · rw [parts, List.append_assoc, List.append_assoc] at parts'
        obtain ⟨rfl, behind⟩ := List.append_inj parts' (three.trans three'.symm)
        have saltParts := congrArg (List.takeWhile (· ≠ Md5Crypt.dollar)) behind
        rw [takeWhile_dollar plain, takeWhile_dollar plain'] at saltParts
        subst saltParts
        obtain rfl := (List.cons.inj (List.append_cancel_left behind)).2
        refine ⟨run, runs, by rw [parts]; exact reads, fun isZero => ?_⟩
        have same := result.mp isZero
        obtain ⟨rfl, few⟩ | other := standard
        · rw [parts, salted, Md5Crypt.crypt, List.take_of_length_le few, same,
            digits_lowDigest key three few]
        · exact absurd same other
  · have none_ := findDollar_none holds short (Nat.le_of_lt more) dollar
    refine iff_of_false ?_ ?_
    · rintro ⟨run, runs, -⟩
      rw [md5Password, if_pos rfl, if_neg (by omega), none_] at runs
      cases runs
    · rintro (few | ⟨header, salt, rest, parts, three, -⟩)
      · omega
      · apply dollar
        rw [parts, List.append_assoc, ← three, List.drop_left]
        simp

/-! ## Crypting -/

/-- What is written behind the beginning of a string is the rest of it. -/
theorem holds_written {area : Area} {front chars : List UInt8} (begins : BeginsWith area front)
    (free : NulFree (front ++ chars)) :
    Holds (setByte (copyIn area front.length (areaOf chars) 0 chars.length)
      (front.length + chars.length) 0) 0 (front ++ chars) where
  bytes i inside := by
    rw [List.length_append] at inside
    rw [Nat.zero_add]
    obtain before | rfl := Nat.lt_or_eq_of_le inside
    · rw [setByte_other (Nat.ne_of_lt before), areaOf_append]
      by_cases isFront : i < front.length
      · rw [copyIn_outside (.inl isFront), if_pos isFront]
        exact begins i isFront
      · rw [copyIn_inside (Nat.le_of_not_lt isFront) before, if_neg isFront, Nat.zero_add]
    · rw [setByte_same, areaOf_ge (by rw [List.length_append])]
  free := free

/-- A password is encrypted correctly behind the format and a salt. -/
theorem crypts (md5 : Md5) (key : PasswordKey) {salt : List UInt8} {area : Area} (isSalt : IsSalt salt)
    (begins : BeginsWith area (Md5Crypt.magic ++ salt ++ [Md5Crypt.dollar])) :
    Crypts md5 key salt area := by
  have few := isSalt.short
  have three : Md5Crypt.magic.length = 3 := by decide
  have found := (findDollar_some three isSalt.plain (Nat.lt_of_le_of_lt few (by decide)) begins).1
  obtain ⟨both, alone⟩ := hashed_of_begins three begins
  have front : (Md5Crypt.magic ++ salt ++ [Md5Crypt.dollar]).length = 3 + salt.length + 1 := by
    simp [three, Nat.add_assoc]
  have ends : area (3 + salt.length) = charOf '$' := by
    have byte := begins.byte
    rwa [List.length_append, three] at byte
  have digits : cryptChars (passwordDigest md5 key.text (Md5Crypt.magic ++ salt) salt) =
      Md5Crypt.digits Rfc1321.digest key.text Md5Crypt.magic salt := by
    rw [passwordDigest_eq, cryptChars_eq, ← digits_lowDigest key three few, Md5Crypt.digits]
  have saltlen : (if salt.length < 8 then salt.length else 8) = salt.length := by
    split
    · rfl
    · omega
  have free : NulFree (Md5Crypt.crypt Rfc1321.digest key.text salt) := by
    intro c member
    rw [Md5Crypt.crypt, List.mem_append, List.mem_append, List.mem_cons] at member
    rcases member with (isMagic | isSalt') | rfl | isDigit
    · exact nulFree_of_all (by decide : Md5Crypt.magic.all (· ≠ 0) = true) c isMagic
    · exact (isSalt.plain c isSalt').1
    · decide
    · exact nulFree_digits _ _ _ _ c isDigit
  have parts : Md5Crypt.crypt Rfc1321.digest key.text salt =
      Md5Crypt.magic ++ salt ++ [Md5Crypt.dollar] ++
        Md5Crypt.digits Rfc1321.digest key.text Md5Crypt.magic salt := by
    rw [Md5Crypt.crypt, List.append_assoc _ [Md5Crypt.dollar]]
    rfl
  have written := holds_written begins (parts ▸ free)
  rw [← parts, front] at written
  have size : (Md5Crypt.crypt Rfc1321.digest key.text salt).length = 3 + salt.length + 1 + 22 := by
    rw [parts, List.length_append, front, length_digits]
  rw [Crypts, md5Password, if_neg (by decide), found]
  simp only [saltlen, setByte_self ends, both, alone, digits]
  refine ⟨_, rfl, rfl, written, fun md5' => ?_⟩
  obtain ⟨run, runs, -, result⟩ := md5Password_check md5' key.text written three
    (fun member => (isSalt.plain _ member).2 rfl) (by rw [← Md5Crypt.crypt, size, addressSpace]; omega)
  exact ⟨run, runs, result.mpr (digits_lowDigest key three few).symm⟩

/-- A password is crypted right with any salt, and a string is checked right if and only if it can
be checked. -/
theorem md5Password_iff (md5 : Md5) (key : PasswordKey) :
    (∀ salt area, IsSalt salt →
        BeginsWith area (Md5Crypt.magic ++ salt ++ [Md5Crypt.dollar]) → Crypts md5 key salt area) ∧
      ∀ (crypted : CString) area, Holds area 0 crypted.text →
        (Checks md5 key crypted area ↔ Checkable key crypted.text) :=
  ⟨fun _ _ isSalt begins => crypts md5 key isSalt begins,
    fun _ _ holds => checks_iff md5 key holds⟩

/-- A password and a salt for which both hold. -/
theorem md5Password_iff_saltstri :
    Crypts ⟨initstate, 0, areaOf []⟩ ⟨ascii "Hello world!", nulFree_of_all (by decide), by decide⟩
        (ascii "saltstri") (areaOf (ascii "$1$saltstri$")) ∧
      Checks ⟨initstate, 0, areaOf []⟩ ⟨ascii "Hello world!", nulFree_of_all (by decide), by decide⟩
        ⟨ascii "$1$saltstri$x", nulFree_of_all (by decide), by decide⟩
        (areaOf (ascii "$1$saltstri$x")) := by
  obtain ⟨crypting, checking⟩ := md5Password_iff ⟨initstate, 0, areaOf []⟩
    ⟨ascii "Hello world!", nulFree_of_all (by decide), by decide⟩
  have plain : (ascii "saltstri").all (fun c => c ≠ 0 ∧ c ≠ Md5Crypt.dollar) = true := by decide
  refine ⟨crypting _ _ ⟨by decide, by decide, fun c among =>
    of_decide_eq_true (List.all_eq_true.mp plain c among)⟩ (fun i _ => rfl), (checking _ _ ?_).mpr ?_⟩
  · exact holds_areaOf (nulFree_of_all (by decide))
  · exact .inr ⟨Md5Crypt.magic, ascii "saltstri", ascii "x", by decide, by decide, by decide,
      .inl ⟨rfl, by decide⟩⟩

/-- Without a second dollar the length of the salt is no length. -/
theorem md5Password_not_checks :
    ¬ Checks ⟨initstate, 0, areaOf []⟩ ⟨ascii "Hello world!", nulFree_of_all (by decide), by decide⟩
      ⟨ascii "$1$abc", nulFree_of_all (by decide), by decide⟩ (areaOf (ascii "$1$abc")) := by
  have holds : Holds (areaOf (ascii "$1$abc")) 0 (ascii "$1$abc") :=
    holds_areaOf (nulFree_of_all (by decide))
  have none_ := findDollar_none holds (by decide) (by decide) (by decide)
  have length : strlen (areaOf (ascii "$1$abc")) 0 = 6 := holds.strlen (by decide)
  rintro ⟨run, runs, -⟩
  rw [md5Password, if_pos rfl, if_neg (by rw [length]; decide), none_] at runs
  cases runs

end GrubLegacy.Stage2
