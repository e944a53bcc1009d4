import GrubLegacy.Stage2.ShaCryptText

/-!
# Passwords and the strings they are kept as

`check_password` makes the string of what is entered with the salt of the string that is expected.
It takes the salt out of it that was put in, unless this salt looks like a number of rounds; and
different digests have different characters.
-/

namespace GrubLegacy.Stage2.Sha2

open Base CStrings

variable {w : Nat}

/-! ## Numbers of rounds -/

/-- A decimal digit is below ten, -/
theorem digitOf_ten_lt {c : UInt8} {digit : Nat} (isDigit : digitOf 10 c = some digit) : digit < 10 := by
  rw [digitOf] at isDigit
  split at isDigit
  · obtain rfl := Option.some.inj isDigit
    omega
  · simp at isDigit

/-- so a number is below the power of ten of its length. -/
theorem digitsValue_lt {digits : List Nat} (small : ∀ digit ∈ digits, digit < 10) (value : Nat) :
    digits.foldl (fun value digit => value * 10 + digit) value < (value + 1) * 10 ^ digits.length := by
  induction digits generalizing value with
  | nil => simp
  | cons digit digits ih =>
      obtain ⟨first, others⟩ := List.forall_mem_cons.mp small
      calc (digit :: digits).foldl (fun value digit => value * 10 + digit) value
          < (value * 10 + digit + 1) * 10 ^ digits.length := ih others _
        _ ≤ ((value + 1) * 10) * 10 ^ digits.length := Nat.mul_le_mul_right _ (by omega)
        _ = (value + 1) * 10 ^ (digit :: digits).length := by
          rw [List.length_cons, Nat.pow_succ', Nat.mul_assoc]

/-- The digits of a number denote it. -/
theorem numeral_denotes (n : Nat) :
    ∃ digits, (numeral 10 n).map (digitOf 10) = digits.map some ∧ digitsValue 10 digits = n := by
  induction n using Nat.strong_induction_on with
  | _ n ih =>
    have last : ∀ digit < 10, digitOf 10 (charOf (Nat.digitChar digit)) = some digit := by decide
    rw [numeral_eq (by decide)]
    split
    next small =>
      refine ⟨[n], ?_, ?_⟩
      · simp [Nat.mod_eq_of_lt small, last n small]
      · simp [digitsValue]
    next large =>
      obtain ⟨digits, denotes, value⟩ := ih (n / 10) (Nat.div_lt_self (by omega) (by decide))
      refine ⟨digits ++ [n % 10], ?_, ?_⟩
      · rw [List.map_append, denotes, List.map_append, List.map_singleton,
          last _ (Nat.mod_lt _ (by decide)), List.map_singleton]
      · rw [digitsValue] at value ⊢
        rw [List.foldl_append, value, List.foldl_cons, List.foldl_nil]
        omega

/-- What is lowered to `x` is an `x` of either case, -/
theorem isX_iff : ∀ c : UInt8, grubTolower (signedChar c) = 0x78 ↔ c = charOf 'x' ∨ c = charOf 'X' := by
  rintro ⟨⟨c⟩⟩
  revert c
  decide +kernel

/-- and no digit. -/
theorem digitOf_x {c : UInt8} (isX : c = charOf 'x' ∨ c = charOf 'X') : digitOf 10 c = none := by
  rcases isX with rfl | rfl <;> rfl

/-- A decimal number is read up to its end, also where a hexadecimal one seems to begin. -/
theorem parseRounds_run {read more : List UInt8} {stop : UInt8} {digits : List Nat}
    (errnum : GrubError) (denotes : read.map (digitOf 10) = digits.map some)
    (ends : digitOf 10 stop = none) (some_ : digits ≠ [])
    (small : digitsValue 10 digits ≤ maxint) :
    parseRounds errnum (read ++ stop :: more) =
      { strPtr := stop :: more
        value := digitsValue 10 digits
        errnum := errnum } := by
  rw [parseRounds]
  split
  next hex =>
    obtain ⟨zero, x⟩ := hex
    rw [isX_iff] at x
    cases read with
    | nil =>
        obtain rfl : stop = charOf '0' := zero
        cases ends
    | cons c read =>
        obtain rfl : c = charOf '0' := zero
        cases read with
        | cons d read =>
            have digit : digitOf 10 d ∈ digits.map some := denotes ▸ by simp
            have isX : d = charOf 'x' ∨ d = charOf 'X' := x
            rw [digitOf_x isX] at digit
            simp at digit
        | nil =>
            obtain ⟨digit, rfl⟩ : ∃ digit, digits = [digit] :=
              List.length_eq_one_iff.mp (by simpa using (congrArg List.length denotes).symm)
            obtain rfl : digit = 0 := (Option.some.inj (List.cons.inj denotes).1).symm
            rfl
  next decimal =>
    have plain : ∀ x hexDigits, (x = charOf 'x' ∨ x = charOf 'X') →
        read ++ stop :: more ≠ charOf '0' :: x :: hexDigits := by
      intro x hexDigits isX text
      rw [text] at decimal
      exact decimal ⟨rfl, (isX_iff x).mpr isX⟩
    have starts : StartsNumber (read ++ stop :: more) (digitsValue 10 digits) (stop :: more) :=
      .decimal plain ⟨⟨read, rfl, denotes⟩, by simpa using ends⟩ some_
    rw [callSafeParseMaxint,
      (parsesNumbers_parseNumber (by decide)).stores _ _ _ starts small]

/-! ## Reading the string back -/

/-- A salt that cannot be told from a number of rounds: the prefix of one with nothing but digits
behind it, if there are any. -/
def Misread (arg : SaltArg) : Prop :=
  arg.roundsCustom = false ∧ ∃ digits, saltField arg.salt = roundsPrefix ++ digits ∧
    ∀ c ∈ digits, (digitOf 10 c).isSome

section

variable {salt rest : List UInt8} {arg : SaltArg}

/-- The salt field ends at a dollar sign or behind sixteen characters, -/
theorem saltField_eq (salt : List UInt8) :
    saltField salt = (salt.takeWhile (· ≠ dollar)).take saltLenMax := by
  have whole := List.prefix_iff_eq_take.mp (List.takeWhile_prefix (fun c => decide (c ≠ dollar)) (l := salt))
  rw [saltField, Nat.min_comm, ← List.take_take, ← whole]

/-- so it has no dollar sign. -/
theorem notMem_saltField (salt : List UInt8) : dollar ∉ saltField salt := by
  intro member
  rw [saltField_eq] at member
  simpa using List.mem_takeWhile_imp (List.mem_of_mem_take member)

/-- A field of a salt ends with a dollar. -/
theorem saltField_append {field : List UInt8} (free : dollar ∉ field) (short : field.length ≤ saltLenMax)
    (rest : List UInt8) : saltField (field ++ dollar :: rest) = field := by
  have kept : ∀ c ∈ field, decide (c ≠ dollar) = true := by
    intro c member
    rw [decide_eq_true_iff]
    rintro rfl
    exact free member
  rw [saltField, List.takeWhile_append_of_pos kept]
  simp [short]

/-- The prefix of the file is skipped. -/
theorem parseSalt_prefix (saltPrefix text : List UInt8) (errnum : GrubError) :
    parseSalt saltPrefix errnum (saltPrefix ++ text) = parseSalt [] errnum text := by
  simp [parseSalt, skipPrefix]

/-- A prefix of a field and a dollar is one of the field. -/
theorem prefix_of_append {start field : List UInt8} (free : dollar ∉ start)
    (isPrefix : start <+: field ++ dollar :: rest) : start <+: field := by
  obtain ⟨tail, same⟩ := isPrefix
  rcases List.append_eq_append_iff.mp same with ⟨middle, rfl, _⟩ | ⟨middle, rfl, split⟩
  · exact List.prefix_append _ _
  · cases middle with
    | nil => simp
    | cons c middle =>
        obtain ⟨rfl, _⟩ := List.cons.inj split
        exact absurd (by simp) free

/-- A number of rounds that a dollar ends. -/
theorem parseSalt_number {read : List UInt8} {digits : List Nat} (errnum : GrubError)
    (denotes : read.map (digitOf 10) = digits.map some) (some_ : digits ≠ [])
    (small : digitsValue 10 digits ≤ maxint) (rest : List UInt8) :
    parseSalt [] errnum (roundsPrefix ++ (read ++ dollar :: rest)) =
      { salt := rest
        rounds := max roundsMin (min (digitsValue 10 digits) roundsMax)
        roundsCustom := true
        errnum := errnum } := by
  have parsed := @parseRounds_run read rest dollar digits errnum denotes (by decide) some_ small
  simp [parseSalt, skipPrefix, parsed]

/-- A salt without one. -/
theorem parseSalt_plain {text : List UInt8} (errnum : GrubError)
    (plain : ∀ tail, text = roundsPrefix ++ tail →
      (parseRounds errnum tail).strPtr.headD 0 ≠ dollar ∧ (parseRounds errnum tail).errnum = errnum) :
    parseSalt [] errnum text =
      { salt := text
        rounds := roundsDefault
        roundsCustom := false
        errnum := errnum } := by
  have body : skipPrefix [] text = text := rfl
  rw [parseSalt, body]
  dsimp only
  split
  next isPrefix =>
    obtain ⟨tail, rfl⟩ := List.isPrefixOf_iff_prefix.mp isPrefix
    obtain ⟨other, clear⟩ := plain tail rfl
    rw [List.drop_left, if_neg other, clear]
  next => rfl

/-- Nine digits make a number the parser takes. -/
theorem value_le {read : List UInt8} {digits : List Nat}
    (denotes : read.map (digitOf 10) = digits.map some) (short : read.length ≤ 9) :
    digitsValue 10 digits ≤ maxint := by
  have small : ∀ digit ∈ digits, digit < 10 := by
    intro digit member
    have among : some digit ∈ read.map (digitOf 10) := denotes ▸ List.mem_map_of_mem member
    obtain ⟨c, _, isDigit⟩ := List.mem_map.mp among
    exact digitOf_ten_lt isDigit
  have lengths := congrArg List.length denotes
  rw [List.length_map, List.length_map] at lengths
  have below := digitsValue_lt small 0
  have power : 10 ^ digits.length ≤ 10 ^ 9 := Nat.pow_le_pow_right (by decide) (by omega)
  rw [digitsValue, maxint]
  omega

/-- What an argument can be made from. -/
structure SaltArg.Proper (arg : SaltArg) : Prop where
  least : roundsMin ≤ arg.rounds
  most : arg.rounds ≤ roundsMax
  plain : arg.roundsCustom = false → arg.rounds = roundsDefault
  clear : arg.errnum = .none
  number : arg.roundsCustom = false → ∀ num, arg.salt = roundsPrefix ++ num →
    (digitOf 10 (num.headD 0)).isSome

/-- A number begins with a digit. -/
theorem digit_of_reads {num : List UInt8}
    (reads : LooksHexadecimal num ∨ ∃ value rest, StartsNumber num value rest ∧ value ≤ maxint) :
    (digitOf 10 (num.headD 0)).isSome := by
  rcases reads with ⟨zero, -⟩ | ⟨value, rest, starts, -⟩
  · rw [zero]
    rfl
  · cases starts with
    | @decimal _ _ digits plain run some_ =>
        obtain ⟨⟨read, rfl, denotes⟩, -⟩ := run
        cases read with
        | nil => exact absurd (List.map_eq_nil_iff.mp denotes.symm) some_
        | cons c read =>
            have among : digitOf 10 c ∈ digits.map some := denotes ▸ by simp
            obtain ⟨digit, -, isDigit⟩ := List.mem_map.mp among
            exact Option.isSome_iff_exists.mpr ⟨digit, isDigit.symm⟩
    | hexadecimal isX run some_ => rfl

/-- A salt whose rounds are read is proper. -/
theorem proper_parseSalt {saltPrefix salt : List UInt8} (reads : RoundsRead saltPrefix salt) :
    (parseSalt saltPrefix .none salt).Proper := by
  obtain ⟨most, least⟩ := parseSalt_rounds saltPrefix salt .none
  refine ⟨least, most, ?_, parseSalt_errnum .none reads, ?_⟩
  · rw [parseSalt]
    dsimp only
    split
    · split <;> simp
    · simp
  · rw [parseSalt]
    dsimp only
    split
    · split
      · intro custom
        cases custom
      · exact fun _ num isNumber => digit_of_reads (reads num isNumber)
    · exact fun _ num isNumber => digit_of_reads (reads num isNumber)

/-- If a field had no more than the prefix of a number, a dollar or the end would be behind it. -/
theorem SaltArg.Proper.some_letters (proper : arg.Proper) (plain : arg.roundsCustom = false)
    {letters : List UInt8} (field : saltField arg.salt = roundsPrefix ++ letters) : letters ≠ [] := by
  rintro rfl
  rw [saltField_eq, List.append_nil] at field
  have whole : arg.salt.takeWhile (· ≠ dollar) = roundsPrefix := by
    have length := congrArg List.length field
    rw [List.length_take, saltLenMax, show roundsPrefix.length = 7 from rfl] at length
    rwa [List.take_of_length_le (by rw [saltLenMax]; omega)] at field
  have split : arg.salt = roundsPrefix ++ arg.salt.dropWhile (· ≠ dollar) := by
    rw [← whole, List.takeWhile_append_dropWhile]
  have digit := proper.number plain _ split
  have behind := List.head?_dropWhile_not (fun c => decide (c ≠ dollar)) arg.salt
  cases rest : arg.salt.dropWhile (· ≠ dollar) with
  | nil =>
      rw [rest] at digit
      cases digit
  | cons c others =>
      rw [rest] at digit behind
      obtain rfl : c = dollar := by simpa using behind
      cases digit

/-- The first character behind the prefix of a number is a digit. -/
theorem SaltArg.Proper.digits_ne_nil (proper : arg.Proper) (plain : arg.roundsCustom = false)
    {letters others : List UInt8} {digits : List Nat}
    (field : saltField arg.salt = roundsPrefix ++ letters) (run : RunOf 10 letters digits others) :
    digits ≠ [] := by
  rintro rfl
  obtain ⟨⟨read, split, denotes⟩, stops⟩ := run
  obtain rfl := List.map_eq_nil_iff.mp denotes
  obtain rfl : letters = others := split
  cases letters with
  | nil => exact proper.some_letters plain field rfl
  | cons c letters =>
      obtain ⟨behind, salt⟩ := saltField_starts arg.salt
      rw [field, List.append_assoc] at salt
      have digit := proper.number plain _ salt.symm
      have none_ : digitOf 10 c = none := stops c rfl
      rw [List.cons_append, List.headD_cons, none_] at digit
      cases digit

/-- The salt is taken out of the string that was put in. -/
theorem parseSalt_front {file : CryptFile w} (proper : arg.Proper) (read_ : ¬ Misread arg)
    (rest : List UInt8) :
    parseSalt file.saltPrefix .none (ShaCrypt.front file arg ++ rest) =
      { arg with salt := saltField arg.salt ++ dollar :: rest } := by
  obtain ⟨salt, rounds, custom, errnum⟩ := arg
  obtain rfl : errnum = .none := proper.clear
  have free := notMem_saltField salt
  have short := length_saltField salt
  rw [ShaCrypt.front, ShaCrypt.roundsField]
  cases custom with
  | true =>
      obtain ⟨digits, denotes, value⟩ := numeral_denotes rounds
      have most := proper.most
      have least := proper.least
      have some_ : digits ≠ [] := by
        rintro rfl
        have none_ : digitsValue 10 [] = 0 := rfl
        dsimp only at least
        rw [← value, none_, roundsMin] at least
        omega
      have parsed := parseSalt_number .none denotes some_
        (by rw [value]; rw [roundsMax] at most; rw [maxint]; exact most.trans (by decide))
        (saltField salt ++ dollar :: rest)
      rw [value, Nat.min_eq_left most, Nat.max_eq_right least] at parsed
      rw [← parsed, ← parseSalt_prefix file.saltPrefix]
      simp
  | false =>
      obtain rfl : rounds = roundsDefault := proper.plain rfl
      have plain : parseSalt [] .none (saltField salt ++ dollar :: rest) =
          { salt := saltField salt ++ dollar :: rest
            rounds := roundsDefault
            roundsCustom := false
            errnum := .none } := by
        refine parseSalt_plain .none fun tail same => ?_
        have isPrefix := prefix_of_append (by decide) (same ▸ List.prefix_append roundsPrefix tail)
        obtain ⟨letters, field⟩ := isPrefix
        obtain ⟨digits, others, run⟩ := exists_run 10 letters
        have some_ := proper.digits_ne_nil rfl field.symm run
        obtain ⟨⟨read, rfl, denotes⟩, stops⟩ := run
        rw [← field, List.append_assoc] at same
        obtain rfl := List.append_cancel_left same
        cases others with
        | nil =>
            rw [List.append_nil] at field
            refine absurd ⟨rfl, read, field.symm, fun c member => ?_⟩ read_
            have among : digitOf 10 c ∈ digits.map some := denotes ▸ List.mem_map_of_mem member
            obtain ⟨digit, _, isDigit⟩ := List.mem_map.mp among
            rw [← isDigit]
            rfl
        | cons stop others =>
            rw [← field, saltLenMax] at short
            have few : read.length ≤ 9 := by
              simp only [List.length_append, show roundsPrefix.length = 7 from rfl] at short
              omega
            have parsed := @parseRounds_run read (others ++ dollar :: rest) stop digits .none
              denotes (stops stop rfl) some_ (value_le denotes few)
            rw [List.append_assoc, List.cons_append, parsed]
            refine ⟨fun isDollar => ?_, rfl⟩
            obtain rfl : stop = dollar := isDollar
            exact free (by rw [← field]; simp)
      rw [← plain, ← parseSalt_prefix file.saltPrefix]
      simp

/-- What comes behind a salt that is misread is taken for the salt. -/
theorem parseSalt_misread {file : CryptFile w} (proper : arg.Proper) (misread : Misread arg)
    (rest : List UInt8) :
    (parseSalt file.saltPrefix .none (ShaCrypt.front file arg ++ rest)).roundsCustom = true ∧
      (parseSalt file.saltPrefix .none (ShaCrypt.front file arg ++ rest)).salt = rest ∧
      (parseSalt file.saltPrefix .none (ShaCrypt.front file arg ++ rest)).errnum = .none := by
  obtain ⟨plain, letters, field, areDigits⟩ := misread
  have short := length_saltField arg.salt
  obtain ⟨digits, others, run⟩ := exists_run 10 letters
  have some_ := proper.digits_ne_nil plain field run
  obtain ⟨⟨read, rfl, denotes⟩, stops⟩ := run
  cases others with
  | cons stop others =>
      have isDigit := areDigits stop (by simp)
      rw [stops stop rfl] at isDigit
      cases isDigit
  | nil =>
      rw [List.append_nil] at field
      rw [field, saltLenMax] at short
      have few : read.length ≤ 9 := by
        simp only [List.length_append, show roundsPrefix.length = 7 from rfl] at short
        omega
      have parsed := parseSalt_number .none denotes some_ (value_le denotes few) rest
      rw [← parseSalt_prefix file.saltPrefix, ← List.append_assoc roundsPrefix, ← field] at parsed
      rw [ShaCrypt.front, ShaCrypt.roundsField, plain]
      simp only [Bool.false_eq_true, if_false, List.append_nil, List.append_assoc,
        List.singleton_append, parsed, and_self]

end

/-! ## Different digests -/

/-- Lists that are put together from parts of the same lengths have the same parts. -/
theorem eq_of_flatMap_eq {α β : Type} {f g : α → List β} (lengths : ∀ x, (f x).length = (g x).length)
    {list : List α} (same : list.flatMap f = list.flatMap g) : ∀ x ∈ list, f x = g x := by
  induction list with
  | nil => simp
  | cons head list ih =>
      rw [List.flatMap_cons, List.flatMap_cons] at same
      obtain ⟨first, others⟩ := List.append_inj same (lengths head)
      exact List.forall_mem_cons.mpr ⟨first, ih others⟩

/-- The characters are different ones, and none is a dollar or a NUL. -/
theorem b64t_distinct : (∀ m < 64, ∀ n < 64, b64t.getD m 0 = b64t.getD n 0 → m = n) ∧
    ∀ n < 64, b64t.getD n 0 ≠ dollar ∧ b64t.getD n 0 ≠ 0 := by
  decide +kernel

/-- Equal characters encode equal bits, -/
theorem mod_of_to64 {count m n : Nat} (same : Md5Crypt.to64 count m = Md5Crypt.to64 count n) :
    m % 64 ^ count = n % 64 ^ count := by
  induction count generalizing m n with
  | zero => rw [Nat.pow_zero, Nat.mod_one, Nat.mod_one]
  | succ count ih =>
      rw [to64_succ, to64_succ] at same
      obtain ⟨first, others⟩ := List.cons.inj same
      have low := b64t_distinct.1 _ (Nat.mod_lt m (by decide)) _ (Nat.mod_lt n (by decide)) first
      rw [Nat.pow_succ', Nat.mod_mul, Nat.mod_mul, low, ih others]

/-- none of them is a dollar sign -/
theorem notMem_to64 (count value : Nat) : dollar ∉ Md5Crypt.to64 count value := by
  induction count generalizing value with
  | zero => simp [Md5Crypt.to64]
  | succ count ih =>
      rw [to64_succ, List.mem_cons, not_or]
      exact ⟨(b64t_distinct.2 _ (Nat.mod_lt _ (by decide))).1.symm, ih _⟩

/-- or a NUL. -/
theorem nulFree_to64 (count value : Nat) : NulFree (Md5Crypt.to64 count value) := by
  induction count generalizing value with
  | zero => simp [NulFree, Md5Crypt.to64]
  | succ count ih =>
      rw [to64_succ]
      exact List.forall_mem_cons.mpr ⟨(b64t_distinct.2 _ (Nat.mod_lt _ (by decide))).2, ih _⟩

/-- A file whose groups have all bytes of a digest, each with enough characters, and whose strings
are salts themselves. -/
structure Complete (file : CryptFile w) : Prop where
  free : NulFree file.saltPrefix
  bytes : ∀ i < w, ∃ group ∈ file.groups,
    group.1 = some i ∨ group.2.1 = some i ∨ group.2.2.1 = some i
  enough : ∀ group ∈ file.groups, group.2.2.2 = 4 ∨ (group.1 = none ∧ 3 ≤ group.2.2.2) ∨
    (group.1 = none ∧ group.2.1 = none ∧ 2 ≤ group.2.2.2)
  many : saltLenMax ≤ file.hashChars
  few : file.saltPrefix.length + (roundsPrefix.length + 10) + saltLenMax + 1 + file.hashChars ≤ 256

/-- The text of SHA-256 tells all of the digest, -/
theorem complete_sha256Crypt : Complete sha256Crypt where
  free := nulFree_sha256Crypt
  bytes := by decide
  enough := by decide
  many := by decide
  few := by decide

/-- and that of SHA-512. -/
theorem complete_sha512Crypt : Complete sha512Crypt where
  free := nulFree_sha512Crypt
  bytes := by decide
  enough := by decide
  many := by decide
  few := by decide

section

variable {file : CryptFile w}

/-- A hash has no dollar sign. -/
theorem notMem_digits (file : CryptFile w) (final : List UInt8) :
    dollar ∉ ShaCrypt.digits file final := by
  intro member
  obtain ⟨group, _, inside⟩ := List.mem_flatMap.mp member
  exact notMem_to64 _ _ inside

/-- The string is one of C. -/
theorem nulFree_string (saltPrefix : NulFree file.saltPrefix) {arg : SaltArg}
    (free : NulFree arg.salt) (final : List UInt8) :
    NulFree (ShaCrypt.front file arg ++ ShaCrypt.digits file final) := by
  have isDollar : NulFree [dollar] := by simp [NulFree, dollar, charOf]
  have rounds : NulFree (ShaCrypt.roundsField arg) := by
    rw [ShaCrypt.roundsField]
    split
    · have text : NulFree roundsPrefix := by simp [NulFree, roundsPrefix, ascii, charOf]
      exact List.forall_mem_append.mpr
        ⟨List.forall_mem_append.mpr ⟨text, nulFree_numeral _⟩, isDollar⟩
    · intro c member
      cases member
  have digits : NulFree (ShaCrypt.digits file final) := by
    intro c member
    obtain ⟨group, _, inside⟩ := List.mem_flatMap.mp member
    exact nulFree_to64 _ _ c inside
  refine List.forall_mem_append.mpr ⟨List.forall_mem_append.mpr ⟨?_, isDollar⟩, digits⟩
  exact List.forall_mem_append.mpr
    ⟨List.forall_mem_append.mpr ⟨saltPrefix, rounds⟩, nulFree_saltField free⟩

/-- The byte with an index, or no byte. -/
def byteAt (final : List UInt8) (index : Option Nat) : Nat :=
  (index.map fun i => (final.getD i 0).toNat).getD 0

/-- What a group takes of a digest is a byte, -/
theorem byteAt_lt (final : List UInt8) (index : Option Nat) : byteAt final index < 256 := by
  cases index with
  | none => exact Nat.zero_lt_succ 255
  | some i => exact (final.getD i 0).toNat_lt

/-- and three of them make its 24 bits. -/
theorem groupValue_eq (final : List UInt8) (high middle low : Option Nat) (n : Nat) :
    ShaCrypt.groupValue final (high, middle, low, n) =
      byteAt final high * 2 ^ 16 + byteAt final middle * 2 ^ 8 + byteAt final low := rfl

/-- The characters of a group tell its bytes. -/
theorem bytes_of_group {high middle low : Option Nat} {n : Nat}
    (enough : n = 4 ∨ (high = none ∧ 3 ≤ n) ∨ (high = none ∧ middle = none ∧ 2 ≤ n))
    {first second : List UInt8}
    (same : Md5Crypt.to64 n (ShaCrypt.groupValue first (high, middle, low, n)) =
      Md5Crypt.to64 n (ShaCrypt.groupValue second (high, middle, low, n))) :
    byteAt first high = byteAt second high ∧ byteAt first middle = byteAt second middle ∧
      byteAt first low = byteAt second low := by
  have fits (final : List UInt8) : ShaCrypt.groupValue final (high, middle, low, n) < 64 ^ n := by
    have highLt := byteAt_lt final high
    have middleLt := byteAt_lt final middle
    have lowLt := byteAt_lt final low
    rw [groupValue_eq]
    rcases enough with rfl | ⟨rfl, three⟩ | ⟨rfl, rfl, two⟩
    · omega
    · have power : 64 ^ 3 ≤ 64 ^ n := Nat.pow_le_pow_right (by decide) three
      have none_ : byteAt final none = 0 := rfl
      omega
    · have power : 64 ^ 2 ≤ 64 ^ n := Nat.pow_le_pow_right (by decide) two
      have none_ : byteAt final none = 0 := rfl
      omega
  have values := mod_of_to64 same
  rw [Nat.mod_eq_of_lt (fits first), Nat.mod_eq_of_lt (fits second), groupValue_eq,
    groupValue_eq] at values
  have firstMiddle := byteAt_lt first middle
  have firstLow := byteAt_lt first low
  have secondMiddle := byteAt_lt second middle
  have secondLow := byteAt_lt second low
  omega

/-- The characters of a digest tell all of its bytes. -/
theorem Complete.digits_injective (complete : Complete file) {first second : List UInt8}
    (firstSize : first.length = w) (secondSize : second.length = w)
    (same : ShaCrypt.digits file first = ShaCrypt.digits file second) : first = second := by
  have groups := eq_of_flatMap_eq (fun group => by rw [length_to64, length_to64]) same
  refine List.ext_getElem (firstSize.trans secondSize.symm) fun i inFirst inSecond => ?_
  obtain ⟨⟨high, middle, low, n⟩, member, isIndex⟩ := complete.bytes i (firstSize ▸ inFirst)
  obtain ⟨sameHigh, sameMiddle, sameLow⟩ :=
    bytes_of_group (complete.enough _ member) (groups _ member)
  have byte : byteAt first (some i) = byteAt second (some i) := by
    rcases isIndex with isHigh | isMiddle | isLow
    · exact isHigh ▸ sameHigh
    · exact isMiddle ▸ sameMiddle
    · exact isLow ▸ sameLow
  have numbers : (first.getD i 0).toNat = (second.getD i 0).toNat := byte
  simpa [inFirst, inSecond] using UInt8.toNat_inj.mp numbers

end

/-! ## Checking a password -/

/-- A password that is entered is right for the string that has been made of another one, exactly if
the salt is read back and the two passwords have the same digest with it. -/
def Checks (file : CryptFile w) (digest : List UInt8 → List UInt8)
    (crypt : List UInt8 → List UInt8 → Option CryptBuffer)
    (checkPassword : List UInt8 → List UInt8 → Bool) (key entered salt : List UInt8) : Prop :=
  let arg := parseSalt file.saltPrefix .none salt
  ∃ hashed, crypt key salt = some hashed ∧
    (checkPassword entered hashed.text = false ↔ ¬ Misread arg ∧
      ShaCrypt.mixedBy digest entered (saltField arg.salt) arg.rounds =
        ShaCrypt.mixedBy digest key (saltField arg.salt) arg.rounds)

/-- The digest behind the rounds is as long as any. -/
theorem length_mixedBy {sha : Sha w} {algorithm : Fips180.Algorithm w}
    (implements : Implements sha algorithm) (key salt : List UInt8) (rounds : Nat) :
    (ShaCrypt.mixedBy (Fips180.digest algorithm) key salt rounds).length = w := by
  cases rounds with
  | zero => exact implements.length_digest _
  | succ rounds => exact implements.length_digest _

/-- Hashing with the salt of a string that has been made. -/
theorem string_of_string {file : CryptFile w} {algorithm : Fips180.Algorithm w}
    (implements : Implements file.sha algorithm) (complete : Complete file)
    (key entered : List UInt8) {salt : List UInt8}
    (proper : (parseSalt file.saltPrefix .none salt).Proper) :
    ShaCrypt.string file (Fips180.digest algorithm) key salt =
        ShaCrypt.string file (Fips180.digest algorithm) entered
          (ShaCrypt.string file (Fips180.digest algorithm) key salt) ↔
      ¬ Misread (parseSalt file.saltPrefix .none salt) ∧
        ShaCrypt.mixedBy (Fips180.digest algorithm) entered
            (saltField (parseSalt file.saltPrefix .none salt).salt)
            (parseSalt file.saltPrefix .none salt).rounds =
          ShaCrypt.mixedBy (Fips180.digest algorithm) key
            (saltField (parseSalt file.saltPrefix .none salt).salt)
            (parseSalt file.saltPrefix .none salt).rounds := by
  generalize isArg : parseSalt file.saltPrefix .none salt = arg at proper
  generalize isFinal : ShaCrypt.mixedBy (Fips180.digest algorithm) key (saltField arg.salt)
    arg.rounds = final
  have made : ShaCrypt.string file (Fips180.digest algorithm) key salt =
      ShaCrypt.front file arg ++ ShaCrypt.digits file final := by
    rw [ShaCrypt.string, isArg, isFinal]
  rw [made]
  by_cases misread : Misread arg
  · -- The string that is made has a number of rounds and 16 characters of the digest more.
    refine iff_of_false (fun same => ?_) fun right => right.1 misread
    obtain ⟨custom, rest, -⟩ :=
      @parseSalt_misread _ arg file proper misread (ShaCrypt.digits file final)
    have lengths := congrArg List.length same
    rw [ShaCrypt.string] at lengths
    generalize parseSalt file.saltPrefix .none (ShaCrypt.front file arg ++ ShaCrypt.digits file final) = taken
      at custom rest lengths
    simp only [ShaCrypt.front, ShaCrypt.roundsField, rest, custom, misread.1] at lengths
    have field := length_saltField arg.salt
    have sixteen : (saltField (ShaCrypt.digits file final)).length = saltLenMax := by
      have whole : (ShaCrypt.digits file final).takeWhile (· ≠ dollar) = ShaCrypt.digits file final := by
        rw [List.takeWhile_eq_self_iff]
        intro c member
        rw [decide_eq_true_iff]
        rintro rfl
        exact notMem_digits file final member
      rw [saltField_eq, whole, List.length_take, length_digits, Nat.min_eq_left complete.many]
    simp only [if_true, Bool.false_eq_true, if_false, List.append_nil, List.length_append,
      List.length_singleton, length_digits, sixteen] at lengths
    omega
  · have parsed := @parseSalt_front _ arg file proper misread (ShaCrypt.digits file final)
    have field := saltField_append (notMem_saltField arg.salt) (length_saltField arg.salt)
      (ShaCrypt.digits file final)
    have again : ShaCrypt.string file (Fips180.digest algorithm) entered
        (ShaCrypt.front file arg ++ ShaCrypt.digits file final) =
          ShaCrypt.front file arg ++ ShaCrypt.digits file
            (ShaCrypt.mixedBy (Fips180.digest algorithm) entered (saltField arg.salt) arg.rounds) := by
      rw [ShaCrypt.string, parsed]
      simp only [ShaCrypt.front, ShaCrypt.roundsField, field]
    rw [again, List.append_cancel_left_eq]
    constructor
    · intro same
      refine ⟨misread, (complete.digits_injective ?_ ?_ same).symm⟩
      · rw [← isFinal]
        exact length_mixedBy implements _ _ _
      · exact length_mixedBy implements _ _ _
    · rintro ⟨_, same⟩
      rw [same]

/-- A string that has been made is parsed without an error. -/
theorem string_errnum {file : CryptFile w} {digest : List UInt8 → List UInt8}
    {key salt : List UInt8} (proper : (parseSalt file.saltPrefix .none salt).Proper) :
    (parseSalt file.saltPrefix .none (ShaCrypt.string file digest key salt)).errnum = .none := by
  rw [ShaCrypt.string]
  generalize parseSalt file.saltPrefix .none salt = arg at proper ⊢
  by_cases misread : Misread arg
  · exact (parseSalt_misread proper misread _).2.2
  · rw [parseSalt_front proper misread]
    exact proper.clear

/-- A password is accepted just when the digests agree, whatever stood in memory. -/
theorem checks {file : CryptFile w} {algorithm : Fips180.Algorithm w}
    (implements : Implements file.sha algorithm) (complete : Complete file)
    {around later : Surroundings w} {key entered salt : List UInt8} (keyFits : key.length < 2 ^ w)
    (enteredFits : entered.length < 2 ^ w) (short : salt.length ≤ 256)
    (readable : Readable file around salt) (clear : later.globals.errnum = .none) :
    Checks file (Fips180.digest algorithm) (file.crypt around) (file.checkPassword later) key entered
      salt := by
  have proper := proper_parseSalt readable.rounds
  have returns := crypt_returns implements complete.free keyFits readable.clear readable.free
    proper.clear
  rw [Returns, if_neg (by omega)] at returns
  obtain ⟨hashed, isHashed, text, -⟩ := returns
  refine ⟨hashed, isHashed, Iff.trans ?_ (string_of_string implements complete key entered proper)⟩
  have size : hashed.text.length ≤ 256 := by
    have few := complete.few
    have rounds := length_roundsField (parseSalt_rounds file.saltPrefix salt .none).1
    have field := length_saltField (parseSalt file.saltPrefix .none salt).salt
    rw [text, ShaCrypt.string, ShaCrypt.front]
    simp only [List.length_append, List.length_singleton, length_digits]
    omega
  have free : NulFree hashed.text := by
    rw [text, ShaCrypt.string]
    exact nulFree_string complete.free
      (fun c member => readable.free c ((parseSalt_suffix _ _ _).subset member)) _
  have parsed : (parseSalt file.saltPrefix .none hashed.text).errnum = .none := by
    rw [text]
    exact string_errnum proper
  have again := crypt_returns implements complete.free enteredFits clear free parsed
  rw [Returns, if_neg (by omega)] at again
  obtain ⟨second, isSecond, secondText, -⟩ := again
  rw [CryptFile.checkPassword, isSecond, ← text]
  dsimp only
  rw [decide_eq_false_iff_not, not_not, secondText]

/-- `check_password` accepts what is entered, with the string made of a password, exactly if both
have the same digest with the salt of the string and this salt is no number of rounds. -/
theorem checkPassword_iff {around256 later256 : Surroundings 32}
    {around512 later512 : Surroundings 64} {key entered salt : List UInt8}
    (keyFits : key.length < 2 ^ 32) (enteredFits : entered.length < 2 ^ 32)
    (short : salt.length ≤ 256) (readable256 : Readable sha256Crypt around256 salt)
    (readable512 : Readable sha512Crypt around512 salt)
    (clear256 : later256.globals.errnum = .none) (clear512 : later512.globals.errnum = .none) :
    Checks sha256Crypt (Fips180.digest Fips180.sha256) (sha256Crypt.crypt around256)
        (sha256Crypt.checkPassword later256) key entered salt ∧
      Checks sha512Crypt (Fips180.digest Fips180.sha512) (sha512Crypt.crypt around512)
        (sha512Crypt.checkPassword later512) key entered salt :=
  ⟨checks implements_sha256 complete_sha256Crypt keyFits enteredFits short readable256 clear256,
    checks implements_sha512 complete_sha512Crypt (by omega) (by omega) short readable512 clear512⟩

/-- A salt that looks like a number of rounds without its dollar. -/
def openRounds : List UInt8 := ascii "rounds=1000"

/-- A salt whose rounds end in no dollar sign is readable under another prefix. -/
theorem openRounds_readable {file : CryptFile w} {around : Surroundings w}
    (clear : around.globals.errnum = .none) (other : file.saltPrefix.isPrefixOf openRounds = false) :
    Readable file around openRounds where
  clear := clear
  free := by simp [NulFree, openRounds, ascii, charOf]
  rounds num isNumber := by
    rw [skipPrefix, other, if_neg Bool.false_ne_true] at isNumber
    have same : num = ascii "1000" :=
      (@List.append_cancel_left _ roundsPrefix _ _ isNumber).symm
    have starts : StartsNumber num (digitsValue 10 [1, 0, 0, 0]) [] := by
      subst same
      refine .decimal (fun x digits _ same => ?_) ⟨⟨ascii "1000", rfl, rfl⟩, ?_⟩
        (List.cons_ne_nil _ _)
      · cases (List.cons.inj same).1
      · intro next isNext
        cases isNext
    exact .inr ⟨_, _, starts, by decide⟩

/-- A password is refused with the string that has been made of it. -/
theorem checkPassword_iff_rounds :
    Checks sha256Crypt (Fips180.digest Fips180.sha256) (sha256Crypt.crypt (someSurroundings sha256))
        (sha256Crypt.checkPassword (someSurroundings sha256)) [0x6b] [0x6b] openRounds ∧
      Checks sha512Crypt (Fips180.digest Fips180.sha512)
        (sha512Crypt.crypt (someSurroundings sha512))
        (sha512Crypt.checkPassword (someSurroundings sha512)) [0x6b] [0x6b] openRounds :=
  checkPassword_iff (by decide) (by decide) (by decide) (openRounds_readable rfl (by decide))
    (openRounds_readable rfl (by decide)) rfl rfl

end GrubLegacy.Stage2.Sha2
