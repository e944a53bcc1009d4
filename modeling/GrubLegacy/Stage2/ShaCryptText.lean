import GrubLegacy.Stage2.FormatTexts
import GrubLegacy.Stage2.Md5Crypt
import GrubLegacy.Stage2.ShaCryptDigest

/-!
# The string of a password

What `crypt_r` makes of a digest: the prefix, the number of rounds if the salt has one, up to 16
characters of the salt, and all bytes of the digest in characters of six bits each. There is room
for it whenever there is room for the salt.
-/

namespace GrubLegacy.Stage2.Sha2

open Base CStrings

variable {w : Nat}

/-! ## What the string is -/

namespace ShaCrypt

/-- The number in the bytes of a group. -/
def groupValue (final : List UInt8) (group : Option Nat × Option Nat × Option Nat × Nat) : Nat :=
  let byte (index : Option Nat) : Nat := (index.map fun i => (final.getD i 0).toNat).getD 0
  byte group.1 * 2 ^ 16 + byte group.2.1 * 2 ^ 8 + byte group.2.2.1

/-- A digest in characters. -/
def digits (file : CryptFile w) (final : List UInt8) : List UInt8 :=
  file.groups.flatMap fun group => Md5Crypt.to64 group.2.2.2 (groupValue final group)

/-- The number of rounds, if the salt has one. -/
def roundsField (arg : SaltArg) : List UInt8 :=
  if arg.roundsCustom then roundsPrefix ++ numeral 10 arg.rounds ++ [dollar] else []

/-- The string before the digest. -/
def front (file : CryptFile w) (arg : SaltArg) : List UInt8 :=
  file.saltPrefix ++ roundsField arg ++ saltField arg.salt ++ [dollar]

/-- The string of a password, with the salt of another string. -/
def string (file : CryptFile w) (digest : List UInt8 → List UInt8) (key salt : List UInt8) :
    List UInt8 :=
  let arg := parseSalt file.saltPrefix .none salt
  front file arg ++ digits file (mixedBy digest key (saltField arg.salt) arg.rounds)

end ShaCrypt

/-- As many characters are made as are asked for. -/
@[simp] theorem length_to64 (count value : Nat) : (Md5Crypt.to64 count value).length = count := by
  simp [Md5Crypt.to64]

/-- The lowest six bits come first. -/
theorem to64_succ (count value : Nat) :
    Md5Crypt.to64 (count + 1) value =
      b64t.getD (value % 64) 0 :: Md5Crypt.to64 count (value / 64) := by
  rw [Md5Crypt.to64, Md5Crypt.to64, List.range_succ_eq_map, List.map_cons, List.map_map]
  congr 1
  · simp [b64t, Md5Crypt.itoa64]
  · refine List.map_congr_left fun n _ => ?_
    rw [Function.comp_apply, Nat.div_div_eq_div_mul, Nat.pow_succ']

/-- The hash takes the characters of the file. -/
theorem length_digits (file : CryptFile w) (final : List UInt8) :
    (ShaCrypt.digits file final).length = file.hashChars := by
  simp [ShaCrypt.digits, CryptFile.hashChars]

/-! ## The number of rounds -/

/-- A numeral has no NUL. -/
theorem nulFree_numeral (n : Nat) : NulFree (numeral 10 n) := by
  intro c member
  obtain ⟨digit, small, rfl⟩ := mem_numeral (by decide) (by decide) member
  have free : ∀ digit < 16, charOf (Nat.digitChar digit) ≠ 0 := by decide
  exact free digit small

/-- The format comes to the prefix, the digits and a dollar. -/
theorem roundsText_eq {rounds : Nat} (small : rounds < 2 ^ 64) :
    roundsText rounds = roundsPrefix ++ numeral 10 rounds ++ [dollar] := by
  have free : NulFree roundsPrefix := by simp [NulFree, roundsPrefix, ascii, charOf]
  let text : CString := ⟨roundsPrefix, free, by decide⟩
  let number : NumberDirective .ia32 := .llu (BitVec.ofNat 64 rounds)
  have value : number.value = rounds :=
    congrArg Nat.cast ((BitVec.toNat_ofNat rounds 64).trans (Nat.mod_eq_of_lt small))
  have string := @Piece.run .ia32 true (.string text) (emptyOutput [.string text, number.arg])
    [number.arg] rfl
  have digits := @NumberDirective.run .ia32 true number
    (Piece.after true (.string text) (emptyOutput [.string text, number.arg]) [number.arg]) [] rfl
  have isDecimal : number.digits rounds = numeral 10 rounds := rfl
  rw [NumberDirective.formatAscii_eq _ (by rw [value]; exact not_badNegative_natCast _), value,
    isDecimal] at digits
  let last : Piece .ia32 := .ordinary dollar ⟨by decide, by decide⟩
  have ends := fun out : Output .ia32 => @Piece.run .ia32 true last out out.args rfl
  have some_ : (Piece.string text : Piece .ia32).format ++ number.format ++ last.format ≠ [] :=
    List.append_ne_nil_of_right_ne_nil _ (List.cons_ne_nil _ _)
  have whole := grubVsprintf_of_runs some_ ((string.append digits).append (ends _))
  have stored : NulFree (roundsPrefix ++ numeral 10 rounds ++ [dollar]) := by
    intro c member
    rcases List.mem_append.mp member with front | last
    · rcases List.mem_append.mp front with letter | digit
      · exact free c letter
      · exact nulFree_numeral rounds c digit
    · rw [List.mem_singleton.mp last]
      decide
  change ((grubVsprintf true (ascii "%s%llu$") [.string text, number.arg]).map fun out =>
    out.stored.takeWhile (· ≠ 0)).getD [] = _
  rw [show ascii "%s%llu$" = (Piece.string text : Piece .ia32).format ++ number.format ++ last.format
    from rfl, whole, Option.map_some, Option.getD_some, ← readString_encodeString stored []]
  refine congrArg readString ?_
  simp [encodeString, Piece.after, Piece.written, Piece.text, Piece.leaked, Output.puts, emptyOutput,
    text, last]

/-! ## What is written -/

/-- A text has been written to a buffer of this size, and nothing outside of it. -/
structure Written (size : Nat) (buffer : CryptBuffer) (text : List UInt8) : Prop where
  same : buffer.text = text
  left : buffer.buflen = size - (text.length : Int)
  inside : ∀ store ∈ buffer.stores, store.1 + store.2 ≤ size

section

variable {size : Nat} {buffer : CryptBuffer} {text more : List UInt8}

/-- The room left in a buffer is its size less what is written. -/
theorem Written.room_eq (written : Written size buffer text) (fits : text.length ≤ size) :
    buffer.room = size - text.length := by
  rw [CryptBuffer.room, written.left]
  omega

/-- A string that is copied is written behind the text, -/
theorem Written.stpncpy (written : Written size buffer text) {count : Nat} (free : NulFree more)
    (whole : more.length ≤ count) (fits : text.length + count ≤ size) :
    Written size (buffer.stpncpy more count more.length) (text ++ more) where
  same := by
    rw [CryptBuffer.stpncpy, written.same, List.take_of_length_le whole,
      List.takeWhile_eq_self_iff.mpr fun c member => decide_eq_true (free c member)]
  left := by
    rw [CryptBuffer.stpncpy, written.left, List.length_append]
    dsimp only
    omega
  inside store member := by
    rcases List.mem_append.mp member with before | last
    · exact written.inside store before
    · rw [List.mem_singleton.mp last, written.same]
      exact fits

/-- so are the rounds, -/
theorem Written.putRounds (written : Written size buffer text)
    (fits : text.length + more.length ≤ size) :
    Written size (buffer.putRounds more) (text ++ more) := by
  have room := written.room_eq (by omega)
  have enough : min buffer.room more.length = more.length := by omega
  refine ⟨?_, ?_, fun store member => ?_⟩
  · rw [CryptBuffer.putRounds, written.same, enough, List.take_length]
  · rw [CryptBuffer.putRounds, written.left, List.length_append]
    dsimp only
    omega
  · rw [CryptBuffer.putRounds, enough, written.same] at member
    rcases List.mem_append.mp member with before | last
    · exact written.inside store before
    · rw [List.mem_singleton.mp last]
      exact fits

/-- a character, -/
theorem Written.putChar (written : Written size buffer text) (fits : text.length < size)
    (c : UInt8) : Written size (buffer.putChar c) (text ++ [c]) := by
  have room : 0 < buffer.buflen := by
    rw [written.left]
    omega
  rw [CryptBuffer.putChar, if_pos room]
  refine ⟨?_, ?_, fun store member => ?_⟩
  · rw [written.same]
  · rw [written.left, List.length_append, List.length_singleton]
    dsimp only
    omega
  · rcases List.mem_append.mp member with before | last
    · exact written.inside store before
    · rw [List.mem_singleton.mp last, written.same]
      exact fits

/-- a group of the hash -/
theorem Written.encodeGroup (written : Written size buffer text) {n value : Nat}
    (fits : text.length + n ≤ size) :
    Written size (encodeGroup n value buffer) (text ++ Md5Crypt.to64 n value) := by
  induction n generalizing value buffer text with
  | zero => simpa [Sha2.encodeGroup, Md5Crypt.to64] using written
  | succ n ih =>
      have room : 0 < buffer.buflen := by
        rw [written.left]
        omega
      have next := written.putChar (by omega) (b64t.getD (value % 64) 0)
      have whole : Written size (encodeGroup n (value / 64) _) _ :=
        ih next (by rw [List.length_append, List.length_singleton]; omega)
      rw [List.append_assoc, List.singleton_append, ← to64_succ] at whole
      rwa [Sha2.encodeGroup, if_pos room]

/-- and all of its groups. -/
theorem Written.groups (written : Written size buffer text) (final : List UInt8)
    (groups : List (Option Nat × Option Nat × Option Nat × Nat))
    (fits : text.length + (groups.map fun group => group.2.2.2).sum ≤ size) :
    Written size (groups.foldl (b64From24bit final) buffer)
      (text ++ groups.flatMap fun group =>
        Md5Crypt.to64 group.2.2.2 (ShaCrypt.groupValue final group)) := by
  induction groups generalizing buffer text with
  | nil => simpa using written
  | cons group groups ih =>
      rw [List.map_cons, List.sum_cons] at fits
      have first : Written size (b64From24bit final buffer group) _ :=
        written.encodeGroup (by omega)
      have whole := ih first (by rw [List.length_append, length_to64]; omega)
      rwa [List.append_assoc] at whole

end

/-! ## The arguments of a salt -/

/-- The number behind `rounds=` can be read, if there is one. -/
def RoundsRead (saltPrefix salt : List UInt8) : Prop :=
  ∀ num, skipPrefix saltPrefix salt = roundsPrefix ++ num →
    LooksHexadecimal num ∨ ∃ value rest, StartsNumber num value rest ∧ value ≤ maxint

/-- Where it can be read `errnum` does not change. -/
theorem parseRounds_errnum {num : List UInt8} (errnum : GrubError)
    (reads : LooksHexadecimal num ∨ ∃ value rest, StartsNumber num value rest ∧ value ≤ maxint) :
    (parseRounds errnum num).errnum = errnum := by
  rw [parseRounds]
  split
  next => rfl
  next decimal =>
    obtain ⟨value, rest, starts, fits⟩ := reads.resolve_left decimal
    rw [callSafeParseMaxint,
      (parsesNumbers_parseNumber (by decide)).stores _ value rest starts fits]

/-- A salt whose rounds are read leaves the error as it was. -/
theorem parseSalt_errnum {saltPrefix salt : List UInt8} (errnum : GrubError)
    (reads : RoundsRead saltPrefix salt) : (parseSalt saltPrefix errnum salt).errnum = errnum := by
  rw [parseSalt]
  dsimp only
  split
  next isPrefix =>
    obtain ⟨num, isNumber⟩ := List.isPrefixOf_iff_prefix.mp isPrefix
    have clear := parseRounds_errnum errnum (reads num isNumber.symm)
    rw [← isNumber, List.drop_left]
    split
    · exact clear
    · exact clear
  next => rfl

/-- A number of rounds is one of up to nine digits. -/
theorem parseSalt_rounds (saltPrefix salt : List UInt8) (errnum : GrubError) :
    (parseSalt saltPrefix errnum salt).rounds ≤ roundsMax ∧
      roundsMin ≤ (parseSalt saltPrefix errnum salt).rounds := by
  rw [parseSalt]
  dsimp only
  split
  · split
    · simp [roundsMax, roundsMin]
    · simp [roundsDefault, roundsMax, roundsMin]
  · simp [roundsDefault, roundsMax, roundsMin]

/-- What follows a number is the rest of the text. -/
theorem suffix_of_starts {text rest : List UInt8} {value : Nat}
    (starts : StartsNumber text value rest) : rest <:+ text := by
  cases starts with
  | decimal plain run some_ =>
      obtain ⟨read, rfl, -⟩ := run.split
      exact List.suffix_append _ _
  | hexadecimal isX run some_ =>
      obtain ⟨read, rfl, -⟩ := run.split
      exact ⟨_ :: _ :: read, rfl⟩

/-- The number of rounds is read from the left. -/
theorem parseRounds_suffix (errnum : GrubError) (num : List UInt8) :
    (parseRounds errnum num).strPtr <:+ num := by
  rw [parseRounds]
  split
  · exact List.tail_suffix num
  · have parses := @parsesNumbers_parseNumber maxint (by decide)
    rw [callSafeParseMaxint]
    by_cases number : ∃ value rest, StartsNumber num value rest
    · obtain ⟨value, rest, starts⟩ := number
      rcases Nat.lt_or_ge maxint value with above | fits
      · rw [parses.overflows _ value rest starts above]
      · rw [parses.stores _ value rest starts fits]
        exact suffix_of_starts starts
    · rw [parses.misses _ fun value rest starts => number ⟨value, rest, starts⟩]

/-- Behind the prefix is the rest of the salt. -/
theorem skipPrefix_suffix (saltPrefix salt : List UInt8) : skipPrefix saltPrefix salt <:+ salt := by
  rw [skipPrefix]
  split
  · exact List.drop_suffix _ salt
  · exact List.suffix_refl salt

/-- The salt is the end of the string. -/
theorem parseSalt_suffix (saltPrefix salt : List UInt8) (errnum : GrubError) :
    (parseSalt saltPrefix errnum salt).salt <:+ salt := by
  have body := skipPrefix_suffix saltPrefix salt
  rw [parseSalt]
  dsimp only
  split
  · split
    · exact (List.tail_suffix _).trans
        ((parseRounds_suffix errnum _).trans ((List.drop_suffix _ _).trans body))
    · exact body
  · exact body

/-- The salt field is the start of the text, -/
theorem saltField_starts (salt : List UInt8) : saltField salt <+: salt := List.take_prefix _ _

/-- so it has no NUL if the text has none, -/
theorem nulFree_saltField {salt : List UInt8} (free : NulFree salt) : NulFree (saltField salt) :=
  fun c member => free c ((saltField_starts salt).subset member)

/-- and it has sixteen characters at most. -/
theorem length_saltField (salt : List UInt8) : (saltField salt).length ≤ saltLenMax := by
  rw [saltField, List.length_take]
  omega

/-- The field of the rounds has at most ten digits. -/
theorem length_roundsField {arg : SaltArg} (few : arg.rounds ≤ roundsMax) :
    (ShaCrypt.roundsField arg).length ≤ roundsPrefix.length + 10 := by
  rw [ShaCrypt.roundsField]
  split
  · have digits : (numeral 10 arg.rounds).length ≤ 9 :=
      length_numeral_le (by decide) (by decide) (by rw [roundsMax] at few; omega)
    rw [List.length_append, List.length_append, List.length_singleton]
    omega
  · exact Nat.zero_le _

/-! ## The string of a salt -/

section

variable {file : CryptFile w} {arg : SaltArg} {size : Nat} {buffer : CryptBuffer} {text : List UInt8}

/-- The texts that are copied as strings. -/
structure Free (file : CryptFile w) (arg : SaltArg) : Prop where
  saltPrefix : NulFree file.saltPrefix
  salt : NulFree arg.salt

/-- Rounds of the salt's own are written behind the text. -/
theorem Written.roundsField (written : Written size buffer text) (few : arg.rounds ≤ roundsMax)
    (fits : text.length + (ShaCrypt.roundsField arg).length ≤ size) :
    Written size (if arg.roundsCustom then buffer.putRounds (roundsText arg.rounds) else buffer)
      (text ++ ShaCrypt.roundsField arg) := by
  rw [ShaCrypt.roundsField] at fits ⊢
  split
  next custom =>
    rw [if_pos custom] at fits
    rw [roundsText_eq (by rw [roundsMax] at few; omega)]
    exact written.putRounds fits
  next plain => rwa [List.append_nil]

/-- What stands before the hash leaves room for it. -/
theorem length_front (few : arg.rounds ≤ roundsMax) :
    (ShaCrypt.front file arg).length + file.hashChars < file.sizeFor 256 := by
  have rounds := length_roundsField few
  have salt := length_saltField arg.salt
  rw [saltLenMax] at salt
  simp only [ShaCrypt.front, List.length_append, List.length_singleton, CryptFile.sizeFor]
  omega

/-- There is room for the string up to the digest. -/
theorem cryptFront_written (few : arg.rounds ≤ roundsMax) (free : Free file arg) :
    Written (file.sizeFor 256) (cryptFront file arg (saltField arg.salt) (file.sizeFor 256))
      (ShaCrypt.front file arg) := by
  let start : CryptBuffer := ⟨[], file.sizeFor 256, []⟩
  have written : Written (file.sizeFor 256) start [] := ⟨rfl, by simp [start], by simp [start]⟩
  have room : start.room = file.sizeFor 256 := written.room_eq (Nat.zero_le _)
  have large := @length_front w file _ few
  simp only [ShaCrypt.front, List.length_append, List.length_singleton] at large
  have first := written.stpncpy free.saltPrefix
    (show file.saltPrefix.length ≤ start.room by omega) (by simp [room])
  rw [List.nil_append] at first
  have second := first.roundsField few (by omega)
  have enough : min (CryptBuffer.room _) (saltField arg.salt).length = (saltField arg.salt).length :=
    Nat.min_eq_right (by rw [second.room_eq (by rw [List.length_append]; omega), List.length_append]; omega)
  have third := second.stpncpy (nulFree_saltField free.salt)
    (Nat.le_refl (saltField arg.salt).length) (by rw [List.length_append]; omega)
  have last := third.putChar (by rw [List.length_append, List.length_append]; omega) dollar
  rw [cryptFront, enough]
  exact last

/-- There is room for the digest and for a NUL. -/
theorem cryptText_written (few : arg.rounds ≤ roundsMax) (free : Free file arg)
    (final : List UInt8) :
    ∃ buffer, cryptText file arg (saltField arg.salt) final (file.sizeFor 256) = some buffer ∧
      buffer.text = ShaCrypt.front file arg ++ ShaCrypt.digits file final ∧
      ∀ store ∈ buffer.stores, store.1 + store.2 ≤ file.sizeFor 256 := by
  have room := @length_front w file _ few
  have written := (cryptFront_written few free).groups final file.groups room.le
  have digits := length_digits file final
  rw [← ShaCrypt.digits] at written
  have more : 0 < (file.groups.foldl (b64From24bit final)
      (cryptFront file arg (saltField arg.salt) (file.sizeFor 256))).buflen := by
    rw [written.left, List.length_append, digits]
    omega
  refine ⟨_, if_pos more, written.same, fun store member => ?_⟩
  rcases List.mem_append.mp member with before | last
  · exact written.inside store before
  · rw [List.mem_singleton.mp last, written.same, List.length_append, digits]
    exact room

end

/-- For a salt of up to 256 characters there is a string, and all that is written is inside of the
buffer; for a longer salt there is none. -/
def Returns (file : CryptFile w) (digest : List UInt8 → List UInt8) (key salt : List UInt8)
    (result : Option CryptBuffer) : Prop :=
  if 256 < salt.length then result = none
  else
    ∃ buffer, result = some buffer ∧ buffer.text = ShaCrypt.string file digest key salt ∧
      ∀ store ∈ buffer.stores, store.1 + store.2 ≤ file.sizeFor 256

/-- `errnum` is zero, and stays so while the salt, which is a string, is parsed. -/
structure Readable (file : CryptFile w) (around : Surroundings w) (salt : List UInt8) : Prop where
  clear : around.globals.errnum = .none
  free : NulFree salt
  rounds : RoundsRead file.saltPrefix salt

/-- While no error is set the aligned copy is the text. -/
theorem alignedCopy_clear {globals : Globals} (clear : globals.errnum = .none) (place : StringPlace)
    (text : List UInt8) : (alignedCopy w globals place text).2 = text := by
  rw [alignedCopy]
  split
  · exact Globals.copied_clear clear text
  · rfl

/-- Without an error set the function returns the text of the specification. -/
theorem crypt_returns {file : CryptFile w} {algorithm : Fips180.Algorithm w}
    (implements : Implements file.sha algorithm) (saltPrefix : NulFree file.saltPrefix)
    {around : Surroundings w} {key salt : List UInt8} (keyFits : key.length < 2 ^ w)
    (start : around.globals.errnum = .none) (nulFree : NulFree salt)
    (clear : (parseSalt file.saltPrefix .none salt).errnum = .none) :
    Returns file (Fips180.digest algorithm) key salt (file.crypt around key salt) := by
  have longer : file.sizeFor 256 < file.sizeFor salt.length ↔ 256 < salt.length := by
    rw [CryptFile.sizeFor, CryptFile.sizeFor]
    omega
  rw [Returns, CryptFile.crypt, if_congr longer rfl rfl, start]
  split
  next => rfl
  next short =>
    have wide := implements.wide
    have few := (parseSalt_rounds file.saltPrefix salt .none).1
    have saltShort := length_saltField (parseSalt file.saltPrefix .none salt).salt
    have saltFits : (saltField (parseSalt file.saltPrefix .none salt).salt).length < 2 ^ w := by
      rw [saltLenMax] at saltShort
      have := Nat.lt_two_pow_self (n := w)
      omega
    have free : NulFree (parseSalt file.saltPrefix .none salt).salt := fun c member =>
      nulFree c ((parseSalt_suffix _ _ _).subset member)
    dsimp only
    rw [cryptDigest_mixed implements clear _ _ _ (by rwa [alignedCopy_clear clear])
      (by rwa [alignedCopy_clear clear]), alignedCopy_clear clear, alignedCopy_clear clear]
    exact cryptText_written few ⟨saltPrefix, free⟩ _

/-- The prefix of SHA-256 has no NUL, -/
theorem nulFree_sha256Crypt : NulFree sha256Crypt.saltPrefix := by
  simp [NulFree, sha256Crypt, ascii, charOf]

/-- nor has that of SHA-512. -/
theorem nulFree_sha512Crypt : NulFree sha512Crypt.saltPrefix := by
  simp [NulFree, sha512Crypt, ascii, charOf]

/-- Both files return the string of the algorithm for every password and every salt that can be
read and that their buffers are made for, whatever is in memory, and they store nothing outside of
these buffers. -/
theorem crypt_text {around256 : Surroundings 32} {around512 : Surroundings 64}
    {key salt : List UInt8} (keyFits : key.length < 2 ^ 32)
    (readable256 : Readable sha256Crypt around256 salt)
    (readable512 : Readable sha512Crypt around512 salt) :
    Returns sha256Crypt (Fips180.digest Fips180.sha256) key salt
        (sha256Crypt.crypt around256 key salt) ∧
      Returns sha512Crypt (Fips180.digest Fips180.sha512) key salt
        (sha512Crypt.crypt around512 key salt) :=
  ⟨crypt_returns implements_sha256 nulFree_sha256Crypt keyFits readable256.clear readable256.free
      (parseSalt_errnum .none readable256.rounds),
    crypt_returns implements_sha512 nulFree_sha512Crypt (by omega) readable512.clear
      readable512.free (parseSalt_errnum .none readable512.rounds)⟩

/-- A salt with a number of rounds that is too small, and with a text behind it that is too long. -/
def lowRounds : List UInt8 := ascii "rounds=10$roundstoolowandlong"

/-- A salt with another prefix is readable. -/
theorem lowRounds_readable {file : CryptFile w} {around : Surroundings w}
    (clear : around.globals.errnum = .none) (other : file.saltPrefix.isPrefixOf lowRounds = false) :
    Readable file around lowRounds where
  clear := clear
  free := by simp [NulFree, lowRounds, ascii, charOf]
  rounds num isNumber := by
    rw [skipPrefix, other, if_neg Bool.false_ne_true] at isNumber
    have same : num = ascii "10$roundstoolowandlong" :=
      (@List.append_cancel_left _ roundsPrefix _ _ isNumber).symm
    have starts : StartsNumber num (digitsValue 10 [1, 0]) (ascii "$roundstoolowandlong") := by
      subst same
      refine .decimal (fun x digits _ same => ?_) ⟨⟨ascii "10", rfl, rfl⟩, ?_⟩ (List.cons_ne_nil _ _)
      · cases (List.cons.inj same).1
      · intro c isFirst
        obtain rfl := Option.some.inj isFirst
        rfl
    exact .inr ⟨_, _, starts, by decide⟩

/-- The addresses of the key and the salt are not aligned. -/
theorem crypt_text_rounds :
    Returns sha256Crypt (Fips180.digest Fips180.sha256) [0x6b, 0x65, 0x79] lowRounds
        (sha256Crypt.crypt (someSurroundings sha256) [0x6b, 0x65, 0x79] lowRounds) ∧
      Returns sha512Crypt (Fips180.digest Fips180.sha512) [0x6b, 0x65, 0x79] lowRounds
        (sha512Crypt.crypt (someSurroundings sha512) [0x6b, 0x65, 0x79] lowRounds) :=
  crypt_text (by decide) (lowRounds_readable rfl (by decide)) (lowRounds_readable rfl (by decide))

end GrubLegacy.Stage2.Sha2
