import GrubLegacy.Base.CStrings

/-!
# Digits of numbers

`format_ascii` of `char_io.c` makes the digits of a value from the end of its buffer on. A
negative value is complemented, which is one too low, and the last digit is moved up by one
afterwards.
-/

namespace GrubLegacy.Stage2

open CStrings

/-- The size of `buf` in `grub_vsprintf`. -/
def bufSize : Nat := 40

/-- The character of a digit, where `a` is the letter of ten. -/
def digitChar (a : UInt8) (dig : Nat) : UInt8 :=
  if 9 < dig then UInt8.ofNat dig + a - 10 else charOf '0' + UInt8.ofNat dig

/-- The loop that makes digits: the text before the end of the buffer, and how many characters
of padding are left. -/
def formatDigits (mult : Nat) (a : UInt8) :
    (fuel nval pad : Nat) → (text : List UInt8) → List UInt8 × Nat
  | 0, _, pad, text => (text, pad)
  | fuel + 1, nval, pad, text =>
    if nval / mult = 0 then (digitChar a (nval % mult) :: text, pad - 1)
    else formatDigits mult a fuel (nval / mult) (pad - 1) (digitChar a (nval % mult) :: text)

/-- `buf[_mult - 2]++`, where `_mult` counts the NUL of the text too. -/
def lastUp (text : List UInt8) : List UInt8 := text.modify (text.length - 1) (· + 1)

/-- `format_ascii`: the text that it leaves at the start of the buffer. The value falls with
every digit, so that there are no more of them than it is high. -/
def formatAscii (val : Int) (isHex isCap : Bool) (numPadChars : Nat) : List UInt8 :=
  let mult := if isHex then 16 else 10
  let a := if isCap then charOf 'A' else charOf 'a'
  let negative := ¬ 0 < val ∧ val ≠ 0
  let nval := (if negative then Int.not val else val).toNat
  let (digits, pad) := formatDigits mult a (nval + 1) nval numPadChars []
  let padded := List.replicate pad (charOf '0') ++ digits
  if negative then lastUp (charOf '-' :: padded) else padded

/-! ## Numerals -/

/-- The digits of a number, lower-case ones from ten on. -/
def numeral (base n : Nat) : List UInt8 := (Nat.toDigits base n).map charOf

/-- The decimal digits of a number, behind a sign if it is negative. -/
def decimal (val : Int) : List UInt8 :=
  if val < 0 then charOf '-' :: numeral 10 val.natAbs else numeral 10 val.natAbs

/-- A text that is filled up with zeros from the left. -/
def zeroPadded (width : Nat) (text : List UInt8) : List UInt8 :=
  List.replicate (width - text.length) (charOf '0') ++ text

/-- The values whose last digit is moved up from nine. -/
def BadNegative (val : Int) : Prop := val < 0 ∧ val % 10 = 0

instance (val : Int) : Decidable (BadNegative val) := inferInstanceAs (Decidable (_ ∧ _))

section

variable {base n : Nat}

/-- The digits of the code are those of a numeral. -/
theorem digitChar_eq {digit : Nat} (small : digit < 16) :
    digitChar (charOf 'a') digit = charOf (Nat.digitChar digit) := by
  revert digit
  decide

/-- A numeral ends in its last digit. -/
theorem numeral_eq (more : 1 < base) :
    numeral base n = (if n < base then [] else numeral base (n / base)) ++
      [charOf (Nat.digitChar (n % base))] := by
  rw [numeral, Nat.toDigits_eq_if more]
  split
  next small => simp [Nat.mod_eq_of_lt small]
  next => simp [numeral]

/-- A number below a power has at most as many digits. -/
theorem length_numeral_le {count : Nat} (more : 1 < base) (some_ : 0 < count)
    (small : n < base ^ count) : (numeral base n).length ≤ count := by
  rw [numeral, List.length_map]
  exact (Nat.length_toDigits_le_iff more some_).mpr small

/-- The loop makes the digits of the value. -/
theorem formatDigits_eq (more : 1 < base) (inside : base ≤ 16) {fuel pad : Nat}
    {text : List UInt8} (enough : n < fuel) :
    formatDigits base (charOf 'a') fuel n pad text =
      (numeral base n ++ text, pad - (numeral base n).length) := by
  induction fuel generalizing n pad text with
  | zero => exact absurd enough (Nat.not_lt_zero _)
  | succ fuel ih =>
      have digit := digitChar_eq (Nat.lt_of_lt_of_le (Nat.mod_lt n (Nat.zero_lt_of_lt more)) inside)
      rw [formatDigits, digit, numeral_eq more]
      by_cases last : n < base
      · rw [if_pos (Nat.div_eq_of_lt last), if_pos last]
        rfl
      · have some_ : 0 < n / base := Nat.div_pos (Nat.le_of_not_lt last) (Nat.zero_lt_of_lt more)
        have less : n / base < n := Nat.div_lt_self (by omega) more
        rw [if_neg (Nat.ne_of_gt some_), if_neg last, ih (by omega)]
        simp [Nat.sub_sub, Nat.add_comm]

end

/-! ## What is made of a value -/

/-- The last digit is raised. -/
theorem lastUp_append (text : List UInt8) (c : UInt8) : lastUp (text ++ [c]) = text ++ [c + 1] := by
  rw [lastUp, List.length_append, List.length_singleton, Nat.add_sub_cancel]
  induction text with
  | nil => rfl
  | cons first text ih => simp [ih]

/-- A value that is not negative has its digits, at least as many as are asked for. -/
theorem formatAscii_of_nonneg {val : Int} (positive : 0 ≤ val) (isHex : Bool) (pad : Nat) :
    formatAscii val isHex false pad =
      zeroPadded pad (numeral (if isHex then 16 else 10) val.toNat) := by
  have notNegative : ¬ (¬ 0 < val ∧ val ≠ 0) := by omega
  have base : 1 < (if isHex then 16 else 10) ∧ (if isHex then 16 else 10) ≤ 16 := by
    cases isHex <;> decide
  simp only [formatAscii, if_neg notNegative, Bool.false_eq_true, if_false]
  rw [formatDigits_eq base.1 base.2 (Nat.lt_add_one _)]
  simp [zeroPadded]

/-- A digit below nine is raised to the next one. -/
theorem digit_succ {digit : Nat} (small : digit < 9) :
    charOf (Nat.digitChar digit) + 1 = charOf (Nat.digitChar (digit + 1)) := by
  revert digit
  decide

/-- The digits of a negative value are those of its complement, with the last one moved up. -/
theorem formatAscii_of_neg {val : Int} (negative : val < 0) :
    formatAscii val false false 0 =
      charOf '-' :: ((if val.natAbs ≤ 10 then [] else numeral 10 ((val.natAbs - 1) / 10)) ++
        [charOf (Nat.digitChar ((val.natAbs - 1) % 10)) + 1]) := by
  have complement : (Int.not val).toNat = val.natAbs - 1 := by
    cases val with
    | ofNat n => exact absurd negative (Int.not_lt.mpr (Int.natCast_nonneg n))
    | negSucc n => rfl
  have isNegative : ¬ 0 < val ∧ val ≠ 0 := by omega
  have small : val.natAbs - 1 < 10 ↔ val.natAbs ≤ 10 := by omega
  simp only [formatAscii, if_pos isNegative, complement, Bool.false_eq_true, if_false]
  rw [formatDigits_eq (by decide) (by decide) (Nat.lt_add_one _), numeral_eq (by decide)]
  simp only [small, Nat.zero_sub, List.replicate_zero, List.nil_append, List.append_nil]
  exact lastUp_append (charOf '-' :: _) _

/-- A negative value that is not a multiple of ten has its digits behind a sign. -/
theorem formatAscii_decimal {val : Int} (good : ¬ BadNegative val) :
    formatAscii val false false 0 = decimal val := by
  rw [decimal]
  split
  next negative =>
    have lastDigit : val.natAbs % 10 ≠ 0 := fun isZero => good ⟨negative, by omega⟩
    have sameFront : (val.natAbs - 1) / 10 = val.natAbs / 10 := by omega
    have nextDigit : (val.natAbs - 1) % 10 + 1 = val.natAbs % 10 := by omega
    have short : val.natAbs ≤ 10 ↔ val.natAbs < 10 := by omega
    rw [formatAscii_of_neg negative, @numeral_eq 10 val.natAbs (by decide), digit_succ (by omega),
      sameFront, nextDigit]
    simp only [short]
  next positive =>
    have isAbs : val.natAbs = val.toNat := by omega
    rw [formatAscii_of_nonneg (by omega), isAbs]
    simp [zeroPadded]

/-- A multiple of ten ends with the character behind the digits. -/
theorem formatAscii_bad {val : Int} (bad : BadNegative val) :
    ∃ front, formatAscii val false false 0 = charOf '-' :: (front ++ [charOf ':']) ∧
      (front = [] ∨ ∃ n, front = numeral 10 n) := by
  have lastDigit : (val.natAbs - 1) % 10 = 9 := by
    have := bad.2
    have := bad.1
    omega
  rw [formatAscii_of_neg bad.1, lastDigit]
  refine ⟨_, rfl, ?_⟩
  split
  · exact .inl rfl
  · exact .inr ⟨_, rfl⟩

/-- A numeral has digits only. -/
theorem mem_numeral {base n : Nat} {c : UInt8} (more : 1 < base) (inside : base ≤ 16)
    (member : c ∈ numeral base n) : ∃ digit < 16, c = charOf (Nat.digitChar digit) := by
  induction n using Nat.strong_induction_on with
  | _ n ih =>
    rw [numeral_eq more] at member
    rcases List.mem_append.mp member with front | last
    · split at front
      · cases front
      next many =>
        exact ih (n / base) (Nat.div_lt_self (by omega) more) front
    · exact ⟨n % base, Nat.lt_of_lt_of_le (Nat.mod_lt n (by omega)) inside, List.mem_singleton.mp last⟩

/-- What is made of a value of up to 64 bits fits into the buffer. -/
theorem length_formatAscii_lt {val : Int} (small : val.natAbs < 2 ^ 64) {isHex : Bool} {pad : Nat}
    (unsigned : 0 ≤ val ∨ isHex = false ∧ pad = 0) (few : pad < bufSize) :
    (formatAscii val isHex false pad).length < bufSize := by
  have digits : ∀ base n, 10 ≤ base → n ≤ val.natAbs → (numeral base n).length ≤ 20 := by
    intro base n more less
    refine length_numeral_le (by omega) (by decide) ?_
    calc n ≤ val.natAbs := less
      _ < 10 ^ 20 := Nat.lt_trans small (by decide)
      _ ≤ base ^ 20 := Nat.pow_le_pow_left more 20
  rw [bufSize] at few ⊢
  rcases Int.lt_or_le val 0 with negative | positive
  · obtain ⟨rfl, rfl⟩ := unsigned.resolve_left (by omega)
    have front := digits 10 ((val.natAbs - 1) / 10) (by decide) (by omega)
    rw [formatAscii_of_neg negative]
    split
    · simp
    · simp only [List.length_cons, List.length_append, List.length_nil]
      omega
  · have length := digits (if isHex then 16 else 10) val.toNat (by cases isHex <;> decide) (by omega)
    rw [formatAscii_of_nonneg positive, zeroPadded, List.length_append, List.length_replicate]
    omega

end GrubLegacy.Stage2
