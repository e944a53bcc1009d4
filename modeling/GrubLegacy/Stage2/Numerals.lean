import GrubLegacy.Base.CStrings

/-!
# Numbers in texts

`safe_parse_maxint` of `char_io.c`, and what a text denotes that it accepts.
-/

namespace GrubLegacy.Stage2

open CStrings

/-- MAXINT -/
def maxint : Nat := 0x7FFFFFFF

/-- The value of a digit; the letters of either case count in a hexadecimal number. -/
def digitOf (mult : Nat) (c : UInt8) : Option Nat :=
  if 48 ≤ c.toNat ∧ c.toNat ≤ 57 then some (c.toNat - 48)
  else if mult = 16 ∧ 65 ≤ c.toNat ∧ c.toNat ≤ 70 then some (c.toNat - 55)
  else if mult = 16 ∧ 97 ≤ c.toNat ∧ c.toNat ≤ 102 then some (c.toNat - 87)
  else none

/-- The loop of `safe_parse_maxint`; nothing on an overflow. -/
def parseDigits (mult : Nat) : (myint : Nat) → List UInt8 → Option (Nat × List UInt8)
  | myint, [] => some (myint, [])
  | myint, c :: rest =>
    match digitOf mult c with
    | none => some (myint, c :: rest)
    | some digit =>
      if (maxint - digit) / mult < myint then none
      else parseDigits mult (myint * mult + digit) rest

/-- The base of a number, and its digits. -/
def numeralBase : List UInt8 → Nat × List UInt8
  | zero :: x :: digits =>
    if zero = charOf '0' ∧ (x = charOf 'x' ∨ x = charOf 'X') then (16, digits)
    else (10, zero :: x :: digits)
  | text => (10, text)

/-- `safe_parse_maxint`: the number at the start of a text and what follows it. -/
def safeParseMaxint (text : List UInt8) : Option (Nat × List UInt8) :=
  let (mult, digits) := numeralBase text
  match parseDigits mult 0 digits with
  | none => none
  | some (myint, rest) => if rest.length = digits.length then none else some (myint, rest)

/-- The value of some digits, the first of them the highest. -/
def digitsValue (mult : Nat) (digits : List Nat) : Nat :=
  digits.foldl (fun value digit => value * mult + digit) 0

/-- A text that is a number: decimal digits, or `0x` and hexadecimal ones. -/
inductive Numeral : List UInt8 → Nat → Prop where
  | decimal {text : List UInt8} {digits : List Nat} (some_ : digits ≠ [])
      (denotes : text.map (digitOf 10) = digits.map some) :
      Numeral text (digitsValue 10 digits)
  | hexadecimal {x : UInt8} {text : List UInt8} {digits : List Nat}
      (isX : x = charOf 'x' ∨ x = charOf 'X') (some_ : digits ≠ [])
      (denotes : text.map (digitOf 16) = digits.map some) :
      Numeral (charOf '0' :: x :: text) (digitsValue 16 digits)

/-- The loop reads digits off the text. -/
theorem parseDigits_denotes {mult myint value : Nat} {text rest : List UInt8}
    (parses : parseDigits mult myint text = some (value, rest)) :
    ∃ (read : List UInt8) (digits : List Nat), text = read ++ rest ∧
      read.map (digitOf mult) = digits.map some ∧
        value = digits.foldl (fun value digit => value * mult + digit) myint := by
  induction text generalizing myint with
  | nil =>
      obtain ⟨rfl, rfl⟩ := Prod.mk.inj (Option.some.inj parses)
      exact ⟨[], [], rfl, rfl, rfl⟩
  | cons c text ih =>
      rw [parseDigits] at parses
      cases isDigit : digitOf mult c with
      | none =>
          rw [isDigit] at parses
          obtain ⟨rfl, rfl⟩ := Prod.mk.inj (Option.some.inj parses)
          exact ⟨[], [], rfl, rfl, rfl⟩
      | some digit =>
          rw [isDigit] at parses
          dsimp only at parses
          split at parses
          · cases parses
          · obtain ⟨read, digits, rfl, denotes, rfl⟩ := ih parses
            refine ⟨c :: read, digit :: digits, rfl, ?_, rfl⟩
            rw [List.map_cons, List.map_cons, isDigit, denotes]

/-- A digit is below sixteen. -/
theorem digitOf_lt {mult digit : Nat} {c : UInt8} (isDigit : digitOf mult c = some digit) :
    digit < 16 := by
  rw [digitOf] at isDigit
  split at isDigit
  · obtain rfl := Option.some.inj isDigit
    omega
  · split at isDigit
    · obtain rfl := Option.some.inj isDigit
      omega
    · split at isDigit
      · obtain rfl := Option.some.inj isDigit
        omega
      · cases isDigit

/-- The loop never leaves the range of an `int`. -/
theorem parseDigits_le {mult myint value : Nat} {text rest : List UInt8} (positive : 0 < mult)
    (small : myint ≤ maxint) (parses : parseDigits mult myint text = some (value, rest)) :
    value ≤ maxint := by
  induction text generalizing myint with
  | nil =>
      obtain ⟨rfl, _⟩ := Prod.mk.inj (Option.some.inj parses)
      exact small
  | cons c text ih =>
      rw [parseDigits] at parses
      cases isDigit : digitOf mult c with
      | none =>
          rw [isDigit] at parses
          obtain ⟨rfl, _⟩ := Prod.mk.inj (Option.some.inj parses)
          exact small
      | some digit =>
          rw [isDigit] at parses
          dsimp only at parses
          split at parses
          · cases parses
          · next room =>
              refine ih ?_ parses
              have enough := (Nat.le_div_iff_mul_le positive).mp (Nat.le_of_not_lt room)
              have low := digitOf_lt isDigit
              rw [maxint] at enough ⊢
              omega

/-- The base is ten, or sixteen behind its prefix. -/
theorem numeralBase_eq (text : List UInt8) :
    (numeralBase text = (10, text)) ∨
      ∃ x digits, text = charOf '0' :: x :: digits ∧ (x = charOf 'x' ∨ x = charOf 'X') ∧
        numeralBase text = (16, digits) := by
  match text with
  | [] => exact .inl rfl
  | [_] => exact .inl rfl
  | zero :: x :: digits =>
      rw [numeralBase]
      split
      · next hex =>
          obtain ⟨rfl, isX⟩ := hex
          exact .inr ⟨x, digits, rfl, isX, rfl⟩
      · exact .inl rfl

/-- A number that is read stands at the start of the text. -/
theorem safeParseMaxint_numeral {text rest : List UInt8} {value : Nat}
    (parses : safeParseMaxint text = some (value, rest)) :
    ∃ read, text = read ++ rest ∧ Numeral read value := by
  rw [safeParseMaxint] at parses
  have whole : ∀ (mult : Nat) (digits : List UInt8),
      (match parseDigits mult 0 digits with
        | none => none
        | some (myint, rest) =>
          if rest.length = digits.length then none else some (myint, rest)) =
        some (value, rest) →
      ∃ read values, digits = read ++ rest ∧ values ≠ [] ∧
        read.map (digitOf mult) = List.map some values ∧ value = digitsValue mult values := by
    intro mult digits found
    cases looped : parseDigits mult 0 digits with
    | none =>
        rw [looped] at found
        cases found
    | some pair =>
        rw [looped] at found
        dsimp only at found
        split at found
        · cases found
        · next some_ =>
            obtain ⟨rfl⟩ := Option.some.inj found
            obtain ⟨read, values, rfl, denotes, same⟩ := parseDigits_denotes looped
            refine ⟨read, values, rfl, ?_, denotes, same⟩
            rintro rfl
            rw [List.map_nil] at denotes
            rw [List.map_eq_nil_iff.mp denotes] at some_
            exact some_ rfl
  rcases numeralBase_eq text with ten | ⟨x, digits, rfl, isX, sixteen⟩
  · rw [ten] at parses
    obtain ⟨read, values, same, some_, denotes, rfl⟩ := whole 10 text parses
    exact ⟨read, same, .decimal some_ denotes⟩
  · rw [sixteen] at parses
    obtain ⟨read, values, rfl, some_, denotes, rfl⟩ := whole 16 digits parses
    exact ⟨charOf '0' :: x :: read, rfl, .hexadecimal isX some_ denotes⟩

/-- A number that is parsed is MAXINT at most. -/
theorem safeParseMaxint_le {text rest : List UInt8} {value : Nat}
    (parses : safeParseMaxint text = some (value, rest)) : value ≤ maxint := by
  rw [safeParseMaxint] at parses
  have positive : 0 < (numeralBase text).1 := by
    rcases numeralBase_eq text with ten | ⟨_, _, _, _, sixteen⟩
    · rw [ten]
      exact Nat.zero_lt_succ 9
    · rw [sixteen]
      exact Nat.zero_lt_succ 15
  dsimp only at parses
  cases looped : parseDigits (numeralBase text).1 0 (numeralBase text).2 with
  | none =>
      rw [looped] at parses
      cases parses
  | some pair =>
      rw [looped] at parses
      dsimp only at parses
      split at parses
      · cases parses
      · obtain ⟨rfl⟩ := Option.some.inj parses
        exact parseDigits_le positive (Nat.zero_le _) looped

end GrubLegacy.Stage2
