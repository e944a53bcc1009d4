import GrubLegacy.Base.MachineInt
import GrubLegacy.Stage2.Numerals
import GrubLegacy.Stage2.Shared

/-!
# Parsing numbers

`safe_parse_maxint` of `char_io.c` and `safe_parse_maxulong` of `efimisc.c`, with what they
store and the errors they leave. The two have the same loop, with different limits.
-/

namespace GrubLegacy.Stage2

open Base CStrings

/-! ## The functions -/

/-- A `char` that is passed as an `int`. -/
def signedChar (c : UInt8) : Int := if c < 0x80 then c.toNat else c.toNat - 0x100

/-- `grub_tolower` -/
def grubTolower (c : Int) : Int := if 65 ≤ c ∧ c ≤ 90 then c + 32 else c

/-- The tests for a digit, by subtractions that wrap around. -/
def testDigit (mult : Nat) (c : UInt8) : Option Nat :=
  let digit := toUInt32 (grubTolower (signedChar c) - 48)
  if digit > 9 then
    let digit := toUInt32 (digit - 49)
    if mult = 10 ∨ digit > 5 then none else some (toUInt32 (digit + 10))
  else some digit

/-- What the loop ends with. -/
structure NumberLoop where
  ptr : List UInt8
  value : Nat
  found : Bool
deriving DecidableEq, Repr

/-- The loop, for numbers up to `limit`; nothing when it finds an overflow. -/
def numberLoop (limit mult : Nat) : (value : Nat) → (found : Bool) → List UInt8 → Option NumberLoop
  | value, found, [] => some ⟨[], value, found⟩
  | value, found, c :: ptr =>
    match testDigit mult c with
    | none => some ⟨c :: ptr, value, found⟩
    | some digit =>
      if value > (limit - digit) / mult then none
      else numberLoop limit mult (value * mult + digit) true ptr

/-- The pointer and the number that are passed by reference, and the error. -/
structure ParseState where
  strPtr : List UInt8
  value : Nat
  errnum : GrubError
deriving DecidableEq, Repr

/-- The body of both functions. -/
def parseNumber (limit : Nat) (state : ParseState) : Bool × ParseState :=
  let mult := (numeralBase state.strPtr).1
  match numberLoop limit mult 0 false (numeralBase state.strPtr).2 with
  | none => (false, { state with errnum := .numberOverflow })
  | some loop =>
    if loop.found then (true, { state with strPtr := loop.ptr, value := loop.value })
    else (false, { state with errnum := .numberParsing })

/-- `safe_parse_maxint` -/
def callSafeParseMaxint : ParseState → Bool × ParseState := parseNumber maxint

/-- ULONG_MAX, for an `unsigned long` of 32 or 64 bits. -/
def ulongMax (bits : Nat) : Nat := 2 ^ bits - 1

/-- `safe_parse_maxulong` -/
def safeParseMaxulong (bits : Nat) : ParseState → Bool × ParseState := parseNumber (ulongMax bits)

/-! ## Digits -/

/-- The test of a decimal digit is that of a numeral, -/
theorem testDigit_ten (c : UInt8) : testDigit 10 c = digitOf 10 c := by
  obtain ⟨⟨c⟩⟩ := c
  revert c
  decide +kernel

/-- and so is that of a hexadecimal one. -/
theorem testDigit_sixteen (c : UInt8) : testDigit 16 c = digitOf 16 c := by
  obtain ⟨⟨c⟩⟩ := c
  revert c
  decide +kernel

/-- The tests find the digits of the base. -/
theorem testDigit_eq {mult : Nat} (isBase : mult = 10 ∨ mult = 16) (c : UInt8) :
    testDigit mult c = digitOf mult c := by
  rcases isBase with rfl | rfl
  · exact testDigit_ten c
  · exact testDigit_sixteen c

/-- The base is ten or sixteen. -/
theorem numeralBase_base (text : List UInt8) :
    (numeralBase text).1 = 10 ∨ (numeralBase text).1 = 16 := by
  rcases numeralBase_eq text with ten | ⟨_, _, _, _, sixteen⟩
  · exact .inl (congrArg Prod.fst ten)
  · exact .inr (congrArg Prod.fst sixteen)

/-! ## A run of digits -/

/-- A text starts with a run of digits, as long as it can be. -/
structure RunOf (mult : Nat) (text : List UInt8) (digits : List Nat) (rest : List UInt8) :
    Prop where
  split : ∃ read, text = read ++ rest ∧ read.map (digitOf mult) = digits.map some
  ends : ∀ c ∈ rest.head?, digitOf mult c = none

/-- The value of digits behind others is no less than that of the others. -/
theorem le_foldl_digits {mult : Nat} (positive : 0 < mult) (digits : List Nat) (value : Nat) :
    value ≤ digits.foldl (fun value digit => value * mult + digit) value := by
  induction digits generalizing value with
  | nil => exact le_rfl
  | cons digit digits ih =>
      have more := ih (value * mult + digit)
      have grows := Nat.le_mul_of_pos_right value positive
      rw [List.foldl_cons]
      omega

/-- Every text starts with a run of digits. -/
theorem exists_run (mult : Nat) (text : List UInt8) :
    ∃ digits rest, RunOf mult text digits rest := by
  induction text with
  | nil => exact ⟨[], [], ⟨[], rfl, rfl⟩, by simp⟩
  | cons c text ih =>
      cases isDigit : digitOf mult c with
      | none => exact ⟨[], c :: text, ⟨[], rfl, rfl⟩, by simpa using isDigit⟩
      | some digit =>
          obtain ⟨digits, rest, ⟨read, rfl, denotes⟩, ends⟩ := ih
          exact ⟨digit :: digits, rest, ⟨c :: read, rfl, by simp [isDigit, denotes]⟩, ends⟩

section Runs

variable {limit mult digit : Nat} {c : UInt8} {text rest : List UInt8} {digits : List Nat}

/-- A run ends before a character that is no digit, and goes on with a digit. -/
theorem RunOf.stops (run : RunOf mult (c :: text) digits rest) (noDigit : digitOf mult c = none) :
    digits = [] ∧ rest = c :: text := by
  obtain ⟨⟨read, same, denotes⟩, _⟩ := run
  cases read with
  | nil =>
      rw [List.map_nil, eq_comm, List.map_eq_nil_iff] at denotes
      exact ⟨denotes, same.symm⟩
  | cons d read =>
      obtain ⟨rfl, _⟩ := List.cons.inj same
      cases digits with
      | nil => cases denotes
      | cons digit digits =>
          rw [List.map_cons, List.map_cons, noDigit] at denotes
          cases (List.cons.inj denotes).1

/-- Behind a digit the run goes on. -/
theorem RunOf.goesOn (run : RunOf mult (c :: text) digits rest)
    (isDigit : digitOf mult c = some digit) :
    ∃ later, digits = digit :: later ∧ RunOf mult text later rest := by
  obtain ⟨⟨read, same, denotes⟩, ends⟩ := run
  cases read with
  | nil =>
      obtain rfl : rest = c :: text := same.symm
      have none := ends c rfl
      rw [isDigit] at none
      cases none
  | cons d read =>
      obtain ⟨rfl, tails⟩ := List.cons.inj same
      cases digits with
      | nil => cases denotes
      | cons first later =>
          rw [List.map_cons, List.map_cons, isDigit] at denotes
          obtain ⟨isFirst, others⟩ := List.cons.inj denotes
          obtain rfl := Option.some.inj isFirst
          exact ⟨later, rfl, ⟨read, tails, others⟩, ends⟩

/-- An empty text has an empty run. -/
theorem RunOf.empty (run : RunOf mult [] digits rest) : digits = [] ∧ rest = [] := by
  obtain ⟨⟨read, same, denotes⟩, _⟩ := run
  obtain ⟨rfl, rfl⟩ := List.append_eq_nil_iff.mp same.symm
  rw [List.map_nil, eq_comm, List.map_eq_nil_iff] at denotes
  exact ⟨denotes, rfl⟩

/-- The test for an overflow is exact. -/
theorem overflow_iff {value : Nat} (positive : 0 < mult) (digit_le : digit ≤ limit) :
    value > (limit - digit) / mult ↔ limit < value * mult + digit := by
  rw [gt_iff_lt, Nat.div_lt_iff_lt_mul positive]
  omega

/-- The loop reads the run, unless its value is too large. -/
theorem numberLoop_run (isBase : mult = 10 ∨ mult = 16) (limit_ge : 15 ≤ limit)
    (run : RunOf mult text digits rest) {value : Nat} (value_le : value ≤ limit) (found : Bool) :
    numberLoop limit mult value found text =
      if limit < digits.foldl (fun value digit => value * mult + digit) value then none
      else some ⟨rest, digits.foldl (fun value digit => value * mult + digit) value,
        found || !digits.isEmpty⟩ := by
  have positive : 0 < mult := by omega
  induction text generalizing digits value found with
  | nil =>
      obtain ⟨rfl, rfl⟩ := run.empty
      rw [numberLoop, List.foldl_nil, if_neg (by omega)]
      simp
  | cons c text ih =>
      rw [numberLoop, testDigit_eq isBase]
      cases isDigit : digitOf mult c with
      | none =>
          obtain ⟨rfl, rfl⟩ := run.stops isDigit
          dsimp only
          rw [List.foldl_nil, if_neg (by omega)]
          simp
      | some digit =>
          obtain ⟨later, rfl, run'⟩ := run.goesOn isDigit
          have small := digitOf_lt isDigit
          have grows := le_foldl_digits positive later (value * mult + digit)
          dsimp only
          rw [List.foldl_cons]
          by_cases above : limit < value * mult + digit
          · rw [if_pos ((overflow_iff positive (by omega)).mpr above), if_pos (by omega)]
          · rw [if_neg (mt (overflow_iff positive (by omega)).mp above), ih run' (by omega)]
            simp

end Runs

/-! ## What the functions should do -/

/-- A text starts with this number: with `0x` and digits of base 16, or, if it does not
start with `0x`, with digits of base 10. -/
inductive StartsNumber : List UInt8 → (value : Nat) → (rest : List UInt8) → Prop where
  | decimal {text rest : List UInt8} {digits : List Nat}
      (plain : ∀ x digits, (x = charOf 'x' ∨ x = charOf 'X') → text ≠ charOf '0' :: x :: digits)
      (run : RunOf 10 text digits rest) (some_ : digits ≠ []) :
      StartsNumber text (digitsValue 10 digits) rest
  | hexadecimal {x : UInt8} {text rest : List UInt8} {digits : List Nat}
      (isX : x = charOf 'x' ∨ x = charOf 'X') (run : RunOf 16 text digits rest)
      (some_ : digits ≠ []) :
      StartsNumber (charOf '0' :: x :: text) (digitsValue 16 digits) rest

/-- Numbers up to `limit` are parsed, and the error of any other text says what is wrong. -/
structure ParsesNumbers (limit : Nat) (parse : ParseState → Bool × ParseState) : Prop where
  succeeds_iff : ∀ state, (parse state).1 = true ↔
    ∃ value rest, StartsNumber state.strPtr value rest ∧ value ≤ limit
  stores : ∀ state value rest, StartsNumber state.strPtr value rest → value ≤ limit →
    parse state = (true, { state with strPtr := rest, value })
  overflows : ∀ state value rest, StartsNumber state.strPtr value rest → limit < value →
    parse state = (false, { state with errnum := .numberOverflow })
  misses : ∀ state, (∀ value rest, ¬ StartsNumber state.strPtr value rest) →
    parse state = (false, { state with errnum := .numberParsing })

section Parse

variable {limit : Nat} {state : ParseState} {value : Nat} {rest : List UInt8}

/-- The base that is taken, and the run behind it. -/
theorem startsNumber_iff {text : List UInt8} :
    StartsNumber text value rest ↔
      ∃ digits, RunOf (numeralBase text).1 (numeralBase text).2 digits rest ∧ digits ≠ [] ∧
        value = digitsValue (numeralBase text).1 digits := by
  constructor
  · intro starts
    cases starts with
    | @decimal _ _ digits plain run some_ =>
        rcases numeralBase_eq text with ten | ⟨x, hexDigits, rfl, isX, _⟩
        · rw [ten]
          exact ⟨digits, run, some_, rfl⟩
        · exact absurd rfl (plain x hexDigits isX)
    | @hexadecimal x text _ digits isX run some_ =>
        have sixteen : numeralBase (charOf '0' :: x :: text) = (16, text) := by
          rw [numeralBase, if_pos ⟨rfl, isX⟩]
        rw [sixteen]
        exact ⟨digits, run, some_, rfl⟩
  · rintro ⟨digits, run, some_, rfl⟩
    rcases numeralBase_eq text with ten | ⟨x, hexDigits, rfl, isX, sixteen⟩
    · rw [ten] at run ⊢
      refine .decimal ?_ run some_
      rintro x hexDigits isX rfl
      rw [numeralBase, if_pos ⟨rfl, isX⟩] at ten
      cases congrArg Prod.fst ten
    · rw [sixteen] at run ⊢
      exact .hexadecimal isX run some_

/-- A text that starts with a number is read as it, up to the limit. -/
theorem parseNumber_starts (limit_ge : 15 ≤ limit)
    (starts : StartsNumber state.strPtr value rest) :
    parseNumber limit state =
      if limit < value then (false, { state with errnum := .numberOverflow })
      else (true, { state with strPtr := rest, value }) := by
  obtain ⟨digits, run, some_, rfl⟩ := startsNumber_iff.mp starts
  rw [parseNumber, numberLoop_run (numeralBase_base _) limit_ge run (Nat.zero_le _), digitsValue]
  by_cases above :
      limit < digits.foldl (fun value digit => value * (numeralBase state.strPtr).1 + digit) 0
  · rw [if_pos above, if_pos above]
  · rw [if_neg above, if_neg above]
    simp [some_]

/-- Any other text is refused. -/
theorem parseNumber_misses (limit_ge : 15 ≤ limit)
    (misses : ∀ value rest, ¬ StartsNumber state.strPtr value rest) :
    parseNumber limit state = (false, { state with errnum := .numberParsing }) := by
  obtain ⟨digits, rest, run⟩ := exists_run (numeralBase state.strPtr).1 (numeralBase state.strPtr).2
  have none : digits = [] := by
    by_contra some_
    exact misses _ _ (startsNumber_iff.mpr ⟨digits, run, some_, rfl⟩)
  subst none
  rw [parseNumber, numberLoop_run (numeralBase_base _) limit_ge run (Nat.zero_le _), List.foldl_nil]
  simp

/-- Numbers are parsed as they should be, for every limit. -/
theorem parsesNumbers_parseNumber (limit_ge : 15 ≤ limit) :
    ParsesNumbers limit (parseNumber limit) where
  succeeds_iff state := by
    constructor
    · intro succeeds
      by_contra unfit
      by_cases starts : ∃ value rest, StartsNumber state.strPtr value rest
      · obtain ⟨value, rest, starts⟩ := starts
        have above : limit < value := by
          by_contra fits
          exact unfit ⟨value, rest, starts, by omega⟩
        rw [parseNumber_starts limit_ge starts, if_pos above] at succeeds
        cases succeeds
      · rw [parseNumber_misses limit_ge fun value rest start => starts ⟨value, rest, start⟩]
          at succeeds
        cases succeeds
    · rintro ⟨value, rest, starts, fits⟩
      rw [parseNumber_starts limit_ge starts, if_neg (by omega)]
  stores state value rest starts fits := by
    rw [parseNumber_starts limit_ge starts, if_neg (by omega)]
  overflows state value rest starts above := by
    rw [parseNumber_starts limit_ge starts, if_pos above]
  misses state none := parseNumber_misses limit_ge none

end Parse

/-- Both functions parse the numbers in their range. -/
theorem parsesNumbers_both :
    ParsesNumbers maxint callSafeParseMaxint ∧
      ParsesNumbers (ulongMax 32) (safeParseMaxulong 32) ∧
        ParsesNumbers (ulongMax 64) (safeParseMaxulong 64) :=
  ⟨parsesNumbers_parseNumber (by decide), parsesNumbers_parseNumber (by decide),
    parsesNumbers_parseNumber (by decide)⟩

/-- A text that starts with `0x` and no digit is no number, although it starts with a zero. -/
theorem zeroX_misses :
    ¬ ∀ state : ParseState, (callSafeParseMaxint state).1 = true ↔
      ∃ digits rest, digits ≠ [] ∧
        (RunOf 10 state.strPtr digits rest ∧ digitsValue 10 digits ≤ maxint ∨
          ∃ text, state.strPtr = charOf '0' :: charOf 'x' :: text ∧ RunOf 16 text digits rest ∧
            digitsValue 16 digits ≤ maxint) := by
  intro succeeds
  have zero : RunOf 10 (ascii "0x") [0] (ascii "x") := by
    refine ⟨⟨ascii "0", rfl, rfl⟩, ?_⟩
    intro c isHead
    obtain rfl := Option.some.inj isHead
    rfl
  have parsed := (succeeds ⟨ascii "0x", 7, .none⟩).mpr
    ⟨[0], ascii "x", by simp, .inl ⟨zero, by decide⟩⟩
  exact absurd parsed (by decide)

end GrubLegacy.Stage2
