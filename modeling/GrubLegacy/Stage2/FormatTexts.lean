import GrubLegacy.Stage2.Vsprintf

/-!
# What formats come to

The directives of numbers one by one, and formats of any number of pieces.
-/

namespace GrubLegacy.Stage2

open CStrings

variable {abi : Abi} {toBuffer : Bool}

/-- With a buffer and these arguments first, a format stores a text and a NUL, and nothing else. -/
def Stores (fmt : List UInt8) (args : List (VaArg abi)) (text : List UInt8) : Prop :=
  ∀ more, grubVsprintf true fmt (args ++ more) = some
    { stored := text ++ [0]
      printed := []
      foreign := []
      inBuf := true
      count := BitVec.ofNat 32 text.length
      args := more }

/-! ## Numbers -/

/-- A number that is not negative is no bad one. -/
theorem not_badNegative_natCast (n : Nat) : ¬ BadNegative n := fun bad =>
  absurd bad.1 (Int.not_lt.mpr (Int.natCast_nonneg n))

/-- The absolute value of a word fits its width, -/
theorem natAbs_toInt_lt {width : Nat} (value : BitVec width) : value.toInt.natAbs < 2 ^ width := by
  have small := value.isLt
  rw [BitVec.toInt_eq_toNat_cond]
  split <;> omega

/-- The directives of numbers, with the numbers. -/
inductive NumberDirective (abi : Abi) where
  | d (value : BitVec 32)
  | ld (value : BitVec abi.longBits)
  | lld (value : BitVec 64)
  | u (value : BitVec 32)
  | lu (value : BitVec abi.longBits)
  | llu (value : BitVec 64)
  | x (value : BitVec 32)
  | lx (value : BitVec abi.longBits)
  | llx (value : BitVec 64)
  | x02 (value : BitVec 32)
  | x04 (value : BitVec 32)
  | x08 (value : BitVec 32)

namespace NumberDirective

/-- The directive behind its percent sign. -/
def letters : NumberDirective abi → List UInt8
  | d _ => ascii "d"
  | ld _ => ascii "ld"
  | lld _ => ascii "lld"
  | u _ => ascii "u"
  | lu _ => ascii "lu"
  | llu _ => ascii "llu"
  | x _ => ascii "x"
  | lx _ => ascii "lx"
  | llx _ => ascii "llx"
  | x02 _ => ascii "02x"
  | x04 _ => ascii "04x"
  | x08 _ => ascii "08x"

def format (directive : NumberDirective abi) : List UInt8 := charOf '%' :: directive.letters

def arg : NumberDirective abi → VaArg abi
  | d value | u value | x value | x02 value | x04 value | x08 value => .int value
  | ld value | lu value | lx value => .long value
  | lld value | llu value | llx value => .longLong value

/-- The number that is shown: of a byte or a half-word where two or four digits are wanted. -/
def value : NumberDirective abi → Int
  | d value | ld value | lld value => value.toInt
  | u value | x value | x08 value | lu value | lx value | llu value | llx value => value.toNat
  | x02 value => (value.toNat % 2 ^ 8 : Nat)
  | x04 value => (value.toNat % 2 ^ 16 : Nat)

def isHex : NumberDirective abi → Bool
  | d _ | ld _ | lld _ | u _ | lu _ | llu _ => false
  | x _ | lx _ | llx _ | x02 _ | x04 _ | x08 _ => true

def width : NumberDirective abi → Nat
  | x02 _ => 2
  | x04 _ => 4
  | x08 _ => 8
  | _ => 0

/-- The digits of a number, behind a sign if it is negative, at least as many as are wanted. -/
def digits (directive : NumberDirective abi) (value : Int) : List UInt8 :=
  if directive.isHex then zeroPadded directive.width (numeral 16 value.toNat) else decimal value

/-- The number as C has it. -/
def number : NumberDirective abi → Int
  | d value | ld value | lld value => value.toInt
  | u value | x value | x02 value | x04 value | x08 value | lu value | lx value | llu value
  | llx value => value.toNat

/-- What the switch leaves for the digits. -/
theorem letters_run (directive : NumberDirective abi) (out : Output abi) {more : List (VaArg abi)}
    (first : out.args = directive.arg :: more) :
    ∃ state : FormatState abi, state.out = out ∧ state.maxLen = bufSize ∧
      directive.letters.foldlM (formatChar toBuffer) (opened out) =
        some (state.number toBuffer more
          (formatAscii directive.value directive.isHex false directive.width)) := by
  obtain ⟨stored, printed, foreign, inBuf, count, args⟩ := out
  obtain rfl : args = directive.arg :: more := first
  cases directive with
  | d value => exact ⟨_, rfl, rfl, rfl⟩
  | ld value => exact ⟨_, rfl, rfl, rfl⟩
  | lld value => exact ⟨_, rfl, rfl, rfl⟩
  | u value => exact ⟨_, rfl, rfl, rfl⟩
  | lu value => exact ⟨_, rfl, rfl, rfl⟩
  | llu value => exact ⟨_, rfl, rfl, rfl⟩
  | x value => exact ⟨_, rfl, rfl, rfl⟩
  | lx value => exact ⟨_, rfl, rfl, rfl⟩
  | llx value => exact ⟨_, rfl, rfl, rfl⟩
  | x02 value =>
      have low : ((value &&& 0xff).toNat : Int) = (x02 value : NumberDirective abi).value :=
        congrArg Nat.cast (by simpa using Nat.and_two_pow_sub_one_eq_mod value.toNat 8)
      rw [← low]
      exact ⟨_, rfl, rfl, rfl⟩
  | x04 value =>
      have low : ((value &&& 0xffff).toNat : Int) = (x04 value : NumberDirective abi).value :=
        congrArg Nat.cast (by simpa using Nat.and_two_pow_sub_one_eq_mod value.toNat 16)
      rw [← low]
      exact ⟨_, rfl, rfl, rfl⟩
  | x08 value => exact ⟨_, rfl, rfl, rfl⟩

/-- so that of a directive is below 2^64. -/
theorem abs_value_lt (directive : NumberDirective abi) : directive.value.natAbs < 2 ^ 64 := by
  have longs : 2 ^ abi.longBits ≤ 2 ^ 64 := by
    cases abi <;> decide
  cases directive with
  | d value => exact Nat.lt_trans (natAbs_toInt_lt value) (by decide)
  | ld value => exact Nat.lt_of_lt_of_le (natAbs_toInt_lt value) longs
  | lld value => exact natAbs_toInt_lt value
  | u value | x value | x08 value => exact Nat.lt_trans value.isLt (by decide)
  | lu value | lx value => exact Nat.lt_of_lt_of_le value.isLt longs
  | llu value | llx value => exact value.isLt
  | x02 value => exact Nat.lt_trans (Nat.mod_lt _ (by decide)) (by decide)
  | x04 value => exact Nat.lt_trans (Nat.mod_lt _ (by decide)) (by decide)

/-- A negative value is printed by a plain decimal directive. -/
theorem value_sign (directive : NumberDirective abi) :
    0 ≤ directive.value ∨ directive.isHex = false ∧ directive.width = 0 := by
  cases directive with
  | d value => exact .inr ⟨rfl, rfl⟩
  | ld value => exact .inr ⟨rfl, rfl⟩
  | lld value => exact .inr ⟨rfl, rfl⟩
  | _ => exact .inl (Int.natCast_nonneg _)

/-- The digits are the right ones, unless they are those of a negative multiple of ten. -/
theorem formatAscii_eq (directive : NumberDirective abi) (good : ¬ BadNegative directive.value) :
    formatAscii directive.value directive.isHex false directive.width =
      directive.digits directive.value := by
  rw [digits]
  rcases directive.value_sign with positive | ⟨isDecimal, noWidth⟩
  · cases isHex : directive.isHex with
    | false =>
        have noWidth : directive.width = 0 := by
          cases directive <;> first | rfl | cases isHex
        rw [noWidth, formatAscii_decimal good]
        rfl
    | true => rw [formatAscii_of_nonneg positive, if_pos rfl, if_pos rfl]
  · rw [isDecimal, noWidth, formatAscii_decimal good]
    rfl

/-- A directive of a number writes what `format_ascii` makes of it. -/
theorem run (directive : NumberDirective abi) {out : Output abi} {more : List (VaArg abi)}
    (first : out.args = directive.arg :: more) :
    Runs toBuffer directive.format out (({ out with args := more } : Output abi).puts toBuffer
      (formatAscii directive.value directive.isHex false directive.width)) := by
  rintro state idle rfl
  obtain ⟨switched, sameOut, whole, runs⟩ := @letters_run _ toBuffer directive state.out _ first
  have few : directive.width < bufSize := by
    cases directive <;> simp [width, bufSize]
  have fits := length_formatAscii_lt directive.abs_value_lt directive.value_sign few
  have whole_ : directive.format.foldlM (formatChar toBuffer) state = some (switched.number toBuffer
      more (formatAscii directive.value directive.isHex false directive.width)) := by
    rw [format, List.foldlM_cons, formatChar_percent idle]
    exact runs
  refine ⟨_, whole_, idle_number more _, ?_⟩
  rw [number_out fits whole, sameOut]

end NumberDirective

/-- Every number is stored with its digits, but for the negative multiples of ten. -/
theorem grubVsprintf_numbers (directive : NumberDirective abi)
    (good : ¬ BadNegative directive.value) :
    Stores directive.format [directive.arg] (directive.digits directive.value) := by
  intro more
  have runs := @NumberDirective.run _ true directive (emptyOutput (directive.arg :: more)) more rfl
  have some_ : directive.format ≠ [] := List.cons_ne_nil _ _
  rw [← directive.formatAscii_eq good, List.singleton_append, grubVsprintf_of_runs some_ runs]
  simp [Output.puts, emptyOutput]

/-- The lowest `int` is printed. -/
theorem grubVsprintf_numbers_lowest :
    Stores (ascii "%d") [(.int (-0x80000000) : VaArg .ia32)] (ascii "-2147483648") :=
  grubVsprintf_numbers (.d (-0x80000000)) (by decide)

/-- A byte is shown of a number with more than two digits, and a negative multiple of ten ends with
a colon. -/
theorem grubVsprintf_not_numbers :
    ¬ (∀ directive : NumberDirective .ia32,
      Stores directive.format [directive.arg] (directive.digits directive.number)) ∧
      ¬ Stores (ascii "%02x") [(.int 0x1234 : VaArg .ia32)] (ascii "1234") ∧
      ¬ Stores (ascii "%d") [(.int (-10) : VaArg .ia32)] (ascii "-10") := by
  have short : ¬ Stores (ascii "%02x") [(.int 0x1234 : VaArg .ia32)] (ascii "1234") := fun stores =>
    absurd (congrArg (Option.map Output.stored) (stores [])) (by decide)
  have colon : ¬ Stores (ascii "%d") [(.int (-10) : VaArg .ia32)] (ascii "-10") := fun stores =>
    absurd (congrArg (Option.map Output.stored) (stores [])) (by decide)
  exact ⟨fun all => short (all (.x02 0x1234)), short, colon⟩

/-! ## Formats of any number of pieces -/

/-- What a format is built from, with its arguments. -/
inductive Piece (abi : Abi) where
  | ordinary (c : UInt8) (text : c ≠ 0 ∧ c ≠ charOf '%')
  | percent
  | char (value : BitVec 32)
  | string (value : CString)
  | precision (max : BitVec 32) (value : CString)
  | d (value : BitVec 32)
  | u (value : BitVec 32)
  | x (value : BitVec 32)

namespace Piece

def format : Piece abi → List UInt8
  | ordinary c _ => [c]
  | percent => ascii "%%"
  | char _ => ascii "%c"
  | string _ => ascii "%s"
  | precision _ _ => ascii "%.*s"
  | d _ => ascii "%d"
  | u _ => ascii "%u"
  | x _ => ascii "%x"

def args : Piece abi → List (VaArg abi)
  | ordinary _ _ | percent => []
  | char value | d value | u value | x value => [.int value]
  | string value => [.string value]
  | precision max value => [.int max, .string value]

/-- What C's `vsprintf` makes of a piece: a character is an `unsigned char`, and a negative
precision counts as none. -/
def text : Piece abi → List UInt8
  | ordinary c _ => [c]
  | percent => ascii "%"
  | char value => [UInt8.ofNat value.toNat]
  | string value => value.text
  | precision max value => if max.toInt < 0 then value.text else value.text.take max.toNat
  | d value => decimal value.toInt
  | u value => decimal value.toNat
  | x value => numeral 16 value.toNat

/-- What `grub_vsprintf` writes. -/
def written : Piece abi → List UInt8
  | percent => ascii "%%"
  | char value => if value &&& 0xff = 0 then [] else [UInt8.ofNat (value &&& 0xff).toNat]
  | precision max value => value.text.take max.toNat
  | d value => formatAscii value.toInt false false 0
  | piece => piece.text

/-- What it stores elsewhere. -/
def leaked : Piece abi → List UInt8
  | char value => if value &&& 0xff = 0 then ascii "%" else []
  | _ => []

/-- The pieces that come out right. -/
def Good : Piece abi → Prop
  | percent => False
  | char value => value &&& 0xff ≠ 0
  | d value => ¬ BadNegative value.toInt
  | _ => True

/-- What is there after a piece. -/
def after (toBuffer : Bool) (piece : Piece abi) (out : Output abi) (more : List (VaArg abi)) : Output abi :=
  (({ out with args := more } : Output abi).puts toBuffer piece.written).leaks piece.leaked

/-- A piece that leaks nothing stores what it writes. -/
theorem after_of_leaked {piece : Piece abi} (kept : piece.leaked = []) (out : Output abi)
    (more : List (VaArg abi)) : piece.after toBuffer out more =
      ({ out with args := more } : Output abi).puts toBuffer piece.written := by
  rw [after, kept, Output.leaks_nil]

/-- A directive that the switch ends. -/
theorem run_of_letters {letters : List UInt8} {out out' : Output abi} {last : FormatState abi}
    (runs : letters.foldlM (formatChar toBuffer) (opened out) = some last)
    (again : last.restart = true) (same : last.out = out') :
    Runs toBuffer (charOf '%' :: letters) out out' := by
  rintro state idle rfl
  refine ⟨last, ?_, idle_of_restart again, same⟩
  rw [List.foldlM_cons, formatChar_percent idle]
  exact runs

/-- A piece of a format runs as it says. -/
theorem run (piece : Piece abi) {out : Output abi} {more : List (VaArg abi)}
    (first : out.args = piece.args ++ more) :
    Runs toBuffer piece.format out (piece.after toBuffer out more) := by
  obtain ⟨stored, printed, foreign, inBuf, count, args⟩ := out
  obtain rfl : args = piece.args ++ more := first
  cases piece with
  | ordinary c text =>
      rintro state idle same
      refine ⟨restarted (state.out.puts toBuffer [c]), ?_, idle_restarted _, ?_⟩
      · rw [format, List.foldlM_cons, formatChar_ordinary idle text.2]
        rfl
      · rw [same, after]
        exact Output.leaks_nil.symm
  | percent =>
      have runs : (ascii "%").foldlM (formatChar toBuffer)
          (opened ⟨stored, printed, foreign, inBuf, count, more⟩) =
        some ((opened ⟨stored, printed, foreign, inBuf, count, more⟩).finish
          (((⟨stored, printed, foreign, inBuf, count, more⟩ : Output abi).writeStr toBuffer
            (ascii "%") bufSize).writeChar toBuffer (charOf '%'))) := rfl
      refine run_of_letters runs rfl ?_
      rw [after, FormatState.finish, Output.writeStr_eq, Output.writeChar_eq, Output.puts_puts]
      exact Output.leaks_nil.symm
  | char value =>
      have runs : (ascii "c").foldlM (formatChar toBuffer)
          (opened ⟨stored, printed, foreign, inBuf, count, .int value :: more⟩) = some
        (if value &&& 0xff = 0 then
          (opened ⟨stored, printed, foreign, inBuf, count, .int value :: more⟩).finish
            ((⟨stored, printed, foreign, inBuf, count, more⟩ : Output abi).writeForeign
              (ascii "%") bufSize)
        else
          (opened ⟨stored, printed, foreign, inBuf, count, .int value :: more⟩).finish
            ((⟨stored, printed, foreign, inBuf, count, more⟩ : Output abi).writeChar toBuffer
              (UInt8.ofNat (value &&& 0xff).toNat))) := rfl
      refine run_of_letters runs (by split <;> rfl) ?_
      rw [after, written, leaked]
      split
      · rw [Output.puts_nil]
        exact Output.writeForeign_eq _ _
      · exact Output.leaks_nil.symm
  | string value =>
      have runs : (ascii "s").foldlM (formatChar toBuffer)
          (opened ⟨stored, printed, foreign, inBuf, count, .string value :: more⟩) = some
        { (opened ⟨stored, printed, foreign, inBuf, count, .string value :: more⟩) with
          out := (⟨stored, printed, foreign, inBuf, count, more⟩ : Output abi).writeStr toBuffer
            value.text value.text.length
          maxLen := value.text.length
          restart := true } := rfl
      refine run_of_letters runs rfl ?_
      rw [Output.writeStr_eq, List.take_length]
      exact Output.leaks_nil.symm
  | precision max value =>
      have runs : (ascii ".*s").foldlM (formatChar toBuffer)
          (opened ⟨stored, printed, foreign, inBuf, count, .int max :: .string value :: more⟩) = some
        { (opened ⟨stored, printed, foreign, inBuf, count, more⟩) with
          out := (⟨stored, printed, foreign, inBuf, count, more⟩ : Output abi).writeStr toBuffer
            value.text max.toNat
          isPrecision := true
          buf := ascii "%.*"
          maxLen := max.toNat
          restart := true } := rfl
      refine run_of_letters runs rfl ?_
      rw [Output.writeStr_eq]
      exact Output.leaks_nil.symm
  | d value =>
      have runs := @NumberDirective.run _ toBuffer (.d value)
        ⟨stored, printed, foreign, inBuf, count, .int value :: more⟩ more rfl
      rw [after_of_leaked rfl]
      exact runs
  | u value =>
      have runs := @NumberDirective.run _ toBuffer (.u value)
        ⟨stored, printed, foreign, inBuf, count, .int value :: more⟩ more rfl
      rw [NumberDirective.formatAscii_eq _ (not_badNegative_natCast _)] at runs
      rw [after_of_leaked rfl]
      exact runs
  | x value =>
      have runs := @NumberDirective.run _ toBuffer (.x value)
        ⟨stored, printed, foreign, inBuf, count, .int value :: more⟩ more rfl
      rw [NumberDirective.formatAscii_eq _ (not_badNegative_natCast _)] at runs
      rw [after_of_leaked rfl]
      have digits : (NumberDirective.x value : NumberDirective abi).digits value.toNat =
          numeral 16 value.toNat := by
        simp [NumberDirective.digits, NumberDirective.isHex, NumberDirective.width, zeroPadded]
      have isWritten : (x value : Piece abi).written = _ := digits.symm
      rw [isWritten]
      exact runs

/-- The low byte of a word. -/
theorem ofNat_low (value : BitVec 32) :
    UInt8.ofNat (value &&& 0xff).toNat = UInt8.ofNat value.toNat := by
  have low : (value &&& 0xff).toNat = value.toNat % 2 ^ 8 := by
    simpa using Nat.and_two_pow_sub_one_eq_mod value.toNat 8
  rw [low]
  apply UInt8.toNat_inj.mp
  simp

/-- A precision that is negative is higher than any length. -/
theorem take_of_negative {max : BitVec 32} (negative : max.toInt < 0) (value : CString) :
    value.text.take max.toNat = value.text := by
  apply List.take_of_length_le
  have short := value.short
  have small := max.isLt
  rw [BitVec.toInt_eq_toNat_cond] at negative
  split at negative <;> omega

/-- What a good piece writes is what C has, and nothing is stored elsewhere. -/
theorem written_eq {piece : Piece abi} (good : piece.Good) :
    piece.written = piece.text ∧ piece.leaked = [] := by
  cases piece with
  | percent => exact absurd good id
  | char value =>
      refine ⟨?_, if_neg good⟩
      rw [written, if_neg good, text, ofNat_low]
  | precision max value =>
      refine ⟨?_, rfl⟩
      rw [written, text]
      split
      next negative => exact take_of_negative negative value
      next => rfl
  | d value => exact ⟨formatAscii_decimal good, rfl⟩
  | _ => exact ⟨rfl, rfl⟩

/-- A piece with another percent sign than C's. -/
def isPercent : Piece abi → Bool
  | percent => true
  | _ => false

/-- A piece with a colon for its last digit. -/
def isBad : Piece abi → Bool
  | d value => BadNegative value.toInt
  | _ => false

/-- A numeral has no percent sign and no colon. -/
theorem notMem_numeral {base n : Nat} (more : 1 < base) (inside : base ≤ 16) :
    charOf '%' ∉ numeral base n ∧ charOf ':' ∉ numeral base n := by
  have others : ∀ digit < 16, charOf '%' ≠ charOf (Nat.digitChar digit) ∧
      charOf ':' ≠ charOf (Nat.digitChar digit) := by decide
  constructor
  · intro member
    obtain ⟨digit, small, isDigit⟩ := mem_numeral more inside member
    exact (others digit small).1 isDigit
  · intro member
    obtain ⟨digit, small, isDigit⟩ := mem_numeral more inside member
    exact (others digit small).2 isDigit

/-- The sign of a number is neither. -/
theorem notMem_decimal (val : Int) : charOf '%' ∉ decimal val ∧ charOf ':' ∉ decimal val := by
  have digits := @notMem_numeral 10 val.natAbs (by decide) (by decide)
  rw [decimal]
  split
  · exact ⟨List.not_mem_cons_of_ne_of_not_mem (by decide) digits.1,
      List.not_mem_cons_of_ne_of_not_mem (by decide) digits.2⟩
  · exact digits

/-- A piece has more percent signs, or colons, than C's only where it is not a good one. -/
theorem count_written (piece : Piece abi) :
    piece.written.count (charOf '%') =
        piece.text.count (charOf '%') + (if piece.isPercent then 1 else 0) ∧
      piece.written.count (charOf ':') =
        piece.text.count (charOf ':') + (if piece.isBad then 1 else 0) := by
  cases piece with
  | percent => exact ⟨rfl, rfl⟩
  | char value =>
      by_cases nul : value &&& 0xff = 0
      · have isNul : UInt8.ofNat value.toNat = 0 := by
          rw [← ofNat_low, nul]
          rfl
        simp only [written, text, if_pos nul, isNul]
        exact ⟨rfl, rfl⟩
      · have good : (char value : Piece abi).Good := nul
        rw [(written_eq good).1]
        exact ⟨rfl, rfl⟩
  | d value =>
      by_cases bad : BadNegative value.toInt
      · obtain ⟨front, isFormatted, isFront⟩ := formatAscii_bad bad
        obtain ⟨noPercent, noColon⟩ := notMem_decimal value.toInt
        have clean : charOf '%' ∉ front ∧ charOf ':' ∉ front := by
          rcases isFront with rfl | ⟨n, rfl⟩
          · exact ⟨List.not_mem_nil, List.not_mem_nil⟩
          · exact notMem_numeral (by decide) (by decide)
        simp only [written, text, isBad, isPercent, isFormatted, bad, List.count_cons, List.count_append,
          List.count_eq_zero.mpr noPercent, List.count_eq_zero.mpr noColon,
          List.count_eq_zero.mpr clean.1, List.count_eq_zero.mpr clean.2]
        exact ⟨rfl, rfl⟩
      · have good : (d value : Piece abi).Good := bad
        rw [(written_eq good).1]
        simp [isPercent, isBad, bad]
  | precision max value =>
      rw [(@written_eq _ (precision max value : Piece abi) trivial).1]
      exact ⟨rfl, rfl⟩
  | _ => exact ⟨rfl, rfl⟩

end Piece

/-- The output of a piece and of those behind it. -/
theorem after_after (piece : Piece abi) (out : Output abi) (rest more : List (VaArg abi))
    (written leaked : List UInt8) :
    (({ piece.after toBuffer out rest with args := more } : Output abi).puts toBuffer written).leaks
        leaked =
      (({ out with args := more } : Output abi).puts toBuffer (piece.written ++ written)).leaks
        (piece.leaked ++ leaked) := by
  cases toBuffer
  · simp [Output.puts, Output.leaks, Piece.after, BitVec.ofNat_add]
    ac_rfl
  · simp [Output.puts, Output.leaks, Piece.after, BitVec.ofNat_add]
    ac_rfl

/-- A format of pieces runs through all of them. -/
theorem runs_pieces (pieces : List (Piece abi)) {out : Output abi} {more : List (VaArg abi)}
    (first : out.args = pieces.flatMap Piece.args ++ more) :
    Runs toBuffer (pieces.flatMap Piece.format) out
      ((({ out with args := more } : Output abi).puts toBuffer (pieces.flatMap Piece.written)).leaks
        (pieces.flatMap Piece.leaked)) := by
  induction pieces generalizing out with
  | nil =>
      obtain rfl : out.args = more := first
      simpa using runs_nil
  | cons piece pieces ih =>
      rw [List.flatMap_cons, List.append_assoc] at first
      have later := @ih (piece.after toBuffer out (pieces.flatMap Piece.args ++ more)) (by
        cases toBuffer <;> rfl)
      rw [List.flatMap_cons, List.flatMap_cons, List.flatMap_cons, ← after_after]
      exact (piece.run first).append later

/-- Characters that some pieces have one more of add up. -/
theorem count_flatMap {c : UInt8} {more : Piece abi → Bool}
    (counts : ∀ piece : Piece abi,
      piece.written.count c = piece.text.count c + (if more piece then 1 else 0))
    (pieces : List (Piece abi)) :
    (pieces.flatMap Piece.written).count c =
      (pieces.flatMap Piece.text).count c + pieces.countP more := by
  induction pieces with
  | nil => rfl
  | cons piece pieces ih =>
      simp only [List.flatMap_cons, List.count_append, List.countP_cons, counts, ih]
      omega

/-- Where all is written that C has, and nothing else, the pieces are good ones. -/
theorem good_of_written {pieces : List (Piece abi)}
    (same : pieces.flatMap Piece.written = pieces.flatMap Piece.text)
    (kept : pieces.flatMap Piece.leaked = []) : ∀ piece ∈ pieces, piece.Good := by
  have percents := count_flatMap (fun piece => piece.count_written.1) pieces
  have colons := count_flatMap (fun piece => piece.count_written.2) pieces
  rw [same] at percents colons
  have noPercent := List.countP_eq_zero.mp (Nat.left_eq_add.mp percents)
  have noBad := List.countP_eq_zero.mp (Nat.left_eq_add.mp colons)
  intro piece member
  cases piece with
  | percent => exact noPercent _ member rfl
  | char value =>
      intro nul
      have leaks := List.flatMap_eq_nil_iff.mp kept _ member
      rw [Piece.leaked, if_pos nul] at leaks
      cases leaks
  | d value => exact fun bad => noBad _ member (decide_eq_true bad)
  | _ => trivial

/-- What C's `vsprintf` gives is stored if and only if the format is not empty, and has no percent
sign that stands for itself, no NUL for a character, and no negative multiple of ten. -/
theorem grubVsprintf_stores_iff (pieces : List (Piece abi)) :
    Stores (pieces.flatMap Piece.format) (pieces.flatMap Piece.args) (pieces.flatMap Piece.text) ↔
      pieces ≠ [] ∧ ∀ piece ∈ pieces, piece.Good := by
  cases pieces with
  | nil =>
      refine iff_of_false (fun stores => ?_) fun all => all.1 rfl
      have stored := congrArg (Option.map Output.stored) (stores [])
      exact absurd (Option.some.inj stored) (by simp [emptyOutput])
  | cons piece pieces =>
      have some_ : (piece :: pieces).flatMap Piece.format ≠ [] := by
        cases piece <;> simp [Piece.format, ascii]
      refine Iff.trans ?_ (and_iff_right (List.cons_ne_nil _ _)).symm
      generalize piece :: pieces = pieces at some_ ⊢
      have runs := fun more => grubVsprintf_of_runs some_
        (@runs_pieces _ true pieces (emptyOutput (pieces.flatMap Piece.args ++ more)) more rfl)
      constructor
      · intro stores
        have outcome := Option.some.inj ((runs []).symm.trans (stores []))
        have stored := congrArg Output.stored outcome
        have foreign := congrArg Output.foreign outcome
        exact good_of_written (List.append_cancel_right stored) foreign
      · intro good more
        have same : pieces.flatMap Piece.written = pieces.flatMap Piece.text :=
          List.flatMap_congr fun piece member => (Piece.written_eq (good piece member)).1
        have kept : pieces.flatMap Piece.leaked = [] :=
          List.flatMap_eq_nil_iff.mpr fun piece member => (Piece.written_eq (good piece member)).2
        rw [runs more, same, kept]
        simp [Output.puts, emptyOutput]

/-- The percent sign comes twice, the NUL not at all, and behind an empty text is no NUL. -/
theorem grubVsprintf_not_stores :
    ¬ Stores (ascii "100%%") ([] : List (VaArg .ia32)) (ascii "100%") ∧
      ¬ Stores (ascii "%c") [(.int 0 : VaArg .ia32)] [0] ∧
      ¬ Stores [] ([] : List (VaArg .ia32)) [] := by
  refine ⟨fun stores => ?_, fun stores => ?_, fun stores => ?_⟩
  · exact absurd (congrArg (Option.map Output.stored) (stores [])) (by decide)
  · exact absurd (congrArg (Option.map Output.foreign) (stores [])) (by decide)
  · exact absurd (congrArg (Option.map Output.stored) (stores [])) (by decide)

end GrubLegacy.Stage2
