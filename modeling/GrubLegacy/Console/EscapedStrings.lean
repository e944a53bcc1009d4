import GrubLegacy.Console.Terminfo

/-!
# Which strings come back from being escaped

Unescaping forgets to step over a control character it has decoded, and it reads the
digits of a number as hexadecimal ones and as many of them as follow, whereas escaping
writes the low three bits, the three from bit 4 on and those from bit 8 on.
-/

namespace GrubLegacy.Console

open Base Stage2

/-! ## The characters -/

/-- Left as it is, or escaped by a name that unescaping knows. -/
def IsPlain (c : UInt8) : Prop := c = 0x1B ∨ c = 0x20 ∨ c = 0x5C ∨ isLiteral c = true

instance (c : UInt8) : Decidable (IsPlain c) := inferInstanceAs (Decidable (_ ∨ _))

/-- Escaped as a number. -/
def IsCoded (c : UInt8) : Prop := ¬ IsPlain c ∧ 25 < c

instance (c : UInt8) : Decidable (IsCoded c) := inferInstanceAs (Decidable (_ ∧ _))

/-- Each character comes back: it is plain, or it is coded without the bits that the digits
leave out and no digit follows it. -/
def Survives : List UInt8 → Prop
  | [] => True
  | c :: text => (IsPlain c ∨ IsCoded c ∧ c &&& 0x88 = 0 ∧ isOctal (text.headD 0) = false) ∧
      Survives text

/-- How many bytes one character is escaped to. -/
def escapeWidth (c : UInt8) : Nat :=
  if isLiteral c then 1
  else if c = 0x1B ∨ c = 0x20 ∨ c = 0x5C ∨ c ≤ 25 then 2
  else 4

/-- A statement about each byte is one about 256 cases. -/
theorem forall_byte {p : UInt8 → Prop} (every : ∀ c : Fin 256, p ⟨⟨c⟩⟩) (c : UInt8) : p c := by
  obtain ⟨⟨c⟩⟩ := c
  exact every c

/-- The three digits of a character, the first one with its sign. -/
theorem octalDigit_eq (c : UInt8) :
    octalDigit c 8 = (if c < 0x80 then 0x30 else 0x37) ∧
      octalDigit c 4 = (c >>> 4 &&& 7) + 0x30 ∧ octalDigit c 0 = (c &&& 7) + 0x30 := by
  revert c
  apply forall_byte
  decide +kernel

/-- The digits are digits, and unescaping reads back from them the bits that they hold. -/
theorem octalDigits (c : UInt8) :
    (isOctal (octalDigit c 8) ∧ isOctal (octalDigit c 4) ∧ isOctal (octalDigit c 0)) ∧
      (octalNumber [octalDigit c 8, octalDigit c 4, octalDigit c 0]).toUInt8 = c &&& 0x77 ∧
      (c &&& 0x77 = c ↔ c &&& 0x88 = 0) := by
  obtain ⟨first, second, third⟩ := octalDigit_eq c
  rw [first, second, third]
  revert c
  apply forall_byte
  decide +kernel

/-- A character by itself: it is left as it is if it is a digit or another literal one, a
control character is escaped by a letter, and a digit is put first for no other. -/
theorem escapeByte_spec (c : UInt8) :
    ((escapeByte c).length = escapeWidth c ∧ (escapeByte c).all (· ≠ 0) = true) ∧
      (isOctal c → escapeByte c = [c]) ∧
      (isOctal c = false → isOctal ((escapeByte c).headD 0) = false) ∧
      (isLiteral c → escapeByte c = [c] ∧ c ≠ 0x5E ∧ c ≠ 0x5C) ∧
      (¬ IsPlain c → c ≤ 25 →
        escapeByte c = [0x5E, 0x41 + c] ∧ 0x41 ≤ 0x41 + c ∧ 0x41 + c ≤ 0x5A) := by
  revert c
  apply forall_byte
  decide +kernel

/-- A character takes as many as its width, -/
theorem length_escapeByte (c : UInt8) : (escapeByte c).length = escapeWidth c :=
  (escapeByte_spec c).1.1

/-- which is one at least. -/
theorem escapeByte_ne_nil (c : UInt8) : escapeByte c ≠ [] := by
  refine List.ne_nil_of_length_pos ?_
  rw [length_escapeByte, escapeWidth]
  split <;> [decide; split <;> decide]

/-! ## Escaped text -/

/-- The bytes that a text is escaped to. -/
def escapeText (text : List UInt8) : List UInt8 := text.flatMap escapeByte

/-- A text is written character by character, -/
@[simp] theorem escapeText_cons (c : UInt8) (text : List UInt8) :
    escapeText (c :: text) = escapeByte c ++ escapeText text := List.flatMap_cons

/-- so it takes the sum of their widths. -/
theorem length_escapeText (text : List UInt8) :
    (escapeText text).length = (text.map escapeWidth).sum := by
  induction text with
  | nil => rfl
  | cons c text ih => simp [ih, length_escapeByte]

/-- Characters are put behind those in the buffer. -/
theorem foldl_put (bytes : List UInt8) (output : OutBuffer) (free : output.there = none) :
    bytes.foldl OutBuffer.put output = ⟨output.filled ++ bytes, none⟩ := by
  induction bytes generalizing output with
  | nil => simp [← free]
  | cons c bytes ih =>
      rw [List.foldl_cons, ih _ rfl]
      simp [OutBuffer.put]

/-- The loop writes the whole text. -/
theorem escapeLoop_eq (text rest : List UInt8) (some_ : text ≠ []) (output : OutBuffer)
    (free : output.there = none) :
    escapeLoop (text ++ rest) text.length output = ⟨output.filled ++ escapeText text, none⟩ := by
  induction text generalizing output with
  | nil => exact absurd rfl some_
  | cons c text ih =>
      rw [List.cons_append, escapeLoop, foldl_put _ _ free]
      cases text with
      | nil => simp [escapeText]
      | cons next text =>
          have more : 1 < (c :: next :: text).length := by simp
          have left : (c :: next :: text).length - 1 = (next :: text).length := rfl
          rw [if_pos more, left, ih (List.cons_ne_nil _ _) _ rfl]
          simp

/-- The escaped string, with its NUL. -/
theorem tiEscapeString_eq {text : List UInt8} (some_ : text ≠ []) :
    tiEscapeString text = ⟨escapeText text ++ [0], none⟩ := by
  rw [tiEscapeString, escapeLoop_eq text [0] some_ .start rfl]
  rfl

/-- An empty string is not noticed: its NUL is escaped. -/
theorem tiEscapeString_nil : tiEscapeString [] = ⟨[0x5E, 0x41, 0], none⟩ := by decide

/-- A string ends at its first NUL. -/
theorem takeWhile_nul (text rest : List UInt8) :
    (text ++ 0 :: rest).takeWhile (· != 0) = text.takeWhile (· != 0) := by
  induction text with
  | nil => rfl
  | cons c text ih => simp only [List.cons_append, List.takeWhile_cons, ih]

/-- A text without NULs ends at its end. -/
theorem takeWhile_free {text : List UInt8} (free : CStrings.NulFree text) :
    text.takeWhile (· != 0) = text :=
  List.takeWhile_eq_self_iff.mpr fun c member => by simpa using free c member

/-- What is written has no NUL. -/
theorem nulFree_escapeText (text : List UInt8) : CStrings.NulFree (escapeText text) := by
  intro byte member
  obtain ⟨c, -, escaped⟩ := List.mem_flatMap.mp member
  exact CStrings.nulFree_of_all (escapeByte_spec c).1.2 byte escaped

/-- The string in the buffer is the escaped text. -/
theorem string_tiEscapeString {text : List UInt8} (some_ : text ≠ []) (stale : List UInt8) :
    (tiEscapeString text).string stale = escapeText text := by
  rw [tiEscapeString_eq some_, OutBuffer.string]
  simp only [Option.toList_none, List.append_nil, List.append_assoc, List.singleton_append]
  rw [takeWhile_nul, takeWhile_free (nulFree_escapeText text)]

/-! ## Unescaping it again -/

/-- Escaping leaves the digits at the front of a text where they are. -/
theorem digits_escapeText (text : List UInt8) :
    (escapeText text ++ [0]).takeWhile isOctal = text.takeWhile isOctal ∧
      (escapeText text ++ [0]).dropWhile isOctal = escapeText (text.dropWhile isOctal) ++ [0] := by
  induction text with
  | nil => decide
  | cons c text ih =>
      by_cases digit : isOctal c
      · rw [escapeText_cons, (escapeByte_spec c).2.1 digit]
        simp [digit, ih]
      · have other : isOctal c = false := Bool.eq_false_iff.mpr digit
        obtain ⟨first, rest, split⟩ := List.exists_cons_of_ne_nil (escapeByte_ne_nil c)
        have stops := (escapeByte_spec c).2.2.1 other
        rw [split, List.headD_cons] at stops
        simp [other, split, stops]

/-- A coded character is written as a backslash and three digits. -/
theorem escapeByte_coded {c : UInt8} (coded : IsCoded c) :
    escapeByte c = [0x5C, octalDigit c 8, octalDigit c 4, octalDigit c 0] := by
  obtain ⟨other, above⟩ := coded
  rw [IsPlain, not_or, not_or, not_or] at other
  obtain ⟨noEscape, noBlank, noBackslash, noLiteral⟩ := other
  rw [escapeByte, if_neg noEscape, if_neg noBlank, if_neg noBackslash, if_neg noLiteral,
    if_neg (UInt8.not_le.mpr above)]

/-- A plain character comes back. -/
theorem unescapeLoop_plain {c : UInt8} (plain : IsPlain c) (text : List UInt8)
    (output : OutBuffer) :
    unescapeLoop (escapeByte c ++ text) output = unescapeLoop text (output.put c) := by
  rcases plain with rfl | rfl | rfl | literal
  · simp [escapeByte, unescapeLoop, isOctal, namedEscape]
  · simp [escapeByte, unescapeLoop, isOctal, namedEscape]
  · simp [escapeByte, unescapeLoop, isOctal, namedEscape]
  · obtain ⟨itself, noCaret, noBackslash⟩ := (escapeByte_spec c).2.2.2.1 literal
    rw [itself, List.singleton_append, unescapeLoop, if_neg noCaret, if_neg noBackslash]

/-- A control character is written, and then written over. -/
theorem unescapeLoop_control {c : UInt8} (other : ¬ IsPlain c) (control : c ≤ 25)
    (text : List UInt8) (output : OutBuffer) :
    unescapeLoop (escapeByte c ++ text) output = unescapeLoop text (output.poke c) := by
  obtain ⟨escaped, above, below⟩ := (escapeByte_spec c).2.2.2.2 other control
  rw [escaped, List.cons_append, List.singleton_append, unescapeLoop, if_pos rfl, List.headD_cons,
    if_pos ⟨above, below⟩, List.tail_cons, add_sub_cancel_left]

/-- A number takes the digits behind it along. -/
theorem unescapeLoop_coded {c : UInt8} (coded : IsCoded c) (text : List UInt8)
    (output : OutBuffer) :
    unescapeLoop (escapeByte c ++ (escapeText text ++ [0])) output =
      unescapeLoop (escapeText (text.dropWhile isOctal) ++ [0])
        (output.put (octalNumber ([octalDigit c 8, octalDigit c 4, octalDigit c 0] ++
          text.takeWhile isOctal)).toUInt8) := by
  obtain ⟨⟨first, second, third⟩, -⟩ := octalDigits c
  obtain ⟨taken, dropped⟩ := digits_escapeText text
  rw [escapeByte_coded coded, List.cons_append, unescapeLoop, if_neg (by decide), if_pos rfl]
  simp [first, second, third, taken, dropped]

/-- Unescaping makes of the escaped text no more characters than it had, and the same ones
only if each of them survives. -/
def ReadsBack (text : List UInt8) : Prop :=
  ∀ output, ∃ back, unescapeLoop (escapeText text ++ [0]) output =
      ⟨output.filled ++ back ++ [0], none⟩ ∧
    back.length ≤ text.length ∧ (back = text ↔ Survives text)

namespace ReadsBack

variable {c : UInt8} {text : List UInt8}

/-- Nothing is read back as nothing, -/
theorem nil : ReadsBack [] := by
  intro output
  refine ⟨[], ?_, le_rfl, iff_of_true rfl trivial⟩
  simp [escapeText, unescapeLoop, OutBuffer.put]

/-- a plain character in front as itself, -/
theorem plain (isPlain : IsPlain c) (reads : ReadsBack text) : ReadsBack (c :: text) := by
  intro output
  obtain ⟨back, ends, short, same⟩ := reads (output.put c)
  refine ⟨c :: back, ?_, Nat.succ_le_succ short, ?_⟩
  · rw [escapeText_cons, List.append_assoc, unescapeLoop_plain isPlain, ends]
    simp [OutBuffer.put]
  · rw [List.cons_inj_right, same, Survives]
    simp [isPlain]

/-- and a low control character. -/
theorem control (other : ¬ IsPlain c) (low : c ≤ 25) (reads : ReadsBack text) :
    ReadsBack (c :: text) := by
  intro output
  obtain ⟨back, ends, short, same⟩ := reads (output.poke c)
  refine ⟨back, ?_, Nat.le_succ_of_le short, iff_of_false (fun equal => ?_) fun survives => ?_⟩
  · rw [escapeText_cons, List.append_assoc, unescapeLoop_control other low, ends]
    rfl
  · rw [equal, List.length_cons] at short
    omega
  · rcases survives.1 with isPlain | ⟨coded, -⟩
    · exact other isPlain
    · exact UInt8.not_lt.mpr low coded.2

/-- No digit follows: the number is that of the character. -/
theorem coded (isCoded : IsCoded c) (noDigit : isOctal (text.headD 0) = false)
    (reads : ReadsBack text) : ReadsBack (c :: text) := by
  have none_ : text.takeWhile isOctal = [] ∧ text.dropWhile isOctal = text := by
    cases text with
    | nil => exact ⟨rfl, rfl⟩
    | cons first rest =>
        rw [List.headD_cons] at noDigit
        simp [noDigit]
  intro output
  obtain ⟨back, ends, short, same⟩ := reads (output.put (c &&& 0x77))
  refine ⟨(c &&& 0x77) :: back, ?_, Nat.succ_le_succ short, ?_⟩
  · rw [escapeText_cons, List.append_assoc, unescapeLoop_coded isCoded, none_.1, none_.2,
      List.append_nil, (octalDigits c).2.1, ends]
    simp [OutBuffer.put]
  · rw [List.cons.injEq, same, (octalDigits c).2.2, Survives, noDigit]
    simp [isCoded, isCoded.1]

/-- The digits that follow are lost in the number. -/
theorem swallowed (isCoded : IsCoded c) (digit : isOctal (text.headD 0) = true)
    (reads : ReadsBack (text.dropWhile isOctal)) : ReadsBack (c :: text) := by
  have fewer : (text.dropWhile isOctal).length < text.length := by
    cases text with
    | nil => exact absurd digit (by decide)
    | cons first rest =>
        rw [List.headD_cons] at digit
        rw [List.dropWhile_cons_of_pos digit]
        exact Nat.lt_succ_of_le (List.dropWhile_sublist isOctal).length_le
  intro output
  have step := unescapeLoop_coded isCoded text output
  generalize (octalNumber _).toUInt8 = number at step
  obtain ⟨back, ends, short, -⟩ := reads (output.put number)
  refine ⟨number :: back, ?_, Nat.succ_le_succ (by omega), ?_⟩
  · rw [escapeText_cons, List.append_assoc, step, ends]
    simp [OutBuffer.put]
  · refine iff_of_false (fun equal => ?_) fun survives => ?_
    · rw [(List.cons.inj equal).2] at short
      omega
    · rcases survives.1 with isPlain | ⟨-, -, noDigit⟩
      · exact isCoded.1 isPlain
      · exact absurd (noDigit.symm.trans digit) (by decide)

end ReadsBack

/-- So every text is read back as the format says. -/
theorem readsBack (text : List UInt8) : ReadsBack text := by
  generalize size : text.length = length
  induction length using Nat.strong_induction_on generalizing text with
  | _ length ih =>
      cases text with
      | nil => exact .nil
      | cons c text =>
          rw [List.length_cons] at size
          have reads := ih text.length (by omega) text rfl
          by_cases isPlain : IsPlain c
          · exact .plain isPlain reads
          by_cases low : c ≤ 25
          · exact .control isPlain low reads
          have isCoded : IsCoded c := ⟨isPlain, UInt8.not_le.mp low⟩
          cases digit : isOctal (text.headD 0) with
          | false => exact .coded isCoded digit reads
          | true =>
              have fewer := (List.dropWhile_sublist isOctal (l := text)).length_le
              exact .swallowed isCoded digit
                (ih (text.dropWhile isOctal).length (by omega) (text.dropWhile isOctal) rfl)

/-! ## The buffers -/

/-- Unescaping writes no more bytes than it reads. -/
theorem written_unescapeLoop (text : List UInt8) (output : OutBuffer) :
    (unescapeLoop text output).written ≤ output.written + text.length := by
  have put (output : OutBuffer) (c : UInt8) : (output.put c).written ≤ output.written + 1 := by
    simp [OutBuffer.put, OutBuffer.written]
  have poke (output : OutBuffer) (c : UInt8) : (output.poke c).written ≤ output.written + 1 := by
    simp [OutBuffer.poke, OutBuffer.written]
  fun_induction unescapeLoop text output with
  | case1 output => exact Nat.le_refl _
  | case2 text output letter ih =>
      have more := poke output (text.headD 0 - 0x41)
      rw [List.length_tail] at ih
      rw [List.length_cons]
      omega
  | case3 text output letter ih =>
      have more := poke output 0x5E
      rw [List.length_cons]
      omega
  | case4 text output noCaret digit ih =>
      have more := put output (octalNumber (text.takeWhile isOctal)).toUInt8
      have fewer := (List.dropWhile_sublist isOctal (l := text)).length_le
      rw [List.length_cons]
      omega
  | case5 text output noDigit escaped named noCaret ih =>
      have more := put output escaped
      rw [List.length_tail] at ih
      rw [List.length_cons]
      omega
  | case6 text output noCaret noDigit unnamed ih =>
      rw [List.length_tail] at ih
      rw [List.length_cons]
      omega
  | case7 c text output noCaret noBackslash ih =>
      have more := put output c
      rw [List.length_cons]
      omega

/-- Reading back writes no more than it reads. -/
theorem written_tiUnescapeString (text : List UInt8) :
    (tiUnescapeString text).written ≤ text.length + 1 := by
  have written := written_unescapeLoop (text ++ [0]) .start
  rw [List.length_append, show OutBuffer.start.written = 0 from rfl, Nat.zero_add] at written
  exact written

/-- Writing fills the widths and a NUL. -/
theorem written_tiEscapeString {text : List UInt8} (some_ : text ≠ []) :
    (tiEscapeString text).written = (text.map escapeWidth).sum + 1 := by
  rw [tiEscapeString_eq some_, ← length_escapeText]
  simp [OutBuffer.written]

/-- An escaped text is no shorter than the text. -/
theorem length_le_widths (text : List UInt8) : text.length ≤ (text.map escapeWidth).sum := by
  induction text with
  | nil => exact le_rfl
  | cons c text ih =>
      have wide : 1 ≤ escapeWidth c := by
        rw [← length_escapeByte]
        exact List.length_pos_of_ne_nil (escapeByte_ne_nil c)
      rw [List.map_cons, List.sum_cons, List.length_cons]
      omega

/-- What comes back is the text exactly if every character survives. -/
theorem string_tiUnescapeString_iff {text : List UInt8} (free : CStrings.NulFree text)
    (stale : List UInt8) :
    (tiUnescapeString (escapeText text)).string stale = text ↔ Survives text := by
  obtain ⟨back, ends, short, same⟩ := readsBack text .start
  have string : (tiUnescapeString (escapeText text)).string stale = back.takeWhile (· != 0) := by
    rw [tiUnescapeString, ends, OutBuffer.string]
    simp only [OutBuffer.start, Option.toList_none, List.nil_append, List.append_nil,
      List.append_assoc, List.singleton_append]
    exact takeWhile_nul back _
  rw [string, ← same]
  constructor
  · intro equal
    have front : text <+: back := by
      rw [← equal]
      exact List.takeWhile_prefix _
    exact (front.eq_of_length_le short).symm
  · rintro rfl
    exact takeWhile_free free

/-- A string is safe exactly if all its characters survive and its escaped form fits. -/
theorem escapesSafely_iff (escaped unescaped : List UInt8) {text : List UInt8}
    (free : CStrings.NulFree text) :
    EscapesSafely escaped unescaped text ↔
      Survives text ∧ (text.map escapeWidth).sum < sizeofOutBuffer := by
  by_cases empty : text = []
  · subst empty
    have escaped_ : (tiEscapeString []).string escaped = [0x5E, 0x41] := by
      rw [tiEscapeString_nil]
      rfl
    refine iff_of_true ⟨fun _ _ => ?_, by decide, ?_⟩ ⟨trivial, by decide⟩
    · rw [escaped_, tiUnescapeString]
      simp [unescapeLoop, OutBuffer.start, OutBuffer.string, OutBuffer.put, OutBuffer.poke]
    · exact Nat.le_trans (written_tiUnescapeString []) (by decide)
  · have written := written_tiEscapeString empty
    have read := written_tiUnescapeString text
    have again := written_tiUnescapeString (escapeText text)
    rw [length_escapeText] at again
    have widths := length_le_widths text
    have string := string_tiUnescapeString_iff free unescaped
    constructor
    · rintro ⟨round, escapes, unescapes⟩
      rw [string_tiEscapeString empty, string] at round
      exact ⟨round escapes (by omega), by omega⟩
    · rintro ⟨survives, fits⟩
      refine ⟨fun _ _ => ?_, by omega, by omega⟩
      rw [string_tiEscapeString empty]
      exact string.mpr survives

/-- A clear-screen sequence is safe. -/
theorem escapesSafely_clear : EscapesSafely [] [] [0x1B, 0x5B, 0x48, 0x1B, 0x5B, 0x4A] :=
  (escapesSafely_iff [] [] (CStrings.nulFree_of_all (by decide))).mpr
    ⟨by simp [Survives, IsPlain, isLiteral], by decide⟩

/-- A carriage return is lost. -/
theorem return_lost : ¬ ∀ escaped unescaped text : List UInt8, CStrings.NulFree text →
    EscapesSafely escaped unescaped text := by
  intro claimed
  have free : CStrings.NulFree [0x0D] := CStrings.nulFree_of_all (by decide)
  have round := (claimed [] [] [0x0D] free).round (by decide)
    (Nat.le_trans (written_tiUnescapeString _) (by decide))
  rw [string_tiEscapeString (by decide), string_tiUnescapeString_iff free] at round
  exact absurd round.1 (by decide)

end GrubLegacy.Console
