import GrubLegacy.Console.SerialInput

/-!
# What the calls do to the bytes that wait

The bytes beyond `npending` are never looked at: each operation of the buffer is one on the
list of the bytes that wait in it.
-/

namespace GrubLegacy.Console

open Base Stage2

variable {hardware : SerialHardware} {line : SerialLine} {input : SerialInput}

/-! ## The stream -/

/-- A turn later the byte of that turn is received too. -/
theorem received_succ (line : SerialLine) (clock : Nat) :
    received line (clock + 1) = received line clock ++ (line clock).toList := by
  rw [received, received, List.range_succ, List.filterMap_append]
  cases arrived : line clock <;> simp [arrived]

/-- Later on more is received behind it, -/
theorem received_add (line : SerialLine) (clock more : Nat) :
    ∃ fresh, received line (clock + more) = received line clock ++ fresh := by
  induction more with
  | zero => exact ⟨[], by simp⟩
  | succ more ih =>
      obtain ⟨fresh, grown⟩ := ih
      refine ⟨fresh ++ (line (clock + more)).toList, ?_⟩
      rw [← Nat.add_assoc, received_succ, grown, List.append_assoc]

/-- and what was received stays in front. -/
theorem received_mono {clock later : Nat} (earlier : clock ≤ later) :
    received line clock <+: received line later := by
  obtain ⟨more, rfl⟩ := Nat.exists_eq_add_of_le earlier
  obtain ⟨fresh, grown⟩ := received_add line clock more
  exact ⟨fresh, grown.symm⟩

/-- Only bytes below 0x80 have been received. -/
def LowBytes (line : SerialLine) (clock : Nat) : Prop := ∀ byte ∈ received line clock, byte < 0x80

/-- What holds of all bytes so far held of them earlier, -/
theorem LowBytes.mono {clock later : Nat} (low : LowBytes line later) (earlier : clock ≤ later) :
    LowBytes line clock := fun byte member => low byte ((received_mono earlier).subset member)

/-- and of the last one. -/
theorem LowBytes.at {clock : Nat} {byte : UInt8} (low : LowBytes line (clock + 1))
    (arrived : line clock = some byte) : byte < 0x80 := by
  apply low
  rw [received_succ, arrived]
  simp

/-! ## A byte as a `char` -/

/-- A byte below 0x80 is itself as a signed character. -/
theorem signedChar_low {c : UInt8} (low : c < 0x80) : signedChar c = c.toNat := if_pos low

/-- A signed character is below 0x80. -/
theorem signedChar_lt (c : UInt8) : signedChar c < 0x80 := by
  unfold signedChar
  have bound := c.toNat_lt
  split
  case isTrue low =>
    rw [UInt8.lt_iff_toNat_lt] at low
    exact Int.ofNat_lt.mpr low
  case isFalse => omega

/-- The hardware hands a low byte on as it is, on both back ends. -/
theorem fetched_low {c : UInt8} (low : c < 0x80) : hardware.fetched c = c.toNat := by
  cases hardware with
  | ports => rfl
  | protocol => exact signedChar_low low
  | file => exact signedChar_low low

/-! ## Operations on the bytes that wait -/

namespace SerialInput

/-- As many keys are pending as are counted. -/
@[simp] theorem length_pending : input.pending.length = input.npending.toNat := length_bytesAt _ _ _

/-- The first of them is that at the start of the buffer. -/
theorem pending_cons (some_ : 0 < input.npending) :
    input.pending = input.inputBuf 0 :: bytesAt input.inputBuf 1 (input.npending - 1).toNat := by
  obtain ⟨rest, count⟩ := Int.eq_ofNat_of_zero_le (show 0 ≤ input.npending - 1 by omega)
  have whole : input.npending.toNat = rest + 1 := by omega
  rw [pending, whole, bytesAt_succ, count]
  rfl

/-- A byte at the end. -/
theorem bytesAt_setByte (area : Area) (length : Nat) (byte : UInt8) :
    bytesAt (setByte area length byte) 0 (length + 1) = bytesAt area 0 length ++ [byte] := by
  rw [bytesAt, List.range_succ, List.map_append]
  congr 1
  · apply List.map_congr_left
    intro position member
    exact setByte_other (by have := List.mem_range.mp member; omega)
  · simp [setByte]

/-- In a quiet turn only the clock goes on. -/
theorem pending_fetchByte_none (quiet : line input.clock = none) :
    input.fetchByte hardware line = { input with clock := input.clock + 1 } :=
  fetchByte_none (by simp [serialHwFetch, quiet])

/-- A low byte that arrived is stored behind the pending ones. -/
theorem fetchByte_arrived {byte : UInt8} (arrived : line input.clock = some byte)
    (low : byte < 0x80) :
    input.fetchByte hardware line =
      { inputBuf := setByte input.inputBuf input.npending.toNat byte
        npending := input.npending + 1
        clock := input.clock + 1 } := by
  have value : serialHwFetch hardware line input.clock = byte.toNat := by
    rw [serialHwFetch, arrived]
    exact fetched_low low
  rw [fetchByte_some (by omega), value]
  simp

/-- A fetch takes one turn. -/
theorem clock_fetchByte : (input.fetchByte hardware line).clock = input.clock + 1 := by
  by_cases arrived : 0 ≤ serialHwFetch hardware line input.clock
  · rw [fetchByte_some arrived]
  · rw [fetchByte_none arrived]

/-- Asking once appends what has arrived. -/
theorem pending_fetchByte (some_ : 0 ≤ input.npending)
    (low : LowBytes line (input.clock + 1)) :
    (input.fetchByte hardware line).pending = input.pending ++ (line input.clock).toList ∧
      (input.fetchByte hardware line).npending =
        input.npending + (line input.clock).toList.length := by
  cases arrived : line input.clock with
  | none =>
      rw [pending_fetchByte_none arrived]
      simp [pending]
  | some byte =>
      rw [fetchByte_arrived arrived (low.at arrived)]
      have count : (input.npending + 1).toNat = input.npending.toNat + 1 := by omega
      refine ⟨?_, rfl⟩
      rw [pending, count]
      exact bytesAt_setByte input.inputBuf input.npending.toNat byte

/-- The clock is never set back while the buffer is filled. -/
theorem le_clock_fillLoop (nowait : Bool) (i : Nat) (input : SerialInput) :
    input.clock ≤ (input.fillLoop hardware line nowait i).clock := by
  fun_induction fillLoop hardware line nowait i input with
  | case1 i input going asked last => exact clock_fetchByte ▸ Nat.le_succ _
  | case2 i input going asked next more ih => exact Nat.le_trans (by rw [clock_fetchByte]; omega) ih
  | case3 i input full => exact le_rfl

/-- The loop appends what arrives while it runs, as far as there is room. -/
theorem pending_fillLoop (nowait : Bool) (i : Nat) (input : SerialInput)
    (some_ : 0 ≤ input.npending) (room : input.npending ≤ sizeofInputBuf)
    (low : LowBytes line (input.fillLoop hardware line nowait i).clock) :
    (0 ≤ (input.fillLoop hardware line nowait i).npending ∧
      (input.fillLoop hardware line nowait i).npending ≤ sizeofInputBuf) ∧
    ∃ fresh, received line (input.fillLoop hardware line nowait i).clock =
        received line input.clock ++ fresh ∧
      (input.fillLoop hardware line nowait i).pending = input.pending ++ fresh := by
  have byte_or_none (clock : Nat) : (line clock).toList.length ≤ 1 := by
    cases line clock <;> simp
  fun_induction fillLoop hardware line nowait i input with
  | case1 i input going asked last =>
      rw [clock_fetchByte] at low
      obtain ⟨appended, count⟩ := pending_fetchByte some_ low
      have now : asked.npending = input.npending + (line input.clock).toList.length := count
      have one := byte_or_none input.clock
      refine ⟨by constructor <;> omega, _, ?_, appended⟩
      rw [clock_fetchByte, received_succ]
  | case2 i input going asked next more ih =>
      change LowBytes line (fillLoop hardware line nowait (next + 1) asked).clock at low
      have now := low.mono (le_clock_fillLoop nowait (next + 1) asked)
      rw [clock_fetchByte] at now
      obtain ⟨appended, count⟩ := pending_fetchByte some_ now
      have after : asked.npending = input.npending + (line input.clock).toList.length := count
      have one := byte_or_none input.clock
      obtain ⟨bounds, fresh, grown, followed⟩ := ih (by omega) (by omega) low
      refine ⟨bounds, (line input.clock).toList ++ fresh, ?_, ?_⟩
      · rw [grown, clock_fetchByte, received_succ, List.append_assoc]
      · rw [followed, appended, List.append_assoc]
  | case3 i input full => exact ⟨⟨some_, room⟩, [], by simp, by simp⟩

/-- Taking a key takes the first byte. -/
theorem pending_takeKey (some_ : 0 < input.npending) :
    input.pending = input.inputBuf 0 :: input.takeKey.pending := by
  rw [pending_cons some_]
  congr 1
  symm
  apply bytesAt_congr
  intro distance inside
  change distance < (input.npending - 1).toNat at inside
  change copyIn _ 0 _ _ _ (0 + distance) = _
  rw [copyIn_inside (Nat.zero_le _) (by omega), Nat.zero_add, Nat.sub_zero]

/-- A key in place of a sequence: its code in front, and the rest moved up behind it. -/
theorem collapse_inputBuf (ascii : UInt8) (dropped : Nat) :
    (input.collapse ascii dropped).inputBuf =
      copyIn (setByte input.inputBuf 0 ascii) 1 (setByte input.inputBuf 0 ascii) (1 + dropped)
        (input.npending - dropped - 1).toNat := rfl

/-- Collapsing a sequence leaves the key and what follows the sequence. -/
theorem pending_collapse (ascii : UInt8) {dropped : Nat} (long : (dropped : Int) < input.npending) :
    (input.collapse ascii dropped).pending = ascii :: input.pending.drop (dropped + 1) := by
  have some_ : 0 < (input.collapse ascii dropped).npending := Int.sub_pos_of_lt long
  have front : (input.collapse ascii dropped).inputBuf 0 = ascii := by
    rw [collapse_inputBuf, copyIn_outside (Or.inl Nat.one_pos), setByte_same]
  have count : input.npending.toNat - (dropped + 1) = (input.npending - dropped - 1).toNat := by
    omega
  rw [pending_cons some_, front, pending, drop_bytesAt, Nat.zero_add, count]
  congr 1
  apply bytesAt_congr
  intro distance inside
  change distance < (input.npending - dropped - 1).toNat at inside
  rw [collapse_inputBuf, copyIn_inside (by omega) (Nat.add_lt_add_left inside 1),
    setByte_other (by omega)]
  congr 1
  omega

end SerialInput

/-! ## Sequences -/

/-- The two bytes of a short, the low one first. -/
theorem toNat_shortOf (low high : UInt8) :
    (shortOf low high).toNat = low.toNat + 256 * high.toNat := by
  have lowBound := low.toNat_lt
  have highBound := high.toNat_lt
  have shifted : (high.toUInt16 <<< 8).toNat = high.toNat <<< 8 := by
    simp [UInt16.toNat_shiftLeft, Nat.shiftLeft_eq]
    omega
  rw [shortOf, UInt16.toNat_or, shifted, UInt8.toNat_toUInt16, Nat.or_comm,
    ← Nat.shiftLeft_add_eq_or_of_lt lowBound, Nat.shiftLeft_eq]
  omega

/-- Two bytes make a short just when they are its own. -/
theorem shortOf_eq_iff {low high : UInt8} {value : UInt16} :
    shortOf low high = value ↔ low = value.toUInt8 ∧ high = (value >>> 8).toUInt8 := by
  have lowBound := low.toNat_lt
  have highBound := high.toNat_lt
  have bound := value.toNat_lt
  have shifted : (value >>> 8).toUInt8.toNat = value.toNat / 256 := by
    simp [UInt16.toNat_shiftRight, Nat.shiftRight_eq_div_pow]
    omega
  rw [← UInt16.toNat_inj, ← UInt8.toNat_inj, ← UInt8.toNat_inj, toNat_shortOf, shifted,
    UInt16.toNat_toUInt8]
  omega

/-- The low byte is read back, -/
@[simp] theorem toUInt8_shortOf (low high : UInt8) : (shortOf low high).toUInt8 = low :=
  (shortOf_eq_iff.mp rfl).1.symm

/-- and the high one. -/
@[simp] theorem high_shortOf (low high : UInt8) : (shortOf low high >>> 8).toUInt8 = high :=
  (shortOf_eq_iff.mp rfl).2.symm

/-- Every sequence starts with an escape and a bracket, and a code follows. -/
theorem KeySequence.front {bytes : List UInt8} {key : Int} (sequence : KeySequence bytes key) :
    ∃ codes, bytes = 0x1B :: 0x5B :: codes ∧ codes ≠ [] := by
  cases sequence with
  | three listed => exact ⟨_, rfl, List.cons_ne_nil _ _⟩
  | four listed => exact ⟨_, rfl, List.cons_ne_nil _ _⟩

/-- A control key is not the escape that sequences begin with. -/
theorem KeySequence.control {bytes : List UInt8} {key : Int} (sequence : KeySequence bytes key) :
    key < 0x1B := by
  have ofThree : ∀ entry ∈ threeCodeTable, entry.2.toNat < 0x1B := by simp [threeCodeTable]
  have ofFour : ∀ entry ∈ fourCodeTable, entry.2.toNat < 0x1B := by simp [fourCodeTable]
  cases sequence with
  | three listed =>
      have small := ofThree _ listed
      omega
  | four listed =>
      have small := ofFour _ listed
      omega

/-- No recognised sequence is complete at the front of these bytes. -/
def NoSequence (bytes : List UInt8) : Prop :=
  ∀ sequence key, KeySequence sequence key → ¬ sequence <+: bytes

/-- What does not start with an escape is no sequence. -/
theorem NoSequence.of_front {first : UInt8} {bytes : List UInt8} (other : first ≠ 0x1B) :
    NoSequence (first :: bytes) := by
  rintro sequence key listed ⟨rest, split⟩
  obtain ⟨codes, rfl, -⟩ := listed.front
  exact other (List.cons.inj split).1.symm

namespace SerialInput

/-- A code of three bytes that is found is in the table under the third byte. -/
theorem threeCode_some {entry : UInt8 × UInt8} (found : input.threeCode = some entry) :
    3 ≤ input.npending ∧ entry ∈ threeCodeTable ∧ entry.1 = input.inputBuf 2 := by
  unfold threeCode at found
  split at found
  case isTrue long =>
    exact ⟨long, List.mem_of_find?_eq_some found, by simpa using List.find?_some found⟩
  case isFalse => exact absurd found (by simp)

/-- If none is found, the third byte is in no entry of the table. -/
theorem threeCode_none (none_ : input.threeCode = none) (long : 3 ≤ input.npending)
    {entry : UInt8 × UInt8} (listed : entry ∈ threeCodeTable) : entry.1 ≠ input.inputBuf 2 := by
  rw [threeCode, if_pos long, List.find?_eq_none] at none_
  simpa using none_ entry listed

/-- A code of four bytes that is found is in the table under the third and fourth byte. -/
theorem fourCode_some {entry : UInt16 × UInt8} (found : input.fourCode = some entry) :
    4 ≤ input.npending ∧ entry ∈ fourCodeTable ∧ entry.1 = shortAt input.inputBuf 2 := by
  unfold fourCode at found
  split at found
  case isTrue long =>
    exact ⟨long, List.mem_of_find?_eq_some found, by simpa using List.find?_some found⟩
  case isFalse => exact absurd found (by simp)

/-- If none is found, these two are in no entry of the table. -/
theorem fourCode_none (none_ : input.fourCode = none) (long : 4 ≤ input.npending)
    {entry : UInt16 × UInt8} (listed : entry ∈ fourCodeTable) :
    entry.1 ≠ shortAt input.inputBuf 2 := by
  rw [fourCode, if_pos long, List.find?_eq_none] at none_
  simpa using none_ entry listed

/-- The bytes of the buffer as far as they wait. -/
theorem pending_get {position : Nat} {byte : UInt8} (there : input.pending[position]? = some byte) :
    (position : Int) < input.npending ∧ input.inputBuf position = byte := by
  obtain ⟨inside, same⟩ := List.getElem?_eq_some_iff.mp there
  rw [length_pending] at inside
  refine ⟨by omega, ?_⟩
  rw [← same]
  simp [pending, bytesAt]

/-- A pending byte is that of its place in the buffer. -/
theorem pending_get_of {position : Nat} (inside : (position : Int) < input.npending) :
    input.pending[position]? = some (input.inputBuf position) := by
  have short : position < input.npending.toNat := by omega
  simp [pending, bytesAt, short]

/-- What is at the front of the bytes that wait. -/
theorem prefix_pending_iff {codes : List UInt8} :
    codes <+: input.pending ↔ ∀ position, (inside : position < codes.length) →
      (position : Int) < input.npending ∧ input.inputBuf position = codes[position] := by
  rw [List.prefix_iff_getElem?]
  constructor
  · intro same position inside
    exact pending_get (same position inside)
  · intro same position inside
    obtain ⟨waits, byte⟩ := same position inside
    rw [pending_get_of waits, byte]

/-- What the translation does: it replaces a complete sequence, or there is none. -/
inductive Translates (input : SerialInput) : SerialInput → Prop
  | unchanged (none_ : NoSequence input.pending) : Translates input input
  | replaced {after : SerialInput} (codes : List UInt8) (ascii : UInt8) (rest : List UInt8)
      (listed : KeySequence codes ascii.toNat) (before_ : input.pending = codes ++ rest)
      (after_ : after.pending = ascii :: rest)
      (count : after.npending = input.npending - codes.length + 1)
      (clock : after.clock = input.clock) : Translates input after

/-- A listed sequence at the front is collapsed to its key. -/
theorem Translates.of_prefix {codes : List UInt8} {ascii : UInt8} {dropped : Nat}
    (listed : KeySequence codes ascii.toNat) (length : codes.length = dropped + 1)
    (front : codes <+: input.pending) : input.Translates (input.collapse ascii dropped) := by
  have long : (dropped : Int) < input.npending :=
    (prefix_pending_iff.mp front dropped (by omega)).1
  refine .replaced codes ascii (input.pending.drop codes.length) listed
    (List.prefix_iff_eq_append.mp front).symm ?_ ?_ rfl
  · rw [pending_collapse ascii long, length]
  · change input.npending - dropped = _
    omega

/-- The translation of the start of the buffer is one of the three outcomes. -/
theorem translates (input : SerialInput) : input.Translates input.serialTranslateKeySequence := by
  unfold serialTranslateKeySequence
  split
  case isTrue other =>
    refine .unchanged fun codes key listed front => other ?_
    obtain ⟨more, rfl, -⟩ := listed.front
    have first := (prefix_pending_iff.mp front 0 (by simp)).2
    have second := (prefix_pending_iff.mp front 1 (by simp)).2
    rw [shortAt, first, second]
    rfl
  case isFalse escape =>
    obtain ⟨first, second⟩ := shortOf_eq_iff.mp (not_not.mp escape)
    replace first : input.inputBuf 0 = 0x1B := first
    replace second : input.inputBuf 1 = 0x5B := second
    split
    case h_1 entry found =>
      obtain ⟨long, listed, third⟩ := threeCode_some found
      apply Translates.of_prefix (.three listed) rfl
      rw [prefix_pending_iff]
      intro position inside
      match position with
      | 0 => exact ⟨by omega, first⟩
      | 1 => exact ⟨by omega, second⟩
      | 2 => exact ⟨by omega, third.symm⟩
    case h_2 noThree =>
      split
      case h_1 entry found =>
        obtain ⟨long, listed, last⟩ := fourCode_some found
        obtain ⟨third, fourth⟩ := shortOf_eq_iff.mp last.symm
        apply Translates.of_prefix (.four listed) rfl
        rw [prefix_pending_iff]
        intro position inside
        match position with
        | 0 => exact ⟨by omega, first⟩
        | 1 => exact ⟨by omega, second⟩
        | 2 => exact ⟨by omega, third⟩
        | 3 => exact ⟨by omega, fourth⟩
      case h_2 noFour =>
        refine .unchanged fun codes key listed front => ?_
        cases listed with
        | three listed =>
            obtain ⟨waits, third⟩ := prefix_pending_iff.mp front 2 (by simp)
            exact threeCode_none noThree (by omega) listed third.symm
        | four listed =>
            obtain ⟨waits, fourth⟩ := prefix_pending_iff.mp front 3 (by simp)
            have third := (prefix_pending_iff.mp front 2 (by simp)).2
            exact fourCode_none noFour (by omega) listed (shortOf_eq_iff.mpr ⟨third, fourth⟩).symm

/-- None of them takes a turn. -/
theorem Translates.same_clock {after : SerialInput} (translates : input.Translates after) :
    after.clock = input.clock := by
  cases translates with
  | unchanged none_ => rfl
  | replaced codes ascii rest listed before_ after_ count clock => exact clock

/-- A translation leaves a key. -/
theorem Translates.empty {after : SerialInput} (translates : input.Translates after)
    (empty : after.npending = 0) : input.npending = 0 := by
  cases translates with
  | unchanged none_ => exact empty
  | replaced codes ascii rest listed before_ after_ count clock =>
      have length := congrArg List.length after_
      rw [length_pending, empty] at length
      simp at length

/-- Filling the buffer does not set the clock back, -/
theorem le_clock_fillInputBuf (nowait : Bool) (input : SerialInput) :
    input.clock ≤ (input.fillInputBuf hardware line nowait).clock := by
  rw [fillInputBuf, (translates _).same_clock]
  exact le_clock_fillLoop nowait 0 input

/-- A check asks once, unless the buffer is full. -/
theorem clock_serialCheckkey (room : 0 ≤ input.npending ∧ input.npending < sizeofInputBuf) :
    (input.serialCheckkey hardware line).2.clock = input.clock + 1 := by
  change (input.fillInputBuf hardware line true).clock = _
  rw [fillInputBuf, (translates _).same_clock, fillLoop, if_pos ⟨by decide, room⟩]
  exact clock_fetchByte

/-- nor does reading a key. -/
theorem le_clock_serialGetkey {fillings : Nat} {key : Int} {next : SerialInput}
    (returned : input.serialGetkey hardware line fillings = some (key, next)) :
    input.clock ≤ next.clock := by
  induction fillings generalizing input with
  | zero => exact absurd returned (by simp [serialGetkey])
  | succ fillings ih =>
      rw [serialGetkey] at returned
      have filled : input.clock ≤ (input.fillInputBuf hardware line false).clock :=
        le_clock_fillInputBuf false input
      split at returned
      case isTrue empty => exact Nat.le_trans filled (ih returned)
      case isFalse some_ =>
        obtain ⟨-, rfl⟩ := Prod.mk.inj (Option.some.inj returned)
        exact filled

/-- A key that is returned is below 0x80. -/
theorem serialGetkey_lt {fillings : Nat} {key : Int} {next : SerialInput}
    (returned : input.serialGetkey hardware line fillings = some (key, next)) : key < 0x80 := by
  induction fillings generalizing input with
  | zero => exact absurd returned (by simp [serialGetkey])
  | succ fillings ih =>
      rw [serialGetkey] at returned
      split at returned
      case isTrue empty => exact ih returned
      case isFalse some_ =>
        obtain ⟨rfl, -⟩ := Prod.mk.inj (Option.some.inj returned)
        exact signedChar_lt _

end SerialInput

end GrubLegacy.Console
