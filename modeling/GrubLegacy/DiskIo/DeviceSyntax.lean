import GrubLegacy.DiskIo.SetDevice

/-!
# The syntax of device names

A device name as a relation between a text, a name and the text behind it, and what
`set_device` makes of it: it accepts unfinished texts and the names that are sane.
-/

namespace GrubLegacy.DiskIo

open GrubLegacy.Stage2 CStrings

/-! ## Fields of words -/

/-- A mask picks a field of a word. -/
theorem and_field (word width place : Nat) :
    word &&& ((2 ^ width - 1) * 2 ^ place) = word / 2 ^ place % 2 ^ width * 2 ^ place := by
  have low : (word &&& ((2 ^ width - 1) * 2 ^ place)) % 2 ^ place = 0 := by
    rw [Nat.and_mod_two_pow, Nat.mul_mod_left, Nat.and_zero]
  have high : (word &&& ((2 ^ width - 1) * 2 ^ place)) / 2 ^ place =
      word / 2 ^ place % 2 ^ width := by
    rw [Nat.and_div_two_pow, Nat.mul_div_cancel _ (Nat.two_pow_pos place),
      Nat.and_two_pow_sub_one_eq_mod]
  have whole := Nat.div_add_mod (word &&& ((2 ^ width - 1) * 2 ^ place)) (2 ^ place)
  rw [low, high, Nat.add_zero, Nat.mul_comm] at whole
  exact whole.symm

/-- Bit 7 of a drive is a digit of its number. -/
theorem hasBit7_eq (drive : Nat) : hasBit7 drive = decide (drive / 128 % 2 = 1) := by
  have field : drive &&& 0x80 = drive / 128 % 2 * 128 := and_field drive 1 7
  rw [hasBit7, field]
  exact decide_eq_decide.mpr (by omega)

/-- The number of a drive without bit 7. -/
theorem without_bit7 {drive : Nat} (word : drive < 2 ^ 32) :
    drive &&& 0xFFFFFF7F = drive / 256 * 256 + drive % 128 := by
  have high : (drive &&& 0xFFFFFF7F) / 2 ^ 8 = drive / 2 ^ 8 := by
    have rest : drive / 2 ^ 8 < 2 ^ 24 := by omega
    rw [Nat.and_div_two_pow]
    exact (Nat.and_two_pow_sub_one_eq_mod (drive / 2 ^ 8) 24).trans (Nat.mod_eq_of_lt rest)
  have low : (drive &&& 0xFFFFFF7F) % 2 ^ 8 = drive % 2 ^ 8 % 2 ^ 7 := by
    rw [Nat.and_mod_two_pow]
    exact Nat.and_two_pow_sub_one_eq_mod (drive % 2 ^ 8) 7
  omega

/-- A partition number of a slice and a letter, with 255 for none. -/
def packedPart (slice letter : Nat) : Nat := slice * 2 ^ 16 + letter * 2 ^ 8 + 0xFF

/-- What `sane_partition` lets pass: a partition number of a slice and a letter, with a
slice on hard disks only. -/
structure SaneDevice (drive partition : Nat) : Prop where
  known : drive ≤ 256
  packed : partition = packedPart (partition / 2 ^ 16) (partition / 2 ^ 8 % 2 ^ 8)
  letter : partition / 2 ^ 8 % 2 ^ 8 = 255 ∨ partition / 2 ^ 8 % 2 ^ 8 < 8
  slice : partition / 2 ^ 16 = 255 ∨ partition / 2 ^ 16 ≤ 255 ∧ hasBit7 drive = true

/-- The check of drive and partition accepts the network and the devices there can be. -/
theorem sanePartition_iff {state : DeviceState} (drive : state.currentDrive < 2 ^ 32)
    (partition : state.currentPartition < 2 ^ 32) :
    state.sanePartition = true ↔ state.currentDrive = networkDrive ∨
      SaneDevice state.currentDrive state.currentPartition := by
  have top : state.currentPartition &&& 0xFF000000 =
    state.currentPartition / 2 ^ 24 % 2 ^ 8 * 2 ^ 24 := and_field _ 8 24
  have letter : state.currentPartition &&& 0xFF00 =
    state.currentPartition / 2 ^ 8 % 2 ^ 8 * 2 ^ 8 := and_field _ 8 8
  have low : state.currentPartition &&& 0xFF =
    state.currentPartition / 2 ^ 0 % 2 ^ 8 * 2 ^ 0 := and_field _ 8 0
  rw [DeviceState.sanePartition, top, letter, low, without_bit7 drive, Nat.shiftRight_eq_div_pow]
  simp only [Bool.or_eq_true, Bool.and_eq_true, decide_eq_true_eq]
  rw [maxHdNum, cdromDrive]
  refine or_congr_right ⟨?_, ?_⟩
  · rintro ⟨⟨⟨⟨noTop, known⟩, noLow⟩, letters⟩, slices⟩
    refine ⟨by omega, ?_, by omega, ?_⟩
    · rw [packedPart]
      omega
    · rcases slices with none | hard
      · exact .inl none
      · exact .inr ⟨by omega, hard⟩
  · rintro ⟨known, packed, letters, slices⟩
    rw [packedPart] at packed
    refine ⟨⟨⟨⟨by omega, by omega⟩, by omega⟩, by omega⟩, ?_⟩
    rcases slices with none | ⟨_, hard⟩
    · exact .inl none
    · exact .inr hard

/-- A slice alone is packed with no BSD partition. -/
theorem slice_packed (value : Nat) : (value <<< 16) + 0xFFFF = packedPart value 255 := by
  have shifted := Nat.shiftLeft_eq value 16
  unfold packedPart
  omega

/-- A letter is packed as its place from `a` on, alone or behind a slice. -/
theorem letterBits_packed {c : UInt8} (isOne : isLetter c = true) :
    (c - charOf 'a').toNat < 8 ∧
      letterBits c ||| 0xFF00FF = packedPart 255 (c - charOf 'a').toNat ∧
      ∀ value ≤ 254, letterBits c ||| (packedPart value 255 &&& 0xFF00FF) =
        packedPart value (c - charOf 'a').toNat := by
  have few : (c - charOf 'a').toNat < 8 := by
    simp only [isLetter, Bool.and_eq_true, decide_eq_true_eq, UInt8.le_iff_toNat_le] at isOne
    have first : (charOf 'a').toNat = 97 := rfl
    have last : (charOf 'h').toNat = 104 := rfl
    rw [UInt8.toNat_sub, first]
    omega
  have alone : ∀ k < 8, (k <<< 8) ||| 0xFF00FF = packedPart 255 k := by decide
  have behind : ∀ k < 8, ∀ value ≤ 254,
      (k <<< 8) ||| (packedPart value 255 &&& 0xFF00FF) = packedPart value k := by
    decide +kernel
  exact ⟨few, alone _ few, behind _ few⟩

/-! ## Printed numbers -/

/-- A digit that is printed is read back. -/
theorem digitOf_decimalDigit {digit : Nat} (small : digit < 10) :
    digitOf 10 (decimalDigit digit) = some digit := by
  have byte : (decimalDigit digit).toNat = digit + 48 :=
    Nat.mod_eq_of_lt (by omega)
  rw [digitOf, byte, if_pos (by omega)]
  congr 1

/-- Only digits are printed for a number. -/
theorem decimalDigits_digits {count num : Nat} {c : UInt8} (isOne : c ∈ decimalDigits count num) :
    ∃ digit < 10, c = decimalDigit digit := by
  induction count generalizing num with
  | zero => cases isOne
  | succ count inductionHypothesis =>
      rw [decimalDigits, List.mem_append, List.mem_singleton] at isOne
      rcases isOne with before | last
      · split at before
        · cases before
        · exact inductionHypothesis before
      · exact ⟨num % 10, Nat.mod_lt _ (by decide), last⟩

/-- Printed digits are read as the number. -/
theorem parseDigits_decimal {count num : Nat} (few : num < 10 ^ count) (small : num ≤ maxint)
    (positive : 0 < count) (rest : List UInt8) :
    parseDigits 10 0 (decimalDigits count num ++ rest) = parseDigits 10 num rest := by
  induction count generalizing num rest with
  | zero => cases positive
  | succ count inductionHypothesis =>
      have last := digitOf_decimalDigit (Nat.mod_lt num (by decide : 0 < 10))
      have room : ¬ (maxint - num % 10) / 10 < num / 10 := by
        rw [maxint] at small ⊢
        omega
      have whole : num / 10 * 10 + num % 10 = num := by omega
      rw [decimalDigits, List.append_assoc, List.singleton_append]
      by_cases single : num / 10 = 0
      · rw [if_pos single, List.nil_append, parseDigits, last]
        rw [single] at room whole
        dsimp only
        rw [if_neg room, whole]
      · rw [if_neg single]
        have before : 0 < count := by
          rcases Nat.eq_zero_or_pos count with zero | before
          · rw [zero] at few
            omega
          · exact before
        rw [inductionHypothesis (by rw [Nat.pow_succ] at few; omega) (by omega) before,
          parseDigits, last]
        dsimp only
        rw [if_neg room, whole]

/-- A printed number is read back, whatever comes behind that is no digit and no `x`. -/
theorem safeParseMaxint_decimal {num : Nat} (small : num ≤ maxint) {c : UInt8}
    (ends : digitOf 10 c = none) (notX : c ≠ charOf 'x' ∧ c ≠ charOf 'X') (rest : List UInt8) :
    safeParseMaxint (decimalDigits 10 num ++ c :: rest) = some (num, c :: rest) := by
  have base : numeralBase (decimalDigits 10 num ++ c :: rest) =
      (10, decimalDigits 10 num ++ c :: rest) := by
    rcases numeralBase_eq (decimalDigits 10 num ++ c :: rest) with ten | ⟨x, digits, text, isX, _⟩
    · exact ten
    · exfalso
      have second : x ∈ decimalDigits 10 num ∨ x = c := by
        cases printed : decimalDigits 10 num with
        | nil =>
            rw [decimalDigits] at printed
            cases List.append_ne_nil_of_right_ne_nil _ (List.cons_ne_nil _ _) printed
        | cons first others =>
            rw [printed] at text
            obtain ⟨_, tail⟩ := List.cons.inj text
            cases others with
            | nil => exact .inr (List.cons.inj tail).1.symm
            | cons next others =>
                exact .inl (List.mem_cons_of_mem _ ((List.cons.inj tail).1 ▸ List.mem_cons_self))
      rcases second with printed | last
      · obtain ⟨digit, few, rfl⟩ := decimalDigits_digits printed
        have isDigit := digitOf_decimalDigit few
        rcases isX with isX | isX
        · rw [isX] at isDigit
          cases isDigit
        · rw [isX] at isDigit
          cases isDigit
      · rw [last] at isX
        exact isX.elim notX.1 notX.2
  have loop : parseDigits 10 0 (decimalDigits 10 num ++ c :: rest) = some (num, c :: rest) := by
    rw [parseDigits_decimal (by rw [maxint] at small; omega) small (by decide), parseDigits, ends]
  have some_ : (c :: rest).length ≠ (decimalDigits 10 num ++ c :: rest).length := by
    rw [decimalDigits, List.length_append, List.length_append, List.length_singleton]
    omega
  rw [safeParseMaxint, base]
  dsimp only
  rw [loop]
  dsimp only
  rw [if_neg some_]

/-- A number starts with a decimal digit. -/
theorem safeParseMaxint_first {ch : UInt8} {others rest : List UInt8} {value : Nat}
    (reads : safeParseMaxint (ch :: others) = some (value, rest)) : isDigit ch = true := by
  rcases numeralBase_eq (ch :: others) with ten | ⟨x, digits, text, _⟩
  · rw [safeParseMaxint, ten] at reads
    dsimp only at reads
    cases isOne : digitOf 10 ch with
    | none =>
        rw [parseDigits, isOne] at reads
        dsimp only at reads
        rw [if_pos rfl] at reads
        cases reads
    | some digit =>
        rw [digitOf] at isOne
        split at isOne
        · next range =>
            have low : (charOf '0').toNat = 48 := rfl
            have high : (charOf '9').toNat = 57 := rfl
            simp only [isDigit, Bool.and_eq_true, decide_eq_true_eq, UInt8.le_iff_toNat_le]
            omega
        · simp at isOne
  · rw [(List.cons.inj text).1]
    rfl

/-! ## The syntax of a name -/

/-- How a drive is named: by its kind and number, by the number alone, or not at all. -/
inductive DriveName where
  | saved
  | floppy (no : Nat)
  | hard (no : Nat)
  | number (no : Nat)
  | network
  | cdrom
deriving DecidableEq, Repr

/-- How a partition is named: the whole drive, the saved partition, a slice with the letter
of a BSD partition in it, or such a letter alone. -/
inductive PartName where
  | whole
  | saved
  | slice (no : Nat) (letter : Option Nat)
  | letter (no : Nat)
deriving DecidableEq, Repr

/-- A text that begins with the name of a drive, and what follows it. A number is as long as
`safe_parse_maxint` reads. -/
inductive DriveText (globals : DeviceGlobals) : List UInt8 → DriveName → List UInt8 → Prop where
  | saved {ch : UInt8} {rest : List UInt8} (ends : ch = charOf ',' ∨ ch = charOf ')') :
      DriveText globals (ch :: rest) .saved (ch :: rest)
  | floppy {digits rest : List UInt8} {no : Nat}
      (reads : safeParseMaxint digits = some (no, rest)) :
      DriveText globals (charOf 'f' :: charOf 'd' :: digits) (.floppy no) rest
  | hard {digits rest : List UInt8} {no : Nat}
      (reads : safeParseMaxint digits = some (no, rest)) :
      DriveText globals (charOf 'h' :: charOf 'd' :: digits) (.hard no) rest
  | number {text rest : List UInt8} {no : Nat}
      (reads : safeParseMaxint text = some (no, rest)) :
      DriveText globals text (.number no) rest
  | network {rest : List UInt8} (ready : globals.networkReady = true) :
      DriveText globals (charOf 'n' :: charOf 'd' :: rest) .network rest
  | cdrom {rest : List UInt8} : DriveText globals (charOf 'c' :: charOf 'd' :: rest) .cdrom rest

/-- The letter behind a slice, and the text behind the parenthesis. -/
inductive LetterText : List UInt8 → Option Nat → List UInt8 → Prop where
  | none {rest : List UInt8} : LetterText (charOf ')' :: rest) none rest
  | comma {rest : List UInt8} : LetterText (charOf ',' :: charOf ')' :: rest) none rest
  | letter {c : UInt8} {rest : List UInt8} (isOne : isLetter c = true) :
      LetterText (c :: charOf ')' :: rest) (some (c - charOf 'a').toNat) rest
  | commaLetter {c : UInt8} {rest : List UInt8} (isOne : isLetter c = true) :
      LetterText (charOf ',' :: c :: charOf ')' :: rest) (some (c - charOf 'a').toNat) rest

/-- The partition behind a drive, and the text behind the parenthesis. -/
inductive PartText : List UInt8 → PartName → List UInt8 → Prop where
  | whole {rest : List UInt8} : PartText (charOf ')' :: rest) .whole rest
  | saved {rest : List UInt8} : PartText (charOf ',' :: charOf ')' :: rest) .saved rest
  | slice {text more rest : List UInt8} {no : Nat} {letter : Option Nat}
      (reads : safeParseMaxint text = some (no, more)) (few : no ≤ 254)
      (letters : LetterText more letter rest) :
      PartText (charOf ',' :: text) (.slice no letter) rest
  | letter {c : UInt8} {rest : List UInt8} (isOne : isLetter c = true) :
      PartText (charOf ',' :: c :: charOf ')' :: rest) (.letter (c - charOf 'a').toNat) rest

/-- The name of a device. -/
structure DeviceName where
  drive : DriveName
  part : PartName
deriving DecidableEq, Repr

/-- The text begins with the name of a device. -/
inductive Names (globals : DeviceGlobals) : List UInt8 → DeviceName → List UInt8 → Prop where
  | device {text middle rest : List UInt8} {drive : DriveName} {part : PartName}
      (driveText : DriveText globals text drive middle) (partText : PartText middle part rest) :
      Names globals (charOf '(' :: text) ⟨drive, part⟩ rest

/-- The value of `current_drive` for a name. -/
def DriveName.drive (globals : DeviceGlobals) : DriveName → Nat
  | .saved => globals.savedDrive
  | .floppy no => no
  | .hard no => no + 0x80
  | .number no => no
  | .network => networkDrive
  | .cdrom => cdromDrive

/-- The value of `current_partition` for a name. -/
def PartName.partition (globals : DeviceGlobals) : PartName → Nat
  | .whole => packedPart 255 255
  | .saved => globals.savedPartition
  | .slice no bsd => packedPart no (bsd.getD 255)
  | .letter no => packedPart 255 no

/-! ## What `set_device` makes of a name -/

variable {globals : DeviceGlobals} {state : DeviceState}

/-- A number that cannot be read gives an error. -/
theorem maxintError_ne (text : List UInt8) : maxintError text ≠ .none := by
  rw [maxintError]
  split <;> exact nofun

/-- A digit is none of the characters a device has in other places. -/
theorem isDigit_other {c : UInt8} (isOne : isDigit c = true) :
    startsDrive globals c = false ∧ c ≠ charOf 'h' ∧ c ≠ charOf 'n' ∧ c ≠ charOf 'c' ∧
      c ≠ charOf ',' ∧ c ≠ charOf ')' ∧ c ≠ charOf 'f' := by
  have differs : ∀ other, isDigit other = false → c ≠ other := by
    rintro other isNone rfl
    rw [isOne] at isNone
    cases isNone
  have h := differs (charOf 'h') (by decide)
  have n := differs (charOf 'n') (by decide)
  have cd := differs (charOf 'c') (by decide)
  have f := differs (charOf 'f') (by decide)
  refine ⟨?_, h, n, cd, differs _ (by decide), differs _ (by decide), f⟩
  simp [startsDrive, h, n, cd, f]

/-- The number of a drive is read. -/
theorem takeNumber_reads {ch : UInt8} {device rest : List UInt8} {no bias : Nat}
    (notN : ch ≠ charOf 'n') (notC : ch ≠ charOf 'c')
    (biased : (if ch = charOf 'h' then 0x80 else 0) = bias)
    (reads : safeParseMaxint device = some (no, rest)) :
    takeNumber globals ch state device =
      ({ state with currentDrive := no + bias, diskChoice := false }, rest) := by
  have small := safeParseMaxint_le reads
  have word : (no + bias) % 2 ^ 32 = no + bias := by
    have few : bias ≤ 0x80 := by
      rw [← biased]
      split <;> decide
    rw [maxint] at small
    omega
  rw [takeNumber, if_neg fun wrong => notN wrong.1, if_neg fun wrong => notC wrong.1]
  dsimp only
  rw [biased, reads]
  dsimp only
  rw [word]

/-- Behind the letters of a kind the number is taken. -/
theorem takeDrive_kind {ch : UInt8} {digits : List UInt8}
    (starts : startsDrive globals ch = true) :
    takeDrive globals state ch (charOf 'd' :: digits) = takeNumber globals ch state digits := by
  rw [takeDrive, if_pos starts, if_neg fun wrong => wrong rfl, List.tail_cons]

/-- The name of a drive is taken. -/
theorem takeDrive_text {text rest : List UInt8} {name : DriveName}
    (reads : DriveText globals text name rest) (some_ : rest ≠ []) :
    ∃ ch others, text = ch :: others ∧
      ((ch = charOf ',' ∨ ch = charOf ')') ∧ name = .saved ∧ rest = text ∨
        ¬ (ch = charOf ',' ∨ ch = charOf ')') ∧
        ¬ (startsDrive globals ch = true ∧ (others = [] ∨ others = [charOf 'd'])) ∧
        ∃ choice, takeDrive globals state ch others =
          ({ state with currentDrive := name.drive globals, diskChoice := choice }, rest)) := by
  have longer : ∀ {digits : List UInt8}, digits ≠ [] → ∀ {ch : UInt8},
      ¬ (startsDrive globals ch = true ∧
        (charOf 'd' :: digits = [] ∨ charOf 'd' :: digits = [charOf 'd'])) := by
    rintro digits more ch ⟨_, none | single⟩
    · cases none
    · exact more (List.cons.inj single).2
  have numbered : ∀ {digits : List UInt8} {no : Nat}, safeParseMaxint digits = some (no, rest) →
      digits ≠ [] := by
    rintro _ no reads rfl
    cases reads
  cases reads with
  | saved ends => exact ⟨_, _, rfl, .inl ⟨ends, rfl, rfl⟩⟩
  | floppy reads =>
      exact ⟨_, _, rfl, .inr ⟨by decide, longer (numbered reads), false,
        (takeDrive_kind (by simp [startsDrive])).trans
          (takeNumber_reads (by decide) (by decide) rfl reads)⟩⟩
  | hard reads =>
      exact ⟨_, _, rfl, .inr ⟨by decide, longer (numbered reads), false,
        (takeDrive_kind (by simp [startsDrive])).trans
          (takeNumber_reads (by decide) (by decide) rfl reads)⟩⟩
  | @number _ _ no reads =>
      cases text with
      | nil => cases reads
      | cons ch others =>
          obtain ⟨unnamed, notH, notN, notC, notComma, notParen, _⟩ :=
            @isDigit_other globals ch (safeParseMaxint_first reads)
          have unkind : ¬ startsDrive globals ch = true := Bool.eq_false_iff.mp unnamed
          refine ⟨ch, others, rfl, .inr ⟨fun ends => ends.elim notComma notParen,
            fun starts => unkind starts.1, false, ?_⟩⟩
          rw [takeDrive, if_neg unkind]
          exact takeNumber_reads notN notC (if_neg notH) reads
  | network ready =>
      refine ⟨_, _, rfl, .inr ⟨by decide, longer some_, state.diskChoice, ?_⟩⟩
      rw [takeDrive_kind (by simp [startsDrive, ready]), takeNumber, if_pos ⟨rfl, ready⟩]
      rfl
  | cdrom =>
      refine ⟨_, _, rfl, .inr ⟨by decide, longer some_, state.diskChoice, ?_⟩⟩
      have notN : ¬ (charOf 'c' = charOf 'n' ∧ globals.networkReady = true) :=
        fun wrong => absurd wrong.1 (by decide)
      have valid : charOf 'c' = charOf 'c' ∧ cdromDrive ≠ grubInvalidDrive := by decide
      rw [takeDrive_kind (by simp [startsDrive, valid.2]), takeNumber, if_neg notN, if_pos valid]
      rfl

/-- An error stays. -/
theorem takeNumber_error {ch : UInt8} {device : List UInt8} (error : state.errnum ≠ .none) :
    (takeNumber globals ch state device).1.errnum ≠ .none := by
  rw [takeNumber]
  split
  · exact error
  · split
    · exact error
    · dsimp only
      split
      · exact error
      · exact maxintError_ne _

/-- A drive starts with `f`, `h` or `c`, or with `n` if there is a network. -/
theorem startsDrive_iff {ch : UInt8} : startsDrive globals ch = true ↔ ch = charOf 'f' ∨
    ch = charOf 'h' ∨ (ch = charOf 'n' ∧ globals.networkReady = true) ∨ ch = charOf 'c' := by
  have valid : decide (cdromDrive ≠ grubInvalidDrive) = true := by decide
  rw [startsDrive, valid, Bool.and_true]
  simp only [Bool.or_eq_true, Bool.and_eq_true, decide_eq_true_eq, or_assoc]

/-- What `takeNumber` takes without an error. -/
theorem takeNumber_cases {ch : UInt8} {device rest : List UInt8} {after : DeviceState}
    (takes : takeNumber globals ch state device = (after, rest)) (noError : after.errnum = .none) :
    ch = charOf 'n' ∧ globals.networkReady = true ∧ rest = device ∧
        after = { state with currentDrive := networkDrive } ∨
      ch = charOf 'c' ∧ rest = device ∧ after = { state with currentDrive := cdromDrive } ∨
      ¬ (ch = charOf 'n' ∧ globals.networkReady = true) ∧ ch ≠ charOf 'c' ∧
        ∃ no, safeParseMaxint device = some (no, rest) ∧ after =
          { state with
            currentDrive := no + (if ch = charOf 'h' then 0x80 else 0)
            diskChoice := false } := by
  rw [takeNumber] at takes
  split at takes
  · next network =>
      obtain ⟨rfl, rfl⟩ := Prod.mk.inj takes
      exact .inl ⟨network.1, network.2, rfl, rfl⟩
  · next notNetwork =>
    split at takes
    · next cdrom =>
        obtain ⟨rfl, rfl⟩ := Prod.mk.inj takes
        exact .inr (.inl ⟨cdrom.1, rfl, rfl⟩)
    · next notCdrom =>
      dsimp only at takes
      cases reads : safeParseMaxint device with
      | none =>
          rw [reads] at takes
          obtain ⟨rfl, rfl⟩ := Prod.mk.inj takes
          exact absurd noError (maxintError_ne _)
      | some pair =>
          obtain ⟨no, more⟩ := pair
          rw [reads] at takes
          obtain ⟨rfl, rfl⟩ := Prod.mk.inj takes
          have small := safeParseMaxint_le reads
          have word : (no + if ch = charOf 'h' then 0x80 else 0) % 2 ^ 32 =
              no + if ch = charOf 'h' then 0x80 else 0 := by
            rw [maxint] at small
            split <;> omega
          rw [word]
          exact .inr (.inr ⟨notNetwork, fun isC => notCdrom ⟨isC, by decide⟩, no, rfl, rfl⟩)

/-- What is taken without an error is the name of a drive. -/
theorem takeDrive_names {ch : UInt8} {others device : List UInt8} {after : DeviceState}
    (takes : takeDrive globals state ch others = (after, device)) (noError : after.errnum = .none) :
    ∃ name choice, DriveText globals (ch :: others) name device ∧
      after = { state with currentDrive := name.drive globals, diskChoice := choice } := by
  rw [takeDrive] at takes
  by_cases starts : startsDrive globals ch = true
  · rw [if_pos starts] at takes
    -- without the `d` behind its kind the name leaves an error
    by_cases isD : others.head? = some (charOf 'd')
    · obtain ⟨digits, rfl⟩ := List.head?_eq_some_iff.mp isD
      rw [if_neg fun wrong => wrong isD, List.tail_cons] at takes
      rcases takeNumber_cases takes noError with ⟨rfl, ready, rfl, rfl⟩ | ⟨rfl, rfl, rfl⟩ |
        ⟨notNetwork, notCdrom, no, reads, rfl⟩
      · exact ⟨.network, state.diskChoice, .network ready, rfl⟩
      · exact ⟨.cdrom, state.diskChoice, .cdrom, rfl⟩
      · rcases startsDrive_iff.mp starts with rfl | rfl | network | cdrom
        · exact ⟨.floppy no, false, .floppy reads, rfl⟩
        · exact ⟨.hard no, false, .hard reads, rfl⟩
        · exact absurd network notNetwork
        · exact absurd cdrom notCdrom
    · rw [if_pos isD] at takes
      have error := @takeNumber_error globals { state with errnum := .numberParsing } ch
        others.tail nofun
      rw [takes] at error
      exact absurd noError error
  · rw [if_neg starts] at takes
    rcases takeNumber_cases takes noError with ⟨rfl, ready, _⟩ | ⟨rfl, _⟩ |
      ⟨_, _, no, reads, rfl⟩
    · exact absurd (startsDrive_iff.mpr (.inr (.inr (.inl ⟨rfl, ready⟩)))) starts
    · exact absurd (startsDrive_iff.mpr (.inr (.inr (.inr rfl)))) starts
    · have notH : ch ≠ charOf 'h' := (@isDigit_other globals ch (safeParseMaxint_first reads)).2.1
      rw [if_neg notH]
      exact ⟨.number no, false, .number reads, rfl⟩

/-! ## What `set_device` makes of a partition -/

/-- A letter, or the end, behind a slice. -/
theorem takeLetter_text {more rest : List UInt8} {letter : Option Nat} {no : Nat}
    (reads : LetterText more letter rest) (few : no ≤ 254)
    (slice : state.currentPartition = packedPart no 255) :
    takeLetter state (skipComma more) =
      ({ state with currentPartition := packedPart no (letter.getD 255) },
        charOf ')' :: rest) := by
  have noLetter : ¬ isLetter (charOf ')') = true := by decide
  have same : state = { state with currentPartition := packedPart no 255 } := by rw [← slice]
  cases reads with
  | none =>
      have skip : skipComma (charOf ')' :: rest) = charOf ')' :: rest :=
        skipComma_other (by rw [List.head?_cons]; decide)
      rw [skip, takeLetter, if_neg noLetter]
      exact congrArg (·, _) same
  | comma =>
      rw [skipComma_comma, takeLetter, if_neg noLetter]
      exact congrArg (·, _) same
  | @letter c _ isOne =>
      have skip : skipComma (c :: charOf ')' :: rest) = c :: charOf ')' :: rest := by
        refine skipComma_other fun comma => ?_
        rw [Option.some.inj comma] at isOne
        cases isOne
      rw [skip, takeLetter, if_pos isOne, slice,
        (letterBits_packed isOne).2.2 no few]
      rfl
  | commaLetter isOne =>
      rw [skipComma_comma, takeLetter, if_pos isOne, slice, (letterBits_packed isOne).2.2 no few]
      rfl

/-- What a closing parenthesis behind a slice says about its text. -/
theorem takeLetter_closes {more rest : List UInt8} {after : DeviceState} {no : Nat}
    (takes : takeLetter state (skipComma more) = (after, charOf ')' :: rest)) (few : no ≤ 254)
    (slice : state.currentPartition = packedPart no 255) :
    ∃ letter, LetterText more letter rest ∧
      after = { state with currentPartition := packedPart no (letter.getD 255) } := by
  have same : state = { state with currentPartition := packedPart no 255 } := by rw [← slice]
  have plain : ∀ {text : List UInt8}, takeLetter state text = (after, charOf ')' :: rest) →
      text = charOf ')' :: rest ∧ after = state ∨
        ∃ c, isLetter c = true ∧ text = c :: charOf ')' :: rest ∧
          after = { state with currentPartition := packedPart no (c - charOf 'a').toNat } := by
    intro text takes
    cases text with
    | nil => cases (Prod.mk.inj takes).2
    | cons c others =>
        rw [takeLetter] at takes
        split at takes
        · next isOne =>
            obtain ⟨rfl, rfl⟩ := Prod.mk.inj takes
            rw [slice, (letterBits_packed isOne).2.2 no few]
            exact .inr ⟨c, isOne, rfl, rfl⟩
        · obtain ⟨rfl, text⟩ := Prod.mk.inj takes
          exact .inl ⟨text, rfl⟩
  by_cases comma : more.head? = some (charOf ',')
  · obtain ⟨others, rfl⟩ := List.head?_eq_some_iff.mp comma
    rw [skipComma_comma] at takes
    rcases plain takes with ⟨rfl, rfl⟩ | ⟨c, isOne, rfl, rfl⟩
    · exact ⟨none, .comma, same⟩
    · exact ⟨_, .commaLetter isOne, rfl⟩
  · rw [skipComma_other comma] at takes
    rcases plain takes with ⟨rfl, rfl⟩ | ⟨c, isOne, rfl, rfl⟩
    · exact ⟨none, .none, same⟩
    · exact ⟨_, .letter isOne, rfl⟩

/-- A partition needs a hard disk when it names a slice. -/
def PartName.Fits (drive : Nat) : PartName → Prop
  | .slice _ _ => hasBit7 drive = true
  | _ => True

/-- Behind a comma the partition is taken. -/
theorem afterDrive_comma (noError : state.errnum = .none) (text : List UInt8) :
    afterDrive globals state (charOf ',' :: text) =
      match takePart { state with diskChoice := false, partChoice := .disk } text with
      | .error state => (none, state)
      | .ok (state, device) =>
        settleDevice (closePart globals state device).1 device
          (closePart globals state device).2 := by
  have notParen : ¬ (charOf ',' :: text).head? = some (charOf ')') := by
    rw [List.head?_cons]
    decide
  rw [afterDrive, if_neg fun error => error noError, if_neg notParen, if_pos List.head?_cons]
  rfl

/-- A closing parenthesis behind a partition that is chosen. -/
theorem closePart_chosen (chosen : state.partChoice = .chosen) (rest : List UInt8) :
    closePart globals state (charOf ')' :: rest) = (state, true) := by
  rw [closePart, if_pos List.head?_cons, if_neg (by rw [chosen]; decide)]

/-- The name of a partition is taken: the partition is checked with the drive, or a slice is
refused. -/
theorem afterDrive_text {text rest : List UInt8} {part : PartName}
    (reads : PartText text part rest) (noError : state.errnum = .none)
    (whole : state.currentPartition = packedPart 255 255) :
    ∃ after, after.currentDrive = state.currentDrive ∧
      after.currentPartition = part.partition globals ∧
      (part.Fits state.currentDrive →
        afterDrive globals state text = settleDevice after (charOf ')' :: rest) true) ∧
      (¬ part.Fits state.currentDrive → (afterDrive globals state text).1 = none) := by
  cases reads with
  | whole =>
      refine ⟨{ state with partChoice := .chosen }, rfl, whole, fun _ => ?_,
        fun wrong => absurd trivial wrong⟩
      rw [afterDrive, if_neg fun error => error noError, if_pos List.head?_cons]
  | saved =>
      refine ⟨{ state with
        diskChoice := false
        partChoice := .chosen
        currentPartition := globals.savedPartition }, rfl, rfl, fun _ => ?_,
        fun wrong => absurd trivial wrong⟩
      have noDigit : ¬ isDigit (charOf ')') = true := by decide
      have noLetter : ¬ isLetter (charOf ')') = true := by decide
      rw [afterDrive_comma noError, takePart, if_neg noDigit, if_neg noLetter]
      dsimp only
      rw [closePart, if_pos List.head?_cons, if_pos rfl]
  | @slice text more _ no letter reads few letters =>
      obtain ⟨c, others, rfl⟩ : ∃ c others, text = c :: others := by
        cases text with
        | nil => cases reads
        | cons c others => exact ⟨c, others, rfl⟩
      have taken : ∀ before, takePart before (c :: others) = takeSlice before (c :: others) :=
        fun before => if_pos (safeParseMaxint_first reads)
      refine ⟨{ state with
        diskChoice := false
        partChoice := .chosen
        currentPartition := packedPart no (letter.getD 255) }, rfl, rfl, fun hard => ?_,
        fun soft => ?_⟩
      · have bit : hasBit7 state.currentDrive = true := hard
        have letters := @takeLetter_text
          { state with
            diskChoice := false
            partChoice := .chosen
            currentPartition := packedPart no 255 } more rest letter no letters few rfl
        rw [afterDrive_comma noError, taken, takeSlice]
        dsimp only
        rw [bit, reads]
        dsimp only
        rw [if_neg (by decide), if_neg (by omega), slice_packed, letters]
        dsimp only
        rw [closePart_chosen rfl]
      · have bit : hasBit7 state.currentDrive = false := Bool.eq_false_iff.mpr soft
        rw [afterDrive_comma noError, taken, takeSlice]
        dsimp only
        rw [bit]
        rfl
  | @letter c _ isOne =>
      refine ⟨{ state with
        diskChoice := false
        partChoice := .chosen
        currentPartition := packedPart 255 (c - charOf 'a').toNat }, rfl, rfl, fun _ => ?_,
        fun wrong => absurd trivial wrong⟩
      have noDigit : ¬ isDigit c = true := by
        simp only [isLetter, isDigit, Bool.and_eq_true, decide_eq_true_eq,
          UInt8.le_iff_toNat_le] at isOne ⊢
        have a : (charOf 'a').toNat = 97 := rfl
        have nine : (charOf '9').toNat = 57 := rfl
        omega
      rw [afterDrive_comma noError, takePart, if_neg noDigit, if_pos isOne,
        (letterBits_packed isOne).2.1]
      dsimp only
      rw [closePart_chosen rfl]

/-- A device that is settled has closed its parenthesis and is a sane one. -/
theorem settleDevice_some {device rest : List UInt8} {result : Bool} {after : DeviceState}
    (accepts : settleDevice state device result = (some rest, after)) :
    result = true ∧ device.tail = rest ∧ after = state ∧ state.sanePartition = true := by
  rw [settleDevice] at accepts
  split at accepts
  · cases (Prod.mk.inj accepts).1
  · next sane =>
      split at accepts
      · next closed =>
          obtain ⟨found, rfl⟩ := Prod.mk.inj accepts
          exact ⟨closed, Option.some.inj found, rfl, by simpa using sane⟩
      · cases (Prod.mk.inj accepts).1

/-- What is accepted behind a comma ends with a parenthesis. -/
theorem closePart_some {device rest : List UInt8} {after : DeviceState}
    (accepts : settleDevice (closePart globals state device).1 device
      (closePart globals state device).2 = (some rest, after)) :
    device = charOf ')' :: rest ∧ after.sanePartition = true ∧
      after = if state.partChoice = .disk then
        { state with currentPartition := globals.savedPartition, partChoice := .chosen }
      else state := by
  obtain ⟨closed, tail, rfl, sane⟩ := settleDevice_some accepts
  rw [closePart] at closed sane ⊢
  by_cases paren : device.head? = some (charOf ')')
  · obtain ⟨others, rfl⟩ := List.head?_eq_some_iff.mp paren
    rw [List.tail_cons] at tail
    rw [if_pos paren] at sane ⊢
    refine ⟨by rw [tail], sane, ?_⟩
    split <;> rfl
  · rw [if_neg paren] at closed
    cases closed

/-- What is accepted behind a drive is the name of a partition. -/
theorem afterDrive_accepts {text rest : List UInt8} {after : DeviceState}
    (accepts : afterDrive globals state text = (some rest, after))
    (whole : state.currentPartition = packedPart 255 255) :
    state.errnum = .none ∧ ∃ part, PartText text part rest ∧ part.Fits state.currentDrive ∧
      after.currentDrive = state.currentDrive ∧ after.currentPartition = part.partition globals ∧
      after.sanePartition = true := by
  by_cases error : state.errnum ≠ .none
  · rw [afterDrive, if_pos error] at accepts
    cases (Prod.mk.inj accepts).1
  have noError := not_not.mp error
  have notDisk : PartChoice.chosen ≠ .disk := by decide
  refine ⟨noError, ?_⟩
  by_cases paren : text.head? = some (charOf ')')
  · obtain ⟨others, rfl⟩ := List.head?_eq_some_iff.mp paren
    rw [afterDrive, if_neg error, if_pos paren] at accepts
    obtain ⟨_, rfl, rfl, sane⟩ := settleDevice_some accepts
    exact ⟨.whole, .whole, trivial, rfl, whole, sane⟩
  by_cases comma : text.head? = some (charOf ',')
  · obtain ⟨others, rfl⟩ := List.head?_eq_some_iff.mp comma
    rw [afterDrive_comma noError] at accepts
    cases others with
    | nil =>
        rw [takePart] at accepts
        cases (closePart_some accepts).1
    | cons c others =>
        rw [takePart] at accepts
        by_cases digit : isDigit c = true
        · rw [if_pos digit, takeSlice] at accepts
          dsimp only at accepts
          cases bit : hasBit7 state.currentDrive with
          | false =>
              rw [bit] at accepts
              cases (Prod.mk.inj accepts).1
          | true =>
              rw [bit, if_neg (by decide)] at accepts
              cases reads : safeParseMaxint (c :: others) with
              | none =>
                  rw [reads] at accepts
                  cases (Prod.mk.inj accepts).1
              | some pair =>
                  obtain ⟨no, more⟩ := pair
                  rw [reads] at accepts
                  dsimp only at accepts
                  by_cases many : no > 254
                  · rw [if_pos many] at accepts
                    cases (Prod.mk.inj accepts).1
                  · rw [if_neg many, slice_packed] at accepts
                    dsimp only at accepts
                    generalize takes : takeLetter _ (skipComma more) = taken at accepts
                    obtain ⟨last, device⟩ := taken
                    obtain ⟨rfl, sane, same⟩ := closePart_some accepts
                    obtain ⟨letter, letters, rfl⟩ :=
                      takeLetter_closes takes (Nat.not_lt.mp many) rfl
                    rw [if_neg notDisk] at same
                    rw [same] at sane ⊢
                    exact ⟨_, .slice reads (Nat.not_lt.mp many) letters, bit, rfl, rfl, sane⟩
        · rw [if_neg digit] at accepts
          by_cases isOne : isLetter c = true
          · rw [if_pos isOne, (letterBits_packed isOne).2.1] at accepts
            obtain ⟨rfl, sane, same⟩ := closePart_some accepts
            rw [if_neg notDisk] at same
            rw [same] at sane ⊢
            exact ⟨_, .letter isOne, trivial, rfl, rfl, sane⟩
          · rw [if_neg isOne] at accepts
            obtain ⟨device, sane, same⟩ := closePart_some accepts
            obtain ⟨rfl, rfl⟩ := List.cons.inj device
            rw [if_pos rfl] at same
            rw [same] at sane ⊢
            exact ⟨.saved, .saved, trivial, rfl, rfl, sane⟩
  · rw [afterDrive, if_neg error, if_neg paren, if_neg comma] at accepts
    cases (settleDevice_some accepts).1

/-! ## What `set_device` accepts -/

/-- A text that stops before the drive or behind the letters of its kind. -/
inductive Unfinished (globals : DeviceGlobals) : List UInt8 → Prop where
  | start : Unfinished globals [charOf '(']
  | kind {ch : UInt8} (starts : startsDrive globals ch = true) :
      Unfinished globals [charOf '(', ch]
  | drive {ch : UInt8} (starts : startsDrive globals ch = true) :
      Unfinished globals [charOf '(', ch, charOf 'd']

/-- `set_device` returns the text behind a device, and that is the current one. -/
def Accepts (globals : DeviceGlobals) (text rest : List UInt8) (drive partition : Nat) : Prop :=
  ∃ after, setDevice globals .none text = (some rest, after) ∧ after.currentDrive = drive ∧
    after.currentPartition = partition

/-- The drive of a name is a 32-bit number, -/
theorem DriveName.drive_lt {text rest : List UInt8} {name : DriveName}
    (reads : DriveText globals text name rest) : name.drive globals < 2 ^ 32 := by
  cases reads with
  | saved => exact globals.savedDrive_lt
  | floppy reads | hard reads | number reads =>
      have small := safeParseMaxint_le reads
      simp only [DriveName.drive]
      rw [maxint] at small
      omega
  | network => exact (by decide : networkDrive < 2 ^ 32)
  | cdrom => exact (by decide : cdromDrive < 2 ^ 32)

/-- and so is its partition. -/
theorem PartName.partition_lt {text rest : List UInt8} {part : PartName}
    (reads : PartText text part rest) : part.partition globals < 2 ^ 32 := by
  have packed : ∀ {slice letter : Nat}, slice ≤ 255 → letter ≤ 255 →
      packedPart slice letter < 2 ^ 32 := by
    intro slice letter slices letters
    rw [packedPart]
    omega
  cases reads with
  | whole => exact @packed 255 255 (by decide) (by decide)
  | saved => exact globals.savedPartition_lt
  | @slice _ _ _ no letter _ few letters =>
      refine packed (by omega) ?_
      cases letters with
      | none | comma => decide
      | letter isOne | commaLetter isOne =>
          have few := (letterBits_packed isOne).1
          rw [Option.getD_some]
          omega
  | letter isOne =>
      have few := (letterBits_packed isOne).1
      exact packed (Nat.le_refl 255) (by omega)

/-- Behind the name of a drive `set_device` goes on with the partition. -/
theorem setDevice_of_drive {text middle : List UInt8} {name : DriveName}
    (reads : DriveText globals text name middle) (some_ : middle ≠ []) :
    ∃ before : DeviceState, before.currentDrive = name.drive globals ∧
      before.currentPartition = packedPart 255 255 ∧ before.errnum = .none ∧
      setDevice globals .none (charOf '(' :: text) = afterDrive globals before middle := by
  have paren : ¬ charOf '(' ≠ charOf '(' := fun wrong => wrong rfl
  obtain ⟨ch, others, rfl, ⟨ends, rfl, rfl⟩ | ⟨other, finished, choice, takes⟩⟩ :=
    @takeDrive_text globals (globals.start .none) text middle name reads some_
  · refine ⟨globals.start .none, rfl, rfl, rfl, ?_⟩
    rw [setDevice]
    dsimp only
    rw [if_neg paren, if_pos ends]
  · refine ⟨{ globals.start .none with
      currentDrive := name.drive globals
      diskChoice := choice }, rfl, rfl, rfl, ?_⟩
    rw [setDevice]
    dsimp only
    rw [if_neg paren, if_neg other, if_neg finished, takes]

/-- A name is accepted when it names a slice on a hard disk only and is sane. -/
theorem accepts_of_names {text rest : List UInt8} {name : DeviceName}
    (names : Names globals text name rest) {found : List UInt8} {drive partition : Nat} :
    Accepts globals text found drive partition ↔ found = rest ∧
      drive = name.drive.drive globals ∧ partition = name.part.partition globals ∧
      name.part.Fits drive ∧ (drive = networkDrive ∨ SaneDevice drive partition) := by
  obtain ⟨driveText, partText⟩ := names
  next text middle driveName part =>
  have some_ : middle ≠ [] := by cases partText <;> exact List.cons_ne_nil _ _
  obtain ⟨before, isDrive, whole, noError, goes⟩ := setDevice_of_drive driveText some_
  obtain ⟨after, sameDrive, isPart, fits, misfits⟩ :=
    @afterDrive_text globals _ _ _ _ partText noError whole
  have driveLt := DriveName.drive_lt driveText
  have partLt := @PartName.partition_lt globals _ _ _ partText
  have tests := @sanePartition_iff after (by rw [sameDrive, isDrive]; exact driveLt)
    (by rw [isPart]; exact partLt)
  rw [sameDrive, isDrive, isPart] at tests
  rw [isDrive] at fits misfits
  dsimp only
  constructor
  · rintro ⟨last, accepts, rfl, rfl⟩
    rw [goes] at accepts
    by_cases fit : part.Fits (driveName.drive globals)
    · rw [fits fit] at accepts
      obtain ⟨_, tail, rfl, sane⟩ := settleDevice_some accepts
      rw [sameDrive, isDrive, isPart]
      exact ⟨tail.symm, rfl, rfl, fit, tests.mp sane⟩
    · rw [Prod.ext_iff, misfits fit] at accepts
      cases accepts.1
  · rintro ⟨rfl, rfl, rfl, fit, sane⟩
    refine ⟨after, ?_, sameDrive.trans isDrive, isPart⟩
    rw [goes, fits fit, settleDevice, tests.mpr sane]
    rfl

/-- What is accepted is unfinished or a name. -/
theorem names_of_accepts {text rest : List UInt8} {drive partition : Nat}
    (accepts : Accepts globals text rest drive partition) :
    Unfinished globals text ∧ drive = globals.savedDrive ∧ partition = packedPart 255 255 ∨
      ∃ name, Names globals text name rest := by
  obtain ⟨after, accepts, rfl, rfl⟩ := accepts
  rw [setDevice.eq_def] at accepts
  dsimp only at accepts
  cases text with
  | nil => cases (settleDevice_some accepts).1
  | cons paren text =>
      dsimp only at accepts
      by_cases open_ : paren ≠ charOf '('
      · rw [if_pos open_] at accepts
        cases (settleDevice_some accepts).1
      · rw [if_neg open_] at accepts
        obtain rfl := not_not.mp open_
        cases text with
        | nil =>
            obtain ⟨_, rfl⟩ := Prod.mk.inj accepts
            exact .inl ⟨.start, rfl, rfl⟩
        | cons ch others =>
            dsimp only at accepts
            by_cases ends : ch = charOf ',' ∨ ch = charOf ')'
            · rw [if_pos ends] at accepts
              obtain ⟨_, part, partText, _⟩ := afterDrive_accepts accepts rfl
              exact .inr ⟨⟨.saved, part⟩, .device (.saved ends) partText⟩
            · rw [if_neg ends] at accepts
              by_cases unfinished : startsDrive globals ch = true ∧
                  (others = [] ∨ others = [charOf 'd'])
              · rw [if_pos unfinished] at accepts
                obtain ⟨_, rfl⟩ := Prod.mk.inj accepts
                obtain ⟨starts, rfl | rfl⟩ := unfinished
                · exact .inl ⟨.kind starts, rfl, rfl⟩
                · exact .inl ⟨.drive starts, rfl, rfl⟩
              · rw [if_neg unfinished] at accepts
                generalize takes : takeDrive globals (globals.start .none) ch others = taken
                  at accepts
                obtain ⟨before, device⟩ := taken
                have whole : before.errnum = .none → before.currentPartition = packedPart 255 255 := by
                  intro noError
                  obtain ⟨_, _, _, rfl⟩ := takeDrive_names takes noError
                  rfl
                have noError : before.errnum = .none := by
                  by_contra error
                  rw [afterDrive, if_pos error] at accepts
                  cases (Prod.mk.inj accepts).1
                obtain ⟨name, _, driveText, _⟩ := takeDrive_names takes noError
                obtain ⟨_, part, partText, _⟩ := afterDrive_accepts accepts (whole noError)
                exact .inr ⟨⟨name, part⟩, .device driveText partText⟩

end GrubLegacy.DiskIo
