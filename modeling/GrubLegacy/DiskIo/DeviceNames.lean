import GrubLegacy.DiskIo.DeviceSyntax

/-!
# What the names of devices denote

The printed name of a drive and a partition is read back. The numbers of floppy disks and
hard disks, the network drive and the CD-ROM drive are in one space, in which they overlap.
-/

namespace GrubLegacy.DiskIo

open GrubLegacy.Stage2 CStrings

variable {globals : DeviceGlobals}

/-! ## Printed names -/

/-- What is printed behind the number of the drive. -/
def printedPart (slice letter : Nat) : List UInt8 :=
  (if slice ≠ 255 then charOf ',' :: decimalDigits 10 slice else []) ++
    ((if letter ≠ 255 then [charOf ',', charOf 'a' + UInt8.ofNat letter] else []) ++ [charOf ')'])

/-- What is printed for a device. -/
theorem sprintDevice_eq (drive partition : Nat) :
    sprintDevice drive partition =
      charOf '(' :: (if hasBit7 drive then charOf 'h' else charOf 'f') :: charOf 'd' ::
        (decimalInt (drive &&& 0xFFFFFF7F) ++
          printedPart (partition / 2 ^ 16 % 2 ^ 8) (partition / 2 ^ 8 % 2 ^ 8)) := by
  have sliceMask : partition &&& 0xFF0000 = partition / 2 ^ 16 % 2 ^ 8 * 2 ^ 16 := and_field _ 8 16
  have letterMask : partition &&& 0xFF00 = partition / 2 ^ 8 % 2 ^ 8 * 2 ^ 8 := and_field _ 8 8
  have slice : (partition >>> 16) &&& 0xFF = partition / 2 ^ 16 % 2 ^ 8 := by
    rw [Nat.shiftRight_eq_div_pow]
    exact Nat.and_two_pow_sub_one_eq_mod _ 8
  have letter : (partition >>> 8) &&& 0xFF = partition / 2 ^ 8 % 2 ^ 8 := by
    rw [Nat.shiftRight_eq_div_pow]
    exact Nat.and_two_pow_sub_one_eq_mod _ 8
  have hasSlice : ∀ field : Nat, field * 2 ^ 16 ≠ 0xFF0000 ↔ field ≠ 255 := fun field => by omega
  have hasLetter : ∀ field : Nat, field * 2 ^ 8 ≠ 0xFF00 ↔ field ≠ 255 := fun field => by omega
  have printed : ∀ field < 256, decimalInt field = decimalDigits 10 field := by
    intro field small
    rw [decimalInt, if_pos]
    omega
  rw [sprintDevice, sliceMask, letterMask, slice, letter,
    printed (partition / 2 ^ 16 % 2 ^ 8) (Nat.mod_lt _ (by decide)), printedPart]
  simp only [hasSlice, hasLetter, List.append_assoc]

/-- A printed partition starts with a comma or a parenthesis. -/
theorem printedPart_first (slice letter : Nat) :
    ∃ c rest, printedPart slice letter = c :: rest ∧ (c = charOf ',' ∨ c = charOf ')') := by
  rw [printedPart]
  by_cases noSlice : slice ≠ 255
  · rw [if_pos noSlice]
    exact ⟨_, _, rfl, .inl rfl⟩
  · rw [if_neg noSlice, List.nil_append]
    by_cases noLetter : letter ≠ 255
    · rw [if_pos noLetter]
      exact ⟨_, _, rfl, .inl rfl⟩
    · rw [if_neg noLetter]
      exact ⟨_, _, rfl, .inr rfl⟩

/-- The number of a drive is read up to its partition. -/
theorem safeParseMaxint_printed {no slice letter : Nat} (small : no ≤ maxint) :
    safeParseMaxint (decimalDigits 10 no ++ printedPart slice letter) =
      some (no, printedPart slice letter) := by
  obtain ⟨c, rest, printed, comma | paren⟩ := printedPart_first slice letter
  · rw [printed, comma]
    exact safeParseMaxint_decimal small rfl (by decide) rest
  · rw [printed, paren]
    exact safeParseMaxint_decimal small rfl (by decide) rest

/-- The letter that is printed. -/
theorem printedLetter {letter : Nat} (few : letter < 8) :
    isLetter (charOf 'a' + UInt8.ofNat letter) = true ∧
      (charOf 'a' + UInt8.ofNat letter - charOf 'a').toNat = letter := by
  have all : ∀ k < 8, isLetter (charOf 'a' + UInt8.ofNat k) = true ∧
      (charOf 'a' + UInt8.ofNat k - charOf 'a').toNat = k := by decide
  exact all letter few

/-- A printed partition is the name of one. -/
theorem printedPart_text {slice letter : Nat} (slices : slice ≤ 255)
    (letters : letter = 255 ∨ letter < 8) :
    ∃ part, PartText (printedPart slice letter) part [] ∧
      part.partition globals = packedPart slice letter ∧ part ≠ .saved ∧
      ∀ drive, slice = 255 ∨ hasBit7 drive = true → part.Fits drive := by
  by_cases noSlice : slice = 255
  · rw [printedPart, if_neg (not_not.mpr noSlice), List.nil_append, noSlice]
    rcases letters with noLetter | few
    · rw [if_neg (not_not.mpr noLetter), noLetter]
      exact ⟨.whole, .whole, rfl, (by rintro ⟨⟩), fun _ _ => trivial⟩
    · obtain ⟨isOne, same⟩ := printedLetter few
      rw [if_pos (by omega)]
      exact ⟨_, .letter isOne, by rw [same]; rfl, (by rintro ⟨⟩), fun _ _ => trivial⟩
  · have text : printedPart slice letter =
        charOf ',' :: (decimalDigits 10 slice ++ printedPart 255 letter) := by
      rw [printedPart, printedPart, if_pos noSlice, if_neg (not_not.mpr rfl), List.nil_append,
        List.cons_append]
    have reads := @safeParseMaxint_printed slice 255 letter (by rw [maxint]; omega)
    have few : slice ≤ 254 := by omega
    have fits : ∀ drive, slice = 255 ∨ hasBit7 drive = true → hasBit7 drive = true :=
      fun _ hard => hard.resolve_left noSlice
    rw [text]
    rcases letters with noLetter | small
    · have closes : LetterText (printedPart 255 letter) none [] := by
        rw [noLetter]
        exact .none
      refine ⟨_, .slice reads few closes, ?_, (by rintro ⟨⟩), fits⟩
      rw [noLetter]
      rfl
    · obtain ⟨isOne, same⟩ := printedLetter small
      have closes : LetterText (printedPart 255 letter)
          (some (charOf 'a' + UInt8.ofNat letter - charOf 'a').toNat) [] := by
        rw [printedPart, if_neg (not_not.mpr rfl), if_pos (by omega), List.nil_append]
        exact .commaLetter isOne
      refine ⟨_, .slice reads few closes, ?_, (by rintro ⟨⟩), fits⟩
      rw [same]
      rfl

/-- The drive number that is printed. -/
theorem printedDrive {drive : Nat} (known : drive ≤ 256) (slice letter : Nat) :
    ∃ name, name.drive globals = drive ∧
      DriveText globals ((if hasBit7 drive then charOf 'h' else charOf 'f') :: charOf 'd' ::
        (decimalInt (drive &&& 0xFFFFFF7F) ++ printedPart slice letter)) name
        (printedPart slice letter) := by
  have number : drive &&& 0xFFFFFF7F = drive / 256 * 256 + drive % 128 :=
    without_bit7 (by omega)
  have small : drive / 256 * 256 + drive % 128 ≤ maxint := by
    rw [maxint]
    omega
  have digits : decimalInt (drive &&& 0xFFFFFF7F) =
      decimalDigits 10 (drive / 256 * 256 + drive % 128) := by
    rw [number, decimalInt, if_pos]
    omega
  have reads := @safeParseMaxint_printed _ slice letter small
  rw [digits, hasBit7_eq]
  by_cases hard : drive / 128 % 2 = 1
  · rw [decide_eq_true hard, if_pos rfl]
    refine ⟨.hard _, ?_, .hard reads⟩
    rw [DriveName.drive]
    omega
  · rw [decide_eq_false hard, if_neg Bool.false_ne_true]
    refine ⟨.floppy _, ?_, .floppy reads⟩
    rw [DriveName.drive]
    omega

/-- Printing a device and parsing the text gives the device again. -/
def RoundTrips (globals : DeviceGlobals) (drive partition : Nat) : Prop :=
  ∃ rest, Accepts globals (sprintDevice drive partition) rest drive partition

/-- A sane device is printed and read back. -/
theorem roundTrips_of_sane {drive partition : Nat} (sane : SaneDevice drive partition) :
    RoundTrips globals drive partition := by
  obtain ⟨known, packed, letters, slices⟩ := sane
  have slice : partition / 2 ^ 16 % 2 ^ 8 = partition / 2 ^ 16 := by omega
  obtain ⟨name, isDrive, driveText⟩ := @printedDrive globals drive known (partition / 2 ^ 16)
    (partition / 2 ^ 8 % 2 ^ 8)
  obtain ⟨part, partText, isPart, _, fits⟩ := @printedPart_text globals (partition / 2 ^ 16)
    (partition / 2 ^ 8 % 2 ^ 8) (by omega) letters
  refine ⟨[], ?_⟩
  rw [sprintDevice_eq, slice]
  refine (accepts_of_names (.device driveText partText)).mpr
    ⟨rfl, isDrive.symm, packed.trans isPart.symm, fits _ (slices.imp_right And.right), .inr ?_⟩
  exact ⟨known, packed, letters, slices⟩

/-- A text with a name is not unfinished. -/
theorem Names.finished {text rest : List UInt8} {name : DeviceName}
    (names : Names globals text name rest) : ¬ Unfinished globals text := by
  obtain ⟨driveText, partText⟩ := names
  next text middle drive part =>
  have some_ : middle ≠ [] := by cases partText <;> exact List.cons_ne_nil _ _
  obtain ⟨ch, others, rfl, ⟨ends, _⟩ | ⟨_, finished, _⟩⟩ :=
    @takeDrive_text globals (globals.start .none) text middle drive driveText some_
  · have other : ∀ {ch : UInt8}, startsDrive globals ch = true →
        ¬ (ch = charOf ',' ∨ ch = charOf ')') := by
      intro ch starts ends
      rcases startsDrive_iff.mp starts with rfl | rfl | ⟨rfl, _⟩ | rfl <;> revert ends <;> decide
    intro unfinished
    cases unfinished with
    | kind starts => exact other starts ends
    | drive starts => exact other starts ends
  · intro unfinished
    cases unfinished with
    | kind starts => exact finished ⟨starts, .inl rfl⟩
    | drive starts => exact finished ⟨starts, .inr rfl⟩

/-- What is printed and read back is a name, of the network drive or a sane device. -/
theorem RoundTrips.names {drive partition : Nat} (trips : RoundTrips globals drive partition) :
    ∃ name rest, Names globals (sprintDevice drive partition) name rest ∧
      drive = name.drive.drive globals ∧ partition = name.part.partition globals ∧
      name.part.Fits drive ∧ (drive = networkDrive ∨ SaneDevice drive partition) := by
  obtain ⟨rest, accepts⟩ := trips
  have finished : ¬ Unfinished globals (sprintDevice drive partition) := by
    rw [sprintDevice_eq]
    obtain ⟨c, others, printed, _⟩ := printedPart_first (partition / 2 ^ 16 % 2 ^ 8)
      (partition / 2 ^ 8 % 2 ^ 8)
    rw [printed]
    intro unfinished
    generalize text : decimalInt (drive &&& 0xFFFFFF7F) ++ c :: others = tail at unfinished
    cases unfinished
    exact List.append_ne_nil_of_right_ne_nil _ (List.cons_ne_nil _ _) text
  rcases names_of_accepts accepts with ⟨unfinished, _⟩ | ⟨name, names⟩
  · exact absurd unfinished finished
  · obtain ⟨_, isDrive, isPart, fits, sane⟩ := (accepts_of_names names).mp accepts
    exact ⟨name, rest, names, isDrive, isPart, fits, sane⟩

/-- A partition number that is read back on the network drive: it has no slice, and is a whole
number or has a BSD letter, or the printed letter is a parenthesis, which leaves the saved
partition. -/
def PrintsBack (partition : Nat) : Prop :=
  partition / 2 ^ 16 % 2 ^ 8 = 255 ∧
    (partition / 2 ^ 8 % 2 ^ 8 = 200 ∨ SaneDevice networkDrive partition)

/-- The number of a floppy disk is read behind the letters. -/
theorem DriveText.floppy_digits {digits rest : List UInt8} {name : DriveName}
    (reads : DriveText globals (charOf 'f' :: charOf 'd' :: digits) name rest) :
    ∃ no, safeParseMaxint digits = some (no, rest) := by
  generalize text : charOf 'f' :: charOf 'd' :: digits = whole at reads
  cases reads with
  | saved ends =>
      obtain ⟨rfl, _⟩ := List.cons.inj text
      exact absurd ends (by decide)
  | floppy reads =>
      obtain ⟨rfl⟩ := (List.cons.inj (List.cons.inj text).2).2
      exact ⟨_, reads⟩
  | hard => exact absurd (List.cons.inj text).1 (by decide)
  | number reads =>
      rw [← text] at reads
      exact absurd (safeParseMaxint_first reads) (by decide)
  | network => exact absurd (List.cons.inj text).1 (by decide)
  | cdrom => exact absurd (List.cons.inj text).1 (by decide)

/-- A letter alone is unpacked. -/
theorem packedPart_letter {partition letter : Nat} (packed : partition = packedPart 255 letter)
    (small : letter ≤ 255) : partition / 2 ^ 16 = 255 ∧ partition / 2 ^ 8 % 2 ^ 8 = letter := by
  rw [packedPart] at packed
  omega

/-- No partition, or a letter alone, is sane on any drive that is known. -/
theorem sane_letter {drive letter : Nat} (known : drive ≤ 256) (few : letter = 255 ∨ letter < 8) :
    SaneDevice drive (packedPart 255 letter) := by
  obtain ⟨slice, same⟩ := packedPart_letter rfl (by omega : letter ≤ 255)
  exact ⟨known, by rw [slice, same], by rw [same]; exact few, .inl slice⟩

/-- What a printed partition is read as, behind a drive that has no slices. -/
theorem printsBack_of_text {partition : Nat} {rest : List UInt8} {part : PartName}
    (partText : PartText (printedPart (partition / 2 ^ 16 % 2 ^ 8) (partition / 2 ^ 8 % 2 ^ 8))
      part rest)
    (isPart : partition = part.partition globals) (fits : part.Fits networkDrive)
    (small : partition / 2 ^ 8 % 2 ^ 8 < 256) : PrintsBack partition := by
  have soft : ¬ hasBit7 networkDrive = true := by decide
  have sane : ∀ letter, partition = packedPart 255 letter → letter = 255 ∨ letter < 8 →
      PrintsBack partition := by
    intro letter packed few
    have slice := (packedPart_letter packed (by omega)).1
    exact ⟨by omega, .inr (packed ▸ sane_letter (by decide) few)⟩
  generalize sliceIs : partition / 2 ^ 16 % 2 ^ 8 = slice at partText
  generalize letterIs : partition / 2 ^ 8 % 2 ^ 8 = letter at partText
  by_cases noSlice : slice = 255
  · rw [noSlice] at partText
    by_cases noLetter : letter = 255
    · rw [noLetter] at partText
      generalize text : printedPart 255 255 = whole at partText
      cases partText with
      | whole => exact sane 255 isPart (.inl rfl)
      | saved | slice | letter => exact absurd (List.cons.inj text).1 (by decide)
    · have printed : printedPart 255 letter =
          [charOf ',', charOf 'a' + UInt8.ofNat letter, charOf ')'] := by
        rw [printedPart, if_neg (not_not.mpr rfl), if_pos noLetter]
        rfl
      generalize text : printedPart 255 letter = whole at partText
      rw [printed] at text
      cases partText with
      | whole => exact absurd (List.cons.inj text).1 (by decide)
      | saved =>
          -- the letter is a parenthesis
          have paren : ∀ k < 256, charOf 'a' + UInt8.ofNat k = charOf ')' → k = 200 := by
            decide +kernel
          have is200 := paren letter (letterIs ▸ small)
            (List.cons.inj (List.cons.inj text).2).1
          exact ⟨sliceIs.trans noSlice, .inl (letterIs.trans is200)⟩
      | slice => exact absurd fits soft
      | letter isOne =>
          have few : ∀ k < 256, isLetter (charOf 'a' + UInt8.ofNat k) = true → k < 8 := by
            decide +kernel
          obtain ⟨rfl, _⟩ := List.cons.inj (List.cons.inj text).2
          have few := few letter (letterIs ▸ small) isOne
          rw [(printedLetter few).2] at isPart
          exact sane letter isPart (.inr few)
  · have printed : printedPart slice letter =
        charOf ',' :: (decimalDigits 10 slice ++ printedPart 255 letter) := by
      rw [printedPart, printedPart, if_pos noSlice, if_neg (not_not.mpr rfl), List.nil_append,
        List.cons_append]
    have reads := @safeParseMaxint_printed slice 255 letter (by rw [maxint]; omega)
    generalize text : printedPart slice letter = whole at partText
    rw [printed] at text
    cases partText with
    | whole => exact absurd (List.cons.inj text).1 (by decide)
    | saved =>
        rw [(List.cons.inj text).2] at reads
        exact absurd (safeParseMaxint_first reads) (by decide)
    | slice => exact absurd fits soft
    | @letter c _ isOne =>
        rw [(List.cons.inj text).2] at reads
        have digit := safeParseMaxint_first reads
        simp only [isLetter, isDigit, Bool.and_eq_true, decide_eq_true_eq,
          UInt8.le_iff_toNat_le] at isOne digit
        have a : (charOf 'a').toNat = 97 := rfl
        have nine : (charOf '9').toNat = 57 := rfl
        omega

/-- The saved partition on the network drive. -/
theorem roundTrips_network :
    RoundTrips globals networkDrive globals.savedPartition ↔ PrintsBack globals.savedPartition := by
  have small : networkDrive ≤ 256 := by decide
  have soft : hasBit7 networkDrive = false := by decide
  have number : decimalInt (networkDrive &&& 0xFFFFFF7F) = decimalDigits 10 networkDrive := by
    decide
  have reads := fun slice letter =>
    @safeParseMaxint_printed networkDrive slice letter (by decide)
  have printed := sprintDevice_eq networkDrive globals.savedPartition
  rw [soft, if_neg Bool.false_ne_true, number] at printed
  constructor
  · intro trips
    obtain ⟨name, rest, names, isDrive, isPart, fits, sane⟩ := trips.names
    rw [printed] at names
    generalize text : charOf '(' :: charOf 'f' :: charOf 'd' :: _ = whole at names
    obtain ⟨driveText, partText⟩ := names
    obtain ⟨rfl⟩ := (List.cons.inj text).2
    obtain ⟨no, readsBack⟩ := driveText.floppy_digits
    rw [reads] at readsBack
    obtain ⟨rfl, rfl⟩ := Prod.mk.inj (Option.some.inj readsBack)
    exact printsBack_of_text partText isPart fits (Nat.mod_lt _ (by decide))
  · rintro ⟨noSlice, paren | sane⟩
    · have text : printedPart (globals.savedPartition / 2 ^ 16 % 2 ^ 8)
          (globals.savedPartition / 2 ^ 8 % 2 ^ 8) =
            charOf ',' :: charOf ')' :: [charOf ')'] := by
        rw [noSlice, paren]
        rfl
      have partText : PartText (printedPart (globals.savedPartition / 2 ^ 16 % 2 ^ 8)
          (globals.savedPartition / 2 ^ 8 % 2 ^ 8)) .saved [charOf ')'] := by
        rw [text]
        exact .saved
      refine ⟨[charOf ')'], ?_⟩
      rw [printed]
      exact (accepts_of_names (.device (.floppy (reads _ _)) partText)).mpr
        ⟨rfl, rfl, rfl, trivial, .inl rfl⟩
    · exact roundTrips_of_sane sane

/-! ## What a name denotes -/

/-- A drive: a floppy disk or a hard disk by its number, the network or the CD-ROM drive. -/
inductive Drive where
  | floppy (no : Nat)
  | hard (no : Nat)
  | network
  | cdrom
deriving DecidableEq, Repr

/-- The number of a drive. -/
def Drive.number : Drive → Nat
  | .floppy no => no
  | .hard no => no + 0x80
  | .network => networkDrive
  | .cdrom => cdromDrive

/-- The drive of a number, by bit 7 if it is not one of the special numbers. -/
def driveOf (number : Nat) : Drive :=
  if number = networkDrive then .network
  else if number = cdromDrive then .cdrom
  else if hasBit7 number then .hard (number - 0x80)
  else .floppy number

/-- The drive a name is for. -/
def DriveName.denotes (globals : DeviceGlobals) : DriveName → Drive
  | .saved => driveOf globals.savedDrive
  | .floppy no => .floppy no
  | .hard no => .hard no
  | .number no => driveOf no
  | .network => .network
  | .cdrom => .cdrom

/-- A field of a partition number, with 255 for none. -/
def fieldOf (field : Nat) : Option Nat := if field = 255 then none else some field

/-- The slice and the BSD partition a name is for. -/
def PartName.denotes (globals : DeviceGlobals) : PartName → Option Nat × Option Nat
  | .whole => (none, none)
  | .saved =>
    (fieldOf (globals.savedPartition / 2 ^ 16 % 2 ^ 8),
      fieldOf (globals.savedPartition / 2 ^ 8 % 2 ^ 8))
  | .slice no bsd => (some no, bsd)
  | .letter no => (none, some no)

/-- What a device name is for. -/
def DeviceName.denotes (globals : DeviceGlobals) (name : DeviceName) :
    Drive × Option Nat × Option Nat :=
  (name.drive.denotes globals, name.part.denotes globals)

/-- Different drives with one number. -/
inductive Overlap : Drive → Drive → Prop where
  | floppyHard {no : Nat} (high : 128 ≤ no) : Overlap (.floppy no) (.hard (no - 128))
  | floppyNetwork : Overlap (.floppy 32) .network
  | floppyCdrom : Overlap (.floppy 256) .cdrom
  | hardCdrom : Overlap (.hard 128) .cdrom

/-- The drive of a number has the number. -/
theorem driveOf_number (number : Nat) : (driveOf number).number = number := by
  rw [driveOf, hasBit7_eq]
  split
  · next network => exact network.symm
  · split
    · next cdrom => exact cdrom.symm
    · split
      · next bit =>
          have isSet := of_decide_eq_true bit
          rw [Drive.number]
          omega
      · rfl

/-- A name denotes the drive with its number. -/
theorem DriveName.denotes_number (name : DriveName) :
    (name.denotes globals).number = name.drive globals := by
  cases name with
  | saved => exact driveOf_number _
  | number no => exact driveOf_number no
  | floppy | hard | network | cdrom => rfl

/-- Overlapping drives share a number. -/
theorem Overlap.number {left right : Drive} (overlap : Overlap left right) :
    left ≠ right ∧ left.number = right.number := by
  cases overlap with
  | floppyHard high => exact ⟨nofun, by rw [Drive.number, Drive.number]; omega⟩
  | floppyNetwork | floppyCdrom | hardCdrom => exact ⟨nofun, rfl⟩

/-- Drives with one number are the same or overlap. -/
theorem overlap_of_number {left right : Drive} (same : left.number = right.number) :
    left = right ∨ Overlap left right ∨ Overlap right left := by
  have floppyHard : ∀ {no no' : Nat}, no = no' + 0x80 → Overlap (.floppy no) (.hard no') := by
    rintro _ no' rfl
    have overlap := @Overlap.floppyHard (no' + 128) (by omega)
    rw [Nat.add_sub_cancel] at overlap
    exact overlap
  cases left with
  | floppy no =>
      cases right with
      | floppy no' => exact .inl (congrArg _ same)
      | hard no' => exact .inr (.inl (floppyHard same))
      | network => exact .inr (.inl ((show no = 32 from same) ▸ .floppyNetwork))
      | cdrom => exact .inr (.inl ((show no = 256 from same) ▸ .floppyCdrom))
  | hard no =>
      cases right with
      | floppy no' => exact .inr (.inr (floppyHard same.symm))
      | hard no' => exact .inl (congrArg _ (Nat.add_right_cancel same))
      | network =>
          have number : no + 128 = 32 := same
          omega
      | cdrom =>
          have number : no + 128 = 256 := same
          obtain rfl : no = 128 := by omega
          exact .inr (.inl .hardCdrom)
  | network =>
      cases right with
      | floppy no' => exact .inr (.inr ((show no' = 32 from same.symm) ▸ .floppyNetwork))
      | hard no' =>
          have number : 32 = no' + 128 := same
          omega
      | network => exact .inl rfl
      | cdrom => exact absurd same (by decide)
  | cdrom =>
      cases right with
      | floppy no' => exact .inr (.inr ((show no' = 256 from same.symm) ▸ .floppyCdrom))
      | hard no' =>
          have number : 256 = no' + 128 := same
          obtain rfl : no' = 128 := by omega
          exact .inr (.inr .hardCdrom)
      | network => exact absurd same (by decide)
      | cdrom => exact .inl rfl

/-- The slice and the BSD partition of a name are those of its partition number. -/
theorem PartName.denotes_partition {text rest : List UInt8} {part : PartName}
    (reads : PartText text part rest) :
    part.denotes globals = (fieldOf (part.partition globals / 2 ^ 16 % 2 ^ 8),
      fieldOf (part.partition globals / 2 ^ 8 % 2 ^ 8)) := by
  have packed : ∀ {slice letter : Nat}, slice ≤ 255 → letter ≤ 255 →
      packedPart slice letter / 2 ^ 16 % 2 ^ 8 = slice ∧
        packedPart slice letter / 2 ^ 8 % 2 ^ 8 = letter := by
    intro slice letter slices letters
    rw [packedPart]
    omega
  have named : ∀ {field : Nat}, field < 255 → fieldOf field = some field := fun small =>
    if_neg (by omega)
  have none_ : fieldOf 255 = none := rfl
  cases reads with
  | whole =>
      obtain ⟨slice, letter⟩ := packed (Nat.le_refl 255) (Nat.le_refl 255)
      rw [PartName.partition, slice, letter, none_]
      rfl
  | saved => rfl
  | @slice _ _ _ no letter _ few letters =>
      have small : letter.getD 255 ≤ 255 ∧ fieldOf (letter.getD 255) = letter := by
        cases letters with
        | none | comma => exact ⟨Nat.le_refl 255, rfl⟩
        | letter isOne | commaLetter isOne =>
            have few := (letterBits_packed isOne).1
            exact ⟨by rw [Option.getD_some]; omega, named (by rw [Option.getD_some]; omega)⟩
      obtain ⟨slice, letter⟩ := packed (by omega : no ≤ 255) small.1
      rw [PartName.partition, slice, letter, small.2, named (by omega)]
      rfl
  | @letter c _ isOne =>
      have few := (letterBits_packed isOne).1
      obtain ⟨slice, letter⟩ := packed (Nat.le_refl 255)
        (by omega : (c - charOf 'a').toNat ≤ 255)
      rw [PartName.partition, slice, letter, none_, named (by omega)]
      rfl

/-! ## Names and devices -/

/-- The text is unfinished and the saved drive has no name, or it is for the saved partition
on the network drive and that is not read back. -/
inductive Lost (globals : DeviceGlobals) (text : List UInt8) : Prop where
  | unfinished (stops : Unfinished globals text) (unknown : 256 < globals.savedDrive)
  | network {rest : List UInt8} {name : DeviceName} (names : Names globals text name rest)
      (onNetwork : name.drive.drive globals = networkDrive) (saved : name.part = .saved)
      (changes : ¬ PrintsBack globals.savedPartition)

/-- Only the saved partition is not sane on the network drive. -/
theorem saved_of_network {text rest : List UInt8} {name : DeviceName}
    (names : Names globals text name rest) (fits : name.part.Fits networkDrive)
    (changed : ¬ SaneDevice networkDrive (name.part.partition globals)) : name.part = .saved := by
  obtain ⟨_, partText⟩ := names
  cases partText with
  | whole => exact absurd (sane_letter (by decide) (.inl rfl)) changed
  | saved => rfl
  | slice =>
      have soft : ¬ hasBit7 networkDrive = true := by decide
      exact absurd fits soft
  | letter isOne =>
      exact absurd (sane_letter (by decide) (.inr (letterBits_packed isOne).1)) changed

/-- A device that is accepted is printed and read back, unless its name is lost. -/
theorem roundTrips_iff {text rest : List UInt8} {drive partition : Nat}
    (accepts : Accepts globals text rest drive partition) :
    RoundTrips globals drive partition ↔ ¬ Lost globals text := by
  rcases names_of_accepts accepts with ⟨stops, rfl, rfl⟩ | ⟨name, names⟩
  · have unnamed : ∀ {name rest}, ¬ Names globals text name rest := fun names =>
      names.finished stops
    by_cases known : globals.savedDrive ≤ 256
    · refine iff_of_true (roundTrips_of_sane (sane_letter known (.inl rfl))) ?_
      rintro (⟨_, unknown⟩ | ⟨names, _⟩)
      · omega
      · exact unnamed names
    · refine iff_of_false (fun trips => ?_) fun kept => kept (.unfinished stops (by omega))
      obtain ⟨_, _, _, _, _, _, network | sane⟩ := trips.names
      · rw [networkDrive] at network
        omega
      · exact known sane.known
  · obtain ⟨_, isDrive, isPart, fits, sane⟩ := (accepts_of_names names).mp accepts
    by_cases saneDevice : SaneDevice drive partition
    · refine iff_of_true (roundTrips_of_sane saneDevice) ?_
      rintro (⟨stops, _⟩ | ⟨names', onNetwork, saved, changes⟩)
      · exact names.finished stops
      · obtain ⟨_, isDrive', isPart', _⟩ := (accepts_of_names names').mp accepts
        rw [saved] at isPart'
        rw [isDrive', onNetwork, isPart'] at saneDevice
        have noSlice : globals.savedPartition / 2 ^ 16 = 255 := by
          rcases saneDevice.slice with none | ⟨_, hard⟩
          · exact none
          · exact absurd hard (by decide)
        exact changes ⟨by omega, .inr saneDevice⟩
    · obtain rfl : drive = networkDrive := sane.resolve_right saneDevice
      have saved := saved_of_network names fits (isPart ▸ saneDevice)
      rw [saved] at isPart
      obtain rfl : partition = globals.savedPartition := isPart
      rw [roundTrips_network]
      constructor
      · rintro back (⟨stops, _⟩ | ⟨_, _, _, changes⟩)
        · exact names.finished stops
        · exact changes back
      · intro kept
        by_contra changes
        exact kept (.network names isDrive.symm saved changes)

/-- Different names are different devices, unless their drives overlap and the partition
numbers are the same. -/
theorem different_iff {text other rest rest' : List UInt8} {name name' : DeviceName}
    (names : Names globals text name rest) (names' : Names globals other name' rest') :
    (name.denotes globals ≠ name'.denotes globals →
      (name.drive.drive globals, name.part.partition globals) ≠
        (name'.drive.drive globals, name'.part.partition globals)) ↔
    ¬ ((Overlap (name.drive.denotes globals) (name'.drive.denotes globals) ∨
        Overlap (name'.drive.denotes globals) (name.drive.denotes globals)) ∧
      name.part.partition globals = name'.part.partition globals) := by
  have number := @DriveName.denotes_number globals
  constructor
  · rintro differ ⟨overlaps, samePart⟩
    have apart : name.drive.denotes globals ≠ name'.drive.denotes globals ∧
        (name.drive.denotes globals).number = (name'.drive.denotes globals).number := by
      rcases overlaps with overlap | overlap
      · exact overlap.number
      · exact ⟨overlap.number.1.symm, overlap.number.2.symm⟩
    rw [number, number] at apart
    refine differ (fun same => apart.1 (congrArg Prod.fst same)) ?_
    rw [apart.2, samePart]
  · intro apart differ same
    obtain ⟨sameDrive, samePart⟩ := Prod.mk.inj same
    have parts : name.part.denotes globals = name'.part.denotes globals := by
      obtain ⟨_, partText⟩ := names
      obtain ⟨_, partText'⟩ := names'
      rw [PartName.denotes_partition partText, PartName.denotes_partition partText', samePart]
    rcases @overlap_of_number (name.drive.denotes globals) (name'.drive.denotes globals)
        (by rw [number, number, sameDrive]) with drives | overlaps
    · exact differ (Prod.ext drives parts)
    · exact apart ⟨overlaps, samePart⟩

/-- Device names: what is accepted is printed and parsed again, unless it is lost, and two
names that are accepted are for different devices, unless their drives overlap. -/
theorem device_names {text rest : List UInt8} {drive partition : Nat}
    (accepts : Accepts globals text rest drive partition) :
    (RoundTrips globals drive partition ↔ ¬ Lost globals text) ∧
      ∀ {other rest' : List UInt8} {drive' partition' : Nat},
        Accepts globals other rest' drive' partition' → ∀ {name name' : DeviceName},
        Names globals text name rest → Names globals other name' rest' →
        ((name.denotes globals ≠ name'.denotes globals →
            (drive, partition) ≠ (drive', partition')) ↔
          ¬ ((Overlap (name.drive.denotes globals) (name'.drive.denotes globals) ∨
              Overlap (name'.drive.denotes globals) (name.drive.denotes globals)) ∧
            name.part.partition globals = name'.part.partition globals)) := by
  refine ⟨roundTrips_iff accepts, ?_⟩
  intro other rest' drive' partition' accepts' name name' names names'
  obtain ⟨_, rfl, rfl, _⟩ := (accepts_of_names names).mp accepts
  obtain ⟨_, rfl, rfl, _⟩ := (accepts_of_names names').mp accepts'
  exact different_iff names names'

/-- The first partition of the first hard disk is the saved one, and there is a network. -/
def firstPartition : DeviceGlobals := ⟨0x80, 0x00FFFF, true, by decide, by decide⟩

/-- A BSD partition of the second slice is printed and read back. -/
theorem device_names_slice :
    RoundTrips firstPartition 0x80 0x0101FF := by
  have accepts : Accepts firstPartition (ascii "(hd0,1,b)/boot") (ascii "/boot") 0x80 0x0101FF :=
    ⟨_, rfl, rfl, rfl⟩
  refine (device_names accepts).1.mpr ?_
  rintro (⟨_, unknown⟩ | ⟨names, onNetwork, _⟩)
  · exact absurd unknown (by decide)
  · obtain ⟨_, isDrive, _⟩ := (accepts_of_names names).mp accepts
    exact absurd (isDrive.trans onNetwork) (by decide)

/-- Floppy disk 128 and the first hard disk are accepted as the same device. -/
theorem device_names_overlap :
    Accepts firstPartition (ascii "(fd128)") [] 0x80 0xFFFFFF ∧
      Accepts firstPartition (ascii "(hd0)") [] 0x80 0xFFFFFF ∧
      Names firstPartition (ascii "(fd128)") ⟨.floppy 128, .whole⟩ [] ∧
      Names firstPartition (ascii "(hd0)") ⟨.hard 0, .whole⟩ [] ∧
      DeviceName.denotes firstPartition ⟨.floppy 128, .whole⟩ ≠
        DeviceName.denotes firstPartition ⟨.hard 0, .whole⟩ :=
  ⟨⟨_, rfl, rfl, rfl⟩, ⟨_, rfl, rfl, rfl⟩,
    .device (.floppy (show safeParseMaxint (ascii "128)") = some (128, ascii ")") from rfl)) .whole,
    .device (.hard (show safeParseMaxint (ascii "0)") = some (0, ascii ")") from rfl)) .whole,
    by decide⟩

end GrubLegacy.DiskIo
