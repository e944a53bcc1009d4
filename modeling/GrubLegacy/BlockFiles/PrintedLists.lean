import GrubLegacy.BlockFiles.BlocklistCommand

/-!
# What the blocklist command prints

An entry has a plus or a bracket, and between two entries there is a comma. In what the
command prints the commas that are missing can be counted: there is one too few for each
time it prints something but the first.
-/

namespace GrubLegacy.BlockFiles

open Base Stage2 DiskIo CStrings

/-! ## Numbers -/

/-- A character that is no part of a number. -/
structure NotNumeral (c : UInt8) : Prop where
  decimal : digitOf 10 c = none
  hexadecimal : digitOf 16 c = none
  marker : c ≠ charOf 'x' ∧ c ≠ charOf 'X'

/-- A plus sign is in no numeral, -/
theorem notNumeral_plus : NotNumeral (charOf '+') := ⟨rfl, rfl, by decide⟩

/-- nor is a bracket, -/
theorem notNumeral_bracket : NotNumeral (charOf '[') := ⟨rfl, rfl, by decide⟩

/-- a comma, -/
theorem notNumeral_comma : NotNumeral (charOf ',') := ⟨rfl, rfl, by decide⟩

/-- or a minus sign. -/
theorem notNumeral_minus : NotNumeral (charOf '-') := ⟨rfl, rfl, by decide⟩

/-- What is no digit is not among digits. -/
theorem notMem_digits {mult : Nat} {c : UInt8} (other : digitOf mult c = none)
    {text : List UInt8} {digits : List Nat} (denotes : text.map (digitOf mult) = digits.map some) :
    c ∉ text := by
  intro member
  have isDigit : digitOf mult c ∈ digits.map some := by
    rw [← denotes]
    exact List.mem_map_of_mem member
  rw [other] at isDigit
  simp at isDigit

/-- And not in a numeral, with its prefix. -/
theorem notMem_numeral {c : UInt8} (other : NotNumeral c) {text : List UInt8} {value : Nat}
    (numeral : Numeral text value) : c ∉ text := by
  cases numeral with
  | decimal _ denotes => exact notMem_digits other.decimal denotes
  | hexadecimal isX _ denotes =>
      intro member
      rcases List.mem_cons.mp member with rfl | member
      · exact absurd other.decimal (by decide)
      · rcases List.mem_cons.mp member with rfl | member
        · exact isX.elim other.marker.1 other.marker.2
        · exact notMem_digits other.hexadecimal denotes member

/-- Nor in the digits that are printed, -/
theorem notMem_decimalDigits {c : UInt8} (other : NotNumeral c) (count num : Nat) :
    c ∉ decimalDigits count num := by
  intro member
  obtain ⟨digit, few, rfl⟩ := decimalDigits_digits member
  have isDigit := other.decimal
  rw [digitOf_decimalDigit few] at isDigit
  cases isDigit

/-- The last digit of a negative number may be the character behind the digits. -/
theorem notMem_negativeDigits {c : UInt8} (other : NotNumeral c) (notColon : c ≠ charOf ':')
    (nval : Nat) : c ∉ negativeDigits nval := by
  have last : c ≠ decimalDigit (nval % 10) + 1 := by
    rintro rfl
    have few := Nat.mod_lt nval (by decide : 10 > 0)
    generalize nval % 10 = digit at few other notColon
    rcases Nat.lt_or_ge digit 9 with less | nine
    · have isDigit := digitOf_decimalDigit (show digit + 1 < 10 by omega)
      have next : decimalDigit digit + 1 = decimalDigit (digit + 1) := by
        interval_cases digit <;> rfl
      rw [← next, other.decimal] at isDigit
      cases isDigit
    · obtain rfl : digit = 9 := by omega
      exact notColon rfl
  rw [negativeDigits, List.mem_append, List.mem_singleton, not_or]
  refine ⟨?_, last⟩
  split
  · exact List.not_mem_nil
  · exact notMem_decimalDigits other _ _

/-- nor in a printed number, but for its sign and the colon of a negative one. -/
theorem notMem_printInt {c : UInt8} (other : NotNumeral c) (notMinus : c ≠ charOf '-')
    (notColon : c ≠ charOf ':') (value : Int) : c ∉ printInt value := by
  rw [printInt, decimalInt]
  split
  · exact notMem_decimalDigits other _ _
  · simp [notMinus, notMem_negativeDigits other notColon]

/-- At least one digit is printed. -/
theorem decimalDigits_ne_nil (num : Nat) : decimalDigits 10 num ≠ [] := by
  simp [decimalDigits]

/-- A printed number denotes itself only. -/
theorem numeral_decimalDigits {num value : Nat} (small : num < 2 ^ 31)
    (numeral : Numeral (decimalDigits 10 num) value) : value = num := by
  generalize isText : decimalDigits 10 num = text at numeral
  cases numeral with
  | @decimal text digits some_ denotes =>
      have parses : parseDigits 10 0 (decimalDigits 10 num ++ []) = some (num, []) :=
        parseDigits_decimal (by omega) (by rw [maxint]; omega) (by decide) []
      rw [isText, List.append_nil] at parses
      obtain ⟨read, others, split, denotes', isValue⟩ := parseDigits_denotes parses
      rw [List.append_nil] at split
      rw [← split, denotes] at denotes'
      have same : digits = others := List.map_injective_iff.mpr (Option.some_injective _) denotes'
      rw [isValue, same, digitsValue]
  | @hexadecimal x text digits isX some_ denotes =>
      exfalso
      have member : x ∈ decimalDigits 10 num := by
        rw [isText]
        simp
      obtain ⟨digit, few, rfl⟩ := decimalDigits_digits member
      have isDigit := digitOf_decimalDigit few
      rcases isX with isX | isX
      · rw [isX] at isDigit
        cases isDigit
      · rw [isX] at isDigit
        cases isDigit

/-- A printed number that is a numeral means the number it was printed from. -/
theorem numeral_printInt {v : Int} {value : Nat} (numeral : Numeral (printInt v) value) :
    value = toUInt32 v := by
  rw [printInt, decimalInt] at numeral
  split at numeral
  · next small => exact numeral_decimalDigits small numeral
  · exact absurd List.mem_cons_self (notMem_numeral notNumeral_minus numeral)

/-- And a number that is not negative is printed as one. -/
theorem numeral_of_nat {value : Nat} (small : value < 2 ^ 31) : Numeral (printInt value) value := by
  have parses : safeParseMaxint (decimalDigits 10 value ++ [charOf ',']) =
      some (value, [charOf ',']) :=
    safeParseMaxint_decimal (by rw [maxint]; omega) rfl (by decide) []
  obtain ⟨read, split, denotes⟩ := safeParseMaxint_numeral parses
  rw [printInt, toUInt32_of_range (by omega), decimalInt, if_pos small]
  rw [List.append_cancel_right split]
  exact denotes

/-! ## Entries and commas -/

/-- The character begins the second part of an entry. -/
def isMark (c : UInt8) : Bool := c = charOf '+' || c = charOf '['

/-- How many entries a text has. -/
def marks (text : List UInt8) : Nat := text.countP isMark

/-- And how many commas. -/
def commas (text : List UInt8) : Nat := text.count (charOf ',')

section Counts

variable {text text' rest : List UInt8} {value : Nat} {v : Int} {entry : ListEntry}
  {entries : List ListEntry}

/-- No text has no marks, -/
@[simp] theorem marks_nil : marks [] = 0 := rfl

/-- and no commas. -/
@[simp] theorem commas_nil : commas [] = 0 := rfl

/-- Marks of two texts add up, -/
@[simp] theorem marks_append : marks (text ++ text') = marks text + marks text' :=
  List.countP_append

/-- and so do their commas. -/
@[simp] theorem commas_append : commas (text ++ text') = commas text + commas text' :=
  List.count_append

/-- A character in front counts if it is a mark, -/
@[simp] theorem marks_cons (c : UInt8) :
    marks (c :: text) = marks text + if isMark c then 1 else 0 :=
  List.countP_cons

/-- or a comma. -/
@[simp] theorem commas_cons (c : UInt8) :
    commas (c :: text) = commas text + if c = charOf ',' then 1 else 0 := by
  simp [commas, List.count_cons]

/-- A text without plus signs and brackets has no marks. -/
theorem marks_eq_zero (plus : charOf '+' ∉ text) (bracket : charOf '[' ∉ text) :
    marks text = 0 := by
  apply List.countP_eq_zero.mpr
  intro c member isOne
  simp only [isMark, Bool.or_eq_true, decide_eq_true_eq] at isOne
  rcases isOne with rfl | rfl
  · exact plus member
  · exact bracket member

/-- A printed number has no mark, -/
@[simp] theorem marks_printInt : marks (printInt v) = 0 :=
  marks_eq_zero (notMem_printInt notNumeral_plus (by decide) (by decide) v)
    (notMem_printInt notNumeral_bracket (by decide) (by decide) v)

/-- and no comma. -/
@[simp] theorem commas_printInt : commas (printInt v) = 0 :=
  List.count_eq_zero.mpr (notMem_printInt notNumeral_comma (by decide) (by decide) v)

/-- A numeral has no mark, -/
theorem marks_numeral (numeral : Numeral text value) : marks text = 0 :=
  marks_eq_zero (notMem_numeral notNumeral_plus numeral) (notMem_numeral notNumeral_bracket numeral)

/-- and no comma. -/
theorem commas_numeral (numeral : Numeral text value) : commas text = 0 :=
  List.count_eq_zero.mpr (notMem_numeral notNumeral_comma numeral)

/-- A printed run has one mark, its plus sign, -/
@[simp] theorem marks_printRun (start count : Int) : marks (printRun start count) = 1 := by
  simp [printRun, isMark]

/-- and no comma. -/
@[simp] theorem commas_printRun (start count : Int) : commas (printRun start count) = 0 := by
  simp [printRun, charOf]

/-- A printed part has one mark, its bracket, -/
@[simp] theorem marks_printPart (sector first last : Int) :
    marks (printPart sector first last) = 1 := by
  simp [printPart, isMark, charOf]

/-- and no comma. -/
@[simp] theorem commas_printPart (sector first last : Int) :
    commas (printPart sector first last) = 0 := by
  simp [printPart, charOf]

/-- A segment has a plus and nothing else of these. -/
theorem listsSegment_counts {segment : Segment} (lists : ListsSegment text segment) :
    marks text = 1 ∧ commas text = 0 ∧ charOf '[' ∉ text := by
  obtain ⟨start, length, rfl, startIs, lengthIs⟩ := lists.parts
  have noBracket : (91 : UInt8) ∉ length := notMem_numeral notNumeral_bracket lengthIs
  rcases startIs with ⟨rfl, _⟩ | startIs
  · simp [marks_numeral lengthIs, commas_numeral lengthIs, noBracket, isMark, charOf]
  · have noBracket' : (91 : UInt8) ∉ start := notMem_numeral notNumeral_bracket startIs
    simp [marks_numeral lengthIs, commas_numeral lengthIs, marks_numeral startIs,
      commas_numeral startIs, noBracket, noBracket', isMark, charOf]

/-- The text of an entry has one mark and no comma, as what is printed for it. -/
theorem entryText_counts (isEntry : EntryText text entry) : marks text = 1 ∧ commas text = 0 := by
  cases isEntry with
  | run lists =>
      obtain ⟨one, none, _⟩ := listsSegment_counts lists
      exact ⟨one, none⟩
  | part isSector isFirst isLast =>
      simp [marks_numeral isSector, marks_numeral isFirst, marks_numeral isLast,
        commas_numeral isSector, commas_numeral isFirst, commas_numeral isLast, isMark, charOf]

/-- A list has a mark for each entry, and a comma less. -/
theorem denotes_counts (denotes : DenotesEntries text entries) :
    marks text = entries.length ∧ commas text = entries.length - 1 := by
  induction denotes with
  | nil => simp
  | last isEntry => simpa using entryText_counts isEntry
  | more isEntry _ some_ ih =>
      obtain ⟨one, none⟩ := entryText_counts isEntry
      have positive := List.length_pos_iff.mpr some_
      simp only [marks_append, marks_cons, commas_append, commas_cons, one, none, ih,
        List.length_cons]
      refine ⟨?_, ?_⟩
      · simp [isMark, charOf, Nat.add_comm]
      · simp
        omega

/-- The first entry is what stands before the first comma. -/
theorem denotes_first (denotes : DenotesEntries text (entry :: entries)) :
    EntryText (text.takeWhile (· ≠ charOf ',')) entry := by
  have noComma : ∀ {text}, EntryText text entry → ∀ c ∈ text, (c ≠ charOf ',' : Bool) = true := by
    intro text isEntry c member
    have absent := List.count_eq_zero.mp (entryText_counts isEntry).2
    have other : c ≠ charOf ',' := by
      rintro rfl
      exact absent member
    simpa using other
  cases denotes with
  | last isEntry => rwa [List.takeWhile_eq_self_iff.mpr (noComma isEntry)]
  | more isEntry _ _ =>
      rw [List.takeWhile_append_of_pos (noComma isEntry)]
      simpa using isEntry

/-- A text splits in one way before a character. -/
theorem append_cons_inj {front front' back back' : List UInt8} {c : UInt8} (absent : c ∉ front)
    (absent' : c ∉ front') (same : front ++ c :: back = front' ++ c :: back') :
    front = front' ∧ back = back' := by
  induction front generalizing front' with
  | nil =>
      cases front' with
      | nil => exact ⟨rfl, (List.cons.inj same).2⟩
      | cons d front' =>
          obtain ⟨rfl, _⟩ := List.cons.inj same
          exact absurd List.mem_cons_self absent'
  | cons d front ih =>
      cases front' with
      | nil =>
          obtain ⟨rfl, _⟩ := List.cons.inj same
          exact absurd List.mem_cons_self absent
      | cons d' front' =>
          obtain ⟨rfl, tails⟩ := List.cons.inj same
          obtain ⟨rfl, rfl⟩ := ih (fun member => absent (List.mem_cons_of_mem _ member))
            (fun member => absent' (List.mem_cons_of_mem _ member)) tails
          exact ⟨rfl, rfl⟩

/-- Something is printed for every number. -/
theorem printInt_ne_nil (v : Int) : printInt v ≠ [] := by
  rw [printInt, decimalInt]
  split
  · exact decimalDigits_ne_nil _
  · simp

/-- A printed run is the entry of its numbers. -/
theorem entryText_printRun {start count : Int} (isEntry : EntryText (printRun start count) entry) :
    entry = .run (toUInt32 start, toUInt32 count) := by
  have noPlus : ∀ v, charOf '+' ∉ printInt v := notMem_printInt notNumeral_plus (by decide) (by decide)
  generalize isText : printRun start count = text at isEntry
  cases isEntry with
  | @run _ segment lists =>
      obtain ⟨startText, lengthText, rfl, startIs, lengthIs⟩ := lists.parts
      have absent : charOf '+' ∉ startText := by
        rcases startIs with ⟨rfl, _⟩ | startIs
        · simp
        · exact notMem_numeral notNumeral_plus startIs
      obtain ⟨rfl, rfl⟩ := append_cons_inj (noPlus start) absent isText
      have startIs := startIs.resolve_left fun empty => printInt_ne_nil _ empty.1
      rw [← numeral_printInt startIs, ← numeral_printInt lengthIs]
  | part isSector isFirst isLast =>
      exfalso
      have bracket : charOf '[' ∈ printRun start count := by
        rw [isText]
        simp
      have noBracket : ∀ v, charOf '[' ∉ printInt v :=
        notMem_printInt notNumeral_bracket (by decide) (by decide)
      rw [printRun, List.mem_append, List.mem_cons] at bracket
      rcases bracket with member | isPlus | member
      · exact noBracket _ member
      · exact absurd isPlus (by decide)
      · exact noBracket _ member

/-- A printed range of bytes is one of the same sector. -/
theorem entryText_printPart {sector first last : Int}
    (isEntry : EntryText (printPart sector first last) entry) :
    ∃ first last, entry = .part (toUInt32 sector) first last := by
  generalize isText : printPart sector first last = text at isEntry
  cases isEntry with
  | run lists =>
      exfalso
      have bracket : charOf '[' ∈ printPart sector first last := by simp [printPart]
      rw [isText] at bracket
      exact (listsSegment_counts lists).2.2 bracket
  | @part sectorText firstText lastText value first' last' isSector isFirst isLast =>
      obtain ⟨rfl, _⟩ := append_cons_inj (notMem_printInt notNumeral_bracket (by decide) (by decide) sector)
        (notMem_numeral notNumeral_bracket isSector) isText
      exact ⟨first', last', by rw [← numeral_printInt isSector]⟩

end Counts

/-! ## One report -/

/-- A report of `rawread`: a part of a sector behind the start of the partition. -/
structure ReportOf (sectorSize partStart : Int) (report : SectorReport) : Prop where
  behind : partStart ≤ report.sector
  sector_lt : report.sector < 2 ^ 31
  offset_nonneg : 0 ≤ report.offset
  length_pos : 0 < report.length
  inside : report.offset + report.length ≤ sectorSize

/-- Nothing is collected. -/
structure Idle (context : BlocklistContext) : Prop where
  numSectors : context.numSectors = 0
  numEntries : context.numEntries = 0

/-- A sector is collected that is not printed yet. -/
structure Pending (context : BlocklistContext) : Prop where
  numSectors : context.numSectors = 1
  numEntries : context.numEntries = 0
  lastLength : 0 < context.lastLength
  nonneg : 0 ≤ context.startSector
  small : context.startSector < 2 ^ 31

section Steps

variable {sectorSize partStart : Int} {context : BlocklistContext} {report : SectorReport}

def stepText (sectorSize partStart : Int) (context : BlocklistContext) (report : SectorReport) :
    List UInt8 :=
  (blocklistReadHelper sectorSize partStart { context, printed := [] } report).printed

def stepContext (sectorSize partStart : Int) (context : BlocklistContext) (report : SectorReport) :
    BlocklistContext :=
  (blocklistReadHelper sectorSize partStart { context, printed := [] } report).context

/-- The helper adds to what is printed. -/
theorem blocklistReadHelper_eq (listing : Listing) :
    blocklistReadHelper sectorSize partStart listing report =
      { context := stepContext sectorSize partStart listing.context report
        printed := listing.printed ++ stepText sectorSize partStart listing.context report } := by
  simp only [stepContext, stepText, blocklistReadHelper, collect]
  split_ifs <;> simp

/-- What is printed of a collected sector when the next one does not go on with it. -/
def pieceText (sectorSize partStart : Int) (context : BlocklistContext) : List UInt8 :=
  if context.lastLength = sectorSize then printRun (context.startSector - partStart) 1
  else printPart (context.startSector - partStart) 0 context.lastLength

/-- What is printed of a pending run is its piece. -/
theorem Pending.printCollected (pending : Pending context) :
    printCollected sectorSize partStart context = pieceText sectorSize partStart context := by
  simp [BlockFiles.printCollected, pieceText, pending.numEntries, pending.numSectors, separator]

/-- The report goes on with the sector that is collected. -/
def GoesOn (sectorSize : Int) (context : BlocklistContext) (report : SectorReport) : Prop :=
  context.startSector + 1 = report.sector ∧ report.offset = 0 ∧ context.lastLength = sectorSize

/-- Behind nothing that is pending, a part of a sector is printed at once. -/
theorem step_idle_part (idle : Idle context) (part : 0 < report.offset) :
    stepText sectorSize partStart context report = printPart (report.sector - partStart)
      report.offset (report.offset + report.length) ∧
        stepContext sectorSize partStart context report = context := by
  simp [stepText, stepContext, blocklistReadHelper, idle.numSectors, collect, part,
    BlocklistContext.field, numEntriesField, idle.numEntries, separator]

/-- The start of a sector is kept back, and the run it begins is pending. -/
theorem step_idle_start (idle : Idle context) (isReport : ReportOf sectorSize partStart report)
    (nonneg : 0 ≤ partStart) (start : report.offset = 0) :
    stepText sectorSize partStart context report = [] ∧
      Pending (stepContext sectorSize partStart context report) ∧
        (stepContext sectorSize partStart context report).startSector = report.sector ∧
          (stepContext sectorSize partStart context report).lastLength = report.length := by
  have behind := isReport.behind
  simp only [stepText, stepContext, blocklistReadHelper, idle.numSectors, collect, start,
    lt_irrefl, if_false, true_and, and_true]
  exact ⟨rfl, idle.numEntries, isReport.length_pos, by dsimp only; omega, isReport.sector_lt⟩

/-- The test of the helper is whether the report goes on with the run. -/
theorem goesOn_iff (pending : Pending context) (isReport : ReportOf sectorSize partStart report)
    (nonneg : 0 ≤ partStart) :
    (toInt32 (context.startSector + context.numSectors) = report.sector ∧ report.offset = 0 ∧
      context.lastLength = sectorSize) ↔ GoesOn sectorSize context report := by
  have small := pending.small
  have behind := isReport.behind
  have sector_lt := isReport.sector_lt
  have low := pending.nonneg
  have next : toInt32 (context.startSector + 1) = report.sector ↔
      context.startSector + 1 = report.sector := by
    unfold toInt32
    omega
  rw [GoesOn, pending.numSectors, next]

/-- A report that goes on prints nothing and keeps the run, with its own length as the last. -/
theorem step_goesOn (pending : Pending context) (isReport : ReportOf sectorSize partStart report)
    (nonneg : 0 ≤ partStart) (goesOn : GoesOn sectorSize context report) :
    stepText sectorSize partStart context report = [] ∧
      stepContext sectorSize partStart context report =
        { context with lastLength := report.length } := by
  simp only [stepText, stepContext, blocklistReadHelper, pending.numSectors, gt_iff_lt,
    zero_lt_one, if_true]
  rw [← pending.numSectors, if_pos ((goesOn_iff pending isReport nonneg).mpr goesOn)]
  exact ⟨rfl, rfl⟩

/-- The run is still pending with the new length. -/
theorem Pending.longer (pending : Pending context) (isReport : ReportOf sectorSize partStart report) :
    Pending { context with lastLength := report.length } :=
  ⟨pending.numSectors, pending.numEntries, isReport.length_pos, pending.nonneg, pending.small⟩

/-- A part that breaks the run prints the run and itself, and leaves nothing pending. -/
theorem step_breaks_part (pending : Pending context)
    (isReport : ReportOf sectorSize partStart report) (nonneg : 0 ≤ partStart)
    (breaks : ¬ GoesOn sectorSize context report) (part : 0 < report.offset) :
    stepText sectorSize partStart context report = pieceText sectorSize partStart context ++
      charOf ',' :: printPart (report.sector - partStart) report.offset
        (report.offset + report.length) ∧
          Idle (stepContext sectorSize partStart context report) := by
  have filled : context.lastLength ≠ 0 := by
    have lastLength := pending.lastLength
    omega
  simp only [stepText, stepContext, blocklistReadHelper, pending.numSectors, gt_iff_lt,
    zero_lt_one, if_true]
  rw [← pending.numSectors, if_neg (fun same => breaks ((goesOn_iff pending isReport nonneg).mp same)),
    pending.printCollected]
  simp only [collect, gt_iff_lt, part, if_true]
  refine ⟨?_, rfl, pending.numEntries⟩
  simp [BlocklistContext.field, numEntriesField, separator, filled]

/-- A start that breaks the run prints it, and another run is pending. -/
theorem step_breaks_start (pending : Pending context)
    (isReport : ReportOf sectorSize partStart report) (nonneg : 0 ≤ partStart)
    (breaks : ¬ GoesOn sectorSize context report) (start : report.offset = 0) :
    stepText sectorSize partStart context report = pieceText sectorSize partStart context ∧
      Pending (stepContext sectorSize partStart context report) := by
  have behind := isReport.behind
  simp only [stepText, stepContext, blocklistReadHelper, pending.numSectors, gt_iff_lt,
    zero_lt_one, if_true]
  rw [← pending.numSectors, if_neg (fun same => breaks ((goesOn_iff pending isReport nonneg).mp same)),
    pending.printCollected]
  simp only [collect, gt_iff_lt, start, lt_irrefl, if_false, List.nil_append, true_and]
  exact ⟨rfl, pending.numEntries, isReport.length_pos, by dsimp only; omega, isReport.sector_lt⟩

end Steps

/-! ## All reports of a file -/

/-- What is printed at the end. -/
def finalText (partStart : Int) (context : BlocklistContext) : List UInt8 :=
  if context.numSectors > 0 then
    separator context.numEntries ++
      printRun (context.startSector - partStart) context.numSectors
  else []

/-- The list that is printed for some reports. -/
def runText (sectorSize partStart : Int) (context : BlocklistContext) :
    List SectorReport → List UInt8
  | [] => finalText partStart context
  | report :: reports =>
    stepText sectorSize partStart context report ++
      runText sectorSize partStart (stepContext sectorSize partStart context report) reports

section Runs

variable {sectorSize partStart : Int} {context : BlocklistContext} {report : SectorReport}
  {reports : List SectorReport}

/-- After all reports, what is printed and kept back is the text of the run through them. -/
theorem foldl_printed (listing : Listing) :
    (reports.foldl (blocklistReadHelper sectorSize partStart) listing).printed ++
        finalText partStart (reports.foldl (blocklistReadHelper sectorSize partStart) listing).context =
      listing.printed ++ runText sectorSize partStart listing.context reports := by
  induction reports generalizing listing with
  | nil => rfl
  | cons report reports ih =>
      rw [List.foldl_cons, ih, blocklistReadHelper_eq, runText]
      simp

/-- A file that is read is printed as the device and the list. -/
theorem blocklistFunc_printed {use : BlocklistUse} (opens : use.opens = true)
    (completes : use.readValue ≠ 0) :
    (blocklistFunc context use).printed = sprintDevice use.drive use.partition ++
      (runText use.sectorSize use.partStart context use.reports ++ [charOf '\n']) := by
  have listed := @foldl_printed use.sectorSize use.partStart use.reports
    { context, printed := sprintDevice use.drive use.partition }
  simp only [blocklistFunc, opens, if_true, completes, if_false]
  rw [← List.append_assoc, ← listed, finalText]
  split
  · simp
  · simp

/-- Nothing is kept back without a pending run. -/
theorem finalText_idle (idle : Idle context) : finalText partStart context = [] := by
  simp [finalText, idle.numSectors]

/-- Behind the last report the pending run is printed as one sector. -/
theorem finalText_pending (pending : Pending context) :
    finalText partStart context = printRun (context.startSector - partStart) 1 := by
  simp [finalText, pending.numSectors, pending.numEntries, separator]

/-- A piece has one mark, -/
@[simp] theorem marks_pieceText : marks (pieceText sectorSize partStart context) = 1 := by
  rw [pieceText]
  split
  · exact marks_printRun _ _
  · exact marks_printPart _ _ _

/-- and no comma. -/
@[simp] theorem commas_pieceText : commas (pieceText sectorSize partStart context) = 0 := by
  rw [pieceText]
  split
  · exact commas_printRun _ _
  · exact commas_printPart _ _ _

/-- A comma is not a mark. -/
@[simp] theorem isMark_comma : isMark (charOf ',') = false := rfl

/-- Each time something is printed there is an entry more, and no comma before it. -/
theorem surplus (nonneg : 0 ≤ partStart)
    (areReports : ∀ report ∈ reports, ReportOf sectorSize partStart report) :
    (Pending context → commas (runText sectorSize partStart context reports) <
      marks (runText sectorSize partStart context reports)) ∧
    (Idle context → commas (runText sectorSize partStart context reports) ≤
        marks (runText sectorSize partStart context reports) ∧
      (reports ≠ [] → commas (runText sectorSize partStart context reports) <
        marks (runText sectorSize partStart context reports))) := by
  induction reports generalizing context with
  | nil =>
      refine ⟨?_, ?_⟩
      · intro pending
        simp [runText, finalText_pending pending]
      · intro idle
        simp [runText, finalText_idle idle]
  | cons report reports ih =>
      obtain ⟨isReport, others⟩ := List.forall_mem_cons.mp areReports
      have offset_nonneg := isReport.offset_nonneg
      simp only [runText, marks_append, commas_append]
      refine ⟨?_, ?_⟩
      · intro pending
        by_cases goesOn : GoesOn sectorSize context report
        · obtain ⟨nothing, next⟩ := step_goesOn pending isReport nonneg goesOn
          have more := (ih others).1 (next ▸ pending.longer isReport)
          rw [nothing]
          simpa using more
        · rcases offset_nonneg.lt_or_eq with part | start
          · obtain ⟨text, idle⟩ := step_breaks_part pending isReport nonneg goesOn part
            have more := ((ih others).2 idle).1
            simp only [text, marks_append, commas_append, marks_pieceText, commas_pieceText,
              marks_cons, commas_cons, marks_printPart, commas_printPart, isMark_comma, if_true,
              Bool.false_eq_true, if_false]
            omega
          · obtain ⟨text, pending'⟩ :=
              step_breaks_start pending isReport nonneg goesOn start.symm
            have more := (ih others).1 pending'
            simp only [text, marks_pieceText, commas_pieceText]
            omega
      · intro idle
        suffices more : commas (stepText sectorSize partStart context report) +
            commas (runText sectorSize partStart
              (stepContext sectorSize partStart context report) reports) <
            marks (stepText sectorSize partStart context report) +
              marks (runText sectorSize partStart
                (stepContext sectorSize partStart context report) reports) by
          exact ⟨more.le, fun _ => more⟩
        rcases offset_nonneg.lt_or_eq with part | start
        · obtain ⟨text, same⟩ := @step_idle_part sectorSize partStart _ _ idle part
          have more := ((ih others).2 idle).1
          rw [text, same, marks_printPart, commas_printPart]
          omega
        · obtain ⟨nothing, pending, _⟩ := step_idle_start idle isReport nonneg start.symm
          have more := (ih others).1 pending
          rw [nothing]
          simpa using more

end Runs

end GrubLegacy.BlockFiles
