import GrubLegacy.BlockFiles.PrintedLists

/-!
# When the blocklist command is right

The command is right about a file of one full sector, or of one part of a sector, or of two
where the second does not begin with its sector. A sector that is left collected, by this
file or by an earlier one, is printed with what comes next.
-/

namespace GrubLegacy.BlockFiles

open Base Stage2 DiskIo CStrings

section Runs

variable {sectorSize partStart : Nat} {context : BlocklistContext} {report : SectorReport}
  {reports : List SectorReport} {text piece rest : List UInt8} {entry : ListEntry}
  {entries : List ListEntry}

/-! ## The first entry -/

/-- A text that denotes entries has at most one mark more than commas. -/
theorem denotes_few (denotes : DenotesEntries text entries) : marks text ≤ commas text + 1 := by
  have counts := denotes_counts denotes
  omega

/-- An entry that ends where the text does, or at a comma, is the first. -/
theorem denotes_piece (noComma : commas piece = 0) (ends : ∀ c ∈ rest.head?, c = charOf ',')
    (denotes : DenotesEntries (piece ++ rest) (entry :: entries)) : EntryText piece entry := by
  have others : ∀ c ∈ piece, (c ≠ charOf ',' : Bool) = true := by
    intro c member
    have other : c ≠ charOf ',' := by
      rintro rfl
      exact List.count_eq_zero.mp noComma member
    simpa using other
  have stops : rest.takeWhile (· ≠ charOf ',') = [] := by
    cases rest with
    | nil => rfl
    | cons c rest => simp [ends c rfl]
  have first := denotes_first denotes
  rwa [List.takeWhile_append_of_pos others, stops, List.append_nil] at first

/-- The entry that a collected sector is printed as. -/
def EntryOf (partStart : Int) (context : BlocklistContext) (entry : ListEntry) : Prop :=
  entry = .run (toUInt32 (context.startSector - partStart), 1) ∨
    ∃ first last, entry = .part (toUInt32 (context.startSector - partStart)) first last

/-- What a piece is the text of is an entry of the run. -/
theorem entryOf_pieceText
    (isEntry : EntryText (pieceText sectorSize partStart context) entry) :
    EntryOf partStart context entry := by
  rw [pieceText] at isEntry
  split at isEntry
  · exact .inl (entryText_printRun isEntry)
  · exact .inr (entryText_printPart isEntry)

/-- A collected sector is what the list begins with, if it is one. -/
theorem Pending.first (pending : Pending context)
    (areReports : ∀ report ∈ reports, ReportOf sectorSize partStart report)
    (denotes : DenotesEntries (runText sectorSize partStart context reports) (entry :: entries)) :
    EntryOf partStart context entry := by
  have nonneg : (0 : Int) ≤ partStart := Int.natCast_nonneg _
  induction reports generalizing context with
  | nil =>
      rw [runText, finalText_pending pending, ← List.append_nil (printRun _ _)] at denotes
      exact .inl (entryText_printRun (denotes_piece (commas_printRun _ _) (by simp) denotes))
  | cons report reports ih =>
      obtain ⟨isReport, others⟩ := List.forall_mem_cons.mp areReports
      rw [runText] at denotes
      by_cases goesOn : GoesOn sectorSize context report
      · obtain ⟨nothing, next⟩ := step_goesOn pending isReport nonneg goesOn
        rw [nothing, List.nil_append, next] at denotes
        have first := ih (pending.longer isReport) others denotes
        exact first
      · rcases isReport.offset_nonneg.lt_or_eq with part | start
        · obtain ⟨text, _⟩ := step_breaks_part pending isReport nonneg goesOn part
          rw [text, List.append_assoc] at denotes
          exact entryOf_pieceText (denotes_piece commas_pieceText (by simp) denotes)
        · obtain ⟨text, pending'⟩ := step_breaks_start pending isReport nonneg goesOn start.symm
          have more := (surplus nonneg others).1 pending'
          have few := denotes_few denotes
          simp only [text, marks_append, commas_append, marks_pieceText, commas_pieceText] at few
          omega

/-- The list of some parts begins with the first of them. -/
theorem listParts_head {first last sector : Nat} {parts : List SectorPart} :
    (∃ count others,
      listParts sectorSize ((sector, first, last) :: parts) = .run (sector, count) :: others) ∨
    ∃ others, listParts sectorSize ((sector, first, last) :: parts) =
      .part sector first last :: others := by
  by_cases full : first = 0 ∧ last = sectorSize
  · obtain ⟨rfl, rfl⟩ := full
    rcases listParts_full sector parts with ⟨count, others, _, joined⟩ | ⟨_, alone⟩
    · exact .inl ⟨_, _, joined⟩
    · exact .inl ⟨_, _, alone⟩
  · exact .inr ⟨_, listParts_part full⟩

/-- The parts that were reported, as a list. -/
abbrev reportedList (sectorSize partStart : Nat) (reports : List SectorReport) : List ListEntry :=
  listParts sectorSize (reports.map (reportedPart partStart))

/-- With a sector that was collected before, the list is not that of the reports. -/
theorem Pending.wrong (pending : Pending context)
    (areReports : ∀ report ∈ reports, ReportOf sectorSize partStart report) :
    ¬ DenotesEntries (runText sectorSize partStart context reports)
      (reportedList sectorSize partStart reports) := by
  intro denotes
  have nonneg : (0 : Int) ≤ partStart := Int.natCast_nonneg _
  cases reports with
  | nil =>
      have counts := denotes_counts denotes
      rw [runText, finalText_pending pending, marks_printRun] at counts
      exact absurd counts.1 (by simp [reportedList, listParts])
  | cons report reports =>
      obtain ⟨isReport, others⟩ := List.forall_mem_cons.mp areReports
      by_cases goesOn : GoesOn sectorSize context report
      · -- the first entry is of the sector before
        have behind := isReport.behind
        have sector_lt := isReport.sector_lt
        have follows := goesOn.1
        have same : toUInt32 (context.startSector - partStart) = (report.sector - partStart).toNat →
            False := by
          unfold toUInt32
          omega
        rcases @listParts_head sectorSize report.offset.toNat
          (report.offset + report.length).toNat (report.sector - partStart).toNat
          (reports.map (reportedPart partStart)) with ⟨count, entries, head⟩ | ⟨entries, head⟩
        all_goals
          rw [reportedList, List.map_cons, reportedPart, head] at denotes
          rcases pending.first areReports denotes with isRun | ⟨first, last, isPart⟩
          all_goals grind
      · have few := denotes_few denotes
        rcases isReport.offset_nonneg.lt_or_eq with part | start
        · obtain ⟨text, idle⟩ := step_breaks_part pending isReport nonneg goesOn part
          have more := (surplus nonneg others).2 idle
          simp only [runText, text, marks_append, commas_append, marks_pieceText,
            commas_pieceText, marks_cons, commas_cons, marks_printPart, commas_printPart,
            isMark_comma, Bool.false_eq_true, if_false, if_true] at few
          have none : reports = [] := by
            by_contra some_
            have most := more.2 some_
            omega
          subst none
          have counts := (denotes_counts denotes).1
          rw [runText, text, runText, finalText_idle idle, reportedList, List.map_cons,
            reportedPart, listParts_part (by omega)] at counts
          simp [listParts] at counts
        · obtain ⟨text, pending'⟩ := step_breaks_start pending isReport nonneg goesOn start.symm
          have more := (surplus nonneg others).1 pending'
          simp only [runText, text, marks_append, commas_append, marks_pieceText,
            commas_pieceText] at few
          omega

/-! ## With nothing collected before -/

/-- A printed run is the text of one sector, -/
theorem entryText_of_run {start : Int} (nonneg : 0 ≤ start) (small : start < 2 ^ 31) :
    EntryText (printRun start 1) (.run (start.toNat, 1)) := by
  obtain ⟨sector, rfl⟩ := Int.eq_ofNat_of_zero_le nonneg
  have isSector : Numeral (printInt sector) sector := numeral_of_nat (by omega)
  have isCount : Numeral (printInt 1) 1 := @numeral_of_nat 1 (by omega)
  exact .run ⟨⟨printInt sector, printInt 1, rfl, .inr isSector, isCount⟩, Nat.one_pos⟩

/-- and a printed part that of the part. -/
theorem entryText_of_part {sector first last : Int} (nonneg : 0 ≤ sector) (small : sector < 2 ^ 31)
    (first_nonneg : 0 ≤ first) (ordered : first ≤ last) (last_lt : last < 2 ^ 31) :
    EntryText (printPart sector first last) (.part sector.toNat first.toNat last.toNat) := by
  obtain ⟨sector, rfl⟩ := Int.eq_ofNat_of_zero_le nonneg
  obtain ⟨first, rfl⟩ := Int.eq_ofNat_of_zero_le first_nonneg
  obtain ⟨last, rfl⟩ := Int.eq_ofNat_of_zero_le (first_nonneg.trans ordered)
  exact .part (numeral_of_nat (by omega)) (numeral_of_nat (by omega)) (numeral_of_nat (by omega))

/-- The reports that the command prints right: at most one sector is begun, and not left. -/
def FewParts (sectorSize : Nat) : List SectorReport → Prop
  | [] => True
  | [report] => 0 < report.offset ∨ report.length = sectorSize
  | [report, next] => report.offset = 0 ∧ 0 < next.offset
  | _ => False

/-- A report as an entry of the list. -/
theorem ReportOf.entry_part (isReport : ReportOf sectorSize partStart report)
    (small : sectorSize < 2 ^ 31) :
    EntryText (printPart (report.sector - partStart) report.offset (report.offset + report.length))
      (.part (report.sector - partStart).toNat report.offset.toNat
        (report.offset + report.length).toNat) := by
  have behind := isReport.behind
  have sector_lt := isReport.sector_lt
  have inside := isReport.inside
  have length_pos := isReport.length_pos
  exact entryText_of_part (by omega) (by omega) isReport.offset_nonneg (by omega) (by omega)

/-- A report at the start of a sector can be printed as this sector. -/
theorem ReportOf.entry_run (isReport : ReportOf sectorSize partStart report) :
    EntryText (printRun (report.sector - partStart) 1)
      (.run ((report.sector - partStart).toNat, 1)) := by
  have behind := isReport.behind
  have sector_lt := isReport.sector_lt
  exact entryText_of_run (by omega) (by omega)

/-- A report that does not begin with its sector is right alone. -/
theorem Idle.part_iff (idle : Idle context) (small : sectorSize < 2 ^ 31)
    (areReports : ∀ each ∈ report :: reports, ReportOf sectorSize partStart each)
    (part : 0 < report.offset) :
    DenotesEntries (runText sectorSize partStart context (report :: reports))
      (reportedList sectorSize partStart (report :: reports)) ↔ reports = [] := by
  have nonneg : (0 : Int) ≤ partStart := Int.natCast_nonneg _
  obtain ⟨isReport, others⟩ := List.forall_mem_cons.mp areReports
  obtain ⟨text, same⟩ := @step_idle_part sectorSize partStart _ _ idle part
  rw [runText, text, same]
  constructor
  · intro denotes
    by_contra some_
    have most := ((surplus nonneg others).2 idle).2 some_
    have few := denotes_few denotes
    simp only [marks_append, commas_append, marks_printPart, commas_printPart] at few
    omega
  · rintro rfl
    rw [runText, finalText_idle idle, List.append_nil, reportedList, List.map_singleton,
      reportedPart, listParts_part (by omega)]
    exact .last (isReport.entry_part small)

/-- The report before is the one that is collected. -/
structure Collected (context : BlocklistContext) (report : SectorReport) : Prop
    extends Pending context where
  starts : report.offset = 0
  isSector : context.startSector = report.sector
  isLength : context.lastLength = report.length

section Collected

variable {next : SectorReport}

/-- A list that starts with a part does not start with a run. -/
theorem apart_of_part {parts : List SectorPart} {sector first last start : Nat}
    (listed : listParts sectorSize parts = .part sector first last :: entries) (count : Nat)
    (others : List ListEntry) : listParts sectorSize parts ≠ .run (start, count) :: others := by
  rw [listed]
  simp

/-- At the end a collected sector is printed as a full one. -/
theorem Collected.last_iff (collected : Collected context report)
    (isReport : ReportOf sectorSize partStart report) :
    DenotesEntries (runText sectorSize partStart context [])
      (reportedList sectorSize partStart [report]) ↔ report.length = sectorSize := by
  have starts := collected.starts
  rw [runText, finalText_pending collected.toPending, collected.isSector, reportedList,
    List.map_singleton, reportedPart, starts]
  by_cases full : report.length = sectorSize
  · have isFull : (0 + report.length).toNat = sectorSize := by omega
    rw [isFull, Int.toNat_zero, listParts, if_pos ⟨rfl, rfl⟩]
    exact iff_of_true (.last isReport.entry_run) full
  · have length_pos := isReport.length_pos
    rw [listParts_part (by omega)]
    refine iff_of_false ?_ full
    intro denotes
    rw [← List.append_nil (printRun _ _)] at denotes
    have isRun := entryText_printRun (denotes_piece (commas_printRun _ _) (by simp) denotes)
    cases isRun

/-- A sector that begins after it can not be printed right. -/
theorem Collected.start_wrong (collected : Collected context report)
    (areReports : ∀ each ∈ next :: reports, ReportOf sectorSize partStart each)
    (breaks : ¬ GoesOn sectorSize context next) (start : next.offset = 0) :
    ¬ DenotesEntries (runText sectorSize partStart context (next :: reports)) entries := by
  have nonneg : (0 : Int) ≤ partStart := Int.natCast_nonneg _
  obtain ⟨isNext, others⟩ := List.forall_mem_cons.mp areReports
  obtain ⟨text, pending⟩ := step_breaks_start collected.toPending isNext nonneg breaks start
  intro denotes
  have more := (surplus nonneg others).1 pending
  have few := denotes_few denotes
  simp only [runText, text, marks_append, commas_append, marks_pieceText, commas_pieceText] at few
  omega

/-- A part of one can, at the end. -/
theorem Collected.part_iff (collected : Collected context report) (small : sectorSize < 2 ^ 31)
    (isReport : ReportOf sectorSize partStart report)
    (areReports : ∀ each ∈ next :: reports, ReportOf sectorSize partStart each)
    (breaks : ¬ GoesOn sectorSize context next) (part : 0 < next.offset) :
    DenotesEntries (runText sectorSize partStart context (next :: reports))
      (reportedList sectorSize partStart (report :: next :: reports)) ↔ reports = [] := by
  have nonneg : (0 : Int) ≤ partStart := Int.natCast_nonneg _
  obtain ⟨isNext, others⟩ := List.forall_mem_cons.mp areReports
  obtain ⟨text, idle⟩ := step_breaks_part collected.toPending isNext nonneg breaks part
  rw [runText, text]
  constructor
  · intro denotes
    by_contra some_
    have most := ((surplus nonneg others).2 idle).2 some_
    have few := denotes_few denotes
    simp only [marks_append, commas_append, marks_pieceText, commas_pieceText, marks_cons,
      commas_cons, marks_printPart, commas_printPart, isMark_comma, Bool.false_eq_true, if_false,
      if_true] at few
    omega
  · rintro rfl
    rw [runText, finalText_idle idle, List.append_nil, reportedList, List.map_cons,
      List.map_singleton, pieceText, collected.isSector, collected.isLength, reportedPart,
      reportedPart, collected.starts]
    have others : listParts sectorSize [((next.sector - partStart).toNat, next.offset.toNat,
        (next.offset + next.length).toNat)] = [.part (next.sector - partStart).toNat
          next.offset.toNat (next.offset + next.length).toNat] :=
      listParts_part (by omega)
    have length_pos := isReport.length_pos
    by_cases full : report.length = sectorSize
    · have isFull : (0 + report.length).toNat = sectorSize := by omega
      rw [if_pos full, isFull, Int.toNat_zero, listParts_alone (apart_of_part others), others]
      exact .more isReport.entry_run (.last (isNext.entry_part small)) (by simp)
    · rw [if_neg full, listParts_part (by omega), others, zero_add]
      have isEntry := isReport.entry_part small
      rw [collected.starts, zero_add] at isEntry
      exact .more isEntry (.last (isNext.entry_part small)) (by simp)

/-- A sector that goes on with it is not counted. -/
theorem Collected.joined_wrong (collected : Collected context report)
    (isReport : ReportOf sectorSize partStart report)
    (areReports : ∀ each ∈ next :: reports, ReportOf sectorSize partStart each)
    (goesOn : GoesOn sectorSize context next) :
    ¬ DenotesEntries (runText sectorSize partStart context (next :: reports))
      (reportedList sectorSize partStart (report :: next :: reports)) := by
  have nonneg : (0 : Int) ≤ partStart := Int.natCast_nonneg _
  obtain ⟨isNext, others⟩ := List.forall_mem_cons.mp areReports
  obtain ⟨nothing, isNext'⟩ := step_goesOn collected.toPending isNext nonneg goesOn
  obtain ⟨follows, starts, full⟩ := goesOn
  have behind := isReport.behind
  have length_pos := isNext.length_pos
  rw [collected.isSector] at follows
  rw [collected.isLength] at full
  have isFull : (0 + report.length).toNat = sectorSize := by omega
  have isFollowing : (next.sector - partStart).toNat = (report.sector - partStart).toNat + 1 := by
    omega
  intro denotes
  rw [reportedList, List.map_cons, List.map_cons, reportedPart, reportedPart, collected.starts,
    starts, isFull, isFollowing, Int.toNat_zero] at denotes
  by_cases nextFull : next.length = sectorSize
  · -- the run has two sectors at least, and one is printed
    have isNextFull : (0 + next.length).toNat = sectorSize := by omega
    rw [isNextFull] at denotes
    obtain ⟨count, entries, positive, listed⟩ : ∃ count entries, 0 < count ∧
        listParts sectorSize (((report.sector - partStart).toNat + 1, 0, sectorSize) ::
          reports.map (reportedPart partStart)) =
            .run ((report.sector - partStart).toNat + 1, count) :: entries := by
      rcases listParts_full ((report.sector - partStart).toNat + 1)
        (reports.map (reportedPart partStart)) with ⟨count, entries, _, joined⟩ | ⟨_, alone⟩
      · exact ⟨_, _, Nat.succ_pos _, joined⟩
      · exact ⟨_, _, Nat.one_pos, alone⟩
    rw [listParts_join listed] at denotes
    rcases collected.toPending.first areReports denotes with isRun | ⟨first, last, isPart⟩
    · simp at isRun
      omega
    · cases isPart
  · -- the run has one sector, and the part after it is printed as it, or not at all
    have listed : listParts sectorSize (((report.sector - partStart).toNat + 1, 0,
        (0 + next.length).toNat) :: reports.map (reportedPart partStart)) =
          .part ((report.sector - partStart).toNat + 1) 0 (0 + next.length).toNat ::
            listParts sectorSize (reports.map (reportedPart partStart)) :=
      listParts_part (by omega)
    rw [listParts_alone (apart_of_part listed), listed, runText, nothing, List.nil_append,
      isNext'] at denotes
    have pending := collected.toPending.longer isNext
    cases reports with
    | nil =>
        rw [runText, finalText_pending pending] at denotes
        have counts := (denotes_counts denotes).1
        simp [listParts] at counts
    | cons third reports =>
        obtain ⟨isThird, others⟩ := List.forall_mem_cons.mp others
        have breaks : ¬ GoesOn sectorSize { context with lastLength := next.length } third :=
          fun goesOn => nextFull goesOn.2.2
        rcases isThird.offset_nonneg.lt_or_eq with part | start
        · obtain ⟨text, _⟩ := step_breaks_part pending isThird nonneg breaks part
          rw [runText, text, List.append_assoc, pieceText, if_neg nextFull] at denotes
          obtain ⟨first, last, isPart⟩ :=
            entryText_printPart (denotes_piece (commas_printPart _ _ _) (by simp) denotes)
          cases isPart
        · have collected' : Collected { context with lastLength := next.length }
              { report with length := next.length } :=
            { pending with
              starts := collected.starts
              isSector := collected.isSector
              isLength := rfl }
          exact collected'.start_wrong (List.forall_mem_cons.mpr ⟨isThird, others⟩) breaks
            start.symm denotes

end Collected

/-- With nothing collected the command is right about few parts and nothing else. -/
theorem Idle.denotes_iff (idle : Idle context) (small : sectorSize < 2 ^ 31)
    (areReports : ∀ each ∈ reports, ReportOf sectorSize partStart each) :
    DenotesEntries (runText sectorSize partStart context reports)
      (reportedList sectorSize partStart reports) ↔ FewParts sectorSize reports := by
  have nonneg : (0 : Int) ≤ partStart := Int.natCast_nonneg _
  cases reports with
  | nil =>
      rw [runText, finalText_idle idle]
      exact iff_of_true .nil trivial
  | cons report reports =>
      obtain ⟨isReport, others⟩ := List.forall_mem_cons.mp areReports
      rcases isReport.offset_nonneg.lt_or_eq with part | start
      · rw [idle.part_iff small areReports part]
        cases reports with
        | nil => simp [FewParts, part]
        | cons next reports => cases reports <;> simp [FewParts, part.ne']
      · obtain ⟨nothing, pending, isSector, isLength⟩ :=
          step_idle_start idle isReport nonneg start.symm
        rw [runText, nothing, List.nil_append]
        have collected : Collected (stepContext sectorSize partStart context report) report :=
          { pending with starts := start.symm, isSector, isLength }
        cases reports with
        | nil => simpa [FewParts, ← start] using collected.last_iff isReport
        | cons next reports =>
            have isNext := others next List.mem_cons_self
            by_cases goesOn : GoesOn sectorSize (stepContext sectorSize partStart context report) next
            · refine iff_of_false (collected.joined_wrong isReport others goesOn) ?_
              cases reports with
              | nil => simp [FewParts, goesOn.2.1]
              | cons third reports => simp [FewParts]
            · rcases isNext.offset_nonneg.lt_or_eq with part | start'
              · rw [collected.part_iff small isReport others goesOn part]
                cases reports with
                | nil => simp [FewParts, ← start, part]
                | cons third reports => simp [FewParts]
              · refine iff_of_false (collected.start_wrong others goesOn start'.symm) ?_
                cases reports with
                | nil => simp [FewParts, ← start']
                | cons third reports => simp [FewParts]

/-! ## What is left for the next use -/

/-- Nothing is collected, or a sector. -/
def Left (context : BlocklistContext) : Prop := Idle context ∨ Pending context

/-- A report leaves the context of a use, -/
theorem left_step (left : Left context) (isReport : ReportOf sectorSize partStart report) :
    Left (stepContext sectorSize partStart context report) := by
  have nonneg : (0 : Int) ≤ partStart := Int.natCast_nonneg _
  rcases left with idle | pending
  · rcases isReport.offset_nonneg.lt_or_eq with part | start
    · rw [(step_idle_part idle part).2]
      exact .inl idle
    · exact .inr (step_idle_start idle isReport nonneg start.symm).2.1
  · by_cases goesOn : GoesOn sectorSize context report
    · rw [(step_goesOn pending isReport nonneg goesOn).2]
      exact .inr (pending.longer isReport)
    · rcases isReport.offset_nonneg.lt_or_eq with part | start
      · exact .inl (step_breaks_part pending isReport nonneg goesOn part).2
      · exact .inr (step_breaks_start pending isReport nonneg goesOn start.symm).2

/-- and so do all of them. -/
theorem left_foldl {listing : Listing} (left : Left listing.context)
    (areReports : ∀ each ∈ reports, ReportOf sectorSize partStart each) :
    Left (reports.foldl (blocklistReadHelper sectorSize partStart) listing).context := by
  induction reports generalizing listing with
  | nil => exact left
  | cons report reports ih =>
      obtain ⟨isReport, others⟩ := List.forall_mem_cons.mp areReports
      rw [List.foldl_cons, blocklistReadHelper_eq]
      exact ih (left_step left isReport) others

end Runs

/-- A use of the command, on a device with sectors of some size. -/
structure BlocklistUse.Valid (use : BlocklistUse) : Prop where
  sectorSize_lt : use.sectorSize < 2 ^ 31
  areReports : ∀ report ∈ use.reports, ReportOf use.sectorSize use.partStart report

/-- A use leaves a context that another one may start from. -/
theorem left_blocklistFunc {context : BlocklistContext} {use : BlocklistUse} (left : Left context)
    (isUse : use.Valid) : Left (blocklistFunc context use).context := by
  rw [blocklistFunc]
  split
  · have left' := @left_foldl use.sectorSize use.partStart use.reports
      { context, printed := sprintDevice use.drive use.partition } left isUse.areReports
    dsimp only
    split_ifs
    all_goals exact left'
  · exact left

/-- The context after some uses of the command. -/
def contextAfter (earlier : List BlocklistUse) : BlocklistContext :=
  earlier.foldl (fun context use => (blocklistFunc context use).context) .initial

/-- After any uses of the command nothing is collected, or a sector. -/
theorem left_contextAfter {earlier : List BlocklistUse} (areUses : ∀ use ∈ earlier, use.Valid) :
    Left (contextAfter earlier) := by
  have go : ∀ {context}, Left context →
      Left (earlier.foldl (fun context use => (blocklistFunc context use).context) context) := by
    induction earlier with
    | nil => exact id
    | cons use earlier ih =>
        intro context left
        obtain ⟨isUse, others⟩ := List.forall_mem_cons.mp areUses
        exact ih others (left_blocklistFunc left isUse)
  exact go (.inl ⟨rfl, rfl⟩)

/-! ## The command -/

/-- For a file that is read the command prints the device and a list that denotes what was
reported. `grub_read` returns zero for an empty file and when it fails. -/
def PrintsRead (context : BlocklistContext) (use : BlocklistUse) : Prop :=
  use.opens = true → (use.readValue = 0 → use.reports = []) →
    ∃ list, (blocklistFunc context use).printed =
        sprintDevice use.drive use.partition ++
          (list ++ if use.readValue = 0 then [] else [charOf '\n']) ∧
      DenotesEntries list (reportedList use.sectorSize use.partStart use.reports)

/-- The sectors that are read are printed just when the text of the run denotes them. -/
theorem printsRead_iff_runText {context : BlocklistContext} {use : BlocklistUse}
    (opens : use.opens = true) (completes : use.readValue ≠ 0) :
    PrintsRead context use ↔
      DenotesEntries (runText use.sectorSize use.partStart context use.reports)
        (reportedList use.sectorSize use.partStart use.reports) := by
  simp only [PrintsRead, opens, completes, blocklistFunc_printed opens completes]
  simp

/-- The command prints what was read of few parts, when no sector was left collected. -/
theorem printsRead_iff {earlier : List BlocklistUse} {use : BlocklistUse}
    (areUses : ∀ each ∈ earlier, each.Valid) (isUse : use.Valid) :
    PrintsRead (contextAfter earlier) use ↔
      (use.opens = true → use.readValue ≠ 0 →
        (contextAfter earlier).numSectors = 0 ∧ FewParts use.sectorSize use.reports) := by
  by_cases opens : use.opens = true
  · by_cases completes : use.readValue = 0
    · refine iff_of_true ?_ (fun _ reads => absurd completes reads)
      intro _ empty
      refine ⟨[], ?_, ?_⟩
      · simp [blocklistFunc, opens, completes, empty completes]
      · rw [empty completes]
        exact .nil
    · rw [printsRead_iff_runText opens completes]
      simp only [opens, completes, ne_eq, not_false_eq_true, true_imp_iff]
      rcases left_contextAfter areUses with idle | pending
      · rw [idle.denotes_iff isUse.sectorSize_lt isUse.areReports]
        simp [idle.numSectors]
      · refine iff_of_false (pending.wrong isUse.areReports) ?_
        simp [pending.numSectors]
  · refine iff_of_true ?_ (fun reads => absurd reads opens)
    intro reads
    exact absurd reads opens

/-- The use for a file on the first partition of a disk of which these parts are read. -/
def partsUse (reports : List SectorReport) : BlocklistUse where
  drive := 0x80
  partition := 0x00FFFF
  partStart := 63
  sectorSize := 512
  opens := true
  reports := reports
  readValue := (reports.map SectorReport.length).sum

/-- A part of a sector of the partition, in front of sector 100 of the disk. -/
def InFront (report : SectorReport) : Prop :=
  63 ≤ report.sector ∧ report.sector < 100 ∧ 0 ≤ report.offset ∧ 0 < report.length ∧
    report.offset + report.length ≤ 512

instance : DecidablePred InFront := fun _ => inferInstanceAs (Decidable (_ ∧ _))

/-- The use is valid when the parts are such. -/
theorem valid_partsUse {reports : List SectorReport} (inFront : ∀ report ∈ reports, InFront report) :
    (partsUse reports).Valid where
  sectorSize_lt := (by decide : 512 < 2 ^ 31)
  areReports report isReport := by
    obtain ⟨behind, small, offset_nonneg, length_pos, inside⟩ := inFront report isReport
    exact ⟨behind, by omega, offset_nonneg, length_pos, inside⟩

/-- A file of a sector and a part of another. -/
def tailUse : BlocklistUse := partsUse [⟨65, 0, 512⟩, ⟨70, 100, 100⟩]

/-- A file that lies within a sector. -/
def smallUse : BlocklistUse := partsUse [⟨80, 8, 24⟩]

/-- The one is printed as it is read behind the other. -/
theorem printsRead_tailUse : PrintsRead (contextAfter [smallUse]) tailUse := by
  have areUses : ∀ each ∈ [smallUse], each.Valid := by
    intro each isEach
    obtain rfl := List.mem_singleton.mp isEach
    exact valid_partsUse (by decide)
  exact (printsRead_iff areUses (valid_partsUse (by decide))).mpr fun _ _ =>
    ⟨by decide +kernel, rfl, by decide⟩

/-- A file of two sectors, one behind the other. -/
def sectorsUse : BlocklistUse := partsUse [⟨65, 0, 512⟩, ⟨66, 0, 512⟩]

/-- Two sectors are printed as one. -/
theorem sectorsUse_wrong :
    ¬ ∀ (earlier : List BlocklistUse) (use : BlocklistUse),
      (∀ each ∈ earlier, each.Valid) → use.Valid → PrintsRead (contextAfter earlier) use := by
  intro prints
  obtain ⟨list, printed, denotes⟩ :=
    prints [] sectorsUse (by simp) (valid_partsUse (by decide)) rfl (by decide)
  have isList : list = printRun 2 1 := by
    have isPrinted : (blocklistFunc (contextAfter []) sectorsUse).printed =
        sprintDevice sectorsUse.drive sectorsUse.partition ++ (printRun 2 1 ++ [charOf '\n']) := by
      decide +kernel
    rw [isPrinted] at printed
    exact (List.append_cancel_right (List.append_cancel_left printed)).symm
  have isReported : reportedList sectorsUse.sectorSize sectorsUse.partStart sectorsUse.reports =
      [.run (2, 2)] := by
    decide +kernel
  rw [isList, isReported] at denotes
  rw [← List.append_nil (printRun 2 1)] at denotes
  have isRun := entryText_printRun (denotes_piece (commas_printRun _ _) (by simp) denotes)
  exact absurd isRun (by decide)

end GrubLegacy.BlockFiles
