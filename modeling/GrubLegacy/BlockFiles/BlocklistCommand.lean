import GrubLegacy.BlockFiles.OpenedLists
import GrubLegacy.DiskIo.DeviceSyntax
import GrubLegacy.DiskIo.RawAccess

/-!
# The blocklist command

`blocklist_func` of `builtins.c` prints a file as a block list. A helper is called for
each part of a sector that is read, and collects sectors in static variables. It gets at
them through pointers, and `*num_sectors++` moves the pointer and not the number.
-/

namespace GrubLegacy.BlockFiles

open Base Stage2 DiskIo CStrings

/-! ## What the command does -/

/-- `blocklist_func_context` -/
structure BlocklistContext where
  startSector : Int
  numSectors : Int
  numEntries : Int
  lastLength : Int
deriving DecidableEq, Repr

/-- What it is initialized with. -/
def BlocklistContext.initial : BlocklistContext :=
  { startSector := 0, numSectors := 0, numEntries := 0, lastLength := 0 }

/-- The context as the four numbers it is in memory. -/
def BlocklistContext.field (context : BlocklistContext) : (pointer : Nat) → Int
  | 0 => context.startSector
  | 1 => context.numSectors
  | 2 => context.numEntries
  | 3 => context.lastLength
  | _ => 0

/-- Where `num_entries` points to at first. -/
def numEntriesField : Nat := 2

/-- The context and the text that is printed. -/
structure Listing where
  context : BlocklistContext
  printed : List UInt8
deriving DecidableEq, Repr

/-- A `%d` -/
def printInt (value : Int) : List UInt8 := decimalInt (toUInt32 value)

/-- The `%s` for `*num_entries ? "," : ""`. -/
def separator (value : Int) : List UInt8 := if value ≠ 0 then [charOf ','] else []

/-- `%d+%d` -/
def printRun (start count : Int) : List UInt8 := printInt start ++ charOf '+' :: printInt count

/-- `%d[%d-%d]` -/
def printPart (sector first last : Int) : List UInt8 :=
  printInt sector ++ charOf '[' :: (printInt first ++ charOf '-' :: (printInt last ++ [charOf ']']))

/-- What is printed of the sectors collected so far. -/
def printCollected (sectorSize partStart : Int) (context : BlocklistContext) : List UInt8 :=
  separator context.numEntries ++
    if context.lastLength = sectorSize then
      printRun (context.startSector - partStart) context.numSectors
    else if context.numSectors > 1 then
      printRun (context.startSector - partStart) (context.numSectors - 1) ++ charOf ',' ::
        printPart (context.startSector + context.numSectors - 1 - partStart) 0 context.lastLength
    else printPart (context.startSector - partStart) 0 context.lastLength

/-- The end of `blocklist_read_helper`, with `num_entries` as it points there. -/
def collect (partStart : Int) (pointer : Nat) (listing : Listing) (report : SectorReport) :
    Listing :=
  if report.offset > 0 then
    { listing with
      printed := listing.printed ++ separator (listing.context.field pointer) ++
        printPart (report.sector - partStart) report.offset (report.offset + report.length) }
  else
    { listing with
      context := { listing.context with
        startSector := report.sector
        numSectors := 1
        lastLength := report.length } }

/-- `blocklist_read_helper` -/
def blocklistReadHelper (sectorSize partStart : Int) (listing : Listing) (report : SectorReport) :
    Listing :=
  let context := listing.context
  if context.numSectors > 0 then
    if toInt32 (context.startSector + context.numSectors) = report.sector ∧ report.offset = 0 ∧
        context.lastLength = sectorSize then
      -- `*num_sectors++` leaves the number
      { listing with context := { context with lastLength := report.length } }
    else
      -- and `*num_entries++` makes the pointer one to `last_length`
      collect partStart (numEntriesField + 1)
        { context := { context with numSectors := 0 }
          printed := listing.printed ++ printCollected sectorSize partStart context } report
  else collect partStart numEntriesField listing report

/-- A use of the command: the device that is current then, the file and whether it can be
opened, the reports while it is read, and what `grub_read` returns. -/
structure BlocklistUse where
  drive : Nat
  partition : Nat
  partStart : Nat
  sectorSize : Nat
  opens : Bool
  reports : List SectorReport
  readValue : Int

/-- `blocklist_func` -/
def blocklistFunc (context : BlocklistContext) (use : BlocklistUse) : Listing :=
  if use.opens then
    let listing := use.reports.foldl (blocklistReadHelper use.sectorSize use.partStart)
      { context, printed := sprintDevice use.drive use.partition }
    if use.readValue = 0 then listing
    else if listing.context.numSectors > 0 then
      { listing with
        printed := listing.printed ++ separator listing.context.numEntries ++
          printRun (listing.context.startSector - use.partStart) listing.context.numSectors ++
            [charOf '\n'] }
    else { listing with printed := listing.printed ++ [charOf '\n'] }
  else { context, printed := [] }

/-! ## What a block list denotes -/

/-- An entry of a block list: a run of sectors, or a range of bytes of one sector. -/
inductive ListEntry where
  | run (segment : Segment)
  | part (sector first last : Nat)
deriving DecidableEq, Repr

/-- The text of an entry. -/
inductive EntryText : List UInt8 → ListEntry → Prop where
  | run {text : List UInt8} {segment : Segment} (lists : ListsSegment text segment) :
      EntryText text (.run segment)
  | part {sectorText firstText lastText : List UInt8} {sector first last : Nat}
      (isSector : Numeral sectorText sector) (isFirst : Numeral firstText first)
      (isLast : Numeral lastText last) :
      EntryText (sectorText ++ charOf '[' :: (firstText ++ charOf '-' :: (lastText ++ [charOf ']'])))
        (.part sector first last)

/-- The text of a list, with commas between its entries. -/
inductive DenotesEntries : List UInt8 → List ListEntry → Prop where
  | nil : DenotesEntries [] []
  | last {text : List UInt8} {entry : ListEntry} (isEntry : EntryText text entry) :
      DenotesEntries text [entry]
  | more {text rest : List UInt8} {entry : ListEntry} {entries : List ListEntry}
      (isEntry : EntryText text entry) (others : DenotesEntries rest entries)
      (some_ : entries ≠ []) : DenotesEntries (text ++ charOf ',' :: rest) (entry :: entries)

/-- A part of a sector: the sector from the start of the partition on, and its bytes. -/
abbrev SectorPart := Nat × Nat × Nat

/-- What an entry stands for. -/
def ListEntry.parts (sectorSize : Nat) : ListEntry → List SectorPart
  | .run segment => (List.range segment.2).map fun i => (segment.1 + i, 0, sectorSize)
  | .part sector first last => [(sector, first, last)]

/-- What was reported. -/
def reportedPart (partStart : Nat) (report : SectorReport) : SectorPart :=
  ((report.sector - partStart).toNat, report.offset.toNat, (report.offset + report.length).toNat)

/-- The list of some parts, with maximal runs of consecutive full sectors joined. -/
def listParts (sectorSize : Nat) : List SectorPart → List ListEntry
  | [] => []
  | (sector, first, last) :: rest =>
    if first = 0 ∧ last = sectorSize then
      match listParts sectorSize rest with
      | .run (start, count) :: entries =>
        if start = sector + 1 then .run (sector, count + 1) :: entries
        else .run (sector, 1) :: .run (start, count) :: entries
      | entries => .run (sector, 1) :: entries
    else .part sector first last :: listParts sectorSize rest

section Lists

variable {sectorSize sector first last count : Nat} {rest : List SectorPart}

/-- A part of a sector is listed on its own. -/
theorem listParts_part (notFull : ¬ (first = 0 ∧ last = sectorSize)) :
    listParts sectorSize ((sector, first, last) :: rest) =
      .part sector first last :: listParts sectorSize rest := by
  rw [listParts, if_neg notFull]

/-- A sector before a run is joined to it, -/
theorem listParts_join {entries : List ListEntry}
    (listed : listParts sectorSize rest = .run (sector + 1, count) :: entries) :
    listParts sectorSize ((sector, 0, sectorSize) :: rest) =
      .run (sector, count + 1) :: entries := by
  rw [listParts, if_pos ⟨rfl, rfl⟩, listed]
  simp

/-- and any other one is a run of its own. -/
theorem listParts_alone
    (apart : ∀ count entries,
      listParts sectorSize rest ≠ .run (sector + 1, count) :: entries) :
    listParts sectorSize ((sector, 0, sectorSize) :: rest) =
      .run (sector, 1) :: listParts sectorSize rest := by
  rw [listParts, if_pos ⟨rfl, rfl⟩]
  split
  · next start count entries listed =>
      rw [if_neg, listed]
      rintro rfl
      exact apart count entries listed
  · rfl

/-- A full sector is joined with the run behind it, or makes one of its own. -/
theorem listParts_full (sector : Nat) (rest : List SectorPart) :
    (∃ count entries, listParts sectorSize rest = .run (sector + 1, count) :: entries ∧
      listParts sectorSize ((sector, 0, sectorSize) :: rest) =
        .run (sector, count + 1) :: entries) ∨
      ((∀ count entries, listParts sectorSize rest ≠ .run (sector + 1, count) :: entries) ∧
        listParts sectorSize ((sector, 0, sectorSize) :: rest) =
          .run (sector, 1) :: listParts sectorSize rest) := by
  by_cases joins : ∃ count entries, listParts sectorSize rest = .run (sector + 1, count) :: entries
  · obtain ⟨count, entries, listed⟩ := joins
    exact .inl ⟨count, entries, listed, listParts_join listed⟩
  · have apart : ∀ count entries,
        listParts sectorSize rest ≠ .run (sector + 1, count) :: entries :=
      fun count entries listed => joins ⟨count, entries, listed⟩
    exact .inr ⟨apart, listParts_alone apart⟩

end Lists

end GrubLegacy.BlockFiles
