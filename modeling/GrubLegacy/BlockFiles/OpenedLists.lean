import GrubLegacy.BlockFiles.ListedReads

/-!
# What a block list denotes

A name is a list of segments, with or without a total length. Where `grub_open` accepts
one, the file has the listed sectors up to that length, unless their number of bytes is
none an `int` can hold or they are taken for compressed data.
-/

namespace GrubLegacy.BlockFiles

open Base Stage2 DiskIo CStrings

/-! ## The names -/

/-- A text for a segment: the start, which may be left out, and the length. -/
structure ListsSegment (text : List UInt8) (segment : Segment) : Prop where
  parts : ∃ start length, text = start ++ charOf '+' :: length ∧
    (start = [] ∧ segment.1 = 0 ∨ Numeral start segment.1) ∧ Numeral length segment.2
  nonempty : 0 < segment.2

/-- A text lists segments and may give a total length after them. -/
inductive Lists : List UInt8 → List Segment → Option Nat → Prop where
  | total {digits rest : List UInt8} {bytes : Nat} (denotes : Numeral digits bytes)
      (positive : 0 < bytes) (ends : endsName rest = true) :
      Lists (digits ++ rest) [] (some bytes)
  | last {text rest : List UInt8} {segment : Segment} (first : ListsSegment text segment)
      (ends : endsName rest = true) : Lists (text ++ rest) [segment] none
  | more {text rest : List UInt8} {segment : Segment} {table : List Segment}
      {bytes : Option Nat} (first : ListsSegment text segment) (others : Lists rest table bytes) :
      Lists (text ++ charOf ',' :: rest) (segment :: table) bytes

/-- A text with a first character has it in front. -/
theorem cons_of_first {text : List UInt8} {c : UInt8} (starts : first text = c) (some_ : c ≠ 0) :
    text = c :: text.tail := by
  cases text with
  | nil => exact absurd starts.symm some_
  | cons head tail =>
      obtain rfl : head = c := starts
      rfl

/-- A number, or the place where one is missing. -/
theorem start_numeral {name : List UInt8} {start : Nat} {rest : List UInt8}
    (parses : (safeParseMaxint name).getD (0, name) = (start, rest)) :
    ∃ read, name = read ++ rest ∧ (read = [] ∧ start = 0 ∨ Numeral read start) ∧
      start ≤ maxint := by
  cases found : safeParseMaxint name with
  | none =>
      rw [found] at parses
      obtain ⟨rfl, rfl⟩ := Prod.mk.inj parses
      exact ⟨[], rfl, .inl ⟨rfl, rfl⟩, Nat.zero_le _⟩
  | some pair =>
      rw [found] at parses
      obtain rfl : pair = (start, rest) := parses
      obtain ⟨read, same, denotes⟩ := safeParseMaxint_numeral found
      exact ⟨read, same, .inr denotes, safeParseMaxint_le found⟩

/-- Sizes may be cut off before the sum. -/
private theorem toInt32_sizes (filemax length more : Int) :
    toInt32 (toInt32 (filemax + toInt32 length) + more) = toInt32 (filemax + (length + more)) := by
  rw [toInt32_add_toInt32, toInt32_toInt32_add, Int.add_assoc]

/-- The size of several segments. -/
private theorem sum_cons (segment : Segment) (segments : List Segment) (sectorSize : Nat) :
    ((sectors (segment :: segments) * sectorSize : Nat) : Int) =
      segment.2 * sectorSize + (sectors segments * sectorSize : Nat) := by
  rw [sectors_cons, Nat.add_mul, Int.natCast_add, Int.natCast_mul]

/-- What the loop over the name leaves, when there is room in the table: the segments that
are listed, and the total or their sum, as far as an `int` holds it. -/
theorem parseName_lists {sectorSize room : Nat} {name : List UInt8} {filemax : Int}
    {table : List Segment} {parsed : ParsedName} (ranged : toInt32 filemax = filemax)
    (parses : parseName sectorSize room name filemax table = some parsed)
    (left : 0 < parsed.room) :
    ∃ segments bytes, Lists name segments bytes ∧ parsed.table = table ++ segments ∧
      (∀ segment ∈ segments, 0 < segment.2 ∧ segment.1 ≤ maxint) ∧
      (bytes = none → parsed.filemax = toInt32 (filemax + (sectors segments * sectorSize : Nat))) ∧
      ∀ count, bytes = some count → parsed.filemax = count ∧ 0 < count ∧
        count ≤ toInt32 (filemax + (sectors segments * sectorSize : Nat)) := by
  induction room generalizing name filemax table with
  | zero =>
      obtain rfl := Option.some.inj parses
      exact absurd left (Nat.lt_irrefl 0)
  | succ room ih =>
      rw [parseName] at parses
      cases begins : (safeParseMaxint name).getD (0, name) with
      | mk start rest =>
          obtain ⟨read, same, denotes, small⟩ := start_numeral begins
          rw [begins] at parses
          dsimp only at parses
          by_cases plus : first rest = charOf '+'
          · rw [if_neg (not_not.mpr plus)] at parses
            cases follows : safeParseMaxint rest.tail with
            | none =>
                rw [follows] at parses
                cases parses
            | some pair =>
                obtain ⟨length, behind⟩ := pair
                rw [follows] at parses
                dsimp only at parses
                obtain ⟨digits, split, isLength⟩ := safeParseMaxint_numeral follows
                by_cases bad : length = 0 ∨ (!(endsName behind || first behind = charOf ',')) = true
                · rw [if_pos bad] at parses
                  cases parses
                · rw [if_neg bad] at parses
                  obtain ⟨some_, ends⟩ := not_or.mp bad
                  have segment : ListsSegment (read ++ charOf '+' :: digits) (start, length) :=
                    ⟨⟨read, digits, rfl, denotes, isLength⟩, Nat.pos_of_ne_zero some_⟩
                  have spelled : name = (read ++ charOf '+' :: digits) ++ behind := by
                    rw [same, cons_of_first plus (by decide), split, List.append_assoc]
                    rfl
                  by_cases comma : first behind = charOf ','
                  · rw [if_neg (not_not.mpr comma)] at parses
                    have wrapped : toInt32 (toInt32 (filemax + toInt32 (length * sectorSize))) =
                        toInt32 (filemax + toInt32 (length * sectorSize)) :=
                      toInt32_of_range (toInt32_lower _) (toInt32_upper _)
                    obtain ⟨segments, bytes, lists, entries, good, summed, counted⟩ :=
                      ih wrapped parses
                    rw [toInt32_sizes] at summed counted
                    refine ⟨(start, length) :: segments, bytes, ?_, ?_, ?_, ?_, ?_⟩
                    · rw [spelled, cons_of_first comma (by decide)]
                      exact .more segment lists
                    · rw [entries, List.append_assoc, List.singleton_append]
                    · exact List.forall_mem_cons.mpr ⟨⟨segment.nonempty, small⟩, good⟩
                    · rw [sum_cons]
                      exact summed
                    · rw [sum_cons]
                      exact counted
                  · rw [if_pos comma] at parses
                    obtain rfl := Option.some.inj parses
                    have last : endsName behind = true := by
                      rw [decide_eq_false comma, Bool.or_false] at ends
                      simpa using ends
                    refine ⟨[(start, length)], none, ?_, rfl, ?_, fun _ => ?_, nofun⟩
                    · rw [spelled]
                      exact .last segment last
                    · exact List.forall_mem_singleton.mpr ⟨segment.nonempty, small⟩
                    · have wraps := toInt32_sizes filemax (length * sectorSize) 0
                      rw [Int.add_zero, Int.add_zero] at wraps
                      rw [sum_cons, sectors_nil, Nat.zero_mul, Int.natCast_zero, Int.add_zero,
                        ← wraps]
                      exact (toInt32_of_range (toInt32_lower _) (toInt32_upper _)).symm
          · rw [if_pos plus] at parses
            split at parses
            · cases parses
            · next good =>
                obtain rfl := Option.some.inj parses
                obtain ⟨ends, positive, fits⟩ := not_or.mp good |>.imp_right not_or.mp
                have isNumeral := denotes.resolve_left fun missing => positive missing.2
                refine ⟨[], some start, ?_, (List.append_nil table).symm, nofun, nofun, ?_⟩
                · rw [same]
                  exact .total isNumeral (Nat.pos_of_ne_zero positive) (by simpa using ends)
                · intro count isCount
                  obtain rfl := Option.some.inj isCount
                  rw [sectors_nil, Nat.zero_mul, Int.natCast_zero, Int.add_zero, ranged]
                  exact ⟨rfl, Nat.pos_of_ne_zero positive, Int.not_lt.mp fits⟩

/-! ## Opening -/

/-- The name lists the sectors of the file, `filemax` is their size or the smaller total that
is given, and if the file is not decompressed its reads and seeks are those of a file of
these bytes. -/
def Faithful (media : PartitionMedia) (filename : List UInt8) (opened : OpenedFile) : Prop :=
  ∃ bytes, Lists filename opened.file.table bytes ∧
    opened.filemax = bytes.getD (sectors opened.file.table * media.sectorSize) ∧
      opened.filemax ≤ sectors opened.file.table * media.sectorSize ∧
        (opened.compressedFile = false → ∀ ops, Along (fileStep media)
          (Serves media ((listed media opened.file.table).take opened.filemax.toNat))
            opened.file ops)

section Opening

variable {media : PartitionMedia} {file : BlockFile} {opened : OpenedFile}
  {noDecompression : Bool}

/-- A table of segments whose bytes can be counted. -/
theorem listable_of_small {table : List Segment} (nonempty : table ≠ [])
    (segments : ∀ segment ∈ table, 0 < segment.2 ∧ segment.1 ≤ maxint)
    (small : sectors table * media.sectorSize < 2 ^ 31) : Listable media.sectorSize table := by
  refine ⟨sectorSize_pos media.toSectorMedia, segments, ?_⟩
  have some_ : 0 < sectors table := by
    cases table with
    | nil => exact absurd rfl nonempty
    | cons segment table =>
        have positive := (segments segment List.mem_cons_self).1
        rw [sectors_cons]
        omega
  rw [SectorMedia.sectorSize] at small ⊢
  have bits : media.sectorBits < 31 := by
    by_contra large
    have power : 2 ^ 31 ≤ 2 ^ media.sectorBits :=
      Nat.pow_le_pow_right (by decide) (Nat.le_of_not_lt large)
    have whole := Nat.le_mul_of_pos_left (2 ^ media.sectorBits) some_
    omega
  -- Both are multiples of the sector size.
  have parts : 2 ^ 31 = 2 ^ (31 - media.sectorBits) * 2 ^ media.sectorBits := by
    rw [← Nat.pow_add, Nat.sub_add_cancel (Nat.le_of_lt bits)]
  rw [parts] at small ⊢
  exact Nat.mul_le_mul_right _ (Nat.lt_of_mul_lt_mul_right small)

/-- The table is never written to after it was parsed. -/
theorem readSegments_table (fuel : Nat) (len : Int) (stored : List UInt8) (returned : Int) :
    (readSegments media fuel file len stored returned).file.table = file.table := by
  induction fuel generalizing file len stored returned with
  | zero => rw [readSegments]
  | succ fuel ih =>
      rw [readSegments]
      split
      · rfl
      · dsimp only
        split
        · rw [ih]
          rfl
        · rw [ih]
          rfl

/-- A read leaves the table. -/
theorem grubRead_table (len : Int) : (grubRead media file len).file.table = file.table := by
  rw [grubRead, readWithin]
  dsimp only
  split
  · rfl
  · split
    · exact readSegments_table _ _ _ _
    · exact readSegments_table _ _ _ _

/-- A file that is not taken for a compressed one is at its start; its first bytes may have
been read. -/
theorem gunzipTestHeader_plain
    (opens : gunzipTestHeader media noDecompression file = some opened)
    (plain : opened.compressedFile = false) :
    ∃ other, (other = file ∨ other = (grubRead media file 10).file) ∧
      opened = { file := { other with filepos := 0 }, compressedFile := false
                 filemax := other.filemax } := by
  have rewound : ∀ {other : BlockFile}, (other = file ∨ other = (grubRead media file 10).file) →
      (if other.errnum = .none then
        some ({ file := { other with filepos := 0 }, compressedFile := false
                filemax := other.filemax } : OpenedFile)
      else none) = some opened →
        ∃ other, (other = file ∨ other = (grubRead media file 10).file) ∧
          opened = { file := { other with filepos := 0 }, compressedFile := false
                     filemax := other.filemax } := by
    intro other which same
    split at same
    · exact ⟨other, which, (Option.some.inj same).symm⟩
    · cases same
  rw [gunzipTestHeader] at opens
  dsimp only at opens
  split at opens
  · exact rewound (.inl rfl) opens
  · split at opens
    · exact rewound (.inr rfl) opens
    · split at opens
      · cases opens
      · split at opens
        · cases opens
        · split at opens
          · cases opens
          · obtain rfl := Option.some.inj opens
            cases plain

/-- It is sound if it was before. -/
theorem Sound.rewound (sound : Sound media file) {other : BlockFile}
    (which : other = file ∨ other = (grubRead media file 10).file) :
    Sound media { other with filepos := 0 } ∧ other.filemax = file.filemax := by
  have start : ∀ {other : BlockFile}, Sound media other →
      Sound media { other with filepos := 0 } := fun kept =>
    ⟨kept.listable, kept.filemax, ⟨Int.le_refl 0, Int.le_trans kept.filepos.1 kept.filepos.2⟩,
      kept.place⟩
  rcases which with rfl | rfl
  · exact ⟨start sound, rfl⟩
  · obtain ⟨kept, _, filemax⟩ := grubRead_sound sound 10
    exact ⟨start kept, filemax⟩

end Opening

/-- A block list whose sectors have fewer than 2^31 bytes, and that is not taken for a
compressed file, is opened and read as the file it lists. -/
theorem grubOpen_faithful (media : PartitionMedia) (noDecompression : Bool)
    (filename : List UInt8) (opened : OpenedFile)
    (opens : grubOpen media noDecompression filename = some opened)
    (plain : opened.compressedFile = false)
    (small : sectors opened.file.table * media.sectorSize < 2 ^ 31) :
    Faithful media filename opened := by
  rw [grubOpen] at opens
  cases parses : parseName media.sectorSize tableRoom filename 0 [] with
  | none =>
      rw [parses] at opens
      cases opens
  | some parsed =>
      rw [parses] at opens
      dsimp only at opens
      split at opens
      · next accepted =>
          obtain ⟨segments, bytes, lists, entries, good, summed, counted⟩ :=
            parseName_lists rfl parses accepted.1
          obtain ⟨other, which, rfl⟩ := gunzipTestHeader_plain opens plain
          have table : other.table = segments := by
            rcases which with rfl | rfl
            · exact entries
            · rw [grubRead_table]
              exact entries
          dsimp only at small ⊢
          rw [table] at small
          have sum : toInt32 (0 + (sectors segments * media.sectorSize : Nat)) =
              (sectors segments * media.sectorSize : Nat) := by
            rw [Int.zero_add]
            exact toInt32_of_range (by omega) (by omega)
          rw [sum] at summed counted
          -- Without a segment there is no room for a total.
          have nonempty : segments ≠ [] := by
            rintro rfl
            cases lists with
            | total _ _ _ =>
                obtain ⟨_, positive, most⟩ := counted _ rfl
                rw [sectors_nil, Nat.zero_mul] at most
                omega
          have filemax : parsed.filemax =
              bytes.getD (sectors segments * media.sectorSize) ∧ 0 ≤ parsed.filemax ∧
                parsed.filemax ≤ (sectors segments * media.sectorSize : Nat) := by
            cases bytes with
            | none =>
                rw [summed rfl]
                exact ⟨rfl, Int.natCast_nonneg _, Int.le_refl _⟩
            | some count =>
                obtain ⟨same, _, most⟩ := counted count rfl
                rw [same]
                exact ⟨rfl, Int.natCast_nonneg _, most⟩
          have sound : Sound media parsed.opened := by
            have listable := listable_of_small nonempty good small
            refine ⟨?_, ?_, ⟨Int.le_refl 0, filemax.2.1⟩, ?_⟩
            · rw [ParsedName.opened, entries]
              exact listable
            · rw [ParsedName.opened, entries]
              exact_mod_cast filemax.2.2
            · rw [ParsedName.opened, entries]
              exact start_inPlace listable (List.length_pos_iff.mpr nonempty)
          obtain ⟨rewound, same⟩ := sound.rewound which
          have run := serves_run rewound
          have content : BlockFile.content media { other with filepos := 0 } =
              (listed media segments).take parsed.filemax.toNat := by
            rw [BlockFile.content, table, same]
            rfl
          have isMax : other.filemax = parsed.filemax := same
          rw [content, isMax, table] at run
          refine ⟨bytes, ?_, ?_, ?_, fun _ => ?_⟩
          · rw [table]
            exact lists
          · rw [isMax, table]
            exact filemax.1
          · rw [isMax, table]
            exact_mod_cast filemax.2.2
          · rw [isMax, table]
            exact run
      · cases opens

/-- A list of two segments and a total. -/
theorem grubOpen_faithful_total :
    ∃ opened, grubOpen (plainMedia (fun i => UInt8.ofNat (i / 512)) 100 9) false
        (ascii "5+1,0x8+2,1000") = some opened ∧ opened.filemax = 1000 ∧
      Faithful (plainMedia (fun i => UInt8.ofNat (i / 512)) 100 9) (ascii "5+1,0x8+2,1000")
        opened := by
  have opens : (grubOpen (plainMedia (fun i => UInt8.ofNat (i / 512)) 100 9) false
      (ascii "5+1,0x8+2,1000")).map (fun opened =>
        (opened.filemax, opened.compressedFile, sectors opened.file.table)) =
          some (1000, false, 3) := by
    decide +kernel
  obtain ⟨opened, isOpened, values⟩ := Option.map_eq_some_iff.mp opens
  obtain ⟨filemax, plain, few⟩ := Prod.mk.inj values |>.imp_right Prod.mk.inj
  refine ⟨opened, isOpened, filemax, grubOpen_faithful _ _ _ opened isOpened plain ?_⟩
  rw [few]
  decide

/-! ## Files that are not what their lists say -/

/-- A sector that begins like a compressed file and ends with the length 5. -/
def gzipSector (i : Nat) : UInt8 :=
  ([0x1F, 0x8B, 8] ++ List.replicate 505 0 ++ [5, 0, 0, 0] : List UInt8).getD i 0

/-- The size of a list may not be one an `int` can hold, and a list of compressed data has
the size these have when they are not. -/
theorem grubOpen_unfaithful :
    (∃ opened, grubOpen (plainMedia (fun _ => 0) 100 9) true (ascii "0+4194305") = some opened ∧
      ¬ Faithful (plainMedia (fun _ => 0) 100 9) (ascii "0+4194305") opened) ∧
    ∃ opened, grubOpen (plainMedia gzipSector 100 9) false (ascii "0+1") = some opened ∧
      ¬ Faithful (plainMedia gzipSector 100 9) (ascii "0+1") opened := by
  have overflows : (grubOpen (plainMedia (fun _ => 0) 100 9) true (ascii "0+4194305")).map
      (fun opened => opened.filemax) = some (-2147483136) := by
    decide +kernel
  have unpacked : (grubOpen (plainMedia gzipSector 100 9) false (ascii "0+1")).map
      (fun opened => (opened.filemax, opened.file.table)) = some (5, [(0, 1)]) := by
    decide +kernel
  constructor
  · obtain ⟨opened, isOpened, negative⟩ := Option.map_eq_some_iff.mp overflows
    refine ⟨opened, isOpened, ?_⟩
    rintro ⟨bytes, _, filemax, _⟩
    rw [negative] at filemax
    omega
  · obtain ⟨opened, isOpened, values⟩ := Option.map_eq_some_iff.mp unpacked
    obtain ⟨filemax, table⟩ := Prod.mk.inj values
    refine ⟨opened, isOpened, ?_⟩
    rintro ⟨bytes, lists, size, _⟩
    rw [filemax, table] at size
    rw [table] at lists
    generalize isName : ascii "0+1" = name at lists
    cases lists with
    | last first ends =>
        revert size
        decide
    | more first others =>
        have comma : charOf ',' ∈ ascii "0+1" := by
          rw [isName]
          exact List.mem_append_right _ List.mem_cons_self
        revert comma
        decide

end GrubLegacy.BlockFiles
