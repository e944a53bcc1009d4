import GrubLegacy.BlockFiles.BlockFile

/-!
# The cursor of a block list

Where the cursor is: its position lies in the sector its entry and sector number name.
Running it forward, and starting again for a position behind it, keep this.
-/

namespace GrubLegacy.BlockFiles

open Base Stage2 DiskIo

/-! ## The listed sectors -/

/-- How many sectors a table lists. -/
def sectors (table : List Segment) : Nat := (table.map Prod.snd).sum

/-- The bytes of the listed sectors, one after the other. -/
def listed (media : PartitionMedia) (table : List Segment) : List UInt8 :=
  table.flatMap fun segment =>
    media.bytes (segment.1 * media.sectorSize) (segment.2 * media.sectorSize)

section Listed

variable {media : PartitionMedia} {table : List Segment} {entry : Nat}

/-- No segments have no sectors. -/
@[simp]
theorem sectors_nil : sectors [] = 0 := rfl

/-- A segment in front has its own, -/
@[simp]
theorem sectors_cons (segment : Segment) (table : List Segment) :
    sectors (segment :: table) = segment.2 + sectors table := by
  rw [sectors, List.map_cons, List.sum_cons, sectors]

/-- and two tables have those of both. -/
@[simp]
theorem sectors_append (table table' : List Segment) :
    sectors (table ++ table') = sectors table + sectors table' := by
  rw [sectors, List.map_append, List.sum_append, sectors, sectors]

/-- What is listed is as long as its sectors. -/
theorem listed_length (media : PartitionMedia) (table : List Segment) :
    (listed media table).length = sectors table * media.sectorSize := by
  induction table with
  | nil => rw [listed, List.flatMap_nil, List.length_nil, sectors_nil, Nat.zero_mul]
  | cons segment table ih =>
      rw [listed] at ih ⊢
      rw [List.flatMap_cons, List.length_append, ih, bytes_length, sectors_cons, Nat.add_mul]

/-- The length of an entry is that in the table, -/
theorem blklength_eq (inside : entry < table.length) :
    blklength table entry = (table.get ⟨entry, inside⟩).2 := by
  rw [blklength, List.getD_eq_getElem _ _ inside]
  rfl

/-- and so is its start. -/
theorem blkstart_eq (inside : entry < table.length) :
    blkstart table entry = (table.get ⟨entry, inside⟩).1 := by
  rw [blkstart, List.getD_eq_getElem _ _ inside]
  rfl

/-- A table around one of its entries. -/
theorem table_split (inside : entry < table.length) :
    table = table.take entry ++ (blkstart table entry, blklength table entry) ::
      table.drop (entry + 1) := by
  rw [blkstart_eq inside, blklength_eq inside]
  conv_lhs => rw [← List.take_append_drop entry table, List.drop_eq_getElem_cons inside]
  rfl

/-- One entry more has its sectors more, -/
theorem sectors_take_succ (inside : entry < table.length) :
    sectors (table.take (entry + 1)) = sectors (table.take entry) + blklength table entry := by
  rw [blklength_eq inside, List.take_add_one, List.getElem?_eq_getElem inside, sectors_append]
  rfl

/-- and some entries have no more than all. -/
theorem sectors_take_le (table : List Segment) (entry : Nat) :
    sectors (table.take entry) ≤ sectors table := by
  conv_rhs => rw [← List.take_append_drop entry table, sectors_append]
  exact Nat.le_add_right _ _

/-- The bytes of one entry among those that are listed. -/
theorem listed_slice (media : PartitionMedia) (inside : entry < table.length) {num off size : Nat}
    (fits : num * media.sectorSize + off + size ≤ blklength table entry * media.sectorSize) :
    ((listed media table).drop
        ((sectors (table.take entry) + num) * media.sectorSize + off)).take size =
      media.bytes ((blkstart table entry + num) * media.sectorSize + off) size := by
  have before : (listed media (table.take entry)).length =
      sectors (table.take entry) * media.sectorSize := listed_length media _
  have parts : listed media table = listed media (table.take entry) ++
      (media.bytes (blkstart table entry * media.sectorSize)
        (blklength table entry * media.sectorSize) ++
          listed media (table.drop (entry + 1))) := by
    conv_lhs => rw [table_split inside]
    rw [listed, listed, listed, List.flatMap_append, List.flatMap_cons]
  have position : (sectors (table.take entry) + num) * media.sectorSize + off =
      (listed media (table.take entry)).length + (num * media.sectorSize + off) := by
    rw [before, Nat.add_mul, Nat.add_assoc]
  rw [parts, position, List.drop_append, List.drop_eq_nil_of_le (Nat.le_add_right _ _),
    List.nil_append, Nat.add_sub_cancel_left, List.drop_append_of_le_length
      (by rw [bytes_length]; omega), List.take_append_of_le_length
        (by rw [List.length_drop, bytes_length]; omega), bytes_drop, bytes_take]
  congr 1
  · rw [Nat.add_mul, Nat.add_assoc]
  · omega

end Listed

/-! ## The cursor -/

/-- The cursor is in a listed sector, and its position is in that sector of the file. -/
structure InPlace (sectorSize : Nat) (table : List Segment) (cursor : Cursor) : Prop where
  filepos : 0 ≤ cursor.filepos
  entry : cursor.blklist < table.length
  blknum : 0 ≤ cursor.blknum
  inside : cursor.blknum < blklength table cursor.blklist
  sector : cursor.filepos / sectorSize = sectors (table.take cursor.blklist) + cursor.blknum

/-- The table lists sectors, and their bytes can be counted with an `int`. -/
structure Listable (sectorSize : Nat) (table : List Segment) : Prop where
  positive : 0 < sectorSize
  segments : ∀ segment ∈ table, 0 < segment.2 ∧ segment.1 ≤ maxint
  small : (sectors table + 1) * sectorSize ≤ 2 ^ 31

section Place

variable {sectorSize : Nat} {table : List Segment} {cursor : Cursor} {filepos : Int}

/-- A segment that can be listed has a sector. -/
theorem blklength_pos (listable : Listable sectorSize table) {entry : Nat}
    (inside : entry < table.length) : 0 < blklength table entry := by
  rw [blklength_eq inside]
  exact (listable.segments _ (List.get_mem table _)).1

/-- The start of the list. -/
theorem start_inPlace (listable : Listable sectorSize table) (nonempty : 0 < table.length) :
    InPlace sectorSize table .start where
  filepos := Int.le_refl 0
  entry := nonempty
  blknum := Int.le_refl 0
  inside := Int.natCast_pos.mpr (blklength_pos listable nonempty)
  sector := by
    rw [Cursor.start, List.take_zero, sectors_nil]
    exact Int.zero_ediv _

/-- The sector a position is in. -/
theorem ediv_lt_sectors (inFile : filepos < sectors table * sectorSize)
    (listable : Listable sectorSize table) : filepos / sectorSize < sectors table :=
  Int.ediv_lt_of_lt_mul (Int.natCast_pos.mpr listable.positive) inFile

/-- A round keeps the cursor in place and takes it on, but not past the sector of the
position. -/
theorem forward_inPlace (listable : Listable sectorSize table)
    (place : InPlace sectorSize table cursor) (behind : cursor.filepos < filepos)
    (inFile : filepos < sectors table * sectorSize) :
    InPlace sectorSize table (cursor.forward sectorSize table filepos) ∧
      (cursor.forward sectorSize table filepos).filepos / sectorSize ≤ filepos / sectorSize ∧
        cursor.filepos < (cursor.forward sectorSize table filepos).filepos := by
  have positive : (0 : Int) < sectorSize := Int.natCast_pos.mpr listable.positive
  have low := place.filepos
  have here := Int.emod_add_mul_ediv cursor.filepos sectorSize
  have rest := Int.emod_lt_of_pos cursor.filepos positive
  have restLow := Int.emod_nonneg cursor.filepos (Int.ne_of_gt positive)
  have sector := place.sector
  rw [Int.mul_comm] at here
  rw [Cursor.forward]
  by_cases further : (sectorSize : Int) ≤
      filepos - cursor.filepos / sectorSize * sectorSize
  · rw [if_pos further]
    have small : ((sectors table + 1) * sectorSize : Int) ≤ 2 ^ 31 := by
      exact_mod_cast listable.small
    have total : ((sectors table + 1) * sectorSize : Int) =
        sectors table * sectorSize + sectorSize := by
      rw [Int.add_mul, Int.one_mul]
    have moved : toInt32 (cursor.filepos + sectorSize) = cursor.filepos + sectorSize :=
      toInt32_of_range (by omega) (by omega)
    have next : (cursor.filepos + sectorSize) / sectorSize = cursor.filepos / sectorSize + 1 :=
      Int.add_ediv_of_dvd_right (Int.dvd_refl _) |>.trans
        (by rw [Int.ediv_self (Int.ne_of_gt positive)])
    have later : cursor.filepos / sectorSize + 1 ≤ filepos / sectorSize := by
      rw [Int.le_ediv_iff_mul_le positive, Int.add_mul, Int.one_mul]
      omega
    have before := ediv_lt_sectors inFile listable
    dsimp only
    rw [moved]
    by_cases full : (blklength table cursor.blklist : Int) ≤ cursor.blknum + 1
    · rw [if_pos full]
      have inside := place.inside
      have taken := sectors_take_succ place.entry
      have entry : cursor.blklist + 1 < table.length := by
        by_contra last
        have whole : table.take (cursor.blklist + 1) = table :=
          List.take_of_length_le (Nat.le_of_not_lt last)
        rw [whole] at taken
        omega
      refine ⟨⟨by dsimp only; omega, entry, Int.le_refl 0,
        Int.natCast_pos.mpr (blklength_pos listable entry), ?_⟩, ?_, ?_⟩
      · dsimp only
        rw [next, taken]
        omega
      · dsimp only
        rw [next]
        exact later
      · dsimp only
        omega
    · rw [if_neg full]
      have blknum := place.blknum
      refine ⟨⟨by dsimp only; omega, place.entry, by dsimp only; omega,
        Int.lt_of_not_ge full, ?_⟩, ?_, ?_⟩
      · dsimp only
        rw [next]
        omega
      · dsimp only
        rw [next]
        exact later
      · dsimp only
        omega
  · rw [if_neg further]
    have same : filepos / sectorSize = cursor.filepos / sectorSize := by
      apply Int.le_antisymm
      · have lower := Int.lt_ediv_add_one_mul_self cursor.filepos positive
        apply Int.le_of_lt_add_one
        rw [Int.ediv_lt_iff_lt_mul positive, Int.add_mul, Int.one_mul]
        omega
      · exact Int.ediv_le_ediv positive (Int.le_of_lt behind)
    refine ⟨⟨by dsimp only; omega, place.entry, place.blknum, place.inside, ?_⟩, ?_, behind⟩
    · dsimp only
      rw [same]
      exact sector
    · exact Int.le_refl _

/-- The loop ends in the sector of the position. -/
theorem run_inPlace (listable : Listable sectorSize table)
    (inFile : filepos < sectors table * sectorSize) {fuel : Nat}
    (place : InPlace sectorSize table cursor) (enough : filepos - cursor.filepos ≤ fuel)
    (notPast : cursor.filepos / sectorSize ≤ filepos / sectorSize) :
    InPlace sectorSize table (Cursor.run sectorSize table filepos fuel cursor) ∧
      (Cursor.run sectorSize table filepos fuel cursor).filepos / sectorSize =
        filepos / sectorSize := by
  have positive : (0 : Int) < sectorSize := Int.natCast_pos.mpr listable.positive
  induction fuel generalizing cursor with
  | zero =>
      have reached : filepos ≤ cursor.filepos := by omega
      exact ⟨place, Int.le_antisymm notPast (Int.ediv_le_ediv positive reached)⟩
  | succ fuel ih =>
      rw [Cursor.run]
      split
      · next behind =>
          obtain ⟨kept, before, advanced⟩ := forward_inPlace listable place behind inFile
          exact ih kept (by omega) before
      · next reached =>
          exact ⟨place, Int.le_antisymm notPast
            (Int.ediv_le_ediv positive (Int.le_of_not_gt reached))⟩

/-- The cursor gets to the sector of any position in the file. -/
theorem seek_inPlace (listable : Listable sectorSize table)
    (place : InPlace sectorSize table cursor) (low : 0 ≤ filepos)
    (inFile : filepos < sectors table * sectorSize) :
    InPlace sectorSize table (cursor.seek sectorSize table filepos) ∧
      filepos / sectorSize = sectors (table.take (cursor.seek sectorSize table filepos).blklist) +
        (cursor.seek sectorSize table filepos).blknum := by
  have positive : (0 : Int) < sectorSize := Int.natCast_pos.mpr listable.positive
  have nonempty : 0 < table.length := Nat.lt_of_le_of_lt (Nat.zero_le _) place.entry
  have reached : InPlace sectorSize table (cursor.seek sectorSize table filepos) ∧
      (cursor.seek sectorSize table filepos).filepos / sectorSize = filepos / sectorSize := by
    rw [Cursor.seek]
    split
    · have zero : Cursor.start.filepos = 0 := rfl
      refine run_inPlace listable inFile (start_inPlace listable nonempty) (by omega) ?_
      rw [zero]
      exact Int.ediv_le_ediv positive low
    · next notPast =>
        have cursorLow := place.filepos
        exact run_inPlace listable inFile place (by omega)
          (Int.ediv_le_ediv positive (Int.le_of_not_gt notPast))
  exact ⟨reached.1, reached.2.symm.trans reached.1.sector⟩

end Place

end GrubLegacy.BlockFiles
