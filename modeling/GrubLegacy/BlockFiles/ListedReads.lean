import GrubLegacy.Base.Runs
import GrubLegacy.BlockFiles.CursorPlace

/-!
# Reading a block list

Reads of a file given as a block list deliver what its sectors hold, wherever earlier
reads left the cursor.
-/

namespace GrubLegacy.BlockFiles

open Base Stage2 DiskIo

/-- An open file whose cursor is in place. -/
structure Sound (media : PartitionMedia) (file : BlockFile) : Prop where
  listable : Listable media.sectorSize file.table
  filemax : file.filemax ≤ sectors file.table * media.sectorSize
  filepos : 0 ≤ file.filepos ∧ file.filepos ≤ file.filemax
  place : InPlace media.sectorSize file.table file.cursor

section Rounds

variable {media : PartitionMedia} {file : BlockFile} {len : Int}

/-- The rest of the entry the cursor is in is read, or as much of it as is asked for. -/
theorem size_of_place (sound : Sound media file) (some_ : 0 < len) :
    0 < file.size media.sectorSize len ∧ file.size media.sectorSize len ≤ len ∧
      file.cursor.blknum * media.sectorSize + file.filepos % media.sectorSize +
          file.size media.sectorSize len ≤
        blklength file.table file.cursor.blklist * media.sectorSize := by
  have positive : (0 : Int) < media.sectorSize := Int.natCast_pos.mpr (sectorSize_pos media.toSectorMedia)
  have inside := sound.place.inside
  have low := sound.place.blknum
  have off := Int.emod_lt_of_pos file.filepos positive
  have offLow := Int.emod_nonneg file.filepos (Int.ne_of_gt positive)
  have entry : blklength file.table file.cursor.blklist ≤ sectors file.table := by
    have taken := sectors_take_succ sound.place.entry
    have all := sectors_take_le file.table (file.cursor.blklist + 1)
    omega
  have small : ((sectors file.table + 1) * media.sectorSize : Int) ≤ 2 ^ 31 := by
    exact_mod_cast sound.listable.small
  rw [Int.add_mul, Int.one_mul] at small
  have left : ((blklength file.table file.cursor.blklist - file.cursor.blknum) *
      media.sectorSize : Int) =
        blklength file.table file.cursor.blklist * media.sectorSize -
          file.cursor.blknum * media.sectorSize := Int.sub_mul _ _ _
  have before : 0 ≤ file.cursor.blknum * media.sectorSize :=
    Int.mul_nonneg low (Int.le_of_lt positive)
  have whole : (blklength file.table file.cursor.blklist * media.sectorSize : Int) ≤
      sectors file.table * media.sectorSize :=
    Int.mul_le_mul_of_nonneg_right (Int.ofNat_le.mpr entry) (Int.le_of_lt positive)
  have next : (file.cursor.blknum * media.sectorSize + media.sectorSize : Int) ≤
      blklength file.table file.cursor.blklist * media.sectorSize := by
    have step := Int.mul_le_mul_of_nonneg_right (Int.add_one_le_of_lt inside)
      (Int.le_of_lt positive)
    rw [Int.add_mul, Int.one_mul] at step
    exact step
  have inner : toInt32 (blklength file.table file.cursor.blklist * media.sectorSize -
      file.cursor.blknum * media.sectorSize) =
        blklength file.table file.cursor.blklist * media.sectorSize -
          file.cursor.blknum * media.sectorSize := toInt32_of_range (by omega) (by omega)
  rw [BlockFile.size, left, inner, toInt32_of_range (by omega) (by omega)]
  split <;> omega

/-- What is read there are the listed bytes. -/
theorem devread_listed (sound : Sound media file) (some_ : 0 < len)
    (sector : file.filepos / media.sectorSize =
      sectors (file.table.take file.cursor.blklist) + file.cursor.blknum)
    {bytes : List UInt8}
    (reads : media.devread
      (toInt32 (blkstart file.table file.cursor.blklist + file.cursor.blknum))
      (file.filepos % media.sectorSize) (file.size media.sectorSize len) = .ok bytes) :
    bytes = ((listed media file.table).drop file.filepos.toNat).take
      (file.size media.sectorSize len).toNat := by
  have positive : (0 : Int) < media.sectorSize := Int.natCast_pos.mpr (sectorSize_pos media.toSectorMedia)
  obtain ⟨sizeLow, sizeLe, fits⟩ := size_of_place sound some_
  obtain ⟨sectorLow, rfl⟩ := devread_ok reads
  obtain ⟨num, isNum⟩ := Int.eq_ofNat_of_zero_le sound.place.blknum
  obtain ⟨size, isSize⟩ := Int.eq_ofNat_of_zero_le (Int.le_of_lt sizeLow)
  obtain ⟨off, isOff⟩ := Int.eq_ofNat_of_zero_le
    (Int.emod_nonneg file.filepos (Int.ne_of_gt positive))
  have entry := sound.place.entry
  have start : blkstart file.table file.cursor.blklist ≤ maxint := by
    rw [blkstart_eq entry]
    exact (sound.listable.segments _ (List.get_mem _ _)).2
  have numLt := sound.place.inside
  have few : blklength file.table file.cursor.blklist ≤ sectors file.table := by
    have taken := sectors_take_succ entry
    have all := sectors_take_le file.table (file.cursor.blklist + 1)
    omega
  have limit : sectors file.table < 2 ^ 31 := by
    have small := sound.listable.small
    have one := sound.listable.positive
    have le := Nat.le_mul_of_pos_right (sectors file.table + 1) one
    omega
  rw [isNum] at sectorLow fits sector numLt ⊢
  rw [isSize, isOff] at fits ⊢
  have sum : toInt32 ((blkstart file.table file.cursor.blklist : Int) + num) =
      (blkstart file.table file.cursor.blklist + num : Nat) := by
    rw [maxint] at start
    rw [toInt32] at sectorLow ⊢
    omega
  have position : file.filepos.toNat =
      (sectors (file.table.take file.cursor.blklist) + num) * media.sectorSize + off := by
    have parts := Int.emod_add_mul_ediv file.filepos media.sectorSize
    rw [isOff, sector, Int.mul_comm] at parts
    rw [← parts]
    have cast : (off : Int) + (sectors (file.table.take file.cursor.blklist) + num) *
        media.sectorSize =
          ((sectors (file.table.take file.cursor.blklist) + num) * media.sectorSize + off : Nat) := by
      push_cast
      rw [Int.add_comm]
    rw [cast, Int.toNat_natCast]
  have place : ((blkstart file.table file.cursor.blklist + num : Nat) * media.sectorSize +
      (off : Int)).toNat =
        (blkstart file.table file.cursor.blklist + num) * media.sectorSize + off := by
    rw [← Int.natCast_mul, ← Int.natCast_add, Int.toNat_natCast]
  rw [sum, place, position, Int.toNat_natCast]
  refine (listed_slice media entry ?_).symm
  exact_mod_cast fits

/-- A file at the sector of its position. -/
theorem Sound.at_seek (sound : Sound media file) (inFile : file.filepos < file.filemax) :
    Sound media (file.at (file.cursor.seek media.sectorSize file.table file.filepos)) ∧
      file.filepos / media.sectorSize =
        sectors (file.table.take
          (file.cursor.seek media.sectorSize file.table file.filepos).blklist) +
          (file.cursor.seek media.sectorSize file.table file.filepos).blknum := by
  have filemax := sound.filemax
  obtain ⟨place, sector⟩ := seek_inPlace sound.listable sound.place sound.filepos.1
    (Int.lt_of_lt_of_le inFile filemax)
  exact ⟨⟨sound.listable, filemax, sound.filepos, place⟩, sector⟩

/-- Moving inside the file keeps it sound, -/
theorem Sound.moved (sound : Sound media file) {size : Int} (low : 0 ≤ size)
    (fits : file.filepos + size ≤ file.filemax) : Sound media (file.moved size) :=
  ⟨sound.listable, sound.filemax,
    ⟨Int.add_nonneg sound.filepos.1 low, fits⟩, sound.place⟩

/-- and so does a failure. -/
theorem Sound.fail (sound : Sound media file) (errnum : GrubError) :
    Sound media (file.fail errnum) :=
  ⟨sound.listable, sound.filemax, sound.filepos, sound.place⟩

/-- The state after a read of a file: it is the same file with the cursor in place, and
without an error so many of its bytes were read. -/
structure ReadsOn (media : PartitionMedia) (file : BlockFile) (len : Int) (stored : List UInt8)
    (returned : Int) (read : BlockRead) : Prop where
  sound : Sound media read.file
  table : read.file.table = file.table
  filemax : read.file.filemax = file.filemax
  whole : read.file.errnum = .none →
    read.stored = stored ++ ((listed media file.table).drop file.filepos.toNat).take len.toNat ∧
      read.returned = returned + len ∧ read.file.filepos = file.filepos + len

/-- After an error the loop does nothing. -/
theorem readSegments_failed (failed : file.errnum ≠ .none) (fuel : Nat) (len : Int)
    (stored : List UInt8) (returned : Int) :
    readSegments media fuel file len stored returned = { file, stored, returned } := by
  cases fuel with
  | zero => rw [readSegments]
  | succ fuel => rw [readSegments, if_pos (.inr failed)]

/-- Where the loop stops at once, nothing was asked for or there is an error. -/
theorem readsOn_stop (sound : Sound media file) (ends : len = 0 ∨ file.errnum ≠ .none)
    (stored : List UInt8) (returned : Int) :
    ReadsOn media file len stored returned { file, stored, returned } := by
  refine ⟨sound, rfl, rfl, fun quiet => ?_⟩
  obtain rfl := ends.resolve_right (not_not.mpr quiet)
  exact ⟨by rw [Int.toNat_zero, List.take_zero, List.append_nil], (Int.add_zero _).symm,
    (Int.add_zero _).symm⟩

/-- The loop of `grub_read`, by induction on its rounds. -/
theorem readSegments_readsOn {fuel : Nat} {stored : List UInt8} {returned : Int}
    (sound : Sound media file) (low : 0 ≤ len) (enough : len ≤ fuel)
    (fits : file.filepos + len ≤ file.filemax) :
    ReadsOn media file len stored returned
      (readSegments media fuel file len stored returned) := by
  induction fuel generalizing file len stored returned with
  | zero => exact readsOn_stop sound (.inl (by omega)) stored returned
  | succ fuel ih =>
      rw [readSegments]
      by_cases ends : len = 0 ∨ file.errnum ≠ .none
      · rw [if_pos ends]
        exact readsOn_stop sound ends stored returned
      · rw [if_neg ends]
        have some_ : 0 < len := by omega
        obtain ⟨placed, sector⟩ := sound.at_seek (by omega)
        have filepos : (file.at (file.cursor.seek media.sectorSize file.table
          file.filepos)).filepos = file.filepos := rfl
        have table : (file.at (file.cursor.seek media.sectorSize file.table
          file.filepos)).table = file.table := rfl
        have filemax : (file.at (file.cursor.seek media.sectorSize file.table
          file.filepos)).filemax = file.filemax := rfl
        have sizes := @size_of_place media _ len placed some_
        have contents := fun bytes => @devread_listed media _ len placed some_ sector bytes
        revert placed filepos table filemax sizes contents
        dsimp only
        generalize file.at (file.cursor.seek media.sectorSize file.table file.filepos) = seeked
        intro placed filepos table filemax sizes contents
        obtain ⟨sizeLow, sizeLe, _⟩ := sizes
        revert contents sizeLow sizeLe
        generalize seeked.size media.sectorSize len = size
        intro contents sizeLow sizeLe
        have movedSound : Sound media (seeked.moved size) :=
          placed.moved (Int.le_of_lt sizeLow) (by omega)
        cases reads : media.devread
            (toInt32 (blkstart seeked.table seeked.cursor.blklist + seeked.cursor.blknum))
            (seeked.filepos % media.sectorSize) size with
        | error failure =>
            dsimp only
            rw [readSegments_failed failure.2]
            exact ⟨movedSound.fail failure, table, filemax, fun quiet => absurd quiet failure.2⟩
        | ok bytes =>
            dsimp only
            have movedPos : (seeked.moved size).filepos = file.filepos + size := by
              rw [← filepos]
              rfl
            have movedMax : (seeked.moved size).filemax = file.filemax := filemax
            have movedTable : (seeked.moved size).table = file.table := table
            have rest := @ih (seeked.moved size) (len - size) (stored ++ bytes) (returned + size)
              movedSound (by omega) (by omega) (by omega)
            have low' := sound.filepos.1
            refine ⟨rest.sound, rest.table.trans table, rest.filemax.trans filemax,
              fun quiet => ?_⟩
            obtain ⟨content, count, position⟩ := rest.whole quiet
            have next : (file.filepos + size).toNat = file.filepos.toNat + size.toNat := by omega
            have all : len.toNat = size.toNat + (len - size).toNat := by omega
            refine ⟨?_, by omega, by omega⟩
            rw [content, contents bytes reads, table, filepos, movedTable, movedPos, next, all,
              List.take_add, List.drop_drop, List.append_assoc]

end Rounds

/-! ## Reads and seeks -/

section Reads

variable {media : PartitionMedia} {file : BlockFile} {len offset : Int}

/-- The bytes of the file: those of its sectors, up to `filemax`. -/
def BlockFile.content (media : PartitionMedia) (file : BlockFile) : List UInt8 :=
  (listed media file.table).take file.filemax.toNat

/-- How many bytes are asked for: all of them if the length is negative. -/
def wanted (content : List UInt8) (len : Int) : Nat :=
  if len < 0 then content.length else len.toNat

/-- A read of a file of these bytes that leaves no error returns those at `filepos`, as many
as are asked for or as there are, and ends behind them. Otherwise it returns nothing. -/
structure ReadsListed (content : List UInt8) (file : BlockFile) (len : Int)
    (read : BlockRead) : Prop where
  whole : read.file.errnum = .none →
    read.stored = (content.drop file.filepos.toNat).take (wanted content len) ∧
      read.returned = read.stored.length ∧ read.file.filepos = file.filepos + read.returned
  failed : read.file.errnum ≠ .none → read.returned = 0

/-- The size is an `int`. -/
theorem filemax_le_maxint (sound : Sound media file) : file.filemax ≤ maxint := by
  have filemax := sound.filemax
  have small : ((sectors file.table + 1) * media.sectorSize : Int) ≤ 2 ^ 31 := by
    exact_mod_cast sound.listable.small
  have positive : (0 : Int) < media.sectorSize := Int.natCast_pos.mpr sound.listable.positive
  rw [Int.add_mul, Int.one_mul] at small
  rw [maxint]
  omega

/-- What the loop does is what `grub_read` does. -/
theorem grubRead_readsOn (sound : Sound media file) (len : Int) :
    ∃ read, ReadsOn media file (saneLen file.filemax file.filepos len) [] 0 read ∧
      grubRead media file len =
        if read.file.errnum ≠ .none then { read with returned := 0 } else read := by
  obtain ⟨low, fits⟩ := saneLen_range sound.filepos len
  have limit := filemax_le_maxint sound
  refine ⟨_, readSegments_readsOn sound low (Int.self_le_toNat _) fits, ?_⟩
  exact readWithin_inside sound.filepos.1 sound.filepos.2 limit _ _ len

/-- The contents are as long as the file. -/
theorem content_length (sound : Sound media file) :
    (file.content media).length = file.filemax.toNat := by
  have filemax := sound.filemax
  have cast : (sectors file.table * media.sectorSize : Int) =
      (sectors file.table * media.sectorSize : Nat) := (Int.natCast_mul _ _).symm
  rw [BlockFile.content, List.length_take, listed_length]
  omega

/-- A read delivers what the file has at its position. -/
theorem grubRead_listed (sound : Sound media file) (len : Int) :
    ReadsListed (file.content media) file len (grubRead media file len) := by
  obtain ⟨read, reads, same⟩ := grubRead_readsOn sound len
  obtain ⟨low, fits⟩ := saneLen_range sound.filepos len
  have filepos := sound.filepos
  have size := content_length sound
  rw [same]
  split
  · next failed => exact ⟨fun quiet => absurd quiet failed, fun _ => rfl⟩
  · next quiet =>
      have quiet := not_not.mp quiet
      obtain ⟨stored, returned, position⟩ := reads.whole quiet
      have content : read.stored =
          ((file.content media).drop file.filepos.toNat).take
            (saneLen file.filemax file.filepos len).toNat := by
        rw [stored, List.nil_append, BlockFile.content, List.drop_take, List.take_take]
        congr 1
        omega
      have length : read.stored.length = (saneLen file.filemax file.filepos len).toNat := by
        rw [content, List.length_take, List.length_drop, size]
        omega
      refine ⟨fun _ => ⟨?_, by omega, by omega⟩, fun failed => absurd quiet failed⟩
      rw [content, List.take_eq_take_iff, List.length_drop, size, wanted, size,
        saneLen]
      split
      · split <;> omega
      · split <;> omega

/-- A read keeps the cursor in place, whatever comes of it. -/
theorem grubRead_sound (sound : Sound media file) (len : Int) :
    Sound media (grubRead media file len).file ∧
      (grubRead media file len).file.table = file.table ∧
        (grubRead media file len).file.filemax = file.filemax := by
  obtain ⟨read, reads, same⟩ := grubRead_readsOn sound len
  rw [same]
  split
  · exact ⟨reads.sound, reads.table, reads.filemax⟩
  · exact ⟨reads.sound, reads.table, reads.filemax⟩

/-- A seek keeps the file sound. -/
theorem grubSeek_sound (sound : Sound media file) (offset : Int) :
    Sound media (grubSeek file offset) :=
  ⟨sound.listable, sound.filemax, seekFilepos_range sound.filepos offset, sound.place⟩

end Reads

/-- What is done with an open file; its user may take an error back. -/
inductive FileOp where
  | seek (offset : Int)
  | read (len : Int)
  | forgive
deriving DecidableEq, Repr

/-- The file after an operation. -/
def fileStep (media : PartitionMedia) (file : BlockFile) : FileOp → BlockFile
  | .seek offset => grubSeek file offset
  | .read len => (grubRead media file len).file
  | .forgive => file.fail .none

/-- In a file of these bytes a seek goes where it is told, and a read delivers what is
there. -/
def Serves (media : PartitionMedia) (content : List UInt8) (file : BlockFile) : FileOp → Prop
  | .seek offset => 0 ≤ offset → offset ≤ content.length → (grubSeek file offset).filepos = offset
  | .read len => ReadsListed content file len (grubRead media file len)
  | .forgive => True

section Run

variable {media : PartitionMedia} {file : BlockFile}

/-- No operation gives the file other bytes. -/
theorem fileStep_sound (sound : Sound media file) (op : FileOp) :
    Sound media (fileStep media file op) ∧
      (fileStep media file op).content media = file.content media := by
  cases op with
  | seek offset =>
      exact ⟨grubSeek_sound sound offset, rfl⟩
  | read len =>
      obtain ⟨kept, table, filemax⟩ := grubRead_sound sound len
      refine ⟨kept, ?_⟩
      rw [fileStep, BlockFile.content, table, filemax, BlockFile.content]
  | forgive => exact ⟨sound.fail .none, rfl⟩

/-- Every operation of a sound file is served. -/
theorem serves_of_sound (sound : Sound media file) (op : FileOp) :
    Serves media (file.content media) file op := by
  cases op with
  | seek offset =>
      intro low high
      have filepos := sound.filepos
      rw [content_length sound] at high
      exact seekFilepos_of_range low (by omega)
  | read len => exact grubRead_listed sound len
  | forgive => trivial

/-- Every seek and read of a run is served. -/
theorem serves_run (sound : Sound media file) (ops : List FileOp) :
    Along (fileStep media) (Serves media (file.content media)) file ops := by
  induction ops generalizing file with
  | nil => trivial
  | cons op ops ih =>
      obtain ⟨kept, same⟩ := fileStep_sound sound op
      have later := ih kept
      rw [same] at later
      exact ⟨serves_of_sound sound op, later⟩

end Run

end GrubLegacy.BlockFiles
