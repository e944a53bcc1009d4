import GrubLegacy.Stage2.Shared

/-!
# Reads and seeks

`grub_read` and `grub_seek` of `disk_io.c` up to the contents, which come from a file system, from
`gunzip_read` or from the sectors of a block list. They keep `filepos` and the length within the
file.
-/

namespace GrubLegacy.Stage2

/-- A sane value of `filepos`. -/
def saneFilepos (filemax filepos : Int) : Int :=
  if filepos < 0 ∨ filemax < filepos then filemax else filepos

/-- A sane value of `len`. -/
def saneLen (filemax filepos len : Int) : Int :=
  if len < 0 ∨ filemax - filepos < len then filemax - filepos else len

/-- `grub_seek`: the `filepos` it leaves. -/
def seekFilepos (filemax filepos offset : Int) : Int :=
  if filemax < offset ∨ offset < 0 then filepos else offset

/-- `grub_read` over what reads the contents, and what it leaves where they would be read from
behind `fsmax`. -/
def readWithin {α : Type} (filemax fsmax : Int) (tooLong : (filepos : Int) → α)
    (read : (filepos len : Int) → α) (filepos len : Int) : α :=
  let filepos := saneFilepos filemax filepos
  let len := saneLen filemax filepos len
  if fsmax < filepos + len then tooLong filepos else read filepos len

section

variable {filemax filepos len : Int}

/-- The position is inside the file, -/
theorem saneFilepos_range (size : 0 ≤ filemax) (filepos : Int) :
    0 ≤ saneFilepos filemax filepos ∧ saneFilepos filemax filepos ≤ filemax := by
  rw [saneFilepos]
  split <;> omega

/-- and so is the part that is read. -/
theorem saneLen_range (inside : 0 ≤ filepos ∧ filepos ≤ filemax) (len : Int) :
    0 ≤ saneLen filemax filepos len ∧ filepos + saneLen filemax filepos len ≤ filemax := by
  rw [saneLen]
  split <;> omega

/-- A position inside the file is taken as it is, -/
theorem saneFilepos_of_range (low : 0 ≤ filepos) (high : filepos ≤ filemax) :
    saneFilepos filemax filepos = filepos :=
  if_neg (by omega)

/-- so is a length -/
theorem saneLen_of_range (low : 0 ≤ len) (high : filepos + len ≤ filemax) :
    saneLen filemax filepos len = len :=
  if_neg (by omega)

/-- and a seek. -/
theorem seekFilepos_of_range {offset : Int} (low : 0 ≤ offset) (high : offset ≤ filemax) :
    seekFilepos filemax filepos offset = offset :=
  if_neg (by omega)

/-- A seek does not leave the file. -/
theorem seekFilepos_range (inside : 0 ≤ filepos ∧ filepos ≤ filemax) (offset : Int) :
    0 ≤ seekFilepos filemax filepos offset ∧ seekFilepos filemax filepos offset ≤ filemax := by
  rw [seekFilepos]
  split <;> omega

/-- From inside of a file that is not too long its contents are read. -/
theorem readWithin_inside {α : Type} {fsmax : Int} (low : 0 ≤ filepos) (high : filepos ≤ filemax)
    (supported : filemax ≤ fsmax) (tooLong : Int → α) (read : Int → Int → α) (len : Int) :
    readWithin filemax fsmax tooLong read filepos len =
      read filepos (saneLen filemax filepos len) := by
  have fits := (saneLen_range ⟨low, high⟩ len).2
  simp only [readWithin, saneFilepos_of_range low high]
  exact if_neg (by omega)

end

end GrubLegacy.Stage2
