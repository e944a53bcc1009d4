import GrubLegacy.Stage2.FileReads

/-!
# Open files

`grub_seek` and `grub_read` of `disk_io.c` on a file that `grub_open` opened. They keep
`filepos` and the length within the file before the file system is called.
-/

namespace GrubLegacy.Loader

open Stage2

/-- What a read does: the bytes it puts into the buffer, what it returns, and the
`filepos` and the error it leaves. -/
structure Transfer where
  stored : List UInt8
  returned : Int
  filepos : Int
  errnum : GrubError

/-- An open file, with the function of its file system that reads from it. A read inside
of the file that leaves no error delivers what the file has there. -/
structure OpenFile where
  content : List UInt8
  fsmax : Int
  readFunc : (filepos len : Nat) → Transfer
  small : content.length < 2 ^ 31
  within : ∀ filepos len, (readFunc filepos len).stored.length ≤ len
  whole : ∀ filepos len, filepos + len ≤ content.length →
    (readFunc filepos len).errnum = .none →
      (readFunc filepos len).stored = (content.drop filepos).take len ∧
        (readFunc filepos len).returned = len ∧
          (readFunc filepos len).filepos = (filepos + len : Nat)

/-- How `grub_open` ends; a failure leaves an error. -/
abbrev FileOpening := Except {errnum : GrubError // errnum ≠ .none} OpenFile

section Reading

variable (file : OpenFile)

/-- `filemax` -/
def OpenFile.filemax : Int := file.content.length

/-- `grub_seek`: the `filepos` it leaves. -/
def grubSeek (filepos offset : Int) : Int := seekFilepos file.filemax filepos offset

/-- `grub_read` -/
def grubRead (filepos len : Int) : Transfer :=
  readWithin file.filemax file.fsmax
    (fun filepos => { stored := [], returned := 0, filepos, errnum := .filelength })
    (fun filepos len => file.readFunc filepos.toNat len.toNat) filepos len

end Reading

section Lemmas

variable {file : OpenFile} {filepos len : Int}

/-- The size is below 2^31. -/
theorem filemax_small (file : OpenFile) : file.filemax < 2 ^ 31 := by
  have small := file.small
  rw [OpenFile.filemax]
  omega

/-- and no less than zero. -/
theorem filemax_nonneg (file : OpenFile) : 0 ≤ file.filemax := Int.natCast_nonneg _

/-- A seek inside of the file goes where it is told. -/
theorem grubSeek_of_range {offset : Int} (low : 0 ≤ offset) (high : offset ≤ file.filemax) :
    grubSeek file filepos offset = offset :=
  seekFilepos_of_range low high

/-- A read puts nothing behind the length it was asked for or behind the end of the file. -/
theorem grubRead_within (file : OpenFile) (filepos len : Int) :
    ((grubRead file filepos len).stored.length : Int) ≤
      saneLen file.filemax (saneFilepos file.filemax filepos) len := by
  have range := saneLen_range (saneFilepos_range (filemax_nonneg file) filepos) len
  rw [grubRead, readWithin]
  split
  · exact range.1
  · have within := file.within (saneFilepos file.filemax filepos).toNat
      (saneLen file.filemax (saneFilepos file.filemax filepos) len).toNat
    omega

/-- A read without an error delivers what is asked for, as far as the file goes. -/
theorem grubRead_whole (done : (grubRead file filepos len).errnum = .none) :
    (grubRead file filepos len).stored =
        (file.content.drop (saneFilepos file.filemax filepos).toNat).take
          (saneLen file.filemax (saneFilepos file.filemax filepos) len).toNat ∧
      (grubRead file filepos len).returned =
        saneLen file.filemax (saneFilepos file.filemax filepos) len ∧
      (grubRead file filepos len).filepos =
        saneFilepos file.filemax filepos +
          saneLen file.filemax (saneFilepos file.filemax filepos) len := by
  have position := saneFilepos_range (filemax_nonneg file) filepos
  have range := saneLen_range position len
  rw [grubRead, readWithin] at done ⊢
  split at done
  · cases done
  · next room =>
      have inside : (saneFilepos file.filemax filepos).toNat +
          (saneLen file.filemax (saneFilepos file.filemax filepos) len).toNat ≤
            file.content.length := by
        have isMax : file.filemax = file.content.length := rfl
        omega
      obtain ⟨stored, returned, moved⟩ := file.whole _ _ inside done
      rw [if_neg room]
      refine ⟨stored, ?_, ?_⟩
      · rw [returned]
        omega
      · rw [moved]
        omega

end Lemmas

/-- A file that is read without errors. -/
def plainFile (content : List UInt8) (small : content.length < 2 ^ 31) : OpenFile where
  content
  fsmax := 2 ^ 31 - 1
  readFunc filepos len :=
    { stored := (content.drop filepos).take len
      returned := len
      filepos := (filepos + len : Nat)
      errnum := .none }
  small
  within _ len := List.length_take_le len _
  whole _ _ _ _ := ⟨rfl, rfl, rfl⟩

/-- The contents of a plain file. -/
@[simp]
theorem plainFile_content (content : List UInt8) (small : content.length < 2 ^ 31) :
    (plainFile content small).content = content := rfl

end GrubLegacy.Loader
