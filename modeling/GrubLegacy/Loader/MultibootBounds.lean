import GrubLegacy.Loader.Multiboot

/-!
# Where a multiboot kernel is loaded to

The pages `grub_load_multiboot` allocates are the whole pages of the kernel file, and
the header checks are made with the entry size of the file. Program headers are read and
segments are stored within these bounds only if the file keeps to them by itself.
-/

namespace GrubLegacy.Loader

open Base Stage2

/-! ## Bounds -/

/-- Program headers are read from the part of the buffer that was filled, and what is
stored goes into the allocated pages. -/
structure MultibootInBounds (buffer : Address) (filled : Nat) (load : MultibootLoad) : Prop where
  headers : ∀ read ∈ load.headerReads, ∀ address, InRegion read.1 read.2 address →
    InRegion buffer filled address
  stores : ∀ write ∈ load.stores, ∀ address, InRegion write.1 write.2.length address →
    ∃ pages, load.allocated = some pages ∧ InRegion pages.1 pages.2 address

/-- So many bytes from a physical address on lie in that many pages of the kernel. -/
def FitsPages (pages paddr length : Nat) : Prop :=
  length = 0 ∨ grubMultibootAddr ≤ paddr ∧ paddr + length ≤ grubMultibootAddr + pages * 2 ^ 12

/-- How much is cleared behind what the file has of a segment. -/
def clearedLength (phdr : Elf32Phdr) : Nat :=
  if phdr.pFilesz < phdr.pMemsz then (toInt32 (phdr.pMemsz - phdr.pFilesz : Nat)).toNat else 0

/-- Up to the first segment that cannot be read in full, the program headers are in the
filled part of the buffer and the segments in the pages. -/
def SegmentsFit (file : OpenFile) (stack : Memory) (buffer : Address) (elf : Elf32Ehdr)
    (filled pages : Nat) : List Nat → Int → Prop
  | [], _ => True
  | i :: rest, filepos =>
    let phdr := elf32Phdr stack (phdrAddress buffer elf i)
    phdrOffset elf i + 4 ≤ filled ∧
      if phdr.pType = ptLoad then
        let read := segmentRead file filepos phdr
        phdrOffset elf i + 24 ≤ filled ∧ FitsPages pages phdr.pPaddr read.stored.length ∧
          (readsSegment file filepos phdr →
            FitsPages pages ((phdr.pPaddr + phdr.pFilesz) % 2 ^ 32) (clearedLength phdr) ∧
              SegmentsFit file stack buffer elf filled pages rest read.filepos)
      else SegmentsFit file stack buffer elf filled pages rest filepos

section Bounds

variable {buffer : Address} {filled pages : Nat} {load : MultibootLoad}

/-- A program header is read inside the buffer just when it ends there. -/
theorem phdr_within_iff {elf : Elf32Ehdr} {i length : Nat} (some_ : 0 < length)
    (small : filled < 2 ^ 32) :
    (∀ address, InRegion (phdrAddress buffer elf i) length address →
        InRegion buffer filled address) ↔ phdrOffset elf i + length ≤ filled :=
  within_iff some_ (Nat.mod_lt _ (by decide)) small

/-- A look at a program header adds that this is inside, -/
theorem inBounds_look_iff {elf : Elf32Ehdr} {i length : Nat} (some_ : 0 < length)
    (small : filled < 2 ^ 32) :
    MultibootInBounds buffer filled (load.look (phdrAddress buffer elf i) length) ↔
      MultibootInBounds buffer filled load ∧ phdrOffset elf i + length ≤ filled := by
  rw [← @phdr_within_iff buffer filled elf i length some_ small]
  constructor
  · intro bounds
    refine ⟨⟨fun read isIn => ?_, bounds.stores⟩, ?_⟩
    · exact bounds.headers read (List.mem_append_left _ isIn)
    · exact bounds.headers (phdrAddress buffer elf i, length)
        (List.mem_append_right _ (List.mem_singleton_self _))
  · rintro ⟨bounds, here⟩
    refine ⟨fun read isIn => ?_, bounds.stores⟩
    rcases List.mem_append.mp isIn with before | last
    · exact bounds.headers read before
    · obtain rfl := List.mem_singleton.mp last
      exact here

/-- Regions in the pages of a kernel. -/
theorem fitsPages_iff {paddr length : Nat} (small : paddr < 2 ^ 32) (few : pages * 2 ^ 12 < 2 ^ 31) :
    (∀ address, InRegion (BitVec.ofNat 32 paddr) length address →
        InRegion (BitVec.ofNat 32 grubMultibootAddr) (pages * 2 ^ 12) address) ↔
      FitsPages pages paddr length := by
  rw [FitsPages]
  rcases Nat.eq_zero_or_pos length with rfl | some_
  · exact ⟨fun _ => .inl rfl, fun _ _ inside => absurd inside (Nat.not_lt_zero _)⟩
  · have place : BitVec.ofNat 32 paddr = BitVec.ofNat 32 grubMultibootAddr +
        BitVec.ofNat 32 ((paddr + (2 ^ 32 - grubMultibootAddr)) % 2 ^ 32) := by
      apply BitVec.eq_of_toNat_eq
      rw [BitVec.toNat_add, grubMultibootAddr]
      simp only [BitVec.toNat_ofNat]
      omega
    rw [place, within_iff some_ (Nat.mod_lt _ (by decide)) (by omega), grubMultibootAddr]
    omega

/-- and a store that it fits the pages. -/
theorem inBounds_put_iff {paddr : Nat} (bytes : List UInt8)
    (allocated : load.allocated = some (BitVec.ofNat 32 grubMultibootAddr, pages * 2 ^ 12))
    (small : paddr < 2 ^ 32) (few : pages * 2 ^ 12 < 2 ^ 31) :
    MultibootInBounds buffer filled (load.put (BitVec.ofNat 32 paddr) bytes) ↔
      MultibootInBounds buffer filled load ∧ FitsPages pages paddr bytes.length := by
  rw [← fitsPages_iff small few]
  have granted : ∀ address, (∃ pages', load.allocated = some pages' ∧
      InRegion pages'.1 pages'.2 address) ↔
        InRegion (BitVec.ofNat 32 grubMultibootAddr) (pages * 2 ^ 12) address := by
    intro address
    rw [allocated]
    constructor
    · rintro ⟨_, same, inside⟩
      obtain rfl := Option.some.inj same
      exact inside
    · intro inside
      exact ⟨_, rfl, inside⟩
  constructor
  · intro bounds
    refine ⟨⟨bounds.headers, fun write isIn => ?_⟩, fun address inside => ?_⟩
    · exact bounds.stores write (List.mem_append_left _ isIn)
    · exact (granted address).mp (bounds.stores _
        (List.mem_append_right _ (List.mem_singleton_self _)) address inside)
  · rintro ⟨bounds, here⟩
    refine ⟨bounds.headers, fun write isIn => ?_⟩
    rcases List.mem_append.mp isIn with before | last
    · exact bounds.stores write before
    · obtain rfl := List.mem_singleton.mp last
      exact fun address inside => (granted address).mpr (here address inside)

/-- A read that is over adds nothing, -/
@[simp]
theorem inBounds_moved_iff (filepos : Int) (errnum : GrubError) :
    MultibootInBounds buffer filled (load.moved filepos errnum) ↔
      MultibootInBounds buffer filled load :=
  ⟨fun bounds => ⟨bounds.headers, bounds.stores⟩, fun bounds => ⟨bounds.headers, bounds.stores⟩⟩

/-- nor does a new end of what is loaded, -/
@[simp]
theorem inBounds_reach_iff (curAddr : Nat) :
    MultibootInBounds buffer filled (load.reach curAddr) ↔ MultibootInBounds buffer filled load :=
  ⟨fun bounds => ⟨bounds.headers, bounds.stores⟩, fun bounds => ⟨bounds.headers, bounds.stores⟩⟩

/-- the early console -/
@[simp]
theorem inBounds_console_iff (uart : Option Address) :
    MultibootInBounds buffer filled (load.console uart) ↔ MultibootInBounds buffer filled load := by
  cases uart with
  | none => exact ⟨fun bounds => ⟨bounds.headers, bounds.stores⟩,
      fun bounds => ⟨bounds.headers, bounds.stores⟩⟩
  | some _ => exact Iff.rfl

/-- or an emptied module list. -/
@[simp]
theorem inBounds_dropModules_iff :
    MultibootInBounds buffer filled load.dropModules ↔ MultibootInBounds buffer filled load :=
  ⟨fun bounds => ⟨bounds.headers, bounds.stores⟩, fun bounds => ⟨bounds.headers, bounds.stores⟩⟩

/-- Nothing is read or stored yet. -/
theorem inBounds_of_nothing (headerReads : load.headerReads = []) (stores : load.stores = []) :
    MultibootInBounds buffer filled load :=
  ⟨by rw [headerReads]; exact nofun, by rw [stores]; exact nofun⟩

end Bounds

/-! ## The loop -/

section Loop

variable {file : OpenFile} {stack : Memory} {buffer : Address} {elf : Elf32Ehdr}
  {filled pages : Nat} {load : MultibootLoad} {phdr : Elf32Phdr}

/-- A physical address is a 32-bit number. -/
theorem elf32Phdr_small (stack : Memory) (address : Address) :
    (elf32Phdr stack address).pPaddr < 2 ^ 32 := loadWord_lt _ _

/-- A segment allocates nothing -/
@[simp]
theorem loadSegment_allocated : (loadSegment file phdr load).allocated = load.allocated := by
  rw [loadSegment, moved_allocated, put_allocated]

/-- and reads at its own place. -/
@[simp]
theorem loadSegment_filepos : (loadSegment file phdr load).filepos =
    (segmentRead file load.filepos phdr).filepos := by
  rw [loadSegment, moved_filepos]

/-- Its zeroes allocate nothing -/
@[simp]
theorem finishSegment_allocated : (finishSegment phdr load).allocated = load.allocated := by
  rw [finishSegment, reach_allocated]
  split
  · rw [put_allocated]
  · rfl

/-- and read nothing. -/
@[simp]
theorem finishSegment_filepos : (finishSegment phdr load).filepos = load.filepos := by
  rw [finishSegment, reach_filepos]
  split
  · rw [put_filepos]
  · rfl

/-- The bytes of a segment are in bounds just when they fit the pages, -/
theorem loadSegment_inBounds_iff
    (allocated : load.allocated = some (BitVec.ofNat 32 grubMultibootAddr, pages * 2 ^ 12))
    (small : phdr.pPaddr < 2 ^ 32) (few : pages * 2 ^ 12 < 2 ^ 31) :
    MultibootInBounds buffer filled (loadSegment file phdr load) ↔
      MultibootInBounds buffer filled load ∧
        FitsPages pages phdr.pPaddr (segmentRead file load.filepos phdr).stored.length := by
  rw [loadSegment, inBounds_moved_iff, inBounds_put_iff _ allocated small few]

/-- and so are its zeroes. -/
theorem finishSegment_inBounds_iff
    (allocated : load.allocated = some (BitVec.ofNat 32 grubMultibootAddr, pages * 2 ^ 12))
    (few : pages * 2 ^ 12 < 2 ^ 31) :
    MultibootInBounds buffer filled (finishSegment phdr load) ↔
      MultibootInBounds buffer filled load ∧
        FitsPages pages ((phdr.pPaddr + phdr.pFilesz) % 2 ^ 32) (clearedLength phdr) := by
  rw [finishSegment, inBounds_reach_iff, clearedLength]
  by_cases more : phdr.pFilesz < phdr.pMemsz
  · have cleared : (zeroes (phdr.pMemsz - phdr.pFilesz)).length =
        (toInt32 (phdr.pMemsz - phdr.pFilesz : Nat)).toNat := List.length_replicate
    have wraps : BitVec.ofNat 32 (phdr.pPaddr + phdr.pFilesz) =
        BitVec.ofNat 32 ((phdr.pPaddr + phdr.pFilesz) % 2 ^ 32) := by
      apply BitVec.eq_of_toNat_eq
      rw [BitVec.toNat_ofNat, BitVec.toNat_ofNat, Nat.mod_mod]
    rw [if_pos more, if_pos more, ← cleared, wraps,
      inBounds_put_iff _ allocated (Nat.mod_lt _ (by decide)) few]
  · rw [if_neg more, if_neg more]
    exact ⟨fun bounds => ⟨bounds, .inl rfl⟩, fun both => both.1⟩

/-- The loop is in bounds just if the segments fit. -/
theorem loadSegments_inBounds_iff (indices : List Nat)
    (allocated : load.allocated = some (BitVec.ofNat 32 grubMultibootAddr, pages * 2 ^ 12))
    (small : filled < 2 ^ 32) (few : pages * 2 ^ 12 < 2 ^ 31) :
    MultibootInBounds buffer filled (loadSegments file stack buffer elf indices load) ↔
      MultibootInBounds buffer filled load ∧
        SegmentsFit file stack buffer elf filled pages indices load.filepos := by
  induction indices generalizing load with
  | nil => rw [loadSegments, SegmentsFit, and_true]
  | cons i rest ih =>
      rw [loadSegments, SegmentsFit, ← and_assoc,
        ← @inBounds_look_iff buffer filled load elf i 4 (by decide) small]
      split
      case isTrue =>
          have looked : ((load.look (phdrAddress buffer elf i) 4).look
              (phdrAddress buffer elf i) 24).allocated =
                some (BitVec.ofNat 32 grubMultibootAddr, pages * 2 ^ 12) := by
            rw [look_allocated, look_allocated, allocated]
          have read := @loadSegment_inBounds_iff file buffer filled pages
            ((load.look (phdrAddress buffer elf i) 4).look (phdrAddress buffer elf i) 24)
            (elf32Phdr stack (phdrAddress buffer elf i)) looked (elf32Phdr_small _ _) few
          dsimp only
          rw [look_filepos, look_filepos] at read ⊢
          rw [← and_assoc, ← inBounds_look_iff (by decide) small, ← and_assoc, ← read]
          split
          case isTrue full =>
              rw [ih ((finishSegment_allocated).trans (loadSegment_allocated.trans looked)),
                finishSegment_inBounds_iff (loadSegment_allocated.trans looked) few,
                finishSegment_filepos, loadSegment_filepos, look_filepos, look_filepos, and_assoc]
              exact and_congr_right fun _ => ⟨fun both _ => both, fun onward => onward full⟩
          case isFalse short =>
              exact ⟨fun bounds => ⟨bounds, fun full => absurd full short⟩, fun both => both.1⟩
      case isFalse => exact ih ((look_allocated _ _ _).trans allocated)

end Loop

/-! ## The whole function -/

/-- How much of the buffer was filled from the file. -/
def filledLength : FileOpening → Nat
  | .error _ => 0
  | .ok file => (headerRead file).stored.length

/-- A kernel that is loaded within bounds: it is refused, or its size is one of whole
pages and its segments fit. -/
def KernelFits (allocates : Nat → Bool) (stack : Memory) (buffer : Address) : FileOpening → Prop
  | .error _ => True
  | .ok file =>
    let stack := headerStack stack buffer file
    let elf := elf32Ehdr stack buffer
    refusal stack buffer (headerRead file).returned = .none → allocates (protModePages file) = true →
      file.content.length % 2 ^ 12 = 0 ∧
        SegmentsFit file stack buffer elf (headerRead file).stored.length (protModePages file)
          (List.range elf.ePhnum) (headerRead file).filepos

section Whole

variable {allocates : Nat → Bool} {uart : Option Address} {stack : Memory} {buffer : Address}
  {file : OpenFile} {filled : Nat} {load : MultibootLoad}

/-- The header buffer is filled up to what is searched. -/
theorem headerRead_length (file : OpenFile) : (headerRead file).stored.length ≤ multibootSearch := by
  have within := grubRead_within file 0 multibootSearch
  have range := saneFilepos_range (filemax_nonneg file) 0
  have short : saneLen file.filemax (saneFilepos file.filemax 0) multibootSearch ≤ multibootSearch := by
    rw [saneLen]
    split <;> omega
  rw [headerRead]
  omega

/-- Clearing the pages stays in them just if the file fills them. -/
theorem fitsPages_cleared (file : OpenFile) :
    FitsPages (protModePages file) grubMultibootAddr (zeroes file.content.length).length ↔
      file.content.length % 2 ^ 12 = 0 := by
  have small := file.small
  have length : (zeroes file.content.length).length = file.content.length := by
    rw [zeroes, List.length_replicate, toInt32_of_range (by omega) (by omega)]
    rfl
  rw [FitsPages, length, protModePages]
  omega

/-- An accepted kernel is loaded in bounds just when its file fills whole pages and its segments
fit. -/
theorem loadAccepted_inBounds_iff (small : filled < 2 ^ 32) (headerReads : load.headerReads = [])
    (stores : load.stores = []) :
    MultibootInBounds buffer filled (loadAccepted uart stack buffer file load) ↔
      file.content.length % 2 ^ 12 = 0 ∧
        SegmentsFit file stack buffer (elf32Ehdr stack buffer) filled (protModePages file)
          (List.range (elf32Ehdr stack buffer).ePhnum) load.filepos := by
  have few : protModePages file * 2 ^ 12 < 2 ^ 31 := by
    have small := file.small
    rw [protModePages]
    omega
  have granted := grant_allocated load
    (BitVec.ofNat 32 grubMultibootAddr, protModePages file * 2 ^ 12)
  have nothing : MultibootInBounds buffer filled
      (load.grant (BitVec.ofNat 32 grubMultibootAddr, protModePages file * 2 ^ 12)) :=
    inBounds_of_nothing headerReads stores
  rw [loadAccepted]
  rw [inBounds_dropModules_iff, inBounds_console_iff, loadSegments_inBounds_iff _ _ small few,
    inBounds_reach_iff,
    inBounds_put_iff _ granted (by decide) few, fitsPages_cleared, reach_filepos, put_filepos,
    grant_filepos]
  · exact and_congr_left fun _ => and_iff_right nothing
  · rw [reach_allocated, put_allocated, granted]

/-- A multiboot kernel is loaded within bounds just if it fits. -/
theorem grubLoadMultiboot_inBounds_iff (allocates : Nat → Bool) (uart : Option Address)
    (stack : Memory) (buffer : Address) (opening : FileOpening) (memory : Memory)
    (curAddr modsCount : Nat) :
    MultibootInBounds buffer (filledLength opening)
        (grubLoadMultiboot allocates uart stack buffer opening (.start memory curAddr modsCount)) ↔
      KernelFits allocates stack buffer opening := by
  cases opening with
  | error errnum => exact iff_of_true (inBounds_of_nothing rfl rfl) trivial
  | ok file =>
      have short := headerRead_length file
      rw [multibootSearch] at short
      rw [grubLoadMultiboot, loadMultibootFile, KernelFits, filledLength]
      split
      case isTrue refused =>
          exact iff_of_true (inBounds_of_nothing rfl rfl) fun accepted => absurd accepted refused
      case isFalse accepted =>
          split
          case isTrue pages =>
              rw [loadAccepted_inBounds_iff (by omega) rfl rfl, moved_filepos]
              exact ⟨fun fits _ _ => fits, fun fits => fits (not_not.mp accepted) pages⟩
          case isFalse none_ =>
              exact iff_of_true (inBounds_of_nothing rfl rfl) fun _ pages => absurd pages none_

end Whole

/-- A kernel of 5000 bytes without segments. -/
def unevenKernel : List UInt8 :=
  kernelHeaders 32 1 [⟨0, 0, 0, 0, 0⟩] ++ List.replicate 4904 0

/-- A kernel of one page with a segment below the place for kernels. -/
def lowKernel : List UInt8 :=
  kernelHeaders 32 1 [⟨ptLoad, 96, 0x7c00, 16, 16⟩] ++ List.replicate 4000 0

/-- A load with as many pages as there are asked for. -/
def boundsLoad (content : List UInt8) (small : content.length < 2 ^ 31) : MultibootLoad :=
  grubLoadMultiboot (fun _ => true) (some 0) (fun _ => 0) 0x1000 (.ok (plainFile content small))
    (.start (fun _ => 0) 0 0)

/-- A store of a load that is not in its pages. -/
theorem not_inBounds_of_store {buffer : Address} {filled : Nat} {load : MultibootLoad}
    {start : Address} {length : Nat} {pages : Address × Nat} (address : Address)
    (stored : (start, length) ∈ load.stores.map fun write => (write.1, write.2.length))
    (inside : InRegion start length address) (allocated : load.allocated = some pages)
    (outside : ¬ InRegion pages.1 pages.2 address) : ¬ MultibootInBounds buffer filled load := by
  intro bounds
  obtain ⟨write, isIn, isWrite⟩ := List.mem_map.mp stored
  obtain ⟨rfl, rfl⟩ := Prod.mk.inj isWrite
  obtain ⟨granted, isGranted, within⟩ := bounds.stores write isIn address inside
  obtain rfl := Option.some.inj (allocated.symm.trans isGranted)
  exact outside within

/-- The rest of a page is cleared behind the pages, and a segment goes where it wants. -/
theorem grubLoadMultiboot_leaves_pages :
    ¬ MultibootInBounds 0x1000 (filledLength (.ok (plainFile unevenKernel (by decide +kernel))))
        (boundsLoad unevenKernel (by decide +kernel)) ∧
      ¬ MultibootInBounds 0x1000 (filledLength (.ok (plainFile lowKernel (by decide +kernel))))
        (boundsLoad lowKernel (by decide +kernel)) := by
  constructor
  · exact @not_inBounds_of_store 0x1000 _ _ 0x100000 5000 (0x100000, 0x1000) 0x101000
      (by decide +kernel) (by decide) (by decide +kernel) (by decide)
  · exact @not_inBounds_of_store 0x1000 _ _ 0x7c00 16 (0x100000, 0x1000) 0x7c00
      (by decide +kernel) (by decide) (by decide +kernel) (by decide)

end GrubLegacy.Loader
