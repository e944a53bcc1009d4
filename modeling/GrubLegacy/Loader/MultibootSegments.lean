import GrubLegacy.Loader.Multiboot

/-!
# What is loaded of a multiboot kernel

`grub_load_multiboot` succeeds whenever it leaves no error, and a segment that cannot be
read in full ends its loop without one. All segments are loaded where each of them lies in
the file and none of them on the program itself.
-/

namespace GrubLegacy.Loader

open Base Stage2

/-! ## The file -/

/-- The bytes of a file at the addresses that are their offsets. -/
def fileImage (content : List UInt8) : Memory := store (fun _ => 0) 0#32 content

/-- Its ELF header. -/
def fileEhdr (content : List UInt8) : Elf32Ehdr := elf32Ehdr (fileImage content) 0#32

/-- The program headers of the file, as far apart as it says. -/
def filePhdr (content : List UInt8) (i : Nat) : Elf32Phdr :=
  elf32Phdr (fileImage content)
    (BitVec.ofNat 32 ((fileEhdr content).ePhoff + (fileEhdr content).ePhentsize * i))

/-- The segments to be loaded. -/
def loadPhdrs (content : List UInt8) : List Elf32Phdr :=
  ((List.range (fileEhdr content).ePhnum).map (filePhdr content)).filter (·.pType = ptLoad)

/-- The place of a segment in memory. -/
def Elf32Phdr.start (phdr : Elf32Phdr) : Address := BitVec.ofNat 32 phdr.pPaddr

/-- A segment in memory: the bytes the file has of it, and zeroes behind them. -/
structure SegmentLoaded (content : List UInt8) (memory : Memory) (phdr : Elf32Phdr) : Prop where
  bytes : ∀ j < min phdr.pFilesz phdr.pMemsz,
    content[phdr.pOffset + j]? = some (memory (phdr.start + BitVec.ofNat 32 j))
  cleared : ∀ j, phdr.pFilesz ≤ j → j < phdr.pMemsz →
    memory (phdr.start + BitVec.ofNat 32 j) = 0

/-- The highest end of segments. -/
def segmentsEnd (phdrs : List Elf32Phdr) : Nat :=
  phdrs.foldl (fun highest phdr => max highest (phdr.pPaddr + phdr.pMemsz)) 0

/-- The program headers lie in the file. -/
def TableInFile (content : List UInt8) : Prop :=
  ∀ i < (fileEhdr content).ePhnum,
    (fileEhdr content).ePhoff + (fileEhdr content).ePhentsize * i + elf32PhdrSize ≤ content.length

instance (content : List UInt8) : Decidable (TableInFile content) :=
  inferInstanceAs (Decidable (∀ i < (fileEhdr content).ePhnum, _))

/-- Two segments share no memory. -/
def SegmentsApart (left right : Elf32Phdr) : Prop :=
  ∀ address, InRegion left.start left.pMemsz address →
    ¬ InRegion right.start right.pMemsz address

instance : Std.Symm SegmentsApart :=
  ⟨fun _ _ apart address inside other => apart address other inside⟩

/-- If it succeeds, the load is complete. -/
def CompleteLoad (content : List UInt8) (load : MultibootLoad) : Prop :=
  load.errnum = .none →
    (∀ phdr ∈ loadPhdrs content, SegmentLoaded content load.memory phdr) ∧
      load.curAddr = segmentsEnd (loadPhdrs content)

/-- A read of the start of the file that leaves an error returns nothing. -/
def ReadsStart (file : OpenFile) : Prop :=
  (headerRead file).errnum ≠ .none → (headerRead file).returned = 0

/-- Every load of the kernel that succeeds is complete, whatever the program does once it
has overwritten itself. -/
def LoadsCompletely {own : Address → Bool} (stack : LoaderStack own) (content : List UInt8) :
    Prop :=
  ∀ (overrun : MultibootLoad → MultibootLoad) (allocates : Nat → Bool) (uart : Option Address)
    (file : OpenFile) (memory : Memory) (curAddr modsCount : Nat), file.content = content →
      ReadsStart file →
        CompleteLoad content
          ((grubLoadMultiboot allocates uart stack.bytes stack.buffer (.ok file)
            (.start memory curAddr modsCount)).settle own overrun)

/-- The headers of the kernel are accepted. -/
def AcceptsKernel (stack : Memory) (buffer : Address) (content : List UInt8) : Prop :=
  refusal (store stack buffer (content.take multibootSearch)) buffer
    (min multibootSearch content.length : Nat) = .none

/-- The loader finds the program headers of the file where it looks for them. -/
def TableWalked (content : List UInt8) : Prop :=
  ∀ i < (fileEhdr content).ePhnum,
    (fileEhdr content).ePhoff + elf32PhdrSize * i + 24 ≤ min multibootSearch content.length ∧
      elf32Phdr (fileImage content)
        (BitVec.ofNat 32 ((fileEhdr content).ePhoff + elf32PhdrSize * i)) = filePhdr content i

instance (content : List UInt8) : Decidable (TableWalked content) :=
  inferInstanceAs (Decidable (∀ i < (fileEhdr content).ePhnum, _))

/-- A segment the loader can load: the file has its bytes, it ends in the address space,
and what is to be cleared has a length that is an `int`. -/
structure SegmentLoadable (content : List UInt8) (phdr : Elf32Phdr) : Prop where
  inFile : phdr.pFilesz = 0 ∨ phdr.pOffset + phdr.pFilesz ≤ content.length
  ends : phdr.pPaddr + phdr.pMemsz < 2 ^ 32
  short : phdr.pMemsz - phdr.pFilesz < 2 ^ 31

/-- Neither the pages of a kernel nor its segments are where the program is. -/
structure KernelApart (own : Address → Bool) (content : List UInt8) : Prop where
  pages : ∀ address, InRegion (BitVec.ofNat 32 grubMultibootAddr) content.length address →
    own address = false
  segments : ∀ phdr ∈ loadPhdrs content, ∀ address,
    InRegion phdr.start (max phdr.pFilesz phdr.pMemsz) address → own address = false

/-- All of them can be loaded, one after the other, and keep off the program. -/
structure KernelLoadable (own : Address → Bool) (content : List UInt8) : Prop where
  walked : TableWalked content
  segments : ∀ phdr ∈ loadPhdrs content, SegmentLoadable content phdr
  apart : (loadPhdrs content).Pairwise fun left right =>
    ∀ address, InRegion left.start left.pMemsz address →
      ¬ InRegion right.start right.pFilesz address
  off : KernelApart own content

/-! ## One segment -/

section Segment

variable {file : OpenFile} {phdr : Elf32Phdr} {load : MultibootLoad}

/-- A store leaves the error as it was. -/
@[simp]
theorem put_errnum (start : Address) (bytes : List UInt8) :
    (load.put start bytes).errnum = load.errnum := rfl

/-- So does a look at memory, -/
@[simp]
theorem look_errnum (start : Address) (length : Nat) :
    (load.look start length).errnum = load.errnum := rfl

/-- pages that are granted, -/
@[simp]
theorem grant_errnum (pages : Address × Nat) : (load.grant pages).errnum = load.errnum := rfl

/-- the search for the header, -/
@[simp]
theorem lookAll_errnum (address : Address) : (load.lookAll address).errnum = load.errnum := rfl

/-- A read leaves the error it had. -/
@[simp]
theorem moved_errnum (filepos : Int) (errnum : GrubError) :
    (load.moved filepos errnum).errnum = errnum := rfl

/-- A new end of what is loaded leaves the error as it was. -/
@[simp]
theorem reach_errnum (curAddr : Nat) : (load.reach curAddr).errnum = load.errnum := rfl

/-- A failure leaves its own error. -/
@[simp]
theorem fail_errnum (errnum : GrubError) : (load.fail errnum).errnum = errnum := rfl

/-- An emptied module list leaves the error as it was. -/
@[simp]
theorem dropModules_errnum : load.dropModules.errnum = load.errnum := rfl

/-- A load without the UART fails. -/
@[simp]
theorem console_errnum (uart : Option Address) :
    (load.console uart).errnum = .none ↔ uart.isSome = true ∧ load.errnum = .none := by
  cases uart with
  | none => exact ⟨nofun, fun both => absurd both.1 Bool.false_ne_true⟩
  | some _ => exact ⟨fun none => ⟨rfl, none⟩, And.right⟩

/-- The one step that changes memory is a store. -/
@[simp]
theorem put_memory (start : Address) (bytes : List UInt8) :
    (load.put start bytes).memory = store load.memory start bytes := rfl

/-- A look changes no byte, -/
@[simp]
theorem look_memory (start : Address) (length : Nat) :
    (load.look start length).memory = load.memory := rfl

/-- nor do granted pages. -/
@[simp]
theorem grant_memory (pages : Address × Nat) : (load.grant pages).memory = load.memory := rfl

/-- A load starts with the memory it is given. -/
@[simp]
theorem start_memory (memory : Memory) (curAddr modsCount : Nat) :
    (MultibootLoad.start memory curAddr modsCount).memory = memory := rfl

/-- The search for the header changes no byte, -/
@[simp]
theorem lookAll_memory (address : Address) : (load.lookAll address).memory = load.memory := rfl

/-- nor does the position in the file, -/
@[simp]
theorem moved_memory (filepos : Int) (errnum : GrubError) :
    (load.moved filepos errnum).memory = load.memory := rfl

/-- nor a new end of what is loaded, -/
@[simp]
theorem reach_memory (curAddr : Nat) : (load.reach curAddr).memory = load.memory := rfl

/-- nor an emptied module list, -/
@[simp]
theorem dropModules_memory : load.dropModules.memory = load.memory := rfl

/-- nor the early console. -/
@[simp]
theorem console_memory (uart : Option Address) : (load.console uart).memory = load.memory := by
  cases uart <;> rfl

/-- The end of what is loaded is not moved by a store, -/
@[simp]
theorem put_curAddr (start : Address) (bytes : List UInt8) :
    (load.put start bytes).curAddr = load.curAddr := rfl

/-- by a look, -/
@[simp]
theorem look_curAddr (start : Address) (length : Nat) :
    (load.look start length).curAddr = load.curAddr := rfl

/-- by the search for the header, -/
@[simp]
theorem lookAll_curAddr (address : Address) : (load.lookAll address).curAddr = load.curAddr := rfl

/-- or by a read. -/
@[simp]
theorem moved_curAddr (filepos : Int) (errnum : GrubError) :
    (load.moved filepos errnum).curAddr = load.curAddr := rfl

/-- It is moved on its own. -/
@[simp]
theorem reach_curAddr (curAddr : Nat) : (load.reach curAddr).curAddr = curAddr := rfl

/-- An emptied module list leaves the end where it is, -/
@[simp]
theorem dropModules_curAddr : load.dropModules.curAddr = load.curAddr := rfl

/-- and so does the early console. -/
@[simp]
theorem console_curAddr (uart : Option Address) :
    (load.console uart).curAddr = load.curAddr := by
  cases uart <;> rfl

/-- A store is noted behind the earlier ones. -/
@[simp]
theorem put_stores (start : Address) (bytes : List UInt8) :
    (load.put start bytes).stores = load.stores ++ [(start, bytes)] := rfl

/-- No store is noted for a look, -/
@[simp]
theorem look_stores (start : Address) (length : Nat) :
    (load.look start length).stores = load.stores := rfl

/-- the search for the header, -/
@[simp]
theorem lookAll_stores (address : Address) : (load.lookAll address).stores = load.stores := rfl

/-- pages that are granted, -/
@[simp]
theorem grant_stores (pages : Address × Nat) : (load.grant pages).stores = load.stores := rfl

/-- a read that is over, -/
@[simp]
theorem moved_stores (filepos : Int) (errnum : GrubError) :
    (load.moved filepos errnum).stores = load.stores := rfl

/-- a new end of what is loaded, -/
@[simp]
theorem reach_stores (curAddr : Nat) : (load.reach curAddr).stores = load.stores := rfl

/-- a failure, -/
@[simp]
theorem fail_stores (errnum : GrubError) : (load.fail errnum).stores = load.stores := rfl

/-- an emptied module list, -/
@[simp]
theorem dropModules_stores : load.dropModules.stores = load.stores := rfl

/-- or the early console. -/
@[simp]
theorem console_stores (uart : Option Address) : (load.console uart).stores = load.stores := by
  cases uart <;> rfl

/-- What is read of a segment that lies in the file. -/
theorem segmentRead_whole (inFile : phdr.pFilesz = 0 ∨
      phdr.pOffset + phdr.pFilesz ≤ file.content.length)
    (done : (segmentRead file load.filepos phdr).errnum = .none) :
    (segmentRead file load.filepos phdr).stored =
        (file.content.drop phdr.pOffset).take phdr.pFilesz ∧
      readsSegment file load.filepos phdr = true := by
  have small := file.small
  have position := saneFilepos_range (filemax_nonneg file) (grubSeek file load.filepos (toInt32 phdr.pOffset))
  rw [segmentRead] at done
  rw [readsSegment, decide_eq_true_eq, segmentRead]
  obtain ⟨stored, returned, _⟩ := grubRead_whole done
  rw [stored, returned]
  rcases inFile with empty | inside
  · have none_ : saneLen file.filemax (saneFilepos file.filemax
        (grubSeek file load.filepos (toInt32 phdr.pOffset))) (toInt32 phdr.pFilesz) = 0 := by
      have zero : toInt32 (0 : Nat) = 0 := toInt32_of_range (by decide) (by decide)
      rw [empty, zero]
      exact saneLen_of_range (by decide) (by omega)
    rw [none_, empty]
    exact ⟨by simp, rfl⟩
  · have length : toInt32 phdr.pFilesz = phdr.pFilesz := toInt32_of_range (by omega) (by omega)
    have offset : toInt32 phdr.pOffset = phdr.pOffset := toInt32_of_range (by omega) (by omega)
    have isMax : file.filemax = file.content.length := rfl
    rw [offset, length, grubSeek_of_range (by omega) (by omega),
      saneFilepos_of_range (by omega) (by omega), saneLen_of_range (by omega) (by omega)]
    exact ⟨rfl, toUInt32_of_range (by omega)⟩

/-- The memory after a segment that is read in full. -/
def segmentMemory (content : List UInt8) (phdr : Elf32Phdr) (memory : Memory) : Memory :=
  store (store memory phdr.start ((content.drop phdr.pOffset).take phdr.pFilesz))
    (phdr.start + BitVec.ofNat 32 phdr.pFilesz) (zeroes (phdr.pMemsz - phdr.pFilesz))

/-- Nothing is cleared where nothing is left to clear. -/
theorem zeroes_zero : zeroes 0 = [] := by
  rw [zeroes, toInt32_of_range (by decide) (by decide)]
  rfl

/-- A segment that is read leaves its bytes and its zeroes in memory, and nothing else. -/
theorem segment_memory (inFile : phdr.pFilesz = 0 ∨
      phdr.pOffset + phdr.pFilesz ≤ file.content.length)
    (done : (segmentRead file load.filepos phdr).errnum = .none) :
    (finishSegment phdr (loadSegment file phdr load)).memory =
      segmentMemory file.content phdr load.memory := by
  obtain ⟨stored, _⟩ := @segmentRead_whole file phdr load inFile done
  rw [finishSegment, reach_memory, segmentMemory, Elf32Phdr.start]
  split
  case isTrue more =>
      rw [put_memory, loadSegment, moved_memory, put_memory, stored, BitVec.ofNat_add]
  case isFalse whole =>
      rw [loadSegment, moved_memory, put_memory, stored,
        Nat.sub_eq_zero_of_le (Nat.le_of_not_lt whole), zeroes_zero, store_nil]

/-- The end of what is loaded is the larger of the old one and that of the segment. -/
theorem segment_curAddr : (finishSegment phdr (loadSegment file phdr load)).curAddr =
    max load.curAddr ((phdr.pPaddr + phdr.pMemsz) % 2 ^ 32) := by
  have same : ∀ left right : Nat, (if left < right then right else left) = max left right := by
    intro left right
    split <;> omega
  rw [finishSegment, reach_curAddr, same]
  congr 1
  split
  · rw [put_curAddr, loadSegment, moved_curAddr, put_curAddr]
  · rw [loadSegment, moved_curAddr, put_curAddr]

/-- A segment adds the error of its read, if there is none yet. -/
theorem segment_errnum : (finishSegment phdr (loadSegment file phdr load)).errnum =
    GrubError.after load.errnum (segmentRead file load.filepos phdr).errnum := by
  rw [finishSegment, reach_errnum]
  split
  · rw [put_errnum, loadSegment, moved_errnum]
  · rw [loadSegment, moved_errnum]

/-- The length of what is cleared. -/
theorem zeroes_length {length : Nat} (short : length < 2 ^ 31) : (zeroes length).length = length := by
  rw [zeroes, List.length_replicate, toInt32_of_range (by omega) (by omega)]
  rfl

/-- The stores of a segment that is read in full. -/
def segmentStores (content : List UInt8) (phdr : Elf32Phdr) : List (Address × List UInt8) :=
  (phdr.start, (content.drop phdr.pOffset).take phdr.pFilesz) ::
    if phdr.pFilesz < phdr.pMemsz then
      [(phdr.start + BitVec.ofNat 32 phdr.pFilesz, zeroes (phdr.pMemsz - phdr.pFilesz))]
    else []

/-- A segment that is read stores its bytes and then its zeroes. -/
theorem segment_stores (inFile : phdr.pFilesz = 0 ∨
      phdr.pOffset + phdr.pFilesz ≤ file.content.length)
    (done : (segmentRead file load.filepos phdr).errnum = .none) :
    (finishSegment phdr (loadSegment file phdr load)).stores =
      load.stores ++ segmentStores file.content phdr := by
  obtain ⟨stored, _⟩ := @segmentRead_whole file phdr load inFile done
  rw [finishSegment, reach_stores, segmentStores, Elf32Phdr.start]
  split
  · rw [put_stores, loadSegment, moved_stores, put_stores, stored, List.append_assoc,
      BitVec.ofNat_add]
    rfl
  · rw [loadSegment, moved_stores, put_stores, stored]

/-- A segment whose stores spare the program is not where the program is. -/
theorem spares_of_segmentStores {own : Address → Bool} {content : List UInt8}
    (loadable : SegmentLoadable content phdr)
    (spares : overwrites own (segmentStores content phdr) = false) (address : Address)
    (inside : InRegion phdr.start (max phdr.pFilesz phdr.pMemsz) address) :
    own address = false := by
  obtain ⟨first, rest⟩ := List.forall_mem_cons.mp (overwrites_eq_false_iff.mp spares)
  by_cases isFile : InRegion phdr.start phdr.pFilesz address
  · refine first address ?_
    have length : ((content.drop phdr.pOffset).take phdr.pFilesz).length = phdr.pFilesz := by
      rw [List.length_take, List.length_drop]
      have inFile := loadable.inFile
      omega
    rw [length]
    exact isFile
  · have more : phdr.pFilesz < phdr.pMemsz := by
      rw [InRegion] at inside isFile
      omega
    rw [if_pos more, List.forall_mem_singleton] at rest
    dsimp only at rest
    rw [zeroes_length loadable.short] at rest
    refine rest address ?_
    have ends := loadable.ends
    rw [InRegion] at inside isFile ⊢
    bv_omega

/-- A segment is loaded by its stores. -/
theorem segmentMemory_loaded {content : List UInt8} (loadable : SegmentLoadable content phdr)
    (memory : Memory) : SegmentLoaded content (segmentMemory content phdr memory) phdr := by
  have ends := loadable.ends
  have length := zeroes_length loadable.short
  constructor
  · intro j inside
    have inFile : phdr.pOffset + phdr.pFilesz ≤ content.length :=
      loadable.inFile.resolve_left (by omega)
    have bytes : ((content.drop phdr.pOffset).take phdr.pFilesz).length = phdr.pFilesz := by
      rw [List.length_take, List.length_drop]
      omega
    have outside : ¬ InRegion (phdr.start + BitVec.ofNat 32 phdr.pFilesz)
        (zeroes (phdr.pMemsz - phdr.pFilesz)).length (phdr.start + BitVec.ofNat 32 j) := by
      rw [length, InRegion]
      bv_omega
    rw [segmentMemory, store_outside outside, store_add (by omega) (by omega), List.get_eq_getElem,
      List.getElem_take, List.getElem_drop, ← List.getElem?_eq_getElem]
  · intro j low high
    have inside : j - phdr.pFilesz < (zeroes (phdr.pMemsz - phdr.pFilesz)).length := by omega
    have place : phdr.start + BitVec.ofNat 32 j = phdr.start + BitVec.ofNat 32 phdr.pFilesz +
        BitVec.ofNat 32 (j - phdr.pFilesz) := by
      rw [BitVec.add_assoc, ← BitVec.ofNat_add, Nat.add_sub_cancel' low]
    rw [segmentMemory, place, store_add inside (by omega)]
    exact List.getElem_replicate _

/-- What lies outside of a segment is left as it was. -/
theorem segmentMemory_outside {content : List UInt8} {memory : Memory} {address : Address}
    (small : phdr.pPaddr + phdr.pMemsz < 2 ^ 32) (short : phdr.pMemsz - phdr.pFilesz < 2 ^ 31)
    (file : ¬ InRegion phdr.start phdr.pFilesz address)
    (outside : ¬ InRegion phdr.start phdr.pMemsz address) :
    segmentMemory content phdr memory address = memory address := by
  have length := zeroes_length short
  have cleared : ¬ InRegion (phdr.start + BitVec.ofNat 32 phdr.pFilesz)
      (zeroes (phdr.pMemsz - phdr.pFilesz)).length address := by
    rw [length]
    rw [InRegion] at file outside ⊢
    bv_omega
  have stored : ¬ InRegion phdr.start
      ((content.drop phdr.pOffset).take phdr.pFilesz).length address := by
    have most : ((content.drop phdr.pOffset).take phdr.pFilesz).length ≤ phdr.pFilesz :=
      List.length_take_le _ _
    rw [InRegion] at file ⊢
    omega
  rw [segmentMemory, store_outside cleared, store_outside stored]

/-- Whether a segment is loaded depends on its own region only. -/
theorem SegmentLoaded.congr {content : List UInt8} {memory memory' : Memory}
    (small : phdr.pMemsz < 2 ^ 32) (loaded : SegmentLoaded content memory phdr)
    (same : ∀ address, InRegion phdr.start phdr.pMemsz address → memory' address = memory address) :
    SegmentLoaded content memory' phdr := by
  constructor
  · intro j inside
    rw [same _ (inRegion_add (by omega) (by omega))]
    exact loaded.bytes j inside
  · intro j low high
    rw [same _ (inRegion_add high (by omega))]
    exact loaded.cleared j low high

end Segment

/-! ## The loop -/

/-- Loading the segment on the right leaves the one on the left as it is. -/
def KeepsSegment (left right : Elf32Phdr) : Prop :=
  ∀ address, InRegion left.start left.pMemsz address →
    ¬ InRegion right.start right.pFilesz address ∧ ¬ InRegion right.start right.pMemsz address

/-- One more segment can move the end of all of them. -/
theorem segmentsEnd_append (phdrs : List Elf32Phdr) (phdr : Elf32Phdr) :
    segmentsEnd (phdrs ++ [phdr]) = max (segmentsEnd phdrs) (phdr.pPaddr + phdr.pMemsz) := by
  rw [segmentsEnd, List.foldl_append]
  rfl

/-- No segment reaches behind the end of all of them. -/
theorem le_segmentsEnd {phdrs : List Elf32Phdr} {phdr : Elf32Phdr} (isIn : phdr ∈ phdrs) :
    phdr.pPaddr + phdr.pMemsz ≤ segmentsEnd phdrs := by
  induction phdrs using List.reverseRecOn with
  | nil => exact absurd isIn List.not_mem_nil
  | append_singleton phdrs last ih =>
      rw [segmentsEnd_append]
      rcases List.mem_append.mp isIn with before | here
      · exact Nat.le_trans (ih before) (Nat.le_max_left _ _)
      · obtain rfl := List.mem_singleton.mp here
        exact Nat.le_max_right _ _

section Loop

variable {file : OpenFile} {stack : Memory} {buffer : Address} {elf : Elf32Ehdr}

/-- An error that was left stays. -/
theorem loadSegments_errnum (indices : List Nat) {load : MultibootLoad}
    (succeeds : (loadSegments file stack buffer elf indices load).errnum = .none) :
    load.errnum = .none := by
  induction indices generalizing load with
  | nil => exact succeeds
  | cons i rest ih =>
      by_cases isLoad : (elf32Phdr stack (phdrAddress buffer elf i)).pType = ptLoad
      · by_cases full : readsSegment file load.filepos (elf32Phdr stack (phdrAddress buffer elf i))
        · rw [loadSegments_full rest isLoad full] at succeeds
          have before := ih succeeds
          rw [segment_errnum, after_eq_none, lookAll_errnum] at before
          exact before.1
        · rw [loadSegments_short rest isLoad full, loadSegment, moved_errnum, after_eq_none,
            lookAll_errnum] at succeeds
          exact succeeds.1
      · rw [loadSegments_skip rest isLoad] at succeeds
        have before := ih succeeds
        exact before

/-- The segments of a table that can be loaded are loaded, and those before them stay. -/
theorem loadSegments_loaded {header : Nat → Elf32Phdr} {indices : List Nat}
    (walked : ∀ i ∈ indices, elf32Phdr stack (phdrAddress buffer elf i) = header i)
    {load : MultibootLoad} {done : List Elf32Phdr}
    (loadable : ∀ phdr ∈ done ++ (indices.map header).filter (·.pType = ptLoad),
      SegmentLoadable file.content phdr)
    (apart : (done ++ (indices.map header).filter (·.pType = ptLoad)).Pairwise KeepsSegment)
    (loaded : ∀ phdr ∈ done, SegmentLoaded file.content load.memory phdr)
    (ends : load.curAddr = segmentsEnd done)
    (succeeds : (loadSegments file stack buffer elf indices load).errnum = .none) :
    (∀ phdr ∈ done ++ (indices.map header).filter (·.pType = ptLoad),
      SegmentLoaded file.content (loadSegments file stack buffer elf indices load).memory phdr) ∧
      (loadSegments file stack buffer elf indices load).curAddr =
        segmentsEnd (done ++ (indices.map header).filter (·.pType = ptLoad)) := by
  induction indices generalizing load done with
  | nil =>
      rw [loadSegments, List.map_nil, List.filter_nil, List.append_nil]
      exact ⟨loaded, ends⟩
  | cons i rest ih =>
      obtain ⟨here, walked⟩ := List.forall_mem_cons.mp walked
      rw [List.map_cons] at loadable apart ⊢
      by_cases isLoad : (header i).pType = ptLoad
      · have split_ : done ++ List.filter (fun phdr => decide (phdr.pType = ptLoad))
            (header i :: rest.map header) =
              (done ++ [header i]) ++ (rest.map header).filter (·.pType = ptLoad) := by
          rw [List.filter_cons_of_pos (by simpa using isLoad), List.append_assoc,
            List.singleton_append]
        rw [split_] at loadable apart ⊢
        have isIn : header i ∈ done ++ [header i] := List.mem_append_right _ (List.mem_singleton_self _)
        have this_ := loadable (header i) (List.mem_append_left _ isIn)
        rw [← here] at isLoad
        by_cases full : readsSegment file load.filepos (elf32Phdr stack (phdrAddress buffer elf i))
        · rw [loadSegments_full rest isLoad full, here] at succeeds ⊢
          have read := loadSegments_errnum rest succeeds
          rw [segment_errnum, after_eq_none] at read
          have after := @segment_memory file (header i) _ this_.inFile read.2
          refine ih walked loadable apart ?_ ?_ succeeds
          · rw [after, lookAll_memory]
            intro phdr isDone
            rcases List.mem_append.mp isDone with before | last
            · have keeps := (List.pairwise_append.mp (List.pairwise_append.mp apart).1).2.2 phdr
                before (header i) (List.mem_singleton_self _)
              have small := (loadable phdr (List.mem_append_left _ isDone)).ends
              refine (loaded phdr before).congr (by omega) fun address inside => ?_
              obtain ⟨outFile, outside⟩ := keeps address inside
              exact segmentMemory_outside this_.ends this_.short outFile outside
            · obtain rfl := List.mem_singleton.mp last
              exact segmentMemory_loaded this_ _
          · rw [segment_curAddr, segmentsEnd_append, lookAll_curAddr, ends,
              Nat.mod_eq_of_lt this_.ends]
        · rw [loadSegments_short rest isLoad full, loadSegment, moved_errnum, after_eq_none,
            here] at succeeds
          rw [here] at full
          exact absurd (@segmentRead_whole file (header i) _ this_.inFile succeeds.2).2 full
      · rw [List.filter_cons_of_neg (by simpa using isLoad)] at loadable apart ⊢
        rw [← here] at isLoad
        rw [loadSegments_skip rest isLoad] at succeeds ⊢
        exact ih walked loadable apart loaded ends succeeds

/-- The stores of the segments of a table, one after the other. -/
theorem loadSegments_stores {header : Nat → Elf32Phdr} {indices : List Nat}
    (walked : ∀ i ∈ indices, elf32Phdr stack (phdrAddress buffer elf i) = header i)
    (loadable : ∀ phdr ∈ (indices.map header).filter (·.pType = ptLoad),
      SegmentLoadable file.content phdr)
    {load : MultibootLoad}
    (succeeds : (loadSegments file stack buffer elf indices load).errnum = .none) :
    (loadSegments file stack buffer elf indices load).stores = load.stores ++
      ((indices.map header).filter (·.pType = ptLoad)).flatMap (segmentStores file.content) := by
  induction indices generalizing load with
  | nil =>
      rw [loadSegments, List.map_nil, List.filter_nil, List.flatMap_nil, List.append_nil]
  | cons i rest ih =>
      obtain ⟨here, walked⟩ := List.forall_mem_cons.mp walked
      rw [List.map_cons] at loadable ⊢
      by_cases isLoad : (header i).pType = ptLoad
      · rw [List.filter_cons_of_pos (by simpa using isLoad)] at loadable ⊢
        obtain ⟨this_, loadable⟩ := List.forall_mem_cons.mp loadable
        rw [← here] at isLoad
        by_cases full : readsSegment file load.filepos (elf32Phdr stack (phdrAddress buffer elf i))
        · rw [loadSegments_full rest isLoad full, here] at succeeds ⊢
          have read := loadSegments_errnum rest succeeds
          rw [segment_errnum, after_eq_none] at read
          rw [ih walked loadable succeeds, segment_stores this_.inFile read.2, lookAll_stores,
            List.flatMap_cons, List.append_assoc]
        · rw [loadSegments_short rest isLoad full, loadSegment, moved_errnum, after_eq_none,
            here] at succeeds
          rw [here] at full
          exact absurd (@segmentRead_whole file (header i) _ this_.inFile succeeds.2).2 full
      · rw [List.filter_cons_of_neg (by simpa using isLoad)] at loadable ⊢
        rw [← here] at isLoad
        rw [loadSegments_skip rest isLoad] at succeeds ⊢
        rw [ih walked loadable succeeds, look_stores]

end Loop

/-! ## The headers in the buffer -/

section Headers

variable {stack : Memory} {buffer : Address} {content : List UInt8} {offset : Nat}

/-- A byte of the part that is searched is that of the file. -/
theorem header_byte (inside : offset < min multibootSearch content.length) :
    store stack buffer (content.take multibootSearch) (buffer + BitVec.ofNat 32 offset) =
      fileImage content (BitVec.ofNat 32 offset) := by
  have small : offset < 2 ^ 32 := by
    rw [multibootSearch] at inside
    omega
  have stored : offset < (content.take multibootSearch).length := by
    rw [List.length_take]
    exact inside
  have image := @store_add (fun _ => 0) 0#32 content offset (by omega) small
  rw [BitVec.zero_add] at image
  rw [store_add stored small, fileImage, image, List.get_eq_getElem, List.get_eq_getElem,
    List.getElem_take]

/-- So is a word, -/
theorem header_word (inside : offset + 4 ≤ min multibootSearch content.length) :
    loadWord (store stack buffer (content.take multibootSearch)) (buffer + BitVec.ofNat 32 offset) =
      loadWord (fileImage content) (BitVec.ofNat 32 offset) := by
  refine loadWord_congr fun i lt => ?_
  rw [BitVec.add_assoc, ← BitVec.ofNat_add]
  exact header_byte (by omega)

/-- and a half word. -/
theorem header_half (inside : offset + 2 ≤ min multibootSearch content.length) :
    loadHalf (store stack buffer (content.take multibootSearch)) (buffer + BitVec.ofNat 32 offset) =
      loadHalf (fileImage content) (BitVec.ofNat 32 offset) := by
  have second : store stack buffer (content.take multibootSearch)
      (buffer + BitVec.ofNat 32 offset + 1) = fileImage content (BitVec.ofNat 32 offset + 1) := by
    have byte := @header_byte stack buffer content (offset + 1) (by omega)
    rw [BitVec.ofNat_add, ← BitVec.add_assoc] at byte
    exact byte
  rw [loadHalf, loadHalf, header_byte (by omega), second]

/-- The ELF header is the one of the file. -/
theorem header_ehdr (inside : elf32EhdrSize ≤ min multibootSearch content.length) :
    elf32Ehdr (store stack buffer (content.take multibootSearch)) buffer = fileEhdr content := by
  rw [elf32EhdrSize] at inside
  have ident : (List.range 16).map (fun i =>
      store stack buffer (content.take multibootSearch) (buffer + BitVec.ofNat 32 i)) =
        (List.range 16).map fun i => fileImage content (0#32 + BitVec.ofNat 32 i) := by
    refine List.map_congr_left fun i isIn => ?_
    have below := List.mem_range.mp isIn
    rw [header_byte (by omega), BitVec.zero_add]
  rw [fileEhdr, elf32Ehdr, elf32Ehdr, ident]
  congr 1
  · exact header_half (show 16 + 2 ≤ _ by omega)
  · exact header_half (show 18 + 2 ≤ _ by omega)
  · exact header_word (show 20 + 4 ≤ _ by omega)
  · exact header_word (show 24 + 4 ≤ _ by omega)
  · exact header_word (show 28 + 4 ≤ _ by omega)
  · exact header_half (show 42 + 2 ≤ _ by omega)
  · exact header_half (show 44 + 2 ≤ _ by omega)

/-- So are program headers in the buffer. -/
theorem header_phdr (inside : offset + 24 ≤ min multibootSearch content.length) :
    elf32Phdr (store stack buffer (content.take multibootSearch)) (buffer + BitVec.ofNat 32 offset) =
      elf32Phdr (fileImage content) (BitVec.ofNat 32 offset) := by
  have words : ∀ i, i + 4 ≤ 24 →
      loadWord (store stack buffer (content.take multibootSearch))
          (buffer + BitVec.ofNat 32 offset + BitVec.ofNat 32 i) =
        loadWord (fileImage content) (BitVec.ofNat 32 offset + BitVec.ofNat 32 i) := by
    intro i within
    rw [BitVec.add_assoc, ← BitVec.ofNat_add]
    exact header_word (by omega)
  rw [elf32Phdr, elf32Phdr]
  congr 1
  · exact header_word (by omega)
  · exact words 4 (by decide)
  · exact words 12 (by decide)
  · exact words 16 (by decide)
  · exact words 20 (by decide)

/-- The program headers that are walked are those of the file. -/
theorem walked_phdr (walked : TableWalked content) {i : Nat} (inTable : i < (fileEhdr content).ePhnum) :
    elf32Phdr (store stack buffer (content.take multibootSearch))
        (phdrAddress buffer (fileEhdr content) i) = filePhdr content i := by
  obtain ⟨inside, same⟩ := walked i inTable
  have offset : phdrOffset (fileEhdr content) i = (fileEhdr content).ePhoff + elf32PhdrSize * i := by
    have size : multibootSearch = 8192 := rfl
    rw [phdrOffset]
    omega
  rw [phdrAddress, offset, header_phdr inside, same]

end Headers

/-! ## Loads that succeed -/

section Success

variable {own : Address → Bool} {allocates : Nat → Bool} {uart : Option Address}
  {stack : Memory} {buffer : Address} {file : OpenFile} {load : MultibootLoad}
  {content : List UInt8}

/-- The start of the file, where it is read without an error. -/
theorem headerRead_whole (done : (headerRead file).errnum = .none) :
    (headerRead file).stored = file.content.take multibootSearch ∧
      (headerRead file).returned = (min multibootSearch file.content.length : Nat) := by
  rw [headerRead] at done ⊢
  obtain ⟨stored, returned, _⟩ := grubRead_whole done
  have isMax : file.filemax = file.content.length := rfl
  have start : saneFilepos file.filemax 0 = 0 := saneFilepos_of_range (by decide) (by omega)
  have length : saneLen file.filemax 0 multibootSearch = (min multibootSearch file.content.length : Nat) := by
    rw [saneLen]
    split <;> omega
  rw [start, length] at stored returned
  refine ⟨?_, returned⟩
  rw [stored, Int.toNat_zero, List.drop_zero, Int.toNat_natCast, List.take_eq_take_min,
    Nat.min_assoc, Nat.min_self, ← List.take_eq_take_min]

/-- What an accepted header says. -/
theorem refusal_none {len : Nat} (accepted : refusal stack buffer len = .none) :
    elf32EhdrSize < len ∧
      toUInt32 ((elf32Ehdr stack buffer).ePhoff +
        (elf32Ehdr stack buffer).ePhentsize * (elf32Ehdr stack buffer).ePhnum) < toUInt32 len := by
  rw [refusal] at accepted
  split at accepted
  · cases accepted
  split at accepted
  · cases accepted
  split at accepted
  · cases accepted
  next isElf =>
      split at accepted
      · cases accepted
      split at accepted
      · cases accepted
      next inTable =>
          have whole := (not_not.mp isElf).1
          exact ⟨by exact_mod_cast whole, by omega⟩

/-- A kernel that is accepted without an error has its console and every segment. -/
theorem loadAccepted_errnum (succeeds : (loadAccepted uart stack buffer file load).errnum = .none) :
    uart.isSome = true ∧ load.errnum = .none := by
  rw [loadAccepted, dropModules_errnum, console_errnum] at succeeds
  have before := loadSegments_errnum _ succeeds.2
  rw [reach_errnum, put_errnum, grant_errnum] at before
  exact ⟨succeeds.1, before⟩

/-- A load that succeeds read an accepted header and went through its segments. -/
theorem loadMultibootFile_succeeds
    (succeeds : (loadMultibootFile allocates uart stack buffer file load).errnum = .none) :
    (headerRead file).errnum = .none ∧
      AcceptsKernel stack buffer file.content ∧
        loadMultibootFile allocates uart stack buffer file load =
          loadAccepted uart (store stack buffer (file.content.take multibootSearch)) buffer file
            (load.moved (headerRead file).filepos load.errnum) := by
  rw [loadMultibootFile] at succeeds ⊢
  by_cases refused : refusal (headerStack stack buffer file) buffer (headerRead file).returned ≠ .none
  · rw [if_pos refused, fail_errnum] at succeeds
    exact absurd succeeds refused
  rw [if_neg refused] at succeeds ⊢
  by_cases pages : allocates (protModePages file) = true
  · rw [if_pos pages] at succeeds ⊢
    have before := (loadAccepted_errnum succeeds).2
    rw [moved_errnum, after_eq_none] at before
    obtain ⟨stored, returned⟩ := headerRead_whole before.2
    rw [headerStack, stored, returned] at refused
    rw [headerStack, stored, before.2]
    exact ⟨rfl, not_not.mp refused, rfl⟩
  · rw [if_neg pages, fail_errnum] at succeeds
    cases succeeds

end Success

/-! ## Stores that spare the program -/

section Frame

variable {file : OpenFile} {stack : Memory} {buffer : Address} {elf : Elf32Ehdr}
  {phdr : Elf32Phdr} {load : MultibootLoad} {address : Address}

/-- A read of a segment stores no more than it is asked for. -/
theorem segmentRead_length (file : OpenFile) (filepos : Int) (phdr : Elf32Phdr) :
    (segmentRead file filepos phdr).stored.length ≤ phdr.pFilesz := by
  have small := filemax_small file
  have within := grubRead_within file (grubSeek file filepos (toInt32 phdr.pOffset))
    (toInt32 phdr.pFilesz)
  have position := saneFilepos_range (filemax_nonneg file) (grubSeek file filepos (toInt32 phdr.pOffset))
  rw [segmentRead]
  rw [saneLen] at within
  rcases Nat.lt_or_ge phdr.pFilesz (2 ^ 31) with low | high
  · have length : toInt32 phdr.pFilesz = phdr.pFilesz := toInt32_of_range (by omega) (by omega)
    rw [length] at within ⊢
    split at within <;> omega
  · split at within <;> omega

/-- A negative count clears nothing. -/
theorem cleared_le (length : Nat) (small : length < 2 ^ 32) :
    (zeroes length).length = if length < 2 ^ 31 then length else 0 := by
  rw [zeroes, List.length_replicate]
  split
  · next low =>
      rw [toInt32_of_range (by omega) (by omega)]
      rfl
  · next high =>
      rw [toInt32_of_overflow (by omega) (by omega)]
      omega

/-- A segment leaves alone what is outside of it and of what is cleared. -/
theorem segment_frame (file_ : ¬ InRegion phdr.start phdr.pFilesz address)
    (cleared : ¬ InRegion (phdr.start + BitVec.ofNat 32 phdr.pFilesz)
      (zeroes (phdr.pMemsz - phdr.pFilesz)).length address) :
    (loadSegment file phdr load).memory address = load.memory address ∧
      (finishSegment phdr (loadSegment file phdr load)).memory address = load.memory address := by
  have stored : (loadSegment file phdr load).memory address = load.memory address := by
    have length := segmentRead_length file load.filepos phdr
    rw [loadSegment, moved_memory, put_memory]
    refine store_outside fun inside => file_ ?_
    rw [InRegion] at inside ⊢
    exact Nat.lt_of_lt_of_le inside length
  refine ⟨stored, ?_⟩
  rw [finishSegment, reach_memory]
  split
  · rw [put_memory, BitVec.ofNat_add, ← stored]
    exact store_outside cleared
  · exact stored

/-- A segment that is not where the program is spares it, in full or not. -/
theorem segment_spares {own : Address → Bool}
    (off : ∀ address, InRegion phdr.start (max phdr.pFilesz phdr.pMemsz) address →
      own address = false) (small : phdr.pMemsz < 2 ^ 32)
    (before : overwrites own load.stores = false) :
    overwrites own (loadSegment file phdr load).stores = false ∧
      overwrites own (finishSegment phdr (loadSegment file phdr load)).stores = false := by
  rw [Elf32Phdr.start] at off
  have stored : overwrites own (loadSegment file phdr load).stores = false := by
    have length := segmentRead_length file load.filepos phdr
    rw [loadSegment, moved_stores, spares_put_iff]
    exact ⟨before, fun address inside => off address (inside.mono (le_max_of_le_left length))⟩
  refine ⟨stored, ?_⟩
  rw [finishSegment, reach_stores]
  split
  · next more =>
      have length := cleared_le (phdr.pMemsz - phdr.pFilesz) (by omega)
      have most : (zeroes (phdr.pMemsz - phdr.pFilesz)).length ≤ phdr.pMemsz - phdr.pFilesz := by
        rw [length]
        split <;> omega
      rw [spares_put_iff]
      refine ⟨stored, fun address inside => off address ?_⟩
      have behind := inside.mono most
      rw [InRegion, BitVec.ofNat_add] at behind
      rw [InRegion]
      bv_omega
  · exact stored

/-- So do all the segments of a table. -/
theorem loadSegments_spares {own : Address → Bool} (indices : List Nat)
    (before : overwrites own load.stores = false)
    (off : ∀ i ∈ indices, (elf32Phdr stack (phdrAddress buffer elf i)).pType = ptLoad →
      ∀ address, InRegion (elf32Phdr stack (phdrAddress buffer elf i)).start
        (max (elf32Phdr stack (phdrAddress buffer elf i)).pFilesz
          (elf32Phdr stack (phdrAddress buffer elf i)).pMemsz) address → own address = false) :
    overwrites own (loadSegments file stack buffer elf indices load).stores = false := by
  induction indices generalizing load with
  | nil => exact before
  | cons i rest ih =>
      obtain ⟨here, off⟩ := List.forall_mem_cons.mp off
      by_cases isLoad : (elf32Phdr stack (phdrAddress buffer elf i)).pType = ptLoad
      · obtain ⟨stored, finished⟩ := @segment_spares file _
          (load.lookAll (phdrAddress buffer elf i)) own (here isLoad) (loadWord_lt _ _) before
        by_cases full : readsSegment file load.filepos (elf32Phdr stack (phdrAddress buffer elf i))
        · rw [loadSegments_full rest isLoad full]
          exact ih finished off
        · rw [loadSegments_short rest isLoad full]
          exact stored
      · rw [loadSegments_skip rest isLoad]
        exact ih before off

/-- A byte in no region a segment stores to is as it was. -/
theorem loadSegments_frame (indices : List Nat)
    (outside : ∀ i ∈ indices, (elf32Phdr stack (phdrAddress buffer elf i)).pType = ptLoad →
      ¬ InRegion (elf32Phdr stack (phdrAddress buffer elf i)).start
          (elf32Phdr stack (phdrAddress buffer elf i)).pFilesz address ∧
        ¬ InRegion ((elf32Phdr stack (phdrAddress buffer elf i)).start +
            BitVec.ofNat 32 (elf32Phdr stack (phdrAddress buffer elf i)).pFilesz)
          (zeroes ((elf32Phdr stack (phdrAddress buffer elf i)).pMemsz -
            (elf32Phdr stack (phdrAddress buffer elf i)).pFilesz)).length address) :
    (loadSegments file stack buffer elf indices load).memory address = load.memory address := by
  induction indices generalizing load with
  | nil => rfl
  | cons i rest ih =>
      obtain ⟨here, outside⟩ := List.forall_mem_cons.mp outside
      by_cases isLoad : (elf32Phdr stack (phdrAddress buffer elf i)).pType = ptLoad
      · obtain ⟨file_, cleared⟩ := here isLoad
        have frame := @segment_frame file _ (load.lookAll (phdrAddress buffer elf i)) address
          file_ cleared
        rw [lookAll_memory] at frame
        by_cases full : readsSegment file load.filepos (elf32Phdr stack (phdrAddress buffer elf i))
        · rw [loadSegments_full rest isLoad full, ih outside, frame.2]
        · rw [loadSegments_short rest isLoad full, frame.1]
      · rw [loadSegments_skip rest isLoad, ih outside, look_memory]

/-- The end of what is loaded stays a 32-bit address. -/
theorem loadSegments_curAddr (indices : List Nat) (small : load.curAddr < 2 ^ 32) :
    (loadSegments file stack buffer elf indices load).curAddr < 2 ^ 32 := by
  induction indices generalizing load with
  | nil => exact small
  | cons i rest ih =>
      by_cases isLoad : (elf32Phdr stack (phdrAddress buffer elf i)).pType = ptLoad
      · by_cases full : readsSegment file load.filepos (elf32Phdr stack (phdrAddress buffer elf i))
        · rw [loadSegments_full rest isLoad full]
          apply ih
          rw [segment_curAddr, lookAll_curAddr]
          exact Nat.max_lt.mpr ⟨small, Nat.mod_lt _ (by decide)⟩
        · rw [loadSegments_short rest isLoad full, loadSegment, moved_curAddr, put_curAddr,
            lookAll_curAddr]
          exact small
      · rw [loadSegments_skip rest isLoad]
        exact ih (by rw [look_curAddr]; exact small)

end Frame

section Spared

variable {own : Address → Bool} {allocates : Nat → Bool} {uart : Option Address}
  {stack : LoaderStack own} {file : OpenFile} {load : MultibootLoad} {content : List UInt8}

/-- A kernel that is not where the program is spares it, whether its load succeeds or not. -/
theorem loadMultibootFile_spares (reads : ReadsStart file) (nothing : load.stores = [])
    (keeps : AcceptsKernel stack.bytes stack.buffer file.content →
      TableWalked file.content ∧ KernelApart own file.content) :
    overwrites own
      (loadMultibootFile allocates uart stack.bytes stack.buffer file load).stores = false := by
  have unstored : overwrites own load.stores = false := by rw [nothing]; rfl
  rw [loadMultibootFile]
  by_cases refused : refusal (headerStack stack.bytes stack.buffer file) stack.buffer
      (headerRead file).returned ≠ .none
  · rw [if_pos refused, fail_stores, moved_stores]
    exact unstored
  rw [if_neg refused]
  by_cases given : allocates (protModePages file) = true
  swap
  · rw [if_neg given, fail_stores, moved_stores]
    exact unstored
  have silent : (headerRead file).errnum = .none := by
    by_contra failed
    rw [reads failed] at refused
    exact refused nofun
  obtain ⟨stored, returned⟩ := headerRead_whole silent
  rw [headerStack, stored, returned] at refused
  obtain ⟨walked, pages, spares⟩ := keeps (not_not.mp refused)
  obtain ⟨long, _⟩ := refusal_none (not_not.mp refused)
  rw [if_pos given, headerStack, stored, loadAccepted, dropModules_stores, console_stores,
    header_ehdr (Nat.le_of_lt long)]
  apply loadSegments_spares
  · rw [reach_stores, spares_put_iff, grant_stores, moved_stores, zeroes_length file.small]
    exact ⟨unstored, pages⟩
  · intro i inTable isLoad
    rw [walked_phdr walked (List.mem_range.mp inTable)] at isLoad ⊢
    exact spares _ (List.mem_filter.mpr ⟨List.mem_map_of_mem inTable, by simpa using isLoad⟩)

/-- Where the program headers and segments of an accepted kernel can be loaded, loads that
succeed are complete. -/
theorem loadsCompletely_of_loadable (disjoint : (loadPhdrs content).Pairwise SegmentsApart)
    (loadable : AcceptsKernel stack.bytes stack.buffer content → KernelLoadable own content) :
    LoadsCompletely stack content := by
  rintro overrun allocates uart file memory curAddr modsCount rfl reads
  have keeps := fun accepted => And.intro (loadable accepted).walked (loadable accepted).off
  rw [grubLoadMultiboot_ok, settle_of_spares (loadMultibootFile_spares reads rfl keeps)]
  intro succeeds
  obtain ⟨_, accepted, isLoad⟩ := loadMultibootFile_succeeds succeeds
  obtain ⟨walked, segments, apart, _⟩ := loadable accepted
  obtain ⟨long, _⟩ := refusal_none accepted
  have isEhdr := @header_ehdr stack.bytes stack.buffer file.content (Nat.le_of_lt long)
  rw [isLoad, loadAccepted, dropModules_errnum, console_errnum, isEhdr] at succeeds
  rw [isLoad, loadAccepted, dropModules_memory, dropModules_curAddr, console_memory,
    console_curAddr, isEhdr]
  refine @loadSegments_loaded file _ stack.buffer _ (filePhdr file.content) _ ?_ _ [] segments
    ?_ ?_ ?_ succeeds.2
  · exact fun i isIn => walked_phdr walked (List.mem_range.mp isIn)
  · exact (apart.and disjoint).imp fun both address inside =>
      ⟨both.1 address inside, both.2 address inside⟩
  · exact fun phdr isIn => absurd isIn List.not_mem_nil
  · exact reach_curAddr _

end Spared

/-! ## Loads that do not -/

section Converse

variable {own : Address → Bool} {stack : LoaderStack own} {bytes : Memory} {buffer : Address}
  {content : List UInt8}

/-- An ordinary table: its entries have their size, and no segment has more bytes in the
file than in memory. -/
structure OrdinaryTable (content : List UInt8) : Prop where
  stride : (fileEhdr content).ePhentsize = elf32PhdrSize
  sizes : ∀ phdr ∈ loadPhdrs content, phdr.pFilesz ≤ phdr.pMemsz

/-- A read of a plain file never fails. -/
theorem plainFile_read {small : content.length < 2 ^ 31} (filepos len : Int) :
    (grubRead (plainFile content small) filepos len).errnum = .none := by
  have position := saneFilepos_range (filemax_nonneg (plainFile content small)) filepos
  have range := saneLen_range position len
  have short := filemax_small (plainFile content small)
  have isMax : (plainFile content small).fsmax = 2 ^ 31 - 1 := rfl
  rw [grubRead, readWithin, if_neg (by omega)]
  rfl

/-- A plain file gives the bytes it starts with. -/
theorem readsStart_plainFile (small : content.length < 2 ^ 31) :
    ReadsStart (plainFile content small) :=
  fun failed => absurd (plainFile_read _ _) failed

/-- Segments that are read without an error leave none. -/
theorem loadSegments_silent {file : OpenFile} {elf : Elf32Ehdr} (indices : List Nat)
    (silent : ∀ i ∈ indices, (elf32Phdr bytes (phdrAddress buffer elf i)).pType = ptLoad →
      ∀ filepos,
        (segmentRead file filepos (elf32Phdr bytes (phdrAddress buffer elf i))).errnum = .none)
    {load : MultibootLoad} (clear : load.errnum = .none) :
    (loadSegments file bytes buffer elf indices load).errnum = .none := by
  induction indices generalizing load with
  | nil => exact clear
  | cons i rest ih =>
      obtain ⟨here, silent⟩ := List.forall_mem_cons.mp silent
      by_cases isLoad : (elf32Phdr bytes (phdrAddress buffer elf i)).pType = ptLoad
      · have read := here isLoad load.filepos
        by_cases full : readsSegment file load.filepos (elf32Phdr bytes (phdrAddress buffer elf i))
        · rw [loadSegments_full rest isLoad full]
          apply ih silent
          rw [segment_errnum, after_eq_none, lookAll_errnum]
          exact ⟨clear, read⟩
        · rw [loadSegments_short rest isLoad full, loadSegment, moved_errnum, after_eq_none,
            lookAll_errnum]
          exact ⟨clear, read⟩
      · rw [loadSegments_skip rest isLoad]
        exact ih silent (by rw [look_errnum]; exact clear)

/-- The load of a kernel that is read without an error, on a machine that has the UART and
the pages for it. -/
def plainLoad (stack : LoaderStack own) (small : content.length < 2 ^ 31) (memory : Memory) :
    MultibootLoad :=
  grubLoadMultiboot (fun _ => true) (some 0) stack.bytes stack.buffer
    (.ok (plainFile content small)) (.start memory 0 0)

/-- An accepted kernel is loaded without an error from a file that is read without one. -/
theorem plainFile_loads (small : content.length < 2 ^ 31)
    (accepted : AcceptsKernel stack.bytes stack.buffer content) (memory : Memory) :
    (plainLoad stack small memory).errnum = .none ∧
      plainLoad stack small memory =
        loadAccepted (some 0) (store stack.bytes stack.buffer (content.take multibootSearch))
          stack.buffer (plainFile content small)
          (.moved (.start memory 0 0) (headerRead (plainFile content small)).filepos .none) := by
  have read : (headerRead (plainFile content small)).errnum = .none := plainFile_read _ _
  obtain ⟨stored, returned⟩ := headerRead_whole read
  have isContent : (plainFile content small).content = content := rfl
  rw [isContent] at stored returned
  have loads : plainLoad stack small memory =
      loadAccepted (some 0) (store stack.bytes stack.buffer (content.take multibootSearch))
        stack.buffer (plainFile content small)
        (.moved (.start memory 0 0) (headerRead (plainFile content small)).filepos .none) := by
    rw [AcceptsKernel, ← returned] at accepted
    rw [plainLoad, grubLoadMultiboot_ok, loadMultibootFile, headerStack, stored, read]
    rw [if_neg (not_not.mpr accepted)]
    rfl
  refine ⟨?_, loads⟩
  rw [loads, loadAccepted, dropModules_errnum, console_errnum]
  refine ⟨rfl, loadSegments_silent _ (fun _ _ _ _ => plainFile_read _ _) ?_⟩
  rw [reach_errnum, put_errnum, grant_errnum, moved_errnum]

/-- Where loads are complete, that one spares the program and is complete. -/
theorem plainLoad_complete (small : content.length < 2 ^ 31)
    (complete : LoadsCompletely stack content)
    (accepted : AcceptsKernel stack.bytes stack.buffer content) (memory : Memory) :
    overwrites own (plainLoad stack small memory).stores = false ∧
      (∀ phdr ∈ loadPhdrs content,
        SegmentLoaded content (plainLoad stack small memory).memory phdr) ∧
      (plainLoad stack small memory).curAddr = segmentsEnd (loadPhdrs content) := by
  -- what the program might leave: no error, but another end
  have completes := complete
    (fun load => { load with errnum := .none, curAddr := segmentsEnd (loadPhdrs content) + 1 })
    (fun _ => true) (some 0) (plainFile content small) memory 0 0 rfl (readsStart_plainFile small)
  rw [← plainLoad] at completes
  have spares : overwrites own (plainLoad stack small memory).stores = false := by
    by_contra overwritten
    rw [MultibootLoad.settle, if_pos (Bool.of_not_eq_false overwritten)] at completes
    exact absurd (completes rfl).2 (Nat.succ_ne_self _)
  rw [settle_of_spares spares] at completes
  exact ⟨spares, completes (plainFile_loads small accepted memory).1⟩

/-- The table of an ordinary kernel that is accepted is in the buffer. -/
theorem tableWalked_of_accepted (small : content.length < 2 ^ 31) (table : TableInFile content)
    (ordinary : OrdinaryTable content) (accepted : AcceptsKernel bytes buffer content) :
    TableWalked content := by
  have stride := ordinary.stride
  have size : elf32PhdrSize = 32 := rfl
  have search : multibootSearch = 8192 := rfl
  obtain ⟨long, inBuffer⟩ := refusal_none accepted
  rw [header_ehdr (Nat.le_of_lt long), stride, size] at inBuffer
  intro i inTable
  have last := table ((fileEhdr content).ePhnum - 1) (by omega)
  rw [stride, size] at last
  rw [filePhdr, stride, size]
  refine ⟨?_, rfl⟩
  have total := @toUInt32_of_range ((fileEhdr content).ePhoff + 32 * (fileEhdr content).ePhnum)
    (by omega)
  have most := @toUInt32_of_range (min multibootSearch content.length) (by omega)
  rw [most] at inBuffer
  push_cast at total inBuffer
  rw [total] at inBuffer
  omega

/-- Other segments leave alone what is inside of this one. -/
theorem disjoint_stores {other : Elf32Phdr} {address : Address}
    (small : other.pMemsz < 2 ^ 32) (sizes : other.pFilesz ≤ other.pMemsz)
    (outside : ¬ InRegion other.start other.pMemsz address) :
    ¬ InRegion other.start other.pFilesz address ∧
      ¬ InRegion (other.start + BitVec.ofNat 32 other.pFilesz)
        (zeroes (other.pMemsz - other.pFilesz)).length address := by
  have length := cleared_le (other.pMemsz - other.pFilesz) (by omega)
  rw [InRegion] at outside
  rw [InRegion, InRegion, length]
  constructor
  · omega
  · split
    · bv_omega
    · omega

/-- Not all of a segment that is too long to be cleared was clear before. -/
theorem short_of_complete (small : content.length < 2 ^ 31) (walked : TableWalked content)
    (disjoint : (loadPhdrs content).Pairwise SegmentsApart) (ordinary : OrdinaryTable content)
    (complete : LoadsCompletely stack content)
    (accepted : AcceptsKernel stack.bytes stack.buffer content) {phdr : Elf32Phdr}
    (isIn : phdr ∈ loadPhdrs content) : phdr.pMemsz - phdr.pFilesz < 2 ^ 31 := by
  by_contra long
  have words : ∀ other ∈ loadPhdrs content, other.pMemsz < 2 ^ 32 := by
    intro other isOther
    obtain ⟨i, _, rfl⟩ := List.mem_map.mp (List.mem_filter.mp isOther).1
    exact loadWord_lt _ _
  have most := words phdr isIn
  obtain ⟨_, loads⟩ := plainFile_loads small accepted fun _ => 0xFF
  have loaded := (plainLoad_complete small complete accepted fun _ => 0xFF).2.1 phdr isIn
  obtain ⟨long_, _⟩ := refusal_none accepted
  -- one of two bytes to be cleared is not in the pages, which are cleared in any case
  obtain ⟨distance, low, high, apart⟩ : ∃ distance, phdr.pFilesz ≤ distance ∧
      distance < phdr.pMemsz ∧ ¬ InRegion (BitVec.ofNat 32 grubMultibootAddr) content.length
        (phdr.start + BitVec.ofNat 32 distance) := by
    by_cases first : InRegion (BitVec.ofNat 32 grubMultibootAddr) content.length
        (phdr.start + BitVec.ofNat 32 phdr.pFilesz)
    · refine ⟨phdr.pFilesz + content.length, by omega, by omega, ?_⟩
      rw [InRegion] at first ⊢
      bv_omega
    · exact ⟨phdr.pFilesz, le_refl _, by omega, first⟩
  have zero := loaded.cleared distance low high
  rw [loads, loadAccepted, dropModules_memory, console_memory, header_ehdr (Nat.le_of_lt long_)] at zero
  rw [loadSegments_frame, reach_memory, put_memory, plainFile_content, store_outside,
    grant_memory, moved_memory, start_memory] at zero
  · exact absurd zero (by decide)
  · rw [zeroes_length small]
    exact apart
  · intro i inTable isLoad
    rw [walked_phdr walked (List.mem_range.mp inTable)] at isLoad ⊢
    have isOther : filePhdr content i ∈ loadPhdrs content :=
      List.mem_filter.mpr ⟨List.mem_map_of_mem inTable, by simpa using isLoad⟩
    have inside := @inRegion_add phdr.start phdr.pMemsz distance high (by omega)
    by_cases same : filePhdr content i = phdr
    · rw [same, cleared_le _ (by omega), if_neg long]
      refine ⟨?_, Nat.not_lt_zero _⟩
      rw [InRegion]
      bv_omega
    · apply disjoint_stores (words _ isOther) (ordinary.sizes _ isOther)
      have apart_ := disjoint.forall isIn isOther fun equal => same equal.symm
      exact apart_ _ inside

/-- The stores of a load that spares the program are not where the program is. -/
theorem loadAccepted_spares (small : content.length < 2 ^ 31) (walked : TableWalked content)
    (segments : ∀ phdr ∈ loadPhdrs content, SegmentLoadable content phdr)
    (accepted : AcceptsKernel stack.bytes stack.buffer content) {memory : Memory}
    (loads : plainLoad stack small memory =
      loadAccepted (some 0) (store stack.bytes stack.buffer (content.take multibootSearch))
        stack.buffer (plainFile content small)
        (.moved (.start memory 0 0) (headerRead (plainFile content small)).filepos .none))
    (succeeds : (plainLoad stack small memory).errnum = .none)
    (spares : overwrites own (plainLoad stack small memory).stores = false) :
    KernelApart own content := by
  obtain ⟨long, _⟩ := refusal_none accepted
  have isEhdr := @header_ehdr stack.bytes stack.buffer content (Nat.le_of_lt long)
  rw [loads, loadAccepted, dropModules_errnum, console_errnum, isEhdr] at succeeds
  have stored := @loadSegments_stores (plainFile content small) _ stack.buffer _
    (filePhdr content) _ (fun i isIn => walked_phdr walked (List.mem_range.mp isIn)) segments _
    succeeds.2
  rw [loads, loadAccepted, dropModules_stores, console_stores, isEhdr, stored, overwrites_append,
    Bool.or_eq_false_iff, reach_stores, spares_put_iff] at spares
  obtain ⟨⟨_, pages⟩, stores⟩ := spares
  rw [plainFile_content, zeroes_length small] at pages
  refine ⟨pages, fun phdr isIn => spares_of_segmentStores (segments phdr isIn) ?_⟩
  rw [overwrites_eq_false_iff] at stores ⊢
  exact fun write isWrite => stores write (List.mem_flatMap.mpr ⟨phdr, isIn, isWrite⟩)

/-- What successful loads of an ordinary kernel say about it. -/
theorem loadable_of_complete (small : content.length < 2 ^ 31) (table : TableInFile content)
    (disjoint : (loadPhdrs content).Pairwise SegmentsApart) (ordinary : OrdinaryTable content)
    (complete : LoadsCompletely stack content)
    (accepted : AcceptsKernel stack.bytes stack.buffer content) : KernelLoadable own content := by
  have walked := tableWalked_of_accepted small table ordinary accepted
  obtain ⟨succeeds, loads⟩ := plainFile_loads small accepted fun _ => 0
  obtain ⟨spares, loaded, highest⟩ := plainLoad_complete small complete accepted fun _ => 0
  have segments : ∀ phdr ∈ loadPhdrs content, SegmentLoadable content phdr := by
    refine fun phdr isIn => ⟨?_, ?_, ?_⟩
    · rcases Nat.eq_zero_or_pos phdr.pFilesz with empty | some_
      · exact .inl empty
      · have sizes := ordinary.sizes phdr isIn
        have last := (loaded phdr isIn).bytes (phdr.pFilesz - 1) (by omega)
        obtain ⟨inFile, _⟩ := List.getElem?_eq_some_iff.mp last
        exact .inr (by omega)
    · have within := le_segmentsEnd isIn
      rw [← highest, loads, loadAccepted, dropModules_curAddr, console_curAddr] at within
      exact Nat.lt_of_le_of_lt within (loadSegments_curAddr _ (by rw [reach_curAddr]; decide))
    · exact short_of_complete small walked disjoint ordinary complete accepted isIn
  refine ⟨walked, segments, ?_,
    loadAccepted_spares small walked segments accepted loads succeeds spares⟩
  refine disjoint.imp_of_mem fun {left right} _ isRight apart address inside other => ?_
  have sizes := ordinary.sizes right isRight
  apply apart address inside
  rw [InRegion] at other ⊢
  omega

end Converse

/-! ## The whole function -/

/-- A kernel whose segments share no memory is loaded completely, whenever its load
succeeds, where its segments can be loaded; if its table is an ordinary one, only there. -/
theorem grubLoadMultiboot_completes {own : Address → Bool} {stack : LoaderStack own}
    {content : List UInt8} (small : content.length < 2 ^ 31) (table : TableInFile content)
    (disjoint : (loadPhdrs content).Pairwise SegmentsApart) :
    ((AcceptsKernel stack.bytes stack.buffer content → KernelLoadable own content) →
        LoadsCompletely stack content) ∧
      (OrdinaryTable content → LoadsCompletely stack content →
        AcceptsKernel stack.bytes stack.buffer content → KernelLoadable own content) :=
  ⟨loadsCompletely_of_loadable disjoint, loadable_of_complete small table disjoint⟩

/-- A program below 1 MiB. -/
def lowMegabyte (address : Address) : Bool := address.toNat < 0x100000

/-- Its stack. -/
def lowStack : LoaderStack lowMegabyte where
  bytes := fun _ => 0
  buffer := 0x10000
  within address inside := by
    rw [InRegion, multibootSearch] at inside
    rw [lowMegabyte]
    apply decide_eq_true
    bv_omega

/-- What is above 1 MiB is not on it. -/
theorem lowMemory_above {start : Address} {length : Nat} (above : 0x100000 ≤ start.toNat)
    (ends : start.toNat + length ≤ 2 ^ 32) {address : Address}
    (inside : InRegion start length address) : lowMegabyte address = false := by
  rw [InRegion] at inside
  rw [lowMegabyte]
  apply decide_eq_false
  bv_omega

/-- A kernel of two segments: one with some bytes of it and some to be cleared, and one
behind it. -/
def segmentKernel : List UInt8 :=
  kernelHeaders 32 2 [⟨ptLoad, 128, 0x100000, 4, 8⟩, ⟨ptLoad, 132, 0x100010, 2, 2⟩] ++
    [1, 2, 3, 4, 5, 6]

/-- A kernel of one segment is loaded completely. -/
theorem grubLoadMultiboot_completes_segment : LoadsCompletely lowStack segmentKernel := by
  have two : loadPhdrs segmentKernel =
      [⟨ptLoad, 128, 0x100000, 4, 8⟩, ⟨ptLoad, 132, 0x100010, 2, 2⟩] := by decide +kernel
  have length : segmentKernel.length = 134 := by decide +kernel
  have apart : SegmentsApart ⟨ptLoad, 128, 0x100000, 4, 8⟩ ⟨ptLoad, 132, 0x100010, 2, 2⟩ := by
    intro address first second
    rw [InRegion, Elf32Phdr.start] at first second
    bv_omega
  refine (grubLoadMultiboot_completes (by decide +kernel) (by decide +kernel) ?_).1 fun _ => ?_
  · rw [two]
    exact List.pairwise_pair.mpr apart
  · refine ⟨by decide +kernel, ?_, ?_, ⟨?_, ?_⟩⟩
    · rw [two, List.forall_mem_cons, List.forall_mem_singleton]
      exact ⟨⟨.inr (by rw [length]; decide), by decide, by decide⟩,
        ⟨.inr (by rw [length]; decide), by decide, by decide⟩⟩
    · rw [two]
      exact List.pairwise_pair.mpr apart
    · intro address inside
      rw [length] at inside
      exact lowMemory_above (by decide) (by decide) inside
    · rw [two, List.forall_mem_cons, List.forall_mem_singleton]
      exact ⟨fun _ inside => lowMemory_above (by decide) (by decide) inside,
        fun _ inside => lowMemory_above (by decide) (by decide) inside⟩

/-- The first of its segments, without the last of the bytes it should have. -/
def truncatedKernel : List UInt8 :=
  kernelHeaders 32 1 [⟨ptLoad, 96, 0x100000, 8, 8⟩] ++ [1, 2, 3, 4]

/-- A segment that is cut off does not keep the load from succeeding. -/
theorem grubLoadMultiboot_truncates :
    ¬ ∀ (own : Address → Bool) (stack : LoaderStack own) (content : List UInt8),
      content.length < 2 ^ 31 → TableInFile content →
        (loadPhdrs content).Pairwise SegmentsApart → LoadsCompletely stack content := by
  intro claimed
  have one : loadPhdrs truncatedKernel = [⟨ptLoad, 96, 0x100000, 8, 8⟩] := by decide +kernel
  have apart : (loadPhdrs truncatedKernel).Pairwise SegmentsApart := by
    rw [one]
    exact List.pairwise_singleton _ _
  have small : truncatedKernel.length < 2 ^ 31 := by decide +kernel
  have complete := claimed lowMegabyte lowStack truncatedKernel small (by decide +kernel) apart
  have accepted : AcceptsKernel lowStack.bytes lowStack.buffer truncatedKernel := by
    rw [AcceptsKernel]
    decide +kernel
  have loaded := (plainLoad_complete small complete accepted fun _ => 0).2.1
    ⟨ptLoad, 96, 0x100000, 8, 8⟩ (by rw [one]; exact List.mem_singleton_self _)
  have last := loaded.bytes 7 (by decide)
  have none_ : truncatedKernel[103]? = none := by decide +kernel
  rw [none_] at last
  cases last

end GrubLegacy.Loader
