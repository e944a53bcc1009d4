import GrubLegacy.Loader.LinuxPages

/-!
# Loading a kernel without verifying it

`grub_load_linux` without secure boot. The size of the protected mode part is the
difference between the size of the kernel and that of its setup part, as an unsigned
number; where it is negative the pages are those of another size.
-/

namespace GrubLegacy.Loader

open Base Stage2 Efi Clanton CStrings

section Plain

variable {rom : SecureRom} {spi : Bool} {uart : Option Address} {systemTable : Nat}
  {arg : CommandLine} {memory : Memory} {room : LinuxRoom} {source : KernelSource false}
  {kernel : OpenedKernel false}

/-- The protected mode part of a kernel, which begins where the header that was read says. -/
def protModePart (asset : KernelAsset false) : List UInt8 :=
  (asset.content).drop
    (setupSize (kernelHeader (asset.read (asset.opened) linuxKernelParamsSize).stored))

/-- What a load without secure boot has to keep to. -/
structure LinuxInBounds (source : KernelSource false) (load : LinuxLoad) : Prop where
  real : StoresWithin load.realMode load.realStores
  prot : StoresWithin load.protMode load.protStores
  whole : load.kernelType = .bigLinux → ∃ asset pages, source.kernel = .ok asset ∧
    load.protMode = some pages ∧ load.protStores = [(pages.1, protModePart asset)] ∧
      HoldsBytes load.memory pages.1 (protModePart asset)

/-- A kernel that does no harm. A file is not shorter than its setup part, or shorter by more
than a page, or no more is read of it; an item has less than 2 GiB behind its setup part, or
the UART is not found. -/
def LinuxKernelFits (uart : Option Address) (arg : CommandLine) (kernel : OpenedKernel false) : Prop :=
  let setup := setupSize (kernelHeader kernel.paramsBuf)
  match kernel.asset with
  | .file opened => setup ≤ opened.content.length ∨ opened.content.length + 0xFFF < setup ∨
      (kernel.transfer 0).stored = []
  | .flash item => item.len < item.skipped + setup + 2 ^ 31 ∨
      (clnDetectEarlyUart uart arg.1).2 ≠ .none

/-- Without a header the kernel is stored from its pages on, -/
theorem protStores_plain : kernel.protStores [] 0 =
    [(kernel.protMode.1 + BitVec.ofNat 32 0, (kernel.transfer 0).stored)] := rfl

/-- which is all that changes behind the real mode pages. -/
theorem kernelMemory_plain : kernelMemory false spi [] 0 uart systemTable arg memory kernel =
    store (storeAll memory
        (kernel.realStores spi 0 systemTable arg (clnDetectEarlyUart uart arg.1).1))
      kernel.protMode.1 (kernel.transfer 0).stored := by
  rw [kernelMemory, protStores_plain, BitVec.add_zero, storeAll, List.foldl_append]
  rfl

/-- As much is read as the kernel has behind its setup part. -/
theorem len_plain : kernel.len 0 =
    toInt32 (toUInt32 (kernel.asset.size - setupSize (kernelHeader kernel.paramsBuf))) := by
  rw [OpenedKernel.len, protSize]
  rfl

/-- Where a file that is not shorter than its setup part is read in full, the rest of it is
there. -/
theorem stored_of_file {opened : OpenFile} (isFile : kernel.asset = .file opened)
    (boots : Boots rom false spi [] 0 uart systemTable arg memory kernel) :
    (kernel.transfer 0).stored =
      opened.content.drop (setupSize (kernelHeader kernel.paramsBuf)) := by
  have bound := setupSize_le kernel.paramsBuf
  have silent := boots.silent
  have returned := boots.returned
  have length : kernel.len 0 =
      opened.filemax - setupSize (kernelHeader kernel.paramsBuf) := by
    have small := opened.small
    rw [len_plain, isFile, KernelAsset.size, toInt32, toUInt32, OpenFile.filemax]
    omega
  rw [OpenedKernel.transfer, isFile, KernelAsset.read, KernelAsset.seek] at silent returned ⊢
  rw [length] at silent returned ⊢
  simp only [Bool.false_eq_true, if_false] at silent returned ⊢
  obtain ⟨stored, whole, _⟩ := grubRead_whole silent
  have range := saneLen_range (saneFilepos_range (filemax_nonneg opened) (grubSeek opened kernel.filepos
    (setupSize (kernelHeader kernel.paramsBuf)))) (opened.filemax -
      setupSize (kernelHeader kernel.paramsBuf))
  have setup : (setupSize (kernelHeader kernel.paramsBuf) : Int) ≤ opened.filemax := by
    rw [whole] at returned
    omega
  rw [stored, grubSeek_of_range (Int.natCast_nonneg _) setup,
    saneFilepos_of_range (Int.natCast_nonneg _) setup,
    saneLen_of_range (by omega) (by omega)]
  apply List.take_of_length_le
  rw [List.length_drop, OpenFile.filemax]
  omega

/-- No more is read from a file than it has, nor than is asked for. -/
theorem stored_le_of_file {opened : OpenFile} (isFile : kernel.asset = .file opened) :
    (kernel.transfer 0).stored.length ≤ opened.content.length ∧
      (setupSize (kernelHeader kernel.paramsBuf) ≤ opened.content.length →
        (kernel.transfer 0).stored.length ≤
          opened.content.length - setupSize (kernelHeader kernel.paramsBuf)) := by
  have small := opened.small
  have length : kernel.len 0 =
      opened.filemax - setupSize (kernelHeader kernel.paramsBuf) := by
    have bound := setupSize_le kernel.paramsBuf
    rw [len_plain, isFile, KernelAsset.size, toInt32, toUInt32, OpenFile.filemax]
    omega
  rw [OpenedKernel.transfer, isFile, length]
  have within := grubRead_within opened (grubSeek opened kernel.filepos
    (setupSize (kernelHeader kernel.paramsBuf))) (opened.filemax -
      setupSize (kernelHeader kernel.paramsBuf))
  have position := saneFilepos_range (filemax_nonneg opened) (grubSeek opened kernel.filepos
    (setupSize (kernelHeader kernel.paramsBuf)))
  have range := saneLen_range position (opened.filemax -
      setupSize (kernelHeader kernel.paramsBuf))
  have isMax : opened.filemax = opened.content.length := rfl
  refine ⟨?_, fun setup => ?_⟩
  · exact Int.ofNat_le.mp (Int.le_trans within (by omega))
  · refine Int.ofNat_le.mp (Int.le_trans within ?_)
    rw [saneLen]
    split <;> omega

/-- How much is asked for of an item: what is behind its setup part, as an `int`. -/
theorem len_of_flash {item : FlashItem false} (isFlash : kernel.asset = .flash item) :
    kernel.len 0 =
      toInt32 ((item.len : Int) - (item.skipped + setupSize (kernelHeader kernel.paramsBuf))) := by
  rw [len_plain, isFlash, KernelAsset.size, grubClnAssetSize, FlashItem.len, FlashItem.skipped,
    toInt32, toInt32, toInt32, toInt32, toUInt32]
  omega

/-- What is read of an item: as many bytes as are asked for. -/
theorem stored_of_flash {item : FlashItem false} (isFlash : kernel.asset = .flash item) :
    (kernel.transfer 0).stored =
      item.bytes (setupSize (kernelHeader kernel.paramsBuf) + item.skipped)
        (kernel.len 0).toNat := by
  rw [OpenedKernel.transfer, isFlash, KernelAsset.read, KernelAsset.seek,
    if_neg Bool.false_ne_true]

/-- What an item skips is the hard-coded size at most. -/
theorem FlashItem.skipped_le (item : FlashItem false) : item.skipped ≤ 0x400 := by
  rw [FlashItem.skipped, SpiState.skipped, csbhOffs]
  split <;> omega

/-- Of an item that has less than 2 GiB behind its setup part all of that is read, and of a
longer one nothing. -/
theorem len_of_flash_toNat {item : FlashItem false} (isFlash : kernel.asset = .flash item) :
    (kernel.len 0).toNat =
      if item.len < item.skipped + setupSize (kernelHeader kernel.paramsBuf) + 2 ^ 31 then
        item.len - (item.skipped + setupSize (kernelHeader kernel.paramsBuf))
      else 0 := by
  have bound := setupSize_le kernel.paramsBuf
  have skipped := item.skipped_le
  have small : item.len < 2 ^ 32 := item.small
  rw [len_of_flash isFlash, toInt32]
  split <;> omega

/-- A transfer from flash never fails. -/
theorem quiet_of_flash {item : FlashItem false} (isFlash : kernel.asset = .flash item) :
    (kernel.transfer 0).errnum = .none ∧
      (kernel.transfer 0).returned = kernel.len 0 := by
  rw [OpenedKernel.transfer, isFlash, KernelAsset.read]
  dsimp only
  exact ⟨rfl, rfl⟩

/-- An item is loaded unless the UART is asked for and not found. -/
theorem boots_of_flash_iff {item : FlashItem false} (isFlash : kernel.asset = .flash item) :
    Boots rom false spi [] 0 uart systemTable arg memory kernel ↔
      (clnDetectEarlyUart uart arg.1).2 = .none :=
  ⟨Boots.consoled, fun consoled =>
    ⟨consoled, (quiet_of_flash isFlash).1, (quiet_of_flash isFlash).2, nofun⟩⟩

/-- The pages are those of the size of the kernel. -/
theorem protPages_eq (fillable : Fillable false 0 room arg source kernel) :
    kernel.protMode.2 =
      pageAlign (protSize false kernel.asset.size 0 (kernelHeader kernel.paramsBuf)) := by
  rw [fillable.protPages]

/-- The kernel is stored in its pages just when it stores nothing or fits them. -/
theorem protWithin_iff (fillable : Fillable false 0 room arg source kernel) :
    StoresWithin (some kernel.protMode) (kernel.protStores [] 0) ↔
      (kernel.transfer 0).stored = [] ∨
        (kernel.transfer 0).stored.length ≤ kernel.protMode.2 := by
  have room : kernel.protMode.2 < 2 ^ 32 := by
    rw [protPages_eq fillable]
    exact pageAlign_lt _
  rw [protStores_plain, storesWithin_offset_iff (by decide) room, Nat.zero_add]

/-- A file that is loaded is there in full, and keeps to its pages when it fits. -/
theorem file_fits_iff {opened : OpenFile} (isFile : kernel.asset = .file opened)
    (fillable : Fillable false 0 room arg source kernel) :
    StoresWithin (some kernel.protMode) (kernel.protStores [] 0) ↔
      LinuxKernelFits uart arg kernel := by
  obtain ⟨short, shorter⟩ := stored_le_of_file isFile
  have small := opened.small
  have bound := setupSize_le kernel.paramsBuf
  have size : protSize false kernel.asset.size 0 (kernelHeader kernel.paramsBuf) =
      toUInt32 ((opened.content.length : Int) - setupSize (kernelHeader kernel.paramsBuf)) := by
    rw [isFile]
    rfl
  have pages := protPages_eq fillable
  rw [size] at pages
  rw [protWithin_iff fillable, LinuxKernelFits, isFile, pages]
  dsimp only
  rcases Nat.lt_or_ge opened.content.length (setupSize (kernelHeader kernel.paramsBuf)) with
    less | enough
  · have value : toUInt32 ((opened.content.length : Int) -
        setupSize (kernelHeader kernel.paramsBuf)) =
          2 ^ 32 + opened.content.length - setupSize (kernelHeader kernel.paramsBuf) := by
      rw [toUInt32]
      omega
    rw [value]
    rcases Nat.lt_or_ge (opened.content.length + 0xFFF)
      (setupSize (kernelHeader kernel.paramsBuf)) with far | near
    · have room := @le_pageAlign
        (2 ^ 32 + opened.content.length - setupSize (kernelHeader kernel.paramsBuf)) (by omega)
      exact iff_of_true (.inr (by omega)) (.inr (.inl far))
    · rw [pageAlign_of_wrap (by omega) (by omega), Nat.le_zero, List.length_eq_zero_iff, or_self]
      exact ⟨fun empty => .inr (.inr empty),
        fun fits => (fits.resolve_left (by omega)).resolve_left (by omega)⟩
  · have value : toUInt32 ((opened.content.length : Int) -
        setupSize (kernelHeader kernel.paramsBuf)) =
          opened.content.length - setupSize (kernelHeader kernel.paramsBuf) := by
      rw [toUInt32]
      omega
    have stored := shorter enough
    have room := @le_pageAlign
      (opened.content.length - setupSize (kernelHeader kernel.paramsBuf)) (by omega)
    rw [value]
    exact iff_of_true (.inr (Nat.le_trans stored room)) (.inl enough)

/-- The part of an item that is behind its setup sectors. -/
theorem protModePart_flash {item : FlashItem false} (isFlash : kernel.asset = .flash item)
    (fillable : Fillable false 0 room arg source kernel) :
    protModePart kernel.asset =
      item.bytes (setupSize (kernelHeader kernel.paramsBuf) + item.skipped)
        (item.len - (item.skipped + setupSize (kernelHeader kernel.paramsBuf))) := by
  rw [protModePart, ← fillable.params, isFlash, KernelAsset.content, FlashItem.bytes_drop,
    Int.add_comm, Nat.sub_add_eq]

/-- A size that is not negative as an `int` fits into as many pages. -/
theorem toNat_le_pageAlign {size : Nat} (small : size < 2 ^ 32) :
    (toInt32 size).toNat ≤ pageAlign size := by
  rw [toInt32]
  rcases Nat.lt_or_ge size (2 ^ 31) with less | more
  · have room := @le_pageAlign size (by omega)
    omega
  · omega

/-- An item keeps to its pages, as one that would not is not copied. -/
theorem flash_within {item : FlashItem false} (isFlash : kernel.asset = .flash item)
    (fillable : Fillable false 0 room arg source kernel) :
    StoresWithin (some kernel.protMode) (kernel.protStores [] 0) := by
  rw [protWithin_iff fillable, stored_of_flash isFlash, protPages_eq fillable,
    FlashItem.bytes_length, len_plain, protSize, if_neg Bool.false_ne_true]
  exact .inr (toNat_le_pageAlign (toUInt32_lt _))

/-- All that is behind the setup part of an item is read exactly when it has less than
2 GiB. -/
theorem flash_whole_iff {item : FlashItem false} (isFlash : kernel.asset = .flash item)
    (fillable : Fillable false 0 room arg source kernel) :
    (kernel.transfer 0).stored = protModePart kernel.asset ↔
      item.len < item.skipped + setupSize (kernelHeader kernel.paramsBuf) + 2 ^ 31 := by
  rw [stored_of_flash isFlash, protModePart_flash isFlash fillable, len_of_flash_toNat isFlash]
  constructor
  · intro same
    have lengths := congrArg List.length same
    rw [FlashItem.bytes_length, FlashItem.bytes_length] at lengths
    split at lengths <;> omega
  · intro less
    rw [if_pos less]

/-- An item keeps to its pages and is there in full exactly when it fits. -/
theorem flash_fits_iff {item : FlashItem false} (isFlash : kernel.asset = .flash item)
    (fillable : Fillable false 0 room arg source kernel) :
    (StoresWithin (some kernel.protMode) (kernel.protStores [] 0) ∧
        (Boots rom false spi [] 0 uart systemTable arg memory kernel →
          (kernel.transfer 0).stored = protModePart kernel.asset)) ↔
      LinuxKernelFits uart arg kernel := by
  rw [boots_of_flash_iff isFlash, flash_whole_iff isFlash fillable, LinuxKernelFits, isFlash,
    and_iff_right (flash_within isFlash fillable), imp_iff_not_or, or_comm]

/-- The protected mode part is shorter than 2^32. -/
theorem protModePart_length_lt (asset : KernelAsset false) : (protModePart asset).length < 2 ^ 32 := by
  rw [protModePart, List.length_drop]
  cases asset with
  | file opened =>
      have small := opened.small
      rw [KernelAsset.content]
      omega
  | flash item =>
      have small : item.len < 2 ^ 32 := item.small
      rw [KernelAsset.content, FlashItem.bytes_length]
      omega

/-- What filling the pages comes to without secure boot. -/
theorem fillKernel_inBounds_iff (fillable : Fillable false 0 room arg source kernel) :
    LinuxInBounds source (fillKernel rom false spi [] 0 uart systemTable arg memory kernel) ↔
      LinuxKernelFits uart arg kernel := by
  have filled := @fillKernel_filled rom false spi [] 0 uart systemTable arg memory kernel
  have boots := @fillKernel_errnum_iff rom false spi [] 0 uart systemTable arg memory kernel
  have decides : (StoresWithin (some kernel.protMode) (kernel.protStores [] 0) ∧
      (Boots rom false spi [] 0 uart systemTable arg memory kernel →
        (kernel.transfer 0).stored = protModePart kernel.asset)) ↔
          LinuxKernelFits uart arg kernel := by
    cases kind : kernel.asset with
    | file opened =>
        rw [← file_fits_iff kind fillable]
        refine ⟨And.left, fun within => ⟨within, fun loaded => ?_⟩⟩
        rw [stored_of_file kind loaded, protModePart, fillable.params, kind]
        rfl
    | flash item =>
        rw [← kind]
        exact flash_fits_iff kind fillable
  rw [← decides]
  revert filled boots
  generalize fillKernel rom false spi [] 0 uart systemTable arg memory kernel = load
  intro filled boots
  constructor
  · intro bounded
    have prot := bounded.prot
    rw [filled.protMode, filled.protStores] at prot
    refine ⟨prot, fun loaded => ?_⟩
    obtain ⟨asset, pages, opens, _, stores, _⟩ :=
      bounded.whole (kernelType_iff.mpr (boots.mpr loaded))
    obtain rfl := Except.ok.inj (fillable.opens.symm.trans opens)
    rw [filled.protStores, protStores_plain] at stores
    exact congrArg Prod.snd (List.cons.inj stores).1
  · rintro ⟨within, whole⟩
    refine ⟨?_, ?_, fun loaded => ?_⟩
    · rw [filled.realMode, filled.realStores]
      exact realStores_within fillable (clnDetectEarlyUart_length_le uart arg.1)
    · rw [filled.protMode, filled.protStores]
      exact within
    · have stored := whole (boots.mp (kernelType_iff.mp loaded))
      refine ⟨kernel.asset, kernel.protMode, fillable.opens, filled.protMode, ?_, ?_⟩
      · rw [filled.protStores, protStores_plain, BitVec.add_zero, stored]
      · rw [filled.memory, kernelMemory_plain, stored]
        exact holdsBytes_store (protModePart_length_lt kernel.asset)

/-- A load without secure boot keeps to its pages, and leaves the whole kernel when it
succeeds, exactly when every kernel it comes to store fits. -/
theorem grubLoadLinux_inBounds_iff (rom : SecureRom) (csbh : Address) (source : KernelSource false)
    (room : LinuxRoom) (uart : Option Address) (systemTable : Nat) (arg : CommandLine)
    (memory : Memory) :
    LinuxInBounds source
        (grubLoadLinux rom false csbh source room uart systemTable arg memory) ↔
      (source.asked = true → ∀ kernel, Fillable false 0 room arg source kernel →
        LinuxKernelFits uart arg kernel) := by
  have refused : ∀ errnum : {errnum : GrubError // errnum ≠ .none},
      LinuxInBounds source (.failed memory errnum) := fun errnum =>
    ⟨storesWithin_nil _, storesWithin_nil _, fun loaded =>
      absurd (kernelType_iff.mp loaded) errnum.2⟩
  rw [grubLoadLinux]
  dsimp only
  by_cases asked : source.asked = true
  · rw [if_neg (by rw [asked]; exact Bool.false_ne_true), if_neg Bool.false_ne_true, loadKernel]
    cases opened : openKernel false 0 room arg source.kernel with
    | error failure =>
        refine iff_of_true (refused failure) fun _ kernel fillable => ?_
        cases opened.symm.trans (openKernel_ok_iff.mpr fillable)
    | ok kernel =>
        have fillable := openKernel_ok_iff.mp opened
        dsimp only
        rw [fillKernel_inBounds_iff fillable]
        refine ⟨fun fits _ other fillable' => ?_, fun fits => fits asked kernel fillable⟩
        obtain rfl := Except.ok.inj (opened.symm.trans (openKernel_ok_iff.mpr fillable'))
        exact fits
  · rw [if_pos (by rw [Bool.eq_false_iff.mpr asked]; rfl)]
    exact iff_of_true (refused ⟨.badFilename, nofun⟩) fun isAsked => absurd isAsked asked

end Plain

/-- A file that ends within its setup sectors, in the page in which they end. -/
def shortKernel : KernelSource false :=
  .files true (.error ⟨.fileNotFound, nofun⟩)
    (.ok (plainFile (kernelImage 8 0x1001) (by decide +kernel)))

/-- The load of it. -/
def shortKernelLoad : LinuxLoad :=
  grubLoadLinux acceptingRom false 0x1000 shortKernel smallLinuxRoom none 0 noArgument
    fun _ => 0

/-- Such a file is stored to no pages at all. -/
theorem grubLoadLinux_leaves_pages : ¬ LinuxInBounds shortKernel shortKernelLoad := by
  intro bounded
  have within := bounded.prot
  have stores : shortKernelLoad.protStores = [(0x100000, [0])] := by decide +kernel
  have pages : shortKernelLoad.protMode = some (0x100000, 0) := by decide +kernel
  rw [stores, pages] at within
  obtain ⟨_, same, inside⟩ := within _ List.mem_cons_self 0x100000 (by decide)
  obtain rfl := Option.some.inj same
  revert inside
  decide

end GrubLegacy.Loader
