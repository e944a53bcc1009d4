import GrubLegacy.Loader.LinuxPages

/-!
# Loading a kernel in secure mode

`grub_load_linux` with secure boot. The security header goes in front of the image, as far
from it as the header says; what the boot ROM authenticates is what the header it finds
there announces.
-/

namespace GrubLegacy.Loader

open Base Stage2 Efi Clanton CStrings

/-- What a secure load that succeeds has to keep to: what was read of the image and the
entry point were authenticated, and the stores keep to their pages. -/
def KernelSafe (rom : SecureRom) (load : LinuxLoad) : Prop :=
  load.kernelType = .bigLinux →
    (∃ memory sbh image entry, load.validated = some (memory, sbh) ∧ load.image = some image ∧
      load.entry = some entry ∧
        (∀ address, InRegion image.1 image.2 address → Authenticates rom memory sbh address) ∧
          Authenticates rom memory sbh entry) ∧
      StoresWithin load.protMode load.protStores

section Secure

variable {rom : SecureRom} {spi : Bool} {sbh : List UInt8} {sbhLen systemTable : Nat}
  {uart : Option Address} {arg : CommandLine} {memory : Memory} {room : LinuxRoom}
  {source : KernelSource true} {kernel : OpenedKernel true}

/-- The size of the image. -/
def OpenedKernel.imageSize (kernel : OpenedKernel true) : Nat := toUInt32 kernel.asset.size

/-- How much of the image is copied: nothing if its size is negative as an `int`. -/
def OpenedKernel.copied (kernel : OpenedKernel true) : Nat := kernel.asset.size.toNat

/-- How much is authenticated from the header on that is found in front of the image. -/
def authenticLength (rom : SecureRom) (spi : Bool) (sbh : List UInt8) (sbhLen : Nat)
    (uart : Option Address) (systemTable : Nat) (arg : CommandLine) (memory : Memory)
    (kernel : OpenedKernel true) : Nat :=
  max sbhSize (rom.extent (securityHeader
    (kernelMemory true spi sbh sbhLen uart systemTable arg memory kernel) kernel.protMode.1))

/-- There are pages for the header; the image, if it is copied at all, ends before the
address space does and what is announced covers it, and the entry point lies in what is
announced. -/
structure KernelCovered (rom : SecureRom) (spi : Bool) (sbh : List UInt8) (sbhLen : Nat)
    (uart : Option Address) (systemTable : Nat) (arg : CommandLine) (memory : Memory)
    (kernel : OpenedKernel true) : Prop where
  room : (sbhLen + kernel.imageSize) % 2 ^ 32 + 0xFFF < 2 ^ 32
  ends : kernel.copied = 0 ∨ sbhLen + kernel.imageSize < 2 ^ 32
  image : kernel.copied = 0 ∨ sbhLen + kernel.imageSize ≤
    authenticLength rom spi sbh sbhLen uart systemTable arg memory kernel
  entry : (code32Start true sbhLen kernel.paramsBuf kernel.realMode.1 - kernel.protMode.1).toNat <
    authenticLength rom spi sbh sbhLen uart systemTable arg memory kernel

/-- In secure mode the whole file is read. -/
theorem len_secure :
    kernel.len sbhLen = toInt32 kernel.asset.size := by
  rw [OpenedKernel.len, protSize]
  rw [if_pos rfl, if_pos rfl, toInt32, toUInt32, toUInt32, toInt32]
  omega

/-- The size of the image is a 32-bit number. -/
theorem imageSize_lt : kernel.imageSize < 2 ^ 32 := toUInt32_lt _

/-- The size of an asset is an `int`. -/
theorem KernelAsset.size_range {secure : Bool} (asset : KernelAsset secure) :
    -2 ^ 31 ≤ asset.size ∧ asset.size < 2 ^ 31 := by
  cases asset with
  | file opened =>
      have small := filemax_small opened
      have isMax : opened.filemax = opened.content.length := rfl
      rw [KernelAsset.size]
      omega
  | flash item =>
      exact ⟨toInt32_lower _, toInt32_upper _⟩

/-- What is copied is the whole image, or nothing. -/
theorem copied_eq_imageSize (some_ : kernel.copied ≠ 0) : kernel.copied = kernel.imageSize := by
  have range := kernel.asset.size_range
  rw [OpenedKernel.copied] at some_ ⊢
  rw [OpenedKernel.imageSize, toUInt32]
  omega

/-- An image that is read in full has its size. -/
theorem stored_length (boots : Boots rom true spi sbh sbhLen uart systemTable arg memory kernel) :
    (kernel.transfer sbhLen).stored.length = kernel.copied := by
  have silent := boots.silent
  have range := kernel.asset.size_range
  rw [OpenedKernel.transfer, len_secure, toInt32_of_range range.1 range.2] at silent ⊢
  rw [OpenedKernel.copied]
  cases kind : kernel.asset with
  | file opened =>
      rw [kind, KernelAsset.read, KernelAsset.seek, if_pos rfl] at silent
      have isMax : opened.filemax = opened.content.length := rfl
      have size : (KernelAsset.file opened : KernelAsset true).size = opened.filemax := rfl
      rw [size] at silent
      rw [KernelAsset.read, KernelAsset.seek, if_pos rfl, size, (grubRead_whole silent).1]
      rw [grubSeek_of_range (by omega) (by omega),
        saneFilepos_of_range (by omega) (by omega), saneLen_of_range (by omega) (by omega),
        List.length_take, List.length_drop]
      omega
  | flash item =>
      rw [KernelAsset.read]
      dsimp only
      rw [FlashItem.bytes_length]

/-- The pages take the header and the image. -/
theorem protSize_secure (kernel : OpenedKernel true) :
    protSize true kernel.asset.size sbhLen (kernelHeader kernel.paramsBuf) =
      (sbhLen + kernel.imageSize) % 2 ^ 32 := by
  rw [protSize, if_pos rfl, OpenedKernel.imageSize, toUInt32, toUInt32]
  omega

/-- The header is stored first, and the image behind it. -/
theorem protStores_secure : kernel.protStores sbh sbhLen =
    [(kernel.protMode.1 + BitVec.ofNat 32 0, sbh),
      (kernel.protMode.1 + BitVec.ofNat 32 sbhLen, (kernel.transfer sbhLen).stored)] := by
  rw [OpenedKernel.protStores, if_pos rfl, BitVec.add_zero, OpenedKernel.start, if_pos rfl]
  rfl

/-- The header and the image keep to their pages when there are pages for the header and an
image that is copied ends before the address space does. -/
theorem protStores_within_iff (fillable : Fillable true sbhLen room arg source kernel)
    (small : sbhLen < 2 ^ 32) (whole : sbh.length = sbhSize)
    (boots : Boots rom true spi sbh sbhLen uart systemTable arg memory kernel) :
    StoresWithin (some kernel.protMode) (kernel.protStores sbh sbhLen) ↔
      (sbhLen + kernel.imageSize) % 2 ^ 32 + 0xFFF < 2 ^ 32 ∧
        (kernel.copied = 0 ∨ sbhLen + kernel.imageSize < 2 ^ 32) := by
  have size := @imageSize_lt kernel
  have large := fillable.large
  rw [protSize_secure] at large
  have pages : kernel.protMode.2 = pageAlign ((sbhLen + kernel.imageSize) % 2 ^ 32) := by
    rw [fillable.protPages, protSize_secure]
  have limited : kernel.protMode.2 < 2 ^ 32 := by
    rw [pages]
    exact pageAlign_lt _
  have header : sbhSize = 0x24C := rfl
  rw [protStores_secure, storesWithin_cons_iff, storesWithin_offset_iff (by decide) limited,
    storesWithin_offset_iff small limited, ← List.length_eq_zero_iff, ← List.length_eq_zero_iff,
    stored_length boots, whole, pages]
  constructor
  · rintro ⟨first, last⟩
    have given : (sbhLen + kernel.imageSize) % 2 ^ 32 + 0xFFF < 2 ^ 32 := by
      by_contra wraps
      rw [pageAlign_of_wrap (Nat.mod_lt _ (by decide)) (by omega)] at first
      omega
    have end_ := pageAlign_lt ((sbhLen + kernel.imageSize) % 2 ^ 32)
    refine ⟨given, or_iff_not_imp_left.mpr fun copies => ?_⟩
    have fits := last.resolve_left copies
    rw [copied_eq_imageSize copies] at fits
    omega
  · rintro ⟨given, ends⟩
    have room := le_pageAlign given
    refine ⟨.inr (by omega), or_iff_not_imp_left.mpr fun copies => ?_⟩
    rw [Nat.mod_eq_of_lt (ends.resolve_left copies)] at room ⊢
    rw [copied_eq_imageSize copies]
    exact room

/-- The ROM looked at the header in front of the image. -/
theorem fillKernel_validated
    (boots : Boots rom true spi sbh sbhLen uart systemTable arg memory kernel) :
    (fillKernel rom true spi sbh sbhLen uart systemTable arg memory kernel).validated =
      some (kernelMemory true spi sbh sbhLen uart systemTable arg memory kernel,
        kernel.protMode.1) := by
  have filled := @filledLoad_filled true spi sbh sbhLen uart systemTable arg memory kernel
  rw [fillKernel, if_neg (not_not.mpr boots.returned), if_pos rfl, filled.memory,
    if_pos (boots.validates rfl), LinuxLoad.validate, filled.memory]

/-- What is copied of the image is authenticated when what its header announces covers it. -/
theorem image_authentic_iff (small : sbhLen < 2 ^ 32)
    (ends : kernel.copied = 0 ∨ sbhLen + kernel.imageSize < 2 ^ 32) :
    (∀ address, InRegion (kernel.start sbhLen) kernel.copied address →
        Authenticates rom (kernelMemory true spi sbh sbhLen uart systemTable arg memory kernel)
          kernel.protMode.1 address) ↔
      kernel.copied = 0 ∨ sbhLen + kernel.imageSize ≤
        authenticLength rom spi sbh sbhLen uart systemTable arg memory kernel := by
  simp only [Authenticates, inRegion_max]
  rw [← authenticLength, OpenedKernel.start, if_pos rfl]
  rcases Nat.eq_zero_or_pos kernel.copied with empty | nonempty
  · rw [empty]
    exact ⟨fun _ => .inl rfl, fun _ _ inside => absurd inside (Nat.not_lt_zero _)⟩
  · have copies := Nat.ne_of_gt nonempty
    have whole := ends.resolve_left copies
    rw [or_iff_right copies, covered_iff nonempty small, copied_eq_imageSize copies,
      Nat.min_eq_left (by omega)]

/-- Filling the pages is safe exactly when a kernel that boots is covered. -/
theorem fillKernel_safe_iff (fillable : Fillable true sbhLen room arg source kernel)
    (small : sbhLen < 2 ^ 32) (whole : sbh.length = sbhSize) :
    KernelSafe rom (fillKernel rom true spi sbh sbhLen uart systemTable arg memory kernel) ↔
      (Boots rom true spi sbh sbhLen uart systemTable arg memory kernel →
        KernelCovered rom spi sbh sbhLen uart systemTable arg memory kernel) := by
  rw [KernelSafe, kernelType_iff, fillKernel_errnum_iff]
  refine forall_congr' fun boots => ?_
  have filled := @fillKernel_filled rom true spi sbh sbhLen uart systemTable arg memory kernel
  rw [filled.protMode, filled.protStores, filled.image, filled.entry, fillKernel_validated boots,
    protStores_within_iff fillable small whole boots, stored_length boots]
  have entry : Authenticates rom
      (kernelMemory true spi sbh sbhLen uart systemTable arg memory kernel) kernel.protMode.1
      (code32Start true sbhLen kernel.paramsBuf kernel.realMode.1) ↔
        (code32Start true sbhLen kernel.paramsBuf kernel.realMode.1 - kernel.protMode.1).toNat <
          authenticLength rom spi sbh sbhLen uart systemTable arg memory kernel := by
    rw [Authenticates, inRegion_max]
    rfl
  constructor
  · rintro ⟨⟨_, _, image, _, isValidated, isImage, isEntry, covers, starts⟩, room, ends⟩
    obtain ⟨rfl, rfl⟩ := Prod.mk.inj (Option.some.inj isValidated)
    obtain rfl := Option.some.inj isImage
    obtain rfl := Option.some.inj isEntry
    exact ⟨room, ends, (image_authentic_iff small ends).mp covers, entry.mp starts⟩
  · intro covered
    exact ⟨⟨_, _, _, _, rfl, rfl, rfl, (image_authentic_iff small covered.ends).mpr covered.image,
      entry.mpr covered.entry⟩, covered.room, covered.ends⟩

/-- `sbh_len`, for a header that is fetched to `csbh`. -/
def kernelSbhLen (csbh : Address) (source : KernelSource true) (memory : Memory) : Nat :=
  (securityHeader (withSbh source.header.toOption memory csbh) csbh).headerLen

/-- A secure load is safe exactly when every kernel that boots is covered by its header. -/
theorem grubLoadLinux_safe_iff (rom : SecureRom) (csbh : Address) (source : KernelSource true)
    (room : LinuxRoom) (uart : Option Address) (systemTable : Nat) (arg : CommandLine)
    (memory : Memory) :
    KernelSafe rom (grubLoadLinux rom true csbh source room uart systemTable arg memory) ↔
      (source.asked = true → fetchesSbh source.header.toOption memory csbh = true →
        ∀ kernel, Fillable true (kernelSbhLen csbh source memory) room arg source kernel →
          Boots rom true source.isSpi (headerBytes source.header.toOption)
              (kernelSbhLen csbh source memory) uart systemTable arg
              (withSbh source.header.toOption memory csbh) kernel →
            KernelCovered rom source.isSpi (headerBytes source.header.toOption)
              (kernelSbhLen csbh source memory) uart systemTable arg
              (withSbh source.header.toOption memory csbh) kernel) := by
  have refused : ∀ {memory} {errnum : GrubError}, errnum ≠ .none →
      KernelSafe rom (.failed memory errnum) := fun failed loaded =>
    absurd (kernelType_iff.mp loaded) failed
  rw [grubLoadLinux]
  dsimp only
  by_cases asked : source.asked = true
  · rw [if_neg (by rw [asked]; exact Bool.false_ne_true), if_pos rfl]
    by_cases fetches : fetchesSbh source.header.toOption memory csbh = true
    · rw [if_pos fetches, loadKernel, ← kernelSbhLen]
      cases opened : openKernel true (kernelSbhLen csbh source memory) room arg source.kernel with
      | error failure =>
          refine iff_of_true (refused failure.2) fun _ _ kernel fillable => ?_
          cases opened.symm.trans (openKernel_ok_iff.mpr fillable)
      | ok kernel =>
          have fillable := openKernel_ok_iff.mp opened
          dsimp only
          rw [fillKernel_safe_iff fillable (loadWord_lt _ _) (headerBytes_whole fetches)]
          refine ⟨fun safe _ _ other fillable' => ?_, fun safe => safe asked fetches kernel fillable⟩
          obtain rfl := Except.ok.inj (opened.symm.trans (openKernel_ok_iff.mpr fillable'))
          exact safe
    · rw [if_neg fetches]
      refine iff_of_true (refused ?_) fun _ isFetched => absurd isFetched fetches
      split
      · exact nofun
      · exact fetchErrnum_ne source.header
  · rw [if_pos (by rw [Bool.eq_false_iff.mpr asked]; rfl)]
    exact iff_of_true (refused nofun) fun isAsked => absurd isAsked asked

end Secure

/-- A kernel of a page, with a header for a module of 4 bytes. -/
def trailingKernel : KernelSource true :=
  .files true (.ok smallHeader.opened) (.ok (plainFile (kernelImage 1 0x1000) (by decide +kernel)))

/-- The load of it. -/
def trailingKernelLoad : LinuxLoad :=
  grubLoadLinux acceptingRom true 0x1000 trailingKernel smallLinuxRoom none 0 noArgument
    fun _ => 0

/-- What is behind the bytes its header announces is loaded without being authenticated. -/
theorem grubLoadLinux_admits_more : ¬ KernelSafe acceptingRom trailingKernelLoad := by
  intro safe
  obtain ⟨⟨memory, sbh, image, entry, validated, isImage, _, covers, _⟩, _⟩ :=
    safe (by decide +kernel)
  have found : trailingKernelLoad.validated.map
      (fun call => (call.2, acceptingRom.extent (securityHeader call.1 call.2))) =
        some (0x100000, 592) := by
    decide +kernel
  have stored : trailingKernelLoad.image = some (0x10024C, 0x1000) := by decide +kernel
  rw [validated] at found
  rw [isImage] at stored
  obtain ⟨rfl, extent⟩ := Prod.mk.inj (Option.some.inj found)
  obtain rfl := Option.some.inj stored
  have last := covers 0x100250 (by decide)
  dsimp only at extent
  rw [Authenticates, extent] at last
  revert last
  decide

end GrubLegacy.Loader
