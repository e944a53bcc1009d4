import GrubLegacy.Loader.Linux

/-!
# The pages of a Linux kernel

What `grub_load_linux` stores and where. The parameters always keep to their pages; whether
the kernel does depends on how large it is.
-/

namespace GrubLegacy.Loader

open Base Stage2 Efi Clanton CStrings

/-! ## The command line -/

/-- A conversion takes no more characters than it is given room for. -/
theorem convertToAscii_length_le (count num : Nat) : (convertToAscii count num).length ≤ count := by
  induction count generalizing num with
  | zero => exact Nat.le_refl 0
  | succ count ih =>
      have rest := ih (num / 16)
      rw [convertToAscii, List.length_append, List.length_singleton]
      split
      · exact Nat.succ_le_succ (Nat.zero_le count)
      · exact Nat.succ_le_succ rest

/-- A string that is found is no longer than the rest of the text. -/
theorem length_le_of_strstr {text token : List UInt8} {i : Nat}
    (found : strstr text token = some i) : i + token.length ≤ text.length := by
  have occurs : token.isPrefixOf (text.drop i) = true := by
    simpa using List.find?_some found
  have inside := List.mem_range.mp (List.mem_of_find?_eq_some found)
  have short := (List.isPrefixOf_iff_prefix.mp occurs).length_le
  rw [List.length_drop] at short
  omega

/-- The address of the UART is shorter than the token it is put in for. -/
theorem clnDetectEarlyUart_length_le (uart : Option Address) (cmdline : List UInt8) :
    (clnDetectEarlyUart uart cmdline).1.length ≤ cmdline.length := by
  rw [clnDetectEarlyUart]
  split
  · exact Nat.le_refl _
  · next i found =>
      have inside := length_le_of_strstr found
      have token : quarkUartMmioToken.length = 23 := rfl
      cases uart with
      | none => exact Nat.le_refl _
      | some mmio =>
          dsimp only
          split
          · exact Nat.le_refl _
          · have digits := convertToAscii_length_le 8 mmio.toNat
            have lead : (ascii "0x").length = 2 := rfl
            simp only [List.length_append, List.length_take, List.length_drop, lead]
            omega

/-- The command line of the parameters is the argument and a NUL at most. -/
theorem paramsCmdline_length_le (spi : Bool) (arg : List UInt8) :
    (paramsCmdline spi arg).length ≤ arg.length + 1 := by
  rw [paramsCmdline, List.length_append, List.length_singleton]
  split
  · exact Nat.le_refl _
  · have first := List.length_dropWhile_le
      (fun c => !(c = charOf ' ' || c = charOf '\t' || (false && c = charOf '='))) arg
    have second := List.length_dropWhile_le
      (fun c => c = charOf ' ' || c = charOf '\t' || (false && c = charOf '='))
      (arg.dropWhile fun c => !(c = charOf ' ' || c = charOf '\t' || (false && c = charOf '=')))
    exact Nat.succ_le_succ (Nat.le_trans second first)

/-! ## The parameters -/

section Params

variable {secure spi : Bool} {sbhLen systemTable : Nat} {paramsBuf cmdline : List UInt8}
  {realModeMem : Address} {arg : CommandLine}

/-- The header that is moved has 0x110 bytes at most. -/
theorem movedHeader_length_le : (movedHeader paramsBuf realModeMem).length ≤ 0x110 := by
  have jump : (kernelHeader paramsBuf).jumpOff < 256 := UInt8.toNat_lt _
  have moved := List.length_take_le (0x202 + (kernelHeader paramsBuf).jumpOff - hdrOffset)
    ((enteredParams paramsBuf realModeMem).drop hdrOffset)
  rw [movedHeader]
  rw [hdrOffset] at moved ⊢
  omega

/-- The fixed parameters are stored within their page, -/
theorem fixedParams_within : ∀ write ∈ fixedParams, write.1 + write.2.length ≤ 0x1000 := by
  decide

/-- and those of EFI too. -/
theorem efiParams_within (version systemTable : Nat) :
    ∀ write ∈ efiParams version systemTable, write.1 + write.2.length ≤ 0x1000 := by
  have name : (ascii "EL32").length = 4 ∧ (ascii "EFIL").length = 4 := ⟨rfl, rfl⟩
  rw [efiParams]
  split
  · simp [wordBytes, name]
  · split <;> simp [wordBytes, name]

/-- The parameters end where the command line does. -/
theorem paramStores_within (short : cmdline.length ≤ arg.1.length) :
    ∀ write ∈ paramStores secure spi sbhLen systemTable paramsBuf realModeMem arg cmdline,
      write.1 + write.2.length ≤ realSize arg + 1 := by
  have header := @movedHeader_length_le paramsBuf realModeMem
  have line := paramsCmdline_length_le spi cmdline
  have start : hdrOffset = 0x1F1 := rfl
  have word : ∀ value, (wordBytes value).length = 4 := fun _ => rfl
  intro write stored
  rw [paramStores, realSize] at *
  simp only [List.mem_append, List.mem_cons, List.not_mem_nil, or_false] at stored
  rcases stored with ((first | fixed) | efi) | last
  · rcases first with rfl | rfl | rfl
    · rw [List.length_replicate]
      omega
    · dsimp only
      omega
    · rw [word]
      omega
  · have within := fixedParams_within write fixed
    omega
  · have within := efiParams_within _ _ write efi
    omega
  · rcases last with rfl | rfl | rfl
    · rw [List.length_singleton]
      omega
    · rw [List.length_singleton]
      omega
    · dsimp only
      omega

/-- An aligned size is a 32-bit number. -/
theorem pageAlign_lt (size : Nat) : pageAlign size < 2 ^ 32 := by
  rw [pageAlign, pageSize]
  omega

/-- Aligning to pages makes a size no smaller, if it does not wrap around. -/
theorem le_pageAlign {size : Nat} (small : size + 0xFFF < 2 ^ 32) : size ≤ pageAlign size := by
  rw [pageAlign, pageSize]
  omega

/-- The last sizes are aligned to zero. -/
theorem pageAlign_of_wrap {size : Nat} (small : size < 2 ^ 32) (wraps : 2 ^ 32 ≤ size + 0xFFF) :
    pageAlign size = 0 := by
  rw [pageAlign, pageSize]
  omega

/-- A store that ends before the pages do keeps to them. -/
theorem inPages_of_le {base address : Address} {total length distance : Nat}
    (fits : distance + length ≤ total) (room : total < 2 ^ 32)
    (inside : InRegion (base + BitVec.ofNat 32 distance) length address) :
    InRegion base total address := by
  have nonempty : 0 < length := Nat.lt_of_le_of_lt (Nat.zero_le _) inside
  exact (within_iff nonempty (by omega) room).mpr fits address inside

end Params

/-! ## Opened kernels -/

/-- A setup part has at most 0x20000 bytes. -/
theorem setupSize_le (paramsBuf : List UInt8) : setupSize (kernelHeader paramsBuf) ≤ 0x20000 := by
  have sects : (kernelHeader paramsBuf).setupSects < 256 := UInt8.toNat_lt _
  rw [setupSize]
  omega

/-- As many bytes of the item are taken as are asked for, -/
theorem FlashItem.bytes_length {secure : Bool} (item : FlashItem secure) (position : Int)
    (len : Nat) :
    (item.bytes position len).length = len := by
  rw [FlashItem.bytes, List.length_map, List.length_range]

/-- and what is behind some of them starts that much later. -/
theorem FlashItem.bytes_drop {secure : Bool} (item : FlashItem secure) (position : Int)
    (len count : Nat) :
    (item.bytes position len).drop count = item.bytes (position + count) (len - count) := by
  apply List.ext_getElem
  · simp [FlashItem.bytes]
  · intro i inside inside'
    simp only [FlashItem.bytes, List.getElem_drop, List.getElem_map, List.getElem_range,
      BitVec.ofInt_add, BitVec.ofNat_add, BitVec.ofInt_natCast]
    congr 1
    ac_rfl

/-- The load gets as far as to fill the pages: the kernel opens, its first page is read and
has a header that is accepted, and both ranges of pages are given and protected. -/
structure Fillable (secure : Bool) (sbhLen : Nat) (room : LinuxRoom) (arg : CommandLine)
    (source : KernelSource secure) (kernel : OpenedKernel secure) : Prop where
  opens : source.kernel = .ok kernel.asset
  reads : (kernel.asset.read kernel.asset.opened linuxKernelParamsSize).returned =
    linuxKernelParamsSize
  filepos : kernel.filepos =
    (kernel.asset.read kernel.asset.opened linuxKernelParamsSize).filepos
  params : kernel.paramsBuf =
    (kernel.asset.read kernel.asset.opened linuxKernelParamsSize).stored
  accepted : (kernelHeader kernel.paramsBuf).accepted = true
  finds : ∃ memoryMap, room.memoryMap = some memoryMap ∧
    findRealModePages room (pageAlign (realSize arg + 512)) memoryMap = some kernel.realMode.1
  realPages : kernel.realMode.2 = pageAlign (realSize arg + 512)
  protPages : kernel.protMode = (BitVec.ofNat 32 grubLinuxBzimageAddr,
    pageAlign (protSize secure kernel.asset.size sbhLen (kernelHeader kernel.paramsBuf)))
  grants : room.allocatePages grubLinuxBzimageAddr (kernel.protMode.2 / pageSize) = true
  large : 0x400 ≤
    protSize secure kernel.asset.size sbhLen (kernelHeader kernel.paramsBuf)

/-- Both allocations succeed just when real mode pages are found in the map and the kernel's own
address is free. -/
theorem allocateKernelPages_ok_iff {room : LinuxRoom} {real prot : Nat} {realMode protMode : Pages} :
    allocateKernelPages room real prot = .ok (realMode, protMode) ↔
      (∃ memoryMap, room.memoryMap = some memoryMap ∧
        findRealModePages room (pageAlign (real + 512)) memoryMap = some realMode.1) ∧
      realMode.2 = pageAlign (real + 512) ∧
      protMode = (BitVec.ofNat 32 grubLinuxBzimageAddr, pageAlign prot) ∧
      room.allocatePages grubLinuxBzimageAddr (protMode.2 / pageSize) = true := by
  rw [allocateKernelPages]
  cases mapped : room.memoryMap with
  | none => simp
  | some memoryMap =>
      dsimp only
      cases found : findRealModePages room (pageAlign (real + 512)) memoryMap with
      | none => simp [found]
      | some realModeMem =>
          dsimp only
          split
          · next granted =>
              constructor
              · intro same
                obtain ⟨rfl, rfl⟩ := Prod.mk.inj (Except.ok.inj same)
                exact ⟨⟨memoryMap, rfl, found⟩, rfl, rfl, granted⟩
              · rintro ⟨⟨_, same, found'⟩, length, rfl, _⟩
                obtain rfl := Option.some.inj same
                have start := Option.some.inj (found.symm.trans found')
                rw [start, ← length]
          · next refused =>
              constructor
              · exact nofun
              · rintro ⟨_, _, rfl, granted⟩
                exact absurd granted refused

/-- Every opened kernel can be filled in, and the other way round. -/
theorem openKernel_ok_iff {secure : Bool} {sbhLen : Nat} {room : LinuxRoom} {arg : CommandLine}
    {source : KernelSource secure} {kernel : OpenedKernel secure} :
    openKernel secure sbhLen room arg source.kernel = .ok kernel ↔
      Fillable secure sbhLen room arg source kernel := by
  cases opens : source.kernel with
  | error failure =>
      constructor
      · exact nofun
      · intro fillable
        cases opens.symm.trans fillable.opens
  | ok asset =>
      rw [openKernel]
      have unopened : ∀ {failure : {errnum : GrubError // errnum ≠ .none}},
          (Fillable secure sbhLen room arg source kernel → kernel.asset = asset → False) →
            ((Except.error failure : Attempt (OpenedKernel secure)) = .ok kernel ↔
              Fillable secure sbhLen room arg source kernel) := by
        intro failure refuted
        constructor
        · exact nofun
        · intro fillable
          exact (refuted fillable (Except.ok.inj (fillable.opens.symm.trans opens))).elim
      split
      · next short =>
          refine unopened fun fillable same => short ?_
          rw [← same]
          exact fillable.reads
      · next reads =>
          split
          · next refused =>
              refine unopened fun fillable same => ?_
              subst same
              rw [← fillable.params, fillable.accepted] at refused
              cases refused
          · next accepted =>
              split
              · next failure failed =>
                  refine unopened fun fillable same => ?_
                  subst same
                  have allocates := allocateKernelPages_ok_iff.mpr
                    ⟨fillable.finds, fillable.realPages, fillable.protPages, fillable.grants⟩
                  rw [fillable.params] at allocates
                  cases failed.symm.trans allocates
              · next realMode protMode allocated =>
                  obtain ⟨finds, realPages, protPages, grants⟩ :=
                    allocateKernelPages_ok_iff.mp allocated
                  split
                  · next protected_ =>
                      constructor
                      · intro same
                        obtain rfl := Except.ok.inj same
                        rw [Bool.and_eq_true] at protected_
                        exact
                          { opens := opens
                            reads := not_not.mp reads
                            filepos := rfl
                            params := rfl
                            accepted := by simpa using accepted
                            finds, realPages, protPages, grants
                            large := of_decide_eq_true protected_.2 }
                      · intro fillable
                        obtain rfl := Except.ok.inj (fillable.opens.symm.trans opens)
                        have allocates := allocateKernelPages_ok_iff.mpr
                          ⟨fillable.finds, fillable.realPages, fillable.protPages,
                            fillable.grants⟩
                        rw [fillable.params] at allocates
                        obtain ⟨rfl, rfl⟩ :=
                          Prod.mk.inj (Except.ok.inj (allocated.symm.trans allocates))
                        rw [← fillable.filepos, ← fillable.params]
                  · next refused =>
                      refine unopened fun fillable same => refused ?_
                      subst same
                      rw [Bool.and_eq_true, ← fillable.params]
                      refine ⟨?_, decide_eq_true fillable.large⟩
                      rw [intelClnImrSetup, realSize]
                      exact decide_eq_true (by omega)

/-! ## The stores -/

/-- Stores that keep to the pages they are made to. -/
def StoresWithin (pages : Option Pages) (stores : List (Address × List UInt8)) : Prop :=
  ∀ write ∈ stores, ∀ address, InRegion write.1 write.2.length address →
    ∃ given, pages = some given ∧ InRegion given.1 given.2 address

/-- No store leaves the pages. -/
theorem storesWithin_nil (pages : Option Pages) : StoresWithin pages [] :=
  fun _ stored => absurd stored List.not_mem_nil

/-- Stores stay within the pages if the first and the others do, -/
theorem storesWithin_cons_iff {pages : Option Pages} {write : Address × List UInt8}
    {stores : List (Address × List UInt8)} :
    StoresWithin pages (write :: stores) ↔
      StoresWithin pages [write] ∧ StoresWithin pages stores := by
  rw [StoresWithin, List.forall_mem_cons, StoresWithin, List.forall_mem_singleton, StoresWithin]

/-- and one does if its region lies in them. -/
theorem storesWithin_singleton_iff {pages : Pages} {start : Address} {bytes : List UInt8} :
    StoresWithin (some pages) [(start, bytes)] ↔
      ∀ address, InRegion start bytes.length address → InRegion pages.1 pages.2 address := by
  constructor
  · intro within address inside
    obtain ⟨_, same, given⟩ := within _ List.mem_cons_self address inside
    obtain rfl := Option.some.inj same
    exact given
  · intro within write stored address inside
    obtain rfl := List.mem_singleton.mp stored
    exact ⟨pages, rfl, within address inside⟩

/-- A single store keeps to the pages when it is empty or ends before they do. -/
theorem storesWithin_offset_iff {pages : Pages} {distance : Nat} {bytes : List UInt8}
    (small : distance < 2 ^ 32) (room : pages.2 < 2 ^ 32) :
    StoresWithin (some pages) [(pages.1 + BitVec.ofNat 32 distance, bytes)] ↔
      bytes = [] ∨ distance + bytes.length ≤ pages.2 := by
  rw [storesWithin_singleton_iff]
  rcases Nat.eq_zero_or_pos bytes.length with empty | nonempty
  · rw [empty]
    exact ⟨fun _ => .inl (List.eq_nil_of_length_eq_zero empty),
      fun _ _ inside => absurd inside (Nat.not_lt_zero _)⟩
  · rw [within_iff nonempty small room]
    exact ⟨.inr, fun fits => fits.resolve_left (List.ne_nil_of_length_pos nonempty)⟩

/-- Memory has these bytes from an address on. -/
def HoldsBytes (memory : Memory) (start : Address) (bytes : List UInt8) : Prop :=
  ∀ i (inside : i < bytes.length), memory (start + BitVec.ofNat 32 i) = bytes.get ⟨i, inside⟩

/-- Memory holds the bytes that were stored. -/
theorem holdsBytes_store {memory : Memory} {start : Address} {bytes : List UInt8}
    (small : bytes.length < 2 ^ 32) : HoldsBytes (store memory start bytes) start bytes :=
  fun _ inside => store_add inside (Nat.lt_trans inside small)

section Fill

variable {rom : SecureRom} {secure spi : Bool} {sbh : List UInt8} {sbhLen : Nat}
  {uart : Option Address} {systemTable : Nat} {arg : CommandLine} {memory : Memory}
  {room : LinuxRoom} {source : KernelSource secure} {kernel : OpenedKernel secure}

/-- The memory with the parameters and the kernel in it. -/
def kernelMemory (secure spi : Bool) (sbh : List UInt8) (sbhLen : Nat) (uart : Option Address)
    (systemTable : Nat) (arg : CommandLine) (memory : Memory) (kernel : OpenedKernel secure) : Memory :=
  storeAll memory
    (kernel.realStores spi sbhLen systemTable arg (clnDetectEarlyUart uart arg.1).1 ++
      kernel.protStores sbh sbhLen)

/-- The kernel is read in full and nothing has failed, nor does the ROM reject it. -/
structure Boots (rom : SecureRom) (secure spi : Bool) (sbh : List UInt8) (sbhLen : Nat)
    (uart : Option Address) (systemTable : Nat) (arg : CommandLine) (memory : Memory)
    (kernel : OpenedKernel secure) : Prop where
  consoled : (clnDetectEarlyUart uart arg.1).2 = .none
  silent : (kernel.transfer sbhLen).errnum = .none
  returned : (kernel.transfer sbhLen).returned = kernel.len sbhLen
  validates : secure = true →
    rom.validate (kernelMemory secure spi sbh sbhLen uart systemTable arg memory kernel)
      kernel.protMode.1 = true

/-- What filling the pages leaves, whatever comes of it. -/
structure Filled (secure spi : Bool) (sbh : List UInt8) (sbhLen : Nat) (uart : Option Address)
    (systemTable : Nat) (arg : CommandLine) (memory : Memory) (kernel : OpenedKernel secure)
    (load : LinuxLoad) : Prop where
  memory : load.memory = kernelMemory secure spi sbh sbhLen uart systemTable arg memory kernel
  realMode : load.realMode = some kernel.realMode
  protMode : load.protMode = some kernel.protMode
  realStores : load.realStores = kernel.realStores spi sbhLen systemTable arg
    (clnDetectEarlyUart uart arg.1).1
  protStores : load.protStores = kernel.protStores sbh sbhLen
  image : load.image = some (kernel.start sbhLen,
    (kernel.transfer sbhLen).stored.length)
  entry : load.entry = some (code32Start secure sbhLen kernel.paramsBuf kernel.realMode.1)

/-- The load behind the transfer is filled. -/
theorem filledLoad_filled :
    Filled secure spi sbh sbhLen uart systemTable arg memory kernel
      (filledLoad secure spi sbh sbhLen uart systemTable arg memory kernel) where
  memory := by rw [filledLoad, kernelMemory]
  realMode := by rw [filledLoad]
  protMode := by rw [filledLoad]
  realStores := by rw [filledLoad]
  protStores := by rw [filledLoad]
  image := by rw [filledLoad]
  entry := by rw [filledLoad]

/-- It still is after a failure, -/
theorem Filled.fail {load : LinuxLoad} (errnum : GrubError)
    (filled : Filled secure spi sbh sbhLen uart systemTable arg memory kernel load) :
    Filled secure spi sbh sbhLen uart systemTable arg memory kernel (load.fail errnum) :=
  ⟨filled.1, filled.2, filled.3, filled.4, filled.5, filled.6, filled.7⟩

/-- and after the check of the kernel, -/
theorem Filled.validate {load : LinuxLoad} (address : Address)
    (filled : Filled secure spi sbh sbhLen uart systemTable arg memory kernel load) :
    Filled secure spi sbh sbhLen uart systemTable arg memory kernel (load.validate address) :=
  ⟨filled.1, filled.2, filled.3, filled.4, filled.5, filled.6, filled.7⟩

/-- so it is at the end. -/
theorem fillKernel_filled :
    Filled secure spi sbh sbhLen uart systemTable arg memory kernel
      (fillKernel rom secure spi sbh sbhLen uart systemTable arg memory kernel) := by
  have filled := @filledLoad_filled secure spi sbh sbhLen uart systemTable arg memory kernel
  rw [fillKernel]
  split
  · exact filled.fail _
  · split
    · split
      · exact filled.validate _
      · exact (filled.validate _).fail _
    · exact filled

/-- The load has no error just when the console is detected and the transfer succeeds, -/
theorem filledLoad_errnum_iff :
    (filledLoad secure spi sbh sbhLen uart systemTable arg memory kernel).errnum = .none ↔
      (clnDetectEarlyUart uart arg.1).2 = .none ∧ (kernel.transfer sbhLen).errnum = .none :=
  after_eq_none

/-- and at the end just when the kernel boots. -/
theorem fillKernel_errnum_iff :
    (fillKernel rom secure spi sbh sbhLen uart systemTable arg memory kernel).errnum = .none ↔
      Boots rom secure spi sbh sbhLen uart systemTable arg memory kernel := by
  have filled := @filledLoad_filled secure spi sbh sbhLen uart systemTable arg memory kernel
  have quiet := @filledLoad_errnum_iff secure spi sbh sbhLen uart systemTable arg memory kernel
  rw [fillKernel]
  revert filled quiet
  generalize filledLoad secure spi sbh sbhLen uart systemTable arg memory kernel = load
  intro filled quiet
  rw [filled.memory]
  split
  · next short =>
      exact ⟨nofun, fun boots => absurd boots.returned short⟩
  · next whole =>
      have returned := not_not.mp whole
      split
      · next isSecure =>
          split
          · next validates =>
              exact ⟨fun none => ⟨(quiet.mp none).1, (quiet.mp none).2, returned, fun _ => validates⟩,
                fun boots => quiet.mpr ⟨boots.consoled, boots.silent⟩⟩
          · next rejects =>
              exact ⟨nofun, fun boots => absurd (boots.validates isSecure) rejects⟩
      · next plain =>
          exact ⟨fun none => ⟨(quiet.mp none).1, (quiet.mp none).2, returned,
            fun isSecure => absurd isSecure plain⟩,
              fun boots => quiet.mpr ⟨boots.consoled, boots.silent⟩⟩

/-- The kernel type is set just when there is no error. -/
theorem kernelType_iff {load : LinuxLoad} : load.kernelType = .bigLinux ↔ load.errnum = .none := by
  rw [LinuxLoad.kernelType]
  split
  · next none => exact ⟨fun _ => none, fun _ => rfl⟩
  · next failed => exact ⟨nofun, fun none => absurd none failed⟩

/-- The parameters keep to their pages. -/
theorem realStores_within (fillable : Fillable secure sbhLen room arg source kernel)
    {cmdline : List UInt8} (short : cmdline.length ≤ arg.1.length) :
    StoresWithin (some kernel.realMode)
      (kernel.realStores spi sbhLen systemTable arg cmdline) := by
  intro write stored address inside
  rw [OpenedKernel.realStores] at stored
  obtain ⟨write, member, rfl⟩ := List.mem_map.mp stored
  have limit : arg.1.length < 0x6000 := arg.2
  have within := paramStores_within short write member
  have pages : realSize arg + 512 ≤ pageAlign (realSize arg + 512) :=
    le_pageAlign (by rw [realSize]; omega)
  refine ⟨_, rfl, ?_⟩
  rw [fillable.realPages]
  exact inPages_of_le (Nat.le_trans within (by omega)) (pageAlign_lt _) inside

end Fill

/-- A kernel of some setup sectors with a header that is accepted. -/
def kernelImage (setupSects : UInt8) (total : Nat) : List UInt8 :=
  List.replicate 0x1F1 0 ++ [setupSects] ++ List.replicate 12 0 ++ [0x55, 0xAA, 0xEB, 0x66] ++
    ascii "HdrS" ++ [0x03, 0x02] ++ List.replicate 9 0 ++ [0x01] ++
    List.replicate (total - 0x212) 0

/-- A machine with memory at 1 MiB. -/
def smallLinuxRoom : LinuxRoom where
  memoryMap := some [⟨.conventionalMemory, 0x100000, 0x100⟩]
  allocates _ _ := true

end GrubLegacy.Loader
