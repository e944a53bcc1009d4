import GrubLegacy.Base.Runs

/-!
# The E820 map made from the EFI memory map

`e820_map_from_efi_map` and `add_memory_region` of `efimm.c`. The switch over the type
of a descriptor makes calls of `add_memory_region`, which appends a region to the map or
lets the last entry grow. Neither changes which addresses have which type.
-/

namespace GrubLegacy.Efi

open Base

/-- `enum grub_efi_memory_type`, and the values of the field that are none of it. -/
inductive MemoryType where
  | reservedMemoryType
  | loaderCode
  | loaderData
  | bootServicesCode
  | bootServicesData
  | runtimeServicesCode
  | runtimeServicesData
  | conventionalMemory
  | unusableMemory
  | acpiReclaimMemory
  | acpiMemoryNvs
  | memoryMappedIo
  | memoryMappedIoPortSpace
  | palCode
  | other (value : Nat)
deriving DecidableEq, Repr

/-- `grub_efi_memory_descriptor_t`, what is read of it. -/
structure MemoryDescriptor where
  type : MemoryType
  physicalStart : Nat
  numPages : Nat
deriving DecidableEq, Repr

/-- `E820_RAM` and the other types of the map. -/
inductive E820Type where
  | ram
  | reserved
  | acpi
  | nvs
deriving DecidableEq, Repr

/-- `struct e820_entry` -/
structure E820Entry where
  addr : Nat
  size : Nat
  type : E820Type
deriving DecidableEq, Repr

/-- `E820_MAX` -/
def e820Max : Nat := 128

/-- The map, its last entry first, and the static variables of `add_memory_region`. -/
structure E820State where
  e820Map : List E820Entry
  estart : Nat
  esize : Nat
  etype : Option E820Type
  merge : Nat
deriving DecidableEq, Repr

/-- The branch that lets the last entry grow is taken. -/
def merges (last : E820Entry) (region : E820Entry) : Bool :=
  (last.addr + last.size) % 2 ^ 64 = region.addr && last.type = region.type

/-- `add_memory_region` from where no entry grows. -/
def appendRegion (state : E820State) (region : E820Entry) : E820State :=
  if state.e820Map.length < e820Max then
    { state with
      e820Map := region :: state.e820Map
      merge := 0 }
  else if state.etype ≠ some region.type ∨ (state.estart + state.esize) % 2 ^ 64 ≠ region.addr then
    { state with
      merge := 0
      estart := region.addr
      esize := region.size % 2 ^ 32
      etype := some region.type }
  else
    { state with
      estart := (state.estart + state.esize) % 2 ^ 64
      esize := (state.esize + region.size) % 2 ^ 32
      merge := state.merge + 1 }

/-- `add_memory_region` -/
def addMemoryRegion (state : E820State) (region : E820Entry) : E820State :=
  match state.e820Map with
  | [] => appendRegion state region
  | last :: before =>
    if merges last region then
      let grown := { last with size := (last.size + region.size) % 2 ^ 64 }
      { e820Map := grown :: before
        estart := grown.addr
        esize := grown.size % 2 ^ 32
        etype := some grown.type
        merge := state.merge + 1 }
    else appendRegion state region

/-- The size of a descriptor, `num_pages << 12`. -/
def MemoryDescriptor.size (desc : MemoryDescriptor) : Nat := (desc.numPages <<< 12) % 2 ^ 64

/-- The calls for a descriptor of memory that is free for the kernel. -/
def ramRegions (desc : MemoryDescriptor) : List E820Entry :=
  let start := desc.physicalStart
  let size := desc.size
  let end_ := (start + size) % 2 ^ 64
  if start < 0x100000 ∧ end_ > 0xA0000 then
    (if start < 0xA0000 then [{ addr := start, size := 0xA0000 - start, type := .ram }] else []) ++
      if end_ ≤ 0x100000 then []
      else [{ addr := 0x100000, size := end_ - 0x100000, type := .ram }]
  else [{ addr := start, size, type := .ram }]

/-- The calls of `add_memory_region` the switch makes for a descriptor. -/
def regions (desc : MemoryDescriptor) : List E820Entry :=
  match desc.type with
  | .acpiReclaimMemory => [{ addr := desc.physicalStart, size := desc.size, type := .acpi }]
  | .runtimeServicesCode | .runtimeServicesData | .reservedMemoryType | .memoryMappedIo
  | .memoryMappedIoPortSpace | .unusableMemory | .palCode =>
    [{ addr := desc.physicalStart, size := desc.size, type := .reserved }]
  | .loaderCode | .loaderData | .bootServicesCode | .bootServicesData | .conventionalMemory =>
    ramRegions desc
  | .acpiMemoryNvs => [{ addr := desc.physicalStart, size := desc.size, type := .nvs }]
  | .other _ => []

/-- `e820_map_from_efi_map`, with the static variables as the calls before left them. -/
def e820MapFromEfiMap (statics : E820State) (memoryMap : List MemoryDescriptor) : E820State :=
  runOps addMemoryRegion { statics with e820Map := [] } (memoryMap.flatMap regions)

/-! ## Addresses -/

def E820Entry.covers (entry : E820Entry) (address : Nat) : Prop :=
  entry.addr ≤ address ∧ address < entry.addr + entry.size

/-- The entries say that an address has a type. -/
def DescribedAs (entries : List E820Entry) (address : Nat) (type : E820Type) : Prop :=
  ∃ entry ∈ entries, entry.covers address ∧ entry.type = type

/-- The address lies in the descriptor. -/
def MemoryDescriptor.covers (desc : MemoryDescriptor) (address : Nat) : Prop :=
  desc.physicalStart ≤ address ∧ address < desc.physicalStart + desc.numPages * 4096

/-- The operating system may use memory of this type as RAM. -/
def MemoryType.usable (type : MemoryType) : Bool :=
  type = .loaderCode || type = .loaderData || type = .bootServicesCode ||
    type = .bootServicesData || type = .conventionalMemory

/-- The end of the descriptor is an address of 64 bits. -/
def MemoryDescriptor.NonWrapping (desc : MemoryDescriptor) : Prop :=
  desc.physicalStart + desc.numPages * 4096 < 2 ^ 64

/-- No address lies in both. -/
def MemoryDescriptor.Disjoint (left right : MemoryDescriptor) : Prop :=
  ∀ address, left.covers address → ¬ right.covers address

/-- The map has room for the region, or its last entry grows. -/
def HasRoom (state : E820State) (region : E820Entry) : Prop :=
  state.e820Map.length < e820Max ∨ ∃ last ∈ state.e820Map.head?, merges last region = true

/-- The conversion fits: no region is left out. -/
def Fits (statics : E820State) (memoryMap : List MemoryDescriptor) : Prop :=
  Along addMemoryRegion HasRoom { statics with e820Map := [] } (memoryMap.flatMap regions)

/-! ## Adding regions -/

/-- The end of the entry is an address of 64 bits. -/
def E820Entry.NonWrapping (entry : E820Entry) : Prop := entry.addr + entry.size < 2 ^ 64

section Adding

variable {state : E820State} {region last : E820Entry} {address : Nat} {type : E820Type}

/-- A map describes an address in its first region or behind. -/
theorem describedAs_cons {entries : List E820Entry} :
    DescribedAs (region :: entries) address type ↔
      region.covers address ∧ region.type = type ∨ DescribedAs entries address type := by
  simp only [DescribedAs, List.mem_cons, or_and_right, exists_or, exists_eq_left]

/-- An entry that grows covers what it covered and the region. -/
theorem merges_covers (grows : merges last region = true) (low : last.NonWrapping)
    (high : region.NonWrapping) :
    E820Entry.covers { last with size := (last.size + region.size) % 2 ^ 64 } address ↔
      last.covers address ∨ region.covers address := by
  obtain ⟨joins, _⟩ := Bool.and_eq_true_iff.mp grows
  have adjacent := of_decide_eq_true joins
  rw [E820Entry.NonWrapping] at low high
  rw [E820Entry.covers, E820Entry.covers, E820Entry.covers]
  dsimp only
  omega

/-- With room, a call adds the addresses of the region with its type. -/
theorem addMemoryRegion_room (room : HasRoom state region) (high : region.NonWrapping)
    (low : ∀ entry ∈ state.e820Map, entry.NonWrapping) :
    (∀ entry ∈ (addMemoryRegion state region).e820Map, entry.NonWrapping) ∧
      ∀ address type, DescribedAs (addMemoryRegion state region).e820Map address type ↔
        DescribedAs state.e820Map address type ∨ region.covers address ∧ region.type = type := by
  have appends : state.e820Map.length < e820Max →
      (appendRegion state region).e820Map = region :: state.e820Map := by
    intro free
    rw [appendRegion, if_pos free]
  have added : (∀ entry ∈ region :: state.e820Map, entry.NonWrapping) ∧
      ∀ address type, DescribedAs (region :: state.e820Map) address type ↔
        DescribedAs state.e820Map address type ∨ region.covers address ∧ region.type = type := by
    refine ⟨List.forall_mem_cons.mpr ⟨high, low⟩, fun address type => ?_⟩
    rw [describedAs_cons, or_comm]
  rw [addMemoryRegion]
  cases isMap : state.e820Map with
  | nil =>
      dsimp only
      rw [appends (by rw [isMap]; decide), ← isMap]
      exact added
  | cons last before =>
      dsimp only
      cases grows : merges last region with
      | true =>
          rw [if_pos rfl]
          dsimp only
          rw [isMap] at low
          obtain ⟨lastLow, beforeLow⟩ := List.forall_mem_cons.mp low
          have covers := fun address => @merges_covers region last address grows lastLow high
          obtain ⟨joins, sameType⟩ := Bool.and_eq_true_iff.mp grows
          have adjacent := of_decide_eq_true joins
          have same : last.type = region.type := of_decide_eq_true sameType
          refine ⟨List.forall_mem_cons.mpr ⟨?_, beforeLow⟩, fun address type => ?_⟩
          · rw [E820Entry.NonWrapping] at lastLow high ⊢
            dsimp only
            omega
          · rw [describedAs_cons, describedAs_cons, covers, ← same]
            dsimp only
            rw [or_and_right, or_right_comm]
      | false =>
          rw [if_neg Bool.false_ne_true, appends ?_, ← isMap]
          · exact added
          · rcases room with free | ⟨entry, isLast, grows'⟩
            · exact free
            · rw [isMap, List.head?_cons, Option.mem_some_iff] at isLast
              rw [← isLast, grows] at grows'
              cases grows'

/-- A run with room adds the addresses of all its regions. -/
theorem runOps_room (added : List E820Entry) (room : Along addMemoryRegion HasRoom state added)
    (high : ∀ region ∈ added, region.NonWrapping)
    (low : ∀ entry ∈ state.e820Map, entry.NonWrapping) :
    ∀ address type, DescribedAs (runOps addMemoryRegion state added).e820Map address type ↔
      DescribedAs state.e820Map address type ∨ DescribedAs added address type := by
  induction added generalizing state with
  | nil => simp [DescribedAs]
  | cons region rest ih =>
      obtain ⟨here, later⟩ := along_cons.mp room
      obtain ⟨regionHigh, restHigh⟩ := List.forall_mem_cons.mp high
      obtain ⟨stillLow, adds⟩ := addMemoryRegion_room here regionHigh low
      intro address type
      rw [runOps_cons, ih later restHigh stillLow, adds, describedAs_cons, or_assoc]

end Adding

/-! ## Regions of descriptors -/

section Regions

variable {desc : MemoryDescriptor} {address : Nat} {type : E820Type}

/-- The size of a descriptor is that of its pages. -/
theorem size_eq (nonWrapping : desc.NonWrapping) : desc.size = desc.numPages * 4096 := by
  rw [MemoryDescriptor.NonWrapping] at nonWrapping
  rw [MemoryDescriptor.size, Nat.shiftLeft_eq]
  omega

/-- Regions of one type describe what they cover. -/
theorem describedAs_uniform {entries : List E820Entry} {common : E820Type}
    (uniform : ∀ entry ∈ entries, entry.type = common) :
    DescribedAs entries address type ↔
      type = common ∧ ∃ entry ∈ entries, entry.covers address := by
  constructor
  · rintro ⟨entry, isIn, covers, rfl⟩
    exact ⟨uniform entry isIn, entry, isIn, covers⟩
  · rintro ⟨rfl, entry, isIn, covers⟩
    exact ⟨entry, isIn, covers, uniform entry isIn⟩

/-- Regions of memory are of the one type. -/
theorem ramRegions_type : ∀ region ∈ ramRegions desc, region.type = .ram := by
  intro region isIn
  rw [ramRegions] at isIn
  split_ifs at isIn <;> simp at isIn <;> grind

/-- Free memory is cut at the legacy hole. -/
theorem ramRegions_covers (nonWrapping : desc.NonWrapping) :
    (∀ region ∈ ramRegions desc, region.NonWrapping) ∧
      ∀ address, (∃ region ∈ ramRegions desc, region.covers address) ↔
        desc.covers address ∧ ¬ (0xA0000 ≤ address ∧ address ≤ 0xFFFFF) := by
  have size := size_eq nonWrapping
  rw [MemoryDescriptor.NonWrapping] at nonWrapping
  have end_ : (desc.physicalStart + desc.size) % 2 ^ 64 =
      desc.physicalStart + desc.numPages * 4096 := by
    rw [size]
    exact Nat.mod_eq_of_lt nonWrapping
  rw [ramRegions, end_, size]
  constructor
  · split_ifs <;> simp [E820Entry.NonWrapping] <;> omega
  · intro address
    rw [MemoryDescriptor.covers]
    split_ifs <;> simp [E820Entry.covers] <;> omega

/-- The type of the map for memory of a type. -/
def MemoryType.described : MemoryType → Option E820Type
  | .loaderCode | .loaderData | .bootServicesCode | .bootServicesData | .conventionalMemory =>
    some .ram
  | .acpiReclaimMemory => some .acpi
  | .acpiMemoryNvs => some .nvs
  | .other _ => none
  | _ => some .reserved

attribute [local simp] MemoryType.described

/-- The types described as memory are the usable ones, -/
theorem described_ram_iff {type : MemoryType} :
    type.described = some .ram ↔ type.usable = true := by
  cases type <;> simp [MemoryType.described, MemoryType.usable]

/-- as ACPI memory the one, -/
theorem described_acpi_iff {type : MemoryType} :
    type.described = some .acpi ↔ type = .acpiReclaimMemory := by
  cases type <;> simp [MemoryType.described]

/-- and as NVS the other. -/
theorem described_nvs_iff {type : MemoryType} :
    type.described = some .nvs ↔ type = .acpiMemoryNvs := by
  cases type <;> simp [MemoryType.described]

/-- A descriptor describes its addresses with the type for its memory, and none in the
legacy hole as RAM. -/
theorem regions_describe (nonWrapping : desc.NonWrapping) :
    (∀ region ∈ regions desc, region.NonWrapping) ∧
      ∀ address type, DescribedAs (regions desc) address type ↔
        desc.type.described = some type ∧ desc.covers address ∧
          (type = .ram → ¬ (0xA0000 ≤ address ∧ address ≤ 0xFFFFF)) := by
  have single : ∀ common, common ≠ .ram →
      (∀ region ∈ [{ addr := desc.physicalStart, size := desc.size, type := common : E820Entry }],
        region.NonWrapping) ∧
      ∀ address type, DescribedAs [{ addr := desc.physicalStart, size := desc.size, type := common }]
        address type ↔ some common = some type ∧ desc.covers address ∧
          (type = .ram → ¬ (0xA0000 ≤ address ∧ address ≤ 0xFFFFF)) := by
    intro common notRam
    rw [size_eq nonWrapping]
    refine ⟨fun region isIn => ?_, fun address type => ?_⟩
    · obtain rfl := List.mem_singleton.mp isIn
      exact nonWrapping
    · rw [describedAs_uniform (fun entry isIn => by rw [List.mem_singleton.mp isIn])]
      constructor
      · rintro ⟨rfl, entry, isIn, covers⟩
        obtain rfl := List.mem_singleton.mp isIn
        exact ⟨rfl, covers, fun isRam => absurd isRam notRam⟩
      · rintro ⟨same, covers, _⟩
        exact ⟨(Option.some.inj same).symm, _, List.mem_singleton_self _, covers⟩
  have ram : (∀ region ∈ ramRegions desc, region.NonWrapping) ∧
      ∀ address type, DescribedAs (ramRegions desc) address type ↔ some .ram = some type ∧
        desc.covers address ∧ (type = .ram → ¬ (0xA0000 ≤ address ∧ address ≤ 0xFFFFF)) := by
    obtain ⟨wrapping, covers⟩ := ramRegions_covers nonWrapping
    refine ⟨wrapping, fun address type => ?_⟩
    rw [describedAs_uniform ramRegions_type, covers]
    constructor
    · rintro ⟨rfl, here⟩
      exact ⟨rfl, here.1, fun _ => here.2⟩
    · rintro ⟨same, inDesc, outside⟩
      obtain rfl := Option.some.inj same
      exact ⟨rfl, inDesc, outside rfl⟩
  rw [regions]
  cases desc.type with
  | reservedMemoryType => exact single _ (by decide)
  | loaderCode => exact ram
  | loaderData => exact ram
  | bootServicesCode => exact ram
  | bootServicesData => exact ram
  | runtimeServicesCode => exact single _ (by decide)
  | runtimeServicesData => exact single _ (by decide)
  | conventionalMemory => exact ram
  | unusableMemory => exact single _ (by decide)
  | acpiReclaimMemory => exact single _ (by decide)
  | acpiMemoryNvs => exact single _ (by decide)
  | memoryMappedIo => exact single _ (by decide)
  | memoryMappedIoPortSpace => exact single _ (by decide)
  | palCode => exact single _ (by decide)
  | other value => simp [MemoryType.described, DescribedAs]

end Regions

/-! ## The whole conversion -/

section Conversion

variable {statics : E820State} {memoryMap : List MemoryDescriptor}

/-- The map describes what the descriptors say. -/
theorem convert_describes (nonWrapping : ∀ desc ∈ memoryMap, desc.NonWrapping)
    (fits : Fits statics memoryMap) (address : Nat) (type : E820Type) :
    DescribedAs (e820MapFromEfiMap statics memoryMap).e820Map address type ↔
      ∃ desc ∈ memoryMap, desc.type.described = some type ∧ desc.covers address ∧
        (type = .ram → ¬ (0xA0000 ≤ address ∧ address ≤ 0xFFFFF)) := by
  have high : ∀ region ∈ memoryMap.flatMap regions, region.NonWrapping := by
    intro region isIn
    obtain ⟨desc, isDesc, isRegion⟩ := List.mem_flatMap.mp isIn
    exact (regions_describe (nonWrapping desc isDesc)).1 region isRegion
  rw [e820MapFromEfiMap, runOps_room _ fits high (by simp)]
  constructor
  · rintro (⟨entry, isIn, _⟩ | ⟨region, isIn, covers⟩)
    · cases isIn
    · obtain ⟨desc, isDesc, isRegion⟩ := List.mem_flatMap.mp isIn
      exact ⟨desc, isDesc,
        ((regions_describe (nonWrapping desc isDesc)).2 address type).mp ⟨region, isRegion, covers⟩⟩
  · rintro ⟨desc, isDesc, described⟩
    obtain ⟨region, isRegion, covers⟩ :=
      ((regions_describe (nonWrapping desc isDesc)).2 address type).mpr described
    exact Or.inr ⟨region, List.mem_flatMap.mpr ⟨desc, isDesc, isRegion⟩, covers⟩

/-- The map has the usable addresses outside of the legacy hole as RAM and those of ACPI
memory with its types, and gives no address two types. -/
theorem e820MapFromEfiMap_faithful (nonWrapping : ∀ desc ∈ memoryMap, desc.NonWrapping)
    (disjoint : memoryMap.Pairwise MemoryDescriptor.Disjoint) (fits : Fits statics memoryMap) :
    let e820Map := (e820MapFromEfiMap statics memoryMap).e820Map
    (∀ address, DescribedAs e820Map address .ram ↔
      (∃ desc ∈ memoryMap, desc.type.usable = true ∧ desc.covers address) ∧
        ¬ (0xA0000 ≤ address ∧ address ≤ 0xFFFFF)) ∧
    (∀ address, DescribedAs e820Map address .acpi ↔
      ∃ desc ∈ memoryMap, desc.type = .acpiReclaimMemory ∧ desc.covers address) ∧
    (∀ address, DescribedAs e820Map address .nvs ↔
      ∃ desc ∈ memoryMap, desc.type = .acpiMemoryNvs ∧ desc.covers address) ∧
    ∀ left ∈ e820Map, ∀ right ∈ e820Map, ∀ address,
      left.covers address → right.covers address → left.type = right.type := by
  intro e820Map
  have describes := convert_describes nonWrapping fits
  refine ⟨fun address => ?_, fun address => ?_, fun address => ?_, ?_⟩
  · rw [describes]
    constructor
    · rintro ⟨desc, isDesc, type, covers, outside⟩
      exact ⟨⟨desc, isDesc, described_ram_iff.mp type, covers⟩, outside rfl⟩
    · rintro ⟨⟨desc, isDesc, usable, covers⟩, outside⟩
      exact ⟨desc, isDesc, described_ram_iff.mpr usable, covers, fun _ => outside⟩
  · rw [describes]
    simp [described_acpi_iff]
  · rw [describes]
    simp [described_nvs_iff]
  · intro left leftIn right rightIn address inLeft inRight
    obtain ⟨desc, isDesc, type, covers, _⟩ :=
      (describes address left.type).mp ⟨left, leftIn, inLeft, rfl⟩
    obtain ⟨desc', isDesc', type', covers', _⟩ :=
      (describes address right.type).mp ⟨right, rightIn, inRight, rfl⟩
    have same : desc = desc' := by
      by_contra other
      have symmetric : Std.Symm MemoryDescriptor.Disjoint :=
        ⟨fun _ _ apart address inRight inLeft => apart address inLeft inRight⟩
      exact disjoint.forall isDesc isDesc' other address covers covers'
    rw [same, type'] at type
    exact (Option.some.inj type).symm

end Conversion

/-- Two megabytes of free memory over the legacy hole, and ACPI tables behind it. -/
def smallMap : List MemoryDescriptor :=
  [{ type := .conventionalMemory, physicalStart := 0, numPages := 512 },
    { type := .acpiReclaimMemory, physicalStart := 0x200000, numPages := 4 },
    { type := .acpiMemoryNvs, physicalStart := 0x204000, numPages := 1 }]

def freshStatics : E820State :=
  { e820Map := [], estart := 0, esize := 0, etype := none, merge := 0 }

/-- A map around the hole is described faithfully. -/
theorem e820MapFromEfiMap_faithful_small :
    (∀ address, DescribedAs (e820MapFromEfiMap freshStatics smallMap).e820Map address .ram ↔
      (∃ desc ∈ smallMap, desc.type.usable = true ∧ desc.covers address) ∧
        ¬ (0xA0000 ≤ address ∧ address ≤ 0xFFFFF)) ∧
    ∀ address, DescribedAs (e820MapFromEfiMap freshStatics smallMap).e820Map address .acpi ↔
      ∃ desc ∈ smallMap, desc.type = .acpiReclaimMemory ∧ desc.covers address := by
  have nonWrapping : ∀ desc ∈ smallMap, desc.NonWrapping := by
    simp [smallMap, MemoryDescriptor.NonWrapping]
  have disjoint : smallMap.Pairwise MemoryDescriptor.Disjoint := by
    simp only [smallMap, List.pairwise_cons, List.mem_cons, List.not_mem_nil, or_false,
      MemoryDescriptor.Disjoint, MemoryDescriptor.covers]
    grind
  have fits : Fits freshStatics smallMap :=
    ⟨Or.inl (by decide), Or.inl (by decide), Or.inl (by decide), Or.inl (by decide), trivial⟩
  have faithful := e820MapFromEfiMap_faithful nonWrapping disjoint fits
  exact ⟨faithful.1, faithful.2.1⟩

end GrubLegacy.Efi
