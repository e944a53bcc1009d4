import GrubLegacy.Base.MachineInt
import GrubLegacy.Clanton.LoadConfig
import GrubLegacy.Efi.E820

/-!
# Loading the initrd

`grub_load_initrd` of `linux.c`: where the initrd and its security header are put,
and which part of it the boot ROM has authenticated when it is announced to the
kernel.
-/

namespace GrubLegacy.Clanton

open Base Stage2 Efi

/-- How opening an asset ends; a failure leaves an error. -/
abbrev Opening := Except {errnum : GrubError // errnum ≠ .none} OpenAsset

/-- The assets: the security header and the initrd. -/
structure InitrdSource where
  header : Opening
  image : Opening

/-- The memory there is for an initrd: the limit from the kernel header, the one of
the command line, where the kernel lies, the memory map if it can be had, and
whether `grub_efi_allocate_pages` gets that many pages at an address. -/
structure InitrdRoom where
  initrdAddrMax : Nat
  linuxMemSize : Nat
  protModeMem : Nat
  protModePages : Nat
  memoryMap : Option (List MemoryDescriptor)
  allocates : (addr pages : Nat) → Bool

/-- What `grub_load_initrd` leaves: the pages it allocated, its stores to them in
order, the memory and the address `IAROM_validate_module` was called with, and
`ramdisk_image` and `ramdisk_size` if it sets them. -/
structure InitrdLoad where
  errnum : GrubError
  memory : Memory
  allocated : Option (Address × Nat)
  stores : List (Address × List UInt8)
  validated : Option (Memory × Address)
  ramdisk : Option (Address × Nat)

def InitrdLoad.put (load : InitrdLoad) (start : Address) (bytes : List UInt8) : InitrdLoad :=
  { load with
    memory := store load.memory start bytes
    stores := load.stores ++ [(start, bytes)] }

/-- PAGE_SIZE -/
def pageSize : Nat := 0x1000

/-- `page_align` -/
def pageAlign (size : Nat) : Nat := (size + pageSize - 1) % 2 ^ 32 / pageSize * pageSize

/-- The highest address an initrd may reach to. -/
def InitrdRoom.addrMax (room : InitrdRoom) : Nat :=
  let addrMax :=
    if room.linuxMemSize ≠ 0 ∧ room.linuxMemSize < room.initrdAddrMax then room.linuxMemSize
    else room.initrdAddrMax
  addrMax / pageSize * pageSize

/-- The lowest one. -/
def InitrdRoom.addrMin (room : InitrdRoom) : Nat :=
  (room.protModeMem + (room.protModePages * 3) % 2 ^ 32 * pageSize) % 2 ^ 32

/-- One descriptor in the search for the highest address, for either `linux.c`: `address` is
what a `grub_addr_t` keeps of a number. -/
def tryDescriptor (address : Int → Nat) (addrMin : Nat) (room : InitrdRoom)
    (size initrdPages addr : Nat) (desc : MemoryDescriptor) : Nat :=
  if desc.type ≠ .conventionalMemory then addr
  else
    let below := (addrMin - desc.physicalStart) / pageSize
    let cut := desc.physicalStart < addrMin ∧ below < desc.numPages
    let physicalStart := if cut then addrMin else desc.physicalStart
    let numPages := if cut then desc.numPages - below else desc.numPages
    if addrMin ≤ physicalStart ∧ (physicalStart + size) % 2 ^ 64 ≤ room.addrMax ∧
        initrdPages ≤ numPages then
      let physicalEnd := (physicalStart + numPages * pageSize) % 2 ^ 64
      let physicalEnd := if room.addrMax < physicalEnd then room.addrMax else physicalEnd
      if physicalEnd ≤ 0x7fffffff ∧ addr < physicalEnd then address (physicalEnd - size)
      else addr
    else addr

/-- The address for an initrd, 0 if there is none, and the pages it gets there. -/
def findInitrdAddr (room : InitrdRoom) (size : Nat) (memoryMap : List MemoryDescriptor) : Nat :=
  memoryMap.foldl (tryDescriptor toUInt32 room.addrMin room (pageAlign size)
    (pageAlign size / pageSize)) 0

/-- The rest of `grub_load_initrd`, once the place of the initrd is known. -/
def readInitrd (rom : SecureRom) (secure : Bool) (image : OpenAsset) (sbhLen : Nat)
    (initrdMem : Address) (load : InitrdLoad) : InitrdLoad :=
  let load := load.put initrdMem (image.stored (toUInt32 image.size))
  if image.delivered (toUInt32 image.size) ≠ image.size then { load with errnum := .execFormat }
  else if secure then
    let sbh := initrdMem - BitVec.ofNat 32 sbhLen
    let load := { load with validated := some (load.memory, sbh) }
    if rom.validate load.memory sbh then
      { load with ramdisk := some (initrdMem, toUInt32 image.size) }
    else { load with errnum := .clnVerification }
  else { load with ramdisk := some (initrdMem, toUInt32 image.size) }

/-- `grub_load_initrd` from where the initrd is opened; `sbh` is `cln_sbh`. -/
def placeInitrd (rom : SecureRom) (secure : Bool) (room : InitrdRoom) (sbh : List UInt8)
    (sbhLen : Nat) (image : Opening) (load : InitrdLoad) : InitrdLoad :=
  match image with
  | .error errnum => { load with errnum }
  | .ok image =>
    let size := toUInt32 (if secure then image.size + pageSize else image.size)
    let initrdPages := pageAlign size / pageSize
    match room.memoryMap with
    | none => { load with errnum := .bootFailure }
    | some memoryMap =>
      let addr := findInitrdAddr room size memoryMap
      if addr = 0 then { load with errnum := .unrecognized }
      else if room.allocates addr initrdPages then
        let initrdMem := BitVec.ofNat 32 addr
        let load := { load with allocated := some (initrdMem, initrdPages * pageSize) }
        if secure then
          readInitrd rom secure image sbhLen (initrdMem + BitVec.ofNat 32 pageSize)
            (load.put (initrdMem + BitVec.ofNat 32 pageSize - BitVec.ofNat 32 sbhLen) sbh)
        else readInitrd rom secure image sbhLen initrdMem load
      else { load with errnum := .wontFit }

/-- The error `grub_cln_fetch_sbh` leaves when it fails. -/
def fetchErrnum (header : Opening) : GrubError :=
  match header with
  | .error errnum => errnum
  | .ok asset => if asset.delivered sbhSize ≠ sbhSize then .read else .execFormat

/-- `grub_load_initrd`, with `cln_sbh` at `csbh`. The initrd has a name or is an item of
the flash, and a kernel is loaded or not. -/
def grubLoadInitrd (rom : SecureRom) (secure spi named loaded : Bool) (csbh : Address)
    (source : InitrdSource) (room : InitrdRoom) (errnum : GrubError) (memory : Memory) :
    InitrdLoad :=
  let load : InitrdLoad :=
    { errnum, memory, allocated := none, stores := [], validated := none, ramdisk := none }
  if !spi && !named then { load with errnum := .badFilename }
  else if !loaded then { load with errnum := .unrecognized }
  else if secure then
    let load := { load with memory := withSbh source.header.toOption memory csbh }
    if fetchesSbh source.header.toOption memory csbh then
      placeInitrd rom secure room (headerBytes source.header.toOption)
        (securityHeader load.memory csbh).headerLen source.image load
    else
      { load with
        errnum :=
          if fetchErrnum source.header = .fileNotFound ∧ !spi then .sgnFileNotFound
          else fetchErrnum source.header }
  else placeInitrd rom secure room [] 0 source.image load

/-! ## What is authenticated -/

/-- The bytes that `IAROM_validate_module` authenticates: the header at the address and
what it announces. -/
def Authenticates (rom : SecureRom) (memory : Memory) (sbh address : Address) : Prop :=
  InRegion sbh sbhSize address ∨
    InRegion sbh (rom.extent (securityHeader memory sbh)) address

/-- Every byte of an announced ramdisk was authenticated. -/
def RamdiskAuthentic (rom : SecureRom) (load : InitrdLoad) : Prop :=
  ∃ start length memory sbh, load.ramdisk = some (start, length) ∧
    load.validated = some (memory, sbh) ∧
      ∀ address, InRegion start length address → Authenticates rom memory sbh address

/-- Every store falls into the allocated pages. -/
def StoresAllocated (load : InitrdLoad) : Prop :=
  ∀ write ∈ load.stores, ∀ address, InRegion write.1 write.2.length address →
    ∃ pages, load.allocated = some pages ∧ InRegion pages.1 pages.2 address

/-- What a secure load has to keep to. -/
def InitrdSafe (rom : SecureRom) (load : InitrdLoad) : Prop :=
  (load.errnum = .none → RamdiskAuthentic rom load) ∧ StoresAllocated load

section Secure

variable {rom : SecureRom} {spi named loaded : Bool} {csbh : Address} {source : InitrdSource}
  {room : InitrdRoom} {errnum : GrubError} {memory : Memory} {image : OpenAsset} {addr : Nat}

/-- `sbh_len` -/
def initrdSbhLen (csbh : Address) (source : InitrdSource) (memory : Memory) : Nat :=
  (securityHeader (withSbh source.header.toOption memory csbh) csbh).headerLen

/-- The length of the header is a 32-bit number. -/
theorem initrdSbhLen_lt : initrdSbhLen csbh source memory < 2 ^ 32 := loadWord_lt _ _

/-- The pages for the image and the one before it. -/
def initrdPages (image : OpenAsset) : Nat :=
  pageAlign (toUInt32 (image.size + pageSize)) / pageSize

/-- What reading the image stores. -/
def initrdBytes (image : OpenAsset) : List UInt8 := image.stored (toUInt32 image.size)

/-- Where the image goes, and the header before it. -/
def initrdStart (addr : Nat) : Address := BitVec.ofNat 32 addr + BitVec.ofNat 32 pageSize

def initrdSbh (csbh : Address) (source : InitrdSource) (memory : Memory) (addr : Nat) : Address :=
  initrdStart addr - BitVec.ofNat 32 (initrdSbhLen csbh source memory)

/-- The memory with both in place. -/
def initrdMemory (csbh : Address) (source : InitrdSource) (memory : Memory) (image : OpenAsset)
    (addr : Nat) : Memory :=
  store (store (withSbh source.header.toOption memory csbh)
      (initrdSbh csbh source memory addr) (headerBytes source.header.toOption))
    (initrdStart addr) (initrdBytes image)

/-- The load gets as far as to place this image at this address. -/
structure Placeable (spi named loaded : Bool) (csbh : Address) (source : InitrdSource)
    (room : InitrdRoom) (memory : Memory) (image : OpenAsset) (addr : Nat) : Prop where
  asked : (!spi && !named) = false
  kernel : loaded = true
  fetches : fetchesSbh source.header.toOption memory csbh = true
  opens : source.image = .ok image
  found : ∃ memoryMap, room.memoryMap = some memoryMap ∧
    findInitrdAddr room (toUInt32 (image.size + pageSize)) memoryMap = addr
  nonzero : addr ≠ 0
  allocates : room.allocates addr (initrdPages image) = true

/-- The page before the image holds the header, or it falls into the pages behind. -/
def HeaderFits (csbh : Address) (source : InitrdSource) (memory : Memory) (image : OpenAsset) :
    Prop :=
  (pageSize + (2 ^ 32 - initrdSbhLen csbh source memory)) % 2 ^ 32 + sbhSize ≤
    initrdPages image * pageSize

/-- The image keeps to its pages. -/
def ImageFits (image : OpenAsset) : Prop :=
  initrdBytes image = [] ∨ pageSize + (initrdBytes image).length ≤ initrdPages image * pageSize

/-- The header that is found in place announces enough for the image. -/
def RamdiskCovered (rom : SecureRom) (csbh : Address) (source : InitrdSource) (memory : Memory)
    (image : OpenAsset) (addr : Nat) : Prop :=
  toUInt32 image.size = 0 ∨
    min (initrdSbhLen csbh source memory + toUInt32 image.size) (2 ^ 32) ≤
      max sbhSize (rom.extent (securityHeader (initrdMemory csbh source memory image addr)
        (initrdSbh csbh source memory addr)))

/-- The load ends well. -/
structure Verified (rom : SecureRom) (csbh : Address) (source : InitrdSource) (memory : Memory)
    (image : OpenAsset) (addr : Nat) : Prop where
  delivers : image.delivered (toUInt32 image.size) = image.size
  validates : rom.validate (initrdMemory csbh source memory image addr)
    (initrdSbh csbh source memory addr) = true

/-- There is one place for the image. -/
theorem Placeable.unique {image' : OpenAsset} {addr' : Nat}
    (placeable : Placeable spi named loaded csbh source room memory image addr)
    (other : Placeable spi named loaded csbh source room memory image' addr') :
    image' = image ∧ addr' = addr := by
  have same := Except.ok.inj (other.opens.symm.trans placeable.opens)
  obtain ⟨memoryMap, mapped, found⟩ := placeable.found
  obtain ⟨memoryMap', mapped', found'⟩ := other.found
  obtain rfl := Option.some.inj (mapped.symm.trans mapped')
  rw [same] at found'
  exact ⟨same, found'.symm.trans found⟩

/-- What a load that places its image leaves before it has read it in full. -/
def placedLoad (csbh : Address) (source : InitrdSource) (errnum : GrubError) (memory : Memory)
    (image : OpenAsset) (addr : Nat) : InitrdLoad :=
  { errnum
    memory := initrdMemory csbh source memory image addr
    allocated := some (BitVec.ofNat 32 addr, initrdPages image * pageSize)
    stores := [(initrdSbh csbh source memory addr, headerBytes source.header.toOption),
      (initrdStart addr, initrdBytes image)]
    validated := none
    ramdisk := none }

/-- What a load can come to. -/
inductive Loaded (rom : SecureRom) (spi named loaded : Bool) (csbh : Address)
    (source : InitrdSource) (room : InitrdRoom) (errnum : GrubError) (memory : Memory) :
    InitrdLoad → Prop where
  | unplaced {load : InitrdLoad}
      (unplaceable : ∀ image addr,
        ¬ Placeable spi named loaded csbh source room memory image addr)
      (fails : load.errnum ≠ .none) (stores : load.stores = []) :
      Loaded rom spi named loaded csbh source room errnum memory load
  | unread {image : OpenAsset} {addr : Nat}
      (placeable : Placeable spi named loaded csbh source room memory image addr)
      (short : image.delivered (toUInt32 image.size) ≠ image.size) :
      Loaded rom spi named loaded csbh source room errnum memory
        { placedLoad csbh source errnum memory image addr with errnum := .execFormat }
  | rejected {image : OpenAsset} {addr : Nat}
      (placeable : Placeable spi named loaded csbh source room memory image addr)
      (delivers : image.delivered (toUInt32 image.size) = image.size)
      (rejects : rom.validate (initrdMemory csbh source memory image addr)
        (initrdSbh csbh source memory addr) = false) :
      Loaded rom spi named loaded csbh source room errnum memory
        { placedLoad csbh source errnum memory image addr with
          errnum := .clnVerification
          validated := some (initrdMemory csbh source memory image addr,
            initrdSbh csbh source memory addr) }
  | announced {image : OpenAsset} {addr : Nat}
      (placeable : Placeable spi named loaded csbh source room memory image addr)
      (verified : Verified rom csbh source memory image addr) :
      Loaded rom spi named loaded csbh source room errnum memory
        { placedLoad csbh source errnum memory image addr with
          validated := some (initrdMemory csbh source memory image addr,
            initrdSbh csbh source memory addr)
          ramdisk := some (initrdStart addr, toUInt32 image.size) }

/-- From a fetched header on, the image and the room for it decide. -/
theorem placeInitrd_loaded (asked : (!spi && !named) = false) (kernel : loaded = true)
    (fetches : fetchesSbh source.header.toOption memory csbh = true) :
    Loaded rom spi named loaded csbh source room errnum memory
      (placeInitrd rom true room (headerBytes source.header.toOption)
        (initrdSbhLen csbh source memory) source.image
        { errnum
          memory := withSbh source.header.toOption memory csbh
          allocated := none, stores := [], validated := none, ramdisk := none }) := by
  cases opens : source.image with
  | error failure =>
      rw [placeInitrd]
      refine .unplaced (fun image addr placeable => ?_) failure.2 rfl
      have opened := opens.symm.trans placeable.opens
      cases opened
  | ok image =>
      rw [placeInitrd]
      dsimp only
      rw [if_pos rfl]
      cases mapped : room.memoryMap with
      | none =>
          refine .unplaced (fun image addr placeable => ?_) nofun rfl
          obtain ⟨memoryMap, isMap, _⟩ := placeable.found
          rw [mapped] at isMap
          cases isMap
      | some memoryMap =>
          have unique : ∀ image' addr,
              Placeable spi named loaded csbh source room memory image' addr →
                image' = image ∧
                  findInitrdAddr room (toUInt32 (image.size + pageSize)) memoryMap = addr := by
            intro image' addr placeable
            obtain rfl := Except.ok.inj (opens.symm.trans placeable.opens)
            obtain ⟨memoryMap', isMap, found⟩ := placeable.found
            obtain rfl := Option.some.inj (mapped.symm.trans isMap)
            exact ⟨rfl, found⟩
          dsimp only
          by_cases nonzero : findInitrdAddr room (toUInt32 (image.size + pageSize)) memoryMap = 0
          · rw [if_pos nonzero]
            refine .unplaced (fun image' addr placeable => ?_) nofun rfl
            exact placeable.nonzero ((unique image' addr placeable).2.symm.trans nonzero)
          · rw [if_neg nonzero]
            by_cases allocates : room.allocates
                (findInitrdAddr room (toUInt32 (image.size + pageSize)) memoryMap)
                (pageAlign (toUInt32 (image.size + pageSize)) / pageSize) = true
            · have placeable : Placeable spi named loaded csbh source room memory image
                  (findInitrdAddr room (toUInt32 (image.size + pageSize)) memoryMap) :=
                ⟨asked, kernel, fetches, opens, ⟨memoryMap, mapped, rfl⟩, nonzero, allocates⟩
              rw [if_pos allocates, if_pos rfl, readInitrd]
              dsimp only
              by_cases delivers : image.delivered (toUInt32 image.size) = image.size
              · rw [if_neg (fun short => short delivers), if_pos rfl]
                split
                · next validates => exact .announced placeable ⟨delivers, validates⟩
                · next rejects =>
                    exact .rejected placeable delivers (Bool.eq_false_iff.mpr rejects)
              · rw [if_pos delivers]
                exact .unread placeable delivers
            · rw [if_neg allocates]
              refine .unplaced (fun image' addr placeable => ?_) nofun rfl
              obtain ⟨rfl, rfl⟩ := unique image' addr placeable
              exact allocates placeable.allocates

/-- A header that cannot be fetched is an error. -/
theorem fetchErrnum_ne (header : Opening) : fetchErrnum header ≠ .none := by
  cases header with
  | error failure => exact failure.2
  | ok asset =>
      rw [fetchErrnum]
      split
      · exact nofun
      · exact nofun

/-- Every secure load comes to one of these. -/
theorem grubLoadInitrd_loaded :
    Loaded rom spi named loaded csbh source room errnum memory
      (grubLoadInitrd rom true spi named loaded csbh source room errnum memory) := by
  rw [grubLoadInitrd]
  dsimp only
  by_cases asked : (!spi && !named) = true
  · rw [if_pos asked]
    refine .unplaced (fun image addr placeable => ?_) nofun rfl
    exact absurd placeable.asked (by rw [asked]; decide)
  · rw [if_neg asked]
    by_cases kernel : loaded = true
    · rw [if_neg (by rw [kernel]; decide), if_pos rfl]
      by_cases fetches : fetchesSbh source.header.toOption memory csbh = true
      · rw [if_pos fetches]
        exact placeInitrd_loaded (Bool.eq_false_iff.mpr asked) kernel fetches
      · rw [if_neg fetches]
        refine .unplaced (fun image addr placeable => fetches placeable.fetches) ?_ rfl
        dsimp only
        split
        · exact nofun
        · exact fetchErrnum_ne source.header
    · rw [if_pos (by rw [Bool.eq_false_iff.mpr kernel]; decide)]
      exact .unplaced (fun image addr placeable => kernel placeable.kernel) nofun rfl

/-! ## When a load is safe -/

/-- The pages have fewer than 2^32 bytes. -/
theorem initrdPages_lt : initrdPages image * pageSize < 2 ^ 32 := by
  rw [initrdPages, pageAlign, pageSize]
  omega

/-- Where the header goes, from the first page on. -/
theorem initrdSbh_eq : initrdSbh csbh source memory addr =
    BitVec.ofNat 32 addr +
      BitVec.ofNat 32 ((pageSize + (2 ^ 32 - initrdSbhLen csbh source memory)) % 2 ^ 32) := by
  have small : initrdSbhLen csbh source memory < 2 ^ 32 := initrdSbhLen_lt
  rw [initrdSbh, initrdStart, pageSize]
  apply BitVec.eq_of_toNat_eq
  rw [BitVec.toNat_sub, BitVec.toNat_add, BitVec.toNat_add]
  simp only [BitVec.toNat_ofNat]
  omega

/-- The image begins where the header is said to end. -/
theorem initrdStart_eq : initrdStart addr =
    initrdSbh csbh source memory addr + BitVec.ofNat 32 (initrdSbhLen csbh source memory) := by
  rw [initrdSbh, BitVec.sub_add_cancel]

/-- The header is stored in the pages just when it fits them, -/
theorem headerStore_allocated_iff
    (placeable : Placeable spi named loaded csbh source room memory image addr) :
    (∀ address, InRegion (initrdSbh csbh source memory addr)
        (headerBytes source.header.toOption).length address →
          InRegion (BitVec.ofNat 32 addr) (initrdPages image * pageSize) address) ↔
      HeaderFits csbh source memory image := by
  rw [headerBytes_whole placeable.fetches, initrdSbh_eq,
    within_iff (by decide) (Nat.mod_lt _ (by decide)) initrdPages_lt, HeaderFits]

/-- and so is the image. -/
theorem imageStore_allocated_iff :
    (∀ address, InRegion (initrdStart addr) (initrdBytes image).length address →
        InRegion (BitVec.ofNat 32 addr) (initrdPages image * pageSize) address) ↔
      ImageFits image := by
  rw [ImageFits]
  rcases Nat.eq_zero_or_pos (initrdBytes image).length with empty | nonempty
  · rw [empty]
    exact ⟨fun _ => .inl (List.eq_nil_of_length_eq_zero empty),
      fun _ _ inside => absurd inside (Nat.not_lt_zero _)⟩
  · rw [initrdStart, within_iff nonempty (by decide) initrdPages_lt]
    exact ⟨.inr, fun fits => fits.resolve_left (List.ne_nil_of_length_pos nonempty)⟩

/-- Placing the header and the image keeps to the pages when both fit. -/
theorem storesAllocated_iff {load : InitrdLoad}
    (placeable : Placeable spi named loaded csbh source room memory image addr)
    (allocated : load.allocated = some (BitVec.ofNat 32 addr, initrdPages image * pageSize))
    (stores : load.stores = [(initrdSbh csbh source memory addr,
      headerBytes source.header.toOption), (initrdStart addr, initrdBytes image)]) :
    StoresAllocated load ↔ HeaderFits csbh source memory image ∧ ImageFits image := by
  rw [← headerStore_allocated_iff placeable, ← @imageStore_allocated_iff image addr,
    StoresAllocated, stores, List.forall_mem_cons, List.forall_mem_singleton, allocated]
  have pages : ∀ address : Address, (∃ pages, some (BitVec.ofNat 32 addr,
      initrdPages image * pageSize) = some pages ∧ InRegion pages.1 pages.2 address) ↔
        InRegion (BitVec.ofNat 32 addr) (initrdPages image * pageSize) address := by
    intro address
    constructor
    · rintro ⟨_, same, inside⟩
      obtain rfl := Option.some.inj same
      exact inside
    · intro inside
      exact ⟨_, rfl, inside⟩
  simp only [pages]

/-- The announced ramdisk is authenticated when what its header announces covers it. -/
theorem ramdisk_covered_iff :
    (∀ address, InRegion (initrdStart addr) (toUInt32 image.size) address →
        Authenticates rom (initrdMemory csbh source memory image addr)
          (initrdSbh csbh source memory addr) address) ↔
      RamdiskCovered rom csbh source memory image addr := by
  simp only [Authenticates, inRegion_max]
  rw [RamdiskCovered]
  rcases Nat.eq_zero_or_pos (toUInt32 image.size) with empty | nonempty
  · rw [empty]
    exact ⟨fun _ => .inl rfl, fun _ _ inside => absurd inside (Nat.not_lt_zero _)⟩
  · rw [@initrdStart_eq csbh source memory addr, covered_iff nonempty initrdSbhLen_lt]
    exact ⟨.inr, fun covered => covered.resolve_left (Nat.ne_of_gt nonempty)⟩

/-- The ramdisk is authentic just when what was checked covers it. -/
theorem ramdiskAuthentic_iff {load : InitrdLoad}
    (ramdisk : load.ramdisk = some (initrdStart addr, toUInt32 image.size))
    (validated : load.validated = some (initrdMemory csbh source memory image addr,
      initrdSbh csbh source memory addr)) :
    RamdiskAuthentic rom load ↔ RamdiskCovered rom csbh source memory image addr := by
  rw [RamdiskAuthentic, ramdisk, validated, ← ramdisk_covered_iff]
  constructor
  · rintro ⟨start, length, memory', sbh, isRamdisk, isValidated, covers⟩
    obtain ⟨rfl, rfl⟩ := Prod.mk.inj (Option.some.inj isRamdisk)
    obtain ⟨rfl, rfl⟩ := Prod.mk.inj (Option.some.inj isValidated)
    exact covers
  · intro covers
    exact ⟨_, _, _, _, rfl, rfl, covers⟩

/-- What a secure load needs of its header and image. -/
def KeepsWithin (rom : SecureRom) (spi named loaded : Bool) (csbh : Address)
    (source : InitrdSource) (room : InitrdRoom) (errnum : GrubError) (memory : Memory) : Prop :=
  ∀ image addr, Placeable spi named loaded csbh source room memory image addr →
    HeaderFits csbh source memory image ∧ ImageFits image ∧
      (errnum = .none → Verified rom csbh source memory image addr →
        RamdiskCovered rom csbh source memory image addr)

/-- With an image that can be placed, it is about that one. -/
theorem keepsWithin_iff
    (placeable : Placeable spi named loaded csbh source room memory image addr) :
    KeepsWithin rom spi named loaded csbh source room errnum memory ↔
      (HeaderFits csbh source memory image ∧ ImageFits image) ∧
        (errnum = .none → Verified rom csbh source memory image addr →
          RamdiskCovered rom csbh source memory image addr) := by
  constructor
  · intro keeps
    obtain ⟨header, fits, covered⟩ := keeps image addr placeable
    exact ⟨⟨header, fits⟩, covered⟩
  · rintro ⟨⟨header, fits⟩, covered⟩ image' addr' other
    obtain ⟨rfl, rfl⟩ := placeable.unique other
    exact ⟨header, fits, covered⟩

/-- A secure load is safe exactly when the header and the image it places keep to
their pages and, if it succeeds, the announced size covers the image. -/
theorem grubLoadInitrd_safe_iff (rom : SecureRom) (spi named loaded : Bool) (csbh : Address)
    (source : InitrdSource) (room : InitrdRoom) (errnum : GrubError) (memory : Memory) :
    InitrdSafe rom (grubLoadInitrd rom true spi named loaded csbh source room errnum memory) ↔
      KeepsWithin rom spi named loaded csbh source room errnum memory := by
  have outcome := @grubLoadInitrd_loaded rom spi named loaded csbh source room errnum memory
  revert outcome
  generalize grubLoadInitrd rom true spi named loaded csbh source room errnum memory = load
  intro outcome
  cases outcome with
  | unplaced unplaceable fails stores =>
      refine iff_of_true ⟨fun succeeds => absurd succeeds fails, ?_⟩ fun image addr placeable =>
        absurd placeable (unplaceable image addr)
      intro write stored
      rw [stores] at stored
      cases stored
  | unread placeable short =>
      rw [keepsWithin_iff placeable, InitrdSafe, storesAllocated_iff placeable rfl rfl]
      exact ⟨fun safe => ⟨safe.2, fun _ verified => absurd verified.delivers short⟩,
        fun keeps => ⟨nofun, keeps.1⟩⟩
  | rejected placeable delivers rejects =>
      rw [keepsWithin_iff placeable, InitrdSafe, storesAllocated_iff placeable rfl rfl]
      refine ⟨fun safe => ⟨safe.2, fun _ verified => ?_⟩, fun keeps => ⟨nofun, keeps.1⟩⟩
      have accepted := verified.validates
      rw [rejects] at accepted
      cases accepted
  | announced placeable verified =>
      rw [keepsWithin_iff placeable, InitrdSafe, storesAllocated_iff placeable rfl rfl]
      rw [ramdiskAuthentic_iff rfl rfl]
      exact ⟨fun safe => ⟨safe.2, fun none _ => safe.1 none⟩,
        fun keeps => ⟨fun none => keeps.2 none verified, keeps.1⟩⟩

end Secure

/-- A machine with memory at 1 MiB. -/
def smallRoom : InitrdRoom where
  initrdAddrMax := 0x37FFFFFF
  linuxMemSize := 0
  protModeMem := 0
  protModePages := 0
  memoryMap := some [⟨.conventionalMemory, 0x100000, 0x100⟩]
  allocates _ _ := true

/-- A load there. -/
def smallRoomLoad (header : Asset) : InitrdLoad :=
  grubLoadInitrd acceptingRom true false true true 0x1000
    ⟨.ok header.opened, .ok longerImage.opened⟩ smallRoom .none fun _ => 0

/-- An initrd longer than its header says is announced as a whole, and a header that
says to be longer than a page is stored before the pages. -/
theorem grubLoadInitrd_unsafe :
    ¬ InitrdSafe acceptingRom (smallRoomLoad smallHeader) ∧
      ¬ InitrdSafe acceptingRom (smallRoomLoad longHeader) := by
  constructor
  · rintro ⟨authentic, _⟩
    obtain ⟨start, length, memory, sbh, ramdisk, validated, covers⟩ :=
      authentic (by decide +kernel)
    have announced : (smallRoomLoad smallHeader).ramdisk = some (0x1FF000, 5) := by
      decide +kernel
    have found : (smallRoomLoad smallHeader).validated.map
        (fun call => (call.2, acceptingRom.extent (securityHeader call.1 call.2))) =
          some (0x1FEDB4, 592) := by
      decide +kernel
    rw [ramdisk] at announced
    rw [validated] at found
    obtain ⟨rfl, rfl⟩ := Prod.mk.inj (Option.some.inj announced)
    obtain ⟨rfl, extent⟩ := Prod.mk.inj (Option.some.inj found)
    have last := covers 0x1FF004 (by decide)
    dsimp only at extent
    rw [Authenticates, extent] at last
    revert last
    decide
  · rintro ⟨_, allocated⟩
    obtain ⟨pages, isPages, inside⟩ := allocated
      (0x1FD000, longHeader.content) (by decide +kernel) 0x1FD000 (by decide +kernel)
    have granted : (smallRoomLoad longHeader).allocated = some (0x1FE000, 0x2000) := by
      decide +kernel
    obtain rfl := Option.some.inj (isPages.symm.trans granted)
    revert inside
    decide

end GrubLegacy.Clanton
