import GrubLegacy.Base.HighestFit
import GrubLegacy.Clanton.Initrd

/-!
# The place of the initrd

The search of `grub_load_initrd` in the two `linux.c`: over the descriptors of the EFI
memory map it keeps the start of the highest range that has room for the initrd. A
descriptor that reaches 2 GiB under a limit above it is passed over, and so is one
that ends with the address space; address 0 counts as no place.
-/

namespace GrubLegacy.Loader

open Base Efi Clanton

/-- The processors that have a `linux.c` of their own. -/
inductive Processor where
  | ia32
  | x86_64
deriving DecidableEq, Repr

/-- The bits of a `grub_size_t`. -/
def Processor.wordBits : Processor → Nat
  | .ia32 => 32
  | .x86_64 => 64

/-- The value of a `grub_addr_t` after storing `value`. -/
def Processor.address : Processor → (value : Int) → Nat
  | .ia32, value => toUInt32 value
  | .x86_64, value => toUInt64 value

/-- `page_align` -/
def Processor.pageAlign (processor : Processor) (size : Nat) : Nat :=
  (size + pageSize - 1) % 2 ^ processor.wordBits / pageSize * pageSize

/-- `addr_min`. On ia32 the kernel has three times its size to unpack. -/
def Processor.addrMin : Processor → InitrdRoom → Nat
  | .ia32, room => room.addrMin
  | .x86_64, _ => 0

/-- One descriptor in the search for the highest address. -/
def searchDescriptor (processor : Processor) (room : InitrdRoom) (size initrdPages addr : Nat)
    (desc : MemoryDescriptor) : Nat :=
  tryDescriptor processor.address (processor.addrMin room) room size initrdPages addr desc

/-- The address the search of `grub_load_initrd` ends with, 0 if it fails. -/
def initrdAddr (processor : Processor) (room : InitrdRoom) (size : Nat)
    (memoryMap : List MemoryDescriptor) : Nat :=
  memoryMap.foldl (searchDescriptor processor room (processor.pageAlign size)
    (processor.pageAlign size / pageSize)) 0

/-! ## What the search is after -/

/-- The first address behind a descriptor. -/
def physicalEnd (desc : MemoryDescriptor) : Nat := desc.physicalStart + desc.numPages * pageSize

/-- A memory map of the firmware: whole pages of the 64-bit address space, each of them
described at most once, in any order. -/
structure FirmwareMap where
  descriptors : List MemoryDescriptor
  aligned : ∀ desc ∈ descriptors, pageSize ∣ desc.physicalStart
  inSpace : ∀ desc ∈ descriptors, physicalEnd desc ≤ 2 ^ 64
  disjoint : descriptors.Pairwise fun desc desc' =>
    Disjoint (Set.Ico desc.physicalStart (physicalEnd desc))
      (Set.Ico desc'.physicalStart (physicalEnd desc'))

/-- What a search starts from. The kernel lies in pages of its own. -/
structure InitrdSearch where
  processor : Processor
  room : InitrdRoom
  kernelAligned : pageSize ∣ room.protModeMem
  memoryMap : FirmwareMap
  mapped : room.memoryMap = some memoryMap.descriptors
  size : Nat

namespace InitrdSearch

variable (search : InitrdSearch) {desc : MemoryDescriptor} {addr place top : Nat}

/-- `addr_min` -/
def addrMin : Nat := search.processor.addrMin search.room

/-- `page_align (size)` -/
def length : Nat := search.processor.pageAlign search.size

/-- The address it ends with. -/
def found : Nat :=
  initrdAddr search.processor search.room search.size search.memoryMap.descriptors

/-- The descriptor is conventional memory, all the pages from this place on. -/
structure Holds (desc : MemoryDescriptor) (place : Nat) : Prop where
  listed : desc ∈ search.memoryMap.descriptors
  conventional : desc.type = .conventionalMemory
  starts : desc.physicalStart ≤ place
  ends : place + search.length ≤ physicalEnd desc

/-- The initrd may be put there. -/
structure IsPlace (place : Nat) : Prop where
  aligned : pageSize ∣ place
  held : ∃ desc, search.Holds desc place
  above : search.addrMin ≤ place
  belowInitrdAddrMax : place + search.length ≤ search.room.initrdAddrMax
  belowLinuxMemSize : search.room.linuxMemSize ≠ 0 →
    place + search.length ≤ search.room.linuxMemSize
  below2GiB : place + search.length ≤ 2 ^ 31

/-- The search finds the highest place if there is one, and else nothing. -/
structure FindsHighest : Prop where
  sound : search.found ≠ 0 → search.IsPlace search.found
  complete : ∀ place, search.IsPlace place → search.found ≠ 0 ∧ place ≤ search.found

/-- The descriptor is not passed over: it reaches above `addr_min`, it does not end
with the address space, and cut off at the limit it ends below 2 GiB. -/
structure LooksAt (desc : MemoryDescriptor) : Prop where
  reaches : search.addrMin ≤ desc.physicalStart ∨ search.addrMin < physicalEnd desc
  ends : physicalEnd desc < 2 ^ 64
  below2GiB : min (physicalEnd desc) search.room.addrMax ≤ 0x7fffffff

/-! ## What one descriptor offers -/

/-- The range from `addr_min` on up to the limit has room. -/
structure HasRoom (desc : MemoryDescriptor) : Prop where
  conventional : desc.type = .conventionalMemory
  roomy : max desc.physicalStart search.addrMin + search.length ≤
    min (physicalEnd desc) search.room.addrMax
  nonempty : 0 < min (physicalEnd desc) search.room.addrMax

open Classical in
/-- The end of the range a descriptor offers. -/
noncomputable def offered (desc : MemoryDescriptor) : Option Nat :=
  if search.HasRoom desc ∧ search.LooksAt desc then
    some (min (physicalEnd desc) search.room.addrMax)
  else none

/-- The length is a multiple of a page, -/
theorem length_aligned : pageSize ∣ search.length := ⟨_, Nat.mul_comm _ _⟩

/-- the upper bound is one -/
theorem addrMax_aligned (room : InitrdRoom) : pageSize ∣ room.addrMax := ⟨_, Nat.mul_comm _ _⟩

/-- and the lower one too. -/
theorem addrMin_aligned : pageSize ∣ search.addrMin := by
  have aligned := search.kernelAligned
  rw [addrMin]
  cases search.processor with
  | ia32 =>
      simp only [Processor.addrMin, InitrdRoom.addrMin, pageSize] at aligned ⊢
      omega
  | x86_64 => exact dvd_zero _

/-- Below 2 GiB a difference of addresses is an address. -/
theorem address_sub (small : top ≤ 0x7fffffff) (roomy : search.length ≤ top) :
    search.processor.address (top - search.length) = top - search.length := by
  rw [← Int.ofNat_sub roomy]
  cases search.processor with
  | ia32 => exact toUInt32_of_range (by omega)
  | x86_64 => exact toUInt64_of_range (by omega)

/-- What a descriptor offers is where the initrd would end, if there is room. -/
theorem offered_eq_some_iff : search.offered desc = some top ↔
    search.HasRoom desc ∧ search.LooksAt desc ∧
      top = min (physicalEnd desc) search.room.addrMax := by
  rw [offered]
  split
  · next offers => simp [offers, eq_comm]
  · next offers =>
      simp only [reduceCtorEq, false_iff]
      rintro ⟨room, looks, _⟩
      exact offers ⟨room, looks⟩

/-- A descriptor cut off at `addr_min` keeps its end. -/
theorem cut_descriptor {addrMin start pages start' pages' : Nat} (minAligned : pageSize ∣ addrMin)
    (startAligned : pageSize ∣ start)
    (isStart : start' =
      if start < addrMin ∧ (addrMin - start) / pageSize < pages then addrMin else start)
    (isPages : pages' =
      if start < addrMin ∧ (addrMin - start) / pageSize < pages then
        pages - (addrMin - start) / pageSize
      else pages) :
    start' + pages' * pageSize = start + pages * pageSize ∧
      (addrMin ≤ start' ↔ addrMin ≤ start ∨ addrMin < start + pages * pageSize) ∧
        (addrMin ≤ start' → start' = max start addrMin) := by
  rw [pageSize] at *
  split at isStart
  · next cut =>
      rw [if_pos cut] at isPages
      refine ⟨?_, ?_, ?_⟩
      · omega
      · omega
      · omega
  · next whole =>
      rw [if_neg whole] at isPages
      refine ⟨?_, ?_, ?_⟩
      · omega
      · omega
      · omega

/-- The part of a conventional descriptor that the search goes by. -/
structure CutAt (desc : MemoryDescriptor) (start pages : Nat) : Prop where
  sameEnd : start + pages * pageSize = physicalEnd desc
  above_iff : search.addrMin ≤ start ↔
    search.addrMin ≤ desc.physicalStart ∨ search.addrMin < physicalEnd desc
  isMax : search.addrMin ≤ start → start = max desc.physicalStart search.addrMin

/-- What the search does with conventional memory. -/
theorem searchDescriptor_conventional (listed : desc ∈ search.memoryMap.descriptors)
    (conventional : desc.type = .conventionalMemory) : ∃ start pages,
      search.CutAt desc start pages ∧
        searchDescriptor search.processor search.room search.length
          (search.length / pageSize) addr desc =
            if search.addrMin ≤ start ∧
                (start + search.length) % 2 ^ 64 ≤ search.room.addrMax ∧
                search.length / pageSize ≤ pages then
              if min search.room.addrMax (physicalEnd desc % 2 ^ 64) ≤ 0x7fffffff ∧
                  addr < min search.room.addrMax (physicalEnd desc % 2 ^ 64) then
                search.processor.address
                  (min search.room.addrMax (physicalEnd desc % 2 ^ 64) - search.length)
              else addr
            else addr := by
  have clipped : ∀ limit last : Nat, (if limit < last then limit else last) = min limit last := by
    intro limit last
    split
    · omega
    · omega
  rw [searchDescriptor, tryDescriptor, if_neg (not_not_intro conventional)]
  dsimp only
  rw [← addrMin]
  generalize isStart : (if desc.physicalStart < search.addrMin ∧
    (search.addrMin - desc.physicalStart) / pageSize < desc.numPages then search.addrMin
      else desc.physicalStart) = start
  generalize isPages : (if desc.physicalStart < search.addrMin ∧
    (search.addrMin - desc.physicalStart) / pageSize < desc.numPages then
      desc.numPages - (search.addrMin - desc.physicalStart) / pageSize
    else desc.numPages) = pages
  obtain ⟨sameEnd, above_iff, isMax⟩ := cut_descriptor search.addrMin_aligned
    (search.memoryMap.aligned desc listed) isStart.symm isPages.symm
  refine ⟨start, pages, ⟨sameEnd, above_iff, isMax⟩, ?_⟩
  rw [sameEnd, ← physicalEnd, clipped]

/-- A descriptor that offers a range moves the address up to it. -/
theorem searchDescriptor_of_offers (listed : desc ∈ search.memoryMap.descriptors)
    (room : search.HasRoom desc) (looks : search.LooksAt desc) :
    searchDescriptor search.processor search.room search.length
      (search.length / pageSize) addr desc =
        if addr < min (physicalEnd desc) search.room.addrMax then
          min (physicalEnd desc) search.room.addrMax - search.length
        else addr := by
  obtain ⟨start, pages, cut, step⟩ :=
    @searchDescriptor_conventional search desc addr listed room.conventional
  have above := cut.above_iff.mpr looks.reaches
  have isStart := cut.isMax above
  have sameEnd := cut.sameEnd
  have sizeAligned := search.length_aligned
  have roomy := room.roomy
  have ends := looks.ends
  have fits : search.addrMin ≤ start ∧
      (start + search.length) % 2 ^ 64 ≤ search.room.addrMax ∧
        search.length / pageSize ≤ pages := by
    refine ⟨above, ?_, ?_⟩
    · rw [Nat.mod_eq_of_lt (by omega)]
      omega
    · rw [pageSize] at *
      omega
  rw [step, if_pos fits, Nat.mod_eq_of_lt ends, Nat.min_comm,
    address_sub search looks.below2GiB (by omega)]
  simp only [looks.below2GiB, true_and]

/-- A conventional descriptor that offers nothing leaves it. -/
theorem searchDescriptor_of_not (listed : desc ∈ search.memoryMap.descriptors)
    (conventional : desc.type = .conventionalMemory)
    (offers : ¬ (search.HasRoom desc ∧ search.LooksAt desc)) :
    searchDescriptor search.processor search.room search.length
      (search.length / pageSize) addr desc = addr := by
  obtain ⟨start, pages, cut, step⟩ :=
    @searchDescriptor_conventional search desc addr listed conventional
  have sameEnd := cut.sameEnd
  have sizeAligned := search.length_aligned
  have inSpace := search.memoryMap.inSpace desc listed
  rw [step]
  split
  · next fits =>
      obtain ⟨above, below, enough⟩ := fits
      have isStart := cut.isMax above
      rw [if_neg]
      rintro ⟨low, taken⟩
      -- an end of 2 ^ 64 counts as 0
      have ends : physicalEnd desc < 2 ^ 64 := by
        by_contra! full
        rw [show physicalEnd desc = 2 ^ 64 by omega] at taken
        simp at taken
      have inside : start + search.length ≤ physicalEnd desc := by
        rw [pageSize] at *
        omega
      rw [Nat.mod_eq_of_lt ends, Nat.min_comm] at low taken
      rw [Nat.mod_eq_of_lt (by omega), isStart] at below
      rw [isStart] at inside
      exact offers ⟨⟨conventional, le_min inside below, Nat.zero_lt_of_lt taken⟩,
        ⟨cut.above_iff.mp above, ends, low⟩⟩
  · rfl

/-- One step of the search, on what the descriptor offers. -/
theorem searchDescriptor_eq (listed : desc ∈ search.memoryMap.descriptors) :
    searchDescriptor search.processor search.room search.length
      (search.length / pageSize) addr desc =
        keepHighest search.length search.offered addr desc := by
  rw [keepHighest]
  by_cases offers : search.HasRoom desc ∧ search.LooksAt desc
  · rw [(offered_eq_some_iff search).mpr ⟨offers.1, offers.2, rfl⟩]
    exact search.searchDescriptor_of_offers listed offers.1 offers.2
  · rw [offered, if_neg offers]
    by_cases conventional : desc.type = .conventionalMemory
    · exact search.searchDescriptor_of_not listed conventional offers
    · rw [searchDescriptor, tryDescriptor, if_pos conventional]

/-! ## The whole search -/

/-- The search keeps the highest of what the descriptors offer. -/
theorem found_eq : search.found =
    search.memoryMap.descriptors.foldl (keepHighest search.length search.offered) 0 := by
  refine List.foldl_ext _ _ _ ?_
  intro addr desc listed
  exact search.searchDescriptor_eq listed

/-- What descriptors offer lies in them. -/
theorem offered_apart : search.memoryMap.descriptors.Pairwise
    (OffersApart search.length search.offered) := by
  refine search.memoryMap.disjoint.imp ?_
  intro desc desc' apart top top' offers offers'
  obtain ⟨room, -, rfl⟩ := search.offered_eq_some_iff.mp offers
  obtain ⟨room', -, rfl⟩ := search.offered_eq_some_iff.mp offers'
  have roomy := room.roomy
  have roomy' := room'.roomy
  refine Set.disjoint_of_subset ?_ ?_ apart
  · exact Set.Ico_subset_Ico (by omega) (by omega)
  · exact Set.Ico_subset_Ico (by omega) (by omega)

/-- The search finds the highest place that is offered. -/
theorem found_highestOf :
    HighestOf search.length search.offered search.memoryMap.descriptors search.found := by
  rw [found_eq]
  refine highestOf_foldl ?_ search.offered_apart
  intro desc _ top offers
  obtain ⟨room, -, rfl⟩ := search.offered_eq_some_iff.mp offers
  have roomy := room.roomy
  omega

/-- Whole pages end below both limits or behind one of them. -/
theorem le_addrMax_iff {room : InitrdRoom} (aligned : pageSize ∣ top) : top ≤ room.addrMax ↔
    top ≤ room.initrdAddrMax ∧ (room.linuxMemSize ≠ 0 → top ≤ room.linuxMemSize) := by
  rw [InitrdRoom.addrMax]
  rw [pageSize] at *
  split
  · omega
  · omega

/-- A place ends below the upper bound. -/
theorem IsPlace.le_addrMax (isPlace : search.IsPlace place) :
    place + search.length ≤ search.room.addrMax :=
  (le_addrMax_iff (dvd_add isPlace.aligned search.length_aligned)).mpr
    ⟨isPlace.belowInitrdAddrMax, isPlace.belowLinuxMemSize⟩

/-- What a descriptor offers is a place. -/
theorem isPlace_of_offered (listed : desc ∈ search.memoryMap.descriptors)
    (offers : search.offered desc = some (place + search.length)) : search.IsPlace place := by
  obtain ⟨room, looks, isEnd⟩ := search.offered_eq_some_iff.mp offers
  have roomy := room.roomy
  have below := looks.below2GiB
  have maxAligned := addrMax_aligned search.room
  have sizeAligned := search.length_aligned
  have startAligned := search.memoryMap.aligned desc listed
  have endAligned : pageSize ∣ place + search.length := by
    rw [isEnd]
    rcases min_choice (physicalEnd desc) search.room.addrMax with whole | limited
    · rw [whole]
      exact dvd_add startAligned (dvd_mul_left _ _)
    · rw [limited]
      exact maxAligned
  obtain ⟨max, mem⟩ := (@le_addrMax_iff _ search.room endAligned).mp (by omega)
  exact {
    aligned := (Nat.dvd_add_left sizeAligned).mp endAligned
    held := ⟨desc, listed, room.conventional, by omega, by omega⟩
    above := by omega
    belowInitrdAddrMax := max
    belowLinuxMemSize := mem
    below2GiB := by omega }

/-- A place in a descriptor that is looked at lies below what this one offers. -/
theorem offered_of_isPlace (isPlace : search.IsPlace place) (nonzero : place ≠ 0)
    (holds : search.Holds desc place) (looks : search.LooksAt desc) :
    ∃ top, search.offered desc = some top ∧ place + search.length ≤ top := by
  have below := isPlace.le_addrMax
  have starts := holds.starts
  have ends := holds.ends
  have above := isPlace.above
  have room : search.HasRoom desc := ⟨holds.conventional, by omega, by omega⟩
  exact ⟨_, search.offered_eq_some_iff.mpr ⟨room, looks, rfl⟩, by omega⟩

/-- What is found is a place for the initrd. -/
theorem sound (found : search.found ≠ 0) : search.IsPlace search.found := by
  obtain ⟨desc, listed, offers⟩ := search.found_highestOf.offered.resolve_left found
  exact search.isPlace_of_offered listed offers

/-- The search finds the highest place just when this is not address 0 and lies in a
descriptor that is not passed over. -/
theorem findsHighest_iff : search.FindsHighest ↔
    ∀ place, IsGreatest {place | search.IsPlace place} place →
      place ≠ 0 ∧ ∃ desc, search.Holds desc place ∧ search.LooksAt desc := by
  constructor
  · rintro finds place ⟨isPlace, greatest⟩
    obtain ⟨nonzero, lower⟩ := finds.complete place isPlace
    have same : place = search.found := le_antisymm lower (greatest (finds.sound nonzero))
    rw [same]
    refine ⟨nonzero, ?_⟩
    obtain ⟨desc, listed, offers⟩ := search.found_highestOf.offered.resolve_left nonzero
    obtain ⟨room, looks, isEnd⟩ := search.offered_eq_some_iff.mp offers
    have roomy := room.roomy
    exact ⟨desc, ⟨listed, room.conventional, by omega, by omega⟩, looks⟩
  · intro looked
    refine ⟨search.sound, ?_⟩
    intro place isPlace
    have bounded : BddAbove {place | search.IsPlace place} := by
      refine ⟨2 ^ 31, ?_⟩
      intro other isOther
      have below := isOther.below2GiB
      omega
    have greatest : IsGreatest {place | search.IsPlace place} (sSup {place | search.IsPlace place}) :=
      ⟨Nat.sSup_mem ⟨place, isPlace⟩ bounded, fun other isOther => le_csSup bounded isOther⟩
    obtain ⟨nonzero, desc, holds, looks⟩ := looked _ greatest
    obtain ⟨top, offers, higher⟩ := search.offered_of_isPlace greatest.1 nonzero holds looks
    have highest := search.found_highestOf.highest desc holds.listed top offers
    have lower := greatest.2 isPlace
    refine ⟨?_, ?_⟩
    · omega
    · omega

end InitrdSearch

/-- Memory from 1 MiB to 4 GiB in one descriptor, and a kernel without a limit. -/
def wideRoom : InitrdRoom where
  initrdAddrMax := 0xffffffff
  linuxMemSize := 0
  protModeMem := 0x100000
  protModePages := 0x400
  memoryMap := some [⟨.conventionalMemory, 0x100000, 0xfff00⟩]
  allocates := fun _ _ => true

/-- The kernel in this room is aligned. -/
theorem wideRoom_aligned : pageSize ∣ wideRoom.protModeMem := ⟨0x100, rfl⟩

/-- That one descriptor as a map. -/
def wideMap : FirmwareMap where
  descriptors := [⟨.conventionalMemory, 0x100000, 0xfff00⟩]
  aligned := by
    intro desc listed
    rw [List.mem_singleton.mp listed]
    exact ⟨0x100, rfl⟩
  inSpace := by
    intro desc listed
    rw [List.mem_singleton.mp listed]
    decide
  disjoint := List.pairwise_singleton _ _

def wideSearch : InitrdSearch where
  processor := .x86_64
  room := wideRoom
  kernelAligned := wideRoom_aligned
  memoryMap := wideMap
  mapped := rfl
  size := 0x1000000

/-- There is room for an initrd of 16 MiB at 1 MiB, and the search fails. -/
theorem wideSearch_fails : ¬ wideSearch.FindsHighest := by
  intro finds
  have fails : wideSearch.found = 0 := by decide
  have isPlace : wideSearch.IsPlace 0x100000 := {
    aligned := ⟨0x100, rfl⟩
    held := ⟨⟨.conventionalMemory, 0x100000, 0xfff00⟩, by decide, rfl, by decide, by decide⟩
    above := by decide
    belowInitrdAddrMax := by decide
    belowLinuxMemSize := by decide
    below2GiB := by decide }
  exact (finds.complete _ isPlace).1 fails

end GrubLegacy.Loader
