import GrubLegacy.Efi.DiskNames

/-!
# The numbers of disks over a run

The lists are the same for every order of the handles, as `compare_device_paths` is the order
of the paths' keys. A call of `assign_device_name` that swaps two disks leaves the second one in
both places.
-/

namespace GrubLegacy.Efi

open Base

/-! ## The order of disks -/

/-- What decides the order of disks. -/
def EfidiskData.key (d : EfidiskData) : List NodeKey ×ₗ List NodeKey :=
  toLex (d.lastDevicePath.key, d.devicePath.key)

/-- Devices with one key have one path. -/
theorem EfidiskData.key_eq_iff {p d : EfidiskData} : p.key = d.key ↔ p.devicePath = d.devicePath := by
  constructor
  · intro same
    simp only [EfidiskData.key, toLex_inj, Prod.mk.injEq] at same
    exact DevicePath.key_inj same.2
  · intro same
    have last : p.lastDevicePath = d.lastDevicePath := by
      apply Option.some.inj
      rw [← p.last, ← d.last, same]
    rw [EfidiskData.key, EfidiskData.key, same, last]

/-- Devices are compared by their keys. -/
theorem compares_compareDevices (p d : EfidiskData) :
    ComparesTo (compareDevices p d) p.key d.key := by
  have lasts := compares_compareDevicePaths p.lastDevicePath d.lastDevicePath
  have paths := compares_compareDevicePaths p.devicePath d.devicePath
  have both := lasts.thenBy (not_congr lasts.2) fun _ => paths
  rw [compareDevices, p.last, d.last, ← ite_not]
  exact both

/-! ## The lists -/

/-- `grub_malloc` has room for everything. -/
structure Memory.Enough (memory : Memory) : Prop where
  forDevice : ∀ handle, memory.forDevice handle = true
  forEntry : ∀ handle, memory.forEntry handle = true

variable {memory : Memory}

/-- With enough memory a device is inserted in ascending order. -/
theorem addDevice_eq (enough : memory.Enough) :
    addDevice memory = insertAscending compareDevices := by
  funext devices d
  induction devices with
  | nil => rw [addDevice, insertAscending, if_pos (enough.forEntry d.handle)]
  | cons p next ih => rw [addDevice, insertAscending, if_pos (enough.forEntry d.handle), ih]

/-- With enough memory every handle with a disk makes a device. -/
theorem makeDevices_eq (enough : memory.Enough) (handles : List FirmwareHandle)
    (devices : List EfidiskData) :
    makeDevices memory handles devices =
      (handles.filterMap FirmwareHandle.found).reverse ++ devices := by
  induction handles generalizing devices with
  | nil => rfl
  | cons handle handles ih =>
      rw [makeDevices]
      cases found : handle.found with
      | none => simp [ih, found]
      | some d => simp [ih, found, enough.forDevice]

/-- Each disk goes to the list of its kind. -/
theorem ofKind_nameDevice (lists : DiskLists) (d : EfidiskData) (kind : DiskKind) :
    (nameDevice memory lists d).ofKind kind =
      if d.kind = some kind then addDevice memory (lists.ofKind kind) d else lists.ofKind kind := by
  unfold nameDevice EfidiskData.kind
  by_cases hardware : d.lastType = 1
  · cases kind <;> simp [hardware, DiskLists.ofKind]
  by_cases messaging : d.lastType = 3
  · by_cases optical : d.blockIo.readOnly ∧ 0x200 < d.blockIo.blockSize
    · cases kind <;> simp [messaging, optical, DiskLists.ofKind]
    · cases kind <;> simp [messaging, optical, DiskLists.ofKind]
  by_cases acpi : d.lastType = 2
  · cases kind <;> simp [acpi, DiskLists.ofKind]
  · simp [hardware, messaging, acpi]

/-- The list of a kind gets the devices of this kind one by one. -/
theorem ofKind_nameDevices (devices : List EfidiskData) (lists : DiskLists) (kind : DiskKind) :
    (nameDevices memory devices lists).ofKind kind =
      (devices.filter fun d => d.kind = some kind).foldl (addDevice memory) (lists.ofKind kind) := by
  induction devices generalizing lists with
  | nil => rfl
  | cons d devices ih =>
      rw [nameDevices, List.foldl_cons, ← nameDevices, ih, ofKind_nameDevice]
      by_cases isKind : d.kind = some kind
      · simp [isKind]
      · simp [isKind]

/-- The list of a kind is made of the disks of that kind. -/
theorem ofKind_enumerateDisks (enough : memory.Enough) (handles : List FirmwareHandle)
    (kind : DiskKind) :
    (enumerateDisks memory handles).ofKind kind =
      (disksOfKind handles kind).reverse.foldl (insertAscending compareDevices) [] := by
  have empty : DiskLists.ofKind ⟨[], [], []⟩ kind = [] := by cases kind <;> rfl
  rw [enumerateDisks, ofKind_nameDevices, makeDevices_eq enough, addDevice_eq enough, empty,
    List.append_nil, disksOfKind, List.filter_reverse]

/-- With enough memory every list has the disks of its kind, in the order of their paths. -/
theorem listsDisks (enough : memory.Enough) (handles : List FirmwareHandle) (kind : DiskKind) :
    ListsDisks handles kind ((enumerateDisks memory handles).ofKind kind) := by
  have ascending := ascending_foldl compares_compareDevices List.Pairwise.nil
    (disksOfKind handles kind).reverse
  have keys := keys_foldl compares_compareDevices [] (disksOfKind handles kind).reverse
  rw [ofKind_enumerateDisks enough]
  refine ⟨?_, fun d member => ?_, fun d member => ?_⟩
  · exact ascending.imp fun below => (compares_compareDevices _ _).1.mpr below
  · rcases mem_foldl_insertAscending member with none_ | added
    · cases none_
    · exact List.mem_reverse.mp added
  · apply List.count_eq_one_of_mem
    · rw [List.Nodup, List.pairwise_map]
      exact ascending.imp fun below same => below.ne (EfidiskData.key_eq_iff.mpr same)
    · have listed := (keys d.key).mpr (Or.inr (List.mem_map_of_mem (List.mem_reverse.mpr member)))
      obtain ⟨other, among, same⟩ := List.mem_map.mp listed
      exact List.mem_map.mpr ⟨other, among, EfidiskData.key_eq_iff.mp same⟩

/-- Handles in another order are the same disks. -/
theorem disksOfKind_perm {reported handles : List FirmwareHandle} (perm : reported.Perm handles)
    (kind : DiskKind) : (disksOfKind reported kind).Perm (disksOfKind handles kind) :=
  (perm.filterMap FirmwareHandle.found).filter _

/-- The keys of the disks of a kind do not depend on the order of the handles. -/
theorem keys_enumerateDisks (enough : memory.Enough) {reported handles : List FirmwareHandle}
    (perm : reported.Perm handles) (kind : DiskKind) :
    ((enumerateDisks memory reported).ofKind kind).map EfidiskData.key =
      ((enumerateDisks memory handles).ofKind kind).map EfidiskData.key := by
  rw [ofKind_enumerateDisks enough, ofKind_enumerateDisks enough]
  apply keys_foldl_perm compares_compareDevices
  exact ((List.reverse_perm _).trans (disksOfKind_perm perm kind)).trans (List.reverse_perm _).symm

/-- Equal keys are those of equal paths. -/
theorem paths_of_keys {first second : List EfidiskData}
    (same : first.map EfidiskData.key = second.map EfidiskData.key) :
    first.map (·.devicePath) = second.map (·.devicePath) := by
  apply List.map_injective_iff.mpr fun _ _ => DevicePath.key_inj
  have keys := congrArg (List.map fun key => (ofLex key).2) same
  rwa [List.map_map, List.map_map] at keys ⊢

/-! ## Swaps -/

/-- The loop swaps two disks that differ. -/
def Displaces (drive : Int) (dp1 : DevicePath) (devices : List EfidiskData) : Prop :=
  ∃ i j d0 d1, findSwap drive dp1 0 none none devices = some (i, j) ∧
    devices[i]? = some d0 ∧ devices[j]? = some d1 ∧ d0 ≠ d1

/-- A call makes such a swap. -/
def LosesDisk (lists : DiskLists) (call : NameCall) : Prop :=
  ∃ dp1, call.parent = some dp1 ∧
    if call.isHardDisk then Displaces (call.drive - 0x80) dp1 lists.hdDevices
    else Displaces (call.drive - 0x100) dp1 lists.cdDevices

/-- The two places of a swap are different ones. -/
theorem findSwap_ne {drive : Int} {dp1 : DevicePath} {n i j : Nat} {d0 d1 : Option Nat}
    {devices : List EfidiskData} (found : findSwap drive dp1 n d0 d1 devices = some (i, j)) :
    i ≠ j := by
  induction devices generalizing n d0 d1 with
  | nil => cases found
  | cons d next ih =>
      rw [findSwap] at found
      split at found
      · split at found
        case isTrue different =>
          obtain ⟨rfl, rfl⟩ := Prod.mk.inj (Option.some.inj found)
          exact different
        case isFalse => exact ih found
      · exact ih found

/-- A swap sets the first place to the second device, and the second one to that again. -/
theorem swapDevices_eq {devices : List EfidiskData} {i j : Nat} {d0 d1 : EfidiskData}
    (first : devices[i]? = some d0) (second : devices[j]? = some d1) :
    swapDevices devices i j = (devices.set i d1).set j d1 := by
  rw [swapDevices, first, second]
  rfl

/-- Outside the list nothing is swapped. -/
theorem swapDevices_outside {devices : List EfidiskData} {i j : Nat}
    (outside : devices[i]? = none ∨ devices[j]? = none) : swapDevices devices i j = devices := by
  rw [swapDevices]
  rcases outside with first | second
  · rw [first]
  · rw [second]
    cases devices[i]? <;> rfl

/-- A swap loses the first disk unless it is the same as the second one. -/
theorem swapDevices_perm_iff {devices : List EfidiskData} {i j : Nat} {d0 d1 : EfidiskData}
    (different : i ≠ j) (first : devices[i]? = some d0) (second : devices[j]? = some d1) :
    (swapDevices devices i j).Perm devices ↔ d0 = d1 := by
  rw [swapDevices_eq first second]
  obtain ⟨insideFirst, isFirst⟩ := List.getElem?_eq_some_iff.mp first
  obtain ⟨insideSecond, isSecond⟩ := List.getElem?_eq_some_iff.mp second
  constructor
  · intro perm
    by_contra other
    -- `d0` is there once less
    have counts := perm.count_eq d0
    have some_ := List.count_pos_iff.mpr (List.mem_of_getElem? first)
    rw [List.count_set (by simpa using insideSecond), List.count_set insideFirst] at counts
    simp [isFirst, isSecond, different, Ne.symm other] at counts
    omega
  · rintro rfl
    have swapped := List.set_set_perm insideFirst insideSecond
    rwa [isFirst, isSecond] at swapped

/-- The disks of a list are kept just when none is displaced. -/
theorem assignPlace_perm_iff (drive : Int) (dp1 : DevicePath) (devices : List EfidiskData) :
    (assignPlace drive dp1 devices).Perm devices ↔ ¬ Displaces drive dp1 devices := by
  rw [assignPlace, Displaces]
  cases found : findSwap drive dp1 0 none none devices with
  | none => simp
  | some places =>
      obtain ⟨i, j⟩ := places
      cases first : devices[i]? with
      | none => simp [swapDevices_outside (Or.inl first), first]
      | some d0 =>
          cases second : devices[j]? with
          | none => simp [swapDevices_outside (Or.inr second), second]
          | some d1 => simp [swapDevices_perm_iff (findSwap_ne found) first second, first, second]

/-- All disks are kept just when the call loses none. -/
theorem assignDeviceName_perm_iff (lists : DiskLists) (call : NameCall) :
    (∀ kind, ((assignDeviceName lists call).ofKind kind).Perm (lists.ofKind kind)) ↔
      ¬ LosesDisk lists call := by
  rw [assignDeviceName, LosesDisk]
  cases found : call.parent with
  | none => simp
  | some dp1 =>
      by_cases isHardDisk : call.isHardDisk
      · have place := assignPlace_perm_iff (call.drive - 0x80) dp1 lists.hdDevices
        simp only [isHardDisk, if_true, Option.some.injEq, exists_eq_left', ← place]
        refine ⟨fun every => every .hardDisk, fun moved kind => ?_⟩
        cases kind with
        | hardDisk => exact moved
        | cdRom => exact .refl _
        | floppy => exact .refl _
      · have place := assignPlace_perm_iff (call.drive - 0x100) dp1 lists.cdDevices
        simp only [isHardDisk, Bool.false_eq_true, if_false, Option.some.injEq, exists_eq_left',
          ← place]
        refine ⟨fun every => every .cdRom, fun moved kind => ?_⟩
        cases kind with
        | hardDisk => exact .refl _
        | cdRom => exact moved
        | floppy => exact .refl _

/-! ## Runs -/

/-- Disks whose paths differ are in the same lists for every order of the handles. -/
theorem enumerateDisks_perm (enough : memory.Enough) {reported handles : List FirmwareHandle}
    (perm : reported.Perm handles) (kind : DiskKind)
    (apart : ((disksOfKind handles kind).map (·.devicePath)).Nodup) :
    (enumerateDisks memory reported).ofKind kind = (enumerateDisks memory handles).ofKind kind := by
  have among := (listsDisks enough handles kind).among
  have among' := (listsDisks enough reported kind).among
  refine eq_of_map_eq (fun p member d member' same => ?_)
    (fun d member => (disksOfKind_perm perm kind).subset (among' d member)) among
    (keys_enumerateDisks enough perm kind)
  exact List.inj_on_of_nodup_map apart member member' (EfidiskData.key_eq_iff.mp same)

/-- The disks are named right exactly if no call swaps two disks that differ. -/
theorem namesDisks_iff (enough : memory.Enough) (handles : List FirmwareHandle)
    (calls : List NameCall) :
    NamesDisks memory handles calls ↔
      Along assignDeviceName (fun lists call => ¬ LosesDisk lists call)
        (enumerateDisks memory handles) calls := by
  rw [← along_congr assignDeviceName_perm_iff]
  constructor
  · exact fun names => names.permutes
  · intro permutes
    exact ⟨fun kind => listsDisks enough handles kind,
      fun reported perm kind => paths_of_keys (keys_enumerateDisks enough perm kind),
      fun reported perm kind apart => enumerateDisks_perm enough perm kind apart, permutes⟩

/-! ## Two disks -/

/-- The path of a disk behind a PCI device. -/
def pciPath (device : UInt8) : DevicePath where
  nodes := [⟨1, 1, [0, device], by simp⟩]
  final := ⟨0x7F, 0xFF, [], by simp⟩
  ordinary := by
    intro node member
    rw [List.mem_singleton.mp member]
    simp [PathNode.endEntire]
  ends := rfl

def pciDisk (device : UInt8) : FirmwareHandle where
  handle := device.toNat
  devicePath := some (pciPath device)
  blockIo := some ⟨device.toNat, false, 0x200⟩
  diskIo := some device.toNat

def allRoom : Memory := ⟨fun _ => true, fun _ => true⟩

/-- Memory that never runs out is enough. -/
theorem enough_allRoom : allRoom.Enough := ⟨fun _ => rfl, fun _ => rfl⟩

/-- A disk is given the number that it has. -/
theorem namesDisks_first : NamesDisks allRoom [pciDisk 2, pciDisk 1] [⟨0x80, some (pciPath 1)⟩] := by
  refine (namesDisks_iff enough_allRoom _ _).mpr ⟨?_, trivial⟩
  rintro ⟨dp1, parent, displaces⟩
  obtain rfl := Option.some.inj parent
  rw [if_pos (by decide)] at displaces
  obtain ⟨i, j, d0, d1, found, -⟩ := displaces
  have none_ : findSwap (0x80 - 0x80) (pciPath 1) 0 none none
      (enumerateDisks allRoom [pciDisk 2, pciDisk 1]).hdDevices = none := by decide
  rw [none_] at found
  cases found

/-- The second disk is given the number of the first one. -/
theorem secondDisk_lost : ¬ ∀ (memory : Memory) (handles : List FirmwareHandle)
    (calls : List NameCall), memory.Enough → NamesDisks memory handles calls := by
  intro claimed
  have names := claimed allRoom [pciDisk 2, pciDisk 1] [⟨0x80, some (pciPath 2)⟩] enough_allRoom
  have moved := (along_cons.mp names.permutes).1
  refine (assignDeviceName_perm_iff _ _).mp moved ⟨pciPath 2, rfl, ?_⟩
  rw [if_pos (by decide)]
  refine ⟨0, 1, _, _, ?_, rfl, rfl, ?_⟩
  · decide
  · decide

end GrubLegacy.Efi
