import GrubLegacy.Base.Runs
import GrubLegacy.Efi.DevicePaths

/-!
# Names of disks

`make_devices` asks the firmware for its disks, `name_devices` sorts them into the lists of
hard disks, CD-ROMs and floppies, and `assign_device_name` gives a disk the number of another
one. The number of a disk is its place in its list.
-/

namespace GrubLegacy.Efi

open Base

/-! ## Disks -/

/-- The block i/o protocol of a handle, and what its media say. -/
structure BlockIo where
  interface : Nat
  readOnly : Bool
  blockSize : Nat
deriving DecidableEq

/-- A handle that supports disk i/o, with what the firmware has for it. -/
structure FirmwareHandle where
  handle : Nat
  devicePath : Option DevicePath
  blockIo : Option BlockIo
  diskIo : Option Nat

/-- `grub_efidisk_data`. The last node is that of the path. -/
structure EfidiskData where
  handle : Nat
  devicePath : DevicePath
  lastDevicePath : DevicePath
  blockIo : BlockIo
  diskIo : Nat
  last : findLastDevicePath devicePath = some lastDevicePath
deriving DecidableEq

/-- For which handles `grub_malloc` has room: for the node that `make_devices` makes, and for
the one that `add_device` makes. -/
structure Memory where
  forDevice : Nat → Bool
  forEntry : Nat → Bool

/-- What `make_devices` notes of a handle, unless it is passed over. -/
def FirmwareHandle.found (handle : FirmwareHandle) : Option EfidiskData :=
  match handle.devicePath with
  | none => none
  | some devicePath =>
      match last : findLastDevicePath devicePath with
      | none => none
      | some lastDevicePath =>
          match handle.blockIo, handle.diskIo with
          | some blockIo, some diskIo =>
              some { handle := handle.handle, devicePath, lastDevicePath, blockIo, diskIo, last }
          | _, _ => none

/-- `make_devices`: the disks of the handles, the last one first. -/
def makeDevices (memory : Memory) : List FirmwareHandle → List EfidiskData → List EfidiskData
  | [], devices => devices
  | handle :: handles, devices =>
      match handle.found with
      | none => makeDevices memory handles devices
      | some d =>
          if memory.forDevice handle.handle then makeDevices memory handles (d :: devices) else []

/-! ## Lists -/

/-- The order in which `add_device` looks for the place. -/
def compareDevices (p d : EfidiskData) : Int :=
  let ret := compareDevicePaths (findLastDevicePath p.devicePath) (findLastDevicePath d.devicePath)
  if ret = 0 then compareDevicePaths (some p.devicePath) (some d.devicePath) else ret

/-- `add_device` -/
def addDevice (memory : Memory) : List EfidiskData → EfidiskData → List EfidiskData
  | [], d => if memory.forEntry d.handle then [d] else []
  | p :: next, d =>
      let ret := compareDevices p d
      if ret = 0 then p :: next
      else if 0 < ret then if memory.forEntry d.handle then d :: p :: next else p :: next
      else p :: addDevice memory next d

/-- `hd_devices`, `cd_devices` and `fd_devices` -/
structure DiskLists where
  hdDevices : List EfidiskData
  cdDevices : List EfidiskData
  fdDevices : List EfidiskData
deriving DecidableEq

/-- The type of the last node: hardware, ACPI or messaging. -/
def EfidiskData.lastType (d : EfidiskData) : UInt8 :=
  (d.lastDevicePath.nodes.headD d.lastDevicePath.final).devicePathType

/-- A turn of the loop of `name_devices`. -/
def nameDevice (memory : Memory) (lists : DiskLists) (d : EfidiskData) : DiskLists :=
  let lists :=
    if d.lastType = 1 then { lists with hdDevices := addDevice memory lists.hdDevices d } else lists
  let lists :=
    if d.lastType = 3 then
      if d.blockIo.readOnly ∧ 0x200 < d.blockIo.blockSize then
        { lists with cdDevices := addDevice memory lists.cdDevices d }
      else { lists with hdDevices := addDevice memory lists.hdDevices d }
    else lists
  if d.lastType = 2 then { lists with fdDevices := addDevice memory lists.fdDevices d } else lists

/-- `name_devices` -/
def nameDevices (memory : Memory) (devices : List EfidiskData) (lists : DiskLists) : DiskLists :=
  devices.foldl (nameDevice memory) lists

/-- `enumerate_disks`, with the lists as they are at the start. -/
def enumerateDisks (memory : Memory) (handles : List FirmwareHandle) : DiskLists :=
  nameDevices memory (makeDevices memory handles []) ⟨[], [], []⟩

/-! ## Numbers -/

/-- What `swap_devices` leaves in `d0`: everything that `d1` has. -/
def swappedFirst (_d0 d1 : EfidiskData) : EfidiskData := d1

/-- What `swap_devices` leaves in `d1`. It is `d1` that has been saved in `tmp`, so that the paths and
protocols that it is given are its own; the handle is copied to where it points, from there. -/
def swappedSecond (_d0 d1 : EfidiskData) : EfidiskData :=
  let tmp := d1
  { handle := d1.handle
    devicePath := tmp.devicePath
    lastDevicePath := tmp.lastDevicePath
    blockIo := tmp.blockIo
    diskIo := tmp.diskIo
    last := tmp.last }

/-- The loop of `assign_device_name`, from the n-th device of the list on: which places are
swapped. -/
def findSwap (drive : Int) (dp1 : DevicePath) :
    (n : Nat) → (d0 d1 : Option Nat) → List EfidiskData → Option (Nat × Nat)
  | _, _, _, [] => none
  | n, d0, d1, d :: next =>
      let d0 := if (n : Int) = drive then some n else d0
      let d1 := if compareDevicePaths (some dp1) (some d.devicePath) = 0 then some n else d1
      match d0, d1 with
      | some i, some j => if i ≠ j then some (i, j) else findSwap drive dp1 (n + 1) d0 d1 next
      | _, _ => findSwap drive dp1 (n + 1) d0 d1 next

/-- `swap_devices`, for the devices at two places. -/
def swapDevices (devices : List EfidiskData) (i j : Nat) : List EfidiskData :=
  match devices[i]?, devices[j]? with
  | some d0, some d1 => (devices.set i (swappedFirst d0 d1)).set j (swappedSecond d0 d1)
  | _, _ => devices

/-- The loop with the swap. -/
def assignPlace (drive : Int) (dp1 : DevicePath) (devices : List EfidiskData) : List EfidiskData :=
  match findSwap drive dp1 0 none none devices with
  | some (i, j) => swapDevices devices i j
  | none => devices

/-- A call of `assign_device_name`, with the path that `get_parent_of_disk` has found for its
text, if it has found one. -/
structure NameCall where
  drive : Int
  parent : Option DevicePath

/-- `drive & 0x80` -/
def NameCall.isHardDisk (call : NameCall) : Bool := call.drive / 0x80 % 2 = 1

/-- `assign_device_name` -/
def assignDeviceName (lists : DiskLists) (call : NameCall) : DiskLists :=
  match call.parent with
  | none => lists
  | some dp1 =>
      if call.isHardDisk then
        { lists with hdDevices := assignPlace (call.drive - 0x80) dp1 lists.hdDevices }
      else { lists with cdDevices := assignPlace (call.drive - 0x100) dp1 lists.cdDevices }

/-! ## What the lists should be -/

inductive DiskKind
  | hardDisk
  | cdRom
  | floppy
deriving DecidableEq, Repr

def DiskLists.ofKind (lists : DiskLists) : DiskKind → List EfidiskData
  | .hardDisk => lists.hdDevices
  | .cdRom => lists.cdDevices
  | .floppy => lists.fdDevices

/-- The kind of a disk. -/
def EfidiskData.kind (d : EfidiskData) : Option DiskKind :=
  if d.lastType = 1 then some .hardDisk
  else if d.lastType = 3 then
    if d.blockIo.readOnly ∧ 0x200 < d.blockIo.blockSize then some .cdRom else some .hardDisk
  else if d.lastType = 2 then some .floppy
  else none

/-- The disks of a kind among these handles. -/
def disksOfKind (handles : List FirmwareHandle) (kind : DiskKind) : List EfidiskData :=
  (handles.filterMap FirmwareHandle.found).filter fun d => d.kind = some kind

/-- A list of the disks of a kind: ascending, with disks of that kind only, and each of them
once, up to equal paths. -/
structure ListsDisks (handles : List FirmwareHandle) (kind : DiskKind)
    (devices : List EfidiskData) : Prop where
  ascending : devices.Pairwise fun p d => compareDevices p d < 0
  among : ∀ d ∈ devices, d ∈ disksOfKind handles kind
  once : ∀ d ∈ disksOfKind handles kind, (devices.map (·.devicePath)).count d.devicePath = 1

/-- The lists that the handles give, in whatever order they are reported, and what calls of
`assign_device_name` do to them. -/
structure NamesDisks (memory : Memory) (handles : List FirmwareHandle) (calls : List NameCall) :
    Prop where
  lists : ∀ kind, ListsDisks handles kind ((enumerateDisks memory handles).ofKind kind)
  paths : ∀ reported, reported.Perm handles → ∀ kind,
    ((enumerateDisks memory reported).ofKind kind).map (·.devicePath) =
      ((enumerateDisks memory handles).ofKind kind).map (·.devicePath)
  same : ∀ reported, reported.Perm handles → ∀ kind,
    ((disksOfKind handles kind).map (·.devicePath)).Nodup →
      (enumerateDisks memory reported).ofKind kind = (enumerateDisks memory handles).ofKind kind
  permutes : Along assignDeviceName (fun lists call => ∀ kind,
    ((assignDeviceName lists call).ofKind kind).Perm (lists.ofKind kind))
    (enumerateDisks memory handles) calls

end GrubLegacy.Efi
