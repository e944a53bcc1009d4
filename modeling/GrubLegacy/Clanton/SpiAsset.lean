import GrubLegacy.Base.MachineInt
import GrubLegacy.Clanton.Asset

/-!
# Assets in the flash

The items of the flash that `asset.c` opens, and where it reads them. The check of an
item's length adds the size of the security header, but reads begin behind a header of
a fixed length, and a signed item can be opened without that check.
-/

namespace GrubLegacy.Clanton

open Base Stage2

/-! ## The master flash header -/

/-- GRUB_CLN_MFH_IDENTIFIER -/
def mfhIdentifier : Nat := 0x5F4D4648

/-- `struct grub_cln_mfh_item` -/
structure MfhItem where
  type : Nat
  flashItemAddr : Address
  flashItemLen : Nat
deriving DecidableEq

/-- The item at an offset in `cln_mfh`. -/
def mfhItem (mfh : Memory) (offset : Nat) : MfhItem :=
  { type := loadWord mfh (BitVec.ofNat 32 offset)
    flashItemAddr := BitVec.ofNat 32 (loadWord mfh (BitVec.ofNat 32 (offset + 4)))
    flashItemLen := loadWord mfh (BitVec.ofNat 32 (offset + 8)) }

/-- The search for an item of a type. -/
def findMfhItem (mfh : Memory) (entryType : Nat) : (count offset : Nat) → Option MfhItem
  | 0, _ => none
  | count + 1, offset =>
    if (mfhItem mfh offset).type = entryType then some (mfhItem mfh offset)
    else findMfhItem mfh entryType count (offset + 0x10)

/-- `grub_cln_mfh_entry_lookup`, with the bytes from `cln_mfh` on: the item, and `errnum`. -/
def grubClnMfhEntryLookup (mfh : Memory) (entryType : Nat) (errnum : GrubError) :
    Option MfhItem × GrubError :=
  if loadWord mfh 0 ≠ mfhIdentifier then (none, .execFormat)
  else
    match findMfhItem mfh entryType (loadWord mfh 0x010) (0x018 + 4 * loadWord mfh 0x014) with
    | some item => (some item, errnum)
    | none => (none, .fileNotFound)

/-! ## Opening -/

/-- What can be opened in the flash. -/
inductive SpiType where
  | kernel
  | initrd
  | config
deriving DecidableEq, Repr

/-- CLN_MFH_ITEM_TYPE_KERNEL and the others. -/
def SpiType.unsigned : SpiType → Nat
  | .kernel => 0x10
  | .initrd => 0x12
  | .config => 0x0D

/-- CLN_MFH_ITEM_TYPE_KERNEL_SIGNED and the others. -/
def SpiType.signed : SpiType → Nat
  | .kernel => 0x11
  | .initrd => 0x13
  | .config => 0x0E

/-- The least size of an item: a kernel has a `struct linux_kernel_header`. -/
def SpiType.minSize : SpiType → Nat
  | .kernel => 0x23C
  | .initrd => 0
  | .config => 0

/-- `grub_cln_secure` and `grub_cln_linux_spi`; the latter is set where a kernel is taken
from the flash. -/
structure SpiMode where
  secure : Bool
  linuxSpi : Bool

/-- `cln_flash_item_addr`, `cln_flash_item_len`, `spi_offs_intra_module` and `skip_csbh`. -/
structure SpiState where
  flashItemAddr : Address
  flashItemLen : Nat
  offsIntraModule : Nat
  skipCsbh : Bool
deriving DecidableEq

/-- The item that was looked up, if there is one. -/
def SpiState.point (state : SpiState) : Option MfhItem → SpiState
  | none => state
  | some item =>
    { state with flashItemAddr := item.flashItemAddr, flashItemLen := item.flashItemLen }

/-- SPI_CSBH_OFFS_HARDCODED -/
def csbhOffs : Nat := 0x400

/-- What is skipped at the beginning of an item. -/
def SpiState.skipped (secure : Bool) (state : SpiState) : Nat :=
  if secure || state.skipCsbh then csbhOffs else 0

/-- `cln_flash_item_is_sane` -/
def clnFlashItemIsSane (secure : Bool) (minSize : Nat) (state : SpiState) : Bool :=
  !(state.flashItemLen < minSize + (if secure then sbhSize else 0) ||
    (state.flashItemAddr.toNat + state.flashItemLen) % 2 ^ 32 < state.flashItemAddr.toNat)

/-- The lookups of `spi_open`: without the secure mode a signed item is taken where there is
no unsigned one. -/
def lookupAsset (secure : Bool) (type : SpiType) (mfh : Memory) (errnum : GrubError)
    (state : SpiState) : SpiState × GrubError :=
  let (item, errnum) :=
    grubClnMfhEntryLookup mfh (if secure then type.signed else type.unsigned) errnum
  let state := { state.point item with offsIntraModule := 0, skipCsbh := false }
  if !secure && errnum = .fileNotFound then
    let (item, errnum) := grubClnMfhEntryLookup mfh type.signed .none
    ({ state.point item with skipCsbh := errnum = .none }, errnum)
  else (state, errnum)

/-- `spi_open`, which opens the item just if `errnum` is ERR_NONE in the end. -/
def spiOpen (secure : Bool) (type : SpiType) (mfh : Memory) (errnum : GrubError)
    (state : SpiState) : SpiState × GrubError :=
  let (state, errnum) := lookupAsset secure type mfh errnum state
  let errnum :=
    if errnum = .none ∧ clnFlashItemIsSane secure type.minSize state = false then .filelength
    else errnum
  ({ state with offsIntraModule := state.skipped secure }, errnum)

/-! ## Reading -/

/-- `grub_cln_asset_size` -/
def grubClnAssetSize (secure : Bool) (state : SpiState) : Int :=
  toInt32 (toInt32 state.flashItemLen - state.skipped secure)

/-- `grub_cln_asset_seek`, which looks where kernels come from. -/
def grubClnAssetSeek (mode : SpiMode) (offset : Nat) (state : SpiState) : SpiState :=
  if mode.linuxSpi then
    { state with offsIntraModule := (offset + state.skipped mode.secure) % 2 ^ 32 }
  else state

/-- `grub_cln_asset_read`: the state it leaves, where it reads and how much. -/
def grubClnAssetRead (len : Nat) (state : SpiState) : SpiState × Address × Nat :=
  ({ state with offsIntraModule := (state.offsIntraModule + len) % 2 ^ 32 },
    state.flashItemAddr + BitVec.ofNat 32 state.offsIntraModule, len)

/-- What is done with an open asset. -/
inductive AssetOp where
  | seek (offset : Nat)
  | read (len : Nat)

/-- The reads of the flash. -/
def assetReads (mode : SpiMode) : SpiState → List AssetOp → List (Address × Nat)
  | _, [] => []
  | state, .seek offset :: ops => assetReads mode (grubClnAssetSeek mode offset state) ops
  | state, .read len :: ops =>
    (grubClnAssetRead len state).2 :: assetReads mode (grubClnAssetRead len state).1 ops

/-- Each read ends within the size of the asset, counted from where the last seek went. -/
def WithinAsset (size : Int) : (position : Nat) → List AssetOp → Prop
  | _, [] => True
  | _, .seek offset :: ops => WithinAsset size offset ops
  | position, .read len :: ops =>
    (position + len : Nat) ≤ size ∧ WithinAsset size (position + len) ops

/-- Some bytes lie in the item. -/
def SpiState.holds (state : SpiState) (read : Address × Nat) : Prop :=
  ∀ address, InRegion read.1 read.2 address →
    InRegion state.flashItemAddr state.flashItemLen address

/-- The size of an open asset is not negative, and what is read within it, and of its
security header, lies in the item. -/
structure AssetBounded (mode : SpiMode) (state : SpiState) : Prop where
  size : 0 ≤ grubClnAssetSize mode.secure state
  reads : ∀ ops, WithinAsset (grubClnAssetSize mode.secure state) 0 ops →
    ∀ read ∈ assetReads mode state ops, state.holds read
  header : state.holds (state.flashItemAddr, sbhSize)

/-- The item is long enough for what is skipped and for a security header, what is behind
has a size that is an `int`; and seeking works, or there is nothing to read. -/
structure ItemFits (mode : SpiMode) (state : SpiState) : Prop where
  skips : state.skipped mode.secure ≤ state.flashItemLen
  small : state.flashItemLen - state.skipped mode.secure < 2 ^ 31
  header : sbhSize ≤ state.flashItemLen
  seeks : mode.linuxSpi = true ∨ state.flashItemLen = state.skipped mode.secure

section Bounds

variable {mode : SpiMode} {type : SpiType} {mfh : Memory} {errnum : GrubError}
  {state opened : SpiState}

/-- The length of an item is a 32-bit number, -/
theorem mfhItem_len_lt (offset : Nat) : (mfhItem mfh offset).flashItemLen < 2 ^ 32 :=
  loadWord_lt _ _

/-- also of one that is found -/
theorem findMfhItem_len_lt {entryType count offset : Nat} {item : MfhItem}
    (found : findMfhItem mfh entryType count offset = some item) :
    item.flashItemLen < 2 ^ 32 := by
  induction count generalizing offset with
  | zero => cases found
  | succ count inductionHypothesis =>
      rw [findMfhItem] at found
      split at found
      · rw [← Option.some.inj found]
        exact mfhItem_len_lt offset
      · exact inductionHypothesis found

/-- A lookup without an error has found its item. -/
theorem lookup_len_lt {entryType : Nat}
    (found : (grubClnMfhEntryLookup mfh entryType errnum).2 = .none) :
    (state.point (grubClnMfhEntryLookup mfh entryType errnum).1).flashItemLen < 2 ^ 32 := by
  rw [grubClnMfhEntryLookup] at found ⊢
  split at found
  · cases found
  next identified =>
    rw [if_neg identified]
    cases isItem : findMfhItem mfh entryType (loadWord mfh 0x010)
        (0x018 + 4 * loadWord mfh 0x014) with
    | none =>
        rw [isItem] at found
        cases found
    | some item => exact findMfhItem_len_lt isItem

/-- or looked up. -/
theorem lookupAsset_len_lt {secure : Bool}
    (found : (lookupAsset secure type mfh errnum state).2 = .none) :
    (lookupAsset secure type mfh errnum state).1.flashItemLen < 2 ^ 32 := by
  rw [lookupAsset] at found ⊢
  generalize (if secure then type.signed else type.unsigned) = entryType at found ⊢
  dsimp only at found ⊢
  by_cases missing : (!secure &&
      decide ((grubClnMfhEntryLookup mfh entryType errnum).2 = .fileNotFound)) = true
  · rw [if_pos missing] at found ⊢
    exact lookup_len_lt found
  · rw [if_neg missing] at found ⊢
    exact lookup_len_lt found

/-- What is known of an item that `spi_open` accepts. -/
theorem spiOpen_opened (opens : spiOpen mode.secure type mfh errnum state = (opened, .none)) :
    opened.flashItemLen < 2 ^ 32 ∧ opened.offsIntraModule = opened.skipped mode.secure ∧
      type.minSize + (if mode.secure then sbhSize else 0) ≤ opened.flashItemLen := by
  rw [spiOpen] at opens
  dsimp only at opens
  obtain ⟨rfl, found⟩ := Prod.mk.inj opens
  split at found
  · cases found
  next sane =>
    refine ⟨lookupAsset_len_lt found, rfl, ?_⟩
    have isSane : clnFlashItemIsSane mode.secure type.minSize
        (lookupAsset mode.secure type mfh errnum state).1 = true := by
      simpa [found] using sane
    simp only [clnFlashItemIsSane, Bool.not_eq_true', Bool.or_eq_false_iff,
      decide_eq_false_iff_not, Nat.not_lt] at isSane
    exact isSane.1

/-- The size is what is behind the skipped bytes, if that is an `int`. -/
theorem grubClnAssetSize_eq {secure : Bool} (len : state.flashItemLen < 2 ^ 32) :
    0 ≤ grubClnAssetSize secure state ↔
      state.skipped secure ≤ state.flashItemLen ∧
        state.flashItemLen - state.skipped secure < 2 ^ 31 := by
  have few : state.skipped secure ≤ 0x400 := by
    rw [SpiState.skipped]
    split <;> decide
  rw [grubClnAssetSize, toInt32, toInt32]
  omega

/-- The size is the length behind what is skipped, if there is so much. -/
theorem grubClnAssetSize_of_fits {secure : Bool} (skips : state.skipped secure ≤ state.flashItemLen)
    (small : state.flashItemLen - state.skipped secure < 2 ^ 31) :
    grubClnAssetSize secure state = (state.flashItemLen - state.skipped secure : Nat) := by
  have few : state.skipped secure ≤ 0x400 := by
    rw [SpiState.skipped]
    split <;> decide
  rw [grubClnAssetSize, toInt32, toInt32]
  omega

/-- Bytes at a distance from the start lie in the item just if they end in it. -/
theorem holds_iff {distance len : Nat} (some_ : 0 < len) (small : distance < 2 ^ 32)
    (room : state.flashItemLen < 2 ^ 32) :
    state.holds (state.flashItemAddr + BitVec.ofNat 32 distance, len) ↔
      distance + len ≤ state.flashItemLen :=
  within_iff some_ small room

/-- Every item holds no bytes. -/
theorem holds_nothing (address : Address) : state.holds (address, 0) :=
  fun _ inside => absurd inside (Nat.not_lt_zero _)

/-- Seeking changes the cursor only. -/
theorem assetReads_holds_seek {offset : Nat} {read : Address × Nat} :
    (grubClnAssetSeek mode offset state).holds read ↔ state.holds read := by
  rw [grubClnAssetSeek]
  split
  · rfl
  · rfl

/-- A seek leaves what is skipped -/
theorem skipped_seek {secure : Bool} {offset : Nat} :
    (grubClnAssetSeek mode offset state).skipped secure = state.skipped secure := by
  rw [grubClnAssetSeek]
  split
  · rfl
  · rfl

/-- and the length. -/
theorem len_seek {offset : Nat} :
    (grubClnAssetSeek mode offset state).flashItemLen = state.flashItemLen := by
  rw [grubClnAssetSeek]
  split
  · rfl
  · rfl

/-- With seeks that work the cursor is where it should be. -/
theorem reads_hold {ops : List AssetOp} {position : Nat} (seeks : mode.linuxSpi = true)
    (room : state.flashItemLen < 2 ^ 32)
    (skips : state.skipped mode.secure ≤ state.flashItemLen)
    (cursor : state.offsIntraModule = (position + state.skipped mode.secure) % 2 ^ 32)
    (within : WithinAsset (state.flashItemLen - state.skipped mode.secure : Nat) position ops) :
    ∀ read ∈ assetReads mode state ops, state.holds read := by
  induction ops generalizing state position with
  | nil => nofun
  | cons op ops inductionHypothesis =>
      cases op with
      | seek offset =>
          intro read member
          have moved : (grubClnAssetSeek mode offset state).offsIntraModule =
              (offset + (grubClnAssetSeek mode offset state).skipped mode.secure) % 2 ^ 32 := by
            rw [skipped_seek, grubClnAssetSeek, if_pos seeks]
          have held := @inductionHypothesis (grubClnAssetSeek mode offset state) offset
            (by rw [len_seek]; exact room) (by rw [len_seek, skipped_seek]; exact skips) moved
            (by rw [len_seek, skipped_seek]; exact within) read member
          exact assetReads_holds_seek.mp held
      | read len =>
          obtain ⟨fits, within⟩ := within
          have fits := Int.ofNat_le.mp fits
          intro read member
          rcases List.mem_cons.mp member with rfl | member
          · rcases Nat.eq_zero_or_pos len with rfl | some_
            · exact holds_nothing _
            · refine (holds_iff some_ ?_ room).mpr ?_
              · rw [cursor]
                exact Nat.mod_lt _ (by decide)
              · rw [cursor, Nat.mod_eq_of_lt (by omega)]
                omega
          · refine @inductionHypothesis (grubClnAssetRead len state).1 (position + len) room skips ?_
              within read member
            change (state.offsIntraModule + len) % 2 ^ 32 =
              (position + len + state.skipped mode.secure) % 2 ^ 32
            rw [cursor]
            omega

/-- Nothing is read of an empty asset. -/
theorem reads_nothing {ops : List AssetOp} {position : Nat} (within : WithinAsset 0 position ops) :
    ∀ read ∈ assetReads mode state ops, read.2 = 0 := by
  induction ops generalizing state position with
  | nil => nofun
  | cons op ops inductionHypothesis =>
      cases op with
      | seek offset => exact inductionHypothesis within
      | read len =>
          obtain ⟨fits, within⟩ := within
          intro read member
          rcases List.mem_cons.mp member with rfl | member
          · change len = 0
            omega
          · exact inductionHypothesis within read member

end Bounds

/-- An asset that is opened in the flash is read within its item just if the item is long
enough, its size is an `int`, and seeking works or there is nothing to read. -/
theorem spiOpen_bounded_iff {mode : SpiMode} {type : SpiType} {mfh : Memory} {errnum : GrubError}
    {state opened : SpiState} (opens : spiOpen mode.secure type mfh errnum state = (opened, .none)) :
    AssetBounded mode opened ↔ ItemFits mode opened := by
  obtain ⟨room, cursor, _⟩ := spiOpen_opened opens
  constructor
  · intro bounded
    obtain ⟨skips, small⟩ := (grubClnAssetSize_eq room).mp bounded.size
    have header : sbhSize ≤ opened.flashItemLen := by
      have start : opened.flashItemAddr = opened.flashItemAddr + BitVec.ofNat 32 0 :=
        (BitVec.add_zero _).symm
      have held := bounded.header
      rw [start] at held
      have fits := (holds_iff (by decide) (by decide) room).mp held
      omega
    refine ⟨skips, small, header, ?_⟩
    by_contra stuck
    obtain ⟨noSeek, nonempty⟩ := not_or.mp stuck
    -- the whole asset, and then its first byte again
    have within : WithinAsset (grubClnAssetSize mode.secure opened) 0
        [.read (opened.flashItemLen - opened.skipped mode.secure), .seek 0, .read 1] := by
      rw [grubClnAssetSize_of_fits skips small]
      exact ⟨by omega, by omega, trivial⟩
    have stays : grubClnAssetSeek mode 0 (grubClnAssetRead
        (opened.flashItemLen - opened.skipped mode.secure) opened).1 =
          (grubClnAssetRead (opened.flashItemLen - opened.skipped mode.secure) opened).1 :=
      if_neg noSeek
    have after : (opened.offsIntraModule + (opened.flashItemLen - opened.skipped mode.secure)) %
        2 ^ 32 = opened.flashItemLen := by
      rw [cursor, Nat.add_sub_cancel' skips, Nat.mod_eq_of_lt room]
    have held := bounded.reads _ within
      (opened.flashItemAddr + BitVec.ofNat 32 opened.flashItemLen, 1) (by
        rw [assetReads, assetReads, stays, assetReads]
        refine List.mem_cons_of_mem _ (List.mem_cons.mpr (.inl ?_))
        change _ = (opened.flashItemAddr + BitVec.ofNat 32 ((opened.offsIntraModule +
          (opened.flashItemLen - opened.skipped mode.secure)) % 2 ^ 32), 1)
        rw [after])
    have fits := (holds_iff Nat.zero_lt_one room room).mp held
    omega
  · intro fits
    have size := grubClnAssetSize_of_fits fits.skips fits.small
    refine ⟨by rw [size]; exact Int.natCast_nonneg _, fun ops within => ?_, ?_⟩
    · rw [size] at within
      rcases fits.seeks with seeks | empty
      · refine reads_hold seeks room fits.skips ?_ within
        rw [cursor, Nat.zero_add, Nat.mod_eq_of_lt (Nat.lt_of_le_of_lt fits.skips room)]
      · intro read member
        rw [empty, Nat.sub_self] at within
        have nothing := reads_nothing within read member
        obtain ⟨address, len⟩ := read
        obtain rfl : len = 0 := nothing
        exact holds_nothing address
    · have start : opened.flashItemAddr = opened.flashItemAddr + BitVec.ofNat 32 0 :=
        (BitVec.add_zero _).symm
      rw [start]
      exact (holds_iff (by decide) (by decide) room).mpr (by have := fits.header; omega)

/-- A master flash header with one item at 0xFFF00000, of less than 64 KiB. -/
def oneItemMfh (type lenLow lenHigh : UInt8) : Memory := fun address =>
  ([0x48, 0x46, 0x4D, 0x5F, 0, 0, 0, 0, 0, 0, 0, 0, 0, 0, 0, 0, 1, 0, 0, 0, 0, 0, 0, 0,
    type, 0, 0, 0, 0, 0, 0xF0, 0xFF, lenLow, lenHigh, 0, 0] : List UInt8).getD address.toNat 0

/-- Nothing was opened before. -/
def closedSpi : SpiState := ⟨0, 0, 0, false⟩

/-- A kernel of a page. -/
theorem spiOpen_bounded_page :
    AssetBounded ⟨false, true⟩ ⟨0xFFF00000, 0x1000, 0, false⟩ :=
  (spiOpen_bounded_iff (by decide +kernel :
    spiOpen false .kernel (oneItemMfh 0x10 0x00 0x10) .none closedSpi =
      (⟨0xFFF00000, 0x1000, 0, false⟩, .none))).mpr
    ⟨by decide, by decide, by decide, .inl rfl⟩

/-- A signed initrd of 512 bytes, without the secure mode. -/
theorem spiOpen_unbounded :
    ¬ ∀ opened, spiOpen false .initrd (oneItemMfh 0x13 0x00 0x02) .none closedSpi =
      (opened, .none) → AssetBounded ⟨false, true⟩ opened := by
  intro bounded
  have opens : spiOpen false .initrd (oneItemMfh 0x13 0x00 0x02) .none closedSpi =
      (⟨0xFFF00000, 0x200, 0x400, true⟩, .none) := by
    decide +kernel
  exact absurd (bounded _ opens).size (by decide)

end GrubLegacy.Clanton
