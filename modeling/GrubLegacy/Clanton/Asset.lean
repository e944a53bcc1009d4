import GrubLegacy.Base.FlatMemory
import GrubLegacy.Stage2.Shared

/-!
# Assets

What `grub_cln_asset_open` gives, whether the asset is a file or an item of the
flash, and `grub_cln_fetch_sbh` on it. The boot ROM that checks signatures is a
parameter.
-/

namespace GrubLegacy.Clanton

open Base Stage2

/-- What is read here of a `struct grub_cln_sbh_security_hdr`. -/
structure SecurityHeader where
  magicNumber : Nat
  moduleSize : Nat
  headerLen : Nat
deriving DecidableEq, Repr

def securityHeader (memory : Memory) (address : Address) : SecurityHeader :=
  { magicNumber := loadWord memory address
    moduleSize := loadWord memory (address + 0x008)
    headerLen := loadWord memory (address + 0x020) }

/-- GRUB_CLN_SBH_MAGIC_NUMBER, "_CSH" in ASCII. -/
def sbhMagicNumber : Nat := 0x5F435348

/-- The size of a `struct grub_cln_sbh`. -/
def sbhSize : Nat := 0x24C

/-- The size of `cfg_buffer`. -/
def cfgBufferSize : Nat := 0x2000

/-- A file that can be opened: its bytes, whose number is an `int`, and whether
reading them works. -/
structure Asset where
  content : List UInt8
  readable : Bool
  sized : content.length < 2 ^ 31

/-- `grub_read` at the start of the file; nothing is delivered when it fails. -/
def Asset.read (asset : Asset) (len : Nat) : List UInt8 :=
  if asset.readable then asset.content.take len else []

/-- `IAROM_validate_module`: its verdict on the module at an address, and how many
bytes from there on the header of the module makes it authenticate. The verdict
depends on the header and on those bytes only. -/
structure SecureRom where
  validate : Memory → Address → Bool
  extent : SecurityHeader → Nat
  validate_congr : ∀ memory memory' address,
    (∀ a, InRegion address sbhSize a ∨
      InRegion address (extent (securityHeader memory address)) a → memory' a = memory a) →
    validate memory' address = validate memory address

/-- An asset that `grub_cln_asset_open` opened. `size` is `grub_cln_asset_size`;
`stored` and `delivered` are what `grub_cln_asset_read` puts into memory for a
length and what it returns, with an error too. -/
structure OpenAsset where
  content : List UInt8
  size : Int
  stored : Nat → List UInt8
  delivered : Nat → Int
  sized : 0 ≤ size → size = content.length
  within : ∀ len, (stored len).length ≤ len
  whole : ∀ len, delivered len = len → (stored len).length = len
  genuine : ∀ len ≤ content.length, delivered len = len → stored len = content.take len

/-- The file of an asset, as an open asset. -/
def Asset.opened (asset : Asset) : OpenAsset where
  content := asset.content
  size := asset.content.length
  stored := asset.read
  delivered len := (asset.read len).length
  sized _ := rfl
  within len := by
    rw [Asset.read]
    split
    · exact List.length_take_le _ _
    · exact Nat.zero_le _
  whole _ delivered := Int.ofNat_inj.mp delivered
  genuine len fits delivered := by
    have whole : (asset.read len).length = len := Int.ofNat_inj.mp delivered
    rw [Asset.read] at whole ⊢
    split
    · rfl
    · next unread =>
        rw [if_neg unread] at whole
        obtain rfl : 0 = len := whole
        rfl

/-- The bytes that reading the security header stores; nothing without the asset. -/
def headerBytes (header : Option OpenAsset) : List UInt8 :=
  match header with
  | none => []
  | some header => header.stored sbhSize

/-- The memory after the security header was read to `csbh`. -/
def withSbh (header : Option OpenAsset) (memory : Memory) (csbh : Address) : Memory :=
  store memory csbh (headerBytes header)

/-- `grub_cln_fetch_sbh`: its verdict. What it leaves in memory is `withSbh`. -/
def fetchesSbh (header : Option OpenAsset) (memory : Memory) (csbh : Address) : Bool :=
  match header with
  | none => false
  | some asset =>
    if asset.delivered sbhSize ≠ sbhSize then false
    else (securityHeader (withSbh header memory csbh) csbh).magicNumber = sbhMagicNumber

/-- The header is read to its own place and no further. -/
theorem headerBytes_length (header : Option OpenAsset) :
    (headerBytes header).length ≤ sbhSize := by
  cases header with
  | none => exact Nat.zero_le _
  | some header => exact header.within sbhSize

/-- A fetched header is there in full. -/
theorem headerBytes_whole {header : Option OpenAsset} {memory : Memory} {csbh : Address}
    (fetches : fetchesSbh header memory csbh = true) : (headerBytes header).length = sbhSize := by
  cases header with
  | none => cases fetches
  | some header =>
      rw [fetchesSbh] at fetches
      by_cases delivered : header.delivered sbhSize = sbhSize
      · exact header.whole sbhSize delivered
      · rw [if_pos delivered] at fetches
        cases fetches

end GrubLegacy.Clanton
