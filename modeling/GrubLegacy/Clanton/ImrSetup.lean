import GrubLegacy.Stage2.Shared

/-!
# Isolated memory regions

`intel_cln_imr_setup` of `imr.c`. The registers of a region hold the addresses of its
first and of its last block of 1 KiB. The address and the size are rounded down one by one,
and the last block is always one behind the rounded size.
-/

namespace GrubLegacy.Clanton

open Stage2

/-! ## Registers -/

/-- The registers behind the port SB_ID_ESRAM. -/
abbrev ImrRegisters := UInt8 → BitVec 32

/-- `imr_range` -/
inductive ImrRange where
  | boot
  | kernText
  | bzImage
deriving DecidableEq, Repr

/-- The addresses of the four registers of a region. -/
structure ImrAddresses where
  low : UInt8
  high : UInt8
  readMask : UInt8
  writeMask : UInt8

/-- DRAM_IMR1L and the others. -/
def dramImr1 : ImrAddresses := ⟨0x44, 0x45, 0x46, 0x47⟩

/-- DRAM_IMR7L and the others. -/
def dramImr7 : ImrAddresses := ⟨0x5C, 0x5D, 0x5E, 0x5F⟩

/-- IMR_MIN_SIZE -/
def imrMinSize : BitVec 32 := 0x400

/-- IMR_LOCK_BIT -/
def imrLockBit : BitVec 32 := 0x80000000

/-- IMR_REG_MASK -/
def imrRegMask : BitVec 32 := 0xFFFFFC

/-- IMR_WRITE_ENABLE_ALL -/
def imrWriteEnableAll : BitVec 32 := 0xFFFFFFFF

/-- IMR_READ_ENABLE_ALL -/
def imrReadEnableAll : BitVec 32 := 0xBFFFFFFF

/-- IMR_SNOOP_NON_SMM_ENABLE -/
def imrSnoopNonSmmEnable : BitVec 32 := 0x40000001

/-- IMR_NON_SMM_ENABLE -/
def imrNonSmmEnable : BitVec 32 := 0x00000001

/-! ## Programming a region -/

/-- `imr_align` -/
def imrAlign (addr : BitVec 32) : BitVec 32 := addr &&& ~~~((1#32 <<< 10) - 1)

/-- An address in the format of the registers. -/
def imrRegister (addr : BitVec 32) : BitVec 32 := (addr >>> 8) &&& imrRegMask

/-- `intel_cln_sb_write_reg` -/
def writeReg (registers : ImrRegisters) (register : UInt8) (data : BitVec 32) : ImrRegisters :=
  Function.update registers register data

def imrLocked (registers : ImrRegisters) (imr : ImrAddresses) : Prop :=
  registers imr.low &&& imrLockBit ≠ 0

instance (registers : ImrRegisters) (imr : ImrAddresses) : Decidable (imrLocked registers imr) :=
  inferInstanceAs (Decidable (_ ≠ _))

/-- A region in use is opened for all agents before its addresses change. -/
def imrDisable (imr : ImrAddresses) (registers : ImrRegisters) : ImrRegisters :=
  if registers imr.low ≠ 0 then
    writeReg (writeReg registers imr.readMask imrReadEnableAll) imr.writeMask imrWriteEnableAll
  else registers

/-- `intel_cln_imr_write`, which leaves a locked region as it is. -/
def intelClnImrWrite (loAddr hiAddr : BitVec 32) (imr : ImrAddresses) (lock : Bool)
    (registers : ImrRegisters) : ImrRegisters :=
  if imrLocked registers imr then registers
  else
    let registers := imrDisable imr registers
    let registers := writeReg registers imr.high hiAddr
    let registers := writeReg registers imr.low loAddr
    let registers := writeReg registers imr.readMask imrNonSmmEnable
    let registers := writeReg registers imr.writeMask imrSnoopNonSmmEnable
    if lock then writeReg registers imr.low (loAddr ||| imrLockBit) else registers

/-- The registers that an identifier stands for. -/
def ImrRange.addresses? : ImrRange → Option ImrAddresses
  | .boot => some dramImr1
  | .bzImage => some dramImr7
  | .kernText => none

/-- `intel_cln_imr_setup`: the registers it leaves and `errnum`. -/
def intelClnImrSetup (id : ImrRange) (addr size : BitVec 32) (registers : ImrRegisters) :
    ImrRegisters × GrubError :=
  if size < imrMinSize then (registers, .badArgument)
  else
    let imrLoAddr := imrAlign addr
    let imrHiAddr := imrAlign (imrLoAddr + imrAlign size)
    match id.addresses? with
    | some imr =>
      (intelClnImrWrite (imrRegister imrLoAddr) (imrRegister imrHiAddr) imr false registers, .none)
    | none => (registers, .badArgument)

/-! ## What the hardware protects -/

/-- The address in a register. -/
def imrAddress (register : BitVec 32) : BitVec 32 := (register &&& imrRegMask) <<< 8

/-- From the low address on, through the last byte of the block at the high address. -/
def Protected (registers : ImrRegisters) (imr : ImrAddresses) (address : Nat) : Prop :=
  (imrAddress (registers imr.low)).toNat ≤ address ∧
    address < (imrAddress (registers imr.high)).toNat + 0x400

/-- The bytes of `[addr, addr+size)`. -/
def Asked (addr size : BitVec 32) (address : Nat) : Prop :=
  addr.toNat ≤ address ∧ address < addr.toNat + size.toNat

/-- The bytes of a block of 1 KiB. -/
def InBlock (block address : Nat) : Prop := address / 0x400 = block

/-- A region protects all that was asked for, and no block apart from it, and access to it is
restricted. -/
structure Isolates (registers : ImrRegisters) (imr : ImrAddresses) (addr size : BitVec 32) :
    Prop where
  covers : ∀ address, Asked addr size address → Protected registers imr address
  tight : ∀ block, (∀ address, InBlock block address → Protected registers imr address) →
    ∃ address, InBlock block address ∧ Asked addr size address
  readMask : registers imr.readMask = imrNonSmmEnable
  writeMask : registers imr.writeMask = imrSnoopNonSmmEnable

/-- A setup that succeeds leaves a region that protects what was asked for. -/
def SetupIsolates (id : ImrRange) (addr size : BitVec 32) (registers : ImrRegisters) : Prop :=
  (intelClnImrSetup id addr size registers).2 = .none →
    ∃ imr, id.addresses? = some imr ∧
      Isolates (intelClnImrSetup id addr size registers).1 imr addr size

/-! ## Rounding -/

/-- The mask of an address keeps the bits from 10 on, -/
private theorem alignMask_bit :
    ∀ i : Fin 32, (~~~((1#32 <<< 10) - 1))[i.val] = decide (10 ≤ i.val) := by
  decide

/-- and that of a register those of an IMR. -/
private theorem imrRegMask_bit :
    ∀ i : Fin 32, imrRegMask[i.val] = decide (2 ≤ i.val ∧ i.val < 24) := by
  decide

/-- The bits that rounding keeps. -/
theorem imrAlign_getElem (addr : BitVec 32) (i : Nat) (inside : i < 32) :
    (imrAlign addr)[i] = (addr[i] && decide (10 ≤ i)) := by
  rw [imrAlign, BitVec.getElem_and, alignMask_bit ⟨i, inside⟩]

/-- An address is cut off to 1 KiB. -/
theorem imrAlign_eq (addr : BitVec 32) : imrAlign addr = (addr >>> 10) <<< 10 := by
  ext i inside
  rw [imrAlign_getElem]
  by_cases low : i < 10
  · simp [low]
  · have place : 10 + (i - 10) = i := by omega
    simp [low, place, Nat.le_of_not_lt low, inside]

/-- An address is rounded down to its block. -/
theorem imrAlign_toNat (addr : BitVec 32) :
    (imrAlign addr).toNat = addr.toNat / 0x400 * 0x400 := by
  have small := addr.isLt
  rw [imrAlign_eq, BitVec.toNat_shiftLeft, BitVec.toNat_ushiftRight, Nat.shiftLeft_eq,
    Nat.shiftRight_eq_div_pow]
  omega

/-- The format of the registers keeps the block of an address. -/
@[simp]
theorem imrAddress_imrRegister (addr : BitVec 32) :
    imrAddress (imrRegister addr) = imrAlign addr := by
  ext i inside
  rw [imrAlign_getElem]
  by_cases low : i < 8
  · have below : ¬ 10 ≤ i := by omega
    simp [imrAddress, low, below]
  · have place : 8 + (i - 8) = i := by omega
    have kept : (2 ≤ i - 8 ∧ i - 8 < 24) ↔ 10 ≤ i := by omega
    simp [imrAddress, imrRegister, imrRegMask_bit ⟨i - 8, by omega⟩, low, place, kept, inside]

/-! ## The registers after a setup -/

section

variable {imr : ImrAddresses} {registers : ImrRegisters} {addr size : BitVec 32}

/-- The registers of a region are four. -/
def ImrAddresses.Distinct (imr : ImrAddresses) : Prop :=
  [imr.low, imr.high, imr.readMask, imr.writeMask].Nodup

instance (imr : ImrAddresses) : Decidable imr.Distinct := inferInstanceAs (Decidable (List.Nodup _))

/-- The registers of an IMR are different ones. -/
theorem ImrRange.distinct {id : ImrRange} (isImr : id.addresses? = some imr) : imr.Distinct := by
  cases id with
  | boot =>
      obtain rfl := Option.some.inj isImr
      decide
  | bzImage =>
      obtain rfl := Option.some.inj isImr
      decide
  | kernText => cases isImr

/-- What the registers of a region hold. -/
structure Programmed (registers : ImrRegisters) (imr : ImrAddresses) (loAddr hiAddr : BitVec 32) :
    Prop where
  low : registers imr.low = loAddr
  high : registers imr.high = hiAddr
  readMask : registers imr.readMask = imrNonSmmEnable
  writeMask : registers imr.writeMask = imrSnoopNonSmmEnable

/-- A region that is not locked is programmed, whatever its registers held. -/
theorem intelClnImrWrite_programmed {loAddr hiAddr : BitVec 32} (distinct : imr.Distinct)
    (unlocked : ¬ imrLocked registers imr) :
    Programmed (intelClnImrWrite loAddr hiAddr imr false registers) imr loAddr hiAddr := by
  simp only [ImrAddresses.Distinct, List.nodup_cons, List.mem_cons, not_or] at distinct
  obtain ⟨⟨highOther, readOther, writeOther, -⟩, ⟨readHigh, writeHigh, -⟩, ⟨masks, -⟩, -⟩ := distinct
  rw [intelClnImrWrite, if_neg unlocked]
  constructor
  · simp [writeReg, readOther, writeOther]
  · simp [writeReg, readHigh, writeHigh, Ne.symm highOther]
  · simp [writeReg, masks]
  · simp [writeReg]

/-- From the first rounded address to the end of the block behind the rounded size. -/
theorem Programmed.protected_iff
    (programmed : Programmed registers imr (imrRegister (imrAlign addr))
      (imrRegister (imrAlign (imrAlign addr + imrAlign size))))
    (room : addr.toNat + size.toNat < 2 ^ 32) (address : Nat) :
    Protected registers imr address ↔
      addr.toNat / 0x400 * 0x400 ≤ address ∧
        address < (addr.toNat / 0x400 + size.toNat / 0x400 + 1) * 0x400 := by
  have low : (imrAlign (imrAlign addr)).toNat = addr.toNat / 0x400 * 0x400 := by
    rw [imrAlign_toNat, imrAlign_toNat]
    omega
  have high : (imrAlign (imrAlign (imrAlign addr + imrAlign size))).toNat =
      (addr.toNat / 0x400 + size.toNat / 0x400) * 0x400 := by
    rw [imrAlign_toNat, imrAlign_toNat, BitVec.toNat_add, imrAlign_toNat, imrAlign_toNat]
    omega
  rw [Protected, programmed.low, programmed.high, imrAddress_imrRegister, imrAddress_imrRegister,
    low, high]
  omega

/-- The two remainders have to make up some part of one block. -/
theorem Programmed.isolates_iff
    (programmed : Programmed registers imr (imrRegister (imrAlign addr))
      (imrRegister (imrAlign (imrAlign addr + imrAlign size))))
    (room : addr.toNat + size.toNat < 2 ^ 32) (some_ : 0x400 ≤ size.toNat) :
    Isolates registers imr addr size ↔
      0 < addr.toNat % 0x400 + size.toNat % 0x400 ∧
        addr.toNat % 0x400 + size.toNat % 0x400 ≤ 0x400 := by
  have range := programmed.protected_iff room
  constructor
  · intro isolates
    constructor
    · -- The block behind the rounded size is protected, so it has to be asked for.
      obtain ⟨address, inside, _, last⟩ := isolates.tight (addr.toNat / 0x400 + size.toNat / 0x400)
        fun address inside => by
          rw [InBlock] at inside
          rw [range]
          omega
      rw [InBlock] at inside
      omega
    · have covered := isolates.covers (addr.toNat + size.toNat - 1) ⟨by omega, by omega⟩
      rw [range] at covered
      omega
  · rintro ⟨part, fits⟩
    refine ⟨?_, ?_, programmed.readMask, programmed.writeMask⟩
    · rintro address ⟨first, last⟩
      rw [range]
      omega
    · intro block inside
      have first := (range _).mp (inside (block * 0x400) (by rw [InBlock]; omega))
      refine ⟨max (block * 0x400) addr.toNat, ?_, ?_, ?_⟩
      · rw [InBlock]
        omega
      · omega
      · omega

end

/-- What keeps the setup of a region sound: a locked one protects what is asked for already,
and for another one the remainders of the address and of the size by 1 KiB make up more than
nothing, and no more than one block. -/
def SetupFits (id : ImrRange) (addr size : BitVec 32) (registers : ImrRegisters) : Prop :=
  imrMinSize ≤ size → ∀ imr, id.addresses? = some imr →
    (imrLocked registers imr → Isolates registers imr addr size) ∧
      (¬ imrLocked registers imr →
        0 < addr.toNat % 0x400 + size.toNat % 0x400 ∧
          addr.toNat % 0x400 + size.toNat % 0x400 ≤ 0x400)

/-- A setup that succeeds protects what was asked for, and no other block, just if the region
is not locked with something else and the remainders fit. -/
theorem intelClnImrSetup_isolates_iff (id : ImrRange) (addr size : BitVec 32)
    (registers : ImrRegisters) (room : addr.toNat + size.toNat < 2 ^ 32) :
    SetupIsolates id addr size registers ↔ SetupFits id addr size registers := by
  rw [SetupIsolates, SetupFits, intelClnImrSetup]
  by_cases small : size < imrMinSize
  · rw [if_pos small]
    exact ⟨fun _ large => absurd large (BitVec.not_le.mpr small), fun _ failed => nomatch failed⟩
  · have large := BitVec.not_lt.mp small
    have some_ : 0x400 ≤ size.toNat := large
    rw [if_neg small]
    cases isImr : id.addresses? with
    | none => simp
    | some imr =>
        by_cases locked : imrLocked registers imr
        · simp [locked, large, intelClnImrWrite]
        · have programmed := @intelClnImrWrite_programmed imr registers (imrRegister (imrAlign addr))
            (imrRegister (imrAlign (imrAlign addr + imrAlign size))) (ImrRange.distinct isImr) locked
          simp [locked, large, programmed.isolates_iff room some_]

/-- One block and a half from the middle of a block on. -/
theorem intelClnImrSetup_isolates_half :
    SetupIsolates .bzImage 0x100200 0x600 (fun _ => 0) :=
  (intelClnImrSetup_isolates_iff .bzImage 0x100200 0x600 (fun _ => 0) (by decide)).mpr (by
    rintro - imr -
    exact ⟨fun locked => absurd (rfl : (0 : BitVec 32) &&& imrLockBit = 0) locked,
      fun _ => by decide⟩)

/-- One block at the start of a block: the next one is protected too. -/
theorem intelClnImrSetup_not_isolates :
    ¬ ∀ id addr size registers, addr.toNat + size.toNat < 2 ^ 32 →
      SetupIsolates id addr size registers := by
  intro isolates
  have fits := (intelClnImrSetup_isolates_iff .boot 0x100000 0x400 (fun _ => 0) (by decide)).mp
    (isolates .boot 0x100000 0x400 (fun _ => 0) (by decide)) (by decide) dramImr1 rfl
  exact absurd (fits.2 (fun locked => locked rfl)).1 (by decide)

end GrubLegacy.Clanton
