import GrubLegacy.Clanton.LoadConfig

/-!
# Where the configuration comes from

`grub_cln_load_config_file` of `boot_settings.c`: the external mass storage first,
then the flash.
-/

namespace GrubLegacy.Clanton

open Base Stage2

/-- What a call of `grub_cln_load_config_file` finds: whether `set_device ("(hd0,0)")`
takes the name, `errnum` after `open_device`, whether the device GRUB was loaded
from is among the disks, and the two media. -/
structure BootMedia where
  deviceSet : Bool
  deviceErrnum : GrubError
  bootDeviceFound : Bool
  external : ConfigSource
  spi : ConfigSource

/-- The medium that `grub_cln_loaded_from_spi` chooses. -/
def BootMedia.source (media : BootMedia) (loadedFromSpi : Bool) : ConfigSource :=
  if loadedFromSpi then media.spi else media.external

/-- `mount_failed`. -/
def BootMedia.mountFailed (media : BootMedia) : Bool :=
  !media.deviceSet || (media.deviceErrnum ≠ .none && media.deviceErrnum ≠ .fsysMount)

/-- The last attempt of `grub_cln_load_config_file`, `grub_cln_loaded_from_spi`
afterwards, and its values at the attempts made. -/
structure ConfigLoaded where
  last : ConfigAttempt
  loadedFromSpi : Bool
  attempts : List Bool

/-- `cfg_buffer` zeroed. -/
def clearedBuffer (cfgBuffer : Address) (memory : Memory) : Memory :=
  store memory cfgBuffer (List.replicate cfgBufferSize 0)

/-- `grub_cln_load_config_file`. -/
def grubClnLoadConfigFile (rom : SecureRom) (secure : Bool) (cfgBuffer : Address)
    (media : BootMedia) (loadedFromSpi : Bool) (cfgFileSize : Int) (memory : Memory) :
    ConfigLoaded :=
  let first := doLoadConfigFileFrom rom secure cfgBuffer (media.source loadedFromSpi) .none
    cfgFileSize (clearedBuffer cfgBuffer memory)
  if media.mountFailed ∨ first.result ≠ 0 then
    -- in case it cannot be loaded from (hd0,0), from the flash if possible
    let fromSpi := !media.bootDeviceFound
    { last := doLoadConfigFileFrom rom secure cfgBuffer (media.source fromSpi) .none
        first.cfgFileSize first.memory
      loadedFromSpi := fromSpi
      attempts := [loadedFromSpi, fromSpi] }
  else { last := first, loadedFromSpi, attempts := [loadedFromSpi] }

section Fallback

variable {rom : SecureRom} {secure : Bool} {cfgBuffer : Address} {source : ConfigSource}
  {errnum : GrubError} {cfgFileSize : Int} {memory : Memory} {image : OpenAsset}

/-! ## What an attempt reports -/

/-- The image is read and accepted. -/
structure Loads (rom : SecureRom) (secure : Bool) (cfgBuffer : Address) (source : ConfigSource)
    (memory : Memory) (image : OpenAsset) : Prop where
  headed : Headed secure cfgBuffer source memory
  opens : source.image = some image
  sizable : Sizable image
  readable : Readable image
  accepted : Accepted rom secure cfgBuffer source memory image

/-- It has its place in `cfg_buffer`. -/
def Fits (secure : Bool) (cfgBuffer : Address) (source : ConfigSource) (memory : Memory)
    (image : OpenAsset) : Prop :=
  image.content = [] ∨
    sbhLen secure cfgBuffer source memory + image.content.length ≤ cfgBufferSize

/-- The medium has a configuration to buffer. -/
def Usable (rom : SecureRom) (secure : Bool) (cfgBuffer : Address) (source : ConfigSource)
    (memory : Memory) : Prop :=
  ∃ image, Loads rom secure cfgBuffer source memory image ∧
    Fits secure cfgBuffer source memory image

/-- The header is there but the image cannot be opened, does not have a size for
`cfg_buffer` or cannot be read. -/
def Retries (secure : Bool) (cfgBuffer : Address) (source : ConfigSource) (memory : Memory) : Prop :=
  Headed secure cfgBuffer source memory ∧
    ∀ image ∈ source.image, ¬ (Sizable image ∧ Readable image)

/-- What an attempt leaves in memory. -/
def leftMemory (secure : Bool) (cfgBuffer : Address) (source : ConfigSource) (memory : Memory) :
    Memory :=
  match source.image with
  | none => headerMemory secure cfgBuffer source memory
  | some image =>
    if Headed secure cfgBuffer source memory ∧ Sizable image then
      imageMemory secure cfgBuffer source memory image
    else headerMemory secure cfgBuffer source memory

/-- The whole configuration is in `cfg_buffer`, with its size, and accepted. -/
structure Complete (rom : SecureRom) (secure : Bool) (cfgBuffer : Address)
    (attempt : ConfigAttempt) (image : OpenAsset) : Prop where
  size : attempt.cfgFileSize = image.content.length
  bytes : ∀ index (inside : index < image.content.length),
    attempt.memory (attempt.cfgFileBuffer + BitVec.ofNat 32 index) =
      image.content.get ⟨index, inside⟩
  inside : ∀ address, InRegion attempt.cfgFileBuffer attempt.cfgFileSize.toNat address →
    InRegion cfgBuffer cfgBufferSize address
  accepted : secure = true → rom.validate attempt.memory cfgBuffer = true

/-- An attempt that loads. -/
theorem doLoadConfigFileFrom_loads (loads : Loads rom secure cfgBuffer source memory image) :
    doLoadConfigFileFrom rom secure cfgBuffer source errnum cfgFileSize memory =
      { errnum, result := 0
        cfgFileBuffer := imageStart secure cfgBuffer source memory
        cfgFileSize := image.size
        memory := imageMemory secure cfgBuffer source memory image
        stores := headerStores secure cfgBuffer source ++
          [imageStore secure cfgBuffer source memory image]
        validated :=
          if secure then some (imageMemory secure cfgBuffer source memory image) else none } := by
  have attempted := @doLoadConfigFileFrom_attempted rom secure cfgBuffer source errnum cfgFileSize
    memory
  revert attempted
  generalize doLoadConfigFileFrom rom secure cfgBuffer source errnum cfgFileSize memory = attempt
  have same : ∀ other, source.image = some other → image = other := fun other isOther =>
    Option.some.inj (loads.opens.symm.trans isOther)
  intro attempted
  cases attempted with
  | headless unheaded => exact absurd loads.headed unheaded
  | missing _ unopened => cases loads.opens.symm.trans unopened
  | tooBig _ opens unsizable =>
      obtain rfl := same _ opens
      exact absurd loads.sizable unsizable
  | unread _ opens _ unreadable =>
      obtain rfl := same _ opens
      exact absurd loads.readable unreadable
  | rejected _ opens _ _ unaccepted =>
      obtain rfl := same _ opens
      exact absurd loads.accepted unaccepted
  | loaded _ opens _ _ _ =>
      obtain rfl := same _ opens
      rfl

/-- No other attempt reports success. -/
theorem loads_of_errnum_none
    (reported : (doLoadConfigFileFrom rom secure cfgBuffer source errnum cfgFileSize
      memory).errnum = .none) :
    ∃ image, Loads rom secure cfgBuffer source memory image := by
  have attempted := @doLoadConfigFileFrom_attempted rom secure cfgBuffer source errnum cfgFileSize
    memory
  revert reported attempted
  generalize doLoadConfigFileFrom rom secure cfgBuffer source errnum cfgFileSize memory = attempt
  intro reported attempted
  cases attempted with
  | headless => cases reported
  | missing => cases reported
  | tooBig => cases reported
  | unread => cases reported
  | rejected => cases reported
  | loaded headed opens sizable readable accepted =>
      exact ⟨_, headed, opens, sizable, readable, accepted⟩

/-- The result of an attempt and the memory it leaves. -/
theorem doLoadConfigFileFrom_leaves :
    ((doLoadConfigFileFrom rom secure cfgBuffer source errnum cfgFileSize memory).result ≠ 0 ↔
      Retries secure cfgBuffer source memory) ∧
    (doLoadConfigFileFrom rom secure cfgBuffer source errnum cfgFileSize memory).memory =
      leftMemory secure cfgBuffer source memory := by
  have attempted := @doLoadConfigFileFrom_attempted rom secure cfgBuffer source errnum cfgFileSize
    memory
  revert attempted
  generalize doLoadConfigFileFrom rom secure cfgBuffer source errnum cfgFileSize memory = attempt
  intro attempted
  cases attempted with
  | headless unheaded =>
      refine ⟨⟨fun nonzero => absurd rfl nonzero, fun retries => absurd retries.1 unheaded⟩, ?_⟩
      rw [leftMemory]
      split
      · rfl
      · rw [if_neg fun both => unheaded both.1]
  | missing headed unopened =>
      refine ⟨⟨fun _ => ⟨headed, fun image opens => ?_⟩, fun _ => nofun⟩, ?_⟩
      · cases unopened.symm.trans opens
      · rw [leftMemory, unopened]
  | tooBig headed opens unsizable =>
      refine ⟨⟨fun _ => ⟨headed, fun other isOther both => ?_⟩, fun _ => nofun⟩, ?_⟩
      · obtain rfl := Option.some.inj (opens.symm.trans isOther)
        exact unsizable both.1
      · rw [leftMemory, opens]
        exact (if_neg fun both => unsizable both.2).symm
  | unread headed opens sizable unreadable =>
      refine ⟨⟨fun _ => ⟨headed, fun other isOther both => ?_⟩, fun _ => nofun⟩, ?_⟩
      · obtain rfl := Option.some.inj (opens.symm.trans isOther)
        exact unreadable both.2
      · rw [leftMemory, opens]
        exact (if_pos ⟨headed, sizable⟩).symm
  | rejected headed opens sizable readable _ =>
      refine ⟨⟨fun nonzero => absurd rfl nonzero, fun retries => ?_⟩, ?_⟩
      · exact absurd ⟨sizable, readable⟩ (retries.2 _ opens)
      · rw [leftMemory, opens]
        exact (if_pos ⟨headed, sizable⟩).symm
  | loaded headed opens sizable readable _ =>
      refine ⟨⟨fun nonzero => absurd rfl nonzero, fun retries => ?_⟩, ?_⟩
      · exact absurd ⟨sizable, readable⟩ (retries.2 _ opens)
      · rw [leftMemory, opens]
        exact (if_pos ⟨headed, sizable⟩).symm

/-- What is loaded is complete exactly when it has its place. -/
theorem complete_iff_fits (loads : Loads rom secure cfgBuffer source memory image) :
    Complete rom secure cfgBuffer
        (doLoadConfigFileFrom rom secure cfgBuffer source errnum cfgFileSize memory) image ↔
      Fits secure cfgBuffer source memory image := by
  rw [doLoadConfigFileFrom_loads loads, Fits]
  have size : image.size = image.content.length := image.sized loads.sizable.1
  have length : image.size.toNat = image.content.length := by
    rw [size]
    rfl
  have small : image.content.length ≤ cfgBufferSize := by
    have fits := loads.sizable.2
    omega
  have bytes : image.stored image.content.length = image.content := by
    have readable := loads.readable
    rw [Readable, length, size] at readable
    rw [image.genuine _ (Nat.le_refl _) readable, List.take_length]
  constructor
  · rintro ⟨_, _, inside, _⟩
    dsimp only at inside
    rw [length, imageStart] at inside
    rcases Nat.eq_zero_or_pos image.content.length with empty | nonempty
    · exact .inl (List.eq_nil_of_length_eq_zero empty)
    · exact .inr ((within_iff nonempty sbhLen_lt (by decide)).mp inside)
  · intro fits
    refine ⟨size, fun index inside => ?_, fun address inside => ?_, loads.accepted⟩
    · have memory_ : imageMemory secure cfgBuffer source memory image =
          store (headerMemory secure cfgBuffer source memory)
            (imageStart secure cfgBuffer source memory) image.content := by
        rw [imageMemory, length, bytes]
      have place : cfgBufferSize < 2 ^ 32 := by decide
      dsimp only
      rw [memory_]
      exact store_add inside (by omega)
    · dsimp only at inside
      rw [length] at inside
      rcases fits with empty | fits
      · rw [empty] at inside
        exact absurd inside (Nat.not_lt_zero _)
      · rcases Nat.eq_zero_or_pos image.content.length with empty | nonempty
        · rw [empty] at inside
          exact absurd inside (Nat.not_lt_zero _)
        · exact (within_iff nonempty sbhLen_lt (by decide)).mpr fits address inside

/-! ## The whole call -/

instance : Decidable (Retries secure cfgBuffer source memory) :=
  inferInstanceAs (Decidable (_ ∧ ∀ image ∈ source.image, _))

/-- The medium of the last attempt and the memory it starts from. -/
def lastAttempt (secure : Bool) (cfgBuffer : Address) (media : BootMedia) (loadedFromSpi : Bool)
    (memory : Memory) : ConfigSource × Memory :=
  let first := media.source loadedFromSpi
  let cleared := clearedBuffer cfgBuffer memory
  if media.mountFailed ∨ Retries secure cfgBuffer first cleared then
    (media.source (!media.bootDeviceFound), leftMemory secure cfgBuffer first cleared)
  else (first, cleared)

/-- The flash is among the media tried. -/
def ReachesSpi (secure : Bool) (cfgBuffer : Address) (media : BootMedia) (loadedFromSpi : Bool)
    (memory : Memory) : Prop :=
  loadedFromSpi = true ∨ media.bootDeviceFound = false ∧
    (media.mountFailed = true ∨
      Retries secure cfgBuffer media.external (clearedBuffer cfgBuffer memory))

/-- Success is reported only for a complete configuration, and the flash is tried
whenever the external medium has none to offer. -/
def FallsBack (rom : SecureRom) (secure : Bool) (cfgBuffer : Address) (media : BootMedia)
    (memory : Memory) (loaded : ConfigLoaded) : Prop :=
  (loaded.last.errnum = .none → ∃ image ∈ (media.source loaded.loadedFromSpi).image,
    Complete rom secure cfgBuffer loaded.last image) ∧
  (¬ Usable rom secure cfgBuffer media.external (clearedBuffer cfgBuffer memory) →
    true ∈ loaded.attempts)

variable {media : BootMedia} {loadedFromSpi : Bool}

/-- The call in terms of its last attempt. -/
theorem grubClnLoadConfigFile_last :
    ∃ cfgFileSize', (grubClnLoadConfigFile rom secure cfgBuffer media loadedFromSpi cfgFileSize
        memory).last =
      doLoadConfigFileFrom rom secure cfgBuffer
        (lastAttempt secure cfgBuffer media loadedFromSpi memory).1 .none cfgFileSize'
        (lastAttempt secure cfgBuffer media loadedFromSpi memory).2 ∧
    media.source (grubClnLoadConfigFile rom secure cfgBuffer media loadedFromSpi cfgFileSize
        memory).loadedFromSpi =
      (lastAttempt secure cfgBuffer media loadedFromSpi memory).1 := by
  obtain ⟨result, left⟩ := @doLoadConfigFileFrom_leaves rom secure cfgBuffer
    (media.source loadedFromSpi) .none cfgFileSize (clearedBuffer cfgBuffer memory)
  rw [grubClnLoadConfigFile, lastAttempt]
  dsimp only
  by_cases again : media.mountFailed ∨
      Retries secure cfgBuffer (media.source loadedFromSpi) (clearedBuffer cfgBuffer memory)
  · rw [if_pos again, if_pos (again.imp_right result.mpr), left]
    exact ⟨_, rfl, rfl⟩
  · rw [if_neg again, if_neg (mt (Or.imp_right result.mp) again)]
    exact ⟨_, rfl, rfl⟩

/-- The flash is tried exactly when it is reached. -/
theorem spi_attempted_iff :
    true ∈ (grubClnLoadConfigFile rom secure cfgBuffer media loadedFromSpi cfgFileSize
        memory).attempts ↔
      ReachesSpi secure cfgBuffer media loadedFromSpi memory := by
  obtain ⟨result, _⟩ := @doLoadConfigFileFrom_leaves rom secure cfgBuffer
    (media.source loadedFromSpi) .none cfgFileSize (clearedBuffer cfgBuffer memory)
  rw [grubClnLoadConfigFile, ReachesSpi]
  dsimp only
  cases loadedFromSpi with
  | true =>
      refine iff_of_true ?_ (.inl rfl)
      split <;> exact List.mem_cons_self
  | false =>
      by_cases again : media.mountFailed ∨
          Retries secure cfgBuffer media.external (clearedBuffer cfgBuffer memory)
      · rw [if_pos (again.imp_right result.mpr)]
        cases found : media.bootDeviceFound with
        | true =>
            have untried : true ∉ [false, false] := by decide
            refine iff_of_false untried ?_
            rintro (own | ⟨absent, _⟩)
            · cases own
            · cases absent
        | false =>
            have tried : true ∈ [false, true] := by decide
            exact iff_of_true tried (.inr ⟨rfl, again⟩)
      · rw [if_neg (mt (Or.imp_right result.mp) again)]
        have untried : true ∉ [false] := by decide
        refine iff_of_false untried ?_
        rintro (own | ⟨_, tried⟩)
        · cases own
        · exact again tried

/-- The fallback works exactly when the external medium can be used or the flash is
reached, and the last attempt, if it loads at all, loads into `cfg_buffer`. -/
theorem grubClnLoadConfigFile_fallsBack_iff (rom : SecureRom) (secure : Bool)
    (cfgBuffer : Address) (media : BootMedia) (loadedFromSpi : Bool) (cfgFileSize : Int)
    (memory : Memory) :
    FallsBack rom secure cfgBuffer media memory
        (grubClnLoadConfigFile rom secure cfgBuffer media loadedFromSpi cfgFileSize memory) ↔
      (Usable rom secure cfgBuffer media.external (clearedBuffer cfgBuffer memory) ∨
        ReachesSpi secure cfgBuffer media loadedFromSpi memory) ∧
      ∀ image,
        Loads rom secure cfgBuffer (lastAttempt secure cfgBuffer media loadedFromSpi memory).1
          (lastAttempt secure cfgBuffer media loadedFromSpi memory).2 image →
        Fits secure cfgBuffer (lastAttempt secure cfgBuffer media loadedFromSpi memory).1
          (lastAttempt secure cfgBuffer media loadedFromSpi memory).2 image := by
  obtain ⟨size, last, medium⟩ := @grubClnLoadConfigFile_last rom secure cfgBuffer cfgFileSize
    memory media loadedFromSpi
  rw [FallsBack, spi_attempted_iff, last, medium, and_comm, Classical.or_iff_not_imp_left]
  refine and_congr Iff.rfl ⟨fun complete image loads => ?_, fun fits reported => ?_⟩
  · obtain ⟨other, isOther, whole⟩ := complete (by rw [doLoadConfigFileFrom_loads loads])
    obtain rfl := Option.some.inj (loads.opens.symm.trans isOther)
    exact (complete_iff_fits loads).mp whole
  · obtain ⟨image, loads⟩ := loads_of_errnum_none reported
    exact ⟨image, loads.opens, (complete_iff_fits loads).mpr (fits image loads)⟩

end Fallback

/-- An external medium without a signed configuration, and a good one in the flash
GRUB was loaded from. -/
def unsignedMedia : BootMedia where
  deviceSet := true
  deviceErrnum := .none
  bootDeviceFound := false
  external := ⟨none, none⟩
  spi := ⟨some smallHeader.opened, some longerImage.opened⟩

/-- The configuration in the flash is not tried. -/
theorem grubClnLoadConfigFile_keeps_external :
    ¬ FallsBack acceptingRom true 0x1000 unsignedMedia (fun _ => 0)
      (grubClnLoadConfigFile acceptingRom true 0x1000 unsignedMedia false 0 fun _ => 0) := by
  intro fallsBack
  have untried : true ∉ (grubClnLoadConfigFile acceptingRom true 0x1000 unsignedMedia false 0
      fun _ => 0).attempts := by
    decide +kernel
  refine untried (fallsBack.2 ?_)
  rintro ⟨image, loads, _⟩
  cases loads.opens

end GrubLegacy.Clanton
