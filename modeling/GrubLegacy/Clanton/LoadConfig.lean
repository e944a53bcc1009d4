import GrubLegacy.Clanton.Asset

/-!
# Loading from a medium

`do_load_config_file` of `boot_settings.c`, with the stores it makes: what an attempt
comes to, and where it writes and is read.
-/

namespace GrubLegacy.Clanton

open Base Stage2

/-- The assets of a medium: the security header and the configuration. -/
structure ConfigSource where
  header : Option OpenAsset
  image : Option OpenAsset

/-- What `do_load_config_file` leaves: `errnum`, its result and its two outputs, the
memory with the stores in order, and the memory `IAROM_validate_module` was called on. -/
structure ConfigAttempt where
  errnum : GrubError
  result : Int
  cfgFileBuffer : Address
  cfgFileSize : Int
  memory : Memory
  stores : List (Address × List UInt8)
  validated : Option Memory

def ConfigAttempt.put (attempt : ConfigAttempt) (start : Address) (bytes : List UInt8) :
    ConfigAttempt :=
  { attempt with
    memory := store attempt.memory start bytes
    stores := attempt.stores ++ [(start, bytes)] }

/-- The rest of `do_load_config_file`, once `sbh_len` is known. The size is compared
with the buffer as an unsigned number. -/
def loadImageFrom (rom : SecureRom) (secure : Bool) (cfgBuffer : Address)
    (image : Option OpenAsset) (sbhLen : Nat) (attempt : ConfigAttempt) : ConfigAttempt :=
  match image with
  | none => { attempt with errnum := .fileNotFound, result := 1 }
  | some image =>
    let attempt := { attempt with cfgFileSize := image.size }
    if image.size < 0 ∨ cfgBufferSize < image.size then
      { attempt with errnum := .filelength, result := 1 }
    else
      let attempt := attempt.put (cfgBuffer + BitVec.ofNat 32 sbhLen)
        (image.stored image.size.toNat)
      if image.delivered image.size.toNat ≠ image.size then
        { attempt with errnum := .read, result := 1 }
      else if secure then
        { attempt with
          errnum := if rom.validate attempt.memory cfgBuffer then attempt.errnum
            else .clnVerification
          cfgFileBuffer := cfgBuffer + BitVec.ofNat 32 sbhLen
          validated := some attempt.memory }
      else attempt

/-- `do_load_config_file`, from the medium the assets are taken from. -/
def doLoadConfigFileFrom (rom : SecureRom) (secure : Bool) (cfgBuffer : Address)
    (source : ConfigSource) (errnum : GrubError) (cfgFileSize : Int) (memory : Memory) :
    ConfigAttempt :=
  let attempt : ConfigAttempt :=
    { errnum, result := 0, cfgFileBuffer := cfgBuffer, cfgFileSize, memory, stores := []
      validated := none }
  if secure then
    let fetched := attempt.put cfgBuffer (headerBytes source.header)
    if fetchesSbh source.header memory cfgBuffer then
      loadImageFrom rom secure cfgBuffer source.image
        (securityHeader fetched.memory cfgBuffer).headerLen fetched
    else { fetched with errnum := .sgnFileNotFound }
  else loadImageFrom rom secure cfgBuffer source.image 0 attempt

/-! ## One attempt -/

section Attempt

variable {rom : SecureRom} {secure : Bool} {cfgBuffer : Address} {source : ConfigSource}
  {errnum : GrubError} {cfgFileSize : Int} {memory : Memory} {image : OpenAsset}

/-- The memory behind which the image is stored: with the header in secure mode. -/
def headerMemory (secure : Bool) (cfgBuffer : Address) (source : ConfigSource)
    (memory : Memory) : Memory :=
  if secure then withSbh source.header memory cfgBuffer else memory

/-- `sbh_len`. -/
def sbhLen (secure : Bool) (cfgBuffer : Address) (source : ConfigSource) (memory : Memory) : Nat :=
  if secure then
    (securityHeader (headerMemory secure cfgBuffer source memory) cfgBuffer).headerLen
  else 0

/-- The length of the header is a 32-bit number. -/
theorem sbhLen_lt : sbhLen secure cfgBuffer source memory < 2 ^ 32 := by
  rw [sbhLen]
  split
  · exact loadWord_lt _ _
  · decide

/-- Where the image goes. -/
def imageStart (secure : Bool) (cfgBuffer : Address) (source : ConfigSource)
    (memory : Memory) : Address :=
  cfgBuffer + BitVec.ofNat 32 (sbhLen secure cfgBuffer source memory)

/-- The memory with what reading the image stores. -/
def imageMemory (secure : Bool) (cfgBuffer : Address) (source : ConfigSource)
    (memory : Memory) (image : OpenAsset) : Memory :=
  store (headerMemory secure cfgBuffer source memory) (imageStart secure cfgBuffer source memory)
    (image.stored image.size.toNat)

/-- The security header is there, where one is needed. -/
def Headed (secure : Bool) (cfgBuffer : Address) (source : ConfigSource) (memory : Memory) : Prop :=
  secure = true → fetchesSbh source.header memory cfgBuffer = true

instance : Decidable (Headed secure cfgBuffer source memory) :=
  inferInstanceAs (Decidable (_ → _))

/-- The image has a size that `cfg_buffer` could hold. -/
def Sizable (image : OpenAsset) : Prop := 0 ≤ image.size ∧ image.size ≤ cfgBufferSize

instance : Decidable (Sizable image) := inferInstanceAs (Decidable (_ ∧ _))

/-- The image is read in full. -/
def Readable (image : OpenAsset) : Prop := image.delivered image.size.toNat = image.size

instance : Decidable (Readable image) := inferInstanceAs (Decidable (_ = _))

/-- An image read in full has its announced size. -/
theorem image_length (sizable : Sizable image) (readable : Readable image) :
    (image.stored image.size.toNat).length = image.size.toNat := by
  have size : (image.size.toNat : Int) = image.size := Int.toNat_of_nonneg sizable.1
  exact image.whole _ (readable.trans size.symm)

/-- The ROM accepts what was read, where it is asked. -/
def Accepted (rom : SecureRom) (secure : Bool) (cfgBuffer : Address) (source : ConfigSource)
    (memory : Memory) (image : OpenAsset) : Prop :=
  secure = true → rom.validate (imageMemory secure cfgBuffer source memory image) cfgBuffer = true

/-- The stores of the header. -/
def headerStores (secure : Bool) (cfgBuffer : Address) (source : ConfigSource) :
    List (Address × List UInt8) :=
  if secure then [(cfgBuffer, headerBytes source.header)] else []

/-- The store of the image. -/
def imageStore (secure : Bool) (cfgBuffer : Address) (source : ConfigSource) (memory : Memory)
    (image : OpenAsset) : Address × List UInt8 :=
  (imageStart secure cfgBuffer source memory, image.stored image.size.toNat)

/-- What an attempt can come to. -/
inductive Attempted (rom : SecureRom) (secure : Bool) (cfgBuffer : Address)
    (source : ConfigSource) (errnum : GrubError) (cfgFileSize : Int) (memory : Memory) :
    ConfigAttempt → Prop where
  | headless (unheaded : ¬ Headed secure cfgBuffer source memory) :
      Attempted rom secure cfgBuffer source errnum cfgFileSize memory
        { errnum := .sgnFileNotFound, result := 0, cfgFileBuffer := cfgBuffer, cfgFileSize
          memory := headerMemory secure cfgBuffer source memory
          stores := headerStores secure cfgBuffer source
          validated := none }
  | missing (headed : Headed secure cfgBuffer source memory) (unopened : source.image = none) :
      Attempted rom secure cfgBuffer source errnum cfgFileSize memory
        { errnum := .fileNotFound, result := 1, cfgFileBuffer := cfgBuffer, cfgFileSize
          memory := headerMemory secure cfgBuffer source memory
          stores := headerStores secure cfgBuffer source
          validated := none }
  | tooBig {image : OpenAsset} (headed : Headed secure cfgBuffer source memory)
      (opens : source.image = some image) (unsizable : ¬ Sizable image) :
      Attempted rom secure cfgBuffer source errnum cfgFileSize memory
        { errnum := .filelength, result := 1, cfgFileBuffer := cfgBuffer
          cfgFileSize := image.size
          memory := headerMemory secure cfgBuffer source memory
          stores := headerStores secure cfgBuffer source
          validated := none }
  | unread {image : OpenAsset} (headed : Headed secure cfgBuffer source memory)
      (opens : source.image = some image) (sizable : Sizable image)
      (unreadable : ¬ Readable image) :
      Attempted rom secure cfgBuffer source errnum cfgFileSize memory
        { errnum := .read, result := 1, cfgFileBuffer := cfgBuffer, cfgFileSize := image.size
          memory := imageMemory secure cfgBuffer source memory image
          stores := headerStores secure cfgBuffer source ++
            [imageStore secure cfgBuffer source memory image]
          validated := none }
  | rejected {image : OpenAsset} (headed : Headed secure cfgBuffer source memory)
      (opens : source.image = some image) (sizable : Sizable image)
      (readable : Readable image) (unaccepted : ¬ Accepted rom secure cfgBuffer source memory image) :
      Attempted rom secure cfgBuffer source errnum cfgFileSize memory
        { errnum := .clnVerification, result := 0
          cfgFileBuffer := imageStart secure cfgBuffer source memory
          cfgFileSize := image.size
          memory := imageMemory secure cfgBuffer source memory image
          stores := headerStores secure cfgBuffer source ++
            [imageStore secure cfgBuffer source memory image]
          validated := some (imageMemory secure cfgBuffer source memory image) }
  | loaded {image : OpenAsset} (headed : Headed secure cfgBuffer source memory)
      (opens : source.image = some image) (sizable : Sizable image)
      (readable : Readable image) (accepted : Accepted rom secure cfgBuffer source memory image) :
      Attempted rom secure cfgBuffer source errnum cfgFileSize memory
        { errnum, result := 0
          cfgFileBuffer := imageStart secure cfgBuffer source memory
          cfgFileSize := image.size
          memory := imageMemory secure cfgBuffer source memory image
          stores := headerStores secure cfgBuffer source ++
            [imageStore secure cfgBuffer source memory image]
          validated :=
            if secure then some (imageMemory secure cfgBuffer source memory image) else none }

/-- With the header in place, the image decides. -/
theorem loadImageFrom_attempted (headed : Headed secure cfgBuffer source memory) :
    Attempted rom secure cfgBuffer source errnum cfgFileSize memory
      (loadImageFrom rom secure cfgBuffer source.image
        (sbhLen secure cfgBuffer source memory)
        { errnum, result := 0, cfgFileBuffer := cfgBuffer, cfgFileSize
          memory := headerMemory secure cfgBuffer source memory
          stores := headerStores secure cfgBuffer source
          validated := none }) := by
  cases opens : source.image with
  | none => exact .missing headed opens
  | some image =>
      rw [loadImageFrom]
      dsimp only
      by_cases sizable : Sizable image
      · rw [if_neg (by rw [Sizable] at sizable; omega)]
        by_cases readable : Readable image
        · rw [if_neg (fun unread => unread readable)]
          cases secure with
          | false =>
              have loaded := @Attempted.loaded rom false cfgBuffer source errnum cfgFileSize
                memory image headed opens sizable readable nofun
              have start : imageStart false cfgBuffer source memory = cfgBuffer :=
                BitVec.add_zero cfgBuffer
              rw [start] at loaded
              exact loaded
          | true =>
              rw [if_pos rfl]
              split
              · next accepts => exact .loaded headed opens sizable readable fun _ => accepts
              · next rejects =>
                  exact .rejected headed opens sizable readable fun accepted =>
                    rejects (accepted rfl)
        · rw [if_pos (show image.delivered image.size.toNat ≠ image.size from readable)]
          exact .unread headed opens sizable readable
      · rw [if_pos (by rw [Sizable] at sizable; omega)]
        exact .tooBig headed opens sizable

/-- Every attempt comes to one of these. -/
theorem doLoadConfigFileFrom_attempted :
    Attempted rom secure cfgBuffer source errnum cfgFileSize memory
      (doLoadConfigFileFrom rom secure cfgBuffer source errnum cfgFileSize memory) := by
  cases secure with
  | false => exact loadImageFrom_attempted nofun
  | true =>
      rw [doLoadConfigFileFrom, if_pos rfl]
      by_cases fetches : fetchesSbh source.header memory cfgBuffer = true
      · rw [if_pos fetches]
        exact loadImageFrom_attempted fun _ => fetches
      · rw [if_neg fetches]
        exact .headless fun headed => fetches (headed rfl)

/-! ## The bounds of `cfg_buffer` -/

/-- What reading the image stores keeps within `cfg_buffer`. -/
def Bounded (secure : Bool) (cfgBuffer : Address) (source : ConfigSource) (memory : Memory)
    (image : OpenAsset) : Prop :=
  image.stored image.size.toNat = [] ∨
    sbhLen secure cfgBuffer source memory + (image.stored image.size.toNat).length ≤ cfgBufferSize

/-- One byte for `get_line_from_config`: the address it is read from, unless the end
is reached, and `cln_index` afterwards. -/
def fetchByte (attempt : ConfigAttempt) (clnIndex : Nat) : Option Address × Nat :=
  if clnIndex = attempt.cfgFileSize then (none, 0)
  else (some (attempt.cfgFileBuffer + BitVec.ofNat 32 clnIndex), clnIndex + 1)

/-- The addresses read for that many bytes, in any number of calls. -/
def fetchedFrom (attempt : ConfigAttempt) : Nat → Nat → List Address
  | 0, _ => []
  | count + 1, clnIndex =>
    match fetchByte attempt clnIndex with
    | (none, clnIndex) => fetchedFrom attempt count clnIndex
    | (some address, clnIndex) => address :: fetchedFrom attempt count clnIndex

/-- The reads never leave the configuration that was announced. -/
theorem fetchedFrom_inside {attempt : ConfigAttempt} (size : 0 ≤ attempt.cfgFileSize)
    (small : attempt.cfgFileSize ≤ 2 ^ 32) {count : Nat} :
    ∀ {clnIndex : Nat}, clnIndex ≤ attempt.cfgFileSize →
      ∀ address ∈ fetchedFrom attempt count clnIndex,
        InRegion attempt.cfgFileBuffer attempt.cfgFileSize.toNat address := by
  induction count with
  | zero =>
      intro clnIndex _ address fetched
      cases fetched
  | succ count inductionHypothesis =>
      intro clnIndex inside address fetched
      rw [fetchedFrom, fetchByte] at fetched
      by_cases ended : clnIndex = attempt.cfgFileSize
      · rw [if_pos ended] at fetched
        exact inductionHypothesis size address fetched
      · rw [if_neg ended] at fetched
        rcases List.mem_cons.mp fetched with rfl | later
        · exact inRegion_add (by omega) (by omega)
        · exact inductionHypothesis (by omega) address later

/-- The stores lie in `cfg_buffer`, and when the configuration is handed out without
an error, only bytes that were stored are read. -/
def InBounds (cfgBuffer : Address) (attempt : ConfigAttempt) : Prop :=
  (∀ write ∈ attempt.stores, ∀ address, InRegion write.1 write.2.length address →
    InRegion cfgBuffer cfgBufferSize address) ∧
  (attempt.errnum = .none → ∀ count, ∀ address ∈ fetchedFrom attempt count 0,
    ∃ write ∈ attempt.stores, InRegion write.1 write.2.length address)

/-- The header is stored inside the buffer. -/
theorem headerStores_inside {write : Address × List UInt8}
    (stored : write ∈ headerStores secure cfgBuffer source) :
    ∀ address, InRegion write.1 write.2.length address →
      InRegion cfgBuffer cfgBufferSize address := by
  intro address inside
  rw [headerStores] at stored
  split at stored
  · obtain rfl := List.mem_singleton.mp stored
    have short : (headerBytes source.header).length ≤ 0x24C := headerBytes_length source.header
    exact Nat.lt_of_lt_of_le inside (Nat.le_trans short (by decide))
  · cases stored

/-- The image alone decides. -/
theorem imageStore_inside_iff :
    (∀ write ∈ headerStores secure cfgBuffer source ++
        [imageStore secure cfgBuffer source memory image],
      ∀ address, InRegion write.1 write.2.length address →
        InRegion cfgBuffer cfgBufferSize address) ↔
      Bounded secure cfgBuffer source memory image := by
  have iff : (∀ address, InRegion (imageStart secure cfgBuffer source memory)
      (image.stored image.size.toNat).length address → InRegion cfgBuffer cfgBufferSize address) ↔
        Bounded secure cfgBuffer source memory image := by
    rw [Bounded]
    rcases Nat.eq_zero_or_pos (image.stored image.size.toNat).length with empty | nonempty
    · rw [empty]
      exact ⟨fun _ => .inl (List.eq_nil_of_length_eq_zero empty),
        fun _ _ inside => absurd inside (Nat.not_lt_zero _)⟩
    · rw [imageStart, within_iff nonempty sbhLen_lt (by decide)]
      exact ⟨.inr, fun bounded => bounded.resolve_left (List.ne_nil_of_length_pos nonempty)⟩
  rw [← iff]
  constructor
  · intro inside
    exact inside (imageStore secure cfgBuffer source memory image)
      (List.mem_append_right _ (List.mem_singleton.mpr rfl))
  · intro inside write stored
    rcases List.mem_append.mp stored with header | image
    · exact headerStores_inside header
    · obtain rfl := List.mem_singleton.mp image
      exact inside

/-- An attempt keeps within `cfg_buffer` exactly when an image of a size that could
fit is not stored past the end behind the announced header length. -/
theorem doLoadConfigFileFrom_inBounds_iff (rom : SecureRom) (secure : Bool) (cfgBuffer : Address)
    (source : ConfigSource) (errnum : GrubError) (cfgFileSize : Int) (memory : Memory) :
    InBounds cfgBuffer
        (doLoadConfigFileFrom rom secure cfgBuffer source errnum cfgFileSize memory) ↔
      ∀ image ∈ source.image, Headed secure cfgBuffer source memory → Sizable image →
        Bounded secure cfgBuffer source memory image := by
  have attempted := @doLoadConfigFileFrom_attempted rom secure cfgBuffer source errnum cfgFileSize
    memory
  revert attempted
  generalize doLoadConfigFileFrom rom secure cfgBuffer source errnum cfgFileSize memory = attempt
  intro attempted
  cases attempted with
  | headless unheaded =>
      refine ⟨fun _ _ _ headed => absurd headed unheaded, fun _ => ⟨?_, nofun⟩⟩
      exact fun write stored => headerStores_inside stored
  | missing headed unopened =>
      refine ⟨fun _ image opens => ?_, fun _ => ⟨?_, nofun⟩⟩
      · rw [unopened] at opens
        cases opens
      · exact fun write stored => headerStores_inside stored
  | tooBig headed opens unsizable =>
      refine ⟨fun _ other isOther _ sizable => ?_, fun _ => ⟨?_, nofun⟩⟩
      · obtain rfl := Option.some.inj (opens.symm.trans isOther)
        exact absurd sizable unsizable
      · exact fun write stored => headerStores_inside stored
  | unread headed opens sizable unreadable =>
      rw [InBounds, imageStore_inside_iff]
      refine ⟨fun inBounds other isOther _ _ => ?_, fun bounded => ⟨?_, nofun⟩⟩
      · obtain rfl := Option.some.inj (opens.symm.trans isOther)
        exact inBounds.1
      · exact bounded _ opens headed sizable
  | rejected headed opens sizable readable unaccepted =>
      rw [InBounds, imageStore_inside_iff]
      refine ⟨fun inBounds other isOther _ _ => ?_, fun bounded => ⟨?_, nofun⟩⟩
      · obtain rfl := Option.some.inj (opens.symm.trans isOther)
        exact inBounds.1
      · exact bounded _ opens headed sizable
  | loaded headed opens sizable readable accepted =>
      rw [InBounds, imageStore_inside_iff]
      refine ⟨fun inBounds other isOther _ _ => ?_, fun bounded => ⟨?_, ?_⟩⟩
      · obtain rfl := Option.some.inj (opens.symm.trans isOther)
        exact inBounds.1
      · exact bounded _ opens headed sizable
      · intro _ count address fetched
        refine ⟨_, List.mem_append_right _ (List.mem_singleton.mpr rfl), ?_⟩
        have size := sizable.1
        have small := sizable.2
        have read := fetchedFrom_inside size (Int.le_trans small (by decide)) size address fetched
        rw [imageStore]
        dsimp only
        rw [image_length sizable readable]
        exact read

end Attempt

/-- A ROM that accepts what it is given and authenticates a header with its module. -/
def acceptingRom : SecureRom where
  validate _ _ := true
  extent header := header.headerLen + header.moduleSize
  validate_congr _ _ _ _ := rfl

/-- A header of the usual length for a module of 4 bytes. -/
def smallHeader : Asset where
  content := [0x48, 0x53, 0x43, 0x5F, 0, 0, 0, 0, 4, 0, 0, 0] ++ List.replicate 20 0 ++
    [0x4C, 0x02, 0, 0] ++ List.replicate 552 0
  readable := true
  sized := by decide +kernel

/-- An image of 5 bytes. -/
def longerImage : Asset where
  content := [0x61, 0x62, 0x63, 0x64, 0x65]
  readable := true
  sized := by decide +kernel

/-- A header that announces the size of the whole buffer as its length. -/
def longHeader : Asset where
  content := [0x48, 0x53, 0x43, 0x5F] ++ List.replicate 28 0 ++ [0x00, 0x20, 0, 0] ++
    List.replicate 552 0
  readable := true
  sized := by decide +kernel

/-- Behind such a header an image of 5 bytes is stored past the end of `cfg_buffer`. -/
theorem doLoadConfigFileFrom_overflows :
    ¬ InBounds 0x1000 (doLoadConfigFileFrom acceptingRom true 0x1000
      ⟨some longHeader.opened, some longerImage.opened⟩ .none 0 fun _ => 0) := by
  intro inBounds
  have past := inBounds.1 (0x3000, [0x61, 0x62, 0x63, 0x64, 0x65]) (by decide +kernel) 0x3000
    (by decide +kernel)
  revert past
  decide +kernel

end GrubLegacy.Clanton
