import GrubLegacy.Clanton.LoadConfig

/-!
# Loading the configuration file

`do_load_config_file` in secure mode, for assets that come as files: which bytes the
parser gets, and which of them the boot ROM authenticated.
-/

namespace GrubLegacy.Clanton

open Base Stage2

/-- The files of the configuration, where they exist. -/
structure ConfigFiles where
  header : Option Asset
  image : Option Asset

/-- The medium that holds the files. -/
def ConfigFiles.opened (files : ConfigFiles) : ConfigSource where
  header := files.header.map Asset.opened
  image := files.image.map Asset.opened

/-- `do_load_config_file`, from the globals and the outputs as they are. -/
def doLoadConfigFile (rom : SecureRom) (secure : Bool) (cfgBuffer : Address) (files : ConfigFiles)
    (errnum : GrubError) (cfgFileSize : Int) (memory : Memory) : ConfigAttempt :=
  doLoadConfigFileFrom rom secure cfgBuffer files.opened errnum cfgFileSize memory

/-! ## Which files load -/

section Secure

variable {rom : SecureRom} {cfgBuffer : Address} {files : ConfigFiles} {errnum : GrubError}
  {cfgFileSize : Int} {memory : Memory} {header image : Asset}

/-- The memory with the header file fetched. -/
def withHeader (memory : Memory) (cfgBuffer : Address) (header : Asset) : Memory :=
  store memory cfgBuffer (header.read sbhSize)

/-- The header that the header file holds. -/
def fetchedHeader (memory : Memory) (cfgBuffer : Address) (header : Asset) : SecurityHeader :=
  securityHeader (withHeader memory cfgBuffer header) cfgBuffer

/-- The memory with the image stored behind the header. -/
def withImage (memory : Memory) (cfgBuffer : Address) (header image : Asset) : Memory :=
  store (withHeader memory cfgBuffer header)
    (cfgBuffer + BitVec.ofNat 32 (fetchedHeader memory cfgBuffer header).headerLen)
    (image.read image.content.length)

/-- Both files are there and can be read, the header file holds a header and the
image fits into the buffer. -/
structure Loadable (memory : Memory) (cfgBuffer : Address) (files : ConfigFiles)
    (header image : Asset) : Prop where
  headerOpens : files.header = some header
  headerRead : (header.read sbhSize).length = sbhSize
  magic : (fetchedHeader memory cfgBuffer header).magicNumber = sbhMagicNumber
  imageOpens : files.image = some image
  imageFits : image.content.length ≤ cfgBufferSize
  imageRead : (image.read image.content.length).length = image.content.length

/-- The header is fetched from a file that holds one and can be read. -/
theorem headed_iff : Headed true cfgBuffer files.opened memory ↔
    ∃ header, files.header = some header ∧ (header.read sbhSize).length = sbhSize ∧
      (fetchedHeader memory cfgBuffer header).magicNumber = sbhMagicNumber := by
  have fetches : Headed true cfgBuffer files.opened memory ↔
      fetchesSbh (files.header.map Asset.opened) memory cfgBuffer = true :=
    ⟨fun headed => headed rfl, fun fetched _ => fetched⟩
  rw [fetches]
  cases files.header with
  | none => exact ⟨nofun, fun ⟨_, isHeader, _⟩ => nomatch isHeader⟩
  | some header =>
      have short : header.opened.delivered sbhSize ≠ sbhSize ↔
          (header.read sbhSize).length ≠ sbhSize := not_congr Int.ofNat_inj
      rw [Option.map_some, fetchesSbh]
      constructor
      · intro fetched
        by_cases unread : (header.read sbhSize).length ≠ sbhSize
        · rw [if_pos (short.mpr unread)] at fetched
          cases fetched
        · rw [if_neg (mt short.mp unread)] at fetched
          exact ⟨header, rfl, not_not.mp unread, of_decide_eq_true fetched⟩
      · rintro ⟨_, isHeader, read, magic⟩
        obtain rfl := Option.some.inj isHeader
        rw [if_neg (mt short.mp (not_not_intro read))]
        exact decide_eq_true magic

/-- What loadable files are as assets. -/
theorem Loadable.opened (loadable : Loadable memory cfgBuffer files header image) :
    Headed true cfgBuffer files.opened memory ∧ files.opened.image = some image.opened ∧
      Sizable image.opened ∧ Readable image.opened := by
  refine ⟨headed_iff.mpr ⟨header, loadable.headerOpens, loadable.headerRead, loadable.magic⟩,
    congrArg (Option.map Asset.opened) loadable.imageOpens,
    ⟨Int.natCast_nonneg _, Int.ofNat_le.mpr loadable.imageFits⟩, ?_⟩
  exact congrArg Int.ofNat loadable.imageRead

/-- Such files are loaded, and the ROM decides. -/
theorem doLoadConfigFile_loadable (loadable : Loadable memory cfgBuffer files header image) :
    doLoadConfigFile rom true cfgBuffer files errnum cfgFileSize memory =
      { errnum := if rom.validate (withImage memory cfgBuffer header image) cfgBuffer then errnum
          else .clnVerification
        result := 0
        cfgFileBuffer :=
          cfgBuffer + BitVec.ofNat 32 (fetchedHeader memory cfgBuffer header).headerLen
        cfgFileSize := image.content.length
        memory := withImage memory cfgBuffer header image
        stores := [(cfgBuffer, header.read sbhSize),
          (cfgBuffer + BitVec.ofNat 32 (fetchedHeader memory cfgBuffer header).headerLen,
            image.read image.content.length)]
        validated := some (withImage memory cfgBuffer header image) } := by
  obtain ⟨headed, opens, sizable, readable⟩ := loadable.opened
  have isHeader : files.opened.header = some header.opened :=
    congrArg (Option.map Asset.opened) loadable.headerOpens
  have fits : ¬ (image.opened.size < 0 ∨ cfgBufferSize < image.opened.size) := by
    rw [Sizable] at sizable
    omega
  have whole : image.opened.delivered image.opened.size.toNat = image.opened.size := readable
  rw [doLoadConfigFile, doLoadConfigFileFrom, if_pos rfl, if_pos (headed rfl), opens, loadImageFrom]
  dsimp only
  rw [if_neg fits, if_neg (not_not_intro whole), if_pos rfl, isHeader]
  rfl

/-- Other files leave an error. -/
theorem doLoadConfigFile_fails
    (missing : ∀ header image, ¬ Loadable memory cfgBuffer files header image) :
    (doLoadConfigFile rom true cfgBuffer files errnum cfgFileSize memory).errnum ≠ .none := by
  have attempted := @doLoadConfigFileFrom_attempted rom true cfgBuffer files.opened errnum
    cfgFileSize memory
  rw [doLoadConfigFile]
  revert attempted
  generalize doLoadConfigFileFrom rom true cfgBuffer files.opened errnum cfgFileSize memory = attempt
  intro attempted
  cases attempted with
  | headless => exact nofun
  | missing => exact nofun
  | tooBig => exact nofun
  | unread => exact nofun
  | rejected => exact nofun
  | loaded headed opens sizable readable _ =>
      obtain ⟨header, headerOpens, headerRead, magic⟩ := headed_iff.mp headed
      obtain ⟨image, imageOpens, rfl⟩ := Option.map_eq_some_iff.mp opens
      exact absurd ⟨headerOpens, headerRead, magic, imageOpens, Int.ofNat_le.mp sizable.2,
        Int.ofNat_inj.mp readable⟩ (missing header image)

/-! ## What the parser gets -/

/-- The bytes the parser reads, `size` from `cfg_file_buffer` on. -/
def Parsed (load : ConfigAttempt) (address : Address) : Prop :=
  InRegion load.cfgFileBuffer load.cfgFileSize.toNat address

/-- The configuration is loaded without an error only if the ROM was called, the
header it saw is the one fetched, which the image does not overwrite, and every
byte for the parser is one the ROM authenticated. -/
def Admits (rom : SecureRom) (cfgBuffer : Address) (memory : Memory) (files : ConfigFiles)
    (load : ConfigAttempt) : Prop :=
  load.errnum = .none → ∃ header ∈ files.header, ∃ validated ∈ load.validated,
    securityHeader validated cfgBuffer = fetchedHeader memory cfgBuffer header ∧
    (∀ address, InRegion cfgBuffer sbhSize address →
      validated address = withHeader memory cfgBuffer header address) ∧
    (∀ address, Parsed load address → ¬ InRegion cfgBuffer sbhSize address) ∧
    ∀ address, Parsed load address →
      InRegion cfgBuffer (rom.extent (securityHeader validated cfgBuffer)) address

/-- An image stored outside of the header leaves it as it was fetched. -/
theorem withImage_header
    (avoids : ∀ address, InRegion
        (cfgBuffer + BitVec.ofNat 32 (fetchedHeader memory cfgBuffer header).headerLen)
        (image.read image.content.length).length address →
      ¬ InRegion cfgBuffer sbhSize address) :
    (∀ address, InRegion cfgBuffer sbhSize address →
      withImage memory cfgBuffer header image address =
        withHeader memory cfgBuffer header address) ∧
    securityHeader (withImage memory cfgBuffer header image) cfgBuffer =
      fetchedHeader memory cfgBuffer header := by
  have bytes : ∀ address, InRegion cfgBuffer sbhSize address →
      withImage memory cfgBuffer header image address =
        withHeader memory cfgBuffer header address := fun address inside =>
    store_outside fun written => avoids address written inside
  have word : ∀ offset, offset + 4 ≤ sbhSize →
      loadWord (withImage memory cfgBuffer header image) (cfgBuffer + BitVec.ofNat 32 offset) =
        loadWord (withHeader memory cfgBuffer header) (cfgBuffer + BitVec.ofNat 32 offset) := by
    intro offset within
    have small : sbhSize < 2 ^ 32 := by decide
    refine loadWord_congr fun i lt => bytes _ ?_
    rw [BitVec.add_assoc, ← BitVec.ofNat_add]
    exact inRegion_add (by omega) (by omega)
  refine ⟨bytes, ?_⟩
  have magic := word 0 (by decide)
  rw [BitVec.add_zero] at magic
  rw [fetchedHeader, securityHeader, securityHeader, SecurityHeader.mk.injEq]
  exact ⟨magic, word 0x008 (by decide), word 0x020 (by decide)⟩

/-- The image fits behind the header and within what the header announces. -/
def Covered (rom : SecureRom) (cfgBuffer : Address) (memory : Memory) (header image : Asset) :
    Prop :=
  let fetched := fetchedHeader memory cfgBuffer header
  sbhSize ≤ fetched.headerLen ∧ fetched.headerLen + image.content.length ≤ 2 ^ 32 ∧
    fetched.headerLen + image.content.length ≤ rom.extent fetched

/-- What the ROM accepts and the parser gets is covered. -/
theorem covered_of_admits
    (admits : Admits rom cfgBuffer memory files
      (doLoadConfigFile rom true cfgBuffer files .none cfgFileSize memory))
    (loadable : Loadable memory cfgBuffer files header image)
    (accepts : rom.validate (withImage memory cfgBuffer header image) cfgBuffer = true) :
    image.content = [] ∨ Covered rom cfgBuffer memory header image := by
  rw [doLoadConfigFile_loadable loadable, accepts] at admits
  obtain ⟨header', isHeader, validated, isValidated, sameHeader, _, avoids, covers⟩ := admits rfl
  obtain rfl : header = header' := Option.some.inj (loadable.headerOpens.symm.trans isHeader)
  obtain rfl := Option.some.inj isValidated
  rcases Nat.eq_zero_or_pos image.content.length with empty | nonempty
  · exact .inl (List.eq_nil_of_length_eq_zero empty)
  · have lenLt : (fetchedHeader memory cfgBuffer header).headerLen < 2 ^ 32 := loadWord_lt _ _
    obtain ⟨past, fits⟩ := (avoids_iff (by decide) nonempty lenLt).mp avoids
    refine .inr ⟨past, fits, ?_⟩
    have last := covers (cfgBuffer + BitVec.ofNat 32 ((fetchedHeader memory cfgBuffer
      header).headerLen + (image.content.length - 1))) (by
        rw [BitVec.ofNat_add, ← BitVec.add_assoc]
        exact inRegion_add (Nat.sub_lt nonempty Nat.one_pos) (by omega))
    rw [sameHeader, InRegion, BitVec.add_comm, BitVec.add_sub_cancel, BitVec.toNat_ofNat,
      Nat.mod_eq_of_lt (by omega)] at last
    omega

/-- What is covered may be given to the parser. -/
theorem admits_of_covered
    (covered : ∀ header image, Loadable memory cfgBuffer files header image →
      rom.validate (withImage memory cfgBuffer header image) cfgBuffer = true →
        image.content = [] ∨ Covered rom cfgBuffer memory header image) :
    Admits rom cfgBuffer memory files
      (doLoadConfigFile rom true cfgBuffer files .none cfgFileSize memory) := by
  intro noError
  by_cases missing : ∀ header image, ¬ Loadable memory cfgBuffer files header image
  · exact absurd noError (doLoadConfigFile_fails missing)
  · obtain ⟨header, image, loadable⟩ : ∃ header image,
        Loadable memory cfgBuffer files header image := by
      simpa using missing
    rw [doLoadConfigFile_loadable loadable] at noError ⊢
    have accepts : rom.validate (withImage memory cfgBuffer header image) cfgBuffer = true := by
      by_contra rejects
      rw [if_neg rejects] at noError
      cases noError
    have lenLt : (fetchedHeader memory cfgBuffer header).headerLen < 2 ^ 32 := loadWord_lt _ _
    have avoids : ∀ address, InRegion
          (cfgBuffer + BitVec.ofNat 32 (fetchedHeader memory cfgBuffer header).headerLen)
          image.content.length address → ¬ InRegion cfgBuffer sbhSize address := by
      rcases covered header image loadable accepts with empty | ⟨past, fits, _⟩
      · intro address inside
        rw [empty] at inside
        exact absurd inside (Nat.not_lt_zero _)
      · rcases Nat.eq_zero_or_pos image.content.length with empty | nonempty
        · intro address inside
          rw [empty] at inside
          exact absurd inside (Nat.not_lt_zero _)
        · exact (avoids_iff (by decide) nonempty lenLt).mpr ⟨past, fits⟩
    obtain ⟨kept, sameHeader⟩ := @withImage_header cfgBuffer memory header image
      (by rw [loadable.imageRead]; exact avoids)
    refine ⟨header, loadable.headerOpens, _, rfl, sameHeader, kept, avoids, ?_⟩
    intro address inside
    rw [sameHeader]
    rcases covered header image loadable accepts with empty | ⟨_, fits, within⟩
    · rw [Parsed, empty] at inside
      exact absurd inside (Nat.not_lt_zero _)
    · rw [Parsed, InRegion] at inside
      dsimp only [Int.toNat_natCast] at inside
      rw [InRegion]
      bv_omega

/-- In secure mode a loaded configuration is authenticated exactly when every image
the ROM accepts is empty, or starts behind the fetched header and ends within the
bytes that header makes the ROM authenticate. -/
theorem doLoadConfigFile_admits_iff (rom : SecureRom) (cfgBuffer : Address) (memory : Memory)
    (files : ConfigFiles) (cfgFileSize : Int) :
    Admits rom cfgBuffer memory files
        (doLoadConfigFile rom true cfgBuffer files .none cfgFileSize memory) ↔
      ∀ header image, Loadable memory cfgBuffer files header image →
        rom.validate (withImage memory cfgBuffer header image) cfgBuffer = true →
          image.content = [] ∨ Covered rom cfgBuffer memory header image :=
  ⟨fun admits _ _ => covered_of_admits admits, admits_of_covered⟩

end Secure

/-- The fifth byte of the image is parsed but not authenticated. -/
theorem doLoadConfigFile_admits_more :
    ¬ Admits acceptingRom 0x1000 (fun _ => 0) ⟨some smallHeader, some longerImage⟩
      (doLoadConfigFile acceptingRom true 0x1000 ⟨some smallHeader, some longerImage⟩ .none 0
        fun _ => 0) := by
  intro admits
  have loadable : Loadable (fun _ => 0) 0x1000 ⟨some smallHeader, some longerImage⟩ smallHeader
      longerImage :=
    ⟨rfl, by decide +kernel, by decide +kernel, rfl, by decide +kernel, by decide +kernel⟩
  rcases covered_of_admits admits loadable rfl with empty | ⟨_, _, within⟩
  · cases empty
  · revert within
    decide +kernel

end GrubLegacy.Clanton
