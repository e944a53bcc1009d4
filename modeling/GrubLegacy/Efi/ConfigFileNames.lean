import GrubLegacy.Efi.PathParts
import GrubLegacy.Fsys.PathNames

/-!
# The names of the configuration file and the saved default

`grub_set_config_file` of `efimisc.c` makes both names from the path of the running image, or
takes a path that is a configuration file. Each way has its own check of the length, and the
second name is checked apart from the first.
-/

namespace GrubLegacy.Efi

open Base CStrings Fsys

/-- `config_file` and `saved_default_file` -/
inductive NameBuffer where
  | configFile
  | savedDefaultFile
deriving DecidableEq, Repr

/-- The size of both. -/
def nameBufferSize : Nat := 128

/-- DEFAULT_SAVED_DEFAULT_FILE_NAME -/
def defaultSavedDefaultFileName : List UInt8 := ascii "grub.default"

/-- DEFAULT_CONFIG_FILE_NAME -/
def defaultConfigFileName : List UInt8 := ascii "grub.conf"

def dotConf : List UInt8 := ascii ".conf"

def dotDefault : List UInt8 := ascii ".default"

/-- What the two buffers hold, and the stores: a buffer, a place in it and a length. -/
structure NameBuffers where
  memory : NameBuffer → Area
  stores : List (NameBuffer × Nat × Nat)

/-- `grub_memmove` from the start of a string to a place in a buffer. -/
def NameBuffers.memmove (buffers : NameBuffers) (buffer : NameBuffer) (place : Nat)
    (text : List UInt8) (length : Nat) : NameBuffers :=
  { memory := Function.update buffers.memory buffer
      (copyIn (buffers.memory buffer) place (areaOf text) 0 length)
    stores := buffers.stores ++ [(buffer, place, length)] }

/-- `grub_strcpy` -/
def NameBuffers.strcpy (buffers : NameBuffers) (buffer : NameBuffer) (place : Nat)
    (text : List UInt8) : NameBuffers :=
  buffers.memmove buffer place text (text.length + 1)

/-- The path ends in `.efi`, and does not only consist of it. -/
def isEfiImage (path : List UInt8) : Bool :=
  4 < path.length && areaOf path (path.length - 4) = dot &&
    tolower (areaOf path (path.length - 3)) = charOf 'e' &&
    tolower (areaOf path (path.length - 2)) = charOf 'f' &&
    tolower (areaOf path (path.length - 1)) = charOf 'i'

/-- The end of `grub_set_config_file`, with `path_name_len` as it is there. -/
def setSavedDefaultFile (path : List UInt8) (dirEnd pathNameLen : Nat) (buffers : NameBuffers) :
    NameBuffers :=
  if pathNameLen + (defaultSavedDefaultFileName.length + 1) > 128 then buffers
  else
    (buffers.memmove .savedDefaultFile 0 path (dirEnd + 1)).strcpy .savedDefaultFile (dirEnd + 1)
      defaultSavedDefaultFileName

/-- `grub_set_config_file` -/
def grubSetConfigFile (path : List UInt8) (buffers : NameBuffers) : NameBuffers :=
  if isEfiImage path then
    if path.length + 1 > 127 then buffers
    else
      let buffers := (buffers.memmove .configFile 0 path (path.length - 4)).strcpy .configFile
        (path.length - 4) dotConf
      if path.length + 4 > 127 then buffers
      else
        (buffers.memmove .savedDefaultFile 0 path (path.length - 4)).strcpy .savedDefaultFile
          (path.length - 4) dotDefault
  else
    match strrchr slash path with
    | none =>
      (buffers.strcpy .configFile 0 defaultConfigFileName).strcpy .savedDefaultFile 0
        defaultSavedDefaultFileName
    | some dirEnd =>
      if (path.drop dirEnd).length = 1 then
        if dirEnd + 1 + (defaultConfigFileName.length + 1) > 128 then buffers
        else
          setSavedDefaultFile path dirEnd (dirEnd + 1)
            ((buffers.memmove .configFile 0 path (dirEnd + 1)).strcpy .configFile (dirEnd + 1)
              defaultConfigFileName)
      else
        setSavedDefaultFile path dirEnd path.length
          (buffers.memmove .configFile 0 path (path.length + 1))

/-! ## What it is for -/

/-- A path name, no longer than `strlen` can count. -/
structure PathName where
  text : List UInt8
  free : NulFree text
  short : text.length < 2 ^ 31

/-- The buffers before the call, each with a string in it. -/
structure TerminatedBuffers where
  memory : NameBuffer → Area
  ends : ∀ buffer, EndsWithin (memory buffer) 0 (nameBufferSize - 1)

/-- The string in a buffer. -/
def nameIn (memory : NameBuffer → Area) (buffer : NameBuffer) : List UInt8 :=
  stringAt (memory buffer) 0

/-- After the call. -/
def PathName.set (path : PathName) (before : TerminatedBuffers) : NameBuffers :=
  grubSetConfigFile path.text { memory := before.memory, stores := [] }

/-- The names are set as they should be: inside of the buffers, as strings, and together or
not at all. -/
structure SetSafely (path : PathName) (before : TerminatedBuffers) : Prop where
  inside : ∀ buffer place length, (buffer, place, length) ∈ (path.set before).stores →
    place + length ≤ nameBufferSize
  ends : ∀ buffer, EndsWithin ((path.set before).memory buffer) 0 (nameBufferSize - 1)
  together : (∀ buffer, nameIn (path.set before).memory buffer = nameIn before.memory buffer) ∨
    ∀ buffer, directory (nameIn (path.set before).memory buffer) = directory path.text

/-! ## The ways to make the names -/

/-- How a path gives the names. -/
inductive PathKind where
  | efiImage
  | plainName
  | directoryName
  | configFile
deriving DecidableEq, Repr

def pathKind (path : List UInt8) : PathKind :=
  if isEfiImage path then .efiImage
  else
    match strrchr slash path with
    | none => .plainName
    | some dirEnd => if (path.drop dirEnd).length = 1 then .directoryName else .configFile

/-- The name of the configuration file that goes with a path. -/
def configName (path : List UInt8) : List UInt8 :=
  match pathKind path with
  | .efiImage => path.take (path.length - 4) ++ dotConf
  | .plainName => defaultConfigFileName
  | .directoryName => path ++ defaultConfigFileName
  | .configFile => path

/-- The name of the saved default that goes with it. -/
def savedName (path : List UInt8) : List UInt8 :=
  match pathKind path with
  | .efiImage => path.take (path.length - 4) ++ dotDefault
  | _ => directory path ++ defaultSavedDefaultFileName

/-- Up to this length both names are set. -/
def bothUpTo : PathKind → Nat
  | .efiImage => 123
  | .plainName => 2 ^ 31
  | .directoryName => 115
  | .configFile => 115

/-- Up to this length the name of the configuration file is set. -/
def configUpTo : PathKind → Nat
  | .efiImage => 126
  | .plainName => 2 ^ 31
  | .directoryName => 118
  | .configFile => 127

/-- The path fits: a configuration file into its buffer, and where only that name has room,
the saved default lies in the directory already or the name is the one that was there. -/
structure PathFits (path : PathName) (before : TerminatedBuffers) : Prop where
  short : pathKind path.text = .configFile → path.text.length ≤ 127
  along : bothUpTo (pathKind path.text) < path.text.length →
    path.text.length ≤ configUpTo (pathKind path.text) →
      directory (nameIn before.memory .savedDefaultFile) = directory path.text ∨
        nameIn before.memory .configFile = configName path.text

section Stores

variable {buffers last : NameBuffers} {buffer other : NameBuffer} {path name : List UInt8}
  {place length : Nat}

/-- A move changes the buffer it is to, -/
@[simp] theorem memmove_memory_same : (buffers.memmove buffer place path length).memory buffer =
    copyIn (buffers.memory buffer) place (areaOf path) 0 length := by
  simp [NameBuffers.memmove]

/-- and no other one. -/
@[simp] theorem memmove_memory_other (apart : other ≠ buffer) :
    (buffers.memmove buffer place path length).memory other = buffers.memory other := by
  simp [NameBuffers.memmove, apart]

/-- It is noted behind the earlier stores. -/
@[simp] theorem memmove_stores : (buffers.memmove buffer place path length).stores =
    buffers.stores ++ [(buffer, place, length)] := rfl

/-- Stores that make a name in a buffer, and reach no further than it. -/
structure Puts (buffers last : NameBuffers) (buffer : NameBuffer) (name : List UInt8) : Prop where
  holds : Holds (last.memory buffer) 0 name
  others : ∀ other, other ≠ buffer → last.memory other = buffers.memory other
  stores : ∀ store ∈ last.stores, store ∈ buffers.stores ∨
    store.2.1 + store.2.2 ≤ name.length + 1

/-- A part of a path, and a fixed name behind it. -/
theorem puts_prefixed {count : Nat} (free : NulFree path) (nameFree : NulFree name)
    (inside : count ≤ path.length) :
    Puts buffers ((buffers.memmove buffer 0 path count).strcpy buffer count name) buffer
      (path.take count ++ name) where
  holds := {
    bytes := by
      intro i small
      have total : (path.take count ++ name).length = count + name.length := by
        simp [inside]
      rw [total] at small
      simp only [NameBuffers.strcpy, memmove_memory_same, Nat.zero_add, areaOf_append,
        List.length_take, Nat.min_eq_left inside]
      by_cases first : i < count
      · rw [copyIn_outside (.inl first), copyIn_inside (by omega) (by omega), if_pos first,
          areaOf_take, if_pos first]
        simp
      · rw [copyIn_inside (by omega) (by omega), if_neg first, Nat.zero_add]
    free := by
      intro c member
      rcases List.mem_append.mp member with early | late
      · exact free c (List.mem_of_mem_take early)
      · exact nameFree c late }
  others other apart := by
    simp [NameBuffers.strcpy, apart]
  stores store member := by
    simp only [NameBuffers.strcpy, memmove_stores, List.append_assoc, List.mem_append,
      List.mem_singleton] at member
    rcases member with earlier | rfl | rfl
    · exact .inl earlier
    · right
      simp [inside]
      omega
    · right
      simp [inside]
      omega

/-- A fixed name alone. -/
theorem puts_name (nameFree : NulFree name) :
    Puts buffers (buffers.strcpy buffer 0 name) buffer name where
  holds := {
    bytes := by
      intro i small
      rw [NameBuffers.strcpy, memmove_memory_same, copyIn_inside (by omega) (by omega)]
      simp
    free := nameFree }
  others other apart := by
    simp [NameBuffers.strcpy, apart]
  stores store member := by
    simp only [NameBuffers.strcpy, memmove_stores, List.mem_append, List.mem_singleton] at member
    rcases member with earlier | rfl
    · exact .inl earlier
    · right
      simp

end Stores

/-! ## What the call comes to -/

section Call

attribute [local simp] configName savedName

variable {path : List UInt8} {buffers : NameBuffers} {dirEnd : Nat}

/-- The endings have no NUL, -/
theorem dotConf_free : NulFree dotConf := nulFree_of_all (by decide)

/-- neither of them, -/
theorem dotDefault_free : NulFree dotDefault := nulFree_of_all (by decide)

/-- and the default names have none, -/
theorem defaultConfigFileName_free : NulFree defaultConfigFileName := nulFree_of_all (by decide)

/-- neither of them. -/
theorem defaultSavedDefaultFileName_free : NulFree defaultSavedDefaultFileName :=
  nulFree_of_all (by decide)

/-- The two names are put one after the other, each if the path is short enough for it. -/
structure SetsNames (path : List UInt8) (buffers middle last : NameBuffers) : Prop where
  config : Puts buffers middle .configFile (configName path)
  saved : Puts middle last .savedDefaultFile (savedName path)
  result : grubSetConfigFile path buffers =
    if path.length ≤ bothUpTo (pathKind path) then last
    else if path.length ≤ configUpTo (pathKind path) ∨ pathKind path = .configFile then middle
    else buffers
  whole : pathKind path = .configFile → (.configFile, 0, path.length + 1) ∈ middle.stores

/-- The last slash ends the directory. -/
theorem directory_of_strrchr (found : strrchr slash path = some dirEnd) :
    directory path = path.take (dirEnd + 1) := by
  obtain ⟨front, back, rfl, plain, rfl⟩ := exists_of_strrchr found
  have parts : front ++ slash :: back = front ++ [slash] ++ back := by simp
  rw [parts, directory_append _ plain, directory_concat, List.take_left' (by simp)]

/-- A path that ends in its last slash is a directory. -/
theorem length_of_strrchr (found : strrchr slash path = some dirEnd) :
    dirEnd + 1 ≤ path.length ∧ ((path.drop dirEnd).length = 1 ↔ path.length = dirEnd + 1) := by
  obtain ⟨front, back, rfl, plain, rfl⟩ := exists_of_strrchr found
  simp

/-- For the path of an image both names are set, -/
theorem efiImage_sets (free : NulFree path) (efi : isEfiImage path = true) :
    ∃ middle last, SetsNames path buffers middle last := by
  have kind : pathKind path = .efiImage := by rw [pathKind, if_pos efi]
  let middle := (buffers.memmove .configFile 0 path (path.length - 4)).strcpy .configFile
    (path.length - 4) dotConf
  let last := (middle.memmove .savedDefaultFile 0 path (path.length - 4)).strcpy
    .savedDefaultFile (path.length - 4) dotDefault
  refine ⟨middle, last, ⟨?_, ?_, ?_, ?_⟩⟩
  · rw [configName, kind]
    exact puts_prefixed free dotConf_free (Nat.sub_le _ _)
  · rw [savedName, kind]
    exact puts_prefixed free dotDefault_free (Nat.sub_le _ _)
  · rw [grubSetConfigFile, if_pos efi, kind]
    simp only [bothUpTo, configUpTo, reduceCtorEq, or_false]
    split_ifs <;> first | rfl | omega
  · simp [kind]

/-- for a plain name, -/
theorem plainName_sets (short : path.length < 2 ^ 31) (efi : ¬ isEfiImage path = true)
    (found : strrchr slash path = none) : ∃ middle last, SetsNames path buffers middle last := by
  have kind : pathKind path = .plainName := by rw [pathKind, if_neg efi, found]
  have plain : directory path = [] := directory_of_plain (strrchr_eq_none_iff.mp found)
  have within : path.length ≤ bothUpTo .plainName := Nat.le_of_lt short
  let middle := buffers.strcpy .configFile 0 defaultConfigFileName
  let last := middle.strcpy .savedDefaultFile 0 defaultSavedDefaultFileName
  refine ⟨middle, last, ⟨?_, ?_, ?_, ?_⟩⟩
  · rw [configName, kind]
    exact puts_name defaultConfigFileName_free
  · rw [savedName, kind, plain, List.nil_append]
    exact puts_name defaultSavedDefaultFileName_free
  · rw [grubSetConfigFile, if_neg efi, found, kind, if_pos within]
  · simp [kind]

/-- for a directory -/
theorem directoryName_sets (free : NulFree path) (efi : ¬ isEfiImage path = true)
    (found : strrchr slash path = some dirEnd) (ends : (path.drop dirEnd).length = 1) :
    ∃ middle last, SetsNames path buffers middle last := by
  have kind : pathKind path = .directoryName := by
    rw [pathKind, if_neg efi, found]
    exact if_pos ends
  have whole := (length_of_strrchr found).2.mp ends
  have isDirectory := directory_of_strrchr found
  let middle := (buffers.memmove .configFile 0 path (dirEnd + 1)).strcpy .configFile (dirEnd + 1)
    defaultConfigFileName
  let last := (middle.memmove .savedDefaultFile 0 path (dirEnd + 1)).strcpy .savedDefaultFile
    (dirEnd + 1) defaultSavedDefaultFileName
  refine ⟨middle, last, ⟨?_, ?_, ?_, ?_⟩⟩
  · rw [configName, kind]
    have name : Puts buffers middle .configFile (path.take (dirEnd + 1) ++ defaultConfigFileName) :=
      puts_prefixed free defaultConfigFileName_free whole.ge
    rwa [List.take_of_length_le whole.le] at name
  · rw [savedName, kind, isDirectory]
    exact puts_prefixed free defaultSavedDefaultFileName_free whole.ge
  · rw [grubSetConfigFile, if_neg efi, found, kind]
    dsimp only
    rw [if_pos ends, setSavedDefaultFile]
    simp only [bothUpTo, configUpTo, reduceCtorEq, or_false, whole,
      show defaultConfigFileName.length = 9 from rfl,
      show defaultSavedDefaultFileName.length = 12 from rfl]
    split_ifs <;> first | rfl | omega
  · simp [kind]

/-- and for a configuration file. -/
theorem configFile_sets (free : NulFree path) (efi : ¬ isEfiImage path = true)
    (found : strrchr slash path = some dirEnd) (ends : ¬ (path.drop dirEnd).length = 1) :
    ∃ middle last, SetsNames path buffers middle last := by
  have kind : pathKind path = .configFile := by
    rw [pathKind, if_neg efi, found]
    exact if_neg ends
  have inside := (length_of_strrchr found).1
  let middle := buffers.strcpy .configFile 0 path
  let last := (middle.memmove .savedDefaultFile 0 path (dirEnd + 1)).strcpy .savedDefaultFile
    (dirEnd + 1) defaultSavedDefaultFileName
  refine ⟨middle, last, ⟨?_, ?_, ?_, ?_⟩⟩
  · rw [configName, kind]
    exact puts_name free
  · rw [savedName, kind, directory_of_strrchr found]
    exact puts_prefixed free defaultSavedDefaultFileName_free inside
  · rw [grubSetConfigFile, if_neg efi, found, kind]
    dsimp only
    rw [if_neg ends, setSavedDefaultFile]
    simp only [bothUpTo, or_true, if_true,
      show defaultSavedDefaultFileName.length = 12 from rfl]
    split_ifs <;> first | rfl | omega
  · intro _
    simp [middle, NameBuffers.strcpy]

/-- Each way to make the names puts them one after the other. -/
theorem exists_setsNames (free : NulFree path) (short : path.length < 2 ^ 31)
    (buffers : NameBuffers) : ∃ middle last, SetsNames path buffers middle last := by
  by_cases efi : isEfiImage path = true
  · exact efiImage_sets free efi
  · cases found : strrchr slash path with
    | none => exact plainName_sets short efi found
    | some dirEnd =>
        by_cases ends : (path.drop dirEnd).length = 1
        · exact directoryName_sets free efi found ends
        · exact configFile_sets free efi found ends

/-! ## Where the names lie -/

/-- The four characters of `.efi` have no slash among them. -/
theorem plain_of_isEfiImage (efi : isEfiImage path = true) : slash ∉ path.drop (path.length - 4) := by
  simp only [isEfiImage, Bool.and_eq_true, decide_eq_true_eq] at efi
  obtain ⟨⟨⟨⟨long, first⟩, second⟩, third⟩, fourth⟩ := efi
  intro member
  obtain ⟨i, inside, isSlash⟩ := List.getElem_of_mem member
  rw [List.length_drop] at inside
  rw [List.getElem_drop] at isSlash
  have atSlash : areaOf path (path.length - 4 + i) = slash := by
    rw [areaOf_lt (by omega)]
    exact isSlash
  have cases : i = 0 ∨ i = 1 ∨ i = 2 ∨ i = 3 := by omega
  rcases cases with rfl | rfl | rfl | rfl
  · rw [Nat.add_zero, first] at atSlash
    exact absurd atSlash (by decide)
  · rw [show path.length - 4 + 1 = path.length - 3 by omega] at atSlash
    rw [atSlash] at second
    exact absurd second (by decide)
  · rw [show path.length - 4 + 2 = path.length - 2 by omega] at atSlash
    rw [atSlash] at third
    exact absurd third (by decide)
  · rw [show path.length - 4 + 3 = path.length - 1 by omega] at atSlash
    rw [atSlash] at fourth
    exact absurd fourth (by decide)

/-- An image is in the directory of its stem. -/
theorem directory_stem (efi : isEfiImage path = true) :
    directory (path.take (path.length - 4)) = directory path := by
  have parts := directory_append (path.take (path.length - 4)) (plain_of_isEfiImage efi)
  rw [List.take_append_drop] at parts
  exact parts.symm

/-- A path of this kind is that of an image. -/
theorem isEfiImage_of_kind (kind : pathKind path = .efiImage) : isEfiImage path = true := by
  by_contra efi
  rw [pathKind, if_neg efi] at kind
  cases found : strrchr slash path with
  | none => simp [found] at kind
  | some dirEnd =>
      simp only [found] at kind
      split at kind <;> cases kind

/-- A plain name is in no directory. -/
theorem plain_of_kind (kind : pathKind path = .plainName) : directory path = [] := by
  cases found : strrchr slash path with
  | none => exact directory_of_plain (strrchr_eq_none_iff.mp found)
  | some dirEnd =>
      rw [pathKind] at kind
      split at kind
      · cases kind
      · simp only [found] at kind
        split at kind <;> cases kind

/-- Both names lie in the directory of the path. -/
theorem directory_configName : directory (configName path) = directory path := by
  rw [configName]
  split
  · next kind =>
      rw [directory_append _ (by decide), directory_stem (isEfiImage_of_kind kind)]
  · next kind =>
      rw [plain_of_kind kind]
      exact directory_of_plain (by decide)
  · exact directory_append _ (by decide)
  · rfl

/-- The directory of a directory is itself. -/
theorem directory_directory (path : List UInt8) : directory (directory path) = directory path := by
  rw [directory, directory, List.rdropWhile_idempotent]

/-- The saved default is in the directory of the path. -/
theorem directory_savedName : directory (savedName path) = directory path := by
  rw [savedName]
  split
  · next kind =>
      rw [directory_append _ (by decide), directory_stem (isEfiImage_of_kind kind)]
  · rw [directory_append _ (by decide), directory_directory]

/-- A directory is no longer than its path. -/
theorem length_directory_le : (directory path).length ≤ path.length :=
  (List.rdropWhile_prefix _ _).length_le

/-- Up to the bound of its kind a path has a configuration name of 127 characters, -/
theorem length_configName (short : path.length ≤ configUpTo (pathKind path)) :
    (configName path).length ≤ 127 := by
  rw [configName]
  split
  · next kind =>
      rw [kind, configUpTo] at short
      simp [dotConf, ascii]
      omega
  · decide
  · next kind =>
      rw [kind, configUpTo] at short
      simp [defaultConfigFileName, ascii]
      omega
  · next kind =>
      rw [kind, configUpTo] at short
      exact short

/-- and a name of the saved default. -/
theorem length_savedName (short : path.length ≤ bothUpTo (pathKind path)) :
    (savedName path).length ≤ 127 := by
  have within := @length_directory_le path
  cases kind : pathKind path with
  | efiImage =>
      rw [kind, bothUpTo] at short
      simp [savedName, kind, dotDefault, ascii]
      omega
  | plainName =>
      simp [savedName, kind, plain_of_kind kind, defaultSavedDefaultFileName, ascii]
  | directoryName =>
      rw [kind, bothUpTo] at short
      simp [savedName, kind, defaultSavedDefaultFileName, ascii]
      omega
  | configFile =>
      rw [kind, bothUpTo] at short
      simp [savedName, kind, defaultSavedDefaultFileName, ascii]
      omega

/-- The second bound is not above the first. -/
theorem bothUpTo_le (kind : PathKind) : bothUpTo kind ≤ configUpTo kind := by
  cases kind <;> simp [bothUpTo, configUpTo]

end Call

/-! ## When the names are set safely -/

section Safe

variable {path : PathName} {before : TerminatedBuffers} {buffers middle last : NameBuffers}

/-- A name that fits ends in its buffer. -/
theorem Puts.ends {buffer : NameBuffer} {name : List UInt8} (puts : Puts buffers last buffer name)
    (fits : name.length ≤ 127) : EndsWithin (last.memory buffer) 0 (nameBufferSize - 1) :=
  puts.holds.endsWithin fits

/-- A name that is put and fits is the one in the buffer. -/
theorem Puts.name {buffer : NameBuffer} {name : List UInt8} (puts : Puts buffers last buffer name)
    (fits : name.length ≤ 127) : nameIn last.memory buffer = name :=
  puts.holds.stringAt (Nat.lt_of_le_of_lt fits (by decide))

/-- With both names in place everything is as it should be. -/
theorem safe_of_last
    (config : Puts { memory := before.memory, stores := [] } middle .configFile
      (configName path.text))
    (saved : Puts middle last .savedDefaultFile (savedName path.text))
    (short : path.text.length ≤ bothUpTo (pathKind path.text)) (result : path.set before = last) :
    SetSafely path before := by
  have configFits := length_configName (short.trans (bothUpTo_le _))
  have savedFits := length_savedName short
  have kept : last.memory .configFile = middle.memory .configFile :=
    saved.others .configFile (by simp)
  refine ⟨?_, ?_, .inr ?_⟩
  · rw [result]
    intro buffer place length member
    rw [nameBufferSize]
    rcases saved.stores _ member with earlier | fits
    · rcases config.stores _ earlier with none | fits
      · cases none
      · dsimp only at fits
        omega
    · dsimp only at fits
      omega
  · rw [result]
    rintro (_ | _)
    · rw [kept]
      exact config.ends configFits
    · exact saved.ends savedFits
  · rw [result]
    rintro (_ | _)
    · rw [nameIn, kept, ← nameIn, config.name configFits]
      exact directory_configName
    · rw [saved.name savedFits]
      exact directory_savedName

/-- With one of them in place the other one decides. -/
theorem safe_of_middle
    (config : Puts { memory := before.memory, stores := [] } middle .configFile
      (configName path.text))
    (short : path.text.length ≤ configUpTo (pathKind path.text))
    (result : path.set before = middle) :
    SetSafely path before ↔ directory (nameIn before.memory .savedDefaultFile) =
        directory path.text ∨ nameIn before.memory .configFile = configName path.text := by
  have configFits := length_configName short
  have kept : middle.memory .savedDefaultFile = before.memory .savedDefaultFile :=
    config.others .savedDefaultFile (by simp)
  have configIs := config.name configFits
  have savedIs : nameIn middle.memory .savedDefaultFile = nameIn before.memory .savedDefaultFile := by
    rw [nameIn, kept, nameIn]
  constructor
  · intro safe
    have together := safe.together
    rw [result] at together
    rcases together with same | moved
    · right
      rw [← same .configFile, configIs]
    · left
      rw [← savedIs, moved .savedDefaultFile]
  · intro fits
    refine ⟨?_, ?_, ?_⟩
    · rw [result]
      intro buffer place length member
      rw [nameBufferSize]
      rcases config.stores _ member with none | fits
      · cases none
      · dsimp only at fits
        omega
    · rw [result]
      rintro (_ | _)
      · exact config.ends configFits
      · rw [kept]
        exact before.ends .savedDefaultFile
    · rw [result]
      rcases fits with there | same
      · right
        rintro (_ | _)
        · rw [configIs]
          exact directory_configName
        · rw [savedIs, there]
      · left
        rintro (_ | _)
        · rw [configIs, same]
        · exact savedIs

/-- The path of a configuration file is moved as a whole, whether it fits or not. -/
theorem overflows
    (sets : SetsNames path.text { memory := before.memory, stores := [] } middle last)
    (result : path.set before = middle) (kind : pathKind path.text = .configFile)
    (long : 127 < path.text.length) : ¬ SetSafely path before := by
  intro safe
  have stored : (.configFile, 0, path.text.length + 1) ∈ (path.set before).stores := by
    rw [result]
    exact sets.whole kind
  have fits := safe.inside .configFile 0 (path.text.length + 1) stored
  rw [nameBufferSize] at fits
  omega

/-- The names are set safely just when the path fits. -/
theorem setSafely_iff (path : PathName) (before : TerminatedBuffers) :
    SetSafely path before ↔ PathFits path before := by
  obtain ⟨middle, last, sets⟩ :=
    exists_setsNames path.free path.short { memory := before.memory, stores := [] }
  have result : path.set before = _ := sets.result
  by_cases both : path.text.length ≤ bothUpTo (pathKind path.text)
  · rw [if_pos both] at result
    refine iff_of_true (safe_of_last sets.config sets.saved both result) ⟨?_, ?_⟩
    · intro kind
      rw [kind, bothUpTo] at both
      omega
    · intro long
      omega
  · rw [if_neg both] at result
    by_cases config : path.text.length ≤ configUpTo (pathKind path.text)
    · rw [if_pos (.inl config)] at result
      rw [safe_of_middle sets.config config result]
      constructor
      · intro decided
        refine ⟨?_, fun _ _ => decided⟩
        intro kind
        rw [kind, configUpTo] at config
        exact config
      · intro fits
        exact fits.along (by omega) config
    · by_cases kind : pathKind path.text = .configFile
      · rw [if_pos (.inr kind)] at result
        rw [kind, configUpTo] at config
        refine iff_of_false (overflows sets result kind (Nat.lt_of_not_le config)) ?_
        · intro fits
          have short := fits.short kind
          omega
      · rw [if_neg (by simp [config, kind])] at result
        refine iff_of_true ⟨?_, ?_, .inl ?_⟩ ⟨fun isKind => absurd isKind kind, ?_⟩
        · rw [result]
          intro buffer place length member
          cases member
        · rw [result]
          exact before.ends
        · rw [result]
          intro buffer
          rfl
        · intro _ short
          omega

end Safe

/-- What the two buffers are initialized with. -/
def initialNames : TerminatedBuffers where
  memory
    | .configFile => areaOf (ascii "/boot/grub/menu.lst")
    | .savedDefaultFile => areaOf (ascii "/boot/grub/grub.default")
  ends := by
    rintro (_ | _)
    · exact ⟨19, by decide, by decide⟩
    · exact ⟨23, by decide, by decide⟩

/-- The long path has no NUL, -/
theorem longText_free : NulFree (slash :: List.replicate 127 (charOf 'a')) := by
  intro c member
  rcases List.mem_cons.mp member with rfl | copy
  · decide
  · rw [List.eq_of_mem_replicate copy]
    decide

/-- A configuration file whose path is as long as its buffer. -/
def longPath : PathName where
  text := slash :: List.replicate 127 (charOf 'a')
  free := longText_free
  short := by simp

/-- and is that of a configuration file. -/
theorem longPath_kind : pathKind longPath.text = .configFile := by
  have found : strrchr slash longPath.text = some 0 := by
    refine @strrchr_append slash [] (List.replicate 127 (charOf 'a')) ?_
    intro member
    exact absurd (List.eq_of_mem_replicate member) (by decide)
  have length : longPath.text.length = 128 := by simp [longPath]
  have noDot : areaOf longPath.text 124 ≠ dot := by decide
  have efi : ¬ isEfiImage longPath.text = true := by
    intro efi
    simp only [isEfiImage, length, Bool.and_eq_true, decide_eq_true_eq] at efi
    exact noDot efi.1.1.1.2
  rw [pathKind, if_neg efi, found]
  simp [longPath]

/-- Its NUL is stored behind the buffer. -/
theorem longPath_overflows : ¬ SetSafely longPath initialNames := by
  obtain ⟨middle, last, sets⟩ := exists_setsNames longPath.free longPath.short
    { memory := initialNames.memory, stores := [] }
  have long : 127 < longPath.text.length := by simp [longPath]
  refine overflows sets ?_ longPath_kind long
  have result : longPath.set initialNames = _ := sets.result
  rw [longPath_kind, bothUpTo, if_neg (by omega), if_pos (.inr rfl)] at result
  exact result

end GrubLegacy.Efi
