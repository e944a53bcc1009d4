import GrubLegacy.Base.Runs
import GrubLegacy.Clanton.SpiAsset

/-!
# Lookups in the master flash header

`grub_cln_mfh_entry_lookup` of `mfh.c` with its cache: the copy of the header that was
looked at first, and the words that a lookup reads of it. The status that is returned is
`errnum`, which the loader goes on to use between the lookups.
-/

namespace GrubLegacy.Clanton

open Base Stage2

/-! ## The cache -/

/-- sizeof (struct grub_cln_mfh) -/
def mfhSize : Nat := 0x200

/-- The bytes from `cln_mfh` on, of which the first belong to the copy, `cln_mfh_loaded` and
`errnum`. -/
structure MfhCache where
  clnMfh : Memory
  loaded : Bool
  errnum : GrubError

/-- `grub_cln_mfh_load` -/
def grubClnMfhLoad (mfh : Memory) (cache : MfhCache) : MfhCache :=
  { cache with
    clnMfh := fun address => if address.toNat < mfhSize then mfh address else cache.clnMfh address
    loaded := true }

/-- What a lookup is called with: the bytes from `mfh_addr` on, and whether `addr` and `len`
point anywhere. -/
structure MfhLookup where
  mfhAddr : Option Memory
  entryType : Nat
  addr : Bool
  len : Bool

/-- What it leaves: the cache, the status, the item that `*addr` and `*len` are taken from,
and the offsets in `cln_mfh` of the words it reads. -/
structure MfhResult where
  cache : MfhCache
  status : GrubError
  item : Option MfhItem
  reads : List Nat

/-- Where the items begin. -/
def itemsOffset (mfh : Memory) : Nat := 0x018 + 4 * loadWord mfh 0x014

/-- The words of the items that are looked at. -/
def itemReads (mfh : Memory) (entryType : Nat) : (count offset : Nat) → List Nat
  | 0, _ => []
  | count + 1, offset =>
    if (mfhItem mfh offset).type = entryType then
      [offset % 2 ^ 32, (offset + 8) % 2 ^ 32, (offset + 4) % 2 ^ 32]
    else offset % 2 ^ 32 :: itemReads mfh entryType count (offset + 0x10)

/-- All the words that are read. -/
def lookupReads (mfh : Memory) (entryType : Nat) : List Nat :=
  if loadWord mfh 0 ≠ mfhIdentifier then [0]
  else [0, 0x014, 0x010] ++ itemReads mfh entryType (loadWord mfh 0x010) (itemsOffset mfh)

/-- The copy that is looked at. -/
def MfhCache.fetch (cache : MfhCache) (mfh : Memory) : MfhCache :=
  if cache.loaded then cache else grubClnMfhLoad mfh cache

/-- A lookup with pointers that are not NULL. -/
def MfhCache.search (cache : MfhCache) (entryType : Nat) : MfhResult :=
  let (item, errnum) := grubClnMfhEntryLookup cache.clnMfh entryType cache.errnum
  { cache := { cache with loaded := loadWord cache.clnMfh 0 = mfhIdentifier, errnum }
    status := errnum
    item
    reads := lookupReads cache.clnMfh entryType }

/-- `grub_cln_mfh_entry_lookup` -/
def MfhLookup.run (lookup : MfhLookup) (cache : MfhCache) : MfhResult :=
  match lookup.mfhAddr with
  | some mfh =>
    if lookup.addr && lookup.len then (cache.fetch mfh).search lookup.entryType
    else ⟨{ cache with errnum := .badArgument }, .badArgument, none, []⟩
  | none => ⟨{ cache with errnum := .badArgument }, .badArgument, none, []⟩

/-- What happens to the cache: lookups, and between them `errnum` is set. -/
inductive MfhOp where
  | lookup (lookup : MfhLookup)
  | setErrnum (errnum : GrubError)

def mfhStep (cache : MfhCache) : MfhOp → MfhCache
  | .lookup lookup => (lookup.run cache).cache
  | .setErrnum errnum => { cache with errnum }

/-! ## What a lookup is for -/

/-- The items behind the priority list. -/
def listedItems (mfh : Memory) : List MfhItem :=
  (List.range (loadWord mfh 0x010)).map fun i => mfhItem mfh (itemsOffset mfh + 0x10 * i)

/-- The first item of a type that a header lists. -/
def firstItem (mfh : Memory) (entryType : Nat) : Option MfhItem :=
  if loadWord mfh 0 = mfhIdentifier then
    (listedItems mfh).find? fun item => item.type = entryType
  else none

/-- The item that a lookup asks for. -/
def MfhLookup.requested (lookup : MfhLookup) : Option MfhItem :=
  lookup.mfhAddr.bind fun mfh =>
    if lookup.addr && lookup.len then firstItem mfh lookup.entryType else none

/-- A lookup reads inside of the copy and gives the item of the header it is called with, or
fails and stores nothing. -/
structure LooksUp (cache : MfhCache) (lookup : MfhLookup) : Prop where
  inside : ∀ offset ∈ (lookup.run cache).reads, offset + 4 ≤ mfhSize
  found : ∀ item, lookup.requested = some item →
    (lookup.run cache).status = .none ∧ (lookup.run cache).item = some item
  missing : lookup.requested = none →
    (lookup.run cache).status ≠ .none ∧ (lookup.run cache).item = none

/-- The words that are read of an item lie in the header: the type, or all that is used of an
item of the type. -/
def ItemInside (mfh : Memory) (entryType offset : Nat) : Prop :=
  offset % 2 ^ 32 + (if (mfhItem mfh offset).type = entryType then 0xC else 4) ≤ mfhSize

/-- The items up to the first of a type, or all there are, lie in the header. -/
def ItemsInside (mfh : Memory) (entryType count offset : Nat) : Prop :=
  ∀ i < count, (∀ j < i, (mfhItem mfh (offset + 0x10 * j)).type ≠ entryType) →
    ItemInside mfh entryType (offset + 0x10 * i)

/-- What keeps a lookup in a header sound: a copy from earlier lists the same item, the items
that are looked at lie in the header, and no error is left over if there is an item. -/
structure SearchFits (cache : MfhCache) (mfh : Memory) (entryType : Nat) : Prop where
  current : cache.loaded = true → firstItem cache.clnMfh entryType = firstItem mfh entryType
  inside : ∀ used, used = (if cache.loaded then cache.clnMfh else mfh) →
    loadWord used 0 = mfhIdentifier →
      ItemsInside used entryType (loadWord used 0x010) (itemsOffset used)
  clean : firstItem mfh entryType ≠ none → cache.errnum = .none

/-- The same of a lookup; without one of its pointers nothing is looked up. -/
def LookupFits (cache : MfhCache) (lookup : MfhLookup) : Prop :=
  ∀ mfh, lookup.mfhAddr = some mfh → (lookup.addr && lookup.len) = true →
    SearchFits cache mfh lookup.entryType

/-! ## The search -/

section

variable {mfh other : Memory} {entryType : Nat}

/-- The search finds the first item of the type. -/
theorem findMfhItem_eq (mfh : Memory) (entryType count offset : Nat) :
    findMfhItem mfh entryType count offset =
      ((List.range count).map fun i => mfhItem mfh (offset + 0x10 * i)).find? fun item =>
        item.type = entryType := by
  induction count generalizing offset with
  | zero => rfl
  | succ count inductionHypothesis =>
      rw [findMfhItem, List.range_succ_eq_map, List.map_cons, List.find?_cons, Nat.mul_zero,
        Nat.add_zero]
      by_cases here : (mfhItem mfh offset).type = entryType
      · simp [here]
      · have later : ∀ i, offset + 0x10 + 0x10 * i = offset + 0x10 * (i + 1) := by
          intro i
          omega
        simp [here, inductionHypothesis, later, Function.comp_def]

/-- A lookup in a header that has the identifier, and in one that has not. -/
theorem grubClnMfhEntryLookup_eq (mfh : Memory) (entryType : Nat) (errnum : GrubError) :
    grubClnMfhEntryLookup mfh entryType errnum =
      match firstItem mfh entryType with
      | some item => (some item, errnum)
      | none => (none, if loadWord mfh 0 = mfhIdentifier then .fileNotFound else .execFormat) := by
  rw [grubClnMfhEntryLookup, firstItem, findMfhItem_eq]
  by_cases identified : loadWord mfh 0 = mfhIdentifier
  · rw [if_neg (not_not.mpr identified), if_pos identified, if_pos identified]
    rfl
  · rw [if_pos identified, if_neg identified, if_neg identified]

/-- The first item, and the others if it is not of the type. -/
theorem itemsInside_succ (mfh : Memory) (entryType count offset : Nat) :
    ItemsInside mfh entryType (count + 1) offset ↔
      ItemInside mfh entryType offset ∧ ((mfhItem mfh offset).type ≠ entryType →
        ItemsInside mfh entryType count (offset + 0x10)) := by
  have next : ∀ i, offset + 0x10 + 0x10 * i = offset + 0x10 * (i + 1) := by
    intro i
    omega
  constructor
  · intro all
    refine ⟨all 0 (Nat.succ_pos _) (by simp), fun here i small before => ?_⟩
    rw [next]
    refine all (i + 1) (by omega) ?_
    rintro (_ | j) earlier
    · exact here
    · rw [← next]
      exact before j (by omega)
  · rintro ⟨first, rest⟩ (_ | i) small before
    · exact first
    · rw [← next]
      refine rest (before 0 (Nat.succ_pos _)) i (by omega) fun j earlier => ?_
      rw [next]
      exact before (j + 1) (by omega)

/-- The reads lie in the header just if the items that are looked at do. -/
theorem itemReads_inside_iff (mfh : Memory) (entryType count offset : Nat) :
    (∀ read ∈ itemReads mfh entryType count offset, read + 4 ≤ mfhSize) ↔
      ItemsInside mfh entryType count offset := by
  have size : mfhSize = 0x200 := rfl
  induction count generalizing offset with
  | zero => simp [itemReads, ItemsInside]
  | succ count inductionHypothesis =>
      rw [itemReads, itemsInside_succ, ItemInside]
      by_cases here : (mfhItem mfh offset).type = entryType
      · simp only [here, if_true, List.forall_mem_cons, size]
        simp
        omega
      · have rest := inductionHypothesis (offset + 0x10)
        rw [if_neg here, if_neg here, List.forall_mem_cons]
        exact and_congr Iff.rfl (rest.trans ⟨fun all _ => all, fun all => all here⟩)

/-- A lookup reads inside the header just when its items lie in it. -/
theorem lookupReads_inside_iff (mfh : Memory) (entryType : Nat) :
    (∀ read ∈ lookupReads mfh entryType, read + 4 ≤ mfhSize) ↔
      (loadWord mfh 0 = mfhIdentifier →
        ItemsInside mfh entryType (loadWord mfh 0x010) (itemsOffset mfh)) := by
  rw [lookupReads, ← itemReads_inside_iff]
  by_cases identified : loadWord mfh 0 = mfhIdentifier
  · rw [if_neg (not_not.mpr identified), List.forall_mem_append]
    constructor
    · exact fun all _ => all.2
    · exact fun items => ⟨by decide, items identified⟩
  · rw [if_pos identified]
    exact ⟨fun _ isHeader => absurd isHeader identified, fun _ => by decide⟩

/-- A word that lies in the header is that of a copy of it. -/
theorem loadWord_of_copy (copy : ∀ address : Address, address.toNat < mfhSize →
      other address = mfh address) {offset : Nat} (inside : offset % 2 ^ 32 + 4 ≤ mfhSize) :
    loadWord other (BitVec.ofNat 32 offset) = loadWord mfh (BitVec.ofNat 32 offset) := by
  have size : mfhSize = 0x200 := rfl
  apply loadWord_congr
  intro i small
  apply copy
  bv_omega

/-- Items that are looked at inside of the header are those of a copy of it. -/
theorem search_of_copy (copy : ∀ address : Address, address.toNat < mfhSize →
      other address = mfh address) {count offset : Nat}
    (inside : ItemsInside mfh entryType count offset) :
    findMfhItem other entryType count offset = findMfhItem mfh entryType count offset ∧
      ItemsInside other entryType count offset := by
  have size : mfhSize = 0x200 := rfl
  induction count generalizing offset with
  | zero => exact ⟨rfl, fun _ small => absurd small (Nat.not_lt_zero _)⟩
  | succ count inductionHypothesis =>
      obtain ⟨first, rest⟩ := (itemsInside_succ _ _ _ _).mp inside
      rw [itemsInside_succ, findMfhItem, findMfhItem]
      rw [ItemInside] at first ⊢
      have sameType : (mfhItem other offset).type = (mfhItem mfh offset).type :=
        loadWord_of_copy copy (by split at first <;> omega)
      by_cases here : (mfhItem mfh offset).type = entryType
      · rw [if_pos here] at first
        have sameItem : mfhItem other offset = mfhItem mfh offset := by
          have addr := loadWord_of_copy copy (by omega : (offset + 4) % 2 ^ 32 + 4 ≤ mfhSize)
          have len := loadWord_of_copy copy (by omega : (offset + 8) % 2 ^ 32 + 4 ≤ mfhSize)
          simp only [mfhItem] at sameType ⊢
          rw [sameType, addr, len]
        simpa [sameItem, here] using first
      · rw [if_neg here] at first
        obtain ⟨found, behind⟩ := inductionHypothesis (rest here)
        simpa [sameType, here, found, behind] using first

/-- So is what the whole lookup finds and reads. -/
theorem lookup_of_copy (copy : ∀ address : Address, address.toNat < mfhSize →
      other address = mfh address)
    (inside : loadWord mfh 0 = mfhIdentifier →
      ItemsInside mfh entryType (loadWord mfh 0x010) (itemsOffset mfh)) :
    firstItem other entryType = firstItem mfh entryType ∧
      (loadWord other 0 = mfhIdentifier →
        ItemsInside other entryType (loadWord other 0x010) (itemsOffset other)) := by
  have identifier : loadWord other 0 = loadWord mfh 0 := loadWord_of_copy copy (by decide)
  have items : loadWord other 0x010 = loadWord mfh 0x010 := loadWord_of_copy copy (by decide)
  have list : loadWord other 0x014 = loadWord mfh 0x014 := loadWord_of_copy copy (by decide)
  rw [firstItem, firstItem, listedItems, listedItems, ← findMfhItem_eq, ← findMfhItem_eq,
    itemsOffset, itemsOffset, identifier, items, list]
  by_cases identified : loadWord mfh 0 = mfhIdentifier
  · obtain ⟨found, insideOther⟩ := search_of_copy copy (inside identified)
    exact ⟨by rw [if_pos identified, if_pos identified]; exact found, fun _ => insideOther⟩
  · exact ⟨by rw [if_neg identified, if_neg identified], fun isOther => absurd isOther identified⟩

end

/-! ## Lookups -/

/-- What a lookup is called with lies in memory, and its copy is what it is copied from. -/
theorem fetch_copies (cache : MfhCache) (mfh : Memory) (address : Address)
    (inside : address.toNat < mfhSize) :
    (cache.fetch mfh).clnMfh address = (if cache.loaded then cache.clnMfh else mfh) address := by
  rw [MfhCache.fetch]
  by_cases loaded : cache.loaded = true
  · rw [if_pos loaded, if_pos loaded]
  · rw [if_neg loaded, if_neg loaded, grubClnMfhLoad]
    exact if_pos inside

/-- Fetching the header leaves the error. -/
@[simp]
theorem fetch_errnum (cache : MfhCache) (mfh : Memory) : (cache.fetch mfh).errnum = cache.errnum := by
  rw [MfhCache.fetch]
  split <;> rfl

/-- A lookup gives what the request asks for just if the copy lists the same, and no error is
left over. -/
theorem search_found_iff (cache : MfhCache) (entryType : Nat) (requested : Option MfhItem) :
    ((∀ item, requested = some item → (cache.search entryType).status = .none ∧
        (cache.search entryType).item = some item) ∧
      (requested = none →
        (cache.search entryType).status ≠ .none ∧ (cache.search entryType).item = none)) ↔
      firstItem cache.clnMfh entryType = requested ∧ (requested ≠ none → cache.errnum = .none) := by
  have status : (cache.search entryType).status =
      (grubClnMfhEntryLookup cache.clnMfh entryType cache.errnum).2 := rfl
  have item : (cache.search entryType).item =
      (grubClnMfhEntryLookup cache.clnMfh entryType cache.errnum).1 := rfl
  rw [status, item, grubClnMfhEntryLookup_eq]
  cases firstItem cache.clnMfh entryType with
  | none =>
      have fails : (if loadWord cache.clnMfh 0 = mfhIdentifier then GrubError.fileNotFound
          else .execFormat) ≠ .none := by
        split <;> decide
      cases requested with
      | none => simpa using fails
      | some item => simp
  | some first =>
      cases requested with
      | none => simp
      | some item => simp [and_comm]

/-- The words of the copy that are looked at lie in the header just if those of what it was
copied from do. -/
theorem fetch_inside_iff (cache : MfhCache) (mfh : Memory) (entryType : Nat) :
    (∀ read ∈ ((cache.fetch mfh).search entryType).reads, read + 4 ≤ mfhSize) ↔
      ∀ used, used = (if cache.loaded then cache.clnMfh else mfh) →
        loadWord used 0 = mfhIdentifier →
          ItemsInside used entryType (loadWord used 0x010) (itemsOffset used) := by
  have copies := fetch_copies cache mfh
  have reads : ((cache.fetch mfh).search entryType).reads =
      lookupReads (cache.fetch mfh).clnMfh entryType := rfl
  rw [reads]
  refine (lookupReads_inside_iff (cache.fetch mfh).clnMfh entryType).trans ?_
  constructor
  · rintro inside used rfl
    exact (lookup_of_copy (fun address small => (copies address small).symm) inside).2
  · exact fun inside => (lookup_of_copy copies (inside _ rfl)).2

/-- A lookup is sound just if the copy is that of its header, or one that lists the same, what
is looked at of it lies in the header, and `errnum` is ERR_NONE before an item is found. -/
theorem looksUp_iff (cache : MfhCache) (lookup : MfhLookup) :
    LooksUp cache lookup ↔ LookupFits cache lookup := by
  obtain ⟨mfhAddr, entryType, addr, len⟩ := lookup
  cases mfhAddr with
  | none => exact ⟨fun _ => nofun, fun _ => ⟨nofun, nofun, fun _ => ⟨nofun, rfl⟩⟩⟩
  | some mfh =>
      by_cases pointers : (addr && len) = true
      · have runs : MfhLookup.run ⟨some mfh, entryType, addr, len⟩ cache =
            (cache.fetch mfh).search entryType := if_pos pointers
        have requested : MfhLookup.requested ⟨some mfh, entryType, addr, len⟩ =
            firstItem mfh entryType := if_pos pointers
        have finds := search_found_iff (cache.fetch mfh) entryType (firstItem mfh entryType)
        have inside := fetch_inside_iff cache mfh entryType
        rw [fetch_errnum] at finds
        -- The copy lists what it was copied from lists, if all that is looked at was copied.
        have lists (fits : ∀ used, used = (if cache.loaded then cache.clnMfh else mfh) →
            loadWord used 0 = mfhIdentifier →
              ItemsInside used entryType (loadWord used 0x010) (itemsOffset used)) :
            firstItem (cache.fetch mfh).clnMfh entryType =
              firstItem (if cache.loaded then cache.clnMfh else mfh) entryType :=
          (lookup_of_copy (fetch_copies cache mfh) (fits _ rfl)).1
        constructor
        · rintro ⟨reads, found, missing⟩ header isHeader _
          obtain rfl : mfh = header := Option.some.inj isHeader
          rw [runs] at reads found missing
          rw [requested] at found missing
          have fits := inside.mp reads
          obtain ⟨same, clean⟩ := finds.mp ⟨found, missing⟩
          refine ⟨fun loaded => ?_, fits, clean⟩
          rw [← same, lists fits, if_pos loaded]
        · intro fits
          obtain ⟨current, inside', clean⟩ := fits mfh rfl pointers
          have same : firstItem (cache.fetch mfh).clnMfh entryType = firstItem mfh entryType := by
            rw [lists inside']
            by_cases loaded : cache.loaded = true
            · rw [if_pos loaded, current loaded]
            · rw [if_neg loaded]
          obtain ⟨found, missing⟩ := finds.mpr ⟨same, clean⟩
          constructor
          · rw [runs]
            exact inside.mpr inside'
          · rw [runs, requested]
            exact found
          · rw [runs, requested]
            exact missing
      · have runs : MfhLookup.run ⟨some mfh, entryType, addr, len⟩ cache =
            ⟨{ cache with errnum := .badArgument }, .badArgument, none, []⟩ := if_neg pointers
        have requested : MfhLookup.requested ⟨some mfh, entryType, addr, len⟩ = none :=
          if_neg pointers
        refine ⟨fun _ _ _ wrong => absurd wrong pointers, fun _ => ⟨?_, ?_, ?_⟩⟩
        · rw [runs]
          exact nofun
        · rw [requested]
          exact nofun
        · rw [runs]
          exact fun _ => ⟨nofun, rfl⟩

/-- Every lookup of a run is sound just if each of them finds the cache and `errnum` as it
needs them. -/
theorem mfhLookups_sound_iff (cache : MfhCache) (ops : List MfhOp) :
    Along mfhStep (fun cache op => ∀ lookup, op = .lookup lookup → LooksUp cache lookup) cache ops ↔
      Along mfhStep (fun cache op => ∀ lookup, op = .lookup lookup → LookupFits cache lookup)
        cache ops :=
  along_congr fun cache _ => forall_congr' fun lookup =>
    imp_congr_right fun _ => looksUp_iff cache lookup

/-- Nothing is loaded. -/
def emptyMfh (errnum : GrubError) : MfhCache := ⟨fun _ => 0, false, errnum⟩

/-- A kernel is looked up after some other part of the loader failed. -/
theorem mfhLookups_not_sound :
    ¬ ∀ (cache : MfhCache) (ops : List MfhOp),
      Along mfhStep (fun cache op => ∀ lookup, op = .lookup lookup → LooksUp cache lookup)
        cache ops := by
  intro sound
  have fits := (mfhLookups_sound_iff (emptyMfh .none) [.setErrnum .fileNotFound,
    .lookup ⟨some (oneItemMfh 0x10 0x00 0x10), 0x10, true, true⟩]).mp (sound _ _)
  have clean := (fits.2.1 _ rfl _ rfl rfl).clean (by decide +kernel)
  exact absurd clean (by decide)

end GrubLegacy.Clanton
