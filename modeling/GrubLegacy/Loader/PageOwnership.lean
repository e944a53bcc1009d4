import GrubLegacy.Loader.PageTurns

/-!
# Who owns the pages

What `free_pages` gives back was given out like that, and no pages of a load are forgotten,
as long as each load finds the pages of the load before it freed.
-/

namespace GrubLegacy.Loader

open Base Efi Clanton

/-- A range that was given out is still referenced by its variable; for a secure initrd
the variable is a page behind the start until the page of the header is freed. -/
def Referenced (state : PagesState) (held : Holding PagePurpose) : Prop :=
  match held.owner with
  | .realMode => state.realModeMem ≠ 0 ∧ held.range = ⟨state.realModeMem, state.realModePages⟩
  | .protMode => state.protModeMem ≠ 0 ∧ held.range = ⟨state.protModeMem, state.protModePages⟩
  | .initrd => state.initrdMem ≠ 0 ∧
    (held.range.start = state.initrdMem ∨ held.range.start + pageSize = state.initrdMem)
  | .memoryMap => True

/-- What `free_pages` gave back was given out for its purpose, from the same start and with
as many pages; and everything given out for a load is still referenced. -/
def PagesOwned (state : PagesState) : Prop :=
  state.strays = [] ∧ ∀ held ∈ state.live, Referenced state held

/-- The table has a place for another address. -/
def HasPlace (state : PagesState) : Prop := ∀ table ∈ state.allocatedPages, 0 ∈ table.places

/-- A load that looks for pages finds none of an earlier one in the variables it overwrites,
and what is granted to it can be entered into the table. -/
def StartsClean (state : PagesState) : PagesInput → Prop
  | .command (.loadLinux (some _)) => state.phase = .idle →
    state.realModeMem = 0 ∧ state.protModeMem = 0 ∧ state.initrdMem = 0
  | .command (.loadMultiboot (some _)) => state.phase = .idle →
    state.realModeMem = 0 ∧ state.protModeMem = 0
  | .command .freePages => state.phase ≠ .idle
  | .grant granted => ∀ pages ∈ state.asked,
    (pages.owner = .initrd → state.initrdMem = 0) ∧ (granted = true → HasPlace state)
  | _ => True

instance (state : PagesState) : Decidable (HasPlace state) :=
  inferInstanceAs (Decidable (∀ table ∈ state.allocatedPages, 0 ∈ table.places))

instance (state : PagesState) : (input : PagesInput) → Decidable (StartsClean state input)
  | .command (.loadLinux (some _)) => inferInstanceAs (Decidable (_ → _))
  | .command (.loadMultiboot (some _)) => inferInstanceAs (Decidable (_ → _))
  | .command .freePages => inferInstanceAs (Decidable (_ ≠ _))
  | .grant _ => inferInstanceAs (Decidable (∀ pages ∈ state.asked, _))
  | .command .getMemoryMap | .command (.loadLinux none) | .command (.loadMultiboot none)
  | .command (.loadInitrd _) | .map _ | .finish _ => inferInstanceAs (Decidable True)

/-! ## The invariant -/

/-- What is known of the variables in each phase. -/
def PhaseHolds (state : PagesState) : LoadPhase → Prop
  | .idle | .mapping .direct | .fillingMultiboot | .readingInitrd false => True
  | .mapping (.allocatePages _) =>
    state.realModeMem = 0 ∧ state.protModeMem = 0 ∧ state.initrdMem = 0
  | .mapping (.loadInitrd ..) => state.realModeMem ≠ 0
  | .realPages addr =>
    addr ≠ 0 ∧ state.realModeMem = 0 ∧ state.protModeMem = 0 ∧ state.initrdMem = 0
  | .protPages => state.realModeMem ≠ 0 ∧ state.protModeMem = 0 ∧ state.initrdMem = 0
  | .multibootPages => state.protModeMem = 0 ∧ state.initrdMem = 0
  | .initrdPages _ addr => addr ≠ 0 ∧ state.realModeMem ≠ 0
  | .fillingLinux => state.realModeMem ≠ 0
  | .readingInitrd true => ∃ start more, state.initrdMem = start + pageSize ∧
    ⟨.initrd, start, more + 1⟩ ∈ state.live

/-- The pages that the variables for a purpose describe. -/
def PagesState.holding (state : PagesState) : PagePurpose → Holding PagePurpose
  | .realMode => ⟨.realMode, state.realModeMem, state.realModePages⟩
  | .protMode => ⟨.protMode, state.protModeMem, state.protModePages⟩
  | .initrd => ⟨.initrd, state.initrdMem, state.initrdPages⟩
  | .memoryMap => ⟨.memoryMap, state.mmapBuf, state.mmapPages⟩

/-- The variable for a purpose is set to NULL. -/
def PagesState.clear (state : PagesState) : PagePurpose → PagesState
  | .realMode => { state with realModeMem := 0 }
  | .protMode => { state with protModeMem := 0 }
  | .initrd => { state with initrdMem := 0 }
  | .memoryMap => { state with mmapBuf := 0 }

/-- The variables and the ledger agree. The variable of a secure initrd is not the start of
its pages. -/
structure PagesHeld (state : PagesState) : Prop where
  described : ∀ purpose, purpose ≠ .initrd → (state.holding purpose).range.start ≠ 0 →
    state.holding purpose ∈ state.live
  referenced : ∀ held ∈ state.live, Referenced state held
  exclusive : Exclusive state.live
  strays : state.strays = []

/-- An initrd, and the mark of a loaded kernel, come with the pages of a kernel. -/
def NeedsKernel (state : PagesState) : Prop :=
  state.initrdMem ≠ 0 ∨ state.loaded = true → state.realModeMem ≠ 0

/-- What holds between two turns. -/
structure LoadHolds (state : PagesState) : Prop where
  held : PagesHeld state
  needs : NeedsKernel state
  phase : PhaseHolds state state.phase

section Held

variable {state next : PagesState} {pages held : Holding PagePurpose}

/-- The ledger and the variables stay, and the number of pages where a variable is not NULL. -/
structure SamePages (state next : PagesState) : Prop where
  live : next.live = state.live
  strays : next.strays = state.strays
  realModeMem : next.realModeMem = state.realModeMem
  protModeMem : next.protModeMem = state.protModeMem
  initrdMem : next.initrdMem = state.initrdMem
  mmapBuf : next.mmapBuf = state.mmapBuf
  realModePages : state.realModeMem ≠ 0 → next.realModePages = state.realModePages
  protModePages : state.protModeMem ≠ 0 → next.protModePages = state.protModePages
  mmapPages : state.mmapBuf ≠ 0 → next.mmapPages = state.mmapPages

/-- What is referenced depends on the variables of its owner only. -/
theorem referenced_congr (same : next.holding held.owner = state.holding held.owner) :
    Referenced next held ↔ Referenced state held := by
  obtain ⟨owner, range⟩ := held
  cases owner with
  | realMode =>
      obtain ⟨start, pages⟩ : next.realModeMem = state.realModeMem ∧
          next.realModePages = state.realModePages := by
        simpa [PagesState.holding] using same
      rw [Referenced, Referenced, start, pages]
  | protMode =>
      obtain ⟨start, pages⟩ : next.protModeMem = state.protModeMem ∧
          next.protModePages = state.protModePages := by
        simpa [PagesState.holding] using same
      rw [Referenced, Referenced, start, pages]
  | initrd =>
      obtain ⟨start, -⟩ : next.initrdMem = state.initrdMem ∧ next.initrdPages = state.initrdPages := by
        simpa [PagesState.holding] using same
      rw [Referenced, Referenced, start]
  | memoryMap => exact Iff.rfl

/-- Where the variables of a purpose are not NULL they are the same. -/
theorem SamePages.holding (same : SamePages state next) {purpose : PagePurpose}
    (other : purpose ≠ .initrd) (there : (state.holding purpose).range.start ≠ 0) :
    next.holding purpose = state.holding purpose := by
  cases purpose with
  | realMode => rw [PagesState.holding, PagesState.holding, same.realModeMem, same.realModePages there]
  | protMode => rw [PagesState.holding, PagesState.holding, same.protModeMem, same.protModePages there]
  | initrd => exact absurd rfl other
  | memoryMap => rw [PagesState.holding, PagesState.holding, same.mmapBuf, same.mmapPages there]

/-- The variables are where they were. -/
theorem SamePages.start (same : SamePages state next) (purpose : PagePurpose) :
    (next.holding purpose).range.start = (state.holding purpose).range.start := by
  cases purpose with
  | realMode => exact same.realModeMem
  | protMode => exact same.protModeMem
  | initrd => exact same.initrdMem
  | memoryMap => exact same.mmapBuf

/-- What leaves the pages leaves them held. -/
theorem PagesHeld.same (holds : PagesHeld state) (same : SamePages state next) :
    PagesHeld next where
  described purpose other there := by
    rw [same.start purpose] at there
    rw [same.holding other there, same.live]
    exact holds.described purpose other there
  referenced := by
    rw [same.live]
    intro held member
    have referenced := holds.referenced held member
    obtain ⟨owner, range⟩ := held
    cases owner with
    | realMode =>
        have kept := @SamePages.holding state next same .realMode nofun referenced.1
        exact (referenced_congr kept).mpr referenced
    | protMode =>
        have kept := @SamePages.holding state next same .protMode nofun referenced.1
        exact (referenced_congr kept).mpr referenced
    | initrd =>
        rw [Referenced, same.initrdMem]
        exact referenced
    | memoryMap => trivial
  exclusive := by rw [same.live]; exact holds.exclusive
  strays := same.strays.trans holds.strays

/-- Another phase leaves the pages held, -/
theorem PagesHeld.goTo (holds : PagesHeld state) (phase : LoadPhase) :
    PagesHeld (state.goTo phase) :=
  holds.same ⟨rfl, rfl, rfl, rfl, rfl, rfl, fun _ => rfl, fun _ => rfl, fun _ => rfl⟩

/-- and so does a failure. -/
theorem PagesHeld.fail (holds : PagesHeld state) : PagesHeld state.fail :=
  holds.same ⟨rfl, rfl, rfl, rfl, rfl, rfl, fun _ => rfl, fun _ => rfl, fun _ => rfl⟩

/-! ## Freeing -/

/-- One of the steps of `free_pages`, on pages that were given out. -/
theorem freeVariable_live (given : pages.range.start ≠ 0 → pages ∈ state.live) :
    (freeVariable pages state).strays = state.strays ∧
      ∀ held, held ∈ (freeVariable pages state).live ↔
        held ∈ state.live ∧ (pages.range.start = 0 ∨ held ≠ pages) := by
  rw [freeVariable]
  split
  next null => exact ⟨rfl, fun held => (and_iff_left (.inl null)).symm⟩
  next there =>
    refine ⟨if_pos (given there), fun held => ?_⟩
    refine (mem_giveBack_live (given there)).trans (and_congr_right fun _ => ?_)
    exact ⟨.inr, fun or => or.resolve_left there⟩

/-- Among fewer holdings there is no overlap either. -/
theorem exclusive_of_subset {live live' : List (Holding PagePurpose)} (exclusive : Exclusive live)
    (subset : ∀ held ∈ live', held ∈ live) : Exclusive live' :=
  fun first isFirst second isSecond =>
    exclusive first (subset first isFirst) second (subset second isSecond)

/-- The variables stay. -/
theorem holding_freeVariable (purpose : PagePurpose) :
    (freeVariable pages state).holding purpose = state.holding purpose := by
  rw [freeVariable]
  split
  · rfl
  · cases purpose <;> rfl

/-- A step of `free_pages`. -/
def PagesState.release (state : PagesState) (purpose : PagePurpose) : PagesState :=
  (freeVariable (state.holding purpose) state).clear purpose

/-- The cleared one is NULL, -/
theorem start_clear (purpose : PagePurpose) :
    ((state.clear purpose).holding purpose).range.start = 0 := by
  cases purpose <;> rfl

/-- and the others stay. -/
theorem holding_clear {purpose other : PagePurpose} (apart : other ≠ purpose) :
    (state.clear purpose).holding other = state.holding other := by
  cases purpose <;> cases other <;> first | rfl | exact absurd rfl apart

/-- Clearing a variable leaves the ledger. -/
theorem ledger_clear (purpose : PagePurpose) :
    (state.clear purpose).live = state.live ∧ (state.clear purpose).strays = state.strays := by
  cases purpose <;> exact ⟨rfl, rfl⟩

/-- A variable describes pages for its purpose. -/
theorem owner_holding (purpose : PagePurpose) : (state.holding purpose).owner = purpose := by
  cases purpose <;> rfl

/-- Pages for a kernel that are referenced are those of the variable. -/
theorem Referenced.eq_holding (referenced : Referenced state held) (notInitrd : held.owner ≠ .initrd)
    (notMap : held.owner ≠ .memoryMap) :
    (state.holding held.owner).range.start ≠ 0 ∧ held = state.holding held.owner := by
  obtain ⟨owner, range⟩ := held
  cases owner with
  | realMode => exact ⟨referenced.1, congrArg (Holding.mk _) referenced.2⟩
  | protMode => exact ⟨referenced.1, congrArg (Holding.mk _) referenced.2⟩
  | initrd => exact absurd rfl notInitrd
  | memoryMap => exact absurd rfl notMap

/-- It leaves the variables for other purposes. -/
theorem holding_release {purpose other : PagePurpose} (apart : other ≠ purpose) :
    (state.release purpose).holding other = state.holding other :=
  (holding_clear apart).trans (holding_freeVariable other)

/-- Pages that are not an initrd's are held behind it. -/
theorem PagesHeld.release (holds : PagesHeld state) {purpose : PagePurpose}
    (notInitrd : purpose ≠ .initrd) : PagesHeld (state.release purpose) := by
  obtain ⟨strays, live⟩ := @freeVariable_live state _ (holds.described purpose notInitrd)
  obtain ⟨sameLive, sameStrays⟩ :=
    @ledger_clear (freeVariable (state.holding purpose) state) purpose
  constructor
  · intro other notInitrd there
    have apart : other ≠ purpose := by
      rintro rfl
      exact there (start_clear other)
    rw [holding_release apart] at there ⊢
    rw [PagesState.release, sameLive, live]
    refine ⟨holds.described other notInitrd there, .inr fun same => apart ?_⟩
    rw [← @owner_holding state other, same, owner_holding]
  · intro held member
    rw [PagesState.release, sameLive, live] at member
    obtain ⟨member, kept⟩ := member
    have referenced := holds.referenced held member
    by_cases map : held.owner = .memoryMap
    · rw [Referenced, map]
      trivial
    · by_cases same : held.owner = purpose
      · obtain ⟨there, isHeld⟩ := referenced.eq_holding (same ▸ notInitrd) map
        rw [same] at there isHeld
        exact absurd isHeld (kept.resolve_left there)
      · exact (referenced_congr (holding_release same)).mpr referenced
  · rw [PagesState.release, sameLive]
    exact exclusive_of_subset holds.exclusive fun held member => ((live held).mp member).1
  · exact sameStrays.trans (strays.trans holds.strays)

/-- `free_pages` releases the pages one purpose after the other. -/
theorem freePages_eq (state : PagesState) : freePages state =
    (((state.release .realMode).release .protMode).release .initrd).release .memoryMap := rfl

/-- `free_pages`, where there is no initrd. -/
theorem PagesHeld.freePages (holds : PagesHeld state) (noInitrd : state.initrdMem = 0) :
    PagesHeld (freePages state) ∧ (freePages state).initrdMem = 0 := by
  have kept (state : PagesState) {purpose : PagePurpose} (apart : .initrd ≠ purpose) :
      (state.release purpose).initrdMem = state.initrdMem :=
    congrArg (·.range.start) (holding_release apart)
  rw [freePages_eq]
  have first : PagesHeld (state.release .realMode) := holds.release nofun
  have second : PagesHeld ((state.release .realMode).release .protMode) := first.release nofun
  have noInitrd : ((state.release .realMode).release .protMode).initrdMem = 0 :=
    (@kept _ .protMode nofun).trans ((@kept _ .realMode nofun).trans noInitrd)
  generalize (state.release .realMode).release .protMode = released at second noInitrd ⊢
  -- the step for the initrd finds NULL
  have third : PagesHeld (released.release .initrd) := by
    have null : (released.holding .initrd).range.start = 0 := noInitrd
    rw [PagesState.release, freeVariable, if_pos null]
    exact second.same ⟨rfl, rfl, rfl, rfl, noInitrd.symm, rfl, fun _ => rfl, fun _ => rfl, fun _ => rfl⟩
  exact ⟨third.release nofun, kept _ nofun⟩

/-- Behind `free_pages` the load may fail. -/
theorem PagesHeld.freeAll (holds : PagesHeld state) (noInitrd : state.initrdMem = 0) :
    LoadHolds (Loader.freePages state).fail := by
  obtain ⟨freed, null⟩ := holds.freePages noInitrd
  exact ⟨freed.fail, fun or => or.elim (absurd null) nofun, trivial⟩

/-! ## Allocating -/

/-- An address can be entered where a place is free. -/
theorem enter_of_place {table : PageTable} (place : 0 ∈ table.places) (address : Nat) :
    ∃ entered, table.enter address = some entered := by
  rw [PageTable.enter]
  cases isFound : table.places.findIdx? (· = 0) with
  | some i => exact ⟨_, rfl⟩
  | none =>
      rw [List.findIdx?_eq_none_iff] at isFound
      exact absurd (isFound 0 place) (by decide)

/-- With a place in the table the pages are returned. -/
theorem recordPages_place (place : HasPlace state) :
    ∃ table, recordPages pages state =
      (pages.range.start, { state with live := pages :: state.live, allocatedPages := table }) := by
  rw [recordPages]
  dsimp only
  cases isTable : state.allocatedPages with
  | none => exact ⟨none, rfl⟩
  | some table =>
      obtain ⟨entered, enters⟩ := enter_of_place (place table isTable) pages.range.start
      dsimp only
      rw [enters]
      exact ⟨some entered, rfl⟩

/-- Without one they are given out all the same. -/
theorem recordPages_some : ∃ address table, recordPages pages state =
    (address, { state with live := pages :: state.live, allocatedPages := table }) ∧
      (address = 0 ∨ address = pages.range.start) := by
  rw [recordPages]
  dsimp only
  split
  next none_ => exact ⟨_, none, by rw [none_], .inr rfl⟩
  next table isTable =>
    split
    · exact ⟨0, some table, by rw [isTable], .inl rfl⟩
    next entered _ => exact ⟨_, some entered, rfl, .inr rfl⟩

/-- What is asked for at an address is granted there, or refused. -/
theorem grubEfiAllocatePages_cases {granted : Bool} (place : granted = true → HasPlace state) :
    grubEfiAllocatePages pages granted state = (0, state) ∨
      granted = true ∧ ∃ table, grubEfiAllocatePages pages granted state =
        (pages.range.start,
          { state with live := pages :: state.live, allocatedPages := table }) := by
  rw [grubEfiAllocatePages]
  split
  · exact .inl rfl
  split
  next isGranted => exact .inr ⟨isGranted, recordPages_place (place isGranted)⟩
  · exact .inl rfl

/-- Pages for a purpose whose variable is NULL, or for another buffer of the memory map. -/
theorem PagesHeld.give (holds : PagesHeld state) (live : next.live = pages :: state.live)
    (strays : next.strays = state.strays)
    (others : ∀ purpose, purpose ≠ pages.owner → next.holding purpose = state.holding purpose)
    (null : (state.holding pages.owner).range.start = 0 ∨ pages.owner = .memoryMap)
    (points : Referenced next pages)
    (describes : pages.owner ≠ .initrd → (next.holding pages.owner).range.start ≠ 0 →
      next.holding pages.owner = pages)
    (fresh : ∀ held ∈ state.live, held.range.Apart pages.range) : PagesHeld next where
  described purpose notInitrd there := by
    rw [live]
    by_cases same : purpose = pages.owner
    · subst same
      rw [describes notInitrd there]
      exact List.mem_cons_self
    · rw [others purpose same] at there ⊢
      exact List.mem_cons_of_mem _ (holds.described purpose notInitrd there)
  referenced held member := by
    rw [live] at member
    rcases List.mem_cons.mp member with rfl | member
    · exact points
    · have referenced := holds.referenced held member
      by_cases same : held.owner = pages.owner
      · rw [← same] at null
        obtain ⟨owner, range⟩ := held
        cases owner with
        | realMode => exact absurd (null.resolve_right nofun) referenced.1
        | protMode => exact absurd (null.resolve_right nofun) referenced.1
        | initrd => exact absurd (null.resolve_right nofun) referenced.1
        | memoryMap => trivial
      · exact (referenced_congr (others _ same)).mpr referenced
  exclusive := by
    rw [live]
    exact holds.exclusive.cons fresh
  strays := strays.trans holds.strays

/-- Pages for a kernel, or for its parameters. -/
theorem PagesHeld.giveKernel (holds : PagesHeld state) (live : next.live = pages :: state.live)
    (strays : next.strays = state.strays)
    (others : ∀ purpose, purpose ≠ pages.owner → next.holding purpose = state.holding purpose)
    (null : (state.holding pages.owner).range.start = 0) (points : Referenced next pages)
    (notInitrd : pages.owner ≠ .initrd) (notMap : pages.owner ≠ .memoryMap)
    (fresh : ∀ held ∈ state.live, held.range.Apart pages.range) : PagesHeld next :=
  holds.give live strays others (.inl null) points
    (fun _ _ => (points.eq_holding notInitrd notMap).2.symm) fresh

/-- The variable of an initrd is its start, or a page behind it. -/
theorem PagesHeld.giveInitrd (holds : PagesHeld state) {addr initrdMem : Nat}
    {table : Option PageTable} {phase : LoadPhase} (there : initrdMem ≠ 0)
    (points : addr = initrdMem ∨ addr + pageSize = initrdMem) (null : state.initrdMem = 0)
    (fresh : ∀ held ∈ state.live, held.range.Apart ⟨addr, state.initrdPages⟩) :
    PagesHeld { state with
      live := ⟨.initrd, addr, state.initrdPages⟩ :: state.live
      allocatedPages := table
      initrdMem
      phase } := by
  refine holds.give rfl rfl ?_ (.inl null) ⟨there, points⟩ (fun isOther => absurd rfl isOther) fresh
  intro purpose other
  cases purpose <;> first | rfl | exact absurd rfl other

/-- Pages for the buffer of the memory map, which may be forgotten. -/
theorem PagesHeld.giveMap (holds : PagesHeld state) {addr mmapBuf mmapPages : Nat}
    {table : Option PageTable} (points : mmapBuf ≠ 0 → mmapBuf = addr)
    (fresh : ∀ held ∈ state.live, held.range.Apart ⟨addr, mmapPages⟩) :
    PagesHeld { state with
      live := ⟨.memoryMap, addr, mmapPages⟩ :: state.live
      allocatedPages := table
      mmapBuf
      mmapPages } := by
  refine holds.give rfl rfl ?_ (.inr rfl) trivial (fun _ there => ?_) fresh
  · intro purpose other
    cases purpose <;> first | rfl | exact absurd rfl other
  · obtain rfl := points there
    rfl

/-! ## The turns -/

/-- The real mode pages that are found are not at address zero. -/
theorem realModeAddr_ne_zero {realSize addr : Nat} {memoryMap : List MemoryDescriptor}
    (found : realModeAddr realSize memoryMap = some addr) : addr ≠ 0 := by
  induction memoryMap with
  | nil => cases found
  | cons desc rest inductionHypothesis =>
      simp only [realModeAddr] at found
      split at found
      · split at found
        · exact inductionHypothesis found
        next high =>
          obtain rfl := Option.some.inj found
          intro zero
          rw [zero] at high
          exact high (by decide)
      · exact inductionHypothesis found

/-- The firmware grants the pages, or refuses them. -/
theorem loadHolds_grant (holds : LoadHolds state) {granted : Bool}
    (documented : Documented state (.grant granted))
    (clean : StartsClean state (.grant granted)) : LoadHolds (grantTurn state granted) := by
  obtain ⟨held, needs, phase⟩ := holds
  have place : ∀ pages, state.asked = some pages → granted = true → HasPlace state :=
    fun pages asked => (clean pages asked).2
  have fresh : ∀ pages, state.asked = some pages → granted = true →
      0 < pages.range.pages ∧ ∀ held ∈ state.live, held.range.Apart pages.range :=
    fun pages asked isGranted => documented isGranted pages asked
  rw [grantTurn]
  split
  next addr asking =>
    have asked : state.asked = some ⟨.realMode, addr, state.realModePages⟩ := by
      rw [PagesState.asked, asking]
    rw [asking] at phase
    obtain ⟨there, null, noProt, noInitrd⟩ := phase
    rcases grubEfiAllocatePages_cases (place _ asked) with refused | ⟨isGranted, table, obtained⟩
    · rw [refused]
      dsimp only
      rw [if_pos rfl]
      exact PagesHeld.freeAll (held.same ⟨rfl, rfl, null.symm, rfl, rfl, rfl, fun _ => rfl,
        fun _ => rfl, fun _ => rfl⟩) noInitrd
    · rw [obtained]
      dsimp only
      rw [if_neg there]
      refine ⟨held.giveKernel rfl rfl ?_ null ⟨there, rfl⟩ nofun nofun (fresh _ asked isGranted).2,
        fun _ => there, there, noProt, noInitrd⟩
      intro purpose other
      cases purpose <;> first | rfl | exact absurd rfl other
  next asking =>
    have asked : state.asked = some ⟨.protMode, grubLinuxBzimageAddr, state.protModePages⟩ := by
      rw [PagesState.asked, asking]
    rw [asking] at phase
    obtain ⟨isReal, null, noInitrd⟩ := phase
    rcases grubEfiAllocatePages_cases (place _ asked) with refused | ⟨isGranted, table, obtained⟩
    · rw [refused]
      dsimp only
      rw [if_pos rfl]
      exact PagesHeld.freeAll (held.same ⟨rfl, rfl, rfl, null.symm, rfl, rfl, fun _ => rfl,
        fun _ => rfl, fun _ => rfl⟩) noInitrd
    · rw [obtained]
      have there : grubLinuxBzimageAddr ≠ 0 := by decide
      dsimp only
      rw [if_neg there]
      refine ⟨held.giveKernel rfl rfl ?_ null ⟨there, rfl⟩ nofun nofun
        (fresh _ asked isGranted).2, needs, isReal⟩
      intro purpose other
      cases purpose <;> first | rfl | exact absurd rfl other
  next asking =>
    have asked : state.asked = some ⟨.protMode, grubMultibootAddr, state.protModePages⟩ := by
      rw [PagesState.asked, asking]
    rw [asking] at phase
    obtain ⟨null, noInitrd⟩ := phase
    rcases grubEfiAllocatePages_cases (place _ asked) with refused | ⟨isGranted, table, obtained⟩
    · rw [refused]
      dsimp only
      rw [if_pos rfl]
      exact PagesHeld.freeAll (held.same ⟨rfl, rfl, rfl, null.symm, rfl, rfl, fun _ => rfl,
        fun _ => rfl, fun _ => rfl⟩) noInitrd
    · rw [obtained]
      have there : grubMultibootAddr ≠ 0 := by decide
      dsimp only
      rw [if_neg there]
      refine ⟨held.giveKernel rfl rfl ?_ null ⟨there, rfl⟩ nofun nofun
        (fresh _ asked isGranted).2, needs, trivial⟩
      intro purpose other
      cases purpose <;> first | rfl | exact absurd rfl other
  next secure addr asking =>
    have asked : state.asked = some ⟨.initrd, addr, state.initrdPages⟩ := by
      rw [PagesState.asked, asking]
    have null : state.initrdMem = 0 := (clean _ asked).1 rfl
    rw [asking] at phase
    obtain ⟨there, isReal⟩ := phase
    rcases grubEfiAllocatePages_cases (place _ asked) with refused | ⟨isGranted, table, obtained⟩
    · rw [refused]
      dsimp only
      rw [if_pos rfl]
      exact ⟨held.same ⟨rfl, rfl, rfl, rfl, null.symm, rfl, fun _ => rfl, fun _ => rfl,
        fun _ => rfl⟩, fun _ => isReal, trivial⟩
    · rw [obtained]
      dsimp only
      rw [if_neg there]
      obtain ⟨some_, apart⟩ := fresh _ asked isGranted
      cases secure with
      | false => exact ⟨held.giveInitrd there (.inl rfl) null apart, fun _ => isReal, trivial⟩
      | true =>
          have behind : addr + pageSize ≠ 0 := Nat.ne_of_gt (Nat.add_pos_right _ (by decide))
          obtain ⟨more, isMore⟩ : ∃ more, state.initrdPages = more + 1 :=
            Nat.exists_eq_succ_of_ne_zero (Nat.ne_of_gt some_)
          refine ⟨held.giveInitrd behind (.inr rfl) null apart, fun _ => isReal, addr, more, rfl, ?_⟩
          rw [← isMore]
          exact List.mem_cons_self
  · exact ⟨held, needs, phase⟩

/-- The buffer is given back before a larger one is allocated. -/
theorem PagesHeld.dropBuffer (holds : PagesHeld state) :
    PagesHeld { dropBuffer state with mmapBuf := 0 } := by
  have strays := (@freeVariable_live state _ (holds.described .memoryMap nofun)).1
  have freed : PagesHeld (state.release .memoryMap) := holds.release nofun
  rw [PagesState.release, PagesState.clear, PagesState.holding, freeVariable] at freed
  rw [PagesState.holding, freeVariable] at strays
  rw [Loader.dropBuffer]
  dsimp only at freed strays
  by_cases null : state.mmapBuf = 0
  · rw [if_pos null] at freed ⊢
    exact freed
  · rw [if_neg null] at freed strays ⊢
    exact freed.same ⟨rfl, strays.symm, rfl, rfl, rfl, rfl, fun _ => rfl, fun _ => rfl, fun _ => rfl⟩

/-- A failure to get the map leaves the load what it holds. -/
theorem PagesHeld.mapFailed (holds : PagesHeld state) (needs : NeedsKernel state)
    (caller : MapCaller) : LoadHolds (mapFailed state caller) := by
  cases caller with
  | direct => exact ⟨holds.goTo _, needs, trivial⟩
  | allocatePages _ =>
      exact ⟨holds.fail, fun or => or.elim (fun there => needs (.inl there)) nofun, trivial⟩
  | loadInitrd => exact ⟨holds.goTo _, needs, trivial⟩

/-- What a caller that waits for the map knows does not change in the loop. -/
theorem phaseHolds_mapping {caller : MapCaller} (phase : PhaseHolds state (.mapping caller))
    (realModeMem : next.realModeMem = state.realModeMem)
    (protModeMem : next.protModeMem = state.protModeMem)
    (initrdMem : next.initrdMem = state.initrdMem) : PhaseHolds next (.mapping caller) := by
  cases caller with
  | direct => trivial
  | allocatePages realSize =>
      obtain ⟨real, prot, initrd⟩ := phase
      exact ⟨realModeMem.trans real, protModeMem.trans prot, initrdMem.trans initrd⟩
  | loadInitrd => exact fun null => phase (realModeMem.symm.trans null)

/-- Everything but the ledger, the table and the buffer stays where the buffer is dropped. -/
theorem dropBuffer_eq : ∃ table, dropBuffer state =
    { state with live := (dropBuffer state).live, allocatedPages := table } := by
  rw [dropBuffer]
  split
  · exact ⟨state.allocatedPages, rfl⟩
  · exact ⟨_, rfl⟩

/-- A larger buffer. -/
theorem loadHolds_enlarge (holds : LoadHolds state) {size : Nat} {anyPages : AnyPages}
    {caller : MapCaller} (mapping : state.phase = .mapping caller)
    (apart : ∀ address ∈ anyPages.chosen, ∀ held ∈ (dropBuffer state).live,
      held.range.Apart ⟨address, mapPages size⟩) :
    LoadHolds (enlargeBuffer size anyPages caller state) := by
  obtain ⟨held, needs, phase⟩ := holds
  rw [mapping] at phase
  have dropped := held.dropBuffer
  obtain ⟨table, drops⟩ := @dropBuffer_eq state
  rw [enlargeBuffer, grubEfiAllocateAnyPages]
  generalize (dropBuffer state).live = live at drops apart
  rw [drops] at dropped ⊢
  cases isChosen : anyPages.chosen with
  | none =>
      dsimp only
      rw [if_pos rfl]
      refine PagesHeld.mapFailed ?_ ?_ caller
      · exact dropped.same
          ⟨rfl, rfl, rfl, rfl, rfl, rfl, fun _ => rfl, fun _ => rfl, fun there => absurd rfl there⟩
      · exact needs
  | some address =>
      have fresh := apart address isChosen
      obtain ⟨mmapBuf, table', recorded, points⟩ := @recordPages_some
        { state with live := live, allocatedPages := table } ⟨.memoryMap, address, mapPages size⟩
      dsimp only
      rw [recorded]
      dsimp only
      split
      · have forgotten := @PagesHeld.giveMap _ dropped address 0 (mapPages size) table'
          (fun there => absurd rfl there) fresh
        refine PagesHeld.mapFailed ?_ ?_ caller
        · exact forgotten.same
            ⟨rfl, rfl, rfl, rfl, rfl, rfl, fun _ => rfl, fun _ => rfl, fun there => absurd rfl there⟩
        · exact needs
      next there =>
        have given := @PagesHeld.giveMap _ dropped address mmapBuf (mapPages size) table'
          (fun there => points.resolve_left there) fresh
        refine ⟨given.same ⟨rfl, rfl, rfl, rfl, rfl, rfl, fun _ => rfl, fun _ => rfl, fun _ => rfl⟩,
          needs, ?_⟩
        dsimp only
        rw [mapping]
        exact phaseHolds_mapping phase rfl rfl rfl

/-- The map is there. -/
theorem loadHolds_report (held : PagesHeld state) (needs : NeedsKernel state) {caller : MapCaller}
    (phase : PhaseHolds state (.mapping caller)) (memoryMap : List MemoryDescriptor) :
    LoadHolds (mapReported memoryMap state caller) := by
  cases caller with
  | direct => exact ⟨held.goTo _, needs, trivial⟩
  | allocatePages realSize =>
      rw [mapReported]
      split
      · exact held.freeAll phase.2.2
      next addr found => exact ⟨held.goTo _, needs, realModeAddr_ne_zero found, phase⟩
  | loadInitrd secure size initrdAddrMax linuxMemSize =>
      rw [mapReported]
      split
      · exact ⟨held.goTo _, needs, trivial⟩
      next found => exact ⟨held.goTo _, needs, found, phase⟩

/-- An answer of the firmware leaves the load what it holds. -/
theorem loadHolds_map (holds : LoadHolds state) {caller : MapCaller} {answer : MapAnswer}
    (mapping : state.phase = .mapping caller) (documented : Documented state (.map answer)) :
    LoadHolds (mapTurn caller state answer) := by
  obtain ⟨held, needs, phase⟩ := holds
  have asked : ∀ reported, PagesHeld (state.request reported) := fun reported =>
    held.same ⟨rfl, rfl, rfl, rfl, rfl, rfl, fun _ => rfl, fun _ => rfl, fun _ => rfl⟩
  cases answer with
  | success size memoryMap =>
      rw [mapping] at phase
      have sized : PagesHeld { state.request true with mmapSize := size } := (asked true).same
        ⟨rfl, rfl, rfl, rfl, rfl, rfl, fun _ => rfl, fun _ => rfl, fun _ => rfl⟩
      exact loadHolds_report sized needs (phaseHolds_mapping phase rfl rfl rfl) memoryMap
  | tooSmall size anyPages =>
      have phase' : PhaseHolds (state.request false) (state.request false).phase := by
        rw [mapping] at phase
        change PhaseHolds _ state.phase
        rw [mapping]
        exact phaseHolds_mapping phase rfl rfl rfl
      have live : (dropBuffer (state.request false)).live = (dropBuffer state).live := by
        rw [dropBuffer, dropBuffer]
        change (if state.mmapBuf = 0 then _ else _ : PagesState).live = _
        split
        · rfl
        · rfl
      refine loadHolds_enlarge ⟨asked false, needs, phase'⟩ mapping ?_
      rw [live]
      exact fun address isChosen => (documented.2.2 address isChosen).2.2
  | failed => exact (asked false).mapFailed needs caller

/-- A command at the prompt. -/
theorem loadHolds_command (holds : LoadHolds state) (idle : state.phase = .idle)
    {command : LoadCommand} (clean : StartsClean state (.command command)) :
    LoadHolds (startCommand state command) := by
  obtain ⟨held, needs, phase⟩ := holds
  have failed : LoadHolds state.fail :=
    ⟨held.fail, fun or => or.elim (fun there => needs (.inl there)) nofun, trivial⟩
  cases command with
  | getMemoryMap => exact ⟨held.goTo _, needs, trivial⟩
  | freePages => exact absurd idle clean
  | loadLinux sizes =>
      cases sizes with
      | none => exact failed
      | some sizes =>
          obtain ⟨noReal, noProt, noInitrd⟩ := clean idle
          refine ⟨held.same ⟨rfl, rfl, noReal.symm, noProt.symm, noInitrd.symm, rfl,
            fun there => absurd noReal there, fun there => absurd noProt there, fun _ => rfl⟩,
            ?_, rfl, rfl, rfl⟩
          intro or _
          exact or.elim (absurd rfl) fun loaded => needs (.inr loaded) noReal
  | loadMultiboot filemax =>
      cases filemax with
      | none => exact failed
      | some filemax =>
          obtain ⟨noReal, noProt⟩ := clean idle
          have noInitrd : state.initrdMem = 0 :=
            Decidable.byContradiction fun there => needs (.inl there) noReal
          refine ⟨held.same ⟨rfl, rfl, noReal.symm, noProt.symm, rfl, rfl,
            fun there => absurd noReal there, fun there => absurd noProt there, fun _ => rfl⟩,
            ?_, rfl, noInitrd⟩
          intro or _
          exact needs or noReal
  | loadInitrd request =>
      cases request with
      | none => exact ⟨held, needs, phase⟩
      | some request =>
          rw [startCommand]
          split
          next loaded =>
            exact ⟨held.same ⟨rfl, rfl, rfl, rfl, rfl, rfl, fun _ => rfl, fun _ => rfl, fun _ => rfl⟩,
              needs, needs (.inr loaded)⟩
          · exact ⟨held, needs, phase⟩

/-- The page of a header lies in the pages of its initrd. -/
theorem apart_first {start more : Nat} {range : PageRange}
    (apart : range.Apart ⟨start, more + 1⟩) : range.Apart ⟨start, 1⟩ := by
  have shorter : start + 1 * 0x1000 ≤ start + (more + 1) * 0x1000 :=
    Nat.add_le_add_left (Nat.mul_le_mul_right _ (Nat.le_add_left 1 more)) start
  rcases apart with before | behind
  · exact .inl before
  · exact .inr (Nat.le_trans shorter behind)

/-- What is left when the page of the header is given back. -/
theorem live_freeHeader (exclusive : Exclusive state.live) {start more : Nat}
    (given : ⟨.initrd, start, more + 1⟩ ∈ state.live) {held : Holding PagePurpose}
    (member : held ∈ giveBack ⟨.initrd, start, 1⟩ state.live) :
    held ∈ state.live ∨ held = ⟨.initrd, start + pageSize, more⟩ := by
  by_cases isLive : ⟨.initrd, start, 1⟩ ∈ state.live
  · exact .inl ((mem_giveBack_live isLive).mp member).1
  obtain ⟨whole, isWhole, owner, piece⟩ := (mem_giveBack_cut isLive).mp member
  by_cases isInitrd : whole = ⟨.initrd, start, more + 1⟩
  · subst isInitrd
    right
    cases more with
    | zero => exact absurd isWhole isLive
    | succ more =>
        rw [without_first, List.mem_singleton] at piece
        obtain ⟨_, range⟩ := held
        obtain rfl := owner
        obtain rfl := piece
        rfl
  · have apart : whole.range.Apart ⟨start, more + 1⟩ := exclusive whole isWhole _ given isInitrd
    rw [PageRange.without, if_pos (apart_first apart), List.mem_singleton] at piece
    left
    obtain ⟨_, range⟩ := held
    obtain rfl := owner
    obtain rfl := piece
    exact isWhole

/-- The pages of the others stay. -/
theorem keeps_freeHeader (exclusive : Exclusive state.live) {start more : Nat}
    (given : ⟨.initrd, start, more + 1⟩ ∈ state.live) {held : Holding PagePurpose}
    (member : held ∈ state.live) (owner : held.owner ≠ .initrd) :
    held ∈ giveBack ⟨.initrd, start, 1⟩ state.live := by
  have other : held ≠ ⟨.initrd, start, more + 1⟩ := by
    rintro rfl
    exact owner rfl
  have notHeader : held ≠ ⟨.initrd, start, 1⟩ := by
    rintro rfl
    exact owner rfl
  have apart : held.range.Apart ⟨start, more + 1⟩ := exclusive held member _ given other
  exact mem_giveBack_of_apart member notHeader (apart_first apart)

/-- The page of the header is cut off the pages of a secure initrd. -/
theorem PagesHeld.freeHeader (holds : PagesHeld state) {start more : Nat}
    (isBehind : state.initrdMem = start + pageSize)
    (given : ⟨.initrd, start, more + 1⟩ ∈ state.live) :
    PagesHeld (grubEfiFreePages ⟨.initrd, start, 1⟩ state) where
  described purpose notInitrd there := by
    have kept : (grubEfiFreePages ⟨.initrd, start, 1⟩ state).holding purpose =
        state.holding purpose := by
      cases purpose <;> rfl
    rw [kept] at there ⊢
    refine keeps_freeHeader holds.exclusive given (holds.described purpose notInitrd there) ?_
    rw [owner_holding]
    exact notInitrd
  referenced held member := by
    have behind : state.initrdMem ≠ 0 := by
      rw [isBehind]
      exact Nat.ne_of_gt (Nat.add_pos_right _ (by decide))
    rcases live_freeHeader holds.exclusive given member with member | rfl
    · exact holds.referenced held member
    · exact ⟨behind, .inl isBehind.symm⟩
  exclusive := holds.exclusive.giveBack
  strays := holds.strays

/-- How the rest of a load ends. -/
theorem loadHolds_end (holds : LoadHolds state) (success : Bool) :
    LoadHolds (endTurn state success) := by
  obtain ⟨held, needs, phase⟩ := holds
  have failed : LoadHolds state.fail :=
    ⟨held.fail, fun or => or.elim (fun there => needs (.inl there)) nofun, trivial⟩
  rw [endTurn]
  split
  next filling =>
    rw [filling] at phase
    split
    · exact ⟨held.same ⟨rfl, rfl, rfl, rfl, rfl, rfl, fun _ => rfl, fun _ => rfl, fun _ => rfl⟩,
        fun _ => phase, trivial⟩
    · exact failed
  next filling =>
    split
    · exact ⟨held.goTo _, needs, trivial⟩
    · exact failed
  next secure reading =>
    rw [reading] at phase
    split
    next isSecure =>
      obtain rfl : secure = true := (Bool.and_eq_true_iff.mp isSecure).2
      obtain ⟨start, more, isBehind, given⟩ := phase
      rw [isBehind, Nat.add_sub_cancel]
      exact ⟨(held.freeHeader isBehind given).goTo _, needs, trivial⟩
    · exact ⟨held.goTo _, needs, trivial⟩
  · exact ⟨held, needs, phase⟩

/-- A turn of a load that starts clean. -/
theorem loadHolds_turn (holds : LoadHolds state) {input : PagesInput}
    (documented : Documented state input) (clean : StartsClean state input) :
    LoadHolds (pagesTurn state input) := by
  cases input with
  | command command =>
      rw [pagesTurn]
      split
      next idle => exact loadHolds_command holds idle clean
      · exact holds
  | map answer =>
      rw [pagesTurn]
      split
      next caller mapping => exact loadHolds_map holds mapping documented
      · exact holds
  | grant granted => exact loadHolds_grant holds documented clean
  | finish success => exact loadHolds_end holds success

/-- In every run the load holds its pages. -/
theorem loadHolds_run {allocatedPages : Option PageTable}
    (run : PagesRun StartsClean (freshPages allocatedPages) state) : LoadHolds state := by
  induction run with
  | start =>
      refine ⟨⟨fun purpose _ there => ?_, nofun, nofun, rfl⟩,
        fun or => or.elim (absurd rfl) nofun, trivial⟩
      cases purpose <;> exact absurd rfl there
  | turn _ documented clean inductionHypothesis =>
      exact loadHolds_turn inductionHypothesis documented clean

end Held

/-- In a run in which each load starts clean, `free_pages` gives back just what was given out
for its purpose, and everything given out for a load is still referenced. -/
theorem pages_owned {allocatedPages : Option PageTable} {state : PagesState}
    (run : PagesRun StartsClean (freshPages allocatedPages) state) : PagesOwned state :=
  have holds := loadHolds_run run
  ⟨holds.held.strays, holds.held.referenced⟩

/-- Memory for the parameters of a kernel. -/
def lowMemory : PagesInput :=
  .map (.success 0x500 [⟨.conventionalMemory, 0x40000, 0x20⟩])

/-- The turns of a load up to the pages of its kernel. -/
def kernelPages : List PagesInput :=
  [.command (.loadLinux (some (0x1000, 0x2000))), .map (.tooSmall 0x500 ⟨some 0x8000, none⟩),
    lowMemory, .grant true, .grant true]

/-- A kernel is loaded. -/
theorem pages_owned_kernel :
    PagesOwned (runOps pagesTurn (freshPages none) (kernelPages ++ [.finish true])) :=
  pages_owned (PagesRun.start.turns (by decide +kernel))

/-- The turns of loads, and not of `free_pages` alone. -/
def IsLoad (_ : PagesState) : PagesInput → Prop
  | .command .freePages => False
  | _ => True

instance (state : PagesState) : (input : PagesInput) → Decidable (IsLoad state input)
  | .command .freePages => inferInstanceAs (Decidable False)
  | .command .getMemoryMap | .command (.loadLinux _) | .command (.loadMultiboot _)
  | .command (.loadInitrd _) | .map _ | .grant _ | .finish _ => inferInstanceAs (Decidable True)

/-- A kernel that cannot be read, and then another one: the pages of the first are lost. -/
theorem pages_lost :
    ¬ ∀ state, PagesRun IsLoad (freshPages none) state → PagesOwned state := by
  intro owned
  have again : PagesRun IsLoad (freshPages none) (runOps pagesTurn (freshPages none)
      (kernelPages ++ [.finish false, .command (.loadLinux (some (0x1000, 0x2000)))])) :=
    PagesRun.start.turns (by decide +kernel)
  have lost := (owned _ again).2 ⟨.realMode, 0x5E000, 2⟩ (by decide +kernel)
  exact absurd lost.1 (by decide +kernel)

end GrubLegacy.Loader
