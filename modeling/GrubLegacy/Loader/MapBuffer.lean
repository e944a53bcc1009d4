import GrubLegacy.Loader.PageTurns

/-!
# The buffer of the memory map

`mmap_buf` and `mmap_pages` describe one buffer. They agree, and the firmware is asked with
a buffer that is there, as long as `free_pages` does not take the buffer away.
-/

namespace GrubLegacy.Loader

open Base Efi Clanton

/-- `mmap_buf` is NULL just if `mmap_pages` is 0; the firmware was never given bytes to fill
through NULL, and it never reported a map there. -/
structure MapSound (state : PagesState) : Prop where
  agrees : state.mmapBuf = 0 ↔ state.mmapPages = 0
  asked : ∀ request ∈ state.requests, request.buffer = 0 → request.size = 0
  reported : ∀ request ∈ state.requests, request.reported = true → request.buffer ≠ 0

/-- The loop of `grub_efi_get_memory_map` ends in the turn after a retry, unless the
firmware needs more than it did before. -/
def RetryEnds (state : PagesState) : Prop :=
  ∀ caller size anyPages, state.phase = .mapping caller →
    Documented state (.map (.tooSmall size anyPages)) →
    ∀ answer, Documented (pagesTurn state (.map (.tooSmall size anyPages))) (.map answer) →
      (∀ size' anyPages', answer = .tooSmall size' anyPages' → size' ≤ size) →
      ∀ caller', (pagesTurn (pagesTurn state (.map (.tooSmall size anyPages))) (.map answer)).phase ≠
        .mapping caller'

/-- The turn calls `free_pages`: at the prompt, or where `allocate_pages` or the load of a
multiboot kernel does not get its pages. -/
def FreesPages (state : PagesState) : PagesInput → Prop
  | .command .freePages => state.phase = .idle
  | .map (.success _ memoryMap) => ∃ realSize,
    state.phase = .mapping (.allocatePages realSize) ∧ realModeAddr realSize memoryMap = none
  | .grant granted => ∃ pages, state.asked = some pages ∧ pages.owner ≠ .initrd ∧
    (grubEfiAllocatePages pages granted state).1 = 0
  | _ => False

/-- `free_pages` finds no buffer. -/
def KeepsBuffer (state : PagesState) (input : PagesInput) : Prop :=
  FreesPages state input → state.mmapBuf = 0

/-- Nothing is changed of the buffer, and the firmware is not asked for the map. -/
structure SameMap (state next : PagesState) : Prop where
  mmapBuf : next.mmapBuf = state.mmapBuf
  mmapPages : next.mmapPages = state.mmapPages
  requests : next.requests = state.requests

section Map

variable {state next : PagesState} {input : PagesInput} {pages : Holding PagePurpose}

/-- Two steps that leave the map leave it together. -/
theorem SameMap.trans {last : PagesState} (first : SameMap state next)
    (second : SameMap next last) : SameMap state last :=
  ⟨second.mmapBuf.trans first.mmapBuf, second.mmapPages.trans first.mmapPages,
    second.requests.trans first.requests⟩

/-- A step that leaves the map leaves it sound. -/
theorem MapSound.same (sound : MapSound state) (same : SameMap state next) : MapSound next where
  agrees := by rw [same.mmapBuf, same.mmapPages]; exact sound.agrees
  asked := by rw [same.requests]; exact sound.asked
  reported := by rw [same.requests]; exact sound.reported

/-- Recording pages leaves the map. -/
theorem sameMap_record : SameMap state (recordPages pages state).2 := by
  rw [recordPages]
  dsimp only
  repeat' split
  all_goals exact ⟨rfl, rfl, rfl⟩

/-- Allocating pages at an address leaves the map. -/
theorem sameMap_allocate {granted : Bool} :
    SameMap state (grubEfiAllocatePages pages granted state).2 := by
  rw [grubEfiAllocatePages]
  split
  · exact ⟨rfl, rfl, rfl⟩
  split
  · exact sameMap_record
  · exact ⟨rfl, rfl, rfl⟩

/-- Allocating pages anywhere leaves the map. -/
theorem sameMap_allocateAny {purpose : PagePurpose} {count : Nat} {anyPages : AnyPages} :
    SameMap state (grubEfiAllocateAnyPages purpose count anyPages state).2 := by
  rw [grubEfiAllocateAnyPages]
  split
  · exact ⟨rfl, rfl, rfl⟩
  · exact sameMap_record

/-- Freeing the pages of a variable leaves the map. -/
theorem sameMap_freeVariable : SameMap state (freeVariable pages state) := by
  rw [freeVariable]
  split
  · exact ⟨rfl, rfl, rfl⟩
  · exact ⟨rfl, rfl, rfl⟩

/-- A buffer that is dropped leaves the variables of the map. -/
theorem sameMap_dropBuffer : SameMap state (dropBuffer state) := by
  rw [dropBuffer]
  split
  · exact ⟨rfl, rfl, rfl⟩
  · exact ⟨rfl, rfl, rfl⟩

/-- `free_pages` without a buffer. -/
theorem sameMap_freePages (absent : state.mmapBuf = 0) : SameMap state (freePages state) := by
  have realMode := @sameMap_freeVariable state ⟨.realMode, state.realModeMem, state.realModePages⟩
  rw [freePages]
  generalize freeVariable ⟨.realMode, state.realModeMem, state.realModePages⟩ state = first
    at realMode ⊢
  dsimp only
  have protMode := @sameMap_freeVariable { first with realModeMem := 0 }
    ⟨.protMode, first.protModeMem, first.protModePages⟩
  generalize freeVariable ⟨.protMode, first.protModeMem, first.protModePages⟩
    { first with realModeMem := 0 } = second at protMode ⊢
  have initrd := @sameMap_freeVariable { second with protModeMem := 0 }
    ⟨.initrd, second.initrdMem, second.initrdPages⟩
  generalize freeVariable ⟨.initrd, second.initrdMem, second.initrdPages⟩
    { second with protModeMem := 0 } = third at initrd ⊢
  have memoryMap := @sameMap_freeVariable { third with initrdMem := 0 }
    ⟨.memoryMap, third.mmapBuf, third.mmapPages⟩
  have buffer : third.mmapBuf = state.mmapBuf :=
    initrd.mmapBuf.trans (protMode.mmapBuf.trans realMode.mmapBuf)
  exact ⟨absent.symm,
    memoryMap.mmapPages.trans (initrd.mmapPages.trans (protMode.mmapPages.trans realMode.mmapPages)),
    memoryMap.requests.trans (initrd.requests.trans (protMode.requests.trans realMode.requests))⟩

/-- A failure to get the map leaves what there was. -/
theorem sameMap_mapFailed (caller : MapCaller) : SameMap state (mapFailed state caller) := by
  cases caller <;> exact ⟨rfl, rfl, rfl⟩

/-- The firmware is asked with the buffer there is. -/
theorem MapSound.request (sound : MapSound state) {reported : Bool}
    (there : reported = true → state.mmapBuf ≠ 0) : MapSound (state.request reported) where
  agrees := sound.agrees
  asked := by
    intro request member absent
    rcases List.mem_cons.mp member with rfl | member
    · change state.mmapPages * 0x1000 % 2 ^ 32 = 0
      simp [sound.agrees.mp absent]
    · exact sound.asked request member absent
  reported := by
    intro request member isReported
    rcases List.mem_cons.mp member with rfl | member
    · exact there isReported
    · exact sound.reported request member isReported

/-- A larger buffer is sound. -/
theorem MapSound.enlarge (sound : MapSound state) (size : Nat) (anyPages : AnyPages)
    (caller : MapCaller) : MapSound (enlargeBuffer size anyPages caller state) := by
  have same := sameMap_dropBuffer.trans
    (@sameMap_allocateAny (dropBuffer state) .memoryMap (mapPages size) anyPages)
  rw [enlargeBuffer]
  generalize grubEfiAllocateAnyPages .memoryMap (mapPages size) anyPages (dropBuffer state) = result
    at same ⊢
  have asked := sound.asked
  have reported := sound.reported
  rw [← same.requests] at asked reported
  dsimp only
  split
  · have cleared : MapSound { result.2 with mmapBuf := 0, mmapPages := 0 } :=
      ⟨iff_of_true rfl rfl, asked, reported⟩
    exact cleared.same (sameMap_mapFailed caller)
  next there => exact ⟨iff_of_false there (Nat.succ_ne_zero _), asked, reported⟩

/-- The map is reported to a caller that gets its pages, or finds no buffer to free. -/
theorem sameMap_mapReported {memoryMap : List MemoryDescriptor} {caller : MapCaller}
    (keeps : (∃ realSize, caller = .allocatePages realSize ∧
      realModeAddr realSize memoryMap = none) → state.mmapBuf = 0) :
    SameMap state (mapReported memoryMap state caller) := by
  cases caller with
  | direct => exact ⟨rfl, rfl, rfl⟩
  | allocatePages realSize =>
      rw [mapReported]
      split
      next lacks =>
        have same := sameMap_freePages (keeps ⟨realSize, rfl, lacks⟩)
        exact ⟨same.mmapBuf, same.mmapPages, same.requests⟩
      · exact ⟨rfl, rfl, rfl⟩
  | loadInitrd secure size initrdAddrMax linuxMemSize =>
      rw [mapReported]
      split
      · exact ⟨rfl, rfl, rfl⟩
      · exact ⟨rfl, rfl, rfl⟩

/-- An answer of the firmware leaves the map sound. -/
theorem mapSound_map (sound : MapSound state) {caller : MapCaller} {answer : MapAnswer}
    (mapping : state.phase = .mapping caller) (documented : Documented state (.map answer))
    (keeps : KeepsBuffer state (.map answer)) : MapSound (mapTurn caller state answer) := by
  cases answer with
  | success size memoryMap =>
      have there : state.mmapBuf ≠ 0 := by
        intro absent
        have none_ : state.tmpMmapSize = 0 := by
          simp [PagesState.tmpMmapSize, sound.agrees.mp absent]
        have fits := documented.2
        have some_ := documented.1
        omega
      have requested := @MapSound.request state sound true fun _ => there
      have sized : MapSound { state.request true with mmapSize := size } :=
        ⟨requested.agrees, requested.asked, requested.reported⟩
      refine sized.same (sameMap_mapReported ?_)
      rintro ⟨realSize, rfl, lacks⟩
      exact absurd (keeps ⟨realSize, mapping, lacks⟩) there
  | tooSmall size anyPages => exact (@MapSound.request state sound false nofun).enlarge size anyPages caller
  | failed => exact (@MapSound.request state sound false nofun).same (sameMap_mapFailed caller)

/-- A command leaves the map, until it asks for it. -/
theorem sameMap_command {command : LoadCommand} (idle : state.phase = .idle)
    (keeps : KeepsBuffer state (.command command)) :
    SameMap state (startCommand state command) := by
  cases command with
  | getMemoryMap => exact ⟨rfl, rfl, rfl⟩
  | freePages => exact sameMap_freePages (keeps idle)
  | loadLinux sizes => cases sizes <;> exact ⟨rfl, rfl, rfl⟩
  | loadMultiboot filemax => cases filemax <;> exact ⟨rfl, rfl, rfl⟩
  | loadInitrd request =>
      cases request with
      | none => exact ⟨rfl, rfl, rfl⟩
      | some request =>
          rw [startCommand]
          split
          · exact ⟨rfl, rfl, rfl⟩
          · exact ⟨rfl, rfl, rfl⟩

/-- A load that does not get its pages frees what it has. -/
theorem sameMap_refused {granted : Bool} {refused : PagesState}
    (keeps : state.mmapBuf = 0)
    (same : SameMap (grubEfiAllocatePages pages granted state).2 refused) :
    SameMap state (freePages refused).fail := by
  have dropped := sameMap_allocate.trans same
  have freed := dropped.trans (sameMap_freePages (dropped.mmapBuf.trans keeps))
  exact ⟨freed.mmapBuf, freed.mmapPages, freed.requests⟩

/-- A load that gets its pages goes on with them. -/
theorem sameMap_granted {granted : Bool}
    (same : SameMap (grubEfiAllocatePages pages granted state).2 next) : SameMap state next :=
  sameMap_allocate.trans same

/-- Pages that are granted leave the map. -/
theorem sameMap_grant {granted : Bool} (keeps : KeepsBuffer state (.grant granted)) :
    SameMap state (grantTurn state granted) := by
  have refuses : ∀ pages, state.asked = some pages → pages.owner ≠ .initrd →
      (grubEfiAllocatePages pages granted state).1 = 0 → state.mmapBuf = 0 :=
    fun pages asked kernel refused => keeps ⟨pages, asked, kernel, refused⟩
  rw [grantTurn]
  split
  next addr asking =>
    rw [PagesState.asked, asking] at refuses
    dsimp only
    split
    next refused => exact sameMap_refused (refuses _ rfl nofun refused) ⟨rfl, rfl, rfl⟩
    · exact sameMap_granted ⟨rfl, rfl, rfl⟩
  next asking =>
    rw [PagesState.asked, asking] at refuses
    dsimp only
    split
    next refused => exact sameMap_refused (refuses _ rfl nofun refused) ⟨rfl, rfl, rfl⟩
    · exact sameMap_granted ⟨rfl, rfl, rfl⟩
  next asking =>
    rw [PagesState.asked, asking] at refuses
    dsimp only
    split
    next refused => exact sameMap_refused (refuses _ rfl nofun refused) ⟨rfl, rfl, rfl⟩
    · exact sameMap_granted ⟨rfl, rfl, rfl⟩
  next secure addr asking =>
    dsimp only
    split
    · exact sameMap_granted ⟨rfl, rfl, rfl⟩
    · exact sameMap_granted ⟨rfl, rfl, rfl⟩
  · exact ⟨rfl, rfl, rfl⟩

/-- The end of a load leaves the map. -/
theorem sameMap_end {success : Bool} : SameMap state (endTurn state success) := by
  rw [endTurn]
  repeat' split
  all_goals exact ⟨rfl, rfl, rfl⟩

/-- A turn that leaves the buffer to those who need it keeps the invariant. -/
theorem mapSound_turn (sound : MapSound state) (documented : Documented state input)
    (keeps : KeepsBuffer state input) : MapSound (pagesTurn state input) := by
  cases input with
  | command command =>
      rw [pagesTurn]
      split
      next idle => exact sound.same (sameMap_command idle keeps)
      · exact sound
  | map answer =>
      rw [pagesTurn]
      split
      next caller mapping => exact mapSound_map sound mapping documented keeps
      · exact sound
  | grant granted => exact sound.same (sameMap_grant keeps)
  | finish success => exact sound.same sameMap_end

/-! ## The retry loop -/

/-- Behind a failure the map is not asked for again. -/
theorem mapFailed_leaves (caller caller' : MapCaller) :
    (mapFailed state caller).phase ≠ .mapping caller' := by
  cases caller <;> nofun

/-- Behind a report the map is not asked for again. -/
theorem mapReported_leaves {memoryMap : List MemoryDescriptor} (caller caller' : MapCaller) :
    (mapReported memoryMap state caller).phase ≠ .mapping caller' := by
  cases caller with
  | direct => nofun
  | allocatePages realSize =>
      rw [mapReported]
      split <;> nofun
  | loadInitrd secure size initrdAddrMax linuxMemSize =>
      rw [mapReported]
      split <;> nofun

/-- The pages for a map of some size hold it. -/
theorem le_mapPages {size : Nat} (small : size + 4095 < 2 ^ 32)
    (below : mapPages size * 0x1000 ≤ 2 ^ 31) : size ≤ mapPages size * 0x1000 % 2 ^ 32 := by
  rw [mapPages, Nat.mod_eq_of_lt small] at below ⊢
  omega

/-- After a retry the buffer holds what the firmware needed, or the loop has ended. -/
theorem enlargeBuffer_holds {size : Nat} {anyPages : AnyPages} {caller caller' : MapCaller}
    (documented : Documented state (.map (.tooSmall size anyPages)))
    (mapping : (enlargeBuffer size anyPages caller (state.request false)).phase =
      .mapping caller') :
    size ≤ (enlargeBuffer size anyPages caller (state.request false)).tmpMmapSize := by
  obtain ⟨_, small, below⟩ := documented
  rw [enlargeBuffer, grubEfiAllocateAnyPages] at mapping ⊢
  cases isChosen : anyPages.chosen with
  | none =>
      rw [isChosen] at mapping
      exact absurd mapping (mapFailed_leaves _ _)
  | some address =>
      rw [isChosen] at mapping
      dsimp only at mapping ⊢
      split at mapping
      · exact absurd mapping (mapFailed_leaves _ _)
      next there =>
        rw [if_neg there]
        obtain ⟨_, fits, _⟩ := below address isChosen
        exact le_mapPages small (Nat.le_trans (Nat.le_add_left _ _) fits)

/-- The loop ends as soon as the firmware does not need more than before. -/
theorem retryEnds (state : PagesState) : RetryEnds state := by
  intro caller size anyPages mapping documented answer documented' less caller'
  have turned : pagesTurn state (.map (.tooSmall size anyPages)) =
      enlargeBuffer size anyPages caller (state.request false) := by
    rw [pagesTurn, mapping]
    rfl
  rw [turned] at documented' ⊢
  rw [pagesTurn]
  split
  next again retries =>
    cases answer with
    | success size' memoryMap => exact mapReported_leaves _ _
    | tooSmall size' anyPages' =>
        have holds := enlargeBuffer_holds documented retries
        have needed := documented'.1
        have same := less size' anyPages' rfl
        omega
    | failed => exact mapFailed_leaves _ _
  next left => exact left caller'

end Map

/-- In a run in which `free_pages` never finds a buffer, the two globals agree, the firmware
is asked and reports with a buffer, and the retry loop ends. -/
theorem mapBuffer_sound {allocatedPages : Option PageTable} {state : PagesState}
    (run : PagesRun KeepsBuffer (freshPages allocatedPages) state) :
    MapSound state ∧ RetryEnds state := by
  refine ⟨?_, retryEnds state⟩
  induction run with
  | start => exact ⟨iff_of_true rfl rfl, nofun, nofun⟩
  | turn _ documented keeps inductionHypothesis =>
      exact mapSound_turn inductionHypothesis documented keeps

/-- A buffer for the memory map. -/
def smallBuffer : PagesInput := .map (.tooSmall 0x500 ⟨some 0x8000, none⟩)

/-- A map that describes nothing of use. -/
def reservedMap : PagesInput := .map (.success 0x500 [])

/-- A multiboot kernel that does not get its pages, and a call for the memory map behind it. -/
def mapTurns : List PagesInput :=
  [.command (.loadMultiboot (some 0x4000)), .grant false, .command .getMemoryMap, smallBuffer,
    reservedMap]

/-- `free_pages` has found no buffer, and one is allocated for the map. -/
theorem mapBuffer_sound_refused : MapSound (runOps pagesTurn (freshPages none) mapTurns) := by
  have direct : ∀ realSize, LoadPhase.mapping .direct ≠ .mapping (.allocatePages realSize) := nofun
  have turns : Along pagesTurn (fun state input => Documented state input ∧ KeepsBuffer state input)
      (freshPages none) mapTurns := by
    refine ⟨⟨trivial, fun frees => frees.elim⟩, ⟨by decide, fun _ => rfl⟩,
      ⟨trivial, fun frees => frees.elim⟩, ⟨by decide, fun frees => frees.elim⟩,
      ⟨by decide, ?_⟩, trivial⟩
    rintro ⟨realSize, mapping, -⟩
    exact absurd mapping (direct realSize)
  exact (mapBuffer_sound (PagesRun.start.turns turns)).1

/-- A kernel that finds no room for its parameters takes the buffer away. -/
theorem mapBuffer_lost :
    ¬ ∀ state, PagesRun (fun _ _ => True) (freshPages none) state → MapSound state := by
  intro sound
  have asked : PagesRun (fun _ _ => True) (freshPages none)
      (pagesTurn (freshPages none) (.command (.loadLinux (some (0x1000, 0x1000))))) :=
    .turn .start (by decide) trivial
  have enlarged := asked.turn (by decide : Documented _ smallBuffer) trivial
  have failed := enlarged.turn (by decide : Documented _ reservedMap) trivial
  exact absurd ((sound _ failed).agrees.mp (by decide)) (by decide)

end GrubLegacy.Loader
