import GrubLegacy.Fsys.FatChain

/-!
# Lookups that end on a FAT file system

The search of a directory ends at an entry of its chain on the disk: an end marker, the entry that
is looked for, or the end of the chain. Below 2^31, where `filepos` is an `int`, it is reached,
and the lookup returns. The characters of the name and the bytes that are left show it.
-/

namespace GrubLegacy.Fsys.Fat

open Base CStrings Stage2 DiskIo BlockFiles
open GrubLegacy.Partition (Buffer)

/-! ## Entries -/

/-- The entry is the one looked for: the long name before it or its short one is the component. -/
def Found (doPossibilities : Bool) (names : NameState) (dirBuf : Buffer)
    (component : List UInt8) : Prop :=
  doPossibilities = false ∧ fatDirentryAttrib dirBuf ≠ fatAttribLongname ∧
    fatDirentryValid dirBuf = true ∧
      (names.Bound dirBuf ∧ subcasestring component names.text = 0 ∨
        subcasestring component (names.used.short dirBuf).text = 0)

/-- What is assembled of a long name behind an entry that is not the one looked for. -/
def NameState.passed (names : NameState) (dirBuf : Buffer) (doPossibilities : Bool) : NameState :=
  if fatDirentryAttrib dirBuf = fatAttribLongname then names.longEntry dirBuf
  else if fatDirentryValid dirBuf then
    if names.Bound dirBuf ∧ doPossibilities = true then names.used else names.used.short dirBuf
  else names

/-- What an entry leads to: the next one, or the one that was looked for. -/
inductive Behind (state : DirState) (dirBuf : Buffer) (component rest : List UInt8) :
    DirState → Prop
  | next {state' : DirState} (place : state'.place = .scan component rest)
      (cursor : state'.cursor = state.cursor)
      (names : state'.names = state.names.passed dirBuf state.doPossibilities)
      (possibilities : state'.doPossibilities = state.doPossibilities)
      (other : ¬ Found state.doPossibilities state.names dirBuf component) :
      Behind state dirBuf component rest state'
  | found {state' : DirState} (place : state'.place = .loop) (name : state'.dirname = rest)
      (cursor : state'.cursor =
        { state.cursor with
          filepos := 0, fileCluster := fatDirentryFirstCluster dirBuf, currentClusterNum := maxint })
      (isFound : Found state.doPossibilities state.names dirBuf component) :
      Behind state dirBuf component rest state'

section

variable {state : DirState} {dirBuf : Buffer} {component rest : List UInt8}

/-- Printing a name leaves the place, the cursor and the names. -/
theorem printFilename_same (state : DirState) (component : List UInt8) :
    (printFilename state component).place = state.place ∧
      (printFilename state component).cursor = state.cursor ∧
      (printFilename state component).names = state.names ∧
      (printFilename state component).doPossibilities = state.doPossibilities := by
  rw [printFilename]
  split
  · exact ⟨rfl, rfl, rfl, rfl⟩
  · exact ⟨rfl, rfl, rfl, rfl⟩

/-- The short name is tried when the long one is not that of the entry, or another one. -/
theorem shortTried_behind (scans : state.place = .scan component rest)
    (own : fatDirentryAttrib dirBuf ≠ fatAttribLongname) (valid : fatDirentryValid dirBuf = true)
    (other : ¬ (state.names.Bound dirBuf ∧ state.doPossibilities = true))
    (long : ¬ (state.names.Bound dirBuf ∧ subcasestring component state.names.text = 0)) :
    Behind state dirBuf component rest
      (shortTried { state with names := state.names.used } dirBuf component rest) := by
  have passed : state.names.passed dirBuf state.doPossibilities = state.names.used.short dirBuf := by
    rw [NameState.passed, if_neg own, if_pos valid, if_neg other]
  rw [shortTried]
  split
  next printing =>
    obtain ⟨place, cursor, names, possibilities⟩ :=
      printFilename_same { state with names := state.names.used.short dirBuf } component
    exact .next (place.trans scans) cursor (names.trans passed.symm) possibilities
      fun isFound => Bool.false_ne_true (isFound.1.symm.trans printing)
  next plain =>
    have plain : state.doPossibilities = false := Bool.eq_false_iff.mpr plain
    split
    next same => exact .found rfl rfl rfl ⟨plain, own, valid, .inr same⟩
    next different =>
      refine .next scans rfl passed.symm rfl fun isFound => ?_
      rcases isFound.2.2.2 with isLong | isShort
      · exact long isLong
      · exact different isShort

/-- Behind an entry that is tried the scan goes on, or the lookup with what it found. -/
theorem entryTried_behind (scans : state.place = .scan component rest)
    (own : fatDirentryAttrib dirBuf ≠ fatAttribLongname) (valid : fatDirentryValid dirBuf = true) :
    Behind state dirBuf component rest (entryTried state dirBuf component rest) := by
  rw [entryTried]
  split
  next bound =>
    split
    next printing =>
      have passed : state.names.passed dirBuf state.doPossibilities = state.names.used := by
        rw [NameState.passed, if_neg own, if_pos valid, if_pos ⟨bound, printing⟩]
      obtain ⟨place, cursor, names, possibilities⟩ :=
        printFilename_same { state with names := state.names.used } component
      exact .next (place.trans scans) cursor (names.trans passed.symm) possibilities
        fun isFound => Bool.false_ne_true (isFound.1.symm.trans printing)
    next plain =>
      split
      next same =>
        exact .found rfl rfl rfl
          ⟨Bool.eq_false_iff.mpr plain, own, valid, .inl ⟨bound, same⟩⟩
      next different =>
        exact shortTried_behind scans own valid (fun printing => plain printing.2)
          fun long => different long.2
  next unbound =>
    exact shortTried_behind scans own valid (fun printing => unbound printing.1)
      fun long => unbound long.1

/-- The same holds behind any entry that is read. -/
theorem entryRead_behind (scans : state.place = .scan component rest) :
    Behind state dirBuf component rest (entryRead state dirBuf component rest) := by
  rw [entryRead]
  split
  next long =>
    exact .next scans rfl (if_pos long).symm rfl fun isFound => isFound.2.1 long
  next own =>
    split
    next valid => exact entryTried_behind scans own valid
    next free =>
      have passed : state.names.passed dirBuf state.doPossibilities = state.names := by
        rw [NameState.passed, if_neg own, if_neg free]
      exact .next scans rfl passed.symm rfl fun isFound => free isFound.2.2.1

end

/-! ## Steps -/

section

variable {media : PartitionMedia} {super : FatSuper}

/-- The entry at `filepos` is read, and the search goes on behind it. -/
def PassedOver (media : PartitionMedia) (super : FatSuper) (state : DirState)
    (component rest : List UInt8) : Prop :=
  let read := nextEntry media super state
  read.ret = fatDirentryLength ∧ read.buf 0 ≠ 0 ∧
    (entryRead { state with cursor := read.state } read.buf component rest).place ≠ .loop

/-- An entry that is passed over ends below 2^31. -/
def StepOk (media : PartitionMedia) (super : FatSuper) (state : DirState) : Prop :=
  match state.place with
  | .loop => True
  | .scan component rest => PassedOver media super state component rest →
      0 ≤ state.cursor.filepos ∧ state.cursor.filepos + fatDirentryLength < 2 ^ 31

/-- What a step of the scan leads to. -/
theorem scanRead_next {state state' : DirState} {component rest : List UInt8}
    (scans : state.place = .scan component rest) (ok : StepOk media super state)
    (goesOn : scanRead state (nextEntry media super state) component rest = .next state') :
    (state'.place = .loop ∧ state'.dirname = rest) ∨
      (state'.place = .scan component rest ∧ state.cursor.filepos < 2 ^ 31 ∧
        state'.cursor.filepos = state.cursor.filepos + fatDirentryLength) := by
  rw [StepOk, scans] at ok
  dsimp only at ok
  rw [scanRead] at goesOn
  split at goesOn
  · rw [scanEnd] at goesOn
    split at goesOn
    · split at goesOn
      · cases goesOn
      · cases goesOn
    · cases goesOn
  next read =>
    obtain ⟨whole, used⟩ := not_or.mp read
    have whole := Classical.not_not.mp whole
    have behind := @entryRead_behind
      { state with cursor := (nextEntry media super state).state }
      (nextEntry media super state).buf component rest scans
    cases goesOn
    cases behind with
    | found place name => exact .inl ⟨place, name⟩
    | next place cursor =>
        have passed : PassedOver media super state component rest := by
          refine ⟨whole, used, ?_⟩
          rw [place]
          exact nofun
        obtain ⟨low, high⟩ := ok passed
        have length : fatDirentryLength = 32 := rfl
        refine .inr ⟨place, by omega, ?_⟩
        have filepos := fatRead_filepos (by decide)
          (toInt32_of_range (by omega) (by omega)) whole
        rw [cursor]
        exact filepos.trans (toInt32_of_range (by omega) high)

/-- A step of the outer loop takes a component off the name. -/
theorem loopStep_next {state state' : DirState} (goesOn : loopStep state = .next state') :
    ∃ component rest, state'.place = .scan component rest ∧
      rest.length < state.dirname.length := by
  rw [loopStep] at goesOn
  split at goesOn
  · split at goesOn
    · cases goesOn
    · cases goesOn
  next name =>
    split at goesOn
    · cases goesOn
    · obtain ⟨nonempty, space⟩ := not_or.mp name
      cases goesOn
      exact ⟨_, _, rfl, rest_length_lt nonempty (by simpa using space)⟩

/-! ## The measure -/

/-- The characters of the name and the bytes that are left. -/
def left (state : DirState) : Nat × Nat :=
  match state.place with
  | .loop => (2 * state.dirname.length, 0)
  | .scan _ rest => (2 * rest.length + 1, (2 ^ 31 - state.cursor.filepos).toNat)

/-- Fewer characters are left, or as many and fewer bytes. -/
def Less : Nat × Nat → Nat × Nat → Prop := Prod.Lex Nat.lt Nat.lt

/-- What is left of a lookup can only become less so often. -/
theorem less_wellFounded : WellFounded Less := (Prod.lex Nat.lt_wfRel Nat.lt_wfRel).wf

/-- Every step of `fat_dir` that goes on leaves less to do. -/
theorem dirStep_less {state state' : DirState} (ok : StepOk media super state)
    (goesOn : dirStep media super state = .next state') : Less (left state') (left state) := by
  rw [dirStep] at goesOn
  cases place : state.place with
  | loop =>
      rw [place] at goesOn
      obtain ⟨component, rest, place', shorter⟩ := loopStep_next goesOn
      have fewer : 2 * rest.length + 1 < 2 * state.dirname.length := by omega
      rw [left, left, place, place']
      exact .left _ _ fewer
  | scan component rest =>
      rw [place] at goesOn
      obtain ⟨place', name⟩ | ⟨place', small, filepos⟩ := scanRead_next place ok goesOn
      · rw [left, left, place, place', name]
        exact .left _ _ (Nat.lt_succ_self _)
      · have fewer : (2 ^ 31 - (state.cursor.filepos + fatDirentryLength)).toNat <
            (2 ^ 31 - state.cursor.filepos).toNat := by
          have length : fatDirentryLength = 32 := rfl
          omega
        rw [left, left, place, place', filepos]
        exact .right _ fewer

/-! ## The results -/

/-- There is a match, or `errnum` is set. -/
def Settled (result : DirResult) : Prop := result.ret = 1 ∨ result.state.cursor.errnum ≠ .none

/-- Where a step ends the lookup has its result. -/
theorem dirStep_settled {state : DirState} {result : DirResult}
    (ends : dirStep media super state = .done result) : Settled result := by
  rw [dirStep] at ends
  cases place : state.place with
  | loop =>
      rw [place] at ends
      dsimp only at ends
      rw [loopStep] at ends
      split at ends
      · split at ends
        · cases ends
          exact .inr nofun
        · cases ends
          exact .inl rfl
      · split at ends
        · cases ends
          exact .inr nofun
        · cases ends
  | scan component rest =>
      rw [place] at ends
      dsimp only at ends
      rw [scanRead] at ends
      split at ends
      · rw [scanEnd] at ends
        split at ends
        · split at ends
          · cases ends
            exact .inl rfl
          · cases ends
            exact .inr nofun
        next failed =>
          cases ends
          exact .inr failed
      · cases ends

/-- So every lookup that returns has one. -/
theorem returns_settled {start : DirState} {result : DirResult}
    (returns : Returns (dirStep media super) start result) : Settled result := by
  induction returns with
  | done ends => exact dirStep_settled ends
  | next _ _ inductionHypothesis => exact inductionHypothesis

/-- A lookup returns, with a match or an error, when no entry that is passed over ends at 2^31
or behind it. -/
theorem returns_of_stepOk (start : DirState)
    (ok : ∀ state, Reached (dirStep media super) start state → StepOk media super state) :
    ∃ result, Returns (dirStep media super) start result ∧ Settled result := by
  obtain ⟨result, returns⟩ := returns_of_measure less_wellFounded left
    fun state _ reached goesOn => dirStep_less (ok state reached) goesOn
  exact ⟨result, returns, returns_settled returns⟩

end

/-! ## The directories on the disk -/

section

variable (media : PartitionMedia) (super : FatSuper) (first : Int) (doPossibilities : Bool)
  (names : NameState) (component : List UInt8)

/-- What is assembled of a long name behind so many entries of a directory. -/
def namesBehind : Nat → NameState
  | 0 => names
  | k + 1 =>
    match diskEntry media super first k with
    | none => namesBehind k
    | some dirBuf => (namesBehind k).passed dirBuf doPossibilities

/-- The search of a directory ends at an entry: the chain has ended before it, or it is the end
marker or the entry that is looked for. -/
def EndsAt (k : Nat) : Prop :=
  ∀ dirBuf, diskEntry media super first k = some dirBuf → dirBuf 0 = 0 ∨
    Found doPossibilities (namesBehind media super first doPossibilities names k) dirBuf component

/-- One of the entries below 2^31 ends the search, and a window has each entry of the FAT. -/
structure DirectoryEnds : Prop where
  inWindow : 0 ≤ first → ∀ n cluster, chainAt media super first n = some cluster →
    InWindow media super cluster
  ends : ∃ k, 32 * k < 2 ^ 31 ∧ EndsAt media super first doPossibilities names component k

end

section

variable {media : PartitionMedia} {super : FatSuper}

/-- A directory in which a search begins ends. -/
def SearchOk (media : PartitionMedia) (super : FatSuper) (state : DirState) : Prop :=
  state.place = .loop → ∀ state', loopStep state = .next state' →
    ∀ component rest, state'.place = .scan component rest →
      DirectoryEnds media super state'.cursor.fileCluster state'.doPossibilities state'.names
        component

/-- What is known of a lookup: the cursor is before an entry of the directory that is searched,
and none before that has ended the search. -/
inductive Known (media : PartitionMedia) (super : FatSuper) : DirState → Prop
  | loop {state : DirState} {first : Int} (place : state.place = .loop)
      (here : AtEntry media super first 0 state.cursor) : Known media super state
  | scan {state : DirState} {first : Int} {names : NameState} {component rest : List UInt8}
      {k : Nat} (place : state.place = .scan component rest)
      (here : AtEntry media super first k state.cursor)
      (passed : state.names = namesBehind media super first state.doPossibilities names k)
      (ends : DirectoryEnds media super first state.doPossibilities names component)
      (before : ∀ j < k,
        ¬ EndsAt media super first state.doPossibilities names component j) :
      Known media super state

section

variable {first : Int} {doPossibilities : Bool} {names : NameState} {component : List UInt8} {k : Nat}

/-- An entry that is passed over does not end the search. -/
theorem not_endsAt {dirBuf : Buffer} (isEntry : diskEntry media super first k = some dirBuf)
    (used : dirBuf 0 ≠ 0)
    (other : ¬ Found doPossibilities (namesBehind media super first doPossibilities names k) dirBuf
      component) :
    ¬ EndsAt media super first doPossibilities names component k :=
  fun ends => (ends dirBuf isEntry).elim used other

/-- The entry that ends the search is not behind 2^31. -/
theorem DirectoryEnds.later
    (ends : DirectoryEnds media super first doPossibilities names component)
    (before : ∀ j < k, ¬ EndsAt media super first doPossibilities names component j) :
    ∃ last, k ≤ last ∧ 32 * last < 2 ^ 31 ∧
      EndsAt media super first doPossibilities names component last := by
  obtain ⟨last, small, endsAt⟩ := ends.ends
  exact ⟨last, Nat.le_of_not_lt fun earlier => before last earlier endsAt, small, endsAt⟩

end

/-- An entry that is passed over ends below 2^31. -/
theorem Known.stepOk (sane : SaneSuper media super) {state : DirState}
    (known : Known media super state) : StepOk media super state := by
  cases known with
  | loop place => rw [StepOk, place]; trivial
  | @scan first names component rest k place here passed ends before =>
      rw [StepOk, place]
      intro passedOver
      obtain ⟨whole, used, notFound⟩ := passedOver
      obtain ⟨last, atLeast, small, endsAt⟩ := ends.later before
      obtain ⟨isEntry, -⟩ := fatRead_entry sane here ends.inWindow (by omega) whole
      have filepos := here.filepos_eq (by omega)
      have length : fatDirentryLength = 32 := rfl
      have notLast : k ≠ last := by
        rintro rfl
        have behind := @entryRead_behind
          { state with cursor := (nextEntry media super state).state }
          (nextEntry media super state).buf component rest place
        cases behind with
        | found place' => exact notFound place'
        | next _ _ _ _ other =>
            rw [passed] at other
            exact not_endsAt isEntry used other endsAt
      omega

/-- A component is looked for where the cursor is. -/
theorem loopStep_same {state state' : DirState} (goesOn : loopStep state = .next state') :
    state'.cursor = state.cursor ∧ state.dirname ≠ [] := by
  rw [loopStep] at goesOn
  split at goesOn
  · split at goesOn
    · cases goesOn
    · cases goesOn
  next named =>
    split at goesOn
    · cases goesOn
    · cases goesOn
      exact ⟨rfl, fun empty => named (.inl empty)⟩

/-- What a component begins with. -/
theorem loopStep_known {state state' : DirState} {first : Int}
    (here : AtEntry media super first 0 state.cursor)
    (goesOn : loopStep state = .next state')
    (ok : ∀ component rest, state'.place = .scan component rest →
      DirectoryEnds media super state'.cursor.fileCluster state'.doPossibilities state'.names
        component) : Known media super state' := by
  have cursor := (loopStep_same goesOn).1
  obtain ⟨component, rest, place, -⟩ := loopStep_next goesOn
  have ends := ok component rest place
  rw [← cursor] at here
  rw [here.file] at ends
  exact .scan place here rfl ends nofun

/-- What the entry that is read leads to. -/
theorem scanRead_known (sane : SaneSuper media super) {state state' : DirState} {first : Int}
    {names : NameState} {component rest : List UInt8} {k : Nat}
    (place : state.place = .scan component rest)
    (here : AtEntry media super first k state.cursor)
    (passed : state.names = namesBehind media super first state.doPossibilities names k)
    (ends : DirectoryEnds media super first state.doPossibilities names component)
    (before : ∀ j < k, ¬ EndsAt media super first state.doPossibilities names component j)
    (goesOn : scanRead state (nextEntry media super state) component rest = .next state') :
    Known media super state' := by
  rw [scanRead] at goesOn
  split at goesOn
  · rw [scanEnd] at goesOn
    split at goesOn
    · split at goesOn
      · cases goesOn
      · cases goesOn
    · cases goesOn
  next read =>
    obtain ⟨whole, used⟩ := not_or.mp read
    obtain ⟨last, atLeast, small, -⟩ := ends.later before
    obtain ⟨isEntry, there⟩ := fatRead_entry sane here ends.inWindow (by omega)
      (Classical.not_not.mp whole)
    have behind := @entryRead_behind
      { state with cursor := (nextEntry media super state).state }
      (nextEntry media super state).buf component rest place
    cases goesOn
    generalize entryRead _ _ _ _ = state' at behind
    cases behind with
    | found place' _ cursor =>
        -- The next directory begins at its first entry.
        refine @Known.loop _ _ _ (fatDirentryFirstCluster (nextEntry media super state).buf) place' ?_
        rw [cursor]
        exact ⟨⟨there.clear, rfl, there.window.of_same rfl rfl⟩, rfl, .inl rfl⟩
    | next place' cursor names' possibilities other =>
        dsimp only at names' possibilities other cursor
        have names'' : state'.names =
            namesBehind media super first state.doPossibilities names (k + 1) := by
          rw [names', passed, namesBehind, isEntry]
          rfl
        rw [passed] at other
        rw [← possibilities] at names'' ends before other
        refine .scan place' (by rw [cursor]; exact there) names'' ends fun j earlier => ?_
        rcases Nat.lt_succ_iff_lt_or_eq.mp earlier with below | rfl
        · exact before j below
        · exact not_endsAt isEntry used other

/-- A step keeps what is known. -/
theorem Known.step (sane : SaneSuper media super) {state state' : DirState}
    (ok : SearchOk media super state) (known : Known media super state)
    (goesOn : dirStep media super state = .next state') : Known media super state' := by
  cases known with
  | loop place here =>
      rw [dirStep, place] at goesOn
      exact loopStep_known here goesOn (ok place state' goesOn)
  | scan place here passed ends before =>
      rw [dirStep, place] at goesOn
      exact scanRead_known sane place here passed ends before goesOn

/-- The lookup of a name returns, with a match or an error, when the search of each directory it
comes to ends on the disk. -/
theorem fatDir_returns (mounts : Mounts media super) (sectors : 9 ≤ media.sectorBits)
    {cursor : FatState} (clear : cursor.errnum = .none) (window : WindowSound media super cursor)
    (filemax : Int) (filename : Buffer) (printPossibilities : Int) (dirname : List UInt8)
    (ok : ∀ state, Reached (dirStep media super)
      (dirStart super cursor filemax filename printPossibilities dirname) state →
        SearchOk media super state) :
    ∃ result, Returns (dirStep media super)
      (dirStart super cursor filemax filename printPossibilities dirname) result ∧
        Settled result := by
  have sane := mounts.sane sectors
  refine returns_of_stepOk _ fun state reached => Known.stepOk sane ?_
  induction reached with
  | start =>
      exact @Known.loop _ _ _ super.rootCluster rfl
        ⟨⟨clear, rfl, window.of_same rfl rfl⟩, rfl, .inl rfl⟩
  | next reached goesOn inductionHypothesis =>
      exact Known.step sane (ok _ reached) inductionHypothesis goesOn

end

/-! ## A lookup through a chain -/

/-- A file system with 32-bit entries, a FAT of one sector and the cluster 2 as its root. -/
def smallSuper : FatSuper where
  fatOffset := 1
  fatLength := 1
  fatSize := 8
  rootOffset := 2
  rootMax := 0
  dataOffset := 2
  numSectors := 16
  numClust := 16
  clustEofMarker := 0xffffff8
  sectsPerClust := 1
  sectsizeBits := 9
  clustsizeBits := 9
  rootCluster := 2

/-- Its parameters, and what its FAT begins with. The first cluster has deleted entries only. -/
def smallContent (position : Nat) : UInt8 :=
  if 1024 ≤ position ∧ position < 1536 then 0xE5
  else if position = 12 then 2 else if position = 13 then 1 else if position = 14 then 1
  else if position = 16 then 1 else if position = 19 then 16
  else if position = 21 then 0xF8 else if position = 36 then 1
  else if position = 44 then 2 else if position = 512 then 0xF8
  else if position = 513 then 0xFF else if position = 514 then 0xFF
  else if position = 515 then 0x0F else 0

/-- The chain 2, 5 of the root, with the directory `a`, and the chains 6 of that, with the file
`b`, and 7 of the file. -/
def chainBytes : List (Nat × UInt8) :=
  [ (520, 5), (532, 0xFF), (533, 0xFF), (534, 0xFF), (535, 0x0F),
    (536, 0xFF), (537, 0xFF), (538, 0xFF), (539, 0x0F),
    (540, 0xFF), (541, 0xFF), (542, 0xFF), (543, 0x0F),
    -- the entry of the directory
    (2560, charOf 'A'), (2561, 0x20), (2568, 0x20), (2571, 0x10), (2586, 6),
    -- that of the file
    (3072, charOf 'B'), (3073, 0x20), (3080, 0x20), (3083, 0x20), (3098, 7)]

def chainMedia : PartitionMedia :=
  plainMedia (fun position => (chainBytes.lookup position).getD (smallContent position)) 16 9

/-- Reads of a small partition. -/
theorem small_devread {content : Nat → UInt8} {sector offset size : Nat} (some_ : 0 < size)
    (inside : sector + (offset + size - 1) / 512 < 16) :
    (plainMedia content 16 9).devread sector offset size =
      .ok ((plainMedia content 16 9).bytes (sector * 512 + offset) size) :=
  devread_inside rfl some_ inside (Nat.lt_trans inside (by decide))

/-- The partition with a directory of two clusters is mounted. -/
theorem chainMedia_mounts : Mounts chainMedia smallSuper where
  accepts := by
    have bpb : chainMedia.devread (0 : Nat) (0 : Nat) (64 : Nat) = _ :=
      small_devread (by decide) (by decide)
    have firstFat : chainMedia.devread (1 : Nat) (0 : Nat) (4 : Nat) = _ :=
      small_devread (by decide) (by decide)
    refine ⟨Area.fill (fun _ => 0) (chainMedia.bytes (0 * 512 + 0) 64),
      Area.fill (fun _ => 0) (chainMedia.bytes (1 * 512 + 0) 4), ?_, ?_, ?_, ?_, ?_, ?_⟩
    · exact congrArg bytesOf bpb
    · decide +kernel
    · decide +kernel
    · decide +kernel
    · exact congrArg bytesOf firstFat
    · decide +kernel

/-- Nothing was read since the mount. -/
def smallCursor : FatState where
  cachedFat := -2 * fatCacheSize
  fileCluster := 0
  currentClusterNum := 0
  currentCluster := 0
  fatBuf := fun _ => 0
  filepos := 0
  errnum := .none

/-- The lookup of `/a/b`. -/
def chainName : DirState := dirStart smallSuper smallCursor 0 (fun _ => 0) 0 (ascii "/a/b")

/-- The chains of the two directories. -/
theorem chainMedia_walks {first : Int} (directory : first = 2 ∨ first = 6) (n : Nat)
    {cluster : Int} (chain : chainAt chainMedia smallSuper first n = some cluster) :
    cluster = 2 ∨ cluster = 5 ∨ cluster = 6 := by
  have ended : chainAt chainMedia smallSuper first 2 = none := by
    rcases directory with rfl | rfl
    · decide +kernel
    · decide +kernel
  rcases Nat.lt_or_ge n 2 with few | many
  · interval_cases n
    · rcases directory with rfl | rfl
      · exact .inl (Option.some.inj chain).symm
      · exact .inr (.inr (Option.some.inj chain).symm)
    · have second : chainAt chainMedia smallSuper first 1 = some 5 ∨
          chainAt chainMedia smallSuper first 1 = none := by
        rcases directory with rfl | rfl
        · exact .inl (by decide +kernel)
        · exact .inr (by decide +kernel)
      rcases second with five | none_
      · rw [five] at chain
        exact .inr (.inl (Option.some.inj chain).symm)
      · rw [none_] at chain
        cases chain
  · rw [chainAt, walk_none many ended] at chain
    cases chain

/-- Both of its directories end. -/
theorem chainMedia_ends {first : Int} (directory : first = 2 ∨ first = 6) (doPossibilities : Bool)
    (names : NameState) (component : List UInt8) :
    DirectoryEnds chainMedia smallSuper first doPossibilities names component where
  inWindow _ n cluster chain := by
    rcases chainMedia_walks directory n chain with rfl | rfl | rfl
    · decide
    · decide
    · decide
  ends := by
    have marker : ((diskEntry chainMedia smallSuper first 17).map fun dirBuf => dirBuf 0) =
        some 0 ∨ ((diskEntry chainMedia smallSuper first 1).map fun dirBuf => dirBuf 0) =
        some 0 := by
      rcases directory with rfl | rfl
      · exact .inl (by decide +kernel)
      · exact .inr (by decide +kernel)
    rcases marker with marker | marker
    · refine ⟨17, by decide, fun dirBuf isEntry => .inl ?_⟩
      rw [isEntry] at marker
      exact Option.some.inj marker
    · refine ⟨1, by decide, fun dirBuf isEntry => .inl ?_⟩
      rw [isEntry] at marker
      exact Option.some.inj marker

/-- Deleted entries are passed over in the first cluster of the root, and a link is followed. -/
theorem fatDir_returns_chain : ∃ result,
    Returns (dirStep chainMedia smallSuper) chainName result ∧ Settled result := by
  have passes : runPasses (dirStep chainMedia smallSuper)
      (fun state => decide (state.dirname = [] ∨
        state.cursor.fileCluster = 2 ∨ state.cursor.fileCluster = 6)) 24 chainName = true := by
    decide +kernel
  refine fatDir_returns chainMedia_mounts (by decide) rfl (.inl rfl) 0 _ 0 _
    fun state reached => ?_
  have checked := of_decide_eq_true (@check_of_runPasses _ _ _ _ _ chainName _ passes reached)
  intro place state' goesOn component rest place'
  obtain ⟨cursor, named⟩ := loopStep_same goesOn
  rw [cursor]
  exact chainMedia_ends (checked.resolve_left named) _ _ _

/-! ## A root directory whose chain is a cycle -/

/-- The root is the cluster 2, which is followed by itself. -/
def cyclicMedia : PartitionMedia :=
  plainMedia (fun position => if position = 520 then 2 else smallContent position) 16 9

/-- Reads of the partition. -/
theorem cyclic_devread {sector offset size : Nat} (some_ : 0 < size)
    (inside : sector + (offset + size - 1) / 512 < 16) :
    cyclicMedia.devread sector offset size =
      .ok (cyclicMedia.bytes (sector * 512 + offset) size) :=
  small_devread some_ inside

/-- Inside the partition every read succeeds. -/
theorem cyclic_fatDevread {sector offset size : Nat} (some_ : 0 < size)
    (inside : sector + (offset + size - 1) / 512 < 16) :
    fatDevread cyclicMedia .none sector offset size =
      (.none, some (cyclicMedia.bytes (sector * 512 + offset) size)) := by
  rw [fatDevread, cyclic_devread some_ inside]
  rfl

/-- The partition with the cycle is mounted. -/
theorem cyclicMedia_mounts : Mounts cyclicMedia smallSuper where
  accepts := by
    have bpb := @cyclic_devread 0 0 64 (by decide) (by decide)
    have firstFat := @cyclic_devread 1 0 4 (by decide) (by decide)
    refine ⟨Area.fill (fun _ => 0) (cyclicMedia.bytes (0 * 512 + 0) 64),
      Area.fill (fun _ => 0) (cyclicMedia.bytes (1 * 512 + 0) 4), ?_, ?_, ?_, ?_, ?_, ?_⟩
    · exact congrArg bytesOf bpb
    · decide +kernel
    · decide +kernel
    · decide +kernel
    · exact congrArg bytesOf firstFat
    · decide +kernel

/-- The cursor is in the cycle, and the window of the FAT, if there is one, is the first. -/
structure InCycle (state : FatState) : Prop where
  clear : state.errnum = .none
  file : state.fileCluster = 2
  window : state.cachedFat = -8192 ∨ state.cachedFat = 0 ∧ state.fatBuf.word32 8 = 2

/-- The entry of the cluster 2 in the window. -/
theorem cyclic_word32 (buf : Buffer) :
    (buf.fill (cyclicMedia.bytes (1 * 512 + 0) 4096)).word32 8 = 2 := by
  have byte : ∀ i < 4096, buf.fill (cyclicMedia.bytes (1 * 512 + 0) 4096) i =
      cyclicMedia.content (1 * 512 + 0 + i) := by
    intro i inside
    rw [Area.fill, List.getD_eq_getElem _ _ (by simpa using inside)]
    exact getElem_bytes _
  rw [Area.word32, Area.word16, Area.word16, Area.byte, Area.byte, Area.byte,
    Area.byte, byte _ (by decide), byte _ (by decide), byte _ (by decide), byte _ (by decide)]
  decide +kernel

/-- The window is loaded, or it is there. -/
theorem cyclic_loadWindow {state : FatState} (inCycle : InCycle state) :
    ∃ window, loadWindow cyclicMedia smallSuper state 16 = (window, true) ∧ InCycle window ∧
      window.cachedFat = 0 ∧ window.fatBuf.word32 8 = 2 ∧
      window.currentClusterNum = state.currentClusterNum ∧ window.filepos = state.filepos := by
  rcases inCycle.window with none_ | ⟨there, shows_⟩
  · have loaded : loadWindow cyclicMedia smallSuper state 16 =
        ({ state with
            cachedFat := 0, errnum := .none
            fatBuf := state.fatBuf.fill (cyclicMedia.bytes (1 * 512 + 0) 4096) }, true) := by
      have start : windowStart cyclicMedia 16 = 0 := by decide
      have sector : toInt32 (smallSuper.fatOffset + 0 / (2 * cyclicMedia.sectorSize)) = 1 := by
        decide
      have read := @cyclic_fatDevread 1 0 4096 (by decide) (by decide)
      rw [show ((4096 : Nat) : Int) = 4096 from rfl, show ((0 : Nat) : Int) = 0 from rfl,
        show ((1 : Nat) : Int) = 1 from rfl] at read
      rw [loadWindow, none_, if_pos (by decide), start]
      dsimp only
      rw [sector, inCycle.clear, fatCacheSize, read, windowRead_some]
    have entry := cyclic_word32 state.fatBuf
    rw [loaded]
    refine ⟨_, rfl, ⟨rfl, inCycle.file, .inr ⟨rfl, ?_⟩⟩, rfl, ?_, rfl, rfl⟩
    · dsimp only
      exact entry
    · dsimp only
      exact entry
  · refine ⟨state, ?_, inCycle, there, shows_, rfl, rfl⟩
    rw [loadWindow, there, if_neg (by decide)]

/-- From the cluster 2 a link leads to it. -/
theorem cyclic_followLink {state : FatState} (inCycle : InCycle state)
    (here : state.currentCluster = 2) :
    ∃ state', followLink cyclicMedia smallSuper state = (state', .onward) ∧ InCycle state' ∧
      state'.currentCluster = 2 ∧ state'.currentClusterNum = state.currentClusterNum + 1 := by
  obtain ⟨window, loaded, inCycle', there, shows_, num, -⟩ := cyclic_loadWindow inCycle
  have entry : toInt32 (2 * smallSuper.fatSize) = 16 := by decide
  have next : nextCluster smallSuper window 16 = 2 := by
    have pos : (toInt32 (16 - 0)).toNat / 2 = 8 := by decide
    rw [nextCluster, there, if_neg (by decide), if_neg (by decide), pos, shows_]
    decide
  rw [followLink, here, entry, loaded, if_pos rfl]
  dsimp only
  rw [next, linkFound, if_neg (by decide), if_neg (by decide), num]
  exact ⟨_, rfl, ⟨inCycle'.clear, inCycle'.file, inCycle'.window⟩, rfl, rfl⟩

/-- Following the links from the first cluster of the cycle returns to it. -/
theorem cyclic_followLinks (links : Nat) {state : FatState} (inCycle : InCycle state)
    (here : state.currentCluster = 2) :
    ∃ state', followLinks cyclicMedia smallSuper links state = (state', .onward) ∧
      InCycle state' ∧ state'.currentCluster = 2 ∧
      state'.currentClusterNum = state.currentClusterNum + links := by
  induction links generalizing state with
  | zero => exact ⟨state, rfl, inCycle, here, (Int.add_zero _).symm⟩
  | succ links inductionHypothesis =>
      obtain ⟨state', link, inCycle', here', num⟩ := cyclic_followLink inCycle here
      obtain ⟨state'', rest, inCycle'', here'', num'⟩ := inductionHypothesis inCycle' here'
      refine ⟨state'', ?_, inCycle'', here'', by omega⟩
      rw [followLinks, link, if_pos rfl]
      exact rest

/-- A deleted entry. -/
theorem cyclic_entry (buf : Buffer) {offset i : Nat} (inside : offset + 32 ≤ 512) (entry : i < 32) :
    store buf 0 (cyclicMedia.bytes (2 * 512 + offset) 32) i = 0xE5 := by
  have bound : i < (cyclicMedia.bytes (2 * 512 + offset) 32).length := by
    simpa using entry
  have stored := @store_at buf 0 _ i bound
  rw [Nat.zero_add] at stored
  rw [stored]
  have elsewhere : 2 * 512 + offset + i ≠ 520 := by omega
  have deleted : 1024 ≤ 2 * 512 + offset + i ∧ 2 * 512 + offset + i < 1536 := by omega
  exact (getElem_bytes _).trans ((if_neg elsewhere).trans (if_pos deleted))

/-- The cursor between two entries of the directory. -/
structure Cycling (state : FatState) : Prop extends InCycle state where
  entry : state.filepos % 32 = 0
  inRange : toInt32 state.filepos = state.filepos
  cursor : state.currentClusterNum = maxint ∨
    0 ≤ state.currentClusterNum ∧ state.currentCluster = 2

/-- One entry is read, wherever the cursor is. -/
theorem cyclic_readLoop {state : FatState} (inCycle : InCycle state)
    (here : state.currentCluster = 2) (buf : Buffer) {offset : Nat} (inside : offset + 32 ≤ 512)
    (logicalClust : Int) :
    ∃ found, readLoop cyclicMedia smallSuper (31 + 1) state buf 0 32 logicalClust offset =
        { state := { found with errnum := .none, filepos := toInt32 (state.filepos + 32) }
          buf := store buf 0 (cyclicMedia.bytes (2 * 512 + offset) 32), ret := 32 } ∧
      InCycle found ∧ found.currentCluster = 2 ∧
      state.currentClusterNum ≤ found.currentClusterNum := by
  obtain ⟨found, links, inCycle', here', num⟩ := cyclic_followLinks
    (logicalClust - state.currentClusterNum).toNat inCycle here
  have kept := @followLinks_filepos cyclicMedia smallSuper
    (logicalClust - state.currentClusterNum).toNat state
  rw [links] at kept
  have sector : clusterSector smallSuper found.currentCluster = (2 : Nat) := by
    rw [here']
    decide
  have size : min (2 ^ smallSuper.clustsizeBits - offset) (Int.toNat 32) = 32 := by
    have cluster : smallSuper.clustsizeBits = 9 := rfl
    have len : Int.toNat 32 = 32 := rfl
    rw [cluster, len]
    omega
  have read := @cyclic_fatDevread 2 offset 32 (by decide) (by omega)
  refine ⟨found, ?_, inCycle', here', by omega⟩
  rw [readLoop, if_neg (by decide), links]
  dsimp only
  rw [if_pos rfl, inCycle'.clear, sector, size, read, partRead, kept,
    readLoop_done (by decide), if_pos rfl]
  rfl

/-- A read of an entry succeeds and stays in the cycle. -/
theorem cyclic_fatRead {state : FatState} (cycling : Cycling state) (buf : Buffer) :
    ∃ state' buf', fatRead cyclicMedia smallSuper state buf fatDirentryLength =
        { state := state', buf := buf', ret := 32 } ∧
      Cycling state' ∧ ∀ i < 32, buf' i = 0xE5 := by
  obtain ⟨rewound, rewinds, inCycle, here, num, filepos⟩ : ∃ rewound,
      rewind state (state.filepos / 2 ^ smallSuper.clustsizeBits) = rewound ∧ InCycle rewound ∧
        rewound.currentCluster = 2 ∧ 0 ≤ rewound.currentClusterNum ∧
          rewound.filepos = state.filepos := by
    rw [rewind]
    split
    · exact ⟨_, rfl, ⟨cycling.clear, cycling.file, cycling.window⟩, cycling.file, Int.le_refl 0,
        rfl⟩
    next ahead =>
      rcases cycling.cursor with atEnd | ⟨num, here⟩
      · have small := toInt32_upper state.filepos
        rw [cycling.inRange] at small
        rw [atEnd, maxint] at ahead
        have cluster : smallSuper.clustsizeBits = 9 := rfl
        rw [cluster] at ahead
        omega
      · exact ⟨_, rfl, cycling.toInCycle, here, num, rfl⟩
  have offset : (state.filepos % 2 ^ smallSuper.clustsizeBits).toNat + 32 ≤ 512 := by
    have entry := cycling.entry
    have cluster : smallSuper.clustsizeBits = 9 := rfl
    rw [cluster]
    omega
  obtain ⟨found, reads, inCycle', here', num'⟩ := cyclic_readLoop inCycle here buf offset
    (state.filepos / 2 ^ smallSuper.clustsizeBits)
  rw [fatRead, if_neg (by rw [cycling.file]; decide)]
  dsimp only
  rw [rewinds]
  refine ⟨_, _, reads, ⟨⟨rfl, inCycle'.file, inCycle'.window⟩, ?_, toInt32_toInt32 _,
    .inr ⟨Int.le_trans num num', here'⟩⟩, fun i entry => cyclic_entry buf offset entry⟩
  show toInt32 (rewound.filepos + 32) % 32 = 0
  have entry := cycling.entry
  rw [filepos]
  unfold toInt32
  omega

/-- The entries of the cycle are passed over. -/
theorem cyclic_scan {state : DirState} {component rest : List UInt8}
    (scans : state.place = .scan component rest) (cycling : Cycling state.cursor) :
    ∃ state', dirStep cyclicMedia smallSuper state = .next state' ∧
      state'.place = .scan component rest ∧ Cycling state'.cursor := by
  obtain ⟨cursor, buf, reads, cycling', entry⟩ := cyclic_fatRead cycling (fun _ => 0)
  have skipped : entryRead { state with cursor } buf component rest = { state with cursor } := by
    have attrib : fatDirentryAttrib buf = 0xE5 := by
      rw [fatDirentryAttrib, Area.byte, entry 11 (by decide)]
      rfl
    rw [entryRead, attrib, if_neg (by decide), if_neg]
    rw [fatDirentryValid, entry 0 (by decide), decide_eq_false (show ¬ (0xE5 : UInt8) ≠ 0xE5 by decide),
      Bool.and_false]
    exact Bool.false_ne_true
  rw [dirStep, scans]
  dsimp only
  rw [nextEntry, reads, scanRead, if_neg]
  · dsimp only
    rw [skipped]
    exact ⟨_, rfl, scans, cycling'⟩
  · dsimp only
    rw [entry 0 (by decide)]
    decide

/-- The lookup of a name in the cycle. -/
inductive InTheCycle : DirState → Prop
  | loop {state : DirState} (place : state.place = .loop) (cycling : Cycling state.cursor)
      (directory : state.attrib = fatAttribDir)
      (isName : state.dirname = charOf '/' :: ascii "a") : InTheCycle state
  | scan {state : DirState} {component rest : List UInt8}
      (place : state.place = .scan component rest) (cycling : Cycling state.cursor) :
      InTheCycle state

/-- So every step of the lookup does. -/
theorem inTheCycle_step (state : DirState) (inTheCycle : InTheCycle state) :
    ∃ state', dirStep cyclicMedia smallSuper state = .next state' ∧ InTheCycle state' := by
  cases inTheCycle with
  | loop place cycling directory isName =>
      rw [dirStep, place]
      dsimp only
      rw [loopStep, isName, directory, if_neg (by decide), if_neg (by decide)]
      exact ⟨_, rfl, .scan rfl cycling⟩
  | scan place cycling =>
      obtain ⟨state', step, place', cycling'⟩ := cyclic_scan place cycling
      exact ⟨state', step, .scan place' cycling'⟩

/-- A directory whose clusters form a cycle, without an end marker, is searched for ever. -/
theorem fatDir_not_returns :
    ¬ ∀ (media : PartitionMedia) (super : FatSuper), Mounts media super →
      ∀ (cursor : FatState) (filemax : Int) (filename : Buffer) (printPossibilities : Int)
        (dirname : List UInt8), cursor.errnum = .none → cursor.cachedFat = -2 * fatCacheSize →
      ∃ result, Returns (dirStep media super)
        (dirStart super cursor filemax filename printPossibilities dirname) result ∧
          Settled result := by
  intro claimed
  obtain ⟨result, returns, -⟩ := claimed cyclicMedia smallSuper cyclicMedia_mounts
    { cachedFat := -2 * fatCacheSize, fileCluster := 0, currentClusterNum := 0
      currentCluster := 0, fatBuf := fun _ => 0, filepos := 0, errnum := .none }
    0 (fun _ => 0) 0 (charOf '/' :: ascii "a") rfl rfl
  refine not_returns inTheCycle_step (.loop rfl ?_ rfl rfl) result returns
  exact ⟨⟨rfl, rfl, .inl rfl⟩, rfl, rfl, .inl rfl⟩

end GrubLegacy.Fsys.Fat
