import GrubLegacy.Fsys.JfsExtents

/-!
# Reading a JFS file

`jfs_read` of `fsys_jfs.c`. Other than in `xfs_read`, an extent behind a hole is looked at
again after the hole has been filled.
-/

namespace GrubLegacy.Fsys.Jfs

open Base Stage2 DiskIo
open GrubLegacy.Partition (Buffer)

/-! ## Reading -/

section

variable (info : JfsInfo)

/-- The sums are of `s64`. -/
def jfsWrap (value : Int) : Int := toInt64 value

/-- A round of the loop of `jfs_read`, and the extent it leaves in `xad`. -/
def readRound (endpos : Int) (state : JfsState) (turn : ExtentTurn) (xad : BlockRun) :
    JfsState × ExtentTurn × Option BlockRun :=
  match extentCase jfsWrap info.l2bsize turn xad with
  | .has =>
      let toread := dataLen jfsWrap info.l2bsize endpos turn xad
      let read := jfsDevread info state xad.start
        (toInt32 (turn.filepos - (xad.offset * 2 ^ info.l2bsize : Nat))) toread
      let next := nextExtent info read.1
      (next.1, dataDone turn xad toread read.2, next.2)
  | .hole => (state, holeDone turn (holeLen jfsWrap info.l2bsize endpos turn xad), some xad)
  | .passed =>
      let next := nextExtent info state
      (next.1, passedBy turn xad, next.2)

/-- The test behind a round. -/
def goOn (further : JfsState → ExtentTurn → BlockRun → Option (JfsState × ExtentTurn))
    (done : JfsState × ExtentTurn × Option BlockRun) : Option (JfsState × ExtentTurn) :=
  if 0 < done.2.1.len then
    match done.2.2 with
    | some xad => further done.1 done.2.1 xad
    | none => some (done.1, done.2.1)
  else some (done.1, done.2.1)

/-- The loop of `jfs_read`. It has no result when the rounds run out. -/
def jfsReadLoop (endpos : Int) :
    (rounds : Nat) → JfsState → ExtentTurn → BlockRun → Option (JfsState × ExtentTurn)
  | 0, _, _, _ => none
  | rounds + 1, state, turn, xad =>
    goOn (jfsReadLoop endpos rounds) (readRound info endpos state turn xad)

/-- `jfs_read` from the inode that was read last. -/
def jfsRead (levels rounds : Nat) (state : JfsState) (inode : Buffer) (filepos : Int)
    (buf : Buffer) (len : Int) : Option (ReadOutcome JfsState) :=
  (firstExtent info levels state inode).bind fun first =>
    let turn := { filepos, buf, position := 0, len, endofprev := 2 ^ 62 - 1 }
    (jfsReadLoop info (toInt32 (filepos + len)) rounds first turn first.current).map fun done =>
      { state := done.1
        filepos := done.2.filepos
        buf := done.2.buf
        ret := toInt32 (done.2.filepos - filepos) }

/-! ## The file -/

/-- A byte of the file. -/
def jfsFileByte (xads : List BlockRun) : Nat → UInt8 := extentsByte info.bsize info.block xads

/-- The extents are in order and apart. Their offsets are of 40 bits, and their lengths of 24. -/
structure JfsLayout (xads : List BlockRun) : Prop where
  inOrder : InOrder xads
  offset : ∀ xad ∈ xads, xad.offset < 2 ^ 40
  len : ∀ xad ∈ xads, xad.len < 2 ^ 24

/-- The blocks of a part of the file that are not in a hole can be read. -/
def PartInReach (xads : List BlockRun) (start stop : Nat) : Prop :=
  ∀ position, start ≤ position → position < stop → ∀ xad ∈ xads,
    xad.Has (position / info.bsize) → info.InReach (blockIn xad (position / info.bsize)) 1

end

/-- The read starts in an extent, or where the first hole between two extents starts. Before
that there is no hole between two extents; the range ends before the last extent does. -/
def FromData (bsize : Nat) (xads : List BlockRun) (start stop : Nat) : Prop :=
  ∃ before first behind, xads = before ++ first :: behind ∧ Adjacent before ∧
    (first.Has (start / bsize) ∨
      before ≠ [] ∧ start = stopOf 0 before * bsize ∧ stopOf 0 before < first.offset) ∧
    stop ≤ stopOf first.stop behind * bsize

/-- The holes are where the loop expects them. -/
def JfsHolesMet (bsize : Nat) (xads : List BlockRun) (start stop : Nat) : Prop :=
  start = stop ∨ FromData bsize xads start stop ∨ InFirstHole bsize xads start stop

/-! ## A round -/

section

variable {info : JfsInfo} {state after : JfsState} {xads : List BlockRun} {xad : BlockRun}
  {place size start stop : Nat} {buf : Buffer} {turn turn' : ExtentTurn}
  {next : Option BlockRun}

attribute [local simp] readRound

/-- Numbers up to 2^63 are kept as they are. -/
theorem jfsWraps : Wraps jfsWrap (2 ^ 63 - 1) where
  fits number small := by
    rw [jfsWrap]
    apply toInt64_of_range
    · omega
    · omega
  large := by decide

/-- A block has a byte at least. -/
theorem bsize_pos : 0 < info.bsize := Nat.two_pow_pos _

/-- The case of a round is whether the extent has the place, lies behind it or before it. -/
theorem roundCase (filepos : turn.filepos = place) (small : place < 2 ^ 31) :
    extentCase jfsWrap info.l2bsize turn xad =
      if xad.Has (place / info.bsize) then .has
      else if turn.endofprev < xad.offset then .hole else .passed :=
  extentCase_eq jfsWraps filepos small

/-- No sum of an offset and a length overflows. -/
theorem limit_of (mounted : JfsMounted info) (offset : xad.offset < 2 ^ 40)
    (len : xad.len < 2 ^ 24) : xad.stop * info.bsize ≤ 2 ^ 63 - 1 := by
  have small : info.bsize ≤ 2 ^ 12 := Nat.pow_le_pow_right (by decide) mounted.blocks.2
  have blocks : xad.stop ≤ 2 ^ 41 := by
    rw [BlockRun.stop]
    omega
  exact Nat.le_trans (Nat.mul_le_mul blocks small) (by decide)

/-- Every extent ends in a 63-bit file. -/
theorem JfsLayout.limit (mounted : JfsMounted info) (layout : JfsLayout xads)
    (member : xad ∈ xads) : xad.stop * info.bsize ≤ 2 ^ 63 - 1 :=
  limit_of mounted (layout.offset xad member) (layout.len xad member)

/-- The bytes of a part of an extent. -/
def xadBytes (info : JfsInfo) (xad : BlockRun) (place size : Nat) : List UInt8 :=
  extentBytes info.media.toSectorMedia info.bsize xad.start xad place size

/-- The blocks of an extent lie in a row. -/
theorem xad_lies : LiesFrom info.media.toSectorMedia info.bsize xad.start info.block xad :=
  fun _ _ _ => rfl

/-- A part of an extent is read, when its blocks can be. -/
theorem extent_read (mounted : JfsMounted info) (member : xad ∈ xads)
    (has : xad.Has (place / info.bsize)) (some_ : 0 < size)
    (inside : place + size ≤ xad.stop * info.bsize)
    (inReach : PartInReach info xads place (place + size)) (clean : state.errnum = .none) :
    jfsDevread info state xad.start (place - xad.offset * info.bsize : Nat) size =
      (state, some (xadBytes info xad place size)) := by
  have last := (@has_of_inside _ _ (place + size - 1)) bsize_pos has (by omega) (by omega)
  have lastInReach := inReach (place + size - 1) (by omega) (by omega) xad member last
  rw [blockIn, JfsInfo.InReach, Nat.add_assoc] at lastInReach
  exact jfsDevread_blocks mounted lastInReach some_ (part_within bsize_pos has some_ inside) clean

/-- A part of an extent is stored: up to its end or that of the range. -/
theorem readRound_has (mounted : JfsMounted info) (layout : JfsLayout xads)
    (filepos : turn.filepos = place) (len : turn.len = (stop - place : Nat))
    (more : place < stop) (high : stop < 2 ^ 31) (member : xad ∈ xads)
    (has : xad.Has (place / info.bsize)) (inReach : PartInReach info xads place stop)
    (clean : state.errnum = .none) :
    readRound info stop state turn xad = ((nextExtent info state).1,
      turn.advance (xadBytes info xad place (min stop (xad.stop * info.bsize) - place))
        xad.stop, (nextExtent info state).2) := by
  have first : xad.offset * info.bsize ≤ place := (Nat.le_div_iff_mul_le bsize_pos).mp has.1
  have inside : place < xad.stop * info.bsize := (Nat.div_lt_iff_lt_mul bsize_pos).mp has.2
  have limit := layout.limit mounted member
  have reach : PartInReach info xads place
      (place + (min stop (xad.stop * info.bsize) - place)) :=
    fun position low upper => inReach position (by omega) (by omega)
  have reads := @extent_read _ state _ _ _ (min stop (xad.stop * info.bsize) - place)
    mounted member has (by omega) (by omega) reach clean
  have toread := dataLen_eq jfsWraps filepos len has limit high
  have offset : toInt32 (turn.filepos - (xad.offset * 2 ^ info.l2bsize : Nat)) =
      (place - xad.offset * info.bsize : Nat) := by
    rw [JfsInfo.bsize] at first ⊢
    rw [filepos, ← Int.ofNat_sub first]
    apply toInt32_of_range
    · omega
    · omega
  have case := @roundCase info xad _ _ filepos (Nat.lt_trans more high)
  rw [if_pos has] at case
  simp only [readRound, case, toread, offset]
  have same : (min stop (xad.stop * 2 ^ info.l2bsize) - place : Nat) =
      min stop (xad.stop * info.bsize) - place := rfl
  rw [same, reads]
  have size : (xadBytes info xad place (min stop (xad.stop * info.bsize) - place)).length =
      min stop (xad.stop * info.bsize) - place := length_extentBytes
  have done := @dataDone_eq turn xad
    (xadBytes info xad place (min stop (xad.stop * info.bsize) - place))
  rw [size] at done
  rw [done]

/-- What is stored then is the file's. -/
theorem extent_progress (layout : JfsLayout xads)
    (progress : Progress (jfsFileByte info xads) start stop buf place turn)
    (more : place < stop) (high : stop < 2 ^ 31) (member : xad ∈ xads)
    (has : xad.Has (place / info.bsize)) :
    Progress (jfsFileByte info xads) start stop buf (min stop (xad.stop * info.bsize))
      (turn.advance (xadBytes info xad place (min stop (xad.stop * info.bsize) - place))
        xad.stop) :=
  Progress.extent bsize_pos layout.inOrder member xad_lies progress more high has

/-- An extent on the way to the position is passed by. -/
theorem readRound_passed (filepos : turn.filepos = place) (small : place < 2 ^ 31)
    (misses : ¬ xad.Has (place / info.bsize)) (adjacent : xad.offset ≤ turn.endofprev) :
    readRound info stop state turn xad =
      ((nextExtent info state).1, passedBy turn xad, (nextExtent info state).2) := by
  have case := @roundCase info xad _ _ filepos small
  rw [if_neg misses, if_neg (Nat.not_lt.mpr adjacent)] at case
  simp only [readRound, case]

/-- Zeros are stored when an extent lies behind `endofprev`. -/
theorem readRound_zeros (mounted : JfsMounted info) (layout : JfsLayout xads)
    (filepos : turn.filepos = place) (len : turn.len = (stop - place : Nat))
    (small : place < 2 ^ 31) (high : stop < 2 ^ 31) (member : xad ∈ xads)
    (misses : ¬ xad.Has (place / info.bsize)) (behind : turn.endofprev < xad.offset) :
    ∃ count, readRound info stop state turn xad =
      (state, turn.advance (List.replicate count 0) turn.endofprev, some xad) ∧
      (stop ≤ xad.offset * info.bsize → count = stop - place) ∧
      (xad.offset * info.bsize < stop → count = (xad.offset - turn.endofprev) * info.bsize) := by
  have inside : xad.offset * info.bsize ≤ xad.stop * info.bsize :=
    Nat.mul_le_mul_right _ (Nat.le_add_right _ _)
  have bound := Nat.le_trans inside (layout.limit mounted member)
  have case := @roundCase info xad _ _ filepos small
  rw [if_neg misses, if_pos behind] at case
  by_cases beyond : stop ≤ xad.offset * info.bsize
  · refine ⟨stop - place, ?_, fun _ => rfl, fun before => absurd before (Nat.not_lt.mpr beyond)⟩
    simp only [readRound, case, @holeLen_all _ _ _ _ turn _ jfsWraps bound high beyond, len,
      holeDone_eq]
  · refine ⟨_, ?_, fun ends => absurd ends beyond, fun _ => rfl⟩
    simp only [readRound, case,
      @holeLen_part _ _ _ _ turn _ jfsWraps bound high (Nat.not_le.mp beyond), holeDone_eq]
    rfl

/-! ## The loop -/

/-- What is said of the end of the loop holds before a round when it holds behind it. -/
def OfTheEnd (info : JfsInfo) (stop : Nat) (P : JfsState → ExtentTurn → BlockRun → Prop) : Prop :=
  ∀ {state after : JfsState} {turn turn' : ExtentTurn} {xad xad' : BlockRun},
    readRound info stop state turn xad = (after, turn', some xad') → 0 < turn'.len →
    P after turn' xad' → P state turn xad

/-- The loop ends, and what was asked for has been read. -/
def ReadsOn (info : JfsInfo) (xads : List BlockRun) (start stop : Nat) (buf : Buffer)
    (state : JfsState) (turn : ExtentTurn) (xad : BlockRun) : Prop :=
  ∃ rounds done, jfsReadLoop info stop rounds state turn xad = some done ∧
    Progress (jfsFileByte info xads) start stop buf stop done.2

/-- A read that goes on does so up to its end. -/
theorem readsOn_go : OfTheEnd info stop (ReadsOn info xads start stop buf) := by
  intro state after turn turn' xad xad' round more rest
  obtain ⟨rounds, done, runs, progress⟩ := rest
  refine ⟨rounds + 1, done, ?_, progress⟩
  rw [jfsReadLoop, round, goOn, if_pos more]
  exact runs

/-- A round that stores bytes of the file reads on. -/
theorem readsOn_done (round : readRound info stop state turn xad = (after, turn', next))
    (progress : Progress (jfsFileByte info xads) start stop buf stop turn') :
    ReadsOn info xads start stop buf state turn xad := by
  refine ⟨1, (after, turn'), ?_, progress⟩
  have ended : ¬ 0 < turn'.len := by
    rw [progress.len, Nat.sub_self]
    exact Int.lt_irrefl 0
  rw [jfsReadLoop, round, goOn, if_neg ended]

/-- However the loop ends, what was asked for has not been read. -/
def Fails (info : JfsInfo) (xads : List BlockRun) (start stop : Nat) (state : JfsState)
    (turn : ExtentTurn) (xad : BlockRun) : Prop :=
  ∀ rounds done, jfsReadLoop info stop rounds state turn xad = some done →
    done.2.filepos = stop →
    ¬ ∀ i < stop - start, done.2.buf i = jfsFileByte info xads (start + i)

/-- A read that fails does so before its end. -/
theorem fails_go : OfTheEnd info stop (Fails info xads start stop) := by
  intro state after turn turn' xad xad' round more rest rounds done runs
  cases rounds with
  | zero => cases runs
  | succ rounds =>
      rw [jfsReadLoop, round, goOn, if_pos more] at runs
      exact rest rounds done runs

/-- The list ends too early. -/
theorem fails_end (round : readRound info stop state turn xad = (after, turn', none))
    (filepos : turn'.filepos = place) (more : place < stop) :
    Fails info xads start stop state turn xad := by
  intro rounds done runs ends
  have short : turn'.filepos ≠ stop := by omega
  cases rounds with
  | zero => cases runs
  | succ rounds =>
      rw [jfsReadLoop, round, goOn] at runs
      split at runs
      · cases runs
        exact absurd ends short
      · cases runs
        exact absurd ends short

/-- A zero has been stored for a byte. -/
structure ZeroAt (offset : Nat) (turn : ExtentTurn) : Prop where
  behind : offset < turn.position
  zero : turn.buf offset = 0

/-- It stays there: bytes are stored behind those that have been. -/
theorem ZeroAt.round {offset : Nat} {endpos : Int} (zeroAt : ZeroAt offset turn) :
    ZeroAt offset (readRound info endpos state turn xad).2.1 := by
  have behind := zeroAt.behind
  rw [readRound]
  split
  · refine ⟨Nat.lt_of_lt_of_le behind (Nat.le_add_right _ _), ?_⟩
    show store turn.buf turn.position _ offset = 0
    rw [store_before behind]
    exact zeroAt.zero
  · refine ⟨Nat.lt_of_lt_of_le behind (Nat.le_add_right _ _), ?_⟩
    show store turn.buf turn.position _ offset = 0
    rw [store_before behind]
    exact zeroAt.zero
  · exact ⟨behind, zeroAt.zero⟩

/-- A byte that is zero in a hole stays so through the loop. -/
theorem ZeroAt.loop {offset rounds : Nat} {endpos : Int} {done : JfsState × ExtentTurn}
    (zeroAt : ZeroAt offset turn)
    (runs : jfsReadLoop info endpos rounds state turn xad = some done) : ZeroAt offset done.2 := by
  induction rounds generalizing state turn xad with
  | zero => cases runs
  | succ rounds inductionHypothesis =>
      have round := @ZeroAt.round info state xad _ _ endpos zeroAt
      rw [jfsReadLoop, goOn] at runs
      split at runs
      · split at runs
        · exact inductionHypothesis round runs
        · cases runs
          exact round
      · cases runs
        exact round

/-- The file has another byte than the zero that has been stored for it. -/
theorem fails_zero {position : Nat}
    (round : readRound info stop state turn xad = (after, turn', next))
    (zeroAt : ZeroAt (position - start) turn') (first : start ≤ position) (before : position < stop)
    (nonzero : jfsFileByte info xads position ≠ 0) : Fails info xads start stop state turn xad := by
  intro rounds done runs _ stored
  have zero : ZeroAt (position - start) done.2 := by
    cases rounds with
    | zero => cases runs
    | succ rounds =>
        rw [jfsReadLoop, round, goOn] at runs
        split at runs
        · split at runs
          · exact zeroAt.loop runs
          · cases runs
            exact zeroAt
        · cases runs
          exact zeroAt
  apply nonzero
  rw [← zero.zero, stored _ (by omega), Nat.add_sub_cancel' first]

/-- Extents before the position that follow each other are passed by. -/
theorem scan_before {P : JfsState → ExtentTurn → BlockRun → Prop} {all : Prop}
    (ofTheEnd : OfTheEnd info stop P) {before behind rest : List BlockRun} {following : BlockRun}
    (shape : before ++ following :: behind = xad :: rest) (adjacent : Adjacent before)
    (lists : Lists info all state rest) (clean : state.errnum = .none)
    (progress : Progress (jfsFileByte info xads) start stop buf place turn)
    (more : place < stop) (high : stop < 2 ^ 31)
    (misses : ∀ xad ∈ before, ¬ xad.Has (place / info.bsize))
    (joins : ∀ first ∈ before.head?, first.offset ≤ turn.endofprev)
    (goesOn : ∀ after turn', Lists info all after behind → after.errnum = .none →
      turn'.endofprev = stopOf turn.endofprev before →
      Progress (jfsFileByte info xads) start stop buf place turn' → P after turn' following) :
    P state turn xad := by
  induction before generalizing state turn xad rest with
  | nil =>
      obtain ⟨rfl, rfl⟩ := List.cons.inj shape
      exact goesOn state turn lists clean rfl progress
  | cons first before inductionHypothesis =>
      obtain ⟨rfl, rfl⟩ := List.cons.inj shape
      obtain ⟨second, rest, shape'⟩ := List.exists_cons_of_ne_nil
        (List.append_ne_nil_of_right_ne_nil before (List.cons_ne_nil following behind))
      rw [List.append_eq, shape'] at lists
      obtain ⟨after, isNext, errnum, listed⟩ := lists
      have round := @readRound_passed _ state _ _ stop _ progress.filepos
        (Nat.lt_trans more high) (misses first List.mem_cons_self) (joins first rfl)
      rw [isNext] at round
      apply ofTheEnd round (progress.passed.more more)
      apply inductionHypothesis shape' (List.IsChain.of_cons adjacent) listed (errnum.trans clean)
        progress.passed
      · exact fun xad member => misses xad (List.mem_cons_of_mem _ member)
      · intro second isSecond
        obtain ⟨before, rfl⟩ := List.head?_eq_some_iff.mp isSecond
        exact Nat.le_of_eq (List.isChain_cons_cons.mp adjacent).1
      · exact goesOn

/-- Behind the extents before it and before an extent is a hole. -/
theorem hole_before {before behind : List BlockRun} (inOrder : InOrder xads)
    (all : xads = before ++ xad :: behind) {ends position : Nat}
    (stops : ∀ earlier ∈ before, earlier.stop ≤ ends) (low : ends * info.bsize ≤ position)
    (upper : position < xad.offset * info.bsize) :
    ∀ xad ∈ xads, ¬ xad.Has (position / info.bsize) := by
  rw [all] at inOrder ⊢
  apply inOrder.gap
  · intro earlier isEarlier
    exact Nat.le_trans (stops earlier isEarlier) ((Nat.le_div_iff_mul_le bsize_pos).mpr low)
  · exact (Nat.div_lt_iff_lt_mul bsize_pos).mpr upper

/-- A hole that the position is at the start of is filled. Then the extent behind it is
looked at again. -/
theorem scan_gap (mounted : JfsMounted info) (layout : JfsLayout xads)
    {P : JfsState → ExtentTurn → BlockRun → Prop} (ofTheEnd : OfTheEnd info stop P)
    {before behind : List BlockRun} (all : xads = before ++ xad :: behind)
    (stops : ∀ earlier ∈ before, earlier.stop ≤ turn.endofprev)
    (progress : Progress (jfsFileByte info xads) start stop buf (turn.endofprev * info.bsize) turn)
    (more : turn.endofprev * info.bsize < stop) (high : stop < 2 ^ 31)
    (joins : turn.endofprev ≤ xad.offset)
    (met : stop ≤ xad.offset * info.bsize → ∀ after turn' next,
      readRound info stop state turn xad = (after, turn', next) →
      Progress (jfsFileByte info xads) start stop buf stop turn' → P state turn xad)
    (rest : ∀ turn', xad.offset * info.bsize < stop →
      Progress (jfsFileByte info xads) start stop buf (xad.offset * info.bsize) turn' →
      P state turn' xad) :
    P state turn xad := by
  rcases Nat.eq_or_lt_of_le joins with ends | behind_
  · exact rest turn (ends ▸ more) (ends ▸ progress)
  have member : xad ∈ xads := by
    rw [all]
    exact List.mem_append_right _ List.mem_cons_self
  have hole : ∀ position, turn.endofprev * info.bsize ≤ position →
      position < xad.offset * info.bsize → ∀ xad ∈ xads, ¬ xad.Has (position / info.bsize) :=
    fun position => hole_before layout.inOrder all stops
  have starts : turn.endofprev * info.bsize < xad.offset * info.bsize :=
    Nat.mul_lt_mul_of_pos_right behind_ bsize_pos
  obtain ⟨count, round, whole, part⟩ := @readRound_zeros _ state _ _ _ _ _ mounted layout
    progress.filepos progress.len (Nat.lt_trans more high) high member
    (hole _ (Nat.le_refl _) starts xad member) behind_
  rw [← holeDone_eq] at round
  by_cases beyond : stop ≤ xad.offset * info.bsize
  · rw [whole beyond] at round
    exact met beyond _ _ _ round (progress.zeros (Nat.le_of_lt more) (Nat.le_refl stop) high
      fun position low upper =>
        extentsByte_hole (hole position low (Nat.lt_of_lt_of_le upper beyond)))
  · have goesOn := Nat.not_le.mp beyond
    rw [part goesOn, Nat.sub_mul] at round
    have progress' := progress.zeros (Nat.le_of_lt starts) (Nat.le_of_lt goesOn) high
      fun position low upper => extentsByte_hole (hole position low upper)
    exact ofTheEnd round (progress'.more goesOn) (rest _ goesOn progress')

/-- A part of an extent is read: the range ends in it, or the next extent is looked at. -/
theorem scan_has (mounted : JfsMounted info) (layout : JfsLayout xads)
    {P : JfsState → ExtentTurn → BlockRun → Prop} (member : xad ∈ xads)
    (clean : state.errnum = .none)
    (progress : Progress (jfsFileByte info xads) start stop buf place turn)
    (more : place < stop) (high : stop < 2 ^ 31) (has : xad.Has (place / info.bsize))
    (inReach : PartInReach info xads start stop)
    (met : stop ≤ xad.stop * info.bsize → ∀ after turn' next,
      readRound info stop state turn xad = (after, turn', next) →
      Progress (jfsFileByte info xads) start stop buf stop turn' → P state turn xad)
    (rest : xad.stop * info.bsize < stop → ∀ turn', readRound info stop state turn xad =
        ((nextExtent info state).1, turn', (nextExtent info state).2) →
      turn'.endofprev = xad.stop →
      Progress (jfsFileByte info xads) start stop buf (xad.stop * info.bsize) turn' →
      P state turn xad) :
    P state turn xad := by
  have reach : PartInReach info xads place stop :=
    fun position low upper => inReach position (Nat.le_trans progress.started low) upper
  have round := readRound_has mounted layout progress.filepos progress.len more high member has
    reach clean
  have progress' := extent_progress layout progress more high member has
  by_cases whole : stop ≤ xad.stop * info.bsize
  · rw [Nat.min_eq_left whole] at progress' round
    exact met whole _ _ _ round progress'
  · have goesOn := Nat.not_le.mp whole
    rw [Nat.min_eq_right (Nat.le_of_lt goesOn)] at progress' round
    exact rest goesOn _ round rfl progress'

/-- From a position in an extent on, extents are read and the holes between them filled, up
to the end of the range or of the list. -/
theorem scan_from (mounted : JfsMounted info) (layout : JfsLayout xads)
    {P : JfsState → ExtentTurn → BlockRun → Prop} {all : Prop} (ofTheEnd : OfTheEnd info stop P)
    {before behind : List BlockRun} (shape : xads = before ++ xad :: behind) {last : Nat}
    (isLast : stopOf xad.stop behind = last) (lists : Lists info all state behind)
    (clean : state.errnum = .none)
    (progress : Progress (jfsFileByte info xads) start stop buf place turn)
    (more : place < stop) (high : stop < 2 ^ 31) (has : xad.Has (place / info.bsize))
    (inReach : PartInReach info xads start stop)
    (met : stop ≤ last * info.bsize → ∀ state turn xad after turn' next,
      readRound info stop state turn xad = (after, turn', next) →
      Progress (jfsFileByte info xads) start stop buf stop turn' → P state turn xad)
    (ends : last * info.bsize < stop → ∀ state turn xad after turn' next,
      readRound info stop state turn xad = (after, turn', next) → (all → next = none) →
      turn'.filepos = (last * info.bsize : Nat) → P state turn xad) :
    P state turn xad := by
  have inOrder := shape ▸ layout.inOrder
  have member : xad ∈ xads := by
    rw [shape]
    exact List.mem_append_right _ List.mem_cons_self
  have lastStop : xad.stop ≤ last := by
    rw [← isLast]
    exact inOrder.append_right.stop_le List.mem_cons_self
  induction behind generalizing state turn xad place before with
  | nil =>
      apply scan_has mounted layout member clean progress more high has inReach
      · exact fun whole after turn' next =>
          met (Nat.le_trans whole (Nat.mul_le_mul_right _ lastStop)) _ _ _ after turn' next
      · intro goesOn turn' round _ progress'
        obtain rfl : xad.stop = last := isLast
        exact ends goesOn _ _ _ _ _ _ round lists progress'.filepos
  | cons second behind inductionHypothesis =>
      have shape' : xads = (before ++ [xad]) ++ second :: behind := by
        rw [shape, List.append_assoc]
        rfl
      have secondMember : second ∈ xads := by
        rw [shape']
        exact List.mem_append_right _ List.mem_cons_self
      apply scan_has mounted layout member clean progress more high has inReach
      · exact fun whole after turn' next =>
          met (Nat.le_trans whole (Nat.mul_le_mul_right _ lastStop)) _ _ _ after turn' next
      · intro goesOn turn' round endofprev progress'
        obtain ⟨after, isNext, errnum, listed⟩ := lists
        rw [isNext] at round
        have stops : ∀ earlier ∈ before ++ [xad], earlier.stop ≤ turn'.endofprev := by
          intro earlier isEarlier
          rw [endofprev]
          rcases List.mem_append.mp isEarlier with far | near
          · exact Nat.le_trans (inOrder.apart far List.mem_cons_self) (Nat.le_add_right _ _)
          · rw [List.mem_singleton.mp near]
        have joins : turn'.endofprev ≤ second.offset := by
          rw [endofprev]
          exact inOrder.append_right.first_stop List.mem_cons_self
        have lastSecond : second.stop ≤ last :=
          isLast ▸ inOrder.append_right.tail.stop_le List.mem_cons_self
        apply ofTheEnd round (progress'.more goesOn)
        rw [← endofprev] at progress' goesOn
        apply scan_gap mounted layout ofTheEnd shape' stops progress' goesOn high joins
        · intro beyond after turn' next
          have inside : second.offset ≤ last := Nat.le_trans (Nat.le_add_right _ _) lastSecond
          exact met (Nat.le_trans beyond (Nat.mul_le_mul_right _ inside)) _ _ _ after turn' next
        · intro turn'' goesOn' progress''
          have hasNext : second.Has (second.offset * info.bsize / info.bsize) := by
            rw [Nat.mul_div_cancel _ bsize_pos]
            exact ⟨Nat.le_refl _, layout.inOrder.offset_lt_stop secondMember⟩
          exact inductionHypothesis shape' isLast listed (errnum.trans clean) progress'' goesOn'
            hasNext (shape' ▸ layout.inOrder) secondMember lastSecond

/-! ## Reads that end well -/

/-- A turn without bytes goes on behind the extent. -/
theorem dataDone_none {bytes : Option (List UInt8)} (empty : bytes.getD [] = []) :
    dataDone turn xad 0 bytes = turn.advance [] xad.stop := by
  rw [dataDone, empty]
  rfl

/-- What was read is kept. -/
theorem afterRead_snd (done : GrubError × Option (List UInt8)) :
    (afterRead state done).2 = done.2 := rfl

/-- Nothing is read when nothing is asked for. -/
theorem jfsDevread_none {byteLen : Int} (nothing : byteLen = 0) (block : Nat) (byteOffset : Int) :
    (jfsDevread info state block byteOffset byteLen).2.getD [] = [] := by
  rw [jfsDevread, afterRead_snd]
  exact devread_none nothing

/-- A round that reads from an extent. -/
theorem readRound_data {endpos toread offset : Int}
    (case : extentCase jfsWrap info.l2bsize turn xad = .has)
    (isToread : dataLen jfsWrap info.l2bsize endpos turn xad = toread)
    (isOffset : toInt32 (turn.filepos - (xad.offset * 2 ^ info.l2bsize : Nat)) = offset)
    {read : JfsState × Option (List UInt8)}
    (reads : jfsDevread info state xad.start offset toread = read) :
    readRound info endpos state turn xad =
      ((nextExtent info read.1).1, dataDone turn xad toread read.2, (nextExtent info read.1).2) := by
  simp only [readRound, case, isToread, isOffset, reads]

/-- The first extent is passed by wherever it lies. -/
theorem JfsLayout.joins (layout : JfsLayout xads) (member : xad ∈ xads) :
    xad.offset ≤ 2 ^ 62 - 1 := by
  have offset := layout.offset xad member
  omega

/-- A read of nothing stores nothing, whatever extent is looked at. -/
theorem readsOn_none (bound : xad.stop * info.bsize ≤ 2 ^ 63 - 1) (offset : xad.offset ≤ 2 ^ 62 - 1)
    (small : start < 2 ^ 31) :
    ReadsOn info xads start start buf state (firstTurn start start buf (2 ^ 62 - 1)) xad := by
  have progress := @firstTurn_progress _ _ (jfsFileByte info xads) buf
    (Nat.le_refl start) (2 ^ 62 - 1)
  generalize isTurn : firstTurn start start buf (2 ^ 62 - 1) = turn at progress
  have endofprev : turn.endofprev = 2 ^ 62 - 1 := by
    rw [← isTurn]
    rfl
  have case := @roundCase info xad _ _ progress.filepos small
  by_cases has : xad.Has (start / info.bsize)
  · rw [if_pos has] at case
    have toread := dataLen_eq jfsWraps progress.filepos progress.len has bound small
    have nothing : min start (xad.stop * 2 ^ info.l2bsize) - start = 0 :=
      Nat.sub_eq_zero_of_le (Nat.min_le_left _ _)
    rw [nothing, Int.natCast_zero] at toread
    apply readsOn_done (readRound_data case toread rfl rfl)
    rw [dataDone_none (jfsDevread_none rfl _ _)]
    exact @Progress.advance _ _ _ _ _ _ progress [] xad.stop (Nat.le_refl start) small nofun
  · exact readsOn_done (readRound_passed progress.filepos small has (by omega)) progress.passed

/-- The loop reads a range whose holes are where it expects them. -/
theorem readsOn_met {all : Prop} {rest : List BlockRun} (mounted : JfsMounted info)
    (layout : JfsLayout xads) (shape : xads = xad :: rest) (lists : Lists info all state rest)
    (clean : state.errnum = .none) (ordered : start ≤ stop) (high : stop < 2 ^ 31)
    (inReach : PartInReach info xads start stop) (met : JfsHolesMet info.bsize xads start stop) :
    ReadsOn info xads start stop buf state (firstTurn start stop buf (2 ^ 62 - 1)) xad := by
  have progress := @firstTurn_progress _ _ (jfsFileByte info xads) buf ordered
    (2 ^ 62 - 1)
  have inOrder := layout.inOrder
  have isFirst : xad ∈ xads := shape ▸ List.mem_cons_self
  have ofTheEnd : OfTheEnd info stop (ReadsOn info xads start stop buf) := readsOn_go
  rcases Nat.eq_or_lt_of_le ordered with rfl | more
  · exact readsOn_none (layout.limit mounted isFirst) (layout.joins isFirst) high
  rcases met with empty | data | hole
  · exact absurd empty (Nat.ne_of_lt more)
  · obtain ⟨before, first, behind, parts, adjacent, begins, ends⟩ := data
    have early : ∀ {xad}, xad ∈ before → xad ∈ xads := by
      intro xad member
      rw [parts]
      exact List.mem_append_left _ member
    have misses : ∀ xad ∈ before, ¬ xad.Has (start / info.bsize) := by
      intro xad member has
      rcases begins with has' | ⟨_, starts, _⟩
      · have apart := (parts ▸ inOrder).apart member List.mem_cons_self
        exact absurd (Nat.le_trans apart has'.1) (Nat.not_le.mpr has.2)
      · have stops := (parts ▸ inOrder).append_left.stop_le_stopOf member 0
        rw [starts, Nat.mul_div_cancel _ bsize_pos] at has
        exact absurd stops (Nat.not_le.mpr has.2)
    apply scan_before ofTheEnd (parts.symm.trans shape) adjacent lists clean progress more high
      misses (fun xad isFirst => layout.joins (early (List.mem_of_mem_head? isFirst)))
    intro after turn' listed clean' endofprev progress'
    have goesOn : ∀ {turn' place}, Progress (jfsFileByte info xads) start stop buf place turn' →
        place < stop → first.Has (place / info.bsize) →
        ReadsOn info xads start stop buf after turn' first := by
      intro turn' place progress' more has
      apply scan_from mounted layout ofTheEnd parts rfl listed clean' progress' more high has
        inReach
      · exact fun _ state turn xad after turn' next round => readsOn_done round
      · exact fun short => absurd ends (Nat.not_le.mpr short)
    rcases begins with has | ⟨some_, starts, gap⟩
    · exact goesOn progress' more has
    · rw [stopOf_of_ne_nil some_ _ 0] at endofprev
      have progress'' : Progress (jfsFileByte info xads) start stop buf
          (turn'.endofprev * info.bsize) turn' := by
        rw [endofprev, ← starts]
        exact progress'
      apply scan_gap mounted layout ofTheEnd parts _ progress'' _ high
      · rw [endofprev]
        exact Nat.le_of_lt gap
      · exact fun _ after turn' next round => readsOn_done round
      · intro turn'' goesOn' progress''
        apply goesOn progress'' goesOn'
        rw [Nat.mul_div_cancel _ bsize_pos]
        apply And.intro (Nat.le_refl _) (inOrder.offset_lt_stop _)
        rw [parts]
        exact List.mem_append_right _ List.mem_cons_self
      · rw [endofprev]
        exact fun earlier member => (parts ▸ inOrder).append_left.stop_le_stopOf member 0
      · rw [endofprev, ← starts]
        exact more
  · obtain ⟨first, run, next, behind, parts, adjacent, gapStart, beyond, apart⟩ := hole
    have misses : ∀ position, start ≤ position → position < stop →
        ∀ xad ∈ xads, ¬ xad.Has (position / info.bsize) := by
      rw [parts] at inOrder ⊢
      exact fun position => misses_hole bsize_pos inOrder beyond apart
    have early : ∀ {xad}, xad ∈ first :: run → xad ∈ xads := by
      intro xad member
      rw [parts]
      exact List.mem_append_left _ member
    have member : next ∈ xads := by
      rw [parts]
      exact List.mem_append_right _ List.mem_cons_self
    apply scan_before ofTheEnd (parts.symm.trans shape) adjacent lists clean progress more high
      (fun xad isEarly => misses start (Nat.le_refl _) more xad (early isEarly))
      (fun xad isFirst => layout.joins (early (List.mem_of_mem_head? isFirst)))
    intro after turn' listed clean' endofprev progress'
    have ends : turn'.endofprev < next.offset := by
      rw [endofprev]
      exact gapStart
    obtain ⟨count, round, whole, -⟩ := @readRound_zeros _ after _ _ _ _ _ mounted layout
      progress'.filepos progress'.len (Nat.lt_trans more high) high member
      (misses start (Nat.le_refl _) more next member) ends
    rw [whole beyond, ← holeDone_eq] at round
    exact readsOn_done round (progress'.zeros ordered (Nat.le_refl stop) high
      fun position low upper => extentsByte_hole (misses position low upper))

/-! ## Reads that fail -/

/-- Zeros are stored for a byte of an extent. -/
theorem fails_hole {position : Nat} (mounted : JfsMounted info) (layout : JfsLayout xads)
    (progress : Progress (jfsFileByte info xads) start stop buf place turn) (more : place < stop)
    (high : stop < 2 ^ 31) (member : xad ∈ xads) (misses : ¬ xad.Has (place / info.bsize))
    (behind : turn.endofprev < xad.offset) (low : place ≤ position) (upper : position < stop)
    (reached : xad.offset * info.bsize < stop →
      position < place + (xad.offset - turn.endofprev) * info.bsize)
    (nonzero : jfsFileByte info xads position ≠ 0) : Fails info xads start stop state turn xad := by
  have started := progress.started
  have place_eq := progress.position
  obtain ⟨count, round, whole, part⟩ := @readRound_zeros _ state _ _ _ _ _ mounted layout
    progress.filepos progress.len (Nat.lt_trans more high) high member misses behind
  have stored : position < place + count := by
    by_cases beyond : stop ≤ xad.offset * info.bsize
    · rw [whole beyond]
      omega
    · rw [part (Nat.not_le.mp beyond)]
      exact reached (Nat.not_le.mp beyond)
  apply fails_zero round _ (Nat.le_trans started low) upper nonzero
  refine ⟨?_, ?_⟩
  · show position - start < turn.position + (List.replicate count 0).length
    rw [List.length_replicate]
    omega
  · show store turn.buf turn.position (List.replicate count 0) (position - start) = 0
    have inside : position - place < (List.replicate count (0 : UInt8)).length := by
      rw [List.length_replicate]
      omega
    have index : position - start = turn.position + (position - place) := by omega
    rw [index, store_at inside, List.getElem_replicate]

/-- A hole that is taken to be as long as another one is filled again and again, up to a byte
of an extent. -/
theorem fails_holes {position : Nat} (mounted : JfsMounted info) (layout : JfsLayout xads)
    (progress : Progress (jfsFileByte info xads) start stop buf place turn)
    (high : stop < 2 ^ 31) (member : xad ∈ xads) (behind : turn.endofprev < xad.offset)
    (low : place ≤ position) (upper : position < stop) (ahead : position < xad.offset * info.bsize)
    (hole : ∀ q, place ≤ q → q < position → ∀ xad ∈ xads, ¬ xad.Has (q / info.bsize))
    (nonzero : jfsFileByte info xads position ≠ 0) : Fails info xads start stop state turn xad := by
  induction left : position - place using Nat.strong_induction_on generalizing state turn place with
  | _ left inductionHypothesis =>
    have more : place < stop := Nat.lt_of_le_of_lt low upper
    have misses : ¬ xad.Has (place / info.bsize) := by
      intro has
      have first : xad.offset * info.bsize ≤ place := (Nat.le_div_iff_mul_le bsize_pos).mp has.1
      omega
    by_cases reached : xad.offset * info.bsize < stop →
        position < place + (xad.offset - turn.endofprev) * info.bsize
    · exact fails_hole mounted layout progress more high member misses behind low upper reached
        nonzero
    · obtain ⟨ends, far⟩ := Classical.not_imp.mp reached
      obtain ⟨count, round, -, part⟩ := @readRound_zeros _ state _ _ _ _ _ mounted layout
        progress.filepos progress.len (Nat.lt_trans more high) high member misses behind
      rw [← part ends] at far
      have positive : 0 < count := by
        rw [part ends]
        exact Nat.mul_pos (Nat.sub_pos_of_lt behind) bsize_pos
      have progress' := progress.zeros (Nat.le_add_right place count) (by omega) high
        fun q low upper => extentsByte_hole (hole q low (by omega))
      rw [Nat.add_sub_cancel_left, holeDone_eq] at progress'
      apply fails_go round (progress'.more (by omega))
      apply inductionHypothesis (position - (place + count)) (by omega) progress' behind
        (Nat.not_lt.mp far) _ rfl
      exact fun q low => hole q (by omega)

/-- Extents that are all before the position. -/
theorem fails_passed {rest : List BlockRun} (adjacent : Adjacent (xad :: rest))
    (lists : Lists info True state rest) (clean : state.errnum = .none)
    (progress : Progress (jfsFileByte info xads) start stop buf place turn)
    (more : place < stop) (high : stop < 2 ^ 31)
    (misses : ∀ other ∈ xad :: rest, ¬ other.Has (place / info.bsize))
    (joins : xad.offset ≤ turn.endofprev) : Fails info xads start stop state turn xad := by
  induction rest generalizing state turn xad with
  | nil =>
      have round := @readRound_passed _ state _ _ stop _ progress.filepos
        (Nat.lt_trans more high) (misses xad List.mem_cons_self) joins
      rw [lists trivial] at round
      exact fails_end round progress.filepos more
  | cons second rest inductionHypothesis =>
      obtain ⟨after, isNext, errnum, listed⟩ := lists
      obtain ⟨follows, adjacent'⟩ := List.isChain_cons_cons.mp adjacent
      have round := @readRound_passed _ state _ _ stop _ progress.filepos
        (Nat.lt_trans more high) (misses xad List.mem_cons_self) joins
      rw [isNext] at round
      apply fails_go round (progress.passed.more more)
      exact inductionHypothesis adjacent' listed (errnum.trans clean) progress.passed
        (fun other member => misses other (List.mem_cons_of_mem _ member)) (Nat.le_of_eq follows)

/-- The extents end before the range does. -/
theorem fails_from {before behind : List BlockRun} (mounted : JfsMounted info)
    (layout : JfsLayout xads) (shape : xads = before ++ xad :: behind)
    (lists : Lists info True state behind) (clean : state.errnum = .none)
    (progress : Progress (jfsFileByte info xads) start stop buf place turn)
    (more : place < stop) (high : stop < 2 ^ 31) (has : xad.Has (place / info.bsize))
    (inReach : PartInReach info xads start stop)
    (short : stopOf xad.stop behind * info.bsize < stop) :
    Fails info xads start stop state turn xad := by
  apply scan_from mounted layout fails_go shape rfl lists clean progress more high has inReach
  · exact fun inside => absurd inside (Nat.not_le.mpr short)
  · intro short state turn xad after turn' next round ended filepos
    rw [ended trivial] at round
    exact fails_end round filepos short

/-- The range starts before the first extent. -/
theorem fails_ahead {rest : List BlockRun} (mounted : JfsMounted info) (layout : JfsLayout xads)
    (shape : xads = xad :: rest) (lists : Lists info True state rest)
    (clean : state.errnum = .none) (more : start < stop) (high : stop < 2 ^ 31)
    (noZeros : NoZeros info.bsize (jfsFileByte info xads) xads start stop)
    (ahead : start / info.bsize < xad.offset) (unmet : ¬ JfsHolesMet info.bsize xads start stop) :
    Fails info xads start stop state (firstTurn start stop buf (2 ^ 62 - 1)) xad := by
  have progress := @firstTurn_progress _ _ (jfsFileByte info xads) buf
    (Nat.le_of_lt more) (2 ^ 62 - 1)
  have inOrder := shape ▸ layout.inOrder
  have low : start ≤ xad.offset * info.bsize :=
    Nat.le_of_lt ((Nat.div_lt_iff_lt_mul bsize_pos).mp ahead)
  have starts : ∀ other ∈ xads, xad.offset ≤ other.offset := by
    intro other isMember
    rcases List.mem_cons.mp (shape ▸ isMember) with rfl | later
    · exact Nat.le_refl _
    · exact Nat.le_trans (Nat.le_add_right _ _) (inOrder.first_stop later)
  have before : ∀ q, q < xad.offset * info.bsize → ∀ xad ∈ xads, ¬ xad.Has (q / info.bsize) := by
    intro q early other isMember has
    have key := (Nat.div_lt_iff_lt_mul bsize_pos).mpr early
    exact absurd has.1 (Nat.not_le.mpr (Nat.lt_of_lt_of_le key (starts other isMember)))
  have misses : ∀ xad ∈ xads, ¬ xad.Has (start / info.bsize) :=
    before start ((Nat.div_lt_iff_lt_mul bsize_pos).mp ahead)
  have isFirst : xad ∈ xads := shape ▸ List.mem_cons_self
  obtain ⟨run, rest, rfl, adjacent, gap⟩ := inOrder.split_run
  cases rest with
  | nil =>
      rw [List.append_nil] at shape lists
      exact fails_passed adjacent lists clean progress more high
        (fun other member => misses other (shape ▸ member)) (layout.joins isFirst)
  | cons next behind =>
      have early : ∀ {other}, other ∈ xad :: run → other ∈ xads := by
        intro other member
        rw [shape, ← List.cons_append]
        exact List.mem_append_left _ member
      have nextMember : next ∈ xads := by
        rw [shape, ← List.cons_append]
        exact List.mem_append_right _ List.mem_cons_self
      have stops := inOrder.offset_lt_stop List.mem_cons_self
      have last := (@InOrder.append_left (xad :: run) _ inOrder).stop_le List.mem_cons_self
      have upper : xad.offset * info.bsize < stop := by
        apply Nat.not_le.mp
        intro beyond
        apply unmet
        refine .inr (.inr ⟨xad, run, next, behind, shape, adjacent, gap next rfl, ?_, ?_⟩)
        · exact Nat.le_trans beyond (Nat.mul_le_mul_right _ (starts next nextMember))
        · intro other isEarly
          exact .inl (Nat.le_trans beyond (Nat.mul_le_mul_right _ (starts other (early isEarly))))
      apply @scan_before _ _ _ _ _ _ _ _ _ _ _ fails_go (xad :: run) _ _ _ rfl adjacent lists clean
        progress more high
        (fun other member => misses other (early member))
      · intro other isHead
        obtain rfl : xad = other := Option.some.inj isHead
        exact layout.joins isFirst
      · intro after turn' listed clean' endofprev progress'
        have gap' : turn'.endofprev < next.offset := by
          rw [endofprev]
          exact gap next rfl
        have ahead' : xad.offset < next.offset := by
          have gap := gap next rfl
          omega
        apply fails_holes mounted layout progress' high nextMember gap' low upper
          (Nat.mul_lt_mul_of_pos_right ahead' bsize_pos) (fun q _ => before q)
        exact nonzero_start bsize_pos layout.inOrder noZeros isFirst low upper

/-- A range whose holes are not where the loop expects them is not read. -/
theorem fails_unmet {rest : List BlockRun} (mounted : JfsMounted info) (layout : JfsLayout xads)
    (shape : xads = xad :: rest) (lists : Lists info True state rest)
    (clean : state.errnum = .none) (more : start < stop) (high : stop < 2 ^ 31)
    (inReach : PartInReach info xads start stop)
    (noZeros : NoZeros info.bsize (jfsFileByte info xads) xads start stop)
    (early : (∃ xad ∈ xads, xad.Has (start / info.bsize)) ∨ ¬ HoleBefore info.bsize xads start)
    (unmet : ¬ JfsHolesMet info.bsize xads start stop) :
    Fails info xads start stop state (firstTurn start stop buf (2 ^ 62 - 1)) xad := by
  have progress := @firstTurn_progress _ _ (jfsFileByte info xads) buf
    (Nat.le_of_lt more) (2 ^ 62 - 1)
  obtain ⟨past, late, parts, isPast, isLate⟩ := layout.inOrder.split_at (start / info.bsize)
  have inOrder := parts ▸ layout.inOrder
  have pastMisses : ∀ xad ∈ past, ¬ xad.Has (start / info.bsize) :=
    fun xad member has => absurd has.2 (Nat.not_lt.mpr (isPast xad member))
  have lateHas : ∀ xad ∈ late, ¬ xad.Has (start / info.bsize) → start / info.bsize < xad.offset :=
    fun xad member misses => Nat.not_le.mp fun low => misses ⟨low, isLate xad member⟩
  cases past with
  | nil =>
      obtain rfl : late = xad :: rest := parts.symm.trans shape
      by_cases has : xad.Has (start / info.bsize)
      · apply @fails_from _ _ _ _ _ _ _ _ _ [] _ mounted layout shape lists clean progress more high
          has inReach
        apply Nat.not_le.mp
        exact fun inside => unmet (.inr (.inl ⟨[], xad, rest, shape, .nil, .inl has, inside⟩))
      · exact fails_ahead mounted layout shape lists clean more high noZeros
          (lateHas xad List.mem_cons_self has) unmet
  | cons first past =>
      obtain ⟨rfl, rfl⟩ := List.cons.inj (parts.symm.trans shape)
      -- The extents before the position up to the first hole between them.
      obtain ⟨run, gone, rfl, adjacent, gap⟩ := inOrder.append_left.split_run
      rw [List.cons_append, List.append_assoc, ← List.cons_append] at parts
      have earlier : ∀ {other}, other ∈ first :: run → other ∈ xads := by
        intro other member
        rw [parts]
        exact List.mem_append_left _ member
      have isFirst : first ∈ xads := earlier List.mem_cons_self
      have joins : ∀ other ∈ (first :: run).head?, other.offset ≤ 2 ^ 62 - 1 :=
        fun other isHead => layout.joins (earlier (List.mem_of_mem_head? isHead))
      have runMisses : ∀ other ∈ first :: run, ¬ other.Has (start / info.bsize) :=
        fun other member => pastMisses other (@List.mem_append_left _ _ (first :: run) gone member)
      rw [List.append_eq, List.append_assoc] at lists
      cases gone with
      | cons next gone =>
          -- The hole between them is taken for one at the position.
          have isPastNext := isPast next
            (List.mem_cons_of_mem _ (List.mem_append_right _ List.mem_cons_self))
          have member : next ∈ xads := by
            rw [parts]
            exact List.mem_append_right _ List.mem_cons_self
          have stops : next.stop * info.bsize ≤ start :=
            (Nat.le_div_iff_mul_le bsize_pos).mp isPastNext
          have hole : HoleBefore info.bsize xads start :=
            ⟨first, run, next, gone ++ late, parts, adjacent, gap next rfl, stops⟩
          obtain ⟨other, isOther, has⟩ := early.resolve_right (not_not.mpr hole)
          apply @scan_before _ _ _ _ _ _ _ _ _ _ _ fails_go (first :: run) _ _ _ rfl adjacent lists
            clean progress more high runMisses joins
          intro after turn' listed clean' endofprev progress'
          have gap' : turn'.endofprev < next.offset := by
            rw [endofprev]
            exact gap next rfl
          apply fails_hole mounted layout progress' more high member
            (fun has' => absurd has'.2 (Nat.not_lt.mpr isPastNext)) gap' (Nat.le_refl start) more
          · intro _
            exact Nat.lt_add_of_pos_right (Nat.mul_pos (Nat.sub_pos_of_lt gap') bsize_pos)
          · exact noZeros start (Nat.le_refl start) more other isOther has
      | nil =>
          cases late with
          | nil =>
              rw [List.append_nil, List.append_nil] at lists
              exact fails_passed adjacent lists clean progress more high runMisses
                (layout.joins isFirst)
          | cons next late =>
              have member : next ∈ xads := by
                rw [parts]
                exact List.mem_append_right _ List.mem_cons_self
              apply @scan_before _ _ _ _ _ _ _ _ _ _ _ fails_go (first :: run) _ _ _ rfl adjacent lists
                clean progress more high runMisses joins
              intro after turn' listed clean' endofprev progress'
              by_cases has : next.Has (start / info.bsize)
              · apply fails_from mounted layout parts listed clean' progress' more high has inReach
                apply Nat.not_le.mp
                exact fun inside => unmet (.inr (.inl
                  ⟨first :: run, next, late, parts, adjacent, .inl has, inside⟩))
              · have ahead := lateHas next List.mem_cons_self has
                have lastPast : stopOf first.stop run ≤ start / info.bsize :=
                  stopOf_le_of fun other isPast' => isPast other (by rwa [List.append_nil])
                have gap' : stopOf first.stop run < next.offset := Nat.lt_of_le_of_lt lastPast ahead
                have low : start ≤ next.offset * info.bsize :=
                  Nat.le_of_lt ((Nat.div_lt_iff_lt_mul bsize_pos).mp ahead)
                have upper : next.offset * info.bsize < stop := by
                  apply Nat.not_le.mp
                  intro beyond
                  apply unmet
                  refine .inr (.inr ⟨first, run, next, late, parts, adjacent, gap', beyond,
                    fun other isPast' => .inr ?_⟩)
                  apply (Nat.le_div_iff_mul_le bsize_pos).mp
                  exact isPast other (by rwa [List.append_nil])
                rw [stopOf] at endofprev
                rw [← endofprev] at lastPast gap'
                have behindLast := (Nat.le_div_iff_mul_le bsize_pos).mp lastPast
                rcases Nat.eq_or_lt_of_le behindLast with atHole | inHole
                · -- The hole starts at the position: it is filled, and the list ends too early.
                  have stops : ∀ other ∈ first :: run, other.stop ≤ turn'.endofprev := by
                    rw [endofprev]
                    exact fun other => ((parts ▸ layout.inOrder).append_left).stop_le
                  have progress'' : Progress (jfsFileByte info xads) start stop buf
                      (turn'.endofprev * info.bsize) turn' := by
                    rw [atHole]
                    exact progress'
                  apply scan_gap mounted layout fails_go parts stops progress'' (atHole ▸ more) high
                    (Nat.le_of_lt gap')
                  · exact fun beyond => absurd beyond (Nat.not_le.mpr upper)
                  · intro turn'' goesOn progress''
                    have has' : next.Has (next.offset * info.bsize / info.bsize) := by
                      rw [Nat.mul_div_cancel _ bsize_pos]
                      exact ⟨Nat.le_refl _, layout.inOrder.offset_lt_stop member⟩
                    apply fails_from mounted layout parts listed clean' progress'' goesOn high has'
                      inReach
                    apply Nat.not_le.mp
                    intro inside
                    apply unmet
                    refine .inr (.inl ⟨first :: run, next, late, parts, adjacent,
                      .inr ⟨List.cons_ne_nil _ _, ?_, ?_⟩, inside⟩)
                    · rw [stopOf, ← endofprev, atHole]
                    · rw [stopOf, ← endofprev]
                      exact gap'
                · apply fails_hole mounted layout progress' more high member has gap' low upper
                  · intro _
                    rw [Nat.sub_mul]
                    omega
                  · exact nonzero_start bsize_pos layout.inOrder noZeros member low upper

end

/-! ## Reads of a file -/

/-- `jfs_read` returns, and it has read what it was asked for. -/
def JfsReads (info : JfsInfo) (state : JfsState) (inode : Buffer) (file : Nat → UInt8)
    (start stop : Nat) (buf : Buffer) : Prop :=
  ∃ levels rounds outcome,
    jfsRead info levels rounds state inode start buf (stop - start : Nat) = some outcome ∧
      Delivers file start stop buf outcome

section

variable {info : JfsInfo} {state : JfsState} {inode : Buffer} {leaf : List BlockRun}
  {leaves : List (List BlockRun)} {start stop : Nat} {buf : Buffer}

/-- `jfs_read` is the loop from the first extent on. -/
theorem jfsRead_eq {levels rounds : Nat} {first : JfsState}
    (runs : firstExtent info levels state inode = some first) (ordered : start ≤ stop)
    (high : stop < 2 ^ 31) :
    jfsRead info levels rounds state inode start buf (stop - start : Nat) =
      (jfsReadLoop info stop rounds first (firstTurn start stop buf (2 ^ 62 - 1))
        first.current).map fun done =>
          { state := done.1
            filepos := done.2.filepos
            buf := done.2.buf
            ret := toInt32 (done.2.filepos - start) } := by
  rw [jfsRead, runs, Option.bind_some, endpos_eq ordered high]
  rfl

/-- An extent has a 40-bit offset and a 24-bit length. -/
theorem xadAt_bounds (xtp : Buffer) (index : Nat) :
    (xadAt xtp index).offset < 2 ^ 40 ∧ (xadAt xtp index).len < 2 ^ 24 := by
  have offsetHigh := Area.byte_lt xtp (16 * index + 3)
  have offsetLow := Area.word32_lt xtp (16 * index + 4)
  have lenHigh := Area.byte_lt xtp (16 * index + 10)
  have lenLow := Area.word16_lt xtp (16 * index + 8)
  simp only [xadAt]
  omega

/-- The range of a read that ends well is before the end of the last extent. -/
theorem JfsHolesMet.inside {bsize : Nat} {xads : List BlockRun} (inOrder : InOrder xads)
    (met : JfsHolesMet bsize xads start stop) :
    start = stop ∨ xads ≠ [] ∧ stop ≤ stopOf 0 xads * bsize := by
  rcases met with empty | ⟨before, first, behind, rfl, -, -, ends⟩ |
    ⟨first, run, next, behind, rfl, -, -, beyond, -⟩
  · exact .inl empty
  · refine .inr ⟨List.append_ne_nil_of_right_ne_nil _ (List.cons_ne_nil _ _), ?_⟩
    rw [stopOf_append]
    exact ends
  · refine .inr ⟨List.append_ne_nil_of_right_ne_nil _ (List.cons_ne_nil _ _), ?_⟩
    rw [stopOf_append]
    apply Nat.le_trans beyond (Nat.mul_le_mul_right _ _)
    exact Nat.le_trans (Nat.le_add_right _ _)
      (inOrder.append_right.stop_le List.mem_cons_self)

/-- The first extents of a layout are laid out too. -/
theorem JfsLayout.front {xads behind : List BlockRun} (layout : JfsLayout (xads ++ behind)) :
    JfsLayout xads where
  inOrder := layout.inOrder.append_left
  offset xad member := layout.offset xad (List.mem_append_left _ member)
  len xad member := layout.len xad (List.mem_append_left _ member)

/-- Up to the end of the first leaf, the others do not count. -/
theorem jfsFileByte_front {xads behind : List BlockRun} (inOrder : InOrder (xads ++ behind))
    {position : Nat} (inside : position < stopOf 0 xads * info.bsize) :
    jfsFileByte info (xads ++ behind) position = jfsFileByte info xads position := by
  have key := (Nat.div_lt_iff_lt_mul bsize_pos).mpr inside
  rw [jfsFileByte, extentsByte, inOrder.runOf_front key]
  rfl

/-- What a read of a file does, and what is listed. The read delivers a range whose holes are
where the loop expects them, among the extents of the first leaf; for a file whose extents are
all listed and whose data have no zeros it delivers no other range, unless the range starts in
a hole and an extent ends another hole before that. -/
theorem jfsRead_delivers (mounted : JfsMounted info)
    (leavesOf : LeavesOf info inode (leaf :: leaves)) (layout : JfsLayout (leaf ++ leaves.flatten))
    (clean : state.errnum = .none) (ordered : start ≤ stop) (high : stop < 2 ^ 31)
    (inReach : PartInReach info (leaf ++ leaves.flatten) start stop) :
    (JfsHolesMet info.bsize leaf start stop →
      JfsReads info state inode (jfsFileByte info (leaf ++ leaves.flatten)) start stop buf) ∧
    (ListedWhole state inode leaf leaves →
      Enumerates info state inode (leaf ++ leaves.flatten)) ∧
    (ListedWhole state inode leaf leaves →
      NoZeros info.bsize (jfsFileByte info (leaf ++ leaves.flatten)) (leaf ++ leaves.flatten)
        start stop →
      (∃ xad ∈ leaf, xad.Has (start / info.bsize)) ∨ ¬ HoleBefore info.bsize leaf start →
      JfsReads info state inode (jfsFileByte info (leaf ++ leaves.flatten)) start stop buf →
      JfsHolesMet info.bsize leaf start stop) ∧
    ((∀ second ∈ leaves.head?, 1 < second.length) →
      Enumerates info state inode (leaf ++ leaves.flatten) →
      ListedWhole state inode leaf leaves) := by
  refine ⟨fun met => ?_, enumerates_whole mounted leavesOf clean, ?_,
    whole_of_enumerates mounted leavesOf clean layout.inOrder⟩
  · obtain ⟨levels, after, runs, inLeaf, -⟩ := firstExtent_leaf mounted leavesOf clean
    have reads : ReadsOn info leaf start stop buf after (firstTurn start stop buf (2 ^ 62 - 1))
        after.current := by
      rcases met.inside layout.inOrder.append_left with rfl | ⟨some_, -⟩
      · obtain ⟨offset, len⟩ : after.current.offset < 2 ^ 40 ∧ after.current.len < 2 ^ 24 :=
          xadAt_bounds _ _
        exact readsOn_none (limit_of mounted offset len) (by omega) high
      · obtain ⟨first, rest, rfl⟩ := List.exists_cons_of_ne_nil some_
        have lists : Lists info False after rest := lists_leaf inLeaf nofun
        rw [inLeaf.current (Nat.zero_lt_succ _)]
        exact readsOn_met mounted layout.front rfl lists inLeaf.clean ordered high
          (fun position low upper xad member =>
            inReach position low upper xad (List.mem_append_left _ member)) met
    obtain ⟨rounds, done, loop, progress⟩ := reads
    have read := @jfsRead_eq _ _ _ _ _ buf _ rounds _ runs ordered high
    rw [loop] at read
    refine ⟨levels, rounds, _, read, progress.filepos, ?_, progress.kept⟩
    intro i small
    rcases met.inside layout.inOrder.append_left with rfl | ⟨-, inside⟩
    · rw [Nat.sub_self] at small
      exact absurd small (Nat.not_lt_zero i)
    · rw [jfsFileByte_front layout.inOrder (by omega)]
      exact progress.stored i small
  · rintro whole noZeros early ⟨levels, rounds, outcome, reads, delivers⟩
    rcases Nat.eq_or_lt_of_le ordered with empty | more
    · exact .inl empty
    obtain ⟨levels', after, rest, runs', isLeaf, lists, clean'⟩ :=
      lists_whole mounted leavesOf clean whole
    obtain ⟨-, rfl, -⟩ := whole
    rw [List.flatten_nil, List.append_nil] at layout inReach noZeros delivers
    obtain ⟨after', runs, -⟩ := Option.bind_eq_some_iff.mp reads
    obtain rfl := firstExtent_levels runs runs'
    rw [jfsRead_eq runs ordered high] at reads
    obtain ⟨done, loop, rfl⟩ := Option.map_eq_some_iff.mp reads
    apply Classical.not_not.mp
    intro unmet
    exact fails_unmet mounted layout isLeaf lists clean' more high inReach noZeros early unmet
      rounds done loop delivers.filepos delivers.stored

end

/-! ### A file that starts with a hole -/

/-- A small file system without a zero on it. -/
def smallJfs : JfsInfo where
  media := plainMedia (fun _ => 1) 64 9
  l2bsize := 9

/-- An inode with these extents in its root. Their numbers are bytes. -/
def rootInode (xads : List BlockRun) : Buffer
  | 240 => 2
  | 242 => UInt8.ofNat (2 + xads.length)
  | i =>
    if i < 256 then 0
    else match xads[(i - 256) / 16]? with
      | none => 0
      | some xad =>
        match i % 16 with
        | 4 => UInt8.ofNat xad.offset
        | 8 => UInt8.ofNat xad.len
        | 12 => UInt8.ofNat xad.start
        | _ => 0

/-- An extent behind a hole. -/
def holeXads : List BlockRun := [⟨1, 8, 1⟩]

/-- Another one behind the next hole. -/
def sparseXads : List BlockRun := [⟨1, 8, 1⟩, ⟨3, 9, 1⟩]

/-- Before anything has been read. -/
def jfsStart : JfsState where
  xtpage _ := 0
  xindex := 0
  xlastindex := 0
  di _ := 0
  inPage := false
  xad := 0
  errnum := .none

/-- The small file system is mounted, -/
theorem smallJfs_mounted : JfsMounted smallJfs where
  sectors := by decide
  blocks := by decide
  reads _ _ _ := rfl

/-- its files have their extents in the inode, -/
theorem holeXads_root : InRoot (rootInode holeXads) holeXads where
  leaf := by decide +kernel
  last := by decide +kernel
  fits := by decide
  entries := by decide +kernel

/-- the one and the other, -/
theorem sparseXads_root : InRoot (rootInode sparseXads) sparseXads where
  leaf := by decide +kernel
  last := by decide +kernel
  fits := by decide
  entries := by decide +kernel

/-- which are laid out -/
theorem sparseXads_layout : JfsLayout sparseXads where
  inOrder := ⟨by decide, by decide⟩
  offset := by decide
  len := by decide

/-- from the first on, -/
theorem holeXads_layout : JfsLayout holeXads where
  inOrder := ⟨by decide, by decide⟩
  offset := by decide
  len := by decide

/-- and in reach. -/
theorem partInReach_whole {info : JfsInfo} {xads : List BlockRun}
    (reach : ∀ xad ∈ xads, info.InReach xad.start xad.len) (start stop : Nat) :
    PartInReach info xads start stop := by
  rintro position - - xad member ⟨low, upper⟩
  obtain ⟨inPart, isInt⟩ := reach xad member
  rw [BlockRun.stop] at upper
  have inside : blockIn xad (position / info.bsize) + 1 ≤ xad.start + xad.len := by
    rw [blockIn]
    omega
  have below := Nat.mul_le_mul_right (2 ^ info.bdlog) inside
  exact ⟨below.trans inPart, below.trans isInt⟩

/-- Both extents and the hole between them. -/
theorem jfsRead_delivers_sparse :
    JfsReads smallJfs jfsStart (rootInode sparseXads) (jfsFileByte smallJfs sparseXads) 512 2048
        (fun _ => 0) ∧
      Enumerates smallJfs jfsStart (rootInode sparseXads) sparseXads := by
  obtain ⟨reads, lists, -, -⟩ := @jfsRead_delivers _ jfsStart _ _ [] _ _ (fun _ => 0)
    smallJfs_mounted (.inl ⟨_, rfl, sparseXads_root⟩) sparseXads_layout rfl
    (by decide : 512 ≤ 2048) (by decide) (partInReach_whole (by decide) 512 2048)
  refine ⟨reads ?_, lists ⟨List.cons_ne_nil _ _, rfl, fun _ => by decide +kernel⟩⟩
  exact .inr (.inl ⟨[], ⟨1, 8, 1⟩, [⟨3, 9, 1⟩], rfl, .nil, .inl (by decide), by decide⟩)

/-- The hole and the extent: nothing is read. -/
theorem jfsRead_loses_extent :
    ¬ ∀ (info : JfsInfo) (inode : Buffer) (leaf : List BlockRun) (leaves : List (List BlockRun))
      (state : JfsState) (start stop : Nat) (buf : Buffer), JfsMounted info →
      LeavesOf info inode (leaf :: leaves) → JfsLayout (leaf ++ leaves.flatten) →
      state.errnum = .none → start ≤ stop → stop < 2 ^ 31 →
      PartInReach info (leaf ++ leaves.flatten) start stop →
      JfsReads info state inode (jfsFileByte info (leaf ++ leaves.flatten)) start stop buf ∧
        Enumerates info state inode (leaf ++ leaves.flatten) := by
  intro claimed
  have leavesOf : LeavesOf smallJfs (rootInode holeXads) [holeXads] := .inl ⟨_, rfl, holeXads_root⟩
  obtain ⟨levels, rounds, outcome, reads, delivers⟩ := (claimed smallJfs (rootInode holeXads) holeXads
    [] jfsStart 0 1024 (fun _ => 0) smallJfs_mounted leavesOf holeXads_layout rfl (by decide)
    (by decide) (partInReach_whole (by decide) 0 1024)).1
  obtain ⟨levels', after, rest, runs', isLeaf, lists, clean⟩ := @lists_whole _ jfsStart _ _ _
    smallJfs_mounted leavesOf rfl ⟨List.cons_ne_nil _ _, rfl, fun _ => by decide +kernel⟩
  obtain ⟨after', runs, -⟩ := Option.bind_eq_some_iff.mp reads
  obtain rfl := firstExtent_levels runs runs'
  obtain ⟨isFirst, rfl⟩ := List.cons.inj isLeaf
  rw [jfsRead_eq runs (by decide) (by decide), ← isFirst] at reads
  obtain ⟨done, loop, rfl⟩ := Option.map_eq_some_iff.mp reads
  exact fails_passed (List.IsChain.singleton _) lists clean
    (@firstTurn_progress _ _ (jfsFileByte smallJfs (holeXads ++ [].flatten)) _ (by decide) _)
    (by decide) (by decide) (by decide) (by decide) rounds done loop delivers.filepos
    delivers.stored

end GrubLegacy.Fsys.Jfs
