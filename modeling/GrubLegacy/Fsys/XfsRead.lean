import GrubLegacy.Fsys.XfsExtents

/-!
# Reading an XFS file

`xfs_read` of `fsys_xfs.c`, which goes through the extents of a file from the first on.
-/

namespace GrubLegacy.Fsys

open Base Stage2 DiskIo
open GrubLegacy.Partition (Buffer)

/-! ## Reading -/

section

variable (info : XfsInfo)

/-- The sums are of `xfs_fileoff_t`, which has no sign. -/
def xfsWrap (value : Int) : Int := toUInt64 value

/-- A round of the loop of `xfs_read`. -/
def readTurn (endpos : Int) (state : XfsState) (turn : ExtentTurn) (xad : Xad) :
    XfsState × ExtentTurn :=
  match extentCase xfsWrap info.blklog turn xad with
  | .has =>
      let toread := dataLen xfsWrap info.blklog endpos turn xad
      let read := xfsDevread info state (fsb2daddr info xad.start)
        (toInt32 (turn.filepos - (xad.offset * 2 ^ info.blklog : Nat))) toread
      (read.1, dataDone turn xad toread read.2)
  | .hole => (state, holeDone turn (holeLen xfsWrap info.blklog endpos turn xad))
  | .passed => (state, passedBy turn xad)

/-- The loop of `xfs_read`: every round takes the next extent. It has no result when the
rounds run out, or when the listing has none. -/
def xfsReadLoop (endpos : Int) :
    (rounds : Nat) → XfsState → ExtentTurn → Option (XfsState × ExtentTurn)
  | 0, _, _ => none
  | rounds + 1, state, turn =>
    if turn.len ≤ 0 then some (state, turn)
    else
      match nextExtent info state with
      | none => none
      | some (state, none) => some (state, turn)
      | some (state, some xad) =>
        let done := readTurn info endpos state turn xad
        xfsReadLoop endpos rounds done.1 done.2

/-- `xfs_read` -/
def xfsRead (levels rounds : Nat) (state : XfsState) (filepos : Int) (buf : Buffer)
    (len : Int) : Option (ReadOutcome XfsState) :=
  if diFormat state.inode = xfsDinodeFmtLocal then
    some
      { state
        filepos := toInt32 (filepos + len)
        buf := store buf 0 ((List.range len.toNat).map fun i =>
          state.inode (diU + filepos.toNat + i))
        ret := len }
  else
    (initExtents info levels state).bind fun state =>
      let turn := { filepos, buf, position := 0, len, endofprev := 2 ^ 64 - 1 }
      (xfsReadLoop info (toInt32 (filepos + len)) rounds state turn).map fun done =>
        { state := done.1
          filepos := done.2.filepos
          buf := done.2.buf
          ret := toInt32 (done.2.filepos - filepos) }

/-! ## The file -/

/-- A byte of the file. -/
def xfsFileByte (xads : List Xad) : Nat → UInt8 := extentsByte info.bsize info.block xads

/-- Extents that are in order and apart. None leaves its allocation group, and none goes
beyond the last byte a file can have. -/
structure XfsLayout (xads : List Xad) : Prop where
  inOrder : InOrder xads
  group : ∀ xad ∈ xads, xad.start % 2 ^ info.agblklog + xad.len ≤ 2 ^ info.agblklog
  limit : ∀ xad ∈ xads, xad.stop * info.bsize ≤ 2 ^ 63

/-- The blocks of a part of the file that are not in a hole can be read. -/
def PartInReach (xads : List Xad) (start stop : Nat) : Prop :=
  ∀ position, start ≤ position → position < stop → ∀ xad ∈ xads,
    xad.Has (position / info.bsize) → info.InReach (blockIn xad (position / info.bsize))

end

/-- The read starts in an extent. Before that one there is no hole between two extents; from
it on the extents cover the range, or its rest is a hole that another extent ends. -/
def DataThenHole (bsize : Nat) (xads : List Xad) (start stop : Nat) : Prop :=
  ∃ before first run behind, xads = before ++ (first :: run ++ behind) ∧ Adjacent before ∧
    Adjacent (first :: run) ∧ first.Has (start / bsize) ∧
    (stop ≤ stopOf first.stop run * bsize ∨
      ∃ next ∈ behind.head?, stop ≤ next.offset * bsize)

/-- The holes are where the loop expects them. -/
def XfsHolesMet (bsize : Nat) (xads : List Xad) (start stop : Nat) : Prop :=
  start = stop ∨ DataThenHole bsize xads start stop ∨ InFirstHole bsize xads start stop

/-! ## A round -/

section

variable {info : XfsInfo} {state : XfsState} {xads : List Xad} {xad : Xad} {place size : Nat}

/-- Numbers below 2^63 are kept as they are. -/
theorem xfsWraps : Wraps xfsWrap (2 ^ 63) where
  fits number small := by
    rw [xfsWrap, toUInt64_of_range (Nat.lt_of_le_of_lt small (by decide))]
  large := by decide

/-- The blocks of an extent are in one group. -/
theorem place_blockIn (layout : XfsLayout info xads) (member : xad ∈ xads) {key : Nat}
    (has : xad.Has key) :
    info.place (blockIn xad key) = info.place xad.start + (key - xad.offset) := by
  have group := layout.group xad member
  have inside : xad.start % 2 ^ info.agblklog + (key - xad.offset) < 2 ^ info.agblklog := by
    obtain ⟨low, high⟩ := has
    rw [BlockRun.stop] at high
    omega
  have split_ := Nat.div_add_mod xad.start (2 ^ info.agblklog)
  have same : blockIn xad key = 2 ^ info.agblklog * (xad.start / 2 ^ info.agblklog) +
      (xad.start % 2 ^ info.agblklog + (key - xad.offset)) := by
    rw [blockIn, ← Nat.add_assoc, split_]
  rw [XfsInfo.place, same, Nat.mul_add_div (Nat.two_pow_pos _), Nat.div_eq_of_lt inside,
    Nat.add_zero, Nat.mul_add_mod, Nat.mod_eq_of_lt inside, XfsInfo.place, Nat.add_assoc]

/-- A block has a byte at least. -/
theorem bsize_pos (mounted : XfsMounted info) : 0 < info.bsize := by
  rw [mounted.bsize]
  exact Nat.two_pow_pos _

/-- The bytes of a part of an extent. -/
def xadBytes (info : XfsInfo) (xad : Xad) (place size : Nat) : List UInt8 :=
  extentBytes info.media.toSectorMedia info.bsize (info.place xad.start) xad place size

/-- The blocks of an extent lie in a row. -/
theorem xad_lies (layout : XfsLayout info xads) (member : xad ∈ xads) :
    LiesFrom info.media.toSectorMedia info.bsize (info.place xad.start) info.block xad := by
  intro key has offset
  rw [XfsInfo.block, place_blockIn layout member has]

/-- A part of an extent is read, when its blocks can be. -/
theorem extent_read (mounted : XfsMounted info) (layout : XfsLayout info xads)
    (member : xad ∈ xads) (has : xad.Has (place / info.bsize)) (some_ : 0 < size)
    (inside : place + size ≤ xad.stop * info.bsize)
    (inReach : PartInReach info xads place (place + size)) (clean : state.errnum = .none) :
    xfsDevread info state (fsb2daddr info xad.start)
        (place - xad.offset * info.bsize : Nat) size =
      (state, some (xadBytes info xad place size)) := by
  have last := (@has_of_inside _ _ (place + size - 1)) (bsize_pos mounted) has (by omega) (by omega)
  have lastInReach := inReach (place + size - 1) (by omega) (by omega) xad member last
  rw [XfsInfo.InReach, place_blockIn layout member last, Nat.add_assoc] at lastInReach
  exact xfsDevread_blocks mounted lastInReach.1 lastInReach.2 some_
    (part_within (bsize_pos mounted) has some_ inside) clean

variable {start stop : Nat} {buf : Buffer} {turn : ExtentTurn}

/-- A part of an extent is stored: up to its end or that of the range. -/
theorem readTurn_has (mounted : XfsMounted info) (layout : XfsLayout info xads)
    (filepos : turn.filepos = place) (len : turn.len = (stop - place : Nat))
    (more : place < stop) (high : stop < 2 ^ 31) (member : xad ∈ xads)
    (has : xad.Has (place / info.bsize)) (inReach : PartInReach info xads place stop)
    (clean : state.errnum = .none) :
    readTurn info stop state turn xad = (state, turn.advance (xadBytes info xad place
      (min stop (xad.stop * info.bsize) - place)) xad.stop) := by
  have first : xad.offset * info.bsize ≤ place :=
    (Nat.le_div_iff_mul_le (bsize_pos mounted)).mp has.1
  have inside : place < xad.stop * info.bsize :=
    (Nat.div_lt_iff_lt_mul (bsize_pos mounted)).mp has.2
  have limit := layout.limit xad member
  have reach : PartInReach info xads place
      (place + (min stop (xad.stop * info.bsize) - place)) :=
    fun position low upper => inReach position (by omega) (by omega)
  have reads := @extent_read _ state _ _ _ (min stop (xad.stop * info.bsize) - place)
    mounted layout member has (by omega) (by omega) reach clean
  have size : (xadBytes info xad place (min stop (xad.stop * info.bsize) - place)).length =
      min stop (xad.stop * info.bsize) - place := length_extentBytes
  have key := has
  rw [mounted.bsize] at key limit first reads size ⊢
  have toread := dataLen_eq xfsWraps filepos len key limit high
  have offset : toInt32 (turn.filepos - (xad.offset * 2 ^ info.blklog : Nat)) =
      (place - xad.offset * 2 ^ info.blklog : Nat) := by
    rw [filepos, ← Int.ofNat_sub first]
    apply toInt32_of_range
    · omega
    · omega
  have case := @extentCase_eq _ info.blklog _ _ _ xad xfsWraps filepos
    (Nat.lt_trans more high)
  rw [if_pos key] at case
  simp only [readTurn, case, toread, offset, reads]
  rw [← dataDone_eq, size]

/-- What is stored then is the file's. -/
theorem extent_progress (mounted : XfsMounted info) (layout : XfsLayout info xads)
    (progress : Progress (xfsFileByte info xads) start stop buf place turn)
    (more : place < stop) (high : stop < 2 ^ 31) (member : xad ∈ xads)
    (has : xad.Has (place / info.bsize)) :
    Progress (xfsFileByte info xads) start stop buf (min stop (xad.stop * info.bsize))
      (turn.advance (xadBytes info xad place (min stop (xad.stop * info.bsize) - place))
        xad.stop) :=
  Progress.extent (bsize_pos mounted) layout.inOrder member (xad_lies layout member) progress more
    high has

/-- An extent on the way to the position is passed by. -/
theorem readTurn_passed (mounted : XfsMounted info)
    (filepos : turn.filepos = place) (small : place < 2 ^ 31)
    (misses : ¬ xad.Has (place / info.bsize)) (adjacent : xad.offset ≤ turn.endofprev) :
    readTurn info stop state turn xad = (state, passedBy turn xad) := by
  rw [mounted.bsize] at misses
  have case := @extentCase_eq _ info.blklog _ _ _ xad xfsWraps filepos small
  rw [if_neg misses, if_neg (Nat.not_lt.mpr adjacent)] at case
  simp only [readTurn, case]

/-- Zeros are stored when an extent lies behind `endofprev`. -/
theorem readTurn_hole (mounted : XfsMounted info)
    (filepos : turn.filepos = place) (small : place < 2 ^ 31)
    (misses : ¬ xad.Has (place / info.bsize)) (behind : turn.endofprev < xad.offset) :
    readTurn info stop state turn xad =
      (state, holeDone turn (holeLen xfsWrap info.blklog stop turn xad)) := by
  rw [mounted.bsize] at misses
  have case := @extentCase_eq _ info.blklog _ _ _ xad xfsWraps filepos small
  rw [if_neg misses, if_pos behind] at case
  simp only [readTurn, case]

/-! ## The loop -/

/-- The loop ends, and what was asked for has been read. -/
def ReadsOn (info : XfsInfo) (xads : List Xad) (start stop : Nat) (buf : Buffer)
    (state : XfsState) (turn : ExtentTurn) : Prop :=
  ∃ rounds done, xfsReadLoop info stop rounds state turn = some done ∧
    Progress (xfsFileByte info xads) start stop buf stop done.2

/-- A read that has delivered its part is over. -/
theorem readsOn_done (progress : Progress (xfsFileByte info xads) start stop buf stop turn) :
    ReadsOn info xads start stop buf state turn := by
  refine ⟨1, (state, turn), ?_, progress⟩
  rw [xfsReadLoop, if_pos]
  rw [progress.len, Nat.sub_self]
  exact Int.le_refl _

/-- A turn that goes on reads on if the next one does. -/
theorem readsOn_next {after : XfsState} (more : 0 < turn.len)
    (next : nextExtent info state = some (after, some xad))
    (rest : ReadsOn info xads start stop buf (readTurn info stop after turn xad).1
      (readTurn info stop after turn xad).2) :
    ReadsOn info xads start stop buf state turn := by
  obtain ⟨rounds, done, runs, progress⟩ := rest
  refine ⟨rounds + 1, done, ?_, progress⟩
  rw [xfsReadLoop, if_neg (Int.not_le.mpr more), next]
  exact runs

/-- The zeros of a hole that goes on to the end of the range. -/
theorem readsOn_hole (mounted : XfsMounted info) (layout : XfsLayout info xads)
    {behind : List Xad} (lists : Lists info state (xad :: behind))
    (progress : Progress (xfsFileByte info xads) start stop buf place turn)
    (more : place < stop) (high : stop < 2 ^ 31) (member : xad ∈ xads)
    (ends : turn.endofprev < xad.offset) (beyond : stop ≤ xad.offset * info.bsize)
    (hole : ∀ position, place ≤ position → position < stop →
      ∀ xad ∈ xads, ¬ xad.Has (position / info.bsize)) :
    ReadsOn info xads start stop buf state turn := by
  obtain ⟨after, next, -, -, -⟩ := lists
  have zeros := progress.zeros (Nat.le_of_lt more) (Nat.le_refl stop) high
    fun position low upper => extentsByte_hole (hole position low upper)
  have bound := layout.limit xad member
  have inside : xad.offset * info.bsize ≤ xad.stop * info.bsize :=
    Nat.mul_le_mul_right _ (Nat.le_add_right _ _)
  have misses := hole place (Nat.le_refl _) more xad member
  rw [mounted.bsize] at beyond bound inside
  have toread := @holeLen_all _ _ _ _ turn _ xfsWraps (Nat.le_trans inside bound) high beyond
  have round := @readTurn_hole _ after _ _ stop _ mounted progress.filepos
    (Nat.lt_trans more high) misses ends
  rw [toread, progress.len] at round
  apply readsOn_next (progress.more more) next
  rw [round]
  exact readsOn_done zeros

/-- What is said of the end of the loop holds before a round when it holds behind it. -/
def OfTheEnd (info : XfsInfo) (stop : Nat) (P : XfsState → ExtentTurn → Prop) : Prop :=
  ∀ {state after : XfsState} {turn : ExtentTurn} {xad : Xad}, 0 < turn.len →
    nextExtent info state = some (after, some xad) →
    P (readTurn info stop after turn xad).1 (readTurn info stop after turn xad).2 → P state turn

/-- Extents before the position that follow each other are passed by. -/
theorem scan_before (mounted : XfsMounted info) {P : XfsState → ExtentTurn → Prop}
    (ofTheEnd : OfTheEnd info stop P) {before behind : List Xad}
    (adjacent : Adjacent before) (lists : Lists info state (before ++ behind))
    (clean : state.errnum = .none)
    (progress : Progress (xfsFileByte info xads) start stop buf place turn)
    (more : place < stop) (high : stop < 2 ^ 31)
    (misses : ∀ xad ∈ before, ¬ xad.Has (place / info.bsize))
    (joins : ∀ first ∈ before.head?, first.offset ≤ turn.endofprev)
    (rest : ∀ after turn', Lists info after behind → after.errnum = .none →
      after.inode = state.inode → turn'.endofprev = stopOf turn.endofprev before →
      Progress (xfsFileByte info xads) start stop buf place turn' → P after turn') :
    P state turn := by
  induction before generalizing state turn with
  | nil => exact rest state turn lists clean rfl rfl progress
  | cons first before inductionHypothesis =>
      obtain ⟨after, next, errnum, inode, listed⟩ := lists
      have round := @readTurn_passed _ after _ _ stop _ mounted progress.filepos
        (Nat.lt_trans more high) (misses first List.mem_cons_self) (joins first rfl)
      apply ofTheEnd (progress.more more) next
      rw [round]
      apply inductionHypothesis (List.IsChain.of_cons adjacent) listed (errnum.trans clean)
        progress.passed
      · exact fun xad member => misses xad (List.mem_cons_of_mem _ member)
      · intro second isSecond
        obtain ⟨before, rfl⟩ := List.head?_eq_some_iff.mp isSecond
        exact Nat.le_of_eq (List.isChain_cons_cons.mp adjacent).1
      · intro after' turn' listed' clean' inode' endofprev progress'
        exact rest after' turn' listed' clean' (inode'.trans inode) endofprev progress'

/-- A part of an extent is read: the range ends in it, or it goes on behind it. -/
theorem scan_has (mounted : XfsMounted info) (layout : XfsLayout info xads)
    {P : XfsState → ExtentTurn → Prop} (ofTheEnd : OfTheEnd info stop P)
    {behind : List Xad} (lists : Lists info state (xad :: behind)) (clean : state.errnum = .none)
    (progress : Progress (xfsFileByte info xads) start stop buf place turn)
    (more : place < stop) (high : stop < 2 ^ 31) (member : xad ∈ xads)
    (has : xad.Has (place / info.bsize)) (inReach : PartInReach info xads start stop)
    (done : ∀ after turn', stop ≤ xad.stop * info.bsize →
      Progress (xfsFileByte info xads) start stop buf stop turn' → P after turn')
    (rest : ∀ after turn', xad.stop * info.bsize < stop → Lists info after behind →
      after.errnum = .none → after.inode = state.inode → turn'.endofprev = xad.stop →
      Progress (xfsFileByte info xads) start stop buf (xad.stop * info.bsize) turn' →
      P after turn') :
    P state turn := by
  obtain ⟨after, next, errnum, inode, listed⟩ := lists
  have reach : PartInReach info xads place stop :=
    fun position low upper => inReach position (Nat.le_trans progress.started low) upper
  have round := readTurn_has mounted layout progress.filepos progress.len more high member has
    reach (errnum.trans clean)
  have progress' := extent_progress mounted layout progress more high member has
  apply ofTheEnd (progress.more more) next
  rw [round]
  by_cases whole : stop ≤ xad.stop * info.bsize
  · rw [Nat.min_eq_left whole] at progress' ⊢
    exact done after _ whole progress'
  · have goesOn := Nat.not_le.mp whole
    rw [Nat.min_eq_right (Nat.le_of_lt goesOn)] at progress' ⊢
    exact rest after _ goesOn listed (errnum.trans clean) inode rfl progress'

/-- Extents that follow each other are read. -/
theorem scan_run (mounted : XfsMounted info) (layout : XfsLayout info xads)
    {P : XfsState → ExtentTurn → Prop} (ofTheEnd : OfTheEnd info stop P)
    {run behind : List Xad} {first : Xad} (adjacent : Adjacent (first :: run))
    (members : ∀ xad ∈ first :: run, xad ∈ xads)
    (lists : Lists info state (first :: run ++ behind)) (clean : state.errnum = .none)
    (progress : Progress (xfsFileByte info xads) start stop buf place turn)
    (more : place < stop) (high : stop < 2 ^ 31) (has : first.Has (place / info.bsize))
    (inReach : PartInReach info xads start stop)
    (done : ∀ after turn', (∃ xad ∈ first :: run, stop ≤ xad.stop * info.bsize) →
      Progress (xfsFileByte info xads) start stop buf stop turn' → P after turn')
    (rest : ∀ after turn', stopOf first.stop run * info.bsize < stop → Lists info after behind →
      after.errnum = .none → after.inode = state.inode →
      turn'.endofprev = stopOf first.stop run →
      Progress (xfsFileByte info xads) start stop buf (stopOf first.stop run * info.bsize) turn' →
      P after turn') :
    P state turn := by
  induction run generalizing first state turn place with
  | nil =>
      exact scan_has mounted layout ofTheEnd lists clean progress more high
        (members first List.mem_cons_self) has inReach
        (fun after turn' whole => done after turn' ⟨first, List.mem_cons_self, whole⟩) rest
  | cons second run inductionHypothesis =>
      apply scan_has mounted layout ofTheEnd lists clean progress more high
        (members first List.mem_cons_self) has inReach
      · exact fun after turn' whole => done after turn' ⟨first, List.mem_cons_self, whole⟩
      · intro after turn' goesOn listed clean' inode endofprev progress'
        obtain ⟨follows, adjacent'⟩ := List.isChain_cons_cons.mp adjacent
        have member := members second (List.mem_cons_of_mem _ List.mem_cons_self)
        have hasNext : second.Has (first.stop * info.bsize / info.bsize) := by
          rw [Nat.mul_div_cancel _ (bsize_pos mounted), ← follows]
          exact ⟨Nat.le_refl _, layout.inOrder.offset_lt_stop member⟩
        apply inductionHypothesis adjacent'
          (fun xad isMember => members xad (List.mem_cons_of_mem _ isMember)) listed clean'
          progress' goesOn hasNext
        · rintro after' turn'' ⟨xad, isMember, whole⟩
          exact done after' turn'' ⟨xad, List.mem_cons_of_mem _ isMember, whole⟩
        · intro after' turn'' ends listed' clean'' inode'
          exact rest after' turn'' ends listed' clean'' (inode'.trans inode)

/-- Extents that follow each other, and perhaps a hole behind them. -/
theorem readsOn_run (mounted : XfsMounted info) (layout : XfsLayout info xads)
    {before run behind : List Xad} {first : Xad}
    (all : xads = before ++ (first :: run ++ behind)) (adjacent : Adjacent (first :: run))
    (lists : Lists info state (first :: run ++ behind)) (clean : state.errnum = .none)
    (progress : Progress (xfsFileByte info xads) start stop buf place turn)
    (more : place < stop) (high : stop < 2 ^ 31) (has : first.Has (place / info.bsize))
    (inReach : PartInReach info xads start stop)
    (ends : stop ≤ stopOf first.stop run * info.bsize ∨
      ∃ next ∈ behind.head?, stop ≤ next.offset * info.bsize) :
    ReadsOn info xads start stop buf state turn := by
  have members : ∀ xad ∈ first :: run, xad ∈ xads := by
    intro xad member
    rw [all]
    exact List.mem_append_right _ (List.mem_append_left _ member)
  apply scan_run (P := ReadsOn info xads start stop buf) mounted layout readsOn_next adjacent
    members lists clean progress more high has inReach
  · exact fun after turn' _ progress' => readsOn_done progress'
  · intro after turn' goesOn listed clean' _ endofprev progress'
    rcases ends with inside | ⟨next, isNext, beyond⟩
    · exact absurd inside (Nat.not_le.mpr goesOn)
    · obtain ⟨behind, rfl⟩ := List.head?_eq_some_iff.mp isNext
      have gapStart : stopOf first.stop run < next.offset :=
        Nat.lt_of_mul_lt_mul_right (Nat.lt_of_lt_of_le goesOn beyond)
      have isMember : next ∈ xads := by
        rw [all]
        exact List.mem_append_right _ (List.mem_append_right _ List.mem_cons_self)
      apply readsOn_hole mounted layout listed progress' goesOn high isMember
        (endofprev ▸ gapStart) beyond
      intro position low upper
      exact hole_behind (bsize_pos mounted) layout.inOrder all low (Nat.lt_of_lt_of_le upper beyond)

/-- The first extent is passed by wherever it lies. -/
theorem joins_first (mounted : XfsMounted info) (layout : XfsLayout info xads)
    (member : xad ∈ xads) : xad.offset ≤ 2 ^ 64 - 1 := by
  have limit := layout.limit xad member
  have blocks : xad.stop ≤ xad.stop * info.bsize :=
    Nat.le_mul_of_pos_right _ (bsize_pos mounted)
  have start : xad.offset ≤ xad.stop := Nat.le_add_right _ _
  exact Nat.le_trans start (Nat.le_trans blocks (Nat.le_trans limit (by decide)))

/-- The loop reads a range whose holes are where it expects them. -/
theorem readsOn_met (mounted : XfsMounted info) (layout : XfsLayout info xads)
    (lists : Lists info state xads) (clean : state.errnum = .none) (ordered : start ≤ stop)
    (high : stop < 2 ^ 31) (inReach : PartInReach info xads start stop)
    (met : XfsHolesMet info.bsize xads start stop) :
    ReadsOn info xads start stop buf state (firstTurn start stop buf (2 ^ 64 - 1)) := by
  have progress := @firstTurn_progress _ _ (xfsFileByte info xads) buf ordered
    (2 ^ 64 - 1)
  rcases Nat.eq_or_lt_of_le ordered with rfl | more
  · exact readsOn_done progress
  rcases met with empty | data | hole
  · exact absurd empty (Nat.ne_of_lt more)
  · obtain ⟨before, first, run, behind, all, adjacent, adjacent', has, ends⟩ := data
    have inOrder := all ▸ layout.inOrder
    apply scan_before (P := ReadsOn info xads start stop buf) mounted readsOn_next adjacent
      (all ▸ lists) clean progress more high
    · intro xad member has'
      have apart := inOrder.apart member (List.mem_append_left _ List.mem_cons_self)
      exact absurd (Nat.le_trans apart has.1) (Nat.not_le.mpr has'.2)
    · intro xad isFirst
      apply joins_first mounted layout
      rw [all]
      exact List.mem_append_left _ (List.mem_of_mem_head? isFirst)
    · intro after turn' listed clean' _ _ progress'
      exact readsOn_run mounted layout all adjacent' listed clean' progress' more high has
        inReach ends
  · obtain ⟨first, run, next, behind, all, adjacent, gapStart, beyond, apart⟩ := hole
    have member : next ∈ xads := by
      rw [all]
      exact List.mem_append_right _ List.mem_cons_self
    have misses : ∀ position, start ≤ position → position < stop →
        ∀ xad ∈ xads, ¬ xad.Has (position / info.bsize) := by
      have inOrder := layout.inOrder
      rw [all] at inOrder ⊢
      exact fun position => misses_hole (bsize_pos mounted) inOrder beyond apart
    apply scan_before (P := ReadsOn info xads start stop buf) mounted readsOn_next adjacent
      (all ▸ lists) clean progress more high
    · intro xad early
      apply misses start (Nat.le_refl _) more
      rw [all]
      exact List.mem_append_left _ early
    · intro xad isFirst
      apply joins_first mounted layout
      rw [all]
      exact List.mem_append_left _ (List.mem_of_mem_head? isFirst)
    · intro after turn' listed clean' _ endofprev progress'
      have ends : turn'.endofprev < next.offset := by
        rw [endofprev]
        exact gapStart
      exact readsOn_hole mounted layout listed progress' more high member ends beyond misses

/-! ## Reads that fail -/

/-- However the loop ends, what was asked for has not been read. -/
def Fails (info : XfsInfo) (xads : List Xad) (start stop : Nat) (state : XfsState)
    (turn : ExtentTurn) : Prop :=
  ∀ rounds done, xfsReadLoop info stop rounds state turn = some done →
    done.2.filepos = stop →
    ¬ ∀ i < stop - start, done.2.buf i = xfsFileByte info xads (start + i)

/-- A turn that goes on fails if the next one does. -/
theorem fails_next {after : XfsState} (more : 0 < turn.len)
    (next : nextExtent info state = some (after, some xad))
    (rest : Fails info xads start stop (readTurn info stop after turn xad).1
      (readTurn info stop after turn xad).2) :
    Fails info xads start stop state turn := by
  intro rounds done runs
  cases rounds with
  | zero => cases runs
  | succ rounds =>
      rw [xfsReadLoop, if_neg (Int.not_le.mpr more), next] at runs
      exact rest rounds done runs

/-- The list ends too early. -/
theorem fails_end {after : XfsState} (next : nextExtent info state = some (after, none))
    (filepos : turn.filepos = place) (more : place < stop) :
    Fails info xads start stop state turn := by
  intro rounds done runs ends
  have short : turn.filepos ≠ stop := by omega
  cases rounds with
  | zero => cases runs
  | succ rounds =>
      rw [xfsReadLoop] at runs
      split at runs
      · cases runs
        exact absurd ends short
      · rw [next] at runs
        cases runs
        exact absurd ends short

/-- A read at its end has failed if a byte was lost before. -/
theorem fails_over {position : Nat} (ended : stop ≤ place) (paced : Paced start stop place turn)
    (lost : Lost start place position turn) (first : start ≤ position) (before : position < stop)
    (high : stop < 2 ^ 31) (nonzero : xfsFileByte info xads position ≠ 0) :
    Fails info xads start stop state turn := by
  intro rounds done runs ends stored
  cases rounds with
  | zero => cases runs
  | succ rounds =>
      have len := paced.len
      rw [xfsReadLoop, if_pos (by omega)] at runs
      cases runs
      exact lost.undelivered paced before high nonzero first ends stored

/-- What is stored for a hole are zeros, of whatever number. -/
theorem readTurn_zeros (mounted : XfsMounted info) (layout : XfsLayout info xads)
    (filepos : turn.filepos = place) (len : turn.len = (stop - place : Nat))
    (more : place < stop) (high : stop < 2 ^ 31) (member : xad ∈ xads)
    (misses : ¬ xad.Has (place / info.bsize)) (behind : turn.endofprev < xad.offset) :
    ∃ count, readTurn info stop state turn xad =
      (state, turn.advance (List.replicate count 0) turn.endofprev) ∧
      (xad.offset * info.bsize < stop → count = (xad.offset - turn.endofprev) * info.bsize) := by
  have round := @readTurn_hole _ state _ _ stop _ mounted filepos
    (Nat.lt_trans more high) misses behind
  have inside : xad.offset * info.bsize ≤ xad.stop * info.bsize :=
    Nat.mul_le_mul_right _ (Nat.le_add_right _ _)
  have bound := Nat.le_trans inside (layout.limit xad member)
  rw [mounted.bsize] at bound
  by_cases beyond : stop ≤ xad.offset * 2 ^ info.blklog
  · rw [@holeLen_all _ _ _ _ turn _ xfsWraps bound high beyond, len, holeDone_eq] at round
    refine ⟨stop - place, round, ?_⟩
    rw [mounted.bsize]
    exact fun before => absurd before (Nat.not_lt.mpr beyond)
  · rw [@holeLen_part _ _ _ _ turn _ xfsWraps bound high (Nat.not_le.mp beyond),
      holeDone_eq] at round
    refine ⟨_, round, ?_⟩
    rw [mounted.bsize]
    exact fun _ => rfl

/-- A byte that is lost stays so behind an extent that is passed. -/
theorem Lost.passed {position : Nat} (lost : Lost start place position turn) :
    Lost start place position (passedBy turn xad) := lost

/-- A byte that is lost is not read any more when no later extent has it. -/
theorem fails_lost (mounted : XfsMounted info) (layout : XfsLayout info xads)
    (inReach : PartInReach info xads start stop) (high : stop < 2 ^ 31) {position : Nat}
    (first : start ≤ position) (before : position < stop)
    (nonzero : xfsFileByte info xads position ≠ 0) {rest : List Xad}
    (inline : diFormat state.inode = xfsDinodeFmtExtents) (lists : Lists info state rest)
    (clean : state.errnum = .none) (members : ∀ xad ∈ rest, xad ∈ xads)
    (misses : place ≤ position → ∀ xad ∈ rest, ¬ xad.Has (position / info.bsize))
    (paced : Paced start stop place turn) (lost : Lost start place position turn) :
    Fails info xads start stop state turn := by
  by_cases ended : stop ≤ place
  · exact fails_over ended paced lost first before high nonzero
  have more := Nat.not_le.mp ended
  induction rest generalizing state turn place with
  | nil =>
      exact fails_end (lists inline) (paced.filepos_eq (Nat.le_of_lt more) high) more
  | cons xad rest inductionHypothesis =>
      obtain ⟨after, next, errnum, inode, listed⟩ := lists
      have filepos := paced.filepos_eq (Nat.le_of_lt more) high
      have len : turn.len = (stop - place : Nat) := by
        rw [paced.len]
        omega
      have positive : 0 < turn.len := by omega
      have clean' := errnum.trans clean
      have inline' : diFormat after.inode = xfsDinodeFmtExtents := by rw [inode, inline]
      have members' : ∀ xad ∈ rest, xad ∈ xads :=
        fun other member => members other (List.mem_cons_of_mem _ member)
      -- Whatever is stored in this round, the rest of the loop does not bring the byte back.
      have goOn : ∀ bytes : List UInt8, ∀ endofprev : Nat,
          (∀ i, ∀ inside : i < bytes.length, place + i = position → bytes[i] = 0) →
          Fails info xads start stop after (turn.advance bytes endofprev) := by
        intro bytes endofprev zero
        have paced' := paced.advance (Nat.le_of_lt more) high bytes endofprev
        have lost' := lost.advance paced first bytes endofprev zero
        by_cases ended' : stop ≤ place + bytes.length
        · exact fails_over ended' paced' lost' first before high nonzero
        · exact inductionHypothesis inline' listed clean' members' (fun ahead other member =>
            misses (by omega) other (List.mem_cons_of_mem _ member)) paced' lost' ended'
            (Nat.not_le.mp ended')
      apply fails_next positive next
      by_cases has : xad.Has (place / info.bsize)
      · have reach : PartInReach info xads place stop :=
          fun position low upper => inReach position (Nat.le_trans paced.started low) upper
        rw [readTurn_has mounted layout filepos len more high (members xad List.mem_cons_self)
          has reach clean']
        apply goOn
        intro i inside reached
        rw [xadBytes, length_extentBytes] at inside
        have hasByte := (@has_of_inside _ _ position) (bsize_pos mounted) has (by omega) (by omega)
        exact absurd hasByte (misses (by omega) xad List.mem_cons_self)
      · by_cases behind : turn.endofprev < xad.offset
        · obtain ⟨count, round, -⟩ := @readTurn_zeros _ after _ _ _ _ _ mounted layout filepos len
            more high (members xad List.mem_cons_self) has behind
          rw [round]
          apply goOn
          intro i inside reached
          exact List.getElem_replicate _
        · rw [readTurn_passed mounted filepos (Nat.lt_trans more high) has
            (Nat.not_lt.mp behind)]
          exact inductionHypothesis inline' listed clean' members' (fun ahead other member =>
            misses ahead other (List.mem_cons_of_mem _ member)) paced.passed lost.passed ended more

/-- Zeros are stored where no later extent puts the byte of a position right. -/
theorem fails_zeros (mounted : XfsMounted info) (layout : XfsLayout info xads)
    (inReach : PartInReach info xads start stop) (high : stop < 2 ^ 31) {position : Nat}
    {next : Xad} {rest : List Xad} (inline : diFormat state.inode = xfsDinodeFmtExtents)
    (lists : Lists info state (next :: rest)) (clean : state.errnum = .none)
    (members : ∀ xad ∈ next :: rest, xad ∈ xads)
    (progress : Progress (xfsFileByte info xads) start stop buf place turn)
    (more : place < stop) (misses : ¬ next.Has (place / info.bsize))
    (behind : turn.endofprev < next.offset) (first : place ≤ position) (before : position < stop)
    (nonzero : xfsFileByte info xads position ≠ 0)
    (missing : (position = place ∧ next.offset * info.bsize < stop) ∨
      ∀ xad ∈ rest, ¬ xad.Has (position / info.bsize)) :
    Fails info xads start stop state turn := by
  obtain ⟨after, isNext, errnum, inode, listed⟩ := lists
  obtain ⟨count, round, counted⟩ := @readTurn_zeros _ after _ _ _ _ _ mounted layout
    progress.filepos progress.len more high (members next List.mem_cons_self) misses behind
  have paced := progress.paced high
  have started := Nat.le_trans progress.started first
  have paced' := paced.advance (Nat.le_of_lt more) high (List.replicate count 0) turn.endofprev
  have lost : Lost start place position turn := .inl first
  have lost' := lost.advance paced started (List.replicate count 0) turn.endofprev
    fun i inside _ => List.getElem_replicate _
  apply fails_next (progress.more more) isNext
  rw [round]
  apply fails_lost mounted layout inReach high started before nonzero (inode ▸ inline) listed
    (errnum.trans clean) (fun xad member => members xad (List.mem_cons_of_mem _ member)) _
    paced' lost'
  intro ahead
  rcases missing with ⟨rfl, ends⟩ | missing
  · have some_ : 0 < count := by
      rw [counted ends]
      exact Nat.mul_pos (Nat.sub_pos_of_lt behind) (bsize_pos mounted)
    rw [List.length_replicate] at ahead
    omega
  · exact missing

/-- From an extent that has the position on. -/
theorem fails_run (mounted : XfsMounted info) (layout : XfsLayout info xads)
    (inReach : PartInReach info xads start stop) (high : stop < 2 ^ 31)
    (noZeros : NoZeros info.bsize (xfsFileByte info xads) xads start stop)
    {before run behind : List Xad} {first : Xad}
    (all : xads = before ++ (first :: run ++ behind)) (adjacent : Adjacent (first :: run))
    (gap : ∀ next ∈ behind.head?, stopOf first.stop run < next.offset)
    (inline : diFormat state.inode = xfsDinodeFmtExtents)
    (lists : Lists info state (first :: run ++ behind)) (clean : state.errnum = .none)
    (progress : Progress (xfsFileByte info xads) start stop buf start turn)
    (more : start < stop) (has : first.Has (start / info.bsize))
    (ends : stopOf first.stop run * info.bsize < stop)
    (holeEnds : ∀ next ∈ behind.head?, next.offset * info.bsize < stop) :
    Fails info xads start stop state turn := by
  have members : ∀ xad ∈ first :: run ++ behind, xad ∈ xads := by
    intro xad member
    rw [all]
    exact List.mem_append_right _ member
  have inOrder := (all ▸ layout.inOrder).append_right
  have positive := bsize_pos mounted
  apply scan_run (P := Fails info xads start stop) mounted layout fails_next adjacent
    (fun xad member => members xad (List.mem_append_left _ member)) lists clean progress more
    high has inReach
  · rintro after turn' ⟨xad, member, whole⟩
    have last := inOrder.append_left.stop_le member
    exact absurd (Nat.le_trans whole (Nat.mul_le_mul_right _ last)) (Nat.not_le.mpr ends)
  · intro after turn' goesOn listed clean' inode endofprev progress'
    cases behind with
    | nil => exact fails_end (listed (inode ▸ inline)) progress'.filepos goesOn
    | cons next behind =>
        have behindLast := gap next rfl
        have upper := holeEnds next rfl
        have low : stopOf first.stop run * info.bsize ≤ next.offset * info.bsize :=
          Nat.mul_le_mul_right _ (Nat.le_of_lt behindLast)
        have member := members next (List.mem_append_right _ List.mem_cons_self)
        apply fails_zeros mounted layout inReach high (inode ▸ inline) listed clean'
          (fun xad isMember => members xad (List.mem_append_right _ isMember)) progress' goesOn
          _ (endofprev ▸ behindLast) low upper
          (nonzero_start (bsize_pos mounted) layout.inOrder noZeros member
            (Nat.le_trans progress'.started low) upper)
          (.inr (misses_start (bsize_pos mounted) inOrder.append_right))
        rw [Nat.mul_div_cancel _ positive]
        exact fun has' => absurd has'.1 (Nat.not_le.mpr behindLast)

/-- The same, when it is not known how far the extents cover the range. -/
theorem fails_data (mounted : XfsMounted info) (layout : XfsLayout info xads)
    (inReach : PartInReach info xads start stop) (high : stop < 2 ^ 31)
    (noZeros : NoZeros info.bsize (xfsFileByte info xads) xads start stop)
    {before late : List Xad} {first : Xad}
    (all : xads = before ++ first :: late) (adjacent : Adjacent before)
    (inline : diFormat state.inode = xfsDinodeFmtExtents)
    (lists : Lists info state (first :: late)) (clean : state.errnum = .none)
    (progress : Progress (xfsFileByte info xads) start stop buf start turn)
    (more : start < stop) (has : first.Has (start / info.bsize))
    (unmet : ¬ XfsHolesMet info.bsize xads start stop) :
    Fails info xads start stop state turn := by
  obtain ⟨run, behind, rfl, adjacent', gap⟩ := (all ▸ layout.inOrder).append_right.split_run
  rw [← List.cons_append] at all lists
  apply fails_run mounted layout inReach high noZeros all adjacent' gap inline lists clean
    progress more has
  · apply Nat.not_le.mp
    intro ends
    exact unmet (.inr (.inl ⟨before, first, run, behind, all, adjacent, adjacent', has, .inl ends⟩))
  · intro next isNext
    apply Nat.not_le.mp
    intro ends
    exact unmet (.inr (.inl ⟨before, first, run, behind, all, adjacent, adjacent', has,
      .inr ⟨next, isNext, ends⟩⟩))

/-- From the first extent on when the position is in the hole before it. -/
theorem fails_ahead (mounted : XfsMounted info) (layout : XfsLayout info xads)
    (inReach : PartInReach info xads start stop) (high : stop < 2 ^ 31) (more : start < stop)
    (noZeros : NoZeros info.bsize (xfsFileByte info xads) xads start stop) {late : List Xad} {first : Xad}
    (all : xads = first :: late) (ahead : start / info.bsize < first.offset)
    (inline : diFormat state.inode = xfsDinodeFmtExtents) (lists : Lists info state xads)
    (clean : state.errnum = .none) (unmet : ¬ XfsHolesMet info.bsize xads start stop) :
    Fails info xads start stop state (firstTurn start stop buf (2 ^ 64 - 1)) := by
  have progress := @firstTurn_progress _ _ (xfsFileByte info xads) buf
    (Nat.le_of_lt more) (2 ^ 64 - 1)
  have positive := bsize_pos mounted
  have inOrder := all ▸ layout.inOrder
  obtain ⟨run, behind, rfl, adjacent, gap⟩ := inOrder.split_run
  have starts : ∀ xad ∈ first :: (run ++ behind), first.offset ≤ xad.offset := by
    intro xad member
    rcases List.mem_cons.mp member with rfl | later
    · exact Nat.le_refl _
    · exact Nat.le_trans (Nat.le_add_right _ _) (inOrder.first_stop later)
  have misses : ∀ xad ∈ first :: (run ++ behind), ¬ xad.Has (start / info.bsize) :=
    fun xad member has => absurd (Nat.le_trans (starts xad member) has.1) (Nat.not_le.mpr ahead)
  have member : first ∈ xads := by
    rw [all]
    exact List.mem_cons_self
  rw [← List.cons_append] at all misses starts
  apply scan_before (P := Fails info xads start stop) mounted fails_next adjacent (all ▸ lists)
    clean progress more high
  · exact fun xad early => misses xad (List.mem_append_left _ early)
  · intro xad isFirst
    obtain rfl : first = xad := Option.some.inj isFirst
    exact joins_first mounted layout member
  · intro after turn' listed clean' inode endofprev progress'
    cases behind with
    | nil => exact fails_end (listed (inode ▸ inline)) progress'.filepos more
    | cons next behind =>
        have hole := gap next rfl
        have low : start ≤ first.offset * info.bsize :=
          Nat.le_of_lt ((Nat.div_lt_iff_lt_mul positive).mp ahead)
        have firstStop : first.offset ≤ next.offset := starts next
          (List.mem_append_right _ List.mem_cons_self)
        have upper : first.offset * info.bsize < stop := by
          apply Nat.not_le.mp
          intro beyond
          apply unmet
          refine .inr (.inr ⟨first, run, next, behind, all, adjacent, hole, ?_, ?_⟩)
          · exact Nat.le_trans beyond (Nat.mul_le_mul_right _ firstStop)
          · intro xad early
            exact .inl (Nat.le_trans beyond (Nat.mul_le_mul_right _
              (starts xad (List.mem_append_left _ early))))
        apply fails_zeros mounted layout inReach high (inode ▸ inline) listed clean'
          (fun xad late => all ▸ List.mem_append_right _ late) progress' more
          (misses next (List.mem_append_right _ List.mem_cons_self)) _ low upper
          (nonzero_start (bsize_pos mounted) layout.inOrder noZeros member low upper)
        · refine .inr fun xad late => misses_start (bsize_pos mounted) inOrder xad ?_
          exact List.mem_append_right _ (List.mem_cons_of_mem _ late)
        · rw [endofprev]
          exact hole

/-- A range whose holes are not where the loop expects them is not read. -/
theorem fails_unmet (mounted : XfsMounted info) (layout : XfsLayout info xads)
    (inReach : PartInReach info xads start stop) (high : stop < 2 ^ 31) (more : start < stop)
    (noZeros : NoZeros info.bsize (xfsFileByte info xads) xads start stop)
    (early : (∃ xad ∈ xads, xad.Has (start / info.bsize)) ∨ ¬ HoleBefore info.bsize xads start)
    (inline : diFormat state.inode = xfsDinodeFmtExtents) (lists : Lists info state xads)
    (clean : state.errnum = .none) (unmet : ¬ XfsHolesMet info.bsize xads start stop) :
    Fails info xads start stop state (firstTurn start stop buf (2 ^ 64 - 1)) := by
  have progress := @firstTurn_progress _ _ (xfsFileByte info xads) buf
    (Nat.le_of_lt more) (2 ^ 64 - 1)
  have positive := bsize_pos mounted
  obtain ⟨past, late, all, isPast, isLate⟩ := layout.inOrder.split_at (start / info.bsize)
  have inOrder := all ▸ layout.inOrder
  have pastMisses : ∀ xad ∈ past, ¬ xad.Has (start / info.bsize) :=
    fun xad member has => absurd has.2 (Nat.not_lt.mpr (isPast xad member))
  cases past with
  | nil =>
      rw [List.nil_append] at all
      cases late with
      | nil => exact fails_end ((all ▸ lists) inline) progress.filepos more
      | cons first late =>
          by_cases has : first.Has (start / info.bsize)
          · exact @fails_data _ _ _ _ _ _ _ mounted layout inReach high noZeros [] _ _ all .nil
              inline (all ▸ lists) clean progress more has unmet
          · have ahead : start / info.bsize < first.offset := by
              apply Nat.not_le.mp
              exact fun low => has ⟨low, isLate first List.mem_cons_self⟩
            exact fails_ahead mounted layout inReach high more noZeros all ahead inline lists clean
              unmet
  | cons first past =>
      -- The extents before the position up to the first hole between them.
      obtain ⟨run, rest, rfl, adjacent, gap⟩ := inOrder.append_left.split_run
      rw [List.cons_append, List.append_assoc, ← List.cons_append] at all
      have firstMember : first ∈ xads := by
        rw [all]
        exact List.mem_append_left _ List.mem_cons_self
      apply scan_before (P := Fails info xads start stop) mounted fails_next adjacent
        (all ▸ lists) clean progress more high
      · exact fun xad member => pastMisses xad (@List.mem_append_left _ _ (first :: run) rest member)
      · intro xad isFirst
        obtain rfl : first = xad := Option.some.inj isFirst
        exact joins_first mounted layout firstMember
      · intro after turn' listed clean' inode endofprev progress'
        have members : ∀ xad ∈ rest ++ late, xad ∈ xads :=
          fun xad member => all ▸ List.mem_append_right _ member
        cases rest with
        | cons next rest =>
            -- The hole between them is taken for one at the position.
            have isPastNext := isPast next
              (List.mem_cons_of_mem _ (List.mem_append_right _ List.mem_cons_self))
            have stops : next.stop * info.bsize ≤ start :=
              (Nat.le_div_iff_mul_le positive).mp isPastNext
            have hole : HoleBefore info.bsize xads start :=
              ⟨first, run, next, rest ++ late, all, adjacent, gap next rfl, stops⟩
            obtain ⟨xad, member, has⟩ := early.resolve_right (not_not.mpr hole)
            have starts : next.offset * info.bsize ≤ next.stop * info.bsize :=
              Nat.mul_le_mul_right _ (Nat.le_add_right _ _)
            apply fails_zeros mounted layout inReach high (inode ▸ inline) listed clean' members
              progress' more _ _ (Nat.le_refl start) more
              (noZeros start (Nat.le_refl start) more xad member has)
            · exact .inl ⟨rfl, Nat.lt_of_le_of_lt (Nat.le_trans starts stops) more⟩
            · exact fun has' => absurd has'.2 (Nat.not_lt.mpr isPastNext)
            · rw [endofprev]
              exact gap next rfl
        | nil =>
            cases late with
            | nil => exact fails_end (listed (inode ▸ inline)) progress'.filepos more
            | cons next late =>
                by_cases has : next.Has (start / info.bsize)
                · exact fails_data mounted layout inReach high noZeros all adjacent
                    (inode ▸ inline) listed clean' progress' more has unmet
                · have ahead : start / info.bsize < next.offset := by
                    apply Nat.not_le.mp
                    exact fun low => has ⟨low, isLate next List.mem_cons_self⟩
                  have lastPast : stopOf first.stop run ≤ start / info.bsize :=
                    stopOf_le_of fun xad member => isPast xad (by rwa [List.append_nil])
                  have low : start ≤ next.offset * info.bsize :=
                    Nat.le_of_lt ((Nat.div_lt_iff_lt_mul positive).mp ahead)
                  have behindLast := Nat.lt_of_le_of_lt lastPast ahead
                  have upper : next.offset * info.bsize < stop := by
                    apply Nat.not_le.mp
                    intro beyond
                    apply unmet
                    refine .inr (.inr ⟨first, run, next, late, all, adjacent, behindLast, beyond,
                      fun xad member => .inr ?_⟩)
                    apply (Nat.le_div_iff_mul_le positive).mp
                    exact isPast xad (by rwa [List.append_nil])
                  have member := members next List.mem_cons_self
                  apply fails_zeros mounted layout inReach high (inode ▸ inline) listed clean'
                    members progress' more has _ low upper
                    (nonzero_start (bsize_pos mounted) layout.inOrder noZeros member low upper)
                    (.inr (misses_start (bsize_pos mounted) inOrder.append_right))
                  rw [endofprev]
                  exact behindLast

end

/-! ## Reads of a file -/

/-- `xfs_read` returns, and it has read what it was asked for. -/
def XfsReads (info : XfsInfo) (state : XfsState) (file : Nat → UInt8) (start stop : Nat)
    (buf : Buffer) : Prop :=
  ∃ levels rounds outcome,
    xfsRead info levels rounds state start buf (stop - start : Nat) = some outcome ∧
      Delivers file start stop buf outcome

section

variable {info : XfsInfo} {state : XfsState} {xads : List Xad} {start stop : Nat} {buf : Buffer}

/-- `xfs_read` is the loop on the extents that are listed. -/
theorem xfsRead_eq {levels rounds : Nat} {after : XfsState}
    (notLocal : diFormat state.inode ≠ xfsDinodeFmtLocal)
    (inits : initExtents info levels state = some after) (ordered : start ≤ stop)
    (high : stop < 2 ^ 31) :
    xfsRead info levels rounds state start buf (stop - start : Nat) =
      (xfsReadLoop info stop rounds after (firstTurn start stop buf (2 ^ 64 - 1))).map fun done =>
        { state := done.1
          filepos := done.2.filepos
          buf := done.2.buf
          ret := toInt32 (done.2.filepos - start) } := by
  rw [xfsRead, if_neg notLocal, inits, Option.bind_some, endpos_eq ordered high]
  rfl

/-- An inode with extents has no local data. -/
theorem notLocal_of_extentsOf {inode : Buffer} (extentsOf : ExtentsOf info inode xads) :
    diFormat inode ≠ xfsDinodeFmtLocal := by
  rcases extentsOf with ⟨inline, -⟩ | ⟨btree, -⟩
  · rw [inline]
    decide
  · rw [btree]
    decide

/-- What a read of a file does. It delivers a range whose holes are where the loop expects
them; and for a file whose extents are in the inode and whose data have no zeros it
delivers no other range, unless the range starts in a hole and an extent ends another hole
before that. -/
theorem xfsRead_delivers {inode : Buffer} (mounted : XfsMounted info)
    (extentsOf : ExtentsOf info inode xads) (layout : XfsLayout info xads)
    (clean : state.errnum = .none) (ordered : start ≤ stop) (high : stop < 2 ^ 31)
    (noFork : ¬ RootBehindFork inode) (inReach : PartInReach info xads start stop) :
    (XfsHolesMet info.bsize xads start stop →
      XfsReads info (inodeRead info state inode) (xfsFileByte info xads) start stop buf) ∧
    (diFormat inode = xfsDinodeFmtExtents → NoZeros info.bsize (xfsFileByte info xads) xads start stop →
      (∃ xad ∈ xads, xad.Has (start / info.bsize)) ∨ ¬ HoleBefore info.bsize xads start →
      XfsReads info (inodeRead info state inode) (xfsFileByte info xads) start stop buf →
      XfsHolesMet info.bsize xads start stop) := by
  have notLocal : diFormat (inodeRead info state inode).inode ≠ xfsDinodeFmtLocal :=
    notLocal_of_extentsOf extentsOf
  constructor
  · intro met
    obtain ⟨levels, after, inits, clean', -, lists⟩ :=
      initExtents_lists mounted extentsOf noFork clean
    obtain ⟨rounds, done, runs, progress⟩ :=
      @readsOn_met _ _ _ _ _ buf mounted layout lists clean' ordered high inReach met
    have read := @xfsRead_eq _ _ _ _ buf _ rounds _ notLocal inits ordered high
    rw [runs] at read
    exact ⟨levels, rounds, _, read, progress.filepos, progress.stored, progress.kept⟩
  · rintro inline noZeros early ⟨levels, rounds, outcome, reads, delivers⟩
    rcases Nat.eq_or_lt_of_le ordered with empty | more
    · exact .inl empty
    rcases extentsOf with ⟨_, nextents, records⟩ | ⟨btree, -⟩
    · obtain ⟨after, inits, clean', inode_, lists⟩ :=
        @initExtents_inline info _ _ _ inline nextents records clean levels
      rw [xfsRead_eq notLocal inits ordered high] at reads
      obtain ⟨done, runs, rfl⟩ := Option.map_eq_some_iff.mp reads
      apply Classical.not_not.mp
      intro unmet
      exact fails_unmet mounted layout inReach high more noZeros early (inode_ ▸ inline) lists
        clean' unmet rounds done runs delivers.filepos delivers.stored
    · rw [btree] at inline
      exact absurd inline (by decide)

end

/-! ### A file with a hole -/

/-- A small file system without a zero on it. -/
def smallXfs : XfsInfo where
  media := plainMedia (fun _ => 1) 64 9
  bsize := 512
  blklog := 9
  isize := 256
  agblocks := 64
  agblklog := 6

/-- An inode with two extents and a hole between them. -/
def sparseInode : Buffer
  | 5 | 79 => 2
  | 112 | 115 | 128 | 131 => 1
  | 122 => 4
  | 129 => 0x20
  | _ => 0

def sparseXads : List Xad := [⟨0, 8, 1⟩, ⟨2, 9, 1⟩]

/-- Before anything has been read. -/
def xfsStart : XfsState where
  inode _ := 0
  ptr0 := 0
  nextents := 0
  next := 0
  daddr := 0
  xt := 0
  fpos := 0
  filebuf _ := 0
  errnum := .none

/-- The small file system is mounted. -/
theorem smallXfs_mounted : XfsMounted smallXfs where
  bsize := rfl
  sectors := by decide
  blocks := by decide
  inodes := by decide
  agblocks := by decide
  reads _ _ _ := rfl

/-- Its sparse file has the records of the extents, -/
theorem sparseInode_records :
    diFormat sparseInode = xfsDinodeFmtExtents ∧ diNextents sparseInode = sparseXads.length ∧
      RecordsAt sparseInode diU sparseXads := by
  refine ⟨by decide +kernel, by decide +kernel, ?_⟩
  unfold RecordsAt
  decide +kernel

/-- which are laid out -/
theorem sparse_layout : XfsLayout smallXfs sparseXads where
  inOrder := ⟨by unfold sparseXads; decide, by decide⟩
  group := by decide
  limit := by decide

/-- and in reach. -/
theorem sparse_inReach (start stop : Nat) : PartInReach smallXfs sparseXads start stop := by
  intro position _ _ xad member has
  generalize position / smallXfs.bsize = key at has ⊢
  rcases List.mem_cons.mp member with rfl | member
  · obtain rfl : key = 0 := Nat.lt_one_iff.mp has.2
    decide
  · obtain rfl := List.mem_singleton.mp member
    obtain rfl : key = 2 := Nat.le_antisymm (Nat.lt_succ_iff.mp has.2) has.1
    decide

/-- The first extent and a part of the hole. -/
theorem xfsRead_delivers_sparse :
    XfsReads smallXfs (inodeRead smallXfs xfsStart sparseInode)
      (xfsFileByte smallXfs sparseXads) 0 700 fun _ => 0 := by
  apply (xfsRead_delivers smallXfs_mounted (.inl sparseInode_records) sparse_layout rfl
    (Nat.zero_le _) (by decide) (by unfold RootBehindFork; decide +kernel)
    (sparse_inReach 0 700)).1
  exact .inr (.inl ⟨[], ⟨0, 8, 1⟩, [], [⟨2, 9, 1⟩], rfl, .nil, .singleton _, by decide,
    .inr ⟨⟨2, 9, 1⟩, rfl, by decide⟩⟩)

/-- The extent behind a hole is not read, and the read ends before its end. -/
theorem xfsRead_loses_extent :
    ¬ ∀ (info : XfsInfo) (inode : Buffer) (xads : List Xad) (state : XfsState)
      (start stop : Nat) (buf : Buffer), XfsMounted info → ExtentsOf info inode xads →
      XfsLayout info xads → state.errnum = .none → start ≤ stop → stop < 2 ^ 31 →
      PartInReach info xads start stop →
      XfsReads info (inodeRead info state inode) (xfsFileByte info xads) start stop buf := by
  intro claimed
  obtain ⟨levels, rounds, outcome, reads, delivers⟩ := claimed smallXfs sparseInode sparseXads
    xfsStart 0 1536 (fun _ => 0) smallXfs_mounted (.inl sparseInode_records) sparse_layout rfl
    (by decide) (by decide) (sparse_inReach 0 1536)
  obtain ⟨inline, nextents, records⟩ := sparseInode_records
  obtain ⟨after, inits, clean, inode, lists⟩ := @initExtents_inline smallXfs xfsStart _ _
    inline nextents records rfl levels
  have noZeros : NoZeros smallXfs.bsize (xfsFileByte smallXfs sparseXads) sparseXads 0 1536 := by
    intro position _ _ xad member has
    rw [xfsFileByte, extentsByte_has sparse_layout.inOrder member has]
    exact (by decide : (1 : UInt8) ≠ 0)
  have fails := @fails_run _ _ _ _ _ _ (firstTurn 0 1536 (fun _ => 0) (2 ^ 64 - 1)) smallXfs_mounted
    sparse_layout (sparse_inReach 0 1536) (by decide) noZeros [] [] [⟨2, 9, 1⟩]
      ⟨0, 8, 1⟩ rfl (.singleton _) (by decide) (inode ▸ inline)
    lists clean (firstTurn_progress (by decide) _) (by decide) (by decide) (by decide) (by decide)
  have notLocal : diFormat (inodeRead smallXfs xfsStart sparseInode).inode ≠ xfsDinodeFmtLocal := by
    show diFormat sparseInode ≠ _
    rw [inline]
    decide
  rw [xfsRead_eq notLocal inits (by decide) (by decide)] at reads
  obtain ⟨done, runs, rfl⟩ := Option.map_eq_some_iff.mp reads
  exact fails rounds done runs delivers.filepos delivers.stored

end GrubLegacy.Fsys
