import GrubLegacy.Base.BlockRuns
import GrubLegacy.Fsys.Ext2Read

/-!
# A round of reading through extents

`xfs_read` and `jfs_read` go through the extents of a file from the first on. What a round
does with an extent is the same in both; how they go on is not.
-/

namespace GrubLegacy.Fsys

open Base DiskIo
open GrubLegacy.Partition (Buffer)

/-- `isinxt` -/
def isinxt (key : Int) (offset len : Nat) : Prop := (offset : Int) ≤ key ∧ key < offset + len

instance (key : Int) (offset len : Nat) : Decidable (isinxt key offset len) :=
  inferInstanceAs (Decidable (_ ∧ _))

/-- `filepos` and the variables of the loop; `buf` has been advanced to a position. -/
structure ExtentTurn where
  filepos : Int
  buf : Buffer
  position : Nat
  len : Int
  endofprev : Nat

/-- The extent has the block at `filepos`, it lies behind `endofprev` and what is before it
is taken for a hole, or it is passed by. -/
inductive ExtentCase where
  | has
  | hole
  | passed
deriving DecidableEq

section

-- The sums are of 64 bits, without a sign in one driver and with one in the other.
variable (wrap : Int → Int) (bits : Nat) (endpos : Int)

def extentCase (turn : ExtentTurn) (xad : BlockRun) : ExtentCase :=
  if isinxt (wrap (turn.filepos / (2 ^ bits : Nat))) xad.offset xad.len then .has
  else if turn.endofprev < xad.offset then .hole
  else .passed

/-- `toread` in an extent. -/
def dataLen (turn : ExtentTurn) (xad : BlockRun) : Int :=
  let endofcur := wrap ((xad.offset + xad.len) * 2 ^ bits : Nat)
  if wrap endpos ≤ endofcur then turn.len else toInt32 (endofcur - turn.filepos)

/-- `toread` in a hole. -/
def holeLen (turn : ExtentTurn) (xad : BlockRun) : Int :=
  if wrap endpos ≤ wrap (xad.offset * 2 ^ bits : Nat) then turn.len
  else toInt32 ((xad.offset - turn.endofprev) * 2 ^ bits : Nat)

/-- The bytes of an extent have been read, if there was no error. -/
def dataDone (turn : ExtentTurn) (xad : BlockRun) (toread : Int) (bytes : Option (List UInt8)) :
    ExtentTurn where
  filepos := toInt32 (turn.filepos + toread)
  buf := store turn.buf turn.position (bytes.getD [])
  position := turn.position + toread.toNat
  len := turn.len - toread
  endofprev := xad.offset + xad.len

/-- Zeros have been stored; `endofprev` stays. -/
def holeDone (turn : ExtentTurn) (toread : Int) : ExtentTurn :=
  { turn with
    filepos := toInt32 (turn.filepos + toread)
    buf := store turn.buf turn.position (List.replicate toread.toNat 0)
    position := turn.position + toread.toNat
    len := turn.len - toread }

def passedBy (turn : ExtentTurn) (xad : BlockRun) : ExtentTurn :=
  { turn with endofprev := xad.offset + xad.len }

end

/-- What has been read: the bytes of the file from `start` to `place`, in the first part
of a buffer. -/
structure Progress (file : Nat → UInt8) (start stop : Nat) (buf : Buffer) (place : Nat)
    (turn : ExtentTurn) : Prop where
  filepos : turn.filepos = place
  len : turn.len = (stop - place : Nat)
  position : turn.position = place - start
  started : start ≤ place
  within : place ≤ stop
  stored : ∀ i < place - start, turn.buf i = file (start + i)
  kept : ∀ i, place - start ≤ i → turn.buf i = buf i

/-- What a read leaves: the state of the driver, `filepos`, the buffer and what is returned. -/
structure ReadOutcome (State : Type) where
  state : State
  filepos : Int
  buf : Buffer
  ret : Int

/-! ## The file -/

/-- The block of the disk that an extent has for a block of the file. -/
def blockIn (xad : BlockRun) (key : Nat) : Nat := xad.start + (key - xad.offset)

/-- A byte of the file of some extents: the holes between them read as zeros. -/
def extentsByte (bsize : Nat) (block : Nat → Buffer) (xads : List BlockRun) (position : Nat) :
    UInt8 :=
  match runOf xads (position / bsize) with
  | none => 0
  | some xad => block (blockIn xad (position / bsize)) (position % bsize)

/-- Exactly the bytes from `start` to `stop` are stored, they are the file's, and `filepos`
is where they end. -/
structure Delivers {State : Type} (file : Nat → UInt8) (start stop : Nat) (buf : Buffer)
    (outcome : ReadOutcome State) : Prop where
  filepos : outcome.filepos = stop
  stored : ∀ i < stop - start, outcome.buf i = file (start + i)
  kept : ∀ i, stop - start ≤ i → outcome.buf i = buf i

/-- No byte that an extent has in a range is zero. -/
def NoZeros (bsize : Nat) (file : Nat → UInt8) (xads : List BlockRun) (start stop : Nat) : Prop :=
  ∀ position, start ≤ position → position < stop → ∀ xad ∈ xads,
    xad.Has (position / bsize) → file position ≠ 0

/-- Between two extents before the position is a hole, and not just before it. -/
def HoleBefore (bsize : Nat) (xads : List BlockRun) (start : Nat) : Prop :=
  ∃ first run next behind, xads = first :: run ++ next :: behind ∧ Adjacent (first :: run) ∧
    stopOf first.stop run < next.offset ∧ next.stop * bsize ≤ start

/-- The range is in one hole, and no hole between two extents comes before it. An extent
comes before the first hole between two. -/
def InFirstHole (bsize : Nat) (xads : List BlockRun) (start stop : Nat) : Prop :=
  ∃ first run next behind, xads = first :: run ++ next :: behind ∧ Adjacent (first :: run) ∧
    stopOf first.stop run < next.offset ∧ stop ≤ next.offset * bsize ∧
    ∀ xad ∈ first :: run, stop ≤ xad.offset * bsize ∨ xad.stop * bsize ≤ start

/-- The turn before the loop. -/
def firstTurn (start stop : Nat) (buf : Buffer) (endofprev : Nat) : ExtentTurn where
  filepos := start
  buf
  position := 0
  len := (stop - start : Nat)
  endofprev

section

variable {bsize : Nat} {block : Nat → Buffer} {xads : List BlockRun} {xad : BlockRun}
  {start stop position : Nat}

/-- A byte of an extent is that of its block. -/
theorem extentsByte_has (inOrder : InOrder xads) (member : xad ∈ xads)
    (has : xad.Has (position / bsize)) :
    extentsByte bsize block xads position =
      block (blockIn xad (position / bsize)) (position % bsize) := by
  rw [extentsByte, runOf_mem inOrder member has]

/-- A byte in no extent is zero. -/
theorem extentsByte_hole (hole : ∀ xad ∈ xads, ¬ xad.Has (position / bsize)) :
    extentsByte bsize block xads position = 0 := by
  rw [extentsByte, runOf_hole hole]

/-- A position up to the end of an extent is in one of its blocks. -/
theorem has_of_inside (positive : 0 < bsize) {place : Nat} (has : xad.Has (place / bsize))
    (after : place ≤ position) (before : position < xad.stop * bsize) :
    xad.Has (position / bsize) :=
  ⟨Nat.le_trans has.1 (Nat.div_le_div_right after),
    (Nat.div_lt_iff_lt_mul positive).mpr before⟩

/-- A range that an extent does not overlap. -/
theorem misses_of_apart (positive : 0 < bsize) (low : start ≤ position) (upper : position < stop)
    (apart : stop ≤ xad.offset * bsize ∨ xad.stop * bsize ≤ start) :
    ¬ xad.Has (position / bsize) := by
  intro has
  have first : xad.offset * bsize ≤ position := (Nat.le_div_iff_mul_le positive).mp has.1
  have inside : position < xad.stop * bsize := (Nat.div_lt_iff_lt_mul positive).mp has.2
  omega

/-- Behind some extents and before the next one is a hole. -/
theorem hole_behind (positive : 0 < bsize) (inOrder : InOrder xads)
    {before run behind : List BlockRun} {first next : BlockRun}
    (all : xads = before ++ (first :: run ++ next :: behind))
    (low : stopOf first.stop run * bsize ≤ position) (upper : position < next.offset * bsize) :
    ∀ xad ∈ xads, ¬ xad.Has (position / bsize) := by
  rw [all, ← List.append_assoc] at inOrder ⊢
  apply inOrder.gap
  · intro earlier isEarlier
    have stops : earlier.stop ≤ stopOf first.stop run := by
      rcases List.mem_append.mp isEarlier with far | near
      · have apart := inOrder.append_left.apart far List.mem_cons_self
        have last := inOrder.append_left.append_right.stop_le List.mem_cons_self
        exact Nat.le_trans apart (Nat.le_trans (Nat.le_add_right _ _) last)
      · exact inOrder.append_left.append_right.stop_le near
    exact Nat.le_trans stops ((Nat.le_div_iff_mul_le positive).mpr low)
  · exact (Nat.div_lt_iff_lt_mul positive).mpr upper

/-- A range in a hole has no block of an extent. -/
theorem misses_hole (positive : 0 < bsize) {early behind : List BlockRun} {next : BlockRun}
    (inOrder : InOrder (early ++ next :: behind)) (beyond : stop ≤ next.offset * bsize)
    (apart : ∀ xad ∈ early, stop ≤ xad.offset * bsize ∨ xad.stop * bsize ≤ start) {position : Nat}
    (low : start ≤ position) (upper : position < stop) :
    ∀ xad ∈ early ++ next :: behind, ¬ xad.Has (position / bsize) := by
  intro xad member
  rcases List.mem_append.mp member with isEarly | late
  · exact misses_of_apart positive low upper (apart xad isEarly)
  · apply misses_of_apart positive low upper (Or.inl _)
    rcases List.mem_cons.mp late with rfl | later
    · exact beyond
    · have follows := inOrder.append_right.first_stop later
      have inside := inOrder.append_right.offset_lt_stop List.mem_cons_self
      exact Nat.le_trans beyond (Nat.mul_le_mul_right _
        (Nat.le_trans (Nat.le_of_lt inside) follows))

/-- The block an extent starts with has no other one. -/
theorem misses_start (positive : 0 < bsize) {next : BlockRun} {rest : List BlockRun}
    (inOrder : InOrder (next :: rest)) :
    ∀ xad ∈ rest, ¬ xad.Has (next.offset * bsize / bsize) := by
  intro xad member has
  rw [Nat.mul_div_cancel _ positive] at has
  have inside := inOrder.offset_lt_stop List.mem_cons_self
  have apart := inOrder.first_stop member
  exact absurd (Nat.lt_of_lt_of_le inside (Nat.le_trans apart has.1)) (Nat.lt_irrefl _)

/-- The start of an extent inside the part is not zero, if no byte is. -/
theorem nonzero_start (positive : 0 < bsize) (inOrder : InOrder xads) {file : Nat → UInt8}
    (noZeros : NoZeros bsize file xads start stop) (member : xad ∈ xads)
    (low : start ≤ xad.offset * bsize) (upper : xad.offset * bsize < stop) :
    file (xad.offset * bsize) ≠ 0 := by
  apply noZeros _ low upper xad member
  rw [Nat.mul_div_cancel _ positive]
  exact ⟨Nat.le_refl _, inOrder.offset_lt_stop member⟩

/-- Before the first turn nothing is delivered. -/
theorem firstTurn_progress {file : Nat → UInt8} {buf : Buffer} (ordered : start ≤ stop)
    (endofprev : Nat) :
    Progress file start stop buf start (firstTurn start stop buf endofprev) where
  filepos := rfl
  len := rfl
  position := (Nat.sub_self start).symm
  started := Nat.le_refl start
  within := ordered
  stored i inside := absurd inside (by omega)
  kept _ _ := rfl

/-- The end of a read below 2^31 is what it should be. -/
theorem endpos_eq (ordered : start ≤ stop) (high : stop < 2 ^ 31) :
    toInt32 ((start : Int) + (stop - start : Nat)) = stop := by
  rw [← Int.natCast_add, Nat.add_sub_cancel' ordered]
  apply toInt32_of_range
  · omega
  · omega

end

section

variable {wrap : Int → Int} {bits limit : Nat} {file : Nat → UInt8} {start stop place : Nat}
  {buf : Buffer} {turn : ExtentTurn} {xad : BlockRun}

/-- A byte behind the stores is as it was. -/
theorem store_behind {position : Nat} {bytes : List UInt8} {i : Nat}
    (behind : position + bytes.length ≤ i) : store buf position bytes i = buf i := by
  rw [store, if_neg (by omega), List.getD_eq_default]
  omega

/-- No bytes change nothing. -/
theorem store_nil (position : Nat) : store buf position [] = buf := by
  funext i
  by_cases before : i < position
  · exact store_before before
  · exact store_behind (Nat.not_lt.mp before)

/-- Bytes that are stored one part after the other. -/
theorem store_append (position : Nat) (first second : List UInt8) :
    store (store buf position first) (position + first.length) second =
      store buf position (first ++ second) := by
  funext i
  by_cases before : i < position
  · rw [store_before before, store_before (by omega), store_before before]
  obtain ⟨offset, rfl⟩ := Nat.exists_eq_add_of_le (Nat.not_lt.mp before)
  by_cases inFirst : offset < first.length
  · rw [store_before (by omega), store_at inFirst, store_at (by rw [List.length_append]; omega),
      List.getElem_append_left inFirst]
  obtain ⟨more, rfl⟩ := Nat.exists_eq_add_of_le (Nat.not_lt.mp inFirst)
  by_cases inSecond : more < second.length
  · have inBoth : first.length + more < (first ++ second).length := by
      rw [List.length_append]
      omega
    rw [← Nat.add_assoc, store_at inSecond, Nat.add_assoc, store_at inBoth,
      List.getElem_append_right (Nat.le_add_right _ _)]
    simp only [Nat.add_sub_cancel_left]
  · rw [store_behind (by omega), store_behind (by omega),
      store_behind (by rw [List.length_append]; omega)]

/-- Some bytes have been stored. -/
def ExtentTurn.advance (turn : ExtentTurn) (bytes : List UInt8) (endofprev : Nat) : ExtentTurn where
  filepos := toInt32 (turn.filepos + bytes.length)
  buf := store turn.buf turn.position bytes
  position := turn.position + bytes.length
  len := turn.len - bytes.length
  endofprev

/-- Bytes of the file are stored where the last ones ended. -/
theorem Progress.advance (progress : Progress file start stop buf place turn) {bytes : List UInt8}
    (endofprev : Nat) (fits : place + bytes.length ≤ stop) (high : stop < 2 ^ 31)
    (right : ∀ i, ∀ inside : i < bytes.length, bytes[i] = file (place + i)) :
    Progress file start stop buf (place + bytes.length) (turn.advance bytes endofprev) := by
  have started := progress.started
  have position := progress.position
  refine ⟨?_, ?_, ?_, Nat.le_trans started (Nat.le_add_right _ _), fits, ?_, ?_⟩
  · show toInt32 (turn.filepos + bytes.length) = _
    rw [progress.filepos, ← Int.natCast_add]
    apply toInt32_of_range
    · omega
    · omega
  · show turn.len - bytes.length = _
    rw [progress.len]
    omega
  · show turn.position + bytes.length = _
    rw [position]
    omega
  · intro i inside
    show store turn.buf turn.position bytes i = _
    by_cases earlier : i < turn.position
    · rw [store_before earlier]
      exact progress.stored i (position ▸ earlier)
    · obtain ⟨more, rfl⟩ := Nat.exists_eq_add_of_le (Nat.not_lt.mp earlier)
      have inBytes : more < bytes.length := by omega
      have sum : start + (turn.position + more) = place + more := by omega
      rw [store_at inBytes, right more inBytes, sum]
  · intro i behind
    show store turn.buf turn.position bytes i = _
    rw [store_behind (by omega)]
    exact progress.kept i (by omega)

/-! ## The cases -/

/-- Numbers up to `limit` fit. -/
structure Wraps (wrap : Int → Int) (limit : Nat) : Prop where
  fits : ∀ number : Nat, number ≤ limit → wrap number = number
  large : 2 ^ 31 ≤ limit

/-- The case of a turn is whether the extent has the place, lies behind it or before it. -/
theorem extentCase_eq (wraps : Wraps wrap limit) (filepos : turn.filepos = place)
    (small : place < 2 ^ 31) :
    extentCase wrap bits turn xad =
      if xad.Has (place / 2 ^ bits) then .has
      else if turn.endofprev < xad.offset then .hole else .passed := by
  have key : wrap (turn.filepos / (2 ^ bits : Nat)) = (place / 2 ^ bits : Nat) := by
    rw [filepos, ← Int.natCast_ediv]
    exact wraps.fits _ (Nat.le_trans (Nat.div_le_self _ _)
      (Nat.le_trans (Nat.le_of_lt small) wraps.large))
  have same : isinxt (place / 2 ^ bits : Nat) xad.offset xad.len ↔ xad.Has (place / 2 ^ bits) := by
    rw [isinxt, BlockRun.Has, BlockRun.stop]
    omega
  rw [extentCase, key]
  simp only [same]

/-- The read goes to the end of the extent, or to its own. -/
theorem dataLen_eq (wraps : Wraps wrap limit) (filepos : turn.filepos = place)
    (len : turn.len = (stop - place : Nat)) (has : xad.Has (place / 2 ^ bits))
    (bound : xad.stop * 2 ^ bits ≤ limit) (high : stop < 2 ^ 31) :
    dataLen wrap bits stop turn xad = (min stop (xad.stop * 2 ^ bits) - place : Nat) := by
  have inside : place < xad.stop * 2 ^ bits :=
    (Nat.div_lt_iff_lt_mul (Nat.two_pow_pos bits)).mp has.2
  have endpos := wraps.fits stop (Nat.le_trans (Nat.le_of_lt high) wraps.large)
  have endofcur := wraps.fits _ bound
  rw [BlockRun.stop] at inside endofcur ⊢
  rw [dataLen]
  simp only [endpos, endofcur, filepos, len]
  generalize (xad.offset + xad.len) * 2 ^ bits = last at inside
  split
  · next ends => rw [Nat.min_eq_left (by omega)]
  · next goesOn =>
      rw [Nat.min_eq_right (by omega), toInt32_of_range]
      · omega
      · omega
      · omega

/-- A hole that goes on to the end of the read. -/
theorem holeLen_all (wraps : Wraps wrap limit) (bound : xad.offset * 2 ^ bits ≤ limit)
    (high : stop < 2 ^ 31) (beyond : stop ≤ xad.offset * 2 ^ bits) :
    holeLen wrap bits stop turn xad = turn.len := by
  rw [holeLen, wraps.fits stop (Nat.le_trans (Nat.le_of_lt high) wraps.large), wraps.fits _ bound]
  exact if_pos (Int.ofNat_le.mpr beyond)

/-- A hole that ends before the read does is filled from `endofprev` on. -/
theorem holeLen_part (wraps : Wraps wrap limit) (bound : xad.offset * 2 ^ bits ≤ limit)
    (high : stop < 2 ^ 31) (before : xad.offset * 2 ^ bits < stop) :
    holeLen wrap bits stop turn xad = ((xad.offset - turn.endofprev) * 2 ^ bits : Nat) := by
  have endpos := wraps.fits stop (Nat.le_trans (Nat.le_of_lt high) wraps.large)
  rw [holeLen, endpos, wraps.fits _ bound, if_neg (by omega)]
  have part : (xad.offset - turn.endofprev) * 2 ^ bits ≤ xad.offset * 2 ^ bits :=
    Nat.mul_le_mul_right _ (Nat.sub_le _ _)
  generalize (xad.offset - turn.endofprev) * 2 ^ bits = filled at part
  apply toInt32_of_range
  · omega
  · omega

/-- A turn with data goes on behind the extent. -/
theorem dataDone_eq (bytes : List UInt8) :
    dataDone turn xad bytes.length (some bytes) = turn.advance bytes xad.stop := rfl

/-- A turn in a hole delivers zeroes and looks at the same extent again. -/
theorem holeDone_eq (count : Nat) :
    holeDone turn count = turn.advance (List.replicate count 0) turn.endofprev := by
  rw [holeDone, ExtentTurn.advance, Int.toNat_natCast, List.length_replicate]

/-- Zeros for a part of the file that is a hole. -/
theorem Progress.zeros (progress : Progress file start stop buf place turn) {place' : Nat}
    (goes : place ≤ place') (fits : place' ≤ stop) (high : stop < 2 ^ 31)
    (hole : ∀ position, place ≤ position → position < place' → file position = 0) :
    Progress file start stop buf place' (holeDone turn (place' - place : Nat)) := by
  have advanced := @Progress.advance _ _ _ _ _ _ progress (List.replicate (place' - place) 0)
    turn.endofprev (by rw [List.length_replicate]; omega) high (by
      intro i inside
      rw [List.length_replicate] at inside
      rw [List.getElem_replicate, hole (place + i) (by omega) (by omega)])
  rw [List.length_replicate, Nat.add_sub_cancel' goes, ← holeDone_eq] at advanced
  exact advanced

/-- Not everything has been read. -/
theorem Progress.more (progress : Progress file start stop buf place turn) (more : place < stop) :
    0 < turn.len := by
  rw [progress.len]
  omega

/-- An extent that is passed by. -/
theorem Progress.passed (progress : Progress file start stop buf place turn) :
    Progress file start stop buf place (passedBy turn xad) :=
  ⟨progress.filepos, progress.len, progress.position, progress.started, progress.within,
    progress.stored, progress.kept⟩

/-! ## A byte that is lost -/

/-- As many bytes as lie between `start` and `place` have been stored; there may be more
of them than were asked for. -/
structure Paced (start stop place : Nat) (turn : ExtentTurn) : Prop where
  filepos : turn.filepos = toInt32 place
  len : turn.len = (stop : Int) - place
  position : turn.position = place - start
  started : start ≤ place

/-- A byte has not been reached, or a zero has been stored for it. -/
def Lost (start place position : Nat) (turn : ExtentTurn) : Prop :=
  place ≤ position ∨ turn.buf (position - start) = 0

/-- A read that makes progress is at its place. -/
theorem Progress.paced (progress : Progress file start stop buf place turn) (high : stop < 2 ^ 31) :
    Paced start stop place turn := by
  have within := progress.within
  refine ⟨?_, ?_, progress.position, progress.started⟩
  · rw [progress.filepos, toInt32_of_range]
    · omega
    · omega
  · rw [progress.len]
    omega

/-- The place of a turn is where the file is. -/
theorem Paced.filepos_eq (paced : Paced start stop place turn) (within : place ≤ stop)
    (high : stop < 2 ^ 31) : turn.filepos = place := by
  rw [paced.filepos, toInt32_of_range]
  · omega
  · omega

/-- An extent that is passed does not move it. -/
theorem Paced.passed (paced : Paced start stop place turn) :
    Paced start stop place (passedBy turn xad) :=
  ⟨paced.filepos, paced.len, paced.position, paced.started⟩

/-- Bytes that are delivered move it that far. -/
theorem Paced.advance (paced : Paced start stop place turn) (within : place ≤ stop)
    (high : stop < 2 ^ 31) (bytes : List UInt8) (endofprev : Nat) :
    Paced start stop (place + bytes.length) (turn.advance bytes endofprev) := by
  have started := paced.started
  have position := paced.position
  refine ⟨?_, ?_, ?_, Nat.le_trans started (Nat.le_add_right _ _)⟩
  · show toInt32 (turn.filepos + bytes.length) = _
    rw [paced.filepos_eq within high, Int.natCast_add]
  · show turn.len - bytes.length = _
    rw [paced.len]
    omega
  · show turn.position + bytes.length = _
    omega

/-- A byte that is lost stays lost, unless its own block is read. -/
theorem Lost.advance {position : Nat} (lost : Lost start place position turn)
    (paced : Paced start stop place turn) (first : start ≤ position) (bytes : List UInt8)
    (endofprev : Nat) (zero : ∀ i, ∀ inside : i < bytes.length, place + i = position → bytes[i] = 0) :
    Lost start (place + bytes.length) position (turn.advance bytes endofprev) := by
  have started := paced.started
  have at_ := paced.position
  by_cases reached : place + bytes.length ≤ position
  · exact .inl reached
  · apply Or.inr
    show store turn.buf turn.position bytes (position - start) = 0
    rcases lost with ahead | stored
    · obtain ⟨more, rfl⟩ := Nat.exists_eq_add_of_le ahead
      have inside : more < bytes.length := by omega
      have index : place + more - start = turn.position + more := by omega
      rw [index, store_at inside]
      exact zero more inside rfl
    · by_cases earlier : position - start < turn.position
      · rw [store_before earlier]
        exact stored
      · have inside : position - place < bytes.length := by omega
        have index : position - start = turn.position + (position - place) := by omega
        rw [index, store_at inside]
        exact zero _ inside (by omega)

/-- The loop does not end well when the file has another byte there. -/
theorem Lost.undelivered {position : Nat} (lost : Lost start place position turn)
    (paced : Paced start stop place turn) (before : position < stop) (high : stop < 2 ^ 31)
    (nonzero : file position ≠ 0) (first : start ≤ position) (filepos : turn.filepos = stop)
    (stored : ∀ i < stop - start, turn.buf i = file (start + i)) : False := by
  rcases lost with ahead | zero
  · have place_eq := paced.filepos_eq (by omega) high
    omega
  · apply nonzero
    rw [← zero, stored _ (by omega), Nat.add_sub_cancel' first]

end

/-! ## Parts of extents -/

/-- The bytes of a part of an extent, whose blocks lie in a row from one of this number on. -/
def extentBytes (media : SectorMedia) (bsize first : Nat) (xad : BlockRun) (place size : Nat) :
    List UInt8 :=
  media.bytes (first * bsize + (place - xad.offset * bsize)) size

/-- The blocks of an extent lie in a row. -/
def LiesFrom (media : SectorMedia) (bsize first : Nat) (block : Nat → Buffer) (xad : BlockRun) :
    Prop :=
  ∀ key, xad.Has key → ∀ offset, block (blockIn xad key) offset =
    media.content ((first + (key - xad.offset)) * bsize + offset)

section

variable {media : SectorMedia} {bsize first place size start stop : Nat} {block : Nat → Buffer}
  {buf : Buffer} {xads : List BlockRun} {xad : BlockRun} {turn : ExtentTurn}

/-- An extent gives as many bytes as are taken of it. -/
theorem length_extentBytes : (extentBytes media bsize first xad place size).length = size :=
  bytes_length _ _

/-- A part of an extent lies in its blocks up to that of its last byte. -/
theorem part_within (positive : 0 < bsize) (has : xad.Has (place / bsize)) (some_ : 0 < size)
    (inside : place + size ≤ xad.stop * bsize) :
    place - xad.offset * bsize + size ≤
      ((place + size - 1) / bsize - xad.offset + 1) * bsize := by
  have last := (@has_of_inside _ _ (place + size - 1)) positive has (by omega) (by omega)
  have begins : xad.offset * bsize ≤ place := (Nat.le_div_iff_mul_le positive).mp has.1
  have split_ := Nat.div_add_mod (place + size - 1) bsize
  have remainder := Nat.mod_lt (place + size - 1) positive
  have before : xad.offset * bsize ≤ bsize * ((place + size - 1) / bsize) := by
    rw [Nat.mul_comm bsize]
    exact Nat.mul_le_mul_right _ last.1
  rw [Nat.add_mul, Nat.sub_mul, Nat.one_mul, Nat.mul_comm ((place + size - 1) / bsize)]
  omega

/-- The bytes of a part are the file's, -/
theorem extentBytes_file (positive : 0 < bsize) (inOrder : InOrder xads) (member : xad ∈ xads)
    (lies : LiesFrom media bsize first block xad) (has : xad.Has (place / bsize))
    (inside : place + size ≤ xad.stop * bsize) {i : Nat}
    (small : i < (extentBytes media bsize first xad place size).length) :
    (extentBytes media bsize first xad place size)[i] =
      extentsByte bsize block xads (place + i) := by
  rw [length_extentBytes] at small
  have begins : xad.offset * bsize ≤ place := (Nat.le_div_iff_mul_le positive).mp has.1
  have hasByte := has_of_inside positive has (Nat.le_add_right place i) (by omega)
  have split_ := Nat.div_add_mod (place + i) bsize
  have before : xad.offset * bsize ≤ bsize * ((place + i) / bsize) := by
    rw [Nat.mul_comm bsize]
    exact Nat.mul_le_mul_right _ hasByte.1
  rw [extentsByte_has inOrder member hasByte, lies _ hasByte]
  simp only [extentBytes, getElem_bytes]
  congr 1
  rw [Nat.add_mul, Nat.sub_mul, Nat.mul_comm ((place + i) / bsize)]
  omega

/-- and stored they are what was to be read, up to the end of the extent or of the range. -/
theorem Progress.extent (positive : 0 < bsize) (inOrder : InOrder xads) (member : xad ∈ xads)
    (lies : LiesFrom media bsize first block xad)
    (progress : Progress (extentsByte bsize block xads) start stop buf place turn)
    (more : place < stop) (high : stop < 2 ^ 31) (has : xad.Has (place / bsize)) :
    Progress (extentsByte bsize block xads) start stop buf (min stop (xad.stop * bsize))
      (turn.advance (extentBytes media bsize first xad place (min stop (xad.stop * bsize) - place))
        xad.stop) := by
  have inside : place < xad.stop * bsize := (Nat.div_lt_iff_lt_mul positive).mp has.2
  have stored := progress.advance xad.stop (by rw [length_extentBytes]; omega) high
    fun i small => @extentBytes_file media bsize first place
      (min stop (xad.stop * bsize) - place) block xads xad positive inOrder member lies has
      (by omega) i small
  rw [length_extentBytes, Nat.add_sub_cancel' (by omega)] at stored
  exact stored

end

end GrubLegacy.Fsys
