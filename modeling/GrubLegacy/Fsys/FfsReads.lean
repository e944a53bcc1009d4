import GrubLegacy.Fsys.MapWindow

/-!
# Reads of the fast file systems

A read gives the bytes of the file as long as each of its blocks can be mapped and none is a
hole, and it changes nothing of FSYS_BUF but the window.
-/

namespace GrubLegacy.Fsys.Ufs

open Base Stage2 DiskIo
open GrubLegacy.Partition (Buffer)

/-! ## One round -/

section

variable (media : PartitionMedia) (format : FsFormat) (super : FsSuper) (inode : Buffer)

/-- A block of the file that is on the disk. -/
def BlockOk (n : Nat) : Prop :=
  Reach media super (pointerOf media format super inode n)
    (blksize format super (format.diSize inode) n).toNat

/-- The bytes of the file from a position on. -/
def fileBytes (position count : Nat) : List UInt8 :=
  bytesAt (fileByte media format super inode) position count

end

section

variable {media : PartitionMedia} {format : FsFormat} {super : FsSuper} {inode : Buffer}
  {blockBits fragBits : Nat}

/-- A byte of a block that is there is that of its fragment. -/
theorem fileByte_eq (consistent : Consistent media format super blockBits fragBits) {n offset : Nat}
    (inside : offset < 2 ^ blockBits) (some_ : 0 < pointerOf media format super inode n) :
    fileByte media format super inode (n * 2 ^ blockBits + offset) =
      fragment media super (pointerOf media format super inode n) offset := by
  have block : (n * 2 ^ blockBits + offset) / 2 ^ blockBits = n := by
    rw [Nat.mul_comm, Nat.mul_add_div (Nat.two_pow_pos _), Nat.div_eq_of_lt inside, Nat.add_zero]
  rw [fileByte, consistent.bsize, Int.toNat_natCast, block, Nat.mul_add_mod_self_right,
    Nat.mod_eq_of_lt inside]
  exact if_neg (Int.ne_of_gt some_)

/-- The bytes that a round reads. -/
theorem round_size (lawful : format.Lawful)
    (consistent : Consistent media format super blockBits fragBits)
    {size position len : Nat} (small : size < 2 ^ 31)
    (left : 0 < len) (inFile : position + len ≤ size) :
    ∃ bytes count : Nat, blksize format super size (position / 2 ^ blockBits : Nat) = bytes ∧
      min ((bytes : Int) - (position % 2 ^ blockBits : Nat)) len = count ∧ 0 < count ∧
      count ≤ len ∧ position % 2 ^ blockBits + count ≤ bytes ∧ bytes ≤ 2 ^ blockBits := by
  have split_ := Nat.div_add_mod position (2 ^ blockBits)
  have less := Nat.mod_lt position (Nat.two_pow_pos blockBits)
  rw [Nat.mul_comm] at split_
  obtain ⟨bytes, isSize, most, least⟩ := consistent.blksize_bounds lawful small
    (show position / 2 ^ blockBits * 2 ^ blockBits < size by omega)
  have longer : position % 2 ^ blockBits < bytes := by
    refine Nat.lt_of_lt_of_le ?_ least
    rw [Nat.lt_min]
    omega
  refine ⟨bytes, min (bytes - position % 2 ^ blockBits) len, isSize, ?_, ?_, Nat.min_le_right _ _,
    ?_, most⟩
  · omega
  · rw [Nat.lt_min]
    omega
  · have atMost := Nat.min_le_left (bytes - position % 2 ^ blockBits) len
    omega

end

/-! ## The loop -/

section

variable (media : PartitionMedia) (format : FsFormat)

/-- What a block that is mapped leaves of the window. -/
def Windowed (before : FsState) (n : Nat) (after : FsState) : Prop :=
  n < ndaddr ∧ after = before ∨ ndaddr ≤ n ∧ after.mapblock = mapSector format before ∧
    (after.mapblockOffset, after.mapblockBsize) = windowOf format before (n - ndaddr : Nat)

/-- A condition under which the blocks up to the last one can be mapped in turn, and one on the
state that each of them leaves. -/
structure Mappable (last : Nat) (fit : FsState → Nat → Prop) (rests : FsState → Prop) : Prop where
  maps : ∀ state n, WindowSound media state → fit state n → MapOk media format state n
  goesOn : ∀ state n after n' filepos, fit state n → Kept state after →
    Windowed format state n after → n ≤ n' → n' ≤ n + 1 → n' ≤ last →
    fit { after with filepos } n'
  leaves_ : ∀ state n after filepos, fit state n → Kept state after →
    Windowed format state n after → rests { after with filepos }

/-- The bytes of the file are read, and nothing of FSYS_BUF but the window has changed. -/
structure LoopDone (rests : FsState → Prop) (state : FsState) (buf : Buffer) (ret position len : Nat)
    (after : FsState) (buf' : Buffer) : Prop where
  sound : WindowSound media after
  rests_ : rests after
  kept : ∀ i < mapbufAt, after.fsysBuf i = state.fsysBuf i
  filepos : after.filepos = (position + len : Nat)
  stored : buf' = store buf ret (fileBytes media format (format.superOf state.superblock)
    state.inode position len)

end

section

variable {media : PartitionMedia} {format : FsFormat} {blockBits fragBits : Nat}
  {state : FsState} {buf : Buffer}

/-- A round reads its bytes. -/
theorem readLoop_round (lawful : format.Lawful)
    (reads : ∀ sector byteOffset byteLen, media.fails sector byteOffset byteLen = none)
    (consistent : Consistent media format (format.superOf state.superblock) blockBits fragBits)
    (sound : WindowSound media state) {rounds ret position len : Nat}
    (here : state.filepos = position) (left : 0 < len) (small : format.diSize state.inode < 2 ^ 31)
    (inFile : position + len ≤ format.diSize state.inode)
    (ok : MapOk media format state (position / 2 ^ blockBits))
    (blockOk : BlockOk media format (format.superOf state.superblock) state.inode
      (position / 2 ^ blockBits)) :
    ∃ after count, readLoop media format (rounds + 1) state buf ret len =
        readLoop media format rounds { after with filepos := (position + count : Nat) }
          (store buf ret (fileBytes media format (format.superOf state.superblock) state.inode
            position count)) (ret + count : Nat) (len - count : Nat) ∧
      Kept state after ∧ WindowSound media after ∧
      Windowed format state (position / 2 ^ blockBits) after ∧ 0 < count ∧ count ≤ len ∧
      position % 2 ^ blockBits + count ≤ 2 ^ blockBits := by
  obtain ⟨after, maps, kept, sound', windowed⟩ := blockMap_pointer lawful reads sound ok
  obtain ⟨bytes, count, isSize, isCount, some_, few, within, most⟩ :=
    round_size lawful consistent small left inFile
  refine ⟨after, count, ?_, kept, sound', windowed, some_, few, Nat.le_trans within most⟩
  have block := consistent.bsize_le
  have less := Nat.mod_lt position (Nat.two_pow_pos blockBits)
  have pointer := blockOk.1
  have off : toInt32 (blkoff format (format.superOf state.superblock) position) =
      (position % 2 ^ blockBits : Nat) := by
    rw [consistent.blkoff_eq lawful (by omega)]
    exact toInt32_of_range (by omega) (by omega)
  have size : toInt32 (blksize format (format.superOf state.superblock) (format.diSize state.inode)
      (position / 2 ^ blockBits : Nat)) = bytes := by
    rw [isSize]
    exact toInt32_of_range (by omega) (by omega)
  rw [BlockOk, isSize, Int.toNat_natCast] at blockOk
  have read := devread_of_reach reads blockOk some_ within
  have stored : bytesAt (fragment media (format.superOf state.superblock)
      (pointerOf media format (format.superOf state.superblock) state.inode
        (position / 2 ^ blockBits))) (position % 2 ^ blockBits) count =
      fileBytes media format (format.superOf state.superblock) state.inode position count := by
    refine bytesAt_congr fun i inside => ?_
    have place : position + i =
        position / 2 ^ blockBits * 2 ^ blockBits + (position % 2 ^ blockBits + i) := by
      rw [← Nat.add_assoc, Nat.mul_comm, Nat.div_add_mod]
    rw [place, fileByte_eq consistent (Nat.lt_of_lt_of_le (Nat.add_lt_add_left inside _)
      (Nat.le_trans within most)) pointer]
  have behind : toInt32 (after.filepos + count) = (position + count : Nat) := by
    rw [kept.filepos, here, ← Int.natCast_add]
    exact toInt32_of_range (by omega) (by omega)
  have length : (len : Int) - count = (len - count : Nat) := by omega
  rw [readLoop, if_neg (by simp [Nat.ne_of_gt left, sound.clear])]
  dsimp only
  rw [here, off, consistent.lblkno_eq, maps]
  dsimp only
  rw [if_neg (Int.not_lt.mpr (Int.le_of_lt pointer)), size, isCount, read, stored,
    kept.errnum, sound.clear, PartitionMedia.readDone, if_pos rfl, partRead, behind, length,
    Int.toNat_natCast, ← Int.natCast_add]
  have clear : after.errnum = .none := kept.errnum.trans sound.clear
  rw [← clear]
  rfl

/-- Bytes of a file are taken in two pieces. -/
theorem fileBytes_append (super : FsSuper) (inode : Buffer) (position first second : Nat) :
    fileBytes media format super inode position first ++
        fileBytes media format super inode (position + first) second =
      fileBytes media format super inode position (first + second) :=
  (bytesAt_add _ _ _ _).symm

/-- As many are taken as are asked for. -/
theorem fileBytes_length (super : FsSuper) (inode : Buffer) (position count : Nat) :
    (fileBytes media format super inode position count).length = count := length_bytesAt _ _ _

/-- A loop with nothing to read. -/
theorem readLoop_nothing {rests : FsState → Prop} (sound : WindowSound media state)
    (atRest : rests state) {rounds ret position : Nat} (here : state.filepos = position) :
    readLoop media format rounds state buf ret 0 = { state, buf, ret := ret } ∧
      LoopDone media format rests state buf ret position 0 state buf := by
  refine ⟨?_, sound, atRest, fun _ _ => rfl, here, (store_nil _).symm⟩
  cases rounds with
  | zero => rw [readLoop, readEnd, if_pos sound.clear]
  | succ rounds => rw [readLoop, if_pos (.inl rfl), readEnd, if_pos sound.clear]

/-- The rounds that are left read the bytes that are left. -/
theorem readLoop_done (lawful : format.Lawful)
    (reads : ∀ sector byteOffset byteLen, media.fails sector byteOffset byteLen = none)
    (consistent : Consistent media format (format.superOf state.superblock) blockBits fragBits)
    {last : Nat} {fit : FsState → Nat → Prop} {rests : FsState → Prop}
    (mappable : Mappable media format last fit rests) (sound : WindowSound media state)
    (atRest : rests state) {rounds ret position len : Nat} (enough : len ≤ rounds)
    (here : state.filepos = position) (small : format.diSize state.inode < 2 ^ 31)
    (inFile : position + len ≤ format.diSize state.inode)
    (fits : 0 < len → fit state (position / 2 ^ blockBits))
    (final : ∀ i < len, (position + i) / 2 ^ blockBits ≤ last)
    (blocks : ∀ i < len, BlockOk media format (format.superOf state.superblock) state.inode
      ((position + i) / 2 ^ blockBits)) :
    ∃ after buf', readLoop media format rounds state buf ret len =
        { state := after, buf := buf', ret := (ret + len : Nat) } ∧
      LoopDone media format rests state buf ret position len after buf' := by
  induction rounds generalizing state buf ret position len with
  | zero =>
      obtain rfl := Nat.le_zero.mp enough
      exact ⟨state, buf, readLoop_nothing sound atRest here⟩
  | succ rounds inductionHypothesis =>
      rcases Nat.eq_zero_or_pos len with empty | left
      · subst empty
        exact ⟨state, buf, readLoop_nothing sound atRest here⟩
      obtain ⟨middle, count, round, kept, sound', windowed, some_, few, inBlock⟩ :=
        @readLoop_round media format blockBits fragBits state buf lawful reads consistent sound
          rounds ret position len here left small inFile
          (mappable.maps state _ sound (fits left)) (blocks 0 left)
      have super := kept.superblock
      have inode := kept.inode
      have positive := Nat.two_pow_pos blockBits
      -- The next place is in the same block or at the start of the next one.
      have next : position / 2 ^ blockBits ≤ (position + count) / 2 ^ blockBits ∧
          (position + count) / 2 ^ blockBits ≤ position / 2 ^ blockBits + 1 := by
        refine ⟨Nat.div_le_div_right (Nat.le_add_right _ _), ?_⟩
        have split_ := Nat.div_add_mod position (2 ^ blockBits)
        have bound : position + count ≤ 2 ^ blockBits * (position / 2 ^ blockBits + 1) := by
          rw [Nat.mul_succ]
          omega
        exact Nat.le_trans (Nat.div_le_div_right bound)
          (Nat.le_of_eq (Nat.mul_div_cancel_left _ positive))
      obtain ⟨after, buf', rest, done⟩ := @inductionHypothesis
        { middle with filepos := (position + count : Nat) }
        (store buf ret (fileBytes media format (format.superOf state.superblock) state.inode
          position count)) (by rw [← super] at consistent; exact consistent)
        ⟨sound'.clear, sound'.shows_⟩
        (mappable.leaves_ state _ middle _ (fits left) kept windowed) (ret + count)
          (position + count) (len - count) (by omega) rfl
        (by rw [← inode] at small; exact small)
        (by rw [← inode] at inFile; exact Nat.le_trans (by omega) inFile)
        (fun more => mappable.goesOn state _ middle _ _ (fits left) kept windowed next.1 next.2
          (by have := final count (by omega); exact this))
        (fun i inside => by
          have there := final (count + i) (by omega)
          rw [← Nat.add_assoc] at there
          exact there)
        (fun i inside => by
          have there := blocks (count + i) (by omega)
          rw [← Nat.add_assoc, ← super, ← inode] at there
          exact there)
      refine ⟨after, buf', ?_, done.sound, done.rests_, fun i before => ?_, ?_, ?_⟩
      · rw [round, rest]
        congr 2
        omega
      · rw [done.kept i before]
        exact kept.buffer i before
      · rw [done.filepos]
        congr 1
        omega
      · have length := @fileBytes_length media format
          (format.superOf state.superblock) state.inode position count
        have whole : count + (len - count) = len := Nat.add_sub_cancel' few
        have stored : buf' = store (store buf ret (fileBytes media format
            (format.superOf state.superblock) state.inode position count)) (ret + count)
            (fileBytes media format (format.superOf middle.superblock) middle.inode
              (position + count) (len - count)) := done.stored
        have joined := @store_append buf ret
          (fileBytes media format (format.superOf state.superblock) state.inode position count)
          (fileBytes media format (format.superOf state.superblock) state.inode (position + count)
            (len - count))
        rw [length, fileBytes_append, whole] at joined
        rw [super, inode, joined] at stored
        exact stored

end

end GrubLegacy.Fsys.Ufs
