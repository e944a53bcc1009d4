import GrubLegacy.Base.Runs
import GrubLegacy.Fsys.Ext2BlockMap

/-!
# Reading an ext2 file

`ext2fs_read` of `fsys_ext2fs.c` for an inode whose blocks are not mapped by extents, over
runs that open files and read from them.
-/

namespace GrubLegacy.Fsys

open Base Stage2 DiskIo GrubLegacy.Partition

/-! ## Reading -/

/-- The bytes are stored from a position of a buffer on. -/
def store (buf : Buffer) (position : Nat) (bytes : List UInt8) : Buffer := fun i =>
  if i < position then buf i else bytes.getD (i - position) (buf i)

section

variable (media : Ext2Media)

/-- `devread` in a state: an error is left in `errnum`, and after one the disk is not read. -/
def devread (state : Ext2State) (sector byteOffset byteLen : Int) (buf : Buffer)
    (position : Nat) : Ext2State × Buffer :=
  match PartitionMedia.readDone state.errnum (media.devread sector byteOffset byteLen) with
  | (errnum, none) => ({ state with errnum }, buf)
  | (errnum, some bytes) => ({ state with errnum }, store buf position bytes)

/-- The part of a block that is asked for; a hole reads as zeros. -/
def readPart (state : Ext2State) (map : Int) (offset size : Nat) (buf : Buffer)
    (position : Nat) : Ext2State × Buffer :=
  if map = 0 then (state, store buf position (List.replicate size 0))
  else
    devread media state (toInt32 (map * (media.blockSize / media.devBsize : Nat))) offset size
      buf position

/-- The loop of `ext2fs_read`; each round reads a byte at least. -/
def readLoop : (rounds : Nat) → Ext2State → Buffer → (ret len : Nat) → Ext2State × Buffer × Nat
  | 0, state, buf, ret, _ => (state, buf, ret)
  | rounds + 1, state, buf, ret, len =>
    if len = 0 then (state, buf, ret)
    else
      let logicalBlock := state.filepos >>> media.blockBits
      let offset := state.filepos &&& (media.blockSize - 1)
      let (state, map) := ext2fsBlockMap media state logicalBlock
      if map < 0 then (state, buf, ret)
      else
        let size := min (media.blockSize - offset) len
        let (state, buf) := readPart media state map offset size buf ret
        readLoop rounds { state with filepos := state.filepos + size } buf (ret + size)
          (len - size)

/-- `ext2fs_read` -/
def ext2fsRead (state : Ext2State) (buf : Buffer) (len : Nat) : Ext2State × Buffer × Nat :=
  let (state, buf, ret) := readLoop media len state buf 0 len
  (state, buf, if state.errnum = .none then ret else 0)

/-! ## Files -/

/-- A byte of the file. -/
def fileByte (iBlock : Nat → Nat) (position : Nat) : UInt8 :=
  let fsblock := blockOf media iBlock (position / media.blockSize)
  if fsblock = 0 then 0
  else media.block fsblock (position % media.blockSize)

/-- What is done to a mounted file system: opening a file, which leaves anything in the
two buffers, and reading from the one that is open. -/
inductive FileOp where
  | openFile (iBlock : Nat → Nat) (datablock1 datablock2 : Buffer)
  | read (position len : Nat) (buf : Buffer)

/-- The state after the inode of a file has been read. -/
def opened (iBlock : Nat → Nat) (datablock1 datablock2 : Buffer) : Ext2State :=
  { iBlock, mapblock1 := -1, mapblock2 := -1, datablock1, datablock2, filepos := 0, errnum := .none }

/-- One operation. -/
def FileOp.perform (state : Ext2State) : FileOp → Ext2State
  | .openFile iBlock datablock1 datablock2 =>
    { opened iBlock datablock1 datablock2 with errnum := state.errnum }
  | .read position len buf => (ext2fsRead media { state with filepos := position } buf len).1

/-- Each byte that is read has its place in the file, and the way to it is fit for
being followed. -/
def WithinFile (fit : (iBlock : Nat → Nat) → (logicalBlock : Nat) → Prop) (state : Ext2State) :
    FileOp → Prop
  | .openFile _ _ _ => True
  | .read position len _ => position + len < 2 ^ 31 ∧
    ∀ i < len, fit state.iBlock ((position + i) / media.blockSize)

/-- All of the bytes are returned, and they are the file's. -/
def ReadsFile (state : Ext2State) : FileOp → Prop
  | .openFile _ _ _ => True
  | .read position len buf => ∃ state' buf',
    ext2fsRead media { state with filepos := position } buf len = (state', buf', len) ∧
      ∀ i < len, buf' i = fileByte media state.iBlock (position + i)

/-- Every pointer on the way is zero, for a hole, or that of a block in reach. -/
def PathWellFormed : (fsblock : Nat) → List Nat → Prop
  | fsblock, [] => fsblock = 0 ∨ media.InReach fsblock
  | fsblock, i :: rest =>
    fsblock = 0 ∨ media.InReach fsblock ∧ PathWellFormed (pointerIn media fsblock i) rest

/-- The way to a block of a well-formed file. -/
def FileWellFormed (iBlock : Nat → Nat) (logicalBlock : Nat) : Prop :=
  PathWellFormed media (iBlock (pathTo media logicalBlock).1) (pathTo media logicalBlock).2

end

/-! ## Bytes -/

section Bytes

variable {media : Ext2Media} {buf : Buffer} {position : Nat}

/-- A byte before the stores is as it was, -/
theorem store_before {bytes : List UInt8} {i : Nat} (before : i < position) :
    store buf position bytes i = buf i := if_pos before

/-- and one among them is what was stored. -/
theorem store_at {bytes : List UInt8} {i : Nat} (inside : i < bytes.length) :
    store buf position bytes (position + i) = bytes[i] := by
  rw [store, if_neg (Nat.not_lt.mpr (Nat.le_add_right _ _)), Nat.add_sub_cancel_left,
    List.getD_eq_getElem _ _ inside]

/-- A block has a byte at least. -/
theorem blockSize_pos (media : Ext2Media) : 0 < media.blockSize := Nat.two_pow_pos _

/-- What is stored of a block: zeros for a hole. -/
def partBytes (media : Ext2Media) (fsblock offset size : Nat) : List UInt8 :=
  if fsblock = 0 then List.replicate size 0
  else media.bytes (fsblock * media.blockSize + offset) size

/-- As many bytes of the partition are taken as are asked for. -/
theorem partBytes_length (fsblock offset size : Nat) :
    (partBytes media fsblock offset size).length = size := by
  rw [partBytes]
  split
  · exact List.length_replicate
  · exact DiskIo.bytes_length _ _

/-- The bytes of a part of a block are the file's. -/
theorem partBytes_fileByte {iBlock : Nat → Nat} {size i : Nat} (inside : i < size)
    (inBlock : position % media.blockSize + size ≤ media.blockSize)
    (bound : i < (partBytes media (blockOf media iBlock (position / media.blockSize))
      (position % media.blockSize) size).length) :
    (partBytes media (blockOf media iBlock (position / media.blockSize))
      (position % media.blockSize) size)[i] = fileByte media iBlock (position + i) := by
  have within : position % media.blockSize + i < media.blockSize :=
    Nat.lt_of_lt_of_le (Nat.add_lt_add_left inside _) inBlock
  have split_ := Nat.div_add_mod position media.blockSize
  have sameBlock : (position + i) / media.blockSize = position / media.blockSize := by
    rw [← split_, Nat.add_assoc, Nat.mul_add_div (blockSize_pos media),
      Nat.div_eq_of_lt within, split_, Nat.add_zero]
  have sameOffset : (position + i) % media.blockSize = position % media.blockSize + i := by
    conv_lhs => rw [← split_, Nat.add_assoc, Nat.mul_add_mod, Nat.mod_eq_of_lt within]
  rw [fileByte, sameBlock, sameOffset]
  simp only [partBytes]
  split
  · exact List.getElem_replicate _
  · rw [Ext2Media.block, ← Nat.add_assoc]
    simp only [getElem_bytes]

end Bytes

/-! ## One read -/

section Reads

variable {media : Ext2Media} {state : Ext2State} {buf : Buffer}

/-- Pointers that can be followed end in a hole or in a block in reach. -/
theorem pathInReach_last {fsblock : Nat} {path : List Nat}
    (inReach : PathInReach media fsblock path) :
    path.foldl (follow media) fsblock = 0 ∨ media.InReach (path.foldl (follow media) fsblock) := by
  induction path generalizing fsblock with
  | nil => exact inReach
  | cons i path ih =>
      obtain ⟨present, _, onward⟩ := inReach
      rw [List.foldl_cons, follow_of_pos present]
      exact ih onward

/-- A part of a block in reach, or of a hole. -/
theorem readPart_stores (whole : media.sectorBits ≤ media.blockBits)
    (noError : media.NoDiskError) (clear : state.errnum = .none)
    {fsblock offset size position : Nat} (last : fsblock = 0 ∨ media.InReach fsblock)
    (some_ : 0 < size) (inside : offset + size ≤ media.blockSize) :
    readPart media state fsblock offset size buf position =
      (state, store buf position (partBytes media fsblock offset size)) := by
  rw [readPart, partBytes]
  by_cases hole : fsblock = 0
  · subst hole
    rfl
  · have inReach := last.resolve_left hole
    rw [if_neg (mt Int.ofNat_eq_zero.mp hole), if_neg hole, devread,
      devread_inReach whole noError inReach some_ inside]
    dsimp only [PartitionMedia.readDone]
    rw [if_pos clear]

/-- The block of a position is a quotient, -/
theorem filepos_block : state.filepos >>> media.blockBits = state.filepos / media.blockSize :=
  Nat.shiftRight_eq_div_pow _ _

/-- and its offset a remainder. -/
theorem filepos_offset :
    state.filepos &&& (media.blockSize - 1) = state.filepos % media.blockSize :=
  Nat.and_two_pow_sub_one_eq_mod _ _

/-- The bytes a round reads. -/
def roundSize (media : Ext2Media) (state : Ext2State) (len : Nat) : Nat :=
  min (media.blockSize - state.filepos % media.blockSize) len

/-- A round reads a byte at least, -/
theorem roundSize_pos {len : Nat} (left : 0 < len) : 0 < roundSize media state len := by
  have offsetLt : state.filepos % media.blockSize < media.blockSize :=
    Nat.mod_lt _ (blockSize_pos media)
  exact Nat.lt_min.mpr ⟨Nat.sub_pos_of_lt offsetLt, left⟩

/-- and stays inside the block. -/
theorem roundSize_inside (len : Nat) :
    state.filepos % media.blockSize + roundSize media state len ≤ media.blockSize := by
  have offsetLt : state.filepos % media.blockSize < media.blockSize :=
    Nat.mod_lt _ (blockSize_pos media)
  have atMost : roundSize media state len ≤ media.blockSize - state.filepos % media.blockSize :=
    Nat.min_le_left _ _
  omega

/-- One round stores its bytes and goes on behind them. -/
theorem readLoop_round (whole : media.sectorBits ≤ media.blockBits)
    (noError : media.NoDiskError) {rounds ret len : Nat} (left : 0 < len)
    (clear : state.errnum = .none) (sound : CacheSound media state)
    (small : state.filepos < 2 ^ 31)
    (here : Followable media state.iBlock (state.filepos / media.blockSize)) :
    ∃ after, readLoop media (rounds + 1) state buf ret len =
        readLoop media rounds
          { after with filepos := state.filepos + roundSize media state len }
          (store buf ret (partBytes media
            (blockOf media state.iBlock (state.filepos / media.blockSize))
            (state.filepos % media.blockSize) (roundSize media state len)))
          (ret + roundSize media state len) (len - roundSize media state len) ∧
      CacheSound media after ∧ SameFile state after := by
  have mapped := ext2fsBlockMap_mapped whole noError clear sound
    (Nat.lt_of_le_of_lt (Nat.div_mul_le_self _ _) small) here
  have last := pathInReach_last here
  rw [← blockOf] at last
  rw [readLoop, if_neg (Nat.ne_of_gt left)]
  dsimp only
  rw [filepos_block, filepos_offset, ← roundSize]
  generalize ext2fsBlockMap media state (state.filepos / media.blockSize) = result at mapped ⊢
  obtain ⟨leads, sound', same⟩ := mapped
  rename_i after map
  subst leads
  have stillClear : after.errnum = .none := same.2.2.trans clear
  dsimp only
  rw [if_neg (Int.not_lt.mpr (Int.natCast_nonneg _)),
    readPart_stores whole noError stillClear last (roundSize_pos left) (roundSize_inside len),
    same.2.1]
  exact ⟨after, rfl, sound', same⟩

/-- What the loop leaves behind. -/
structure LoopDone (media : Ext2Media) (before : Ext2State) (buf : Buffer) (ret len : Nat)
    (after : Ext2State) (buf' : Buffer) : Prop where
  sound : CacheSound media after
  clear : after.errnum = .none
  kept : ∀ i < ret, buf' i = buf i
  filled : ∀ i < len, buf' (ret + i) = fileByte media before.iBlock (before.filepos + i)

/-- The rounds that are left read the bytes that are left. -/
theorem readLoop_done (whole : media.sectorBits ≤ media.blockBits)
    (noError : media.NoDiskError) {rounds ret len : Nat} (enough : len ≤ rounds)
    (clear : state.errnum = .none) (sound : CacheSound media state)
    (small : state.filepos + len < 2 ^ 31)
    (fit : ∀ i < len, Followable media state.iBlock ((state.filepos + i) / media.blockSize)) :
    ∃ after buf', readLoop media rounds state buf ret len = (after, buf', ret + len) ∧
      LoopDone media state buf ret len after buf' := by
  induction rounds generalizing state buf ret len with
  | zero =>
      obtain rfl : len = 0 := Nat.le_zero.mp enough
      exact ⟨state, buf, rfl, sound, clear, fun _ _ => rfl, fun _ none_ => absurd none_ (by omega)⟩
  | succ rounds ih =>
      rcases Nat.eq_zero_or_pos len with rfl | left
      · rw [readLoop, if_pos rfl]
        exact ⟨state, buf, rfl, sound, clear, fun _ _ => rfl,
          fun _ none_ => absurd none_ (by omega)⟩
      obtain ⟨middle, round, sound', same⟩ :=
        @readLoop_round media state buf whole noError rounds ret len left clear sound (by omega)
          (fit 0 left)
      rw [round]
      have inside := @roundSize_inside media state len
      have some_ := @roundSize_pos media state len left
      have atMost : roundSize media state len ≤ len := Nat.min_le_right _ _
      generalize roundSize media state len = size at inside some_ atMost ⊢
      obtain ⟨after, buf', reads, done⟩ := @ih
        { middle with filepos := state.filepos + size }
        (store buf ret (partBytes media
          (blockOf media state.iBlock (state.filepos / media.blockSize))
          (state.filepos % media.blockSize) size)) (ret + size) (len - size)
        (by omega) (same.2.2.trans clear) ⟨sound'.first, sound'.second⟩ (by dsimp only; omega)
        (fun i inLen => by
          have there := fit (size + i) (by omega)
          rw [← Nat.add_assoc] at there
          rw [same.1]
          exact there)
      refine ⟨after, buf', ?_, done.sound, done.clear, ?_, ?_⟩
      · rw [reads]
        congr 2
        omega
      · intro i before
        rw [done.kept i (by omega), store_before before]
      · intro i inLen
        rcases Nat.lt_or_ge i size with inRound | later
        · have bound := Nat.lt_of_lt_of_eq inRound (@partBytes_length media
            (blockOf media state.iBlock (state.filepos / media.blockSize))
            (state.filepos % media.blockSize) size).symm
          rw [done.kept _ (by omega), store_at bound]
          exact partBytes_fileByte inRound inside bound
        · have filled := done.filled (i - size) (by omega)
          rw [Nat.add_assoc, Nat.add_sub_cancel' later] at filled
          rw [filled, same.1]
          dsimp only
          rw [Nat.add_assoc, Nat.add_sub_cancel' later]

/-- A read within the file, whatever was read before it. -/
theorem ext2fsRead_file (whole : media.sectorBits ≤ media.blockBits)
    (noError : media.NoDiskError) (clear : state.errnum = .none) (sound : CacheSound media state)
    {position len : Nat} (small : position + len < 2 ^ 31)
    (fit : ∀ i < len, Followable media state.iBlock ((position + i) / media.blockSize)) :
    ∃ after buf', ext2fsRead media { state with filepos := position } buf len =
        (after, buf', len) ∧
      LoopDone media { state with filepos := position } buf 0 len after buf' := by
  obtain ⟨after, buf', reads, done⟩ := @readLoop_done media { state with filepos := position } buf
    whole noError len 0 len (Nat.le_refl len) clear ⟨sound.first, sound.second⟩ small fit
  refine ⟨after, buf', ?_, done⟩
  rw [ext2fsRead, reads]
  dsimp only
  rw [if_pos done.clear, Nat.zero_add]

end Reads

/-! ## Runs -/

section Runs

variable {media : Ext2Media}

/-- What every operation keeps: there was no error, and the caches are sound. -/
structure Readable (media : Ext2Media) (state : Ext2State) : Prop where
  clear : state.errnum = .none
  sound : CacheSound media state

/-- The bytes a read leaves in the buffer. -/
theorem readsFile_byte {state : Ext2State} {position len i : Nat} {buf : Buffer}
    (reads : ReadsFile media state (.read position len buf)) (inLen : i < len) :
    (ext2fsRead media { state with filepos := position } buf len).2.1 i =
      fileByte media state.iBlock (position + i) := by
  obtain ⟨after, buf', returned, same⟩ := reads
  rw [returned]
  exact same i inLen

/-- With nothing cached, the caches are sound. -/
theorem readable_opened (iBlock : Nat → Nat) (datablock1 datablock2 : Buffer) :
    Readable media (opened iBlock datablock1 datablock2) := by
  refine ⟨rfl, fun level low _ known => ?_, fun known => absurd rfl known⟩
  have known : (-1 : Int) = level := known
  omega

/-- An operation leaves the file readable. -/
theorem readable_perform (whole : media.sectorBits ≤ media.blockBits)
    (noError : media.NoDiskError) (state : Ext2State) (op : FileOp)
    (readable : Readable media state) (within : WithinFile media (Followable media) state op) :
    Readable media (op.perform media state) := by
  cases op with
  | openFile iBlock datablock1 datablock2 =>
      have opened_ := @readable_opened media iBlock datablock1 datablock2
      exact ⟨readable.clear, opened_.sound.first, opened_.sound.second⟩
  | read position len buf =>
      obtain ⟨after, buf', reads, done⟩ :=
        @ext2fsRead_file media state buf whole noError readable.clear readable.sound position len
          within.1 within.2
      rw [FileOp.perform, reads]
      exact ⟨done.clear, done.sound⟩

/-- A readable file is read as it is. -/
theorem readable_readsFile (whole : media.sectorBits ≤ media.blockBits)
    (noError : media.NoDiskError) (state : Ext2State) (op : FileOp)
    (readable : Readable media state) (within : WithinFile media (Followable media) state op) :
    ReadsFile media state op := by
  cases op with
  | openFile iBlock datablock1 datablock2 => trivial
  | read position len buf =>
      obtain ⟨after, buf', reads, done⟩ :=
        @ext2fsRead_file media state buf whole noError readable.clear readable.sound position len
          within.1 within.2
      refine ⟨after, buf', reads, fun i inLen => ?_⟩
      have filled := done.filled i inLen
      rw [Nat.zero_add] at filled
      exact filled

/-- Reads return the bytes of the file, whatever was read before, as long as no zero stands
for an index block and blocks are whole sectors. -/
theorem ext2Reads_followable (whole : media.sectorBits ≤ media.blockBits)
    (noError : media.NoDiskError) (iBlock : Nat → Nat) (datablock1 datablock2 : Buffer)
    (ops : List FileOp)
    (within : Along (FileOp.perform media) (WithinFile media (Followable media))
      (opened iBlock datablock1 datablock2) ops) :
    Along (FileOp.perform media) (ReadsFile media) (opened iBlock datablock1 datablock2) ops :=
  Along.of_invariant (Readable media) (readable_perform whole noError)
    (readable_readsFile whole noError)
    (readable_opened iBlock datablock1 datablock2) within

end Runs

/-! ## A small partition -/

/-- Four blocks behind the first track of a disk. Block 2 is an index block that points to
block 3; the first block, read as one, points to block 1. -/
def smallPartition : Ext2Media where
  content position :=
    if position = 0 then 1 else if position = 2048 then 3
    else if 1024 ≤ position ∧ position < 2048 then 0x7F
    else if 3072 ≤ position then 0x55 else 0
  partLength := 8
  sectorBits := 9
  fails := refusesFarSectors 63 9
  partStart := 63
  blockBits := 10
  sectors := smallestSectors
  blocks := smallestBlocks

instance decidablePathInReach (media : Ext2Media) :
    ∀ (fsblock : Nat) (path : List Nat), Decidable (PathInReach media fsblock path)
  | _, [] => inferInstanceAs (Decidable (_ ∨ _))
  | fsblock, i :: rest =>
    have := decidablePathInReach media (pointerIn media fsblock i) rest
    inferInstanceAs (Decidable (_ ∧ _ ∧ _))

instance (media : Ext2Media) (iBlock : Nat → Nat) (logicalBlock : Nat) :
    Decidable (Followable media iBlock logicalBlock) :=
  decidablePathInReach media _ _

/-- A file that starts with twelve holes. -/
def lateFile (i : Nat) : Nat := if i = 12 then 2 else 0

/-- The files of the small partition are read as they are. -/
theorem ext2Reads_lateFile :
    Along (FileOp.perform smallPartition) (ReadsFile smallPartition)
      (opened lateFile (fun _ => 0) (fun _ => 0))
      [.read 12287 2 (fun _ => 0xFF), .openFile (fun _ => 1) (fun _ => 9) (fun _ => 9),
        .read 100 1 (fun _ => 0xFF)] := by
  apply @ext2Reads_followable smallPartition (by decide) (noDiskError_of_refuses rfl)
  refine ⟨⟨by decide, ?_⟩, trivial, ⟨by decide, ?_⟩, trivial⟩
  · decide +kernel
  · decide +kernel

/-- A path of no levels is well formed. -/
theorem pathWellFormed_zero (media : Ext2Media) (path : List Nat) :
    PathWellFormed media 0 path := by
  cases path with
  | nil => exact Or.inl rfl
  | cons i rest => exact Or.inl rfl

/-- A file of holes only, with none for an index block. -/
theorem ext2Reads_not_wellFormed :
    ¬ ∀ (media : Ext2Media) (iBlock : Nat → Nat) (datablock1 datablock2 : Buffer)
      (ops : List FileOp), media.NoDiskError →
      Along (FileOp.perform media) (WithinFile media (FileWellFormed media))
        (opened iBlock datablock1 datablock2) ops →
      Along (FileOp.perform media) (ReadsFile media)
        (opened iBlock datablock1 datablock2) ops := by
  intro claimed
  have wellFormed : ∀ i < 1, FileWellFormed smallPartition (fun _ => 0)
      ((12288 + i) / smallPartition.blockSize) := fun i _ => pathWellFormed_zero _ _
  have reads := claimed smallPartition (fun _ => 0) (fun _ => 0) (fun _ => 0)
    [.read 12288 1 (fun _ => 0xFF)] (noDiskError_of_refuses rfl) ⟨⟨by decide, wellFormed⟩, trivial⟩
  have right := readsFile_byte reads.1 Nat.one_pos
  exact absurd right (by decide +kernel)

end GrubLegacy.Fsys
