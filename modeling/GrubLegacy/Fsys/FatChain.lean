import GrubLegacy.Fsys.FatDir

/-!
# Directories as they are on the disk

The chain of clusters that the FAT on the disk gives, and the entries of a directory in it.
`fat_read` reads these entries one after the other, through the window of the FAT it keeps and
from wherever the cursor is.
-/

namespace GrubLegacy.Fsys.Fat

open Base Stage2 DiskIo
open GrubLegacy.Partition (Buffer)

/-! ## The chain -/

section

variable (media : PartitionMedia) (super : FatSuper)

/-- The bytes of the partition from a position on. -/
def diskAt (position : Int) : Buffer := fun i => media.content (position.toNat + i)

/-- The entry that the FAT has for a cluster. -/
def diskNext (cluster : Int) : Int :=
  let fatEntry := cluster * super.fatSize
  let word := (diskAt media (super.fatOffset * media.sectorSize + fatEntry / 2)).word32 0
  if super.fatSize = 3 then ((if fatEntry % 2 = 1 then word / 16 else word) % 0x1000 : Nat)
  else if super.fatSize = 4 then (word % 0x10000 : Nat)
  else toInt32 word

/-- The cluster behind a cluster, unless the chain ends there or is broken. -/
def diskLink (cluster : Int) : Option Int :=
  let next := diskNext media super cluster
  if super.clustEofMarker ≤ next ∨ next < 2 ∨ super.numClust ≤ next then none else some next

/-- The clusters of the chain with a first cluster. -/
def chainAt (first : Int) : Nat → Option Int := walk (diskLink media super) (some first)

/-- The entry of a cluster is so far from 2^31, in half bytes, that nothing behind it overflows,
and a window that starts with its sector has all of it. -/
def InWindow (cluster : Int) : Prop :=
  0 ≤ cluster ∧ cluster * super.fatSize + 4 * fatCacheSize < 2 ^ 31 ∧
    cluster * super.fatSize % (2 * media.sectorSize) + super.fatSize ≤ 2 * fatCacheSize

instance (cluster : Int) : Decidable (InWindow media super cluster) :=
  inferInstanceAs (Decidable (_ ∧ _ ∧ _))

/-- An entry of a directory. That with a negative first cluster is the root of FAT12 and FAT16. -/
def diskEntry (first : Int) (k : Nat) : Option Buffer :=
  if first < 0 then
    if 32 * k + 32 ≤ super.rootMax then
      some (store (fun _ => 0) 0
        (media.bytes (super.rootOffset * media.sectorSize + 32 * k).toNat 32))
    else none
  else
    (chainAt media super first (32 * k / 2 ^ super.clustsizeBits)).map fun cluster =>
      store (fun _ => 0) 0
        (media.bytes (clusterSector super cluster * media.sectorSize +
          (32 * k % 2 ^ super.clustsizeBits : Nat)).toNat 32)

/-! ## What the cursor is at -/

/-- The window shows the FAT on the disk. -/
structure WindowShows (state : FatState) : Prop where
  nonneg : 0 ≤ state.cachedFat
  upper : state.cachedFat < 2 ^ 31
  even : state.cachedFat % 2 = 0
  position : 0 ≤ super.fatOffset * media.sectorSize + state.cachedFat / 2
  bytes : ∀ i < 4096, state.fatBuf i =
    diskAt media (super.fatOffset * media.sectorSize + state.cachedFat / 2) i

/-- Nothing was read since the mount, or the window shows the FAT. -/
def WindowSound (state : FatState) : Prop :=
  state.cachedFat = -2 * fatCacheSize ∨ WindowShows media super state

/-- A file is read, without an error so far. -/
structure Reading (first : Int) (state : FatState) : Prop where
  clear : state.errnum = .none
  file : state.fileCluster = first
  window : WindowSound media super state

/-- The cursor is at a cluster of its chain. -/
structure AtCluster (first : Int) (n : Nat) (state : FatState) : Prop extends
    Reading media super first state where
  num : state.currentClusterNum = n
  chain : chainAt media super first n = some state.currentCluster

/-- The next entry to be read is this one, wherever the cursor is. -/
structure AtEntry (first : Int) (k : Nat) (state : FatState) : Prop extends
    Reading media super first state where
  place : state.filepos = toInt32 (32 * k)
  cursor : state.currentClusterNum = maxint ∨ ∃ n, AtCluster media super first n state

/-- What `fat_mount` makes sure of, with sectors of 512 bytes at least. -/
structure SaneSuper : Prop where
  sectors : 9 ≤ media.sectorBits
  fatSize : super.fatSize = 3 ∨ super.fatSize = 4 ∨ super.fatSize = 8
  offset : toInt32 super.fatOffset = super.fatOffset
  clusters : 5 ≤ super.clustsizeBits

end

section

variable {media : PartitionMedia} {super : FatSuper}

/-- A super block that is mounted is sane. -/
theorem Mounts.sane (mounts : Mounts media super) (sectors : 9 ≤ media.sectorBits) :
    SaneSuper media super := by
  obtain ⟨bpb, firstFat, -, isSuper, -, isSane, -, -⟩ := mounts.accepts
  simp only [bpbSane, Bool.and_eq_true, decide_eq_true_eq, ← isSuper] at isSane
  have sectsize : super.sectsizeBits = media.sectorBits :=
    Nat.pow_right_injective (Nat.le_refl 2)
      (isSane.1.1.1.1.2.symm.trans (isSane.1.1.1.2.trans rfl))
  have clusters : super.sectsizeBits ≤ super.clustsizeBits := by
    rw [isSuper]
    exact Nat.le_add_right _ _
  refine ⟨sectors, ?_, ?_, by omega⟩
  · rw [isSuper, fatSuperOf]
    dsimp only
    split
    · exact .inr (.inr rfl)
    · split
      · exact .inr (.inl rfl)
      · exact .inl rfl
  · rw [isSuper, fatSuperOf]
    dsimp only
    split
    · exact toInt32_toInt32 _
    · have small : reservedSects bpb < 2 ^ 16 := bpb.word16_lt _
      exact toInt32_of_range (by omega) (by omega)

/-! ## One link -/

/-- What a window shows depends on the window only. -/
theorem WindowShows.of_same {state state' : FatState} (shows_ : WindowShows media super state)
    (cachedFat : state'.cachedFat = state.cachedFat) (fatBuf : state'.fatBuf = state.fatBuf) :
    WindowShows media super state' := by
  obtain ⟨nonneg, upper, even, position, bytes⟩ := shows_
  rw [← cachedFat] at nonneg upper even position bytes
  rw [← fatBuf] at bytes
  exact ⟨nonneg, upper, even, position, bytes⟩

/-- The window stays sound while it is not touched. -/
theorem WindowSound.of_same {state state' : FatState} (sound : WindowSound media super state)
    (cachedFat : state'.cachedFat = state.cachedFat) (fatBuf : state'.fatBuf = state.fatBuf) :
    WindowSound media super state' := by
  rcases sound with fresh | shows_
  · exact .inl (cachedFat.trans fresh)
  · exact .inr (shows_.of_same cachedFat fatBuf)

/-- The window with the entry of a cluster. -/
structure Loaded (media : PartitionMedia) (super : FatSuper) (fatEntry : Int)
    (state : FatState) : Prop extends WindowShows media super state where
  low : 0 ≤ fatEntry - state.cachedFat
  high : fatEntry - state.cachedFat + super.fatSize ≤ 2 * fatCacheSize

/-- A byte of an entry in the window. -/
theorem Loaded.byte {fatEntry : Int} {state : FatState} (loaded : Loaded media super fatEntry state)
    {i : Nat} (inside : (fatEntry - state.cachedFat).toNat / 2 + i < 4096) :
    state.fatBuf ((fatEntry - state.cachedFat).toNat / 2 + i) =
      diskAt media (super.fatOffset * media.sectorSize + fatEntry / 2) i := by
  have even := loaded.even
  have position := loaded.position
  have low := loaded.low
  rw [loaded.bytes _ inside, diskAt, diskAt, ← Nat.add_assoc]
  congr 2
  omega

/-- A word of the window is that of the table on the disk. -/
theorem Loaded.word16 {fatEntry : Int} {state : FatState}
    (loaded : Loaded media super fatEntry state) {i : Nat}
    (inside : (fatEntry - state.cachedFat).toNat / 2 + i + 1 < 4096) :
    state.fatBuf.word16 ((fatEntry - state.cachedFat).toNat / 2 + i) =
      (diskAt media (super.fatOffset * media.sectorSize + fatEntry / 2)).word16 i := by
  rw [Area.word16, Area.word16, Area.byte, Area.byte, Area.byte, Area.byte,
    loaded.byte (by omega), Nat.add_assoc, loaded.byte (by omega)]

/-- The entry in the window is that on the disk. -/
theorem Loaded.nextCluster (sane : SaneSuper media super) {cluster : Int} {state : FatState}
    (loaded : Loaded media super (cluster * super.fatSize) state) :
    nextCluster super state (cluster * super.fatSize) = diskNext media super cluster := by
  have low := loaded.low
  have high := loaded.high
  have even := loaded.even
  have size : fatCacheSize = 4096 := rfl
  have parity : (cluster * super.fatSize - state.cachedFat).toNat % 2 = 1 ↔
      cluster * super.fatSize % 2 = 1 := by omega
  have inRange : toInt32 (cluster * super.fatSize - state.cachedFat) =
      cluster * super.fatSize - state.cachedFat := by
    apply toInt32_of_range
    · omega
    · have fatSize := sane.fatSize
      omega
  rw [Fat.nextCluster, diskNext, inRange]
  have first : (cluster * super.fatSize - state.cachedFat).toNat / 2 + 0 + 1 < 4096 := by
    have fatSize := sane.fatSize
    omega
  have lowWord := @Loaded.word16 media super _ state loaded 0 first
  rw [Nat.add_zero] at lowWord
  rcases sane.fatSize with three | four | eight
  · rw [if_pos three, if_pos three]
    have same := word32_mod state.fatBuf
      ((cluster * super.fatSize - state.cachedFat).toNat / 2)
    have same' := word32_mod
      (diskAt media (super.fatOffset * media.sectorSize + cluster * super.fatSize / 2)) 0
    rw [lowWord, ← same'] at same
    generalize state.fatBuf.word32 ((cluster * super.fatSize - state.cachedFat).toNat / 2) = word
      at same ⊢
    generalize (diskAt media
      (super.fatOffset * media.sectorSize + cluster * super.fatSize / 2)).word32 0 = word'
      at same ⊢
    by_cases odd : cluster * super.fatSize % 2 = 1
    · rw [if_pos odd, if_pos (parity.mpr odd)]
      omega
    · rw [if_neg odd, if_neg (mt parity.mp odd)]
      omega
  · have notThree : ¬ super.fatSize = 3 := by omega
    rw [if_neg notThree, if_neg notThree, if_pos four, if_pos four, word32_mod, word32_mod, lowWord]
  · have second : (cluster * super.fatSize - state.cachedFat).toNat / 2 + 2 + 1 < 4096 := by omega
    have notThree : ¬ super.fatSize = 3 := by omega
    have notFour : ¬ super.fatSize = 4 := by omega
    rw [if_neg notThree, if_neg notThree, if_neg notFour, if_neg notFour, Area.word32,
      Area.word32, lowWord, @Loaded.word16 media super _ state loaded 2 second]

/-- The window is moved only where a read succeeds, and has the entry then. -/
theorem loadWindow_loaded (sane : SaneSuper media super) {first cluster : Int} {state : FatState}
    (reading : Reading media super first state) (inWindow : InWindow media super cluster)
    (succeeds : (loadWindow media super state (cluster * super.fatSize)).2 = true) :
    Loaded media super (cluster * super.fatSize)
        (loadWindow media super state (cluster * super.fatSize)).1 ∧
      (loadWindow media super state (cluster * super.fatSize)).1.errnum = .none := by
  obtain ⟨positive, near, fits⟩ := inWindow
  have size : fatCacheSize = 4096 := rfl
  have fatSize := sane.fatSize
  have entry : 0 ≤ cluster * super.fatSize := Int.mul_nonneg positive (by omega)
  have sector := sectorSize_pos media.toSectorMedia
  generalize cluster * super.fatSize = fatEntry at *
  rw [loadWindow] at succeeds ⊢
  dsimp only at succeeds ⊢
  split at succeeds
  next moved =>
    rw [if_pos moved]
    rw [reading.clear, fatDevread] at succeeds ⊢
    -- The window starts where the sector with the entry starts.
    have whole := Int.mul_ediv_add_emod fatEntry (2 * media.sectorSize)
    have start : windowStart media fatEntry =
        2 * media.sectorSize * (fatEntry / (2 * media.sectorSize)) := by
      rw [windowStart]
      omega
    have few : fatEntry / (2 * media.sectorSize) < 2 ^ 31 :=
      Int.lt_of_le_of_lt (Int.ediv_le_self _ entry) (by omega)
    have quotient : 0 ≤ fatEntry / (2 * media.sectorSize) := Int.ediv_nonneg entry (by omega)
    have sectors : windowStart media fatEntry / (2 * media.sectorSize) =
        fatEntry / (2 * media.sectorSize) := by
      rw [start]
      exact Int.mul_ediv_cancel_left _ (by omega)
    rw [sectors] at succeeds ⊢
    generalize fatEntry / (2 * media.sectorSize) = q at *
    cases result : media.devread (toInt32 (super.fatOffset + q)) 0 fatCacheSize with
    | error failure =>
        rw [result] at succeeds
        cases succeeds
    | ok bytes =>
        obtain ⟨nonneg, isBytes⟩ := devread_ok result
        have lower := toInt32_lower super.fatOffset
        have upper := toInt32_upper super.fatOffset
        rw [sane.offset] at lower upper
        have isSector : toInt32 (super.fatOffset + q) = super.fatOffset + q := by
          unfold toInt32 at nonneg ⊢
          omega
        have half : windowStart media fatEntry / 2 = q * media.sectorSize := by
          rw [start, Int.mul_assoc, Int.mul_ediv_cancel_left _ (by decide), Int.mul_comm]
        have place : super.fatOffset * media.sectorSize + windowStart media fatEntry / 2 =
            (super.fatOffset + q) * media.sectorSize := by rw [half, Int.add_mul]
        have even : windowStart media fatEntry % 2 = 0 := by
          rw [start, Int.mul_assoc]
          exact Int.mul_emod_right _ _
        rw [isSector] at nonneg
        rw [isSector, Int.add_zero] at isBytes
        have length : bytes.length = 4096 := by
          rw [isBytes, bytes_length]
          rfl
        have stored : ∀ i < 4096, state.fatBuf.fill bytes i =
            diskAt media (super.fatOffset * media.sectorSize + windowStart media fatEntry / 2) i := by
          intro i inside
          have bound : i < bytes.length := length ▸ inside
          rw [Area.fill, List.getD_eq_getElem _ _ bound, place, diskAt]
          exact (List.getElem_of_eq isBytes bound).trans (getElem_bytes _)
        have remains := Int.emod_nonneg fatEntry (show 2 * (media.sectorSize : Int) ≠ 0 by omega)
        refine ⟨⟨⟨?_, ?_, even, ?_, stored⟩, ?_, ?_⟩, rfl⟩
        · change 0 ≤ windowStart media fatEntry
          rw [start]
          exact Int.mul_nonneg (by omega) quotient
        · change windowStart media fatEntry < 2 ^ 31
          rw [windowStart]
          omega
        · change 0 ≤ super.fatOffset * media.sectorSize + windowStart media fatEntry / 2
          rw [place]
          exact Int.mul_nonneg nonneg (by omega)
        · change 0 ≤ fatEntry - windowStart media fatEntry
          rw [windowStart]
          omega
        · change fatEntry - windowStart media fatEntry + super.fatSize ≤ 2 * fatCacheSize
          rw [windowStart]
          omega
  next there =>
    rw [if_neg there]
    obtain ⟨notBefore, notBehind⟩ := not_or.mp there
    rcases reading.window with fresh | shows_
    · exfalso
      have far : toInt32 (fatEntry - state.cachedFat) = fatEntry + 8192 := by
        rw [fresh, size]
        exact (toInt32_of_range (by omega) (by omega)).trans (by omega)
      rw [far, toInt32_of_range (by omega) (by omega)] at notBehind
      omega
    · have nonneg := shows_.nonneg
      have upper := shows_.upper
      have near' : toInt32 (fatEntry - state.cachedFat) = fatEntry - state.cachedFat :=
        toInt32_of_range (by omega) (by omega)
      rw [near'] at notBefore notBehind
      rw [toInt32_of_range (by omega) (by omega)] at notBehind
      have low : 0 ≤ fatEntry - state.cachedFat := by omega
      have high : fatEntry - state.cachedFat + super.fatSize ≤ 2 * fatCacheSize := by omega
      exact ⟨⟨shows_, low, high⟩, reading.clear⟩

/-! ## The place in the file -/

/-- Following a link leaves the position, -/
theorem linkFound_filepos (state : FatState) (next : Int) :
    (linkFound super state next).1.filepos = state.filepos := by
  rw [linkFound]
  split
  · rfl
  · split
    · rfl
    · rfl

/-- also where the window is loaded. -/
theorem followLink_filepos (state : FatState) :
    (followLink media super state).1.filepos = state.filepos := by
  have window : ∀ fatEntry, (loadWindow media super state fatEntry).1.filepos = state.filepos := by
    intro fatEntry
    rw [loadWindow]
    split
    · rfl
    · rfl
  rw [followLink]
  split
  · rw [linkFound_filepos, window]
  · exact window _

/-- The place in the file stays while the chain is followed. -/
theorem followLinks_filepos (links : Nat) (state : FatState) :
    (followLinks media super links state).1.filepos = state.filepos := by
  induction links generalizing state with
  | zero => rfl
  | succ links inductionHypothesis =>
      rw [followLinks]
      split
      · rw [inductionHypothesis, followLink_filepos]
      · exact followLink_filepos state

/-- What the loop of `fat_read` returns at its end. -/
theorem ret_of_ne_zero {errnum : GrubError} {ret : Nat}
    (some_ : (if errnum = .none then (ret : Int) else 0) ≠ 0) :
    (if errnum = .none then (ret : Int) else 0) = ret := by
  split
  · rfl
  next failed => exact absurd (if_neg failed) some_

/-- The place behind the bytes that were read. -/
theorem readLoop_filepos {rounds ret offset : Nat} {state : FatState} {buf : Buffer}
    {len logicalClust : Int} (inRange : toInt32 state.filepos = state.filepos)
    (some_ : (readLoop media super rounds state buf ret len logicalClust offset).ret ≠ 0) :
    (readLoop media super rounds state buf ret len logicalClust offset).state.filepos =
      toInt32 (state.filepos +
        ((readLoop media super rounds state buf ret len logicalClust offset).ret - ret)) := by
  induction rounds generalizing state buf ret len logicalClust offset with
  | zero =>
      rw [readLoop] at some_ ⊢
      dsimp only at some_ ⊢
      rw [ret_of_ne_zero some_, Int.sub_self, Int.add_zero, inRange]
  | succ rounds inductionHypothesis =>
      rw [readLoop] at some_ ⊢
      by_cases nothing : len ≤ 0
      · rw [if_pos nothing] at some_ ⊢
        dsimp only at some_ ⊢
        rw [ret_of_ne_zero some_, Int.sub_self, Int.add_zero, inRange]
      rw [if_neg nothing] at some_ ⊢
      have place := @followLinks_filepos media super
        (logicalClust - state.currentClusterNum).toNat state
      generalize followLinks media super (logicalClust - state.currentClusterNum).toNat state =
        found at some_ place ⊢
      dsimp only at some_ ⊢
      by_cases onward : found.2 = .onward
      · rw [if_pos onward] at some_ ⊢
        have behind := inductionHypothesis (toInt32_toInt32 _) some_
        rw [behind, partRead, toInt32_toInt32_add, place]
        congr 1
        omega
      · rw [if_neg onward] at some_ ⊢
        dsimp only at some_ ⊢
        split at some_
        next ended => rw [if_pos ended, place, Int.sub_self, Int.add_zero, inRange]
        · exact absurd rfl some_

/-- After the whole of an entry was read, `filepos` is behind it. -/
theorem fatRead_filepos {state : FatState} {buf : Buffer} {len : Int} (some_ : 0 < len)
    (inRange : toInt32 state.filepos = state.filepos)
    (whole : (fatRead media super state buf len).ret = len) :
    (fatRead media super state buf len).state.filepos = toInt32 (state.filepos + len) := by
  rw [fatRead] at whole ⊢
  split
  next root =>
    rw [if_pos root] at whole
    dsimp only at whole ⊢
    generalize min (super.rootMax - state.filepos) len = size at whole ⊢
    generalize fatDevread media state.errnum super.rootOffset state.filepos size = read
      at whole ⊢
    rw [rootRead] at whole ⊢
    dsimp only at whole ⊢
    split at whole
    next done => rw [if_pos done, whole]
    · omega
  next chain =>
    rw [if_neg chain] at whole
    have same : ∀ logicalClust, (rewind state logicalClust).filepos = state.filepos := by
      intro logicalClust
      rw [rewind]
      split
      · rfl
      · rfl
    have behind := readLoop_filepos (by rw [same, inRange]) (Int.ne_of_gt (whole ▸ some_))
    rw [behind, whole, same]
    congr 1
    omega

/-! ## The next entry -/

/-- A load of the window leaves where the file is. -/
theorem loadWindow_same (state : FatState) (fatEntry : Int) :
    (loadWindow media super state fatEntry).1.fileCluster = state.fileCluster ∧
      (loadWindow media super state fatEntry).1.currentClusterNum = state.currentClusterNum ∧
      (loadWindow media super state fatEntry).1.currentCluster = state.currentCluster := by
  rw [loadWindow]
  split
  · exact ⟨rfl, rfl, rfl⟩
  · exact ⟨rfl, rfl, rfl⟩

/-- A link that leads on leads to the next cluster of the chain. -/
theorem followLink_onward (sane : SaneSuper media super) {first : Int} {n : Nat}
    {state : FatState} (here : AtCluster media super first n state)
    (inWindow : InWindow media super state.currentCluster)
    (onward : (followLink media super state).2 = .onward) :
    AtCluster media super first (n + 1) (followLink media super state).1 := by
  have near := inWindow.2.1
  have size : fatCacheSize = 4096 := rfl
  have fatSize := sane.fatSize
  have entry : 0 ≤ state.currentCluster * super.fatSize :=
    Int.mul_nonneg inWindow.1 (by omega)
  have inRange : toInt32 (state.currentCluster * super.fatSize) =
      state.currentCluster * super.fatSize := toInt32_of_range (by omega) (by omega)
  rw [followLink, inRange] at onward ⊢
  split at onward
  next succeeds =>
    rw [if_pos succeeds]
    obtain ⟨loaded, clear⟩ := loadWindow_loaded sane here.toReading inWindow succeeds
    obtain ⟨file, num, cluster⟩ :=
      @loadWindow_same media super state (state.currentCluster * super.fatSize)
    rw [loaded.nextCluster sane] at onward ⊢
    rw [linkFound] at onward ⊢
    split at onward
    · cases onward
    next notEnded =>
      split at onward
      · cases onward
      next good =>
        rw [if_neg notEnded, if_neg good]
        have link : diskLink media super state.currentCluster =
            some (diskNext media super state.currentCluster) :=
          if_neg (not_or.mpr ⟨notEnded, good⟩)
        refine ⟨⟨clear, file.trans here.file, .inr (loaded.toWindowShows.of_same rfl rfl)⟩, ?_, ?_⟩
        · change _ + 1 = _
          rw [num, here.num]
          rfl
        · change (chainAt media super first n).bind (diskLink media super) = _
          rw [here.chain]
          exact link
  · cases onward

/-- So do links one after the other. -/
theorem followLinks_onward (sane : SaneSuper media super) {first : Int}
    (inWindow : ∀ n cluster, chainAt media super first n = some cluster →
      InWindow media super cluster) {links n : Nat} {state : FatState}
    (here : AtCluster media super first n state)
    (onward : (followLinks media super links state).2 = .onward) :
    AtCluster media super first (n + links) (followLinks media super links state).1 := by
  induction links generalizing n state with
  | zero => exact here
  | succ links inductionHypothesis =>
      rw [followLinks] at onward ⊢
      split at onward
      next one =>
        rw [if_pos one]
        have there := inductionHypothesis
          (followLink_onward sane here (inWindow n _ here.chain) one) onward
        rw [Nat.add_right_comm] at there
        exact there
      next failed => exact absurd onward failed

/-- Behind a read that succeeded, the bytes are those on the disk. -/
theorem fatDevread_some {errnum : GrubError} {sector byteOffset byteLen : Int}
    {read : GrubError × Option (List UInt8)} {bytes : List UInt8}
    (isRead : fatDevread media errnum sector byteOffset byteLen = read)
    (succeeds : read.2 = some bytes) :
    read.1 = .none ∧
      bytes = media.bytes (sector * media.sectorSize + byteOffset).toNat byteLen.toNat := by
  subst isRead
  rw [fatDevread] at succeeds ⊢
  cases result : media.devread sector byteOffset byteLen with
  | error failure =>
      rw [result] at succeeds
      cases succeeds
  | ok stored =>
      rw [result] at succeeds
      rw [PartitionMedia.readDone] at succeeds ⊢
      dsimp only at succeeds ⊢
      split at succeeds
      next clear => exact ⟨clear, (Option.some.inj succeeds).symm.trans (devread_ok result).2⟩
      · cases succeeds

/-- An error that is there, or comes, is left there. -/
theorem fatDevread_none {errnum : GrubError} {sector byteOffset byteLen : Int}
    (fails : (fatDevread media errnum sector byteOffset byteLen).2 = none) :
    (fatDevread media errnum sector byteOffset byteLen).1 ≠ .none := by
  rw [fatDevread] at fails ⊢
  cases result : media.devread sector byteOffset byteLen with
  | error failure =>
      rw [PartitionMedia.readDone]
      dsimp only
      split
      · exact failure.2
      next set_ => exact fun none_ => set_ (.inl none_)
  | ok stored =>
      rw [result, PartitionMedia.readDone] at fails
      rw [PartitionMedia.readDone]
      dsimp only at fails ⊢
      split at fails
      · cases fails
      next set_ => exact set_

/-- Below 2^31 the place of an entry is an `int`. -/
theorem AtEntry.filepos_eq {first : Int} {k : Nat} {state : FatState}
    (here : AtEntry media super first k state) (small : 32 * k < 2 ^ 31) :
    state.filepos = 32 * k :=
  here.place.trans (toInt32_of_range (by omega) (by omega))

/-- The cursor is set back, or is not behind the cluster. -/
theorem AtEntry.rewound {first : Int} {k logicalClust : Nat} {state : FatState}
    (here : AtEntry media super first k state) (near : (logicalClust : Int) < maxint) :
    ∃ n ≤ logicalClust, AtCluster media super first n (rewind state logicalClust) := by
  rw [rewind]
  split
  · exact ⟨0, Nat.zero_le _, ⟨here.clear, here.file, here.window.of_same rfl rfl⟩, rfl,
      congrArg some here.file.symm⟩
  next notBehind =>
    rcases here.cursor with unset | ⟨n, atCluster⟩
    · omega
    · have num := atCluster.num
      exact ⟨n, by omega, atCluster⟩

/-- In a chain the whole of an entry is read where the disk has it. -/
theorem fatRead_chain (sane : SaneSuper media super) {first : Int} {k : Nat} {state : FatState}
    (here : AtEntry media super first k state) (nonneg : 0 ≤ first)
    (inWindow : ∀ n cluster, chainAt media super first n = some cluster →
      InWindow media super cluster)
    (small : 32 * k < 2 ^ 31)
    (whole : (fatRead media super state (fun _ => 0) fatDirentryLength).ret = fatDirentryLength) :
    diskEntry media super first k =
        some (fatRead media super state (fun _ => 0) fatDirentryLength).buf ∧
      AtEntry media super first (k + 1)
        (fatRead media super state (fun _ => 0) fatDirentryLength).state := by
  have length : fatDirentryLength = 32 := rfl
  have filepos := here.filepos_eq small
  have positive : ¬ state.fileCluster < 0 := by rw [here.file]; omega
  have clusters := sane.clusters
  have cluster : (32 : Nat) ∣ 2 ^ super.clustsizeBits := pow_dvd_pow 2 clusters
  have entries : 32 * k % 2 ^ super.clustsizeBits + 32 ≤ 2 ^ super.clustsizeBits := by
    have inside := Nat.mod_lt (32 * k) (Nat.two_pow_pos super.clustsizeBits)
    have divides : 32 ∣ 32 * k % 2 ^ super.clustsizeBits :=
      (Nat.dvd_mod_iff cluster).mpr (Nat.dvd_mul_right 32 k)
    omega
  have logical : state.filepos / 2 ^ super.clustsizeBits =
      (32 * k / 2 ^ super.clustsizeBits : Nat) := by
    rw [filepos]
    exact (Int.natCast_ediv _ _).symm
  have offset : (state.filepos % 2 ^ super.clustsizeBits).toNat =
      32 * k % 2 ^ super.clustsizeBits := by
    rw [filepos]
    exact congrArg Int.toNat (Int.natCast_emod (32 * k) (2 ^ super.clustsizeBits)).symm
  have near : ((32 * k / 2 ^ super.clustsizeBits : Nat) : Int) < maxint := by
    have atMost := Nat.div_le_self (32 * k) (2 ^ super.clustsizeBits)
    rw [maxint]
    omega
  obtain ⟨n, before, atCluster⟩ := here.rewound near
  rw [diskEntry, if_neg (Int.not_lt.mpr nonneg)]
  rw [fatRead, if_neg positive, logical, offset] at whole ⊢
  generalize 32 * k / 2 ^ super.clustsizeBits = logicalClust at *
  generalize 32 * k % 2 ^ super.clustsizeBits = entryOffset at *
  have rounds : fatDirentryLength.toNat = 31 + 1 := rfl
  have some_ : ¬ fatDirentryLength ≤ 0 := by decide
  have links : ((logicalClust : Int) - (rewind state logicalClust).currentClusterNum).toNat =
      logicalClust - n := by
    rw [atCluster.num]
    omega
  have size : min (2 ^ super.clustsizeBits - entryOffset) (31 + 1) = 32 := by omega
  have place : (followLinks media super (logicalClust - n) (rewind state logicalClust)).1.filepos =
      state.filepos := by
    rw [followLinks_filepos, rewind]
    split
    · rfl
    · rfl
  rw [rounds, readLoop, if_neg some_, links, rounds, size] at whole ⊢
  by_cases onward :
      (followLinks media super (logicalClust - n) (rewind state logicalClust)).2 = .onward
  · have there := followLinks_onward sane inWindow atCluster onward
    rw [Nat.add_sub_cancel' before] at there
    generalize followLinks media super (logicalClust - n) (rewind state logicalClust) = found at *
    rw [if_pos onward, readLoop_done (by decide)] at whole ⊢
    generalize isRead : fatDevread media found.1.errnum (clusterSector super found.1.currentCluster)
      entryOffset (32 : Nat) = read at *
    cases stored : read.2 with
    | none =>
        have failed : (partRead found.1 (32 : Nat) read).errnum ≠ .none := by
          rw [← isRead] at stored ⊢
          exact fatDevread_none stored
        dsimp only at whole
        rw [if_neg failed] at whole
        exact absurd whole (by decide)
    | some bytes =>
        obtain ⟨clear, isBytes⟩ := fatDevread_some isRead stored
        refine ⟨?_, ⟨clear, there.file, there.window.of_same rfl rfl⟩, ?_, .inr ⟨logicalClust,
          ⟨clear, there.file, there.window.of_same rfl rfl⟩, there.num, there.chain⟩⟩
        · rw [there.chain, isBytes]
          rfl
        · change toInt32 (found.1.filepos + (32 : Nat)) = _
          rw [place, filepos]
          congr 1
  · rw [if_neg onward] at whole
    dsimp only at whole
    split at whole
    · exact absurd whole (by decide)
    · exact absurd whole (by decide)

/-- In the root of FAT12 and FAT16, too. -/
theorem fatRead_root {first : Int} {k : Nat} {state : FatState}
    (here : AtEntry media super first k state) (negative : first < 0)
    (small : 32 * k < 2 ^ 31)
    (whole : (fatRead media super state (fun _ => 0) fatDirentryLength).ret = fatDirentryLength) :
    diskEntry media super first k =
        some (fatRead media super state (fun _ => 0) fatDirentryLength).buf ∧
      AtEntry media super first (k + 1)
        (fatRead media super state (fun _ => 0) fatDirentryLength).state := by
  have length : fatDirentryLength = 32 := rfl
  have filepos := here.filepos_eq small
  have isRoot : state.fileCluster < 0 := by rw [here.file]; exact negative
  rw [diskEntry, if_pos negative]
  rw [fatRead, if_pos isRoot] at whole ⊢
  dsimp only at whole ⊢
  generalize isSize : min (super.rootMax - state.filepos) fatDirentryLength = size at *
  generalize isRead : fatDevread media state.errnum super.rootOffset state.filepos size = read at *
  rw [rootRead] at whole ⊢
  dsimp only at whole ⊢
  cases stored : read.2 with
  | none =>
      rw [stored, Option.isSome_none, if_neg Bool.false_ne_true] at whole
      exact absurd whole (by decide)
  | some bytes =>
      obtain ⟨clear, isBytes⟩ := fatDevread_some isRead stored
      rw [stored, if_pos Option.isSome_some] at whole
      have inside : 32 * (k : Int) + 32 ≤ super.rootMax := by
        omega
      rw [if_pos inside, if_pos Option.isSome_some, isBytes, whole, filepos]
      refine ⟨rfl, ⟨clear, here.file, here.window.of_same rfl rfl⟩, ?_, ?_⟩
      · change toInt32 (32 * (k : Int) + fatDirentryLength) = _
        rw [length]
        congr 1
      · rcases here.cursor with unset | ⟨n, atCluster⟩
        · exact .inl unset
        · exact .inr ⟨n, ⟨clear, here.file, here.window.of_same rfl rfl⟩, atCluster.num,
            atCluster.chain⟩

/-- The whole of an entry is read where the disk has it. -/
theorem fatRead_entry (sane : SaneSuper media super) {first : Int} {k : Nat} {state : FatState}
    (here : AtEntry media super first k state)
    (inWindow : 0 ≤ first → ∀ n cluster, chainAt media super first n = some cluster →
      InWindow media super cluster)
    (small : 32 * k < 2 ^ 31)
    (whole : (fatRead media super state (fun _ => 0) fatDirentryLength).ret = fatDirentryLength) :
    diskEntry media super first k =
        some (fatRead media super state (fun _ => 0) fatDirentryLength).buf ∧
      AtEntry media super first (k + 1)
        (fatRead media super state (fun _ => 0) fatDirentryLength).state := by
  rcases Int.lt_or_le first 0 with negative | nonneg
  · exact fatRead_root here negative small whole
  · exact fatRead_chain sane here nonneg (inWindow nonneg) small whole

end

end GrubLegacy.Fsys.Fat
