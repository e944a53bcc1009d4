import GrubLegacy.Inflate.Windows
import GrubLegacy.Stage2.GzipFiles

/-!
# The contents of gzip files

The calls of `inflate_window` fill the windows with the contents that the deflated stream stands for,
so that a gzip file reads like them.
-/

namespace GrubLegacy.Inflate

open Base CStrings Gunzip Loader Stage2 Rfc1951

variable {file : OpenFile} {offset n : Nat} {start input : Input}

/-! ## The bytes of the file -/

/-- The buffer has the `m`th part of the file from a place on. -/
structure Buffered (file : OpenFile) (offset m : Nat) (input : Input) : Prop where
  errnum : input.errnum = .none
  filepos : input.filepos = min (offset + inbufsiz * (m + 1)) file.content.length
  inbuf : ∀ i < inbufsiz, offset + inbufsiz * m + i < file.content.length →
    input.inbuf i = file.content.getD (offset + inbufsiz * m + i) 0

/-- The next part is read into the buffer. -/
theorem buffered_refill {m : Nat} (readable : Readable file) (clear : input.errnum = .none)
    (filepos : input.filepos = min (offset + inbufsiz * m) file.content.length) :
    Buffered file offset m (input.refill file) := by
  obtain ⟨place, isPlace⟩ : ∃ place, place = min (offset + inbufsiz * m) file.content.length :=
    ⟨_, rfl⟩
  obtain ⟨size, isSize⟩ : ∃ size, size = min inbufsiz (file.content.length - place) := ⟨_, rfl⟩
  have filemax : file.filemax = file.content.length := rfl
  have supported := readable.supported
  obtain ⟨stored, returned, moved⟩ := file.whole place size (by omega) (readable.succeeds _ _)
  have isFilepos : input.filepos = place := by omega
  have counted : saneLen file.filemax place inbufsiz = size := by
    rw [saneLen]
    split <;> omega
  have low : 0 ≤ input.filepos := by omega
  have high : input.filepos ≤ file.filemax := by omega
  have read : readRaw file (input.raw file) inbufsiz =
      { stored := (file.content.drop place).take size
        returned := size
        state := { input.raw file with filepos := (place + size : Nat) } } := by
    rw [readRaw, @readSane_place _ (input.raw file) low high supported]
    simp only [Input.raw, isFilepos, counted, readFunc, Int.toNat_natCast, stored, returned, moved,
      readable.succeeds, if_pos]
  have next : place + size = min (offset + inbufsiz * (m + 1)) file.content.length := by
    rw [Nat.mul_succ]
    omega
  rw [Input.refill, read]
  refine ⟨clear, ?_, ?_⟩
  · rw [next]
  · intro i below inside
    have begins : place = offset + inbufsiz * m := by omega
    have enough : i < size := by omega
    have isStored : i < ((file.content.drop place).take size).length := by
      rw [List.length_take, List.length_drop]
      omega
    dsimp only
    rw [if_pos isStored]
    simp only [List.getD_eq_getElem?_getD, List.getElem?_take, List.getElem?_drop, if_pos enough,
      begins]

/-- After `n + 1` calls of `get_byte` the buffer has the part with the `n`th byte, which the last one
has returned. -/
theorem inputAfter_spec (readable : Readable file) (inside : offset < file.content.length)
    (clear : start.errnum = .none) (filepos : start.filepos = offset) (n : Nat) :
    Buffered file offset (n / inbufsiz) (inputAfter file offset start (n + 1)) ∧
      (inputAfter file offset start (n + 1)).bufloc = n % inbufsiz + 1 ∧
      (offset + n < file.content.length →
        byteAt file offset start n = file.content.getD (offset + n) 0) := by
  -- the buffer before its `bufloc` is moved
  have ready : ∀ n ready, (if (inputAfter file offset start n).filepos = offset ∨
        (inputAfter file offset start n).bufloc = inbufsiz then
        (inputAfter file offset start n).refill file else inputAfter file offset start n) = ready →
      Buffered file offset (n / inbufsiz) ready → ready.bufloc = n % inbufsiz →
      Buffered file offset (n / inbufsiz) (inputAfter file offset start (n + 1)) ∧
        (inputAfter file offset start (n + 1)).bufloc = n % inbufsiz + 1 ∧
        (offset + n < file.content.length →
          byteAt file offset start n = file.content.getD (offset + n) 0) := by
    intro n ready isReady buffered bufloc
    have place : offset + inbufsiz * (n / inbufsiz) + n % inbufsiz = offset + n := by
      rw [Nat.add_assoc, Nat.div_add_mod]
    rw [byteAt, inputAfter, getByte, isReady]
    refine ⟨⟨buffered.errnum, buffered.filepos, buffered.inbuf⟩, congrArg (· + 1) bufloc, ?_⟩
    intro more
    dsimp only
    rw [bufloc, buffered.inbuf _ (Nat.mod_lt _ (by decide)) (by omega), place]
  induction n with
  | zero =>
      have isPlace : start.filepos = min (offset + inbufsiz * (0 / inbufsiz)) file.content.length := by
        rw [filepos, Nat.zero_div]
        omega
      exact ready 0 _ (if_pos (.inl filepos)) (buffered_refill readable clear isPlace) rfl
  | succ n ih =>
      obtain ⟨buffered, bufloc, -⟩ := ih
      by_cases used : n % inbufsiz + 1 = inbufsiz
      · have part : (n + 1) / inbufsiz = n / inbufsiz + 1 := by
          simp only [inbufsiz] at used ⊢
          omega
        have first : (n + 1) % inbufsiz = 0 := by
          simp only [inbufsiz] at used ⊢
          omega
        refine ready (n + 1) _ (if_pos (.inr (bufloc.trans used))) ?_ first.symm
        rw [part]
        exact buffered_refill readable buffered.errnum buffered.filepos
      · have part : (n + 1) / inbufsiz = n / inbufsiz := by
          simp only [inbufsiz] at used ⊢
          omega
        have later : (n + 1) % inbufsiz = n % inbufsiz + 1 := by
          simp only [inbufsiz] at used ⊢
          omega
        have moved : (inputAfter file offset start (n + 1)).filepos ≠ offset := by
          rw [buffered.filepos, inbufsiz]
          omega
        refine ready (n + 1) _ (if_neg ?_) (part ▸ buffered) (bufloc.trans later.symm)
        rw [bufloc]
        exact fun again => again.elim moved used

/-- No read of the deflated part fails. -/
theorem inputAfter_errnum (readable : Readable file) (inside : offset < file.content.length)
    (clear : start.errnum = .none) (filepos : start.filepos = offset) :
    ∀ n, (inputAfter file offset start n).errnum = .none
  | 0 => clear
  | n + 1 => (inputAfter_spec readable inside clear filepos n).1.errnum

/-- The bits of the bytes that are returned. -/
theorem reads_streamBits {bytes : List UInt8}
    (isByte : ∀ i < bytes.length, byteAt file offset start (n + i) = bytes.getD i 0) :
    Reads file offset start (8 * n) (streamBits bytes) := by
  induction bytes generalizing n with
  | nil => trivial
  | cons byte bytes ih =>
      have first : byteAt file offset start n = byte := isByte 0 (Nat.succ_pos _)
      have bit : ∀ i < 8, bitAt file offset start (8 * n + i) = (byte.toNat.testBit i).toNat := by
        intro i below
        have inByte : (8 * n + i) / 8 = n := by omega
        have place : (8 * n + i) % 8 = i := by omega
        rw [bitAt, inByte, place, first, Nat.toNat_testBit]
      have eight : Reads file offset start (8 * n) (byteBits byte) :=
        ⟨bit 0 (by decide), bit 1 (by decide), bit 2 (by decide), bit 3 (by decide),
          bit 4 (by decide), bit 5 (by decide), bit 6 (by decide), bit 7 (by decide), trivial⟩
      rw [streamBits, List.flatMap_cons, reads_append, byteBits_length]
      refine ⟨eight, ?_⟩
      rw [← Nat.mul_succ]
      exact ih fun i below => by
        rw [Nat.succ_add_eq_add_succ]
        exact isByte (i + 1) (Nat.succ_lt_succ below)

/-! ## The calls -/

variable {state : InflateState} {p left turns : Nat} {out contents stream rest : List UInt8}
  {stale : Stale}

/-- These turns are enough for what is left of a stream in the file. -/
def EnoughTurns (file : OpenFile) (turns : Nat) : Prop :=
  8 * file.content.length + wsize + bmax + 2 ≤ turns

/-- The window is filled from its start again. -/
theorem Ahead.again (ahead : Ahead file offset start contents state p out left)
    (whole : out.length % wsize = 0) :
    Ahead file offset start contents { state with wp := 0 } p out left := by
  have place : out.length % wsize = 0 % wsize := whole
  cases ahead with
  | between placed idle after =>
      exact .between ⟨placed.at_, placed.holds, place⟩ idle after
  | inside busy inBlock after =>
      refine .inside busy ?_ after
      cases inBlock with
      | stored placed isStored empty left reads =>
          exact .stored ⟨placed.at_, placed.holds, place⟩ isStored empty left reads
      | coded isCoded begun tables inCodes =>
          obtain ⟨placed, reads, codes⟩ := inCodes
          refine .coded isCoded begun ⟨tables.literal, tables.distance, tables.litShort,
            tables.distShort⟩ ⟨⟨placed.at_, placed.holds, place⟩, reads, codes.imp_right ?_⟩
          rintro ⟨copies, more, distance, copying, rest⟩
          exact ⟨copies, more, distance, ⟨copying.holds, place, copying.from_, copying.some_,
            copying.inside, copying.near⟩, rest⟩

/-- A call fills the window, or comes to the end of the stream. -/
theorem Ahead.callWindow (clear : ∀ n, (inputAfter file offset start n).errnum = .none)
    (ahead : Ahead file offset start contents { state with wp := 0 } p out left)
    (short : p + left ≤ 8 * file.content.length) (enough : EnoughTurns file turns) :
    Stops file offset start contents { state with wp := 0 } out (p + left)
      (callWindow file offset state stale turns) := by
  have few : ({ state with wp := 0 } : InflateState).begun ≤ 1 := by
    rw [InflateState.begun]
    split <;> decide
  rw [EnoughTurns] at enough
  exact ahead.inflateLoop clear (Nat.zero_le _) (by omega) (by omega) (by omega)

/-- What the input is when the file is decompressed from its start. -/
def InflateState.startInput (state : InflateState) (offset : Int) : Input :=
  { state.input with filepos := offset, errnum := .none }

/-- What the next call leaves, where the ones before have filled the windows up to here. -/
theorem afterCalls_next {bits : List Bool} {k : Nat}
    (clear : ∀ n, (inputAfter file offset (state.startInput offset) n).errnum = .none)
    (reads : Reads file offset (state.startInput offset) 0 bits)
    (blocks : Blocks 0 [] bits contents) (short : bits.length ≤ 8 * file.content.length)
    (enough : EnoughTurns file turns) (more : k * wsize < contents.length) :
    ∃ before out, before.wp = 0 ∧ out.length = k * wsize ∧
      Stops file offset (state.startInput offset) contents before out bits.length
        (afterCalls file offset state stale turns (k + 1)) := by
  induction k with
  | zero =>
      have bitsAt : BitsAt file offset (state.startInput offset)
          { input := state.startInput offset, b := 0, k := 0 } 0 :=
        ⟨dvd_zero 8, by rw [Nat.zero_add, Nat.zero_div, inputAfter], rfl, Nat.zero_le _⟩
      have begins : Ahead file offset (state.startInput offset) contents
          { state.initializeTables offset with input := state.startInput offset, wp := 0 } 0 []
          bits.length :=
        .between ⟨bitsAt, holds_nil _, rfl⟩ rfl (.more rfl reads blocks)
      have stops := @Ahead.callWindow _ _ _
        { state.initializeTables offset with input := state.startInput offset } _ _ _ _ _ stale clear
        begins (by omega) enough
      rw [Nat.zero_add] at stops
      exact ⟨_, [], rfl, (Nat.zero_mul _).symm, stops⟩
  | succ k ih =>
      rw [Nat.succ_mul] at more
      obtain ⟨before, out₀, noW, size, stops⟩ := ih (by omega)
      obtain ⟨result, isResult⟩ : ∃ result, result = afterCalls file offset state stale turns (k + 1) :=
        ⟨_, rfl⟩
      rw [← isResult] at stops
      obtain ⟨p, out, left, ahead, -, isStop, moved, room, last⟩ := stops
      have full : result.1.wp = wsize := by
        refine last.resolve_right fun whole => ?_
        rw [whole] at moved
        omega
      have whole : out.length = (k + 1) * wsize := by
        rw [Nat.succ_mul]
        omega
      have noError : { result.1 with input := { result.1.input with errnum := .none } } =
          result.1 := by
        rw [← ahead.at_.noError clear]
      have next : afterCalls file offset state stale turns (k + 1 + 1) =
          callWindow file offset result.1 stale turns := by
        rw [afterCalls, ← isResult, noError]
      have stops := @Ahead.callWindow _ _ _ _ _ _ _ _ _ stale clear
        (ahead.again (by rw [whole, Nat.mul_mod_left])) (by omega) enough
      rw [isStop, ← next] at stops
      exact ⟨_, out, rfl, whole, stops⟩

/-! ## The windows -/

/-- A block has a bit at least, -/
theorem Rfc1951.Block.some_ {position : Nat} {final : Bool} {bits : List Bool} {out' : List UInt8}
    (block : Block position final out bits out') : 0 < bits.length := by
  cases block <;> exact Nat.succ_pos _

/-- and so have all of them. -/
theorem Rfc1951.Blocks.some_ {position : Nat} {bits : List Bool}
    (blocks : Blocks position out bits contents) : 0 < bits.length := by
  cases blocks with
  | last block => exact block.some_
  | more block =>
      rw [List.length_append]
      exact Nat.lt_of_lt_of_le block.some_ (Nat.le_add_right _ _)

/-- The part of the contents that a window holds. -/
theorem holds_part {slide : Nat → UInt8} {k w : Nat} (holds : Holds slide out)
    (begins : out <+: contents) (size : out.length = k * wsize + w) (room : w ≤ wsize)
    (last : w = wsize ∨ out = contents) :
    (contents.drop (k * wsize)).take wsize <+: (List.range wsize).map slide := by
  have isByte : ∀ i < wsize, k * wsize + i < contents.length →
      slide i = contents.getD (k * wsize + i) 0 := by
    intro i below inside
    have inOut : k * wsize + i < out.length := by
      rcases last with full | whole
      · omega
      · rwa [whole]
    have place : (k * wsize + i) % wsize = i := by
      rw [Nat.mul_comm, Nat.mul_add_mod, Nat.mod_eq_of_lt below]
    obtain ⟨later, rfl⟩ := begins
    rw [List.getD_append _ _ _ _ inOut, ← holds _ inOut (by omega), place]
  have isPart : (contents.drop (k * wsize)).take wsize =
      ((List.range wsize).map slide).take (contents.length - k * wsize) := by
    refine List.ext_getElem (by simp [Nat.min_comm]) fun i inPart inSlide => ?_
    rw [List.length_take, List.length_drop] at inPart
    have inside : k * wsize + i < contents.length := by omega
    have byte := isByte i (by omega) inside
    rw [List.getD_eq_getElem _ _ inside] at byte
    simp [byte]
  rw [isPart]
  exact List.take_prefix _ _

/-- The windows hold what the stream at a place of the file stands for. -/
theorem windows_of_deflated (readable : Readable file) (deflated : Deflated stream contents)
    (split : file.content.drop offset = stream ++ rest) :
    Windows (inflateWindow state stale) file offset contents := by
  obtain ⟨bits, pad, isStream, -, blocks⟩ := deflated.blocks
  have sum := congrArg List.length isStream
  rw [streamBits_length, List.length_append] at sum
  have size := congrArg List.length split
  rw [List.length_drop, List.length_append] at size
  have some_ := blocks.some_
  have inside : offset < file.content.length := by omega
  have clear := @inputAfter_errnum file offset (state.startInput offset) readable inside rfl rfl
  have isByte : ∀ i < stream.length,
      byteAt file offset (state.startInput offset) (0 + i) = stream.getD i 0 := by
    intro i below
    obtain ⟨-, -, byte⟩ := @inputAfter_spec file offset (state.startInput offset) readable inside rfl rfl i
    rw [Nat.zero_add, byte (by omega), ← List.getD_append stream rest 0 i below, ← split]
    simp only [List.getD_eq_getElem?_getD, List.getElem?_drop]
  have reads := reads_streamBits isByte
  rw [isStream, reads_append] at reads
  intro k more
  obtain ⟨before, out₀, noW, isSize, p, out, left, ahead, finished, -, moved, room, last⟩ :=
    @afterCalls_next _ _ state _ _ stale bits k clear reads.1 blocks (by omega) (Nat.le_refl _) more
  rw [noW, isSize] at moved
  have noError := ahead.at_.noError clear
  have part := holds_part ahead.at_.holds ahead.prefix_ moved room last
  simp only [inflateWindow]
  generalize afterCalls file offset state stale _ (k + 1) = result at finished noError part
  exact ⟨noError, finished, part⟩

/-! ## The files -/

section Files

variable {inflate : List UInt8 → Option (List UInt8)} (gzip : GzipFile inflate)

/-- What decompresses the stream of this file, and no other one. -/
def inflateOnly (bytes : List UInt8) : Option (List UInt8) :=
  if bytes = gzip.deflated ++ gzip.trailer then some gzip.contents else none

/-- The same file. -/
def onlyFile : GzipFile (inflateOnly gzip) where
  flags := gzip.flags
  info := gzip.info
  extra := gzip.extra
  name := gzip.name
  comment := gzip.comment
  deflated := gzip.deflated
  crc := gzip.crc
  contents := gzip.contents
  supported := gzip.supported
  infoSize := gzip.infoSize
  extraShort := gzip.extraShort
  nameFree := gzip.nameFree
  commentFree := gzip.commentFree
  crcSize := gzip.crcSize
  decompressed := if_pos rfl
  small := gzip.small

/-- The deflated part of a file is inflated to its contents. -/
theorem inflates_only (deflated : Deflated gzip.deflated gzip.contents) :
    Inflates (inflateWindow state stale) (inflateOnly gzip) := by
  intro file offset contents readable isOnly
  rw [inflateOnly] at isOnly
  by_cases isStream : file.content.drop offset = gzip.deflated ++ gzip.trailer
  · rw [if_pos isStream] at isOnly
    rw [← Option.some_inj.mp isOnly]
    exact windows_of_deflated readable deflated isStream
  · rw [if_neg isStream] at isOnly
    contradiction

/-- A gzip file reads like the contents that its stream stands for, in whatever order it is read and
whatever the inflate code has been used for before. -/
theorem readsLike_contents (deflated : Deflated gzip.deflated gzip.contents)
    (content : file.content = gzip.bytes) (readable : Readable file) {fileState : FileState}
    (clear : fileState.errnum = .none) :
    ReadsLike (inflateWindow state stale) false file fileState gzip.plain :=
  readsLike_gzip (inflates_only gzip deflated) (onlyFile gzip) content readable clear

end Files

/-- A file with four equal bytes: a literal and a copy of it that runs into its own bytes. -/
def copiedGzip : GzipFile (fun _ => some [0x61, 0x61, 0x61, 0x61]) where
  flags := 0x1C
  info := [0, 0, 0, 0, 2, 3]
  extra := [0x65]
  name := [0x61]
  comment := [0x63]
  deflated := [0x4B, 0x04, 0x02, 0x00]
  crc := [0x45, 0xE5, 0x98, 0xAD]
  contents := [0x61, 0x61, 0x61, 0x61]
  supported := by decide
  infoSize := rfl
  extraShort := by decide
  nameFree := by simp [NulFree]
  commentFree := by simp [NulFree]
  crcSize := rfl
  decompressed := rfl
  small := by decide

/-- The contents with the copy are deflated, -/
theorem deflated_copied : Deflated copiedGzip.deflated copiedGzip.contents := by
  have literal : IsCode fixedLit 0x61 [true, false, false, true, false, false, false, true] :=
    ⟨by decide +kernel, by decide, by decide +kernel⟩
  have length : IsCode fixedLit (257 + 0) [false, false, false, false, false, false, true] :=
    ⟨by decide +kernel, by decide, by decide +kernel⟩
  have distance : IsCode fixedDist 0 [false, false, false, false, false] :=
    ⟨by decide +kernel, by decide, by decide +kernel⟩
  have isEnd : IsCode fixedLit 256 [false, false, false, false, false, false, false] :=
    ⟨by decide +kernel, by decide, by decide +kernel⟩
  have copy : Codes fixedLit fixedDist [0x61] _ [0x61, 0x61, 0x61, 0x61] :=
    @Codes.copy fixedLit fixedDist [0x61] _ 0 0 _ [] _ [] _ (by decide) length rfl (by decide)
      distance rfl (by decide) (.endOfBlock isEnd)
  have codes : Codes fixedLit fixedDist [] _ [0x61, 0x61, 0x61, 0x61] :=
    @Codes.literal fixedLit fixedDist [] _ 0x61 _ _ literal copy
  exact ⟨_, [false, false], by decide, by decide, .last (.fixed codes)⟩

/-- A window that has not been filled. -/
def noWindow : InflateState where
  input := { filepos := 0, errnum := .none, inbuf := fun _ => 0, bufloc := 0, behind := fun _ => 0 }
  bb := 0
  bk := 0
  slide := fun _ => 0
  wp := 0
  tl := fun _ _ => ⟨0, 0, 0⟩
  td := fun _ _ => ⟨0, 0, 0⟩
  bl := 0
  bd := 0
  blockType := 0
  blockLen := 0
  lastBlock := 0
  codeState := 0
  inflateN := 0
  inflateD := 0

/-- and read back. -/
theorem readsLike_contents_copied :
    ReadsLike (inflateWindow noWindow ⟨fun _ _ => ⟨0, 0, 0⟩, fun _ => 0⟩) false
      (plainFile copiedGzip.bytes (by decide))
      ⟨0, 0, 0, false, 0, 0, 0, 0, 0, 0, [], 0, .none⟩ copiedGzip.plain :=
  readsLike_contents copiedGzip deflated_copied rfl ⟨by decide, fun _ _ => rfl⟩ rfl

end GrubLegacy.Inflate
