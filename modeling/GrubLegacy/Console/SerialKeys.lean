import GrubLegacy.Console.SerialBuffer

/-!
# Keys from a serial terminal

As long as only bytes below 0x80 are received, the stream is cut into pieces that make the
keys got and the keys that wait, for every run of the two calls. A byte from 0x80 on is lost
or comes back negative, so that no such cut exists.
-/

namespace GrubLegacy.Console

open Base Stage2

variable {hardware : SerialHardware} {line : SerialLine} {input : SerialInput}

/-! ## The pieces of the bytes that wait -/

/-- The bytes that wait, each a piece of its own. -/
def singles (bytes : List UInt8) : List (List UInt8) := bytes.map fun byte => [byte]

/-- Pieces of one byte make up the bytes again. -/
@[simp] theorem flatten_singles (bytes : List UInt8) : (singles bytes).flatten = bytes := by
  induction bytes with
  | nil => rfl
  | cons byte rest ih => simpa [singles] using ih

/-- Pieces of two sequences are those of both. -/
theorem singles_append (bytes more : List UInt8) :
    singles (bytes ++ more) = singles bytes ++ singles more := List.map_append

/-- The pieces that the bytes in the buffer stand for: the first of them may be a key
already, the others are bytes of the stream. -/
inductive Waiting : List (List UInt8) → List UInt8 → Prop
  | none : Waiting [] []
  | some {piece : List UInt8} {first : UInt8} (rest : List UInt8)
      (made : KeyOf piece first.toNat) : Waiting (piece :: singles rest) (first :: rest)

namespace Waiting

variable {pieces : List (List UInt8)} {bytes : List UInt8}

/-- Bytes that wait do so one by one. -/
theorem of_singles (bytes : List UInt8) : Waiting (singles bytes) bytes := by
  cases bytes with
  | nil => exact .none
  | cons first rest => exact .some rest (.byte first)

/-- What arrives waits behind. -/
theorem append (waiting : Waiting pieces bytes) (fresh : List UInt8) :
    Waiting (pieces ++ singles fresh) (bytes ++ fresh) := by
  cases waiting with
  | none => exact of_singles fresh
  | some rest made =>
      rw [List.cons_append, List.cons_append, ← singles_append]
      exact .some (rest ++ fresh) made

/-- An escape in the buffer is the one of the stream. -/
theorem of_escape {rest : List UInt8} (waiting : Waiting pieces (0x1B :: rest)) :
    pieces = singles (0x1B :: rest) := by
  obtain _ | ⟨rest, made⟩ := waiting
  generalize escape : ((0x1B : UInt8).toNat : Int) = key at made
  cases made with
  | byte c =>
      have same : c = 0x1B := UInt8.toNat_inj.mp (by exact_mod_cast escape.symm)
      rw [same]
      rfl
  | sequence listed =>
      have control := listed.control
      rw [← escape] at control
      exact absurd control (by decide)

/-- Each piece that waits is the byte of a key. -/
theorem forall₂ (waiting : Waiting pieces bytes) (low : ∀ byte ∈ bytes, byte < 0x80) :
    List.Forall₂ KeyOf pieces (bytes.map signedChar) := by
  have ofBytes (rest : List UInt8) (low : ∀ byte ∈ rest, byte < 0x80) :
      List.Forall₂ KeyOf (singles rest) (rest.map signedChar) := by
    rw [singles, List.forall₂_map_left_iff, List.forall₂_map_right_iff, List.forall₂_same]
    intro byte member
    rw [signedChar_low (low byte member)]
    exact .byte byte
  cases waiting with
  | none => exact .nil
  | some rest made =>
      refine .cons ?_ (ofBytes rest fun byte member => low byte (List.mem_cons_of_mem _ member))
      rw [signedChar_low (low _ List.mem_cons_self)]
      exact made

end Waiting

/-! ## The key a check has reported -/

/-- A check has reported the key in front. An escape in front has not been translated yet:
what had been received by then, as far as it waits, is the beginning of no sequence. -/
def Reported (line : SerialLine) (start : Nat) (pieces : List (List UInt8)) (bytes : List UInt8)
    (key : Int) (clock : Nat) : Prop :=
  ∃ piece more first rest, pieces = piece :: more ∧ bytes = first :: rest ∧
    Answers line start piece key clock first.toNat ∧
    (first = 0x1B → ∃ seen, seen ≠ [] ∧ seen <+: bytes ∧ NoSequence seen ∧
      (received line clock).length = start + seen.length)

namespace Reported

variable {start clock : Nat} {pieces : List (List UInt8)} {bytes : List UInt8} {key : Int}

/-- What arrives later does not change what was reported. -/
theorem append (reported : Reported line start pieces bytes key clock) (fresh : List UInt8) :
    Reported line start (pieces ++ singles fresh) (bytes ++ fresh) key clock := by
  obtain ⟨piece, more, first, rest, rfl, rfl, answers, escape⟩ := reported
  refine ⟨piece, more ++ singles fresh, first, rest ++ fresh, rfl, rfl, answers, fun isEscape => ?_⟩
  obtain ⟨seen, some_, front, none_, length⟩ := escape isEscape
  exact ⟨seen, some_, front.trans (List.prefix_append _ _), none_, length⟩

/-- The sequence that the reported escape begins has been completed since. -/
theorem replaced {codes rest : List UInt8} {ascii : UInt8} {more : List (List UInt8)}
    (reported : Reported line start pieces (codes ++ rest) key clock)
    (listed : KeySequence codes ascii.toNat) :
    Reported line start (codes :: more) (ascii :: rest) key clock := by
  obtain ⟨piece, _, first, _, _, front, answers, escape⟩ := reported
  obtain ⟨tail, isCodes, -⟩ := listed.front
  have isEscape : first = 0x1B := by
    rw [isCodes] at front
    exact (List.cons.inj front).1.symm
  subst isEscape
  obtain ⟨seen, some_, front, none_, length⟩ := escape rfl
  have isKey : key = 0x1B := by
    rcases answers with same | ⟨-, control, -⟩
    · exact same.symm
    · exact absurd control.control (by decide)
  have cut : seen.length < codes.length := by
    by_contra long
    exact none_ codes _ listed
      (List.prefix_of_prefix_length_le (List.prefix_append _ _) front (by omega))
  have begun : 0 < seen.length := List.length_pos_of_ne_nil some_
  refine ⟨codes, more, ascii, rest, rfl, rfl, Or.inr ⟨isKey, listed, by omega, by omega⟩, ?_⟩
  rintro rfl
  exact absurd listed.control (by decide)

end Reported

/-! ## The invariant -/

/-- Keys are got one event after the other. -/
theorem gotKeys_append (events more : List KeyEvent) :
    gotKeys (events ++ more) = gotKeys events ++ gotKeys more := List.filterMap_append

/-- A look at the line gets no key. -/
@[simp] theorem gotKeys_checkkey (key : Int) (clock : Nat) :
    gotKeys [.checkkey key clock] = [] := rfl

/-- A `getkey` gets its key. -/
@[simp] theorem gotKeys_getkey (key : Int) : gotKeys [.getkey key] = [key] := rfl

/-- An event of a run that has grown is the new one, or it was there before. -/
theorem split_snoc {events before rest : List KeyEvent} {last event : KeyEvent}
    (split : events ++ [last] = before ++ event :: rest) :
    (rest = [] ∧ events = before ∧ last = event) ∨
      ∃ more, rest = more ++ [last] ∧ events = before ++ event :: more := by
  rcases rest.eq_nil_or_concat' with rfl | ⟨more, other, rfl⟩
  · obtain ⟨same, here⟩ := List.append_inj' split rfl
    exact Or.inl ⟨rfl, same, List.head_eq_of_cons_eq here⟩
  · rw [← List.cons_append, ← List.append_assoc] at split
    obtain ⟨same, here⟩ := List.append_inj' split rfl
    rw [List.head_eq_of_cons_eq here]
    exact Or.inr ⟨more, rfl, same⟩

/-- The stream so far is cut into the pieces of the keys got and of what waits. -/
structure Follows (line : SerialLine) (events : List KeyEvent) (input : SerialInput)
    (got pieces : List (List UInt8)) : Prop where
  bounds : 0 ≤ input.npending ∧ input.npending ≤ sizeofInputBuf
  stream : (got ++ pieces).flatten = received line input.clock
  keys : List.Forall₂ KeyOf got (gotKeys events)
  waiting : Waiting pieces input.pending
  low : ∀ byte ∈ input.pending, byte < 0x80
  answered : ∀ before key clock checks answer after,
    events = before ++ .checkkey key clock :: (checks ++ .getkey answer :: after) →
    key ≠ -1 → (∀ event ∈ checks, event.got = none) →
    ∃ earlier piece later, got = earlier ++ piece :: later ∧
      earlier.length = (gotKeys before).length ∧
      Answers line earlier.flatten.length piece key clock answer
  reported : ∀ before key clock checks,
    events = before ++ .checkkey key clock :: checks → key ≠ -1 →
    (∀ event ∈ checks, event.got = none) →
    Reported line got.flatten.length pieces input.pending key clock

namespace Follows

variable {events : List KeyEvent} {got pieces : List (List UInt8)}

/-- Nothing has been got from the start. -/
theorem start : Follows line [] .start [] [] where
  bounds := ⟨le_rfl, by decide⟩
  stream := rfl
  keys := .nil
  waiting := .none
  low := by simp [SerialInput.pending, SerialInput.start, bytesAt]
  answered := by simp
  reported := by simp

/-- What follows the line explains its keys. -/
theorem explains (follows : Follows line events input got pieces) :
    Explains line events input (got ++ pieces) where
  stream := follows.stream
  keys := List.rel_append follows.keys (follows.waiting.forall₂ follows.low)
  reported before key clock checks answer after split some_ onlyChecks := by
    obtain ⟨earlier, piece, later, rfl, count, answers⟩ :=
      follows.answered before key clock checks answer after split some_ onlyChecks
    exact ⟨earlier, piece, later ++ pieces, by simp, count, answers⟩

/-- The loop of a filling. -/
theorem fillLoop (follows : Follows line events input got pieces) (nowait : Bool) (i : Nat)
    (low : LowBytes line (input.fillLoop hardware line nowait i).clock) :
    ∃ more, Follows line events (input.fillLoop hardware line nowait i) got more := by
  obtain ⟨bounds, fresh, grown, waits⟩ :=
    SerialInput.pending_fillLoop nowait i input follows.bounds.1 follows.bounds.2 low
  refine ⟨pieces ++ singles fresh, bounds, ?_, follows.keys, ?_, ?_, follows.answered, ?_⟩
  · rw [← List.append_assoc, List.flatten_append, follows.stream, flatten_singles, grown]
  · rw [waits]
    exact follows.waiting.append fresh
  · intro byte member
    rw [waits, List.mem_append] at member
    rcases member with old | new
    · exact follows.low byte old
    · exact low byte (by rw [grown]; exact List.mem_append_right _ new)
  · intro before key clock checks split some_ onlyChecks
    rw [waits]
    exact (follows.reported before key clock checks split some_ onlyChecks).append fresh

/-- The translation after it. -/
theorem translate (follows : Follows line events input got pieces) {after : SerialInput}
    (translates : input.Translates after) :
    ∃ more, Follows line events after got more ∧ NoSequence after.pending := by
  cases translates with
  | unchanged none_ => exact ⟨pieces, follows, none_⟩
  | replaced codes ascii rest listed before_ after_ count clock =>
      have control : ascii.toNat < 0x1B := by exact_mod_cast listed.control
      obtain ⟨tail, isCodes, some_⟩ := listed.front
      have cut : pieces = singles (codes ++ rest) := by
        have waiting := follows.waiting
        rw [before_, isCodes] at waiting
        rw [isCodes]
        exact waiting.of_escape
      have length : input.npending.toNat = codes.length + rest.length := by
        rw [← SerialInput.length_pending, before_, List.length_append]
      have bounds := follows.bounds
      have long : 2 ≤ codes.length := by simp [isCodes]
      refine ⟨codes :: singles rest, ⟨?_, ?_, follows.keys, ?_, ?_, follows.answered, ?_⟩, ?_⟩
      · rw [count]
        constructor <;> omega
      · rw [clock, ← follows.stream, cut]
        simp
      · rw [after_]
        exact .some rest (.sequence listed)
      · intro byte member
        rw [after_] at member
        rcases List.mem_cons.mp member with rfl | member
        · exact UInt8.lt_iff_toNat_lt.mpr (Nat.lt_trans control (by decide))
        · exact follows.low byte (by rw [before_]; exact List.mem_append_right _ member)
      · intro before key clock checks split some_ onlyChecks
        have reported := follows.reported before key clock checks split some_ onlyChecks
        rw [before_] at reported
        rw [after_]
        exact reported.replaced listed
      · rw [after_]
        apply NoSequence.of_front
        rintro rfl
        exact absurd control (by decide)

/-- A filling. -/
theorem fill (follows : Follows line events input got pieces) (nowait : Bool)
    (low : LowBytes line (input.fillInputBuf hardware line nowait).clock) :
    ∃ more, Follows line events (input.fillInputBuf hardware line nowait) got more ∧
      NoSequence (input.fillInputBuf hardware line nowait).pending := by
  have translates := (input.fillLoop hardware line nowait 0).translates
  have clock : (input.fillInputBuf hardware line nowait).clock =
      (input.fillLoop hardware line nowait 0).clock := translates.same_clock
  rw [clock] at low
  obtain ⟨more, filled⟩ := follows.fillLoop nowait 0 low
  exact filled.translate translates

/-- Behind an untranslated escape, everything that waits is as it was received. -/
theorem length_of_escape (follows : Follows line events input got pieces)
    (waits : 0 < input.npending) (escape : input.inputBuf 0 = 0x1B) :
    (received line input.clock).length = got.flatten.length + input.pending.length := by
  have waiting := follows.waiting
  rw [SerialInput.pending_cons waits, escape] at waiting
  rw [← follows.stream, waiting.of_escape, SerialInput.pending_cons waits, escape]
  rw [List.flatten_append, List.length_append, flatten_singles]

/-- The checks since then have got no key. -/
theorem length_got (follows : Follows line events input got pieces)
    {before checks : List KeyEvent} {key : Int} {clock : Nat}
    (split : events = before ++ .checkkey key clock :: checks)
    (onlyChecks : ∀ event ∈ checks, event.got = none) :
    got.length = (gotKeys before).length := by
  have none_ : gotKeys checks = [] := List.filterMap_eq_nil_iff.mpr onlyChecks
  rw [follows.keys.length_eq, split, ← List.singleton_append, gotKeys_append, gotKeys_append, none_]
  simp

/-- A check reports the key in front of a buffer that has just been filled. -/
theorem checkkey (follows : Follows line events input got pieces)
    (none_ : NoSequence input.pending) :
    Follows line (events ++ [.checkkey
      (if input.npending ≠ 0 then signedChar (input.inputBuf 0) else -1) input.clock])
      input got pieces where
  bounds := follows.bounds
  stream := follows.stream
  keys := by
    rw [gotKeys_append, gotKeys_checkkey, List.append_nil]
    exact follows.keys
  waiting := follows.waiting
  low := follows.low
  answered before key clock checks answer after split some_ onlyChecks := by
    rcases split_snoc split with ⟨none_, -, -⟩ | ⟨rest, tail, front⟩
    · exact absurd none_ (by simp)
    · rcases split_snoc tail.symm with ⟨-, -, differ⟩ | ⟨after, -, rfl⟩
      · exact KeyEvent.noConfusion differ
      · exact follows.answered before key clock checks answer after front some_ onlyChecks
  reported before key clock checks split some_ onlyChecks := by
    rcases split_snoc split with ⟨-, -, here⟩ | ⟨checks, rfl, front⟩
    · obtain ⟨isKey, rfl⟩ := KeyEvent.checkkey.inj here
      have waits : 0 < input.npending := by
        by_contra empty
        have bounds := follows.bounds
        rw [if_neg (by omega)] at isKey
        exact some_ isKey.symm
      rw [if_pos (by omega)] at isKey
      have wait := SerialInput.pending_cons waits
      have waiting := follows.waiting
      rw [wait] at waiting
      obtain _ | ⟨rest, made⟩ := waiting
      have low := follows.low (input.inputBuf 0) (by rw [wait]; exact List.mem_cons_self)
      rw [signedChar_low low] at isKey
      refine ⟨_, _, _, _, rfl, wait, Or.inl isKey, fun escape => ?_⟩
      refine ⟨input.pending, by simp [wait], List.prefix_rfl, none_, ?_⟩
      exact follows.length_of_escape waits escape
    · exact follows.reported before key clock checks front some_ fun event member =>
        onlyChecks event (List.mem_append_left _ member)

/-- The key in front is got. -/
theorem getkey (follows : Follows line events input got pieces) (some_ : input.npending ≠ 0) :
    ∃ piece more, Follows line (events ++ [.getkey (signedChar (input.inputBuf 0))])
      input.takeKey (got ++ [piece]) more := by
  have bounds := follows.bounds
  have waits : 0 < input.npending := by omega
  have wait := SerialInput.pending_takeKey waits
  have low := follows.low
  have waiting := follows.waiting
  rw [wait] at low waiting
  have signed := signedChar_low (low _ List.mem_cons_self)
  generalize pieces_ : pieces = cut at waiting
  obtain _ | ⟨rest, made⟩ := waiting
  rename_i piece
  subst pieces_
  refine ⟨piece, singles input.takeKey.pending, ?_⟩
  constructor
  · change 0 ≤ input.npending - 1 ∧ input.npending - 1 ≤ _
    constructor <;> omega
  · rw [List.append_assoc]
    exact follows.stream
  · rw [gotKeys_append, gotKeys_getkey, signed]
    exact List.rel_append follows.keys (.cons made .nil)
  · exact .of_singles _
  · exact fun byte member => low byte (List.mem_cons_of_mem _ member)
  · intro before key clock checks answer after split some_ onlyChecks
    rcases split_snoc split with ⟨none_, -, -⟩ | ⟨rest, tail, front⟩
    · exact absurd none_ (by simp)
    · rcases split_snoc tail.symm with ⟨-, rfl, here⟩ | ⟨after, -, rfl⟩
      · obtain ⟨_, _, _, _, isPieces, isBytes, answers, -⟩ :=
          follows.reported before key clock rest front some_ onlyChecks
        obtain ⟨rfl, -⟩ := List.cons.inj isPieces
        obtain ⟨rfl, -⟩ := List.cons.inj (wait.symm.trans isBytes)
        rw [← KeyEvent.getkey.inj here, signed]
        exact ⟨got, piece, [], rfl, follows.length_got front onlyChecks, answers⟩
      · obtain ⟨earlier, piece', later, rfl, count, answers⟩ :=
          follows.answered before key clock checks answer after front some_ onlyChecks
        exact ⟨earlier, piece', later ++ [piece], by simp, count, answers⟩
  · intro before key clock checks split some_ onlyChecks
    rcases split_snoc split with ⟨-, -, differ⟩ | ⟨rest, rfl, -⟩
    · exact KeyEvent.noConfusion differ
    · exact absurd (onlyChecks _ List.mem_concat_self) (by simp [KeyEvent.got])

end Follows

/-! ## Runs -/

/-- A call of `serial_getkey` that has returned: its fillings, and the key. -/
theorem Follows.serialGetkey {events : List KeyEvent} {got pieces : List (List UInt8)}
    (follows : Follows line events input got pieces) {fillings : Nat} {key : Int}
    {next : SerialInput} (returned : input.serialGetkey hardware line fillings = some (key, next))
    (low : LowBytes line next.clock) :
    ∃ got more, Follows line (events ++ [.getkey key]) next got more := by
  induction fillings generalizing input pieces with
  | zero => exact absurd returned (by simp [SerialInput.serialGetkey])
  | succ fillings ih =>
      rw [SerialInput.serialGetkey] at returned
      split at returned
      case isTrue empty =>
        have later := SerialInput.le_clock_serialGetkey returned
        obtain ⟨more, filled, -⟩ := follows.fill false (low.mono later)
        exact ih filled returned
      case isFalse some_ =>
        obtain ⟨rfl, rfl⟩ := Prod.mk.inj (Option.some.inj returned)
        obtain ⟨more, filled, -⟩ := follows.fill false low
        obtain ⟨piece, more, took⟩ := filled.getkey some_
        exact ⟨got ++ [piece], more, took⟩

/-- Every run on bytes below 0x80 keeps the invariant. -/
theorem SerialRun.follows {events : List KeyEvent} (run : SerialRun hardware line events input)
    (low : LowBytes line input.clock) : ∃ got pieces, Follows line events input got pieces := by
  induction run with
  | start => exact ⟨[], [], .start⟩
  | checkkey prior ih =>
      obtain ⟨got, pieces, follows⟩ := ih (low.mono (SerialInput.le_clock_fillInputBuf true _))
      obtain ⟨more, filled, none_⟩ := follows.fill true low
      exact ⟨got, more, filled.checkkey none_⟩
  | getkey prior returned ih =>
      obtain ⟨got, pieces, follows⟩ := ih (low.mono (SerialInput.le_clock_serialGetkey returned))
      exact follows.serialGetkey returned low

/-- The keys got are `char`s. -/
theorem SerialRun.gotKeys_lt {events : List KeyEvent} (run : SerialRun hardware line events input) :
    ∀ key ∈ gotKeys events, key < 0x80 := by
  induction run with
  | start => simp [gotKeys]
  | checkkey prior ih =>
      rw [gotKeys_append, gotKeys_checkkey, List.append_nil]
      exact ih
  | getkey prior returned ih =>
      intro key member
      rw [gotKeys_append, gotKeys_getkey, List.mem_append, List.mem_singleton] at member
      rcases member with earlier | rfl
      · exact ih key earlier
      · exact SerialInput.serialGetkey_lt returned

/-! ## Bytes from 0x80 on -/

/-- A key below 0x80 is made of low bytes. -/
theorem KeyOf.low {bytes : List UInt8} {key : Int} (made : KeyOf bytes key) (small : key < 0x80) :
    ∀ byte ∈ bytes, byte < 0x80 := by
  cases made with
  | byte c =>
      intro byte member
      rw [List.mem_singleton.mp member, UInt8.lt_iff_toNat_lt]
      exact_mod_cast small
  | sequence listed =>
      cases listed with
      | three listed =>
          have ofThree : ∀ entry ∈ threeCodeTable, entry.1 < 0x80 := by simp [threeCodeTable]
          simpa using ofThree _ listed
      | four listed =>
          have ofFour : ∀ entry ∈ fourCodeTable,
              entry.1.toUInt8 < 0x80 ∧ (entry.1 >>> 8).toUInt8 < 0x80 := by
            simp [fourCodeTable]
          simpa using ofFour _ listed

/-- Pieces that make keys below 0x80 have only bytes below 0x80. -/
theorem low_of_keys {pieces : List (List UInt8)} {keys : List Int}
    (made : List.Forall₂ KeyOf pieces keys) (small : ∀ key ∈ keys, key < 0x80) :
    ∀ byte ∈ pieces.flatten, byte < 0x80 := by
  induction made with
  | nil => simp
  | cons first rest ih =>
      intro byte member
      rw [List.flatten_cons, List.mem_append] at member
      rcases member with here | later
      · exact first.low (small _ List.mem_cons_self) byte here
      · exact ih (fun key among => small key (List.mem_cons_of_mem _ among)) byte later

/-- A run that is explained has read low bytes only. -/
theorem SerialRun.low_of_explains {events : List KeyEvent}
    (run : SerialRun hardware line events input) {pieces : List (List UInt8)}
    (explains : Explains line events input pieces) : LowBytes line input.clock := by
  have low := low_of_keys explains.keys fun key member => by
    rcases List.mem_append.mp member with got | waits
    · exact run.gotKeys_lt key got
    · obtain ⟨byte, -, rfl⟩ := List.mem_map.mp waits
      exact signedChar_lt byte
  rwa [explains.stream] at low

/-- The keys are those of the stream exactly as long as only bytes below 0x80 are received. -/
theorem keepsKeys_iff {events : List KeyEvent} (run : SerialRun hardware line events input) :
    KeepsKeys line events input ↔ ∀ byte ∈ received line input.clock, byte < 0x80 := by
  constructor
  · rintro ⟨-, pieces, explains⟩
    exact run.low_of_explains explains
  · intro low
    obtain ⟨got, pieces, follows⟩ := run.follows low
    exact ⟨follows.bounds, got ++ pieces, follows.explains⟩

/-- A line on which an arrow key has arrived. -/
def upArrow : SerialLine := fun n => ([0x1B, 0x5B, 0x41] : List UInt8)[n]?

/-- An arrow key comes through as one key. -/
theorem keepsKeys_upArrow : ∃ events input, SerialRun .protocol upArrow events input ∧
    KeepsKeys upArrow events input := by
  have run : SerialRun .protocol upArrow _ _ := .checkkey (.checkkey (.checkkey .start))
  refine ⟨_, _, run, (keepsKeys_iff run).mpr fun byte member => ?_⟩
  obtain ⟨n, -, arrived⟩ := List.mem_filterMap.mp member
  have small : ∀ byte ∈ ([0x1B, 0x5B, 0x41] : List UInt8), byte < 0x80 := by simp
  exact small byte (List.mem_of_getElem? arrived)

/-- A line on which one byte from 0x80 on has arrived. -/
def accented : SerialLine := fun n => ([0xE9] : List UInt8)[n]?

/-- The firmware's serial protocol loses it. -/
theorem accented_lost : ¬ ∀ (hardware : SerialHardware) (line : SerialLine)
    (events : List KeyEvent) (input : SerialInput),
    SerialRun hardware line events input → KeepsKeys line events input := by
  intro claimed
  have run : SerialRun .protocol accented _ _ := .checkkey .start
  obtain ⟨-, pieces, explains⟩ := claimed _ _ _ _ run
  have low := run.low_of_explains explains
  rw [SerialInput.clock_serialCheckkey ⟨le_rfl, by decide⟩] at low
  exact absurd (low 0xE9 (by decide)) (by decide)

end GrubLegacy.Console
