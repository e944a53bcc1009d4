import GrubLegacy.Partition.DiskBlocks

/-!
# Opening a partition

`real_open_partition` of `disk_io.c`, called to open a partition and not to list them
all. What it opens is compared with what a walk over the disk finds.
-/

namespace GrubLegacy.Partition

open Base Stage2

/-! ## The function -/

/-- The current drive: whether its number is that of a disk or of the CD-ROM drive, and
the sectors it has, if its geometry is known or can be found out. -/
structure CurrentDrive extends PartDrive where
  known : Bool
  totalSectors : Option Nat

/-- `sane_partition` -/
def sanePartition (drive : CurrentDrive) (currentPartition : Nat) : Bool :=
  drive.network ||
    (currentPartition &&& 0xFF000000 = 0 && drive.known && currentPartition &&& 0xFF = 0xFF &&
      (currentPartition &&& 0xFF00 = 0xFF00 || currentPartition &&& 0xFF00 < 0x800) &&
      (currentPartition >>> 16 = 0xFF || drive.hardDisk))

/-- `bsd_part` -/
def bsdPart (currentPartition : Nat) : Nat := (currentPartition >>> 8) &&& 0xFF

/-- The partition that was found is the destination. -/
def isDestination (destPartition : Nat) (state : PartState) : Bool :=
  destPartition = state.partition ||
    (destPartition >>> 16 = 0xFF && (destPartition >>> 8) &&& 0xFF = bsdPart state.partition)

/-- The body of the loop, after a call of `next`; `again` is the next round. -/
def afterNext (destPartition : Nat) (again : PartState → Option (PartState × Bool)) :
    Scan PartState → Option (PartState × Bool)
  | .fault => none
  | .stop state => some (state, false)
  | .found state =>
    if state.type ≠ 0 then
      let state := { state with errnum := .none }
      if isDestination destPartition state then some (state, true) else again state
    else again state

/-- The loop, for a number of rounds. -/
def openLoop (drive : PartDrive) (destPartition : Nat) :
    (rounds : Nat) → PartState → Option (PartState × Bool)
  | 0, _ => none
  | rounds + 1, state =>
    afterNext destPartition (openLoop drive destPartition rounds)
      (nextPartition drive destPartition state)

/-- `real_open_partition (0)`. The state holds `current_partition`, `current_slice`,
`part_start` and `part_length`, and the variables on the stack. -/
def realOpenPartition (drive : CurrentDrive) (rounds : Nat) (state : PartState) :
    Option (PartState × Bool) :=
  if drive.network then some (state, true)
  else if !sanePartition drive state.partition then
    some ({ state with errnum := .devValues }, false)
  else
    let state := { state with bsdEvilHack := 0, type := 0, start := 0 }
    match drive.totalSectors with
    | none => some ({ state with errnum := .noDisk }, false)
    | some totalSectors =>
      let state := { state with len := totalSectors }
      if state.partition = 0xFFFFFF then some (state, true)
      else openLoop drive.toPartDrive state.partition rounds { state with partition := 0xFFFFFF }

/-! ## Errors -/

/-- A call that finds something leaves no error, and one that does not leaves one. -/
inductive Reported : Scan PartState → Prop
  | found {state : PartState} (clear : state.errnum = .none) : Reported (.found state)
  | stop {state : PartState} (failed : state.errnum ≠ .none) : Reported (.stop state)
  | fault : Reported .fault

/-- `rawread` leaves an error where it fails. -/
def Honest (drive : PartDrive) : Prop :=
  ∀ sector byteOffset byteLen errnum,
    drive.rawread sector byteOffset byteLen = .error errnum → errnum ≠ .none

section Errors

variable {drive : PartDrive} {state : PartState}

/-- A read that fails reports its error, and else what follows does. -/
theorem reported_readBuf (honest : Honest drive) {sector : Nat}
    {byteOffset byteLen : Int} {next : PartState → Scan PartState}
    (onward : ∀ buf, Reported (next { state with buf })) :
    Reported (readBuf drive state sector byteOffset byteLen next) := by
  rw [readBuf]
  split
  case h_1 errnum read => exact .stop (honest _ _ _ _ read)
  case h_2 bytes read =>
      split
      · exact .fault
      · exact onward _

/-- A search of the label reports, -/
theorem reported_searchBsd (clear : state.errnum = .none) (left i : Nat) :
    Reported (searchBsd drive state left i) := by
  induction left generalizing i with
  | zero => exact .stop nofun
  | succ left ih =>
      rw [searchBsd]
      split
      · exact .fault
      · split
        · exact .found clear
        · exact ih (i + 1)

/-- so the next BSD partition does, -/
theorem reported_nextBsdPartition (honest : Honest drive) (clear : state.errnum = .none) :
    Reported (nextBsdPartition drive state) := by
  rw [nextBsdPartition]
  split
  · split
    · exact .stop (by rintro ⟨⟩)
    · apply reported_readBuf honest
      intro buf
      dsimp only
      split
      · exact .stop (by rintro ⟨⟩)
      · apply reported_searchBsd
        exact clear
  · exact reported_searchBsd clear _ _

/-- the search of the GPT -/
theorem reported_searchGpt (honest : Honest drive) {onFound : PartState → Scan PartState}
    (reports : ∀ state, state.errnum = .none → Reported (onFound state)) (left : Nat)
    (clear : state.errnum = .none) : Reported (searchGpt drive onFound left state) := by
  induction left generalizing state with
  | zero => exact .stop nofun
  | succ left ih =>
      rw [searchGpt]
      apply reported_readBuf honest
      intro buf
      dsimp only
      split
      · exact reports _ clear
      · exact ih clear

/-- and its next slice, -/
theorem reported_nextGptSlice (honest : Honest drive) (clear : state.errnum = .none) :
    Reported (nextGptSlice drive state) := by
  apply reported_searchGpt honest
  · intro state clear
    exact .found clear
  · exact clear

/-- a slot of a table, -/
theorem reported_takePcSlot {again : PartState → Scan PartState} {no : Int}
    (clear : state.errnum = .none)
    (onward : state.entry = 3 → ∀ after : PartState, after.entry = -1 → after.errnum = .none →
      Reported (again after)) :
    Reported (takePcSlot drive again no state) := by
  rw [takePcSlot]
  dsimp only
  split
  case isTrue last =>
      rw [pcSliceMax] at last
      split
      · exact .stop (by rintro ⟨⟩)
      · exact onward (by omega) _ rfl clear
  case isFalse =>
      split
      · exact .fault
      · exact .found clear

/-- its table, -/
theorem reported_readPcTable (honest : Honest drive) {again : PartState → Scan PartState}
    {no : Int} (clear : state.errnum = .none)
    (onward : state.entry = 3 → ∀ after : PartState, after.entry = -1 → after.errnum = .none →
      Reported (again after)) :
    Reported (readPcTable drive again no state) := by
  rw [readPcTable, readSector]
  apply reported_readBuf honest
  intro buf
  dsimp only
  split
  · exact .stop (by rintro ⟨⟩)
  · split
    · apply reported_readBuf honest
      intro buf
      dsimp only
      split
      · apply reported_nextGptSlice honest
        exact clear
      · apply reported_readBuf honest
        intro buf
        apply reported_takePcSlot
        · exact clear
        · exact onward
    · apply reported_takePcSlot
      · exact clear
      · exact onward

/-- a call -/
theorem reported_pcSliceCall (honest : Honest drive) {again : PartState → Scan PartState}
    (clear : state.errnum = .none)
    (onward : state.entry = 3 → ∀ after : PartState, after.entry = -1 → after.errnum = .none →
      Reported (again after)) :
    Reported (pcSliceCall drive again state) := by
  rw [pcSliceCall]
  split
  · apply reported_readPcTable honest
    · exact clear
    · intro last
      have last : (-1 : Int) = 3 := last
      omega
  · exact reported_readPcTable honest clear onward

/-- and so the next slice of the PC kind. -/
theorem reported_nextPcSlice (honest : Honest drive) (clear : state.errnum = .none) :
    Reported (nextPcSlice drive state) := by
  apply reported_pcSliceCall honest clear
  intro _ after entered clear
  apply reported_pcSliceCall honest clear
  intro last
  omega

end Errors

/-! ## What is asked for -/

/-- A slice, a BSD partition of a slice, or a BSD partition without a slice, with the numbers
and letters a device name can have. -/
inductive Request where
  | slice (no : Fin 255)
  | part (no : Fin 255) (letter : Fin 8)
  | bsd (letter : Fin 8)

/-- The value of `current_partition` that asks for it. -/
def Request.dest : Request → Nat
  | .slice no => packed no 0xFF
  | .part no letter => packed no letter
  | .bsd letter => packed 0xFF letter

/-- The name is that of a partition. -/
def Request.names : Request → Found → Bool
  | .slice no, item => item.partition = packed no 0xFF
  | .part no letter, item => item.partition = packed no letter
  | .bsd letter, item => bsdPart item.partition = letter

/-- The first partition of this name that is not empty. -/
def Request.first (request : Request) (items : List Found) : Option Found :=
  items.find? fun item => item.type ≠ 0 && request.names item

/-- The partitions in the label of the first slice of a BSD type. -/
def firstLabel : List Block → List Found
  | [] => []
  | .plain _ :: rest => firstLabel rest
  | .bsd _ parts :: _ => parts

/-- What is opened: for a letter without a slice, only the first slice of a BSD type counts. -/
def Request.opens (request : Request) (blocks : List Block) : Option Found :=
  match request with
  | .bsd _ => request.first (firstLabel blocks)
  | _ => request.first (items blocks)

/-- The outcome of opening what should be opened. -/
inductive Opened (wanted : Option Found) : Option (PartState × Bool) → Prop
  | opened {state : PartState} (isWanted : wanted = some (found state)) :
      Opened wanted (some (state, true))
  | failed {state : PartState} (none_ : wanted = none) (failed : state.errnum ≠ .none) :
      Opened wanted (some (state, false))

section Names

variable {state : PartState} {no i : Nat}

/-- Both macros give the BSD partition. -/
theorem bsdPart_eq (partition : Nat) : bsdPart partition = bsdPartNo partition := by
  rw [bsdPart, bsdPartNo, Nat.shiftRight_and_distrib]
  rfl

/-- The comparison of packed numbers compares names. -/
theorem isDestination_eq (request : Request) (small : no < 255) (few : i < 256)
    (isName : state.partition = packed no i) :
    isDestination request.dest state = request.names (found state) := by
  have partition : (found state).partition = packed no i := isName
  cases request with
  | slice no' =>
      have other : ¬ packed no' 0xFF >>> 16 = 0xFF := by
        rw [packed_shiftRight (by omega) (by decide)]
        omega
      rw [isDestination, Request.dest, Request.names, partition, isName, decide_eq_false other,
        Bool.false_and, Bool.or_false]
      exact decide_eq_decide.mpr eq_comm
  | part no' letter =>
      have other : ¬ packed no' letter >>> 16 = 0xFF := by
        rw [packed_shiftRight (by omega) (by omega)]
        omega
      rw [isDestination, Request.dest, Request.names, partition, isName, decide_eq_false other,
        Bool.false_and, Bool.or_false]
      exact decide_eq_decide.mpr eq_comm
  | bsd letter =>
      have any : packed 0xFF letter >>> 16 = 0xFF := packed_shiftRight (by decide) (by omega)
      have other : ¬ packed 0xFF letter = packed no i := by
        intro same
        have numbers := (packed_injective (by decide) (by omega) (by omega) few same).1
        omega
      have isLetter : (packed 0xFF letter >>> 8) &&& 0xFF = letter := by
        have asPart := bsdPart_eq (packed 0xFF letter)
        rw [bsdPartNo_packed (by decide) (by omega)] at asPart
        exact asPart
      rw [isDestination, Request.dest, Request.names, partition, isName, decide_eq_false other,
        decide_eq_true any, Bool.false_or, Bool.true_and, isLetter]
      exact decide_eq_decide.mpr eq_comm

end Names

/-! ## The loop -/

section Rounds

variable {state : PartState} {no i : Nat}

/-- An error that is clear may be cleared again. -/
theorem clear_again (clear : state.errnum = .none) : { state with errnum := .none } = state := by
  cases state
  cases clear
  rfl

/-- One round of the loop. -/
theorem afterNext_found (request : Request) (small : no < 255) (few : i < 256)
    (isName : state.partition = packed no i) (clear : state.errnum = .none)
    (again : PartState → Option (PartState × Bool)) :
    afterNext request.dest again (.found state) =
      if (found state).type ≠ 0 && request.names (found state) then some (state, true)
      else again state := by
  rw [afterNext, clear_again clear, ← isDestination_eq request small few isName]
  have type : (found state).type = state.type := rfl
  rw [type]
  by_cases empty : state.type = 0
  · simp [empty]
  · simp [empty]

end Rounds

section Loop

variable {drive : PartDrive}

/-- What is behind the partitions of a slice of a BSD type. -/
def Request.behind (request : Request) (rest : List Block) : Option Found :=
  match request with
  | .bsd _ => none
  | _ => request.opens rest

/-- The first one found is the next one, if this is named and not empty. -/
theorem first_cons (request : Request) (item : Found) (rest : List Found) :
    request.first (item :: rest) =
      if item.type ≠ 0 && request.names item then some item else request.first rest := by
  rw [Request.first, List.find?_cons]
  cases (decide (item.type ≠ 0) && request.names item) with
  | true => rfl
  | false => rfl

/-- The name of a slice is not that of a BSD partition. -/
theorem names_bsd_slice {letter : Fin 8} {slice : Found} {no : Nat} (small : no < 255)
    (isName : slice.partition = packed no 0xFF) : (Request.bsd letter).names slice = false := by
  rw [Request.names, isName, bsdPart_eq, bsdPartNo_packed (by omega) (by decide)]
  exact decide_eq_false (by omega)

/-- A plain slice is opened if it is named, -/
theorem opens_plain (request : Request) {slice : Found} {no : Nat} (small : no < 255)
    (isName : slice.partition = packed no 0xFF) (rest : List Block) :
    request.opens (.plain slice :: rest) =
      if slice.type ≠ 0 && request.names slice then some slice else request.opens rest := by
  cases request with
  | slice no' => exact first_cons _ _ _
  | part no' letter => exact first_cons _ _ _
  | bsd letter =>
      rw [names_bsd_slice small isName, Bool.and_false, if_neg (by decide)]
      rfl

/-- and one with a label, or else a partition of it. -/
theorem opens_bsd (request : Request) {slice : Found} {parts : List Found} {no : Nat}
    (small : no < 255) (isName : slice.partition = packed no 0xFF) (rest : List Block) :
    request.opens (.bsd slice parts :: rest) =
      if slice.type ≠ 0 && request.names slice then some slice
      else (request.first parts).or (request.behind rest) := by
  have behind : ∀ other : Request, other.first (items (.bsd slice parts :: rest)) =
      if slice.type ≠ 0 && other.names slice then some slice
      else (other.first parts).or (other.first (items rest)) := by
    intro other
    have split_ : items (.bsd slice parts :: rest) = slice :: (parts ++ items rest) := rfl
    rw [split_, first_cons, Request.first, List.find?_append]
    rfl
  cases request with
  | slice no' => exact behind _
  | part no' letter => exact behind _
  | bsd letter =>
      rw [names_bsd_slice small isName, Bool.and_false, if_neg (by decide)]
      exact (Option.or_none).symm

/-- The partitions of a slice are gone through before what is behind them. -/
theorem opened_parts (fitting : Fitting drive) (honest : Honest drive) (request : Request)
    {no type rest : Nat} (small : no < 255) (bsd : isPcSliceTypeBsd type = true)
    {after : PartState → Prop} {wanted : Option Found}
    (atEnd : ∀ last rounds, after last → last.errnum ≠ .none → rest ≤ rounds →
      Opened wanted (afterNext request.dest (openLoop drive request.dest rounds)
        (afterBsd drive request.dest (.stop last))))
    {parts : List Found}
    (named : ∀ part ∈ parts,
      (∃ i < 0xFF, part.partition = packed no i) ∧ part.type &&& 0xFF = type)
    {outcome : Scan PartState}
    (finds : FindsThen (nextBsdPartition drive) found after outcome parts)
    (reported : Reported outcome)
    (noGpt : ∀ state, outcome = .found state → state.gptOffset = 0) {rounds : Nat}
    (enough : parts.length + rest ≤ rounds) :
    Opened ((request.first parts).or wanted)
      (afterNext request.dest (openLoop drive request.dest rounds)
        (afterBsd drive request.dest outcome)) := by
  induction parts generalizing outcome rounds with
  | nil =>
      obtain ⟨last, rfl, holds⟩ := finds
      rw [List.length_nil, Nat.zero_add] at enough
      cases reported with
      | stop failed => exact atEnd last rounds holds failed enough
  | cons part parts ih =>
      obtain ⟨state, rfl, isFound, finds⟩ := finds
      obtain ⟨⟨⟨i, few, isName⟩, isType⟩, later⟩ := List.forall_mem_cons.mp named
      subst isFound
      have gptOffset := noGpt state rfl
      cases reported with
      | found clear =>
          rw [afterBsd, afterNext_found request small (by omega) isName clear, first_cons]
          split
          · exact .opened rfl
          · rw [List.length_cons] at enough
            obtain ⟨rounds, rfl⟩ : ∃ less, rounds = less + 1 := ⟨rounds - 1, by omega⟩
            have isBsd : isPcSliceTypeBsd (state.type &&& 0xFF) = true := by
              rw [← bsd, ← isType]
              rfl
            rw [openLoop, nextPartition_bsd fitting (packed_started small (by omega) isName) gptOffset isBsd]
            apply ih later finds (reported_nextBsdPartition honest clear)
            · intro next goes
              exact (nextBsdPartition_gptOffset goes).trans gptOffset
            · omega

/-- Behind a slice there are no BSD partitions of it. -/
theorem first_part_behind {no : Fin 255} {letter : Fin 8} {rest : List Block}
    (later : Ascending (no + 1) rest) : (Request.part no letter).first (items rest) = none := by
  apply List.find?_eq_none.mpr
  intro item isIn hit
  obtain ⟨no', small, i, few, isName, above⟩ := later.named item isIn
  have names := of_decide_eq_true (Bool.and_eq_true_iff.mp hit).2
  obtain ⟨sameNo, sameLetter⟩ := packed_injective (by omega) few (by omega) (by omega)
    (isName.symm.trans names)
  have behind := above (by omega)
  omega

/-- The errors of a slice stop the walk only where a BSD partition of it is asked for, and
then it is not behind it. -/
theorem opened_behind (request : Request) {state last : PartState} {no rounds : Nat}
    (small : no < 255) (isName : state.partition = packed no 0xFF) (same : InSlice state last)
    (failed : last.errnum ≠ .none) {rest : List Block} (later : Ascending (no + 1) rest)
    (goesOn : Opened (request.opens rest)
      (afterNext request.dest (openLoop drive request.dest rounds)
        (nextPcSlice drive { last with errnum := .none }))) :
    Opened (request.behind rest)
      (afterNext request.dest (openLoop drive request.dest rounds)
        (afterBsd drive request.dest (.stop last))) := by
  have slice : last.partition &&& 0xFF0000 = no <<< 16 := by
    rw [same.slice, isName, packed_slice (by omega) (by decide)]
  rw [afterBsd]
  cases request with
  | slice no' =>
      have whole : (Request.slice no').dest &&& 0xFF00 = 0xFF00 :=
        @packed_letter no' 0xFF (by omega) (by decide)
      rw [if_neg (fun both => both.1 whole)]
      exact goesOn
  | part no' letter =>
      have letters : (Request.part no' letter).dest &&& 0xFF00 = (letter : Nat) <<< 8 :=
        @packed_letter no' letter (by omega) (by omega)
      have numbers : (Request.part no' letter).dest &&& 0xFF0000 = (no' : Nat) <<< 16 :=
        @packed_slice no' letter (by omega) (by omega)
      have isPart : (letter : Nat) <<< 8 ≠ 0xFF00 := by
        rw [Nat.shiftLeft_eq]
        omega
      rw [letters, numbers, slice]
      by_cases here : (no' : Nat) = no
      · subst here
        rw [if_pos ⟨isPart, Or.inr rfl⟩]
        exact .failed (first_part_behind later) failed
      · have elsewhere : ¬ ((no' : Nat) <<< 16 = 0xFF0000 ∨ (no' : Nat) <<< 16 = no <<< 16) := by
          rw [Nat.shiftLeft_eq, Nat.shiftLeft_eq]
          omega
        rw [if_neg (fun both => elsewhere both.2)]
        exact goesOn
  | bsd letter =>
      have letters : (Request.bsd letter).dest &&& 0xFF00 = (letter : Nat) <<< 8 :=
        @packed_letter 0xFF letter (by decide) (by omega)
      have numbers : (Request.bsd letter).dest &&& 0xFF0000 = 0xFF0000 :=
        @packed_slice 0xFF letter (by decide) (by omega)
      have isPart : (letter : Nat) <<< 8 ≠ 0xFF00 := by
        rw [Nat.shiftLeft_eq]
        omega
      rw [letters, numbers, if_pos ⟨isPart, Or.inl rfl⟩]
      exact .failed rfl failed

/-- From the outcome of a call on, the loop opens what should be opened of the blocks. -/
theorem opened_blocks (fitting : Fitting drive) (hard : drive.hardDisk = true)
    (honest : Honest drive) (request : Request) {blocks : List Block} {low : Nat}
    (ascending : Ascending low blocks) {outcome : Scan PartState}
    (walks : WalksBlocks drive outcome blocks) (reported : Reported outcome) {rounds : Nat}
    (enough : (items blocks).length ≤ rounds) :
    Opened (request.opens blocks)
      (afterNext request.dest (openLoop drive request.dest rounds) outcome) := by
  induction blocks generalizing low outcome rounds with
  | nil =>
      obtain ⟨last, rfl⟩ := walks
      cases reported with
      | stop failed =>
          refine .failed ?_ failed
          cases request <;> rfl
  | cons block rest ih =>
      cases block with
      | plain slice =>
          obtain ⟨⟨no, small, isName⟩, plain, later⟩ := ascending
          obtain ⟨state, rfl, rfl, walks⟩ := walks
          have split_ : (items (.plain (found state) :: rest)).length =
              (items rest).length + 1 := by
            rw [items, List.flatMap_cons, List.length_append, Nat.add_comm]
            rfl
          rw [split_] at enough
          cases reported with
          | found clear =>
              rw [afterNext_found request small (by decide) isName clear,
                opens_plain request small isName]
              split
              · exact .opened rfl
              · obtain ⟨rounds, rfl⟩ : ∃ less, rounds = less + 1 := ⟨rounds - 1, by omega⟩
                rw [openLoop, nextPartition_plain fitting hard (packed_started small (by decide) isName)
                  plain]
                apply ih later walks
                · rw [nextSlice]
                  split
                  · exact reported_nextGptSlice honest clear
                  · exact reported_nextPcSlice honest clear
                · omega
      | bsd slice parts =>
          obtain ⟨no, small, _, isName, bsd, named, later⟩ := ascending
          obtain ⟨state, rfl, rfl, gptOffset, finds⟩ := walks
          have split_ : (items (.bsd (found state) parts :: rest)).length =
              parts.length + (items rest).length + 1 := by
            rw [items, List.flatMap_cons, List.length_append, Block.items, List.length_cons]
            exact Nat.add_right_comm _ _ _
          rw [split_] at enough
          cases reported with
          | found clear =>
              rw [afterNext_found request small (by decide) isName clear,
                opens_bsd request small isName]
              split
              · exact .opened rfl
              · obtain ⟨rounds, rfl⟩ : ∃ less, rounds = less + 1 := ⟨rounds - 1, by omega⟩
                rw [openLoop, nextPartition_bsd fitting (packed_started small (by decide) isName)
                  gptOffset bsd]
                refine opened_parts fitting honest request small bsd ?_ named finds
                  (reported_nextBsdPartition honest clear) ?_ (Nat.le_of_succ_le_succ enough)
                · intro last left holds failed enough
                  apply opened_behind request small isName holds.1 failed later
                  exact ih later holds.2 (reported_nextPcSlice honest rfl) enough
                · intro next goes
                  exact (nextBsdPartition_gptOffset goes).trans gptOffset

end Loop

/-! ## Opening -/

/-- What the masks of a slice or a BSD partition leave of another drive's number. -/
private theorem dest_masks : ∀ no < 256, no <<< 16 &&& 0xFF000000 = 0 ∧ no <<< 16 &&& 0xFF = 0 ∧
    no <<< 8 &&& 0xFF000000 = 0 ∧ no <<< 8 &&& 0xFF = 0 := by
  decide +kernel

/-- Names of partitions have no other bits. -/
theorem packed_sane {no i : Nat} (small : no < 256) (few : i < 256) :
    packed no i &&& 0xFF000000 = 0 ∧ packed no i &&& 0xFF = 0xFF := by
  constructor
  · rw [packed, Nat.and_or_distrib_right, Nat.and_or_distrib_right, (dest_masks no small).1,
      (dest_masks i few).2.2.1]
    rfl
  · rw [packed, Nat.and_or_distrib_right, Nat.and_or_distrib_right, (dest_masks no small).2.1,
      (dest_masks i few).2.2.2]
    rfl

/-- A request is the name of something on a hard disk that is not the whole of it. -/
theorem Request.sane (request : Request) {drive : CurrentDrive} (hard : drive.hardDisk = true)
    (known : drive.known = true) :
    sanePartition drive request.dest = true ∧ request.dest ≠ 0xFFFFFF := by
  obtain ⟨no, i, small, few, isName, letters, part⟩ : ∃ no i, no < 256 ∧ i < 256 ∧
      request.dest = packed no i ∧ (i <<< 8 = 0xFF00 ∨ i <<< 8 < 0x800) ∧ ¬ (no = 255 ∧ i = 255) := by
    cases request with
    | slice no => exact ⟨no, 0xFF, by omega, by decide, rfl, Or.inl rfl, by omega⟩
    | part no letter =>
        refine ⟨no, letter, by omega, by omega, rfl, Or.inr ?_, by omega⟩
        rw [Nat.shiftLeft_eq]
        omega
    | bsd letter =>
        refine ⟨0xFF, letter, by decide, by omega, rfl, Or.inr ?_, by omega⟩
        rw [Nat.shiftLeft_eq]
        omega
  obtain ⟨high, low⟩ := packed_sane small few
  constructor
  · rw [sanePartition, isName, high, low, packed_letter small few, known, hard]
    simp [letters]
  · intro whole
    have same : packed no i = packed 0xFF 0xFF := isName.symm.trans (whole.trans (by decide))
    exact part (packed_injective small few (by decide) (by decide) same)

/-- Opening a partition of a hard disk opens the first one of that name that is not empty,
where a letter without a slice is looked for in the first slice of a BSD type; if there is
none, it fails with an error. -/
theorem realOpenPartition_opens {drive : CurrentDrive} (fitting : Fitting drive.toPartDrive)
    (hard : drive.hardDisk = true) (honest : Honest drive.toPartDrive)
    (known : drive.known = true) {totalSectors : Nat}
    (geometry : drive.totalSectors = some totalSectors) {blocks : List Block}
    (disk : DiskBlocks drive.toPartDrive (Dense drive.toPartDrive) blocks) (request : Request)
    {state : PartState} (asks : state.partition = request.dest) (clear : state.errnum = .none)
    {rounds : Nat} (enough : (items blocks).length < rounds) :
    Opened (request.opens blocks) (realOpenPartition drive rounds state) := by
  have local_ : ¬ drive.network = true := by
    rw [fitting.local_]
    decide
  obtain ⟨sane, part⟩ := request.sane hard known
  obtain ⟨rounds, rfl⟩ : ∃ less, rounds = less + 1 := ⟨rounds - 1, by omega⟩
  rw [realOpenPartition, if_neg local_, asks, sane, if_neg (by decide), geometry]
  dsimp only
  rw [if_neg part, openLoop]
  apply opened_blocks fitting hard honest request (disk.ascending fitting)
  · exact disk.walks fitting hard rfl
  · rw [nextPartition_first fitting hard rfl]
    exact reported_nextPcSlice honest clear
  · omega

/-- What is returned says whether there is something to open. -/
theorem Opened.returns {wanted : Option Found} {result : Option (PartState × Bool)}
    (opened : Opened wanted result) : result.map Prod.snd = some wanted.isSome := by
  cases opened with
  | opened isWanted => rw [isWanted, Option.map_some, Option.isSome_some]
  | failed none_ failed => rw [none_, Option.map_some, Option.isSome_none]

/-! ## Two disks -/

instance (drive : PartDrive) (placed : Placed) : Decidable (FitLabel drive placed) :=
  inferInstanceAs (Decidable (_ → ∀ label ∈ labelOf drive _ _, _))

/-- A drive as `real_open_partition` sees it. -/
def currentDrive (drive : PartDrive) : CurrentDrive :=
  { drive with known := true, totalSectors := some 1000 }

/-- The drives of listed sectors report their errors. -/
theorem sectorDrive_honest (sectors : List (Nat × List UInt8)) : Honest (sectorDrive sectors) := by
  intro sector byteOffset byteLen errnum read
  cases read

def bsdBlocks : List Block := sliceBlocks bsdDrive (-1) (chainSlots 0 0 [bsdTable])

/-- The blocks of the disk are those its label lists. -/
theorem bsdDrive_blocks (fit : (sector : List UInt8) → (entries : Nat → List UInt8) → Prop) :
    DiskBlocks bsdDrive fit bsdBlocks := by
  refine .slices ?_ ?_ ?_ ?_
  · exact Chained.last (by decide +kernel) (by decide +kernel)
  · exact fun gpt => absurd gpt (by decide +kernel)
  · decide +kernel
  · decide +kernel

/-- Its second partition is opened. -/
theorem realOpenPartition_opens_second :
    Opened ((Request.part 1 0).opens bsdBlocks)
      (realOpenPartition (currentDrive bsdDrive) 10
        { walkStart with partition := (Request.part 1 0).dest }) :=
  realOpenPartition_opens (sectorDrive_fitting _) rfl (sectorDrive_honest _) rfl rfl
    (bsdDrive_blocks _) _ rfl rfl (by decide +kernel)

/-- The letter a is not looked for behind a slice that lacks it, and a GUID partition behind
an unused entry is opened by a number it does not have. -/
theorem realOpenPartition_misses :
    (¬ ∀ (drive : CurrentDrive) (totalSectors : Nat) (blocks : List Block) (request : Request)
      (state : PartState) (rounds : Nat),
      Fitting drive.toPartDrive → drive.hardDisk = true → Honest drive.toPartDrive →
      drive.known = true → drive.totalSectors = some totalSectors →
      DiskBlocks drive.toPartDrive (Dense drive.toPartDrive) blocks →
      state.partition = request.dest → state.errnum = .none → (items blocks).length < rounds →
      Opened (request.first (items blocks)) (realOpenPartition drive rounds state)) ∧
    ¬ ∀ (drive : CurrentDrive) (totalSectors : Nat) (blocks : List Block) (request : Request)
      (state : PartState) (rounds : Nat),
      Fitting drive.toPartDrive → drive.hardDisk = true → Honest drive.toPartDrive →
      drive.known = true → drive.totalSectors = some totalSectors →
      DiskBlocks drive.toPartDrive (fun _ _ => True) blocks →
      state.partition = request.dest → state.errnum = .none → (items blocks).length < rounds →
      Opened (request.opens blocks) (realOpenPartition drive rounds state) := by
  constructor
  · intro claimed
    have opened := claimed (currentDrive bsdDrive) 1000 bsdBlocks (.bsd 0)
      { walkStart with partition := (Request.bsd 0).dest } 10 (sectorDrive_fitting _) rfl
      (sectorDrive_honest _) rfl rfl (bsdDrive_blocks _) rfl rfl (by decide +kernel)
    exact absurd opened.returns (by decide +kernel)
  · intro claimed
    have opened := claimed (currentDrive (gptDrive gapEntries)) 1000
      (gptBlocks (fun index => gapEntries.getD index []) 0
        (usedIndices (headerOf headerSector) (fun index => gapEntries.getD index []))) (.slice 1)
      { walkStart with partition := (Request.slice 1).dest } 10 (sectorDrive_fitting _) rfl
      (sectorDrive_honest _) rfl rfl (.gpt gptDrive_gap trivial (by decide +kernel)) rfl rfl
      (by decide +kernel)
    exact absurd opened.returns (by decide +kernel)

end GrubLegacy.Partition
