import GrubLegacy.Base.ByteArea
import GrubLegacy.Base.Machines

/-!
# The client id of a DHCP packet

`get_dhcp_client_id` of `pxe.c` and the parser of options it uses. The parser gives every option a
length byte, also the pad that has none, and gives the first option to nobody.
-/

namespace GrubLegacy.Efi

open Base

/-! ## The UUID -/

/-- `uuid_t` -/
structure Uuid where
  timeLow : BitVec 32
  timeMid : BitVec 16
  timeHiVer : BitVec 16
  clockSeqHi : UInt8
  clockSeqLow : UInt8
  node : List UInt8
deriving DecidableEq

/-- `bswap_16` and `bswap_32` -/
def bswap16 (x : BitVec 16) : BitVec 16 := ((x >>> 8) &&& 0xff) ||| ((x &&& 0xff) <<< 8)

def bswap32 (x : BitVec 32) : BitVec 32 :=
  ((x &&& 0xff000000) >>> 24) ||| ((x &&& 0x00ff0000) >>> 8) ||| ((x &&& 0x0000ff00) <<< 8) |||
    ((x &&& 0x000000ff) <<< 24)

/-- Numbers in memory, on a machine that has the low-order byte first. -/
def load16 (bytes : List UInt8) (place : Nat) : BitVec 16 :=
  (bytes.getD (place + 1) 0).toBitVec ++ (bytes.getD place 0).toBitVec

def load32 (bytes : List UInt8) (place : Nat) : BitVec 32 :=
  load16 bytes (place + 2) ++ load16 bytes place

/-- The bytes are copied to a `uuid_t`, and its first fields swapped. -/
def storedUuid (bytes : List UInt8) : Uuid where
  timeLow := bswap32 (load32 bytes 0)
  timeMid := bswap16 (load16 bytes 4)
  timeHiVer := bswap16 (load16 bytes 6)
  clockSeqHi := bytes.getD 8 0
  clockSeqLow := bytes.getD 9 0
  node := bytes.drop 10

/-! ## The scan -/

/-- The size of an EFI_PXE_BASE_CODE_PACKET. -/
def packetSize : Nat := 1472

/-- The places of DhcpMagik and DhcpOptions. -/
def dhcpMagikPlace : Nat := 236

def dhcpOptionsPlace : Nat := 240

/-- DHCPMAGIK -/
def dhcpMagik : List UInt8 := [0x63, 0x82, 0x53, 0x63]

/-- `current_option`, and the places that were read. -/
structure ParserState where
  currentOption : Nat
  reads : List Nat

/-- What `get_dhcp_client_id` stores if it returns 1, and the places it has read. -/
structure ScanResult where
  uuid : Option Uuid
  reads : List Nat

/-- `dhcp_option_parser_next`, where it is not at the end. -/
def dhcpOptionParserNext (area : Area) (currentOption : Nat) : Nat :=
  currentOption + 2 + (area (currentOption + 1)).toNat

/-- An option of this code and length is at a place. -/
def HasIdHeader (area : Area) (option : Nat) : Prop := area option = 97 ∧ area (option + 1) = 17

instance (area : Area) (option : Nat) : Decidable (HasIdHeader area option) :=
  inferInstanceAs (Decidable (_ ∧ _))

/-- The places of an option that a turn of the loop reads. -/
def optionReads (area : Area) (option : Nat) : List Nat :=
  if HasIdHeader area option then (List.range 19).map (option + ·) else [option, option + 1]

/-- A turn of the loop. -/
def scanStep (area : Area) (state : ParserState) : Step ParserState ScanResult :=
  if area state.currentOption = 255 then
    .done { uuid := none, reads := state.currentOption :: state.reads }
  else
    let option := dhcpOptionParserNext area state.currentOption
    let reads :=
      [state.currentOption, state.currentOption + 1] ++ optionReads area option ++ state.reads
    if HasIdHeader area option ∧ area (option + 2) = 0 then
      .done { uuid := some (storedUuid (bytesAt area (option + 3) 16)), reads }
    else .next { currentOption := option, reads }

def HasMagik (area : Area) : Prop := bytesAt area dhcpMagikPlace 4 = dhcpMagik

instance (area : Area) : Decidable (HasMagik area) := inferInstanceAs (Decidable (_ = _))

/-- The places of the magic. -/
def magikReads : List Nat := (List.range 4).map (dhcpMagikPlace + ·)

/-- `get_dhcp_client_id` comes to a result, on a packet that is followed by other memory. -/
def GetsClientId (area : Area) (result : ScanResult) : Prop :=
  if HasMagik area then
    Returns (scanStep area) { currentOption := dhcpOptionsPlace, reads := magikReads } result
  else result = { uuid := none, reads := magikReads }

/-! ## Options -/

/-- The code and the data of an option. -/
abbrev DhcpOption := UInt8 × List UInt8

/-- The options at the start of some bytes, and what is behind the end option if they come to one.
Where there are pads, they are single bytes of no option. -/
def readOptions (pads : Bool) : (fuel : Nat) → List UInt8 → List DhcpOption × Option (List UInt8)
  | 0, _ => ([], none)
  | _, [] => ([], none)
  | fuel + 1, code :: bytes =>
    if code = 255 then ([], some bytes)
    else if pads && code = 0 then readOptions pads fuel bytes
    else
      match bytes with
      | [] => ([], none)
      | length :: data =>
        if length.toNat ≤ data.length then
          let later := readOptions pads fuel (data.drop length.toNat)
          ((code, data.take length.toNat) :: later.1, later.2)
        else ([], none)

def isClientId (option : DhcpOption) : Bool :=
  option.1 = 97 && option.2.length = 17 && option.2.head? = some 0

/-- The UUID of the first client machine identifier. -/
def clientId (options : List DhcpOption) : Option (List UInt8) :=
  (options.find? isClientId).map fun option => option.2.drop 1

/-- The bytes of the options. -/
def optionArea (area : Area) : List UInt8 :=
  bytesAt area dhcpOptionsPlace (packetSize - dhcpOptionsPlace)

/-- The UUID of 16 bytes, with its first fields in network order. -/
def networkUuid (bytes : List UInt8) : Uuid where
  timeLow :=
    (bytes.getD 0 0).toBitVec ++ (bytes.getD 1 0).toBitVec ++
      ((bytes.getD 2 0).toBitVec ++ (bytes.getD 3 0).toBitVec)
  timeMid := (bytes.getD 4 0).toBitVec ++ (bytes.getD 5 0).toBitVec
  timeHiVer := (bytes.getD 6 0).toBitVec ++ (bytes.getD 7 0).toBitVec
  clockSeqHi := bytes.getD 8 0
  clockSeqLow := bytes.getD 9 0
  node := bytes.drop 10

/-- The client id of a packet; one without the magic has no options. -/
def packetId (area : Area) : Option Uuid :=
  if HasMagik area then
    (clientId (readOptions true (optionArea area).length (optionArea area)).1).map networkUuid
  else none

/-- The scan returns, reads the packet only, and has found its client id. -/
def Identifies (area : Area) : Prop :=
  ∃ result, GetsClientId area result ∧ (∀ read ∈ result.reads, read < packetSize) ∧
    result.uuid = packetId area

/-- The options come to a client id behind the first, or to an end option that another byte is
behind where it is not the first. -/
def StopsAt (options : List DhcpOption × Option (List UInt8)) (found : Option (List UInt8)) : Prop :=
  clientId options.1.tail = found ∧
    (found = none → ∃ rest, options.2 = some rest ∧ (options.1 = [] ∨ rest ≠ []))

/-- Read without pads, the options stop with the client id that they have. -/
def StopsAtItsId (bytes : List UInt8) : Prop :=
  StopsAt (readOptions false bytes.length bytes) (clientId (readOptions true bytes.length bytes).1)

/-! ## The fields -/

/-- A bit of two bytes is one of the low or the high byte. -/
private theorem getLsbD_bytes (x y : BitVec 8) (i : Nat) :
    (x ++ y : BitVec 16).getLsbD i = if i < 8 then y.getLsbD i else x.getLsbD (i - 8) :=
  BitVec.getLsbD_append

/-- A bit of two words is one of the low or the high word. -/
private theorem getLsbD_words (x y : BitVec 16) (i : Nat) :
    (x ++ y : BitVec 32).getLsbD i = if i < 16 then y.getLsbD i else x.getLsbD (i - 16) :=
  BitVec.getLsbD_append

/-- Swapping two bytes. -/
theorem bswap16_append (low high : BitVec 8) : bswap16 (high ++ low) = low ++ high := by
  apply BitVec.eq_of_getLsbD_eq
  intro i inside
  rw [bswap16]
  interval_cases i <;> simp [getLsbD_bytes, -BitVec.getLsbD_eq_getElem]

/-- Swapping four bytes. -/
theorem bswap32_append (a b c d : BitVec 8) :
    bswap32 ((d ++ c : BitVec 16) ++ (b ++ a : BitVec 16)) =
      (a ++ b : BitVec 16) ++ (c ++ d : BitVec 16) := by
  apply BitVec.eq_of_getLsbD_eq
  intro i inside
  rw [bswap32]
  interval_cases i <;> simp [getLsbD_words, getLsbD_bytes, -BitVec.getLsbD_eq_getElem]

/-- Swapped, the fields are in network order. -/
theorem storedUuid_eq (bytes : List UInt8) : storedUuid bytes = networkUuid bytes := by
  simp only [storedUuid, networkUuid, load32, load16, bswap16_append, bswap32_append]

/-- Two halves are equal if the wholes are. -/
private theorem append_inj {width : Nat} {a b c d : BitVec width} (same : a ++ b = c ++ d) :
    a = c ∧ b = d := by
  have high := congrArg (BitVec.extractLsb' width width) same
  have low := congrArg (BitVec.extractLsb' 0 width) same
  rw [BitVec.extractLsb'_append_eq_left, BitVec.extractLsb'_append_eq_left] at high
  rw [BitVec.extractLsb'_append_eq_right, BitVec.extractLsb'_append_eq_right] at low
  exact ⟨high, low⟩

/-- A UUID is of one list of bytes. -/
theorem networkUuid_inj {bytes bytes' : List UInt8} (size : bytes.length = bytes'.length)
    (same : networkUuid bytes = networkUuid bytes') : bytes = bytes' := by
  simp only [networkUuid, Uuid.mk.injEq] at same
  obtain ⟨low, mid, hi, clockHi, clockLow, node⟩ := same
  obtain ⟨first, second⟩ := append_inj low
  obtain ⟨byte0, byte1⟩ := append_inj first
  obtain ⟨byte2, byte3⟩ := append_inj second
  obtain ⟨byte4, byte5⟩ := append_inj mid
  obtain ⟨byte6, byte7⟩ := append_inj hi
  have every : ∀ i, bytes.getD i 0 = bytes'.getD i 0 := by
    intro i
    by_cases front : i < 10
    · interval_cases i
      all_goals first | assumption | (apply UInt8.toBitVec_inj.mp; assumption)
    · obtain ⟨more, rfl⟩ := Nat.exists_eq_add_of_le (Nat.le_of_not_lt front)
      have byte := congrArg (fun rest => rest.getD more 0) node
      simpa [List.getD_eq_getElem?_getD, List.getElem?_drop] using byte
  apply List.ext_getElem size
  intro i inside inside'
  have byte := every i
  rwa [List.getD_eq_getElem _ _ inside, List.getD_eq_getElem _ _ inside'] at byte

/-! ## The options of a memory -/

section Scan

variable {area : Area} {place fuel : Nat}

/-- The options from a place of the packet on, with length bytes for all of them. -/
def optionsFrom (area : Area) (fuel place : Nat) : List DhcpOption × Option (List UInt8) :=
  readOptions false fuel (bytesAt area place (packetSize - place))

/-- The rest of a packet is its next byte and the rest behind it. -/
theorem bytesFrom (inside : place < packetSize) :
    bytesAt area place (packetSize - place) =
      area place :: bytesAt area (place + 1) (packetSize - (place + 1)) := by
  obtain ⟨count, isCount⟩ := Nat.exists_eq_add_of_lt inside
  rw [show packetSize - place = count + 1 by omega, show packetSize - (place + 1) = count by omega,
    bytesAt_succ]

/-- What an option at the front is read as. -/
theorem readOptions_cons (fuel : Nat) (code : UInt8) (bytes : List UInt8) :
    readOptions false (fuel + 1) (code :: bytes) =
      if code = 255 then ([], some bytes)
      else
        match bytes with
        | [] => ([], none)
        | length :: data =>
          if length.toNat ≤ data.length then
            let later := readOptions false fuel (data.drop length.toNat)
            ((code, data.take length.toNat) :: later.1, later.2)
          else ([], none) := by
  simp [readOptions]

/-- At the end option nothing more is read. -/
theorem optionsFrom_end (inside : place < packetSize) (isEnd : area place = 255) :
    optionsFrom area (fuel + 1) place =
      ([], some (bytesAt area (place + 1) (packetSize - (place + 1)))) := by
  rw [optionsFrom, bytesFrom inside, readOptions_cons, if_pos isEnd]

/-- An option that ends inside of the packet. -/
theorem optionsFrom_whole (notEnd : area place ≠ 255)
    (inside : dhcpOptionParserNext area place ≤ packetSize) :
    optionsFrom area (fuel + 1) place =
      ((area place, bytesAt area (place + 2) (area (place + 1)).toNat) ::
          (optionsFrom area fuel (dhcpOptionParserNext area place)).1,
        (optionsFrom area fuel (dhcpOptionParserNext area place)).2) := by
  have next : dhcpOptionParserNext area place = place + 2 + (area (place + 1)).toNat := rfl
  have left : packetSize - (place + 2) - (area (place + 1)).toNat =
      packetSize - (place + 2 + (area (place + 1)).toNat) := by omega
  rw [optionsFrom, bytesFrom (by omega), readOptions_cons, if_neg notEnd, bytesFrom (by omega)]
  simp only [length_bytesAt]
  rw [if_pos (by omega), drop_bytesAt, take_bytesAt _ _ (by omega), left, ← next]
  rfl

/-- An option that does not. -/
theorem optionsFrom_cut (notEnd : area place ≠ 255)
    (outside : packetSize < dhcpOptionParserNext area place) :
    optionsFrom area fuel place = ([], none) := by
  have next : dhcpOptionParserNext area place = place + 2 + (area (place + 1)).toNat := rfl
  rw [optionsFrom]
  cases fuel with
  | zero => rfl
  | succ fuel =>
      rcases Nat.lt_or_ge place packetSize with inside | behind
      · rw [bytesFrom inside, readOptions_cons, if_neg notEnd]
        rcases Nat.lt_or_ge (place + 1) packetSize with more | last
        · rw [bytesFrom more]
          simp only [length_bytesAt]
          exact if_neg (by omega)
        · rw [Nat.sub_eq_zero_of_le last]
          rfl
      · rw [Nat.sub_eq_zero_of_le behind]
        rfl

/-- At the end of the packet there is nothing but an end option with nothing behind it. -/
theorem optionsFrom_last (last : packetSize ≤ place + 1) :
    (optionsFrom area fuel place).1 = [] ∧
      ∀ rest, (optionsFrom area fuel place).2 = some rest → rest = [] := by
  by_cases inside : place < packetSize
  · by_cases isEnd : area place = 255
    · cases fuel with
      | zero => exact ⟨rfl, nofun⟩
      | succ fuel =>
          rw [optionsFrom_end inside isEnd, Nat.sub_eq_zero_of_le last]
          exact ⟨rfl, fun rest isRest => (Option.some.inj isRest).symm⟩
    · have next : dhcpOptionParserNext area place = place + 2 + (area (place + 1)).toNat := rfl
      rw [optionsFrom_cut isEnd (by omega)]
      exact ⟨rfl, nofun⟩
  · rw [optionsFrom, Nat.sub_eq_zero_of_le (Nat.le_of_not_lt inside)]
    cases fuel <;> exact ⟨rfl, nofun⟩

/-- An option is a client identifier by its header and its type. -/
theorem isClientId_iff :
    isClientId (area place, bytesAt area (place + 2) (area (place + 1)).toNat) = true ↔
      HasIdHeader area place ∧ area (place + 2) = 0 := by
  have length : (area (place + 1)).toNat = 17 ↔ area (place + 1) = 17 := by
    rw [← UInt8.toNat_inj]
    rfl
  simp only [isClientId, length_bytesAt, Bool.and_eq_true, decide_eq_true_eq, length, HasIdHeader]
  refine and_congr_right fun header => ?_
  rw [header.2]
  simp [bytesAt, List.range_succ_eq_map]

/-! ## Where the scan comes to -/

/-- From here on the scan returns this, and has read the packet only. -/
def ScansTo (area : Area) (place : Nat) (reads : List Nat) (uuid : Option Uuid) : Prop :=
  ∃ result, Returns (scanStep area) { currentOption := place, reads } result ∧
    (∀ read ∈ result.reads, read < packetSize) ∧ result.uuid = uuid

/-- What was read once stays read. -/
theorem reads_of_returns {state : ParserState} {result : ScanResult}
    (returns : Returns (scanStep area) state result) :
    ∀ read ∈ state.reads, read ∈ result.reads := by
  induction returns with
  | done ends =>
      rintro read member
      simp only [scanStep] at ends
      split at ends
      · obtain rfl := Step.done.inj ends
        exact List.mem_cons_of_mem _ member
      · split at ends
        · obtain rfl := Step.done.inj ends
          simp [member]
        · cases ends
  | next goesOn later ih =>
      rintro read member
      simp only [scanStep] at goesOn
      split at goesOn
      · cases goesOn
      · split at goesOn
        · cases goesOn
        · obtain rfl := Step.next.inj goesOn
          exact ih read (by simp [member])

variable {reads : List Nat} {uuid : Option Uuid}

/-- At the end option the scan finds nothing. -/
theorem scansTo_end (inside : place < packetSize) (packet : ∀ read ∈ reads, read < packetSize)
    (isEnd : area place = 255) : ScansTo area place reads uuid ↔ uuid = none := by
  have ends : scanStep area { currentOption := place, reads } =
      .done { uuid := none, reads := place :: reads } := if_pos isEnd
  constructor
  · rintro ⟨result, returns, -, rfl⟩
    rw [returns.of_done ends]
  · rintro rfl
    exact ⟨_, .done ends, List.forall_mem_cons.mpr ⟨inside, packet⟩, rfl⟩

/-- What a turn reads that is not at the end. -/
def turnReads (area : Area) (place : Nat) (reads : List Nat) : List Nat :=
  [place, place + 1] ++ optionReads area (dhcpOptionParserNext area place) ++ reads

/-- At a client identifier it stores the UUID behind its type. -/
theorem scansTo_found (notEnd : area place ≠ 255)
    (isId : HasIdHeader area (dhcpOptionParserNext area place) ∧
      area (dhcpOptionParserNext area place + 2) = 0) :
    ScansTo area place reads uuid ↔
      (∀ read ∈ turnReads area place reads, read < packetSize) ∧
        uuid = some (storedUuid (bytesAt area (dhcpOptionParserNext area place + 3) 16)) := by
  have ends : scanStep area { currentOption := place, reads } =
      .done
        { uuid := some (storedUuid (bytesAt area (dhcpOptionParserNext area place + 3) 16))
          reads := turnReads area place reads } := by
    rw [scanStep, if_neg notEnd]
    exact if_pos isId
  constructor
  · rintro ⟨result, returns, packet, rfl⟩
    obtain rfl := returns.of_done ends
    exact ⟨packet, rfl⟩
  · rintro ⟨packet, rfl⟩
    exact ⟨_, .done ends, packet, rfl⟩

/-- At any other option it goes on behind this. -/
theorem scansTo_next (notEnd : area place ≠ 255)
    (notId : ¬ (HasIdHeader area (dhcpOptionParserNext area place) ∧
      area (dhcpOptionParserNext area place + 2) = 0)) :
    ScansTo area place reads uuid ↔
      ScansTo area (dhcpOptionParserNext area place) (turnReads area place reads) uuid := by
  have goesOn : scanStep area { currentOption := place, reads } =
      .next
        { currentOption := dhcpOptionParserNext area place, reads := turnReads area place reads } := by
    rw [scanStep, if_neg notEnd]
    exact if_neg notId
  constructor
  · rintro ⟨result, returns, packet, isUuid⟩
    exact ⟨result, returns.of_next goesOn, packet, isUuid⟩
  · rintro ⟨result, returns, packet, isUuid⟩
    exact ⟨result, .next goesOn returns, packet, isUuid⟩

/-- What a scan has read lies in the packet. -/
theorem ScansTo.packet (scans : ScansTo area place reads uuid) :
    ∀ read ∈ reads, read < packetSize := by
  obtain ⟨result, returns, packet, -⟩ := scans
  exact fun read member => packet read (reads_of_returns returns read member)

/-- A turn reads the packet only if it goes on to an option that has, at least, its code and its
length there, and all of its data if it looks like a client id. -/
theorem turnReads_inside_iff (packet : ∀ read ∈ reads, read < packetSize) :
    (∀ read ∈ turnReads area place reads, read < packetSize) ↔
      dhcpOptionParserNext area place + 1 < packetSize ∧
        (HasIdHeader area (dhcpOptionParserNext area place) →
          dhcpOptionParserNext area place + 19 ≤ packetSize) := by
  have next : dhcpOptionParserNext area place = place + 2 + (area (place + 1)).toNat := rfl
  rw [turnReads, List.forall_mem_append, List.forall_mem_append, List.forall_mem_cons,
    List.forall_mem_cons, optionReads]
  split
  next header =>
    simp only [List.mem_map, List.mem_range]
    constructor
    · rintro ⟨⟨-, every⟩, -⟩
      have last := every _ ⟨18, by decide, rfl⟩
      exact ⟨by omega, fun _ => by omega⟩
    · rintro ⟨inside, whole⟩
      have fits := whole header
      refine ⟨⟨⟨by omega, by omega, nofun⟩, ?_⟩, packet⟩
      rintro _ ⟨i, small, rfl⟩
      omega
  next other =>
    simp only [List.forall_mem_cons]
    constructor
    · rintro ⟨⟨-, -, last, -⟩, -⟩
      exact ⟨last, fun header => absurd header other⟩
    · rintro ⟨inside, -⟩
      exact ⟨⟨⟨by omega, by omega, nofun⟩, by omega, inside, nofun⟩, packet⟩

/-! ## The stop -/

variable {first : DhcpOption} {later : List DhcpOption × Option (List UInt8)}
  {found : Option (List UInt8)}

/-- The client identifier is the first option of its kind. -/
theorem clientId_cons (option : DhcpOption) (options : List DhcpOption) :
    clientId (option :: options) =
      if isClientId option then some (option.2.drop 1) else clientId options := by
  rw [clientId, List.find?_cons]
  cases isClientId option <;> rfl

/-- An identifier has 16 bytes. -/
theorem length_clientId {options : List DhcpOption} {id : List UInt8}
    (isFound : clientId options = some id) : id.length = 16 := by
  obtain ⟨option, isFirst, rfl⟩ := Option.map_eq_some_iff.mp isFound
  have isId := List.find?_some isFirst
  simp only [isClientId, Bool.and_eq_true, decide_eq_true_eq] at isId
  simp [isId.1.2]

/-- Options have the same client id if its UUID is the same. -/
theorem clientId_eq {options others : List DhcpOption}
    (same : (clientId options).map storedUuid = (clientId others).map networkUuid) :
    clientId options = clientId others := by
  rw [funext storedUuid_eq] at same
  cases found : clientId options with
  | none =>
      rw [found] at same
      exact (Option.map_eq_none_iff.mp same.symm).symm
  | some id =>
      rw [found] at same
      obtain ⟨id', found', isSame⟩ := Option.map_eq_some_iff.mp same.symm
      rw [found', networkUuid_inj
        ((length_clientId found').trans (length_clientId found).symm) isSame]

/-- Where the scan goes on from an option, the one before it makes no difference. -/
theorem stopsAt_behind (notId : ∀ option ∈ later.1.head?, isClientId option = false)
    (more : later.1 = [] → ∀ rest, later.2 = some rest → rest ≠ []) :
    StopsAt (first :: later.1, later.2) found ↔ StopsAt later found := by
  obtain ⟨options, behind⟩ := later
  cases options with
  | nil =>
      refine and_congr_right fun isFound => imp_congr_right fun _ => exists_congr fun rest => ?_
      exact and_congr_right fun isRest => iff_of_true (.inr (more rfl rest isRest)) (.inl rfl)
  | cons option options =>
      have other : isClientId option = false := notId option rfl
      rw [StopsAt, StopsAt, List.tail_cons, clientId_cons, other]
      simp

/-- Without a client id there is no stop that has not come to an end option, or not to one that
something is behind. -/
theorem not_stopsAt {options : List DhcpOption} {ended : Option (List UInt8)}
    (noId : clientId options.tail = none)
    (ends : ∀ rest, ended = some rest → options ≠ [] ∧ rest = []) :
    ¬ StopsAt (options, ended) found := by
  rintro ⟨isFound, ended_⟩
  obtain ⟨rest, isRest, first | behind⟩ := ended_ (isFound.symm.trans noId)
  · exact (ends rest isRest).1 first
  · exact behind (ends rest isRest).2

/-- The first of the options is at the place. -/
theorem optionsFrom_head : ∀ option ∈ (optionsFrom area fuel place).1.head?,
    option = (area place, bytesAt area (place + 2) (area (place + 1)).toNat) := by
  intro option isHead
  cases fuel with
  | zero => cases isHead
  | succ fuel =>
      by_cases inside : place < packetSize
      · by_cases isEnd : area place = 255
        · rw [optionsFrom_end inside isEnd] at isHead
          cases isHead
        · rcases Nat.lt_or_ge packetSize (dhcpOptionParserNext area place) with outside | whole
          · rw [optionsFrom_cut isEnd outside] at isHead
            cases isHead
          · rw [optionsFrom_whole isEnd whole] at isHead
            exact (Option.some.inj isHead).symm
      · rw [(optionsFrom_last (by omega)).1] at isHead
        cases isHead

/-- Something is behind an end option that is not the last byte of the packet. -/
theorem optionsFrom_behind (inside : place + 1 < packetSize)
    (none_ : (optionsFrom area fuel place).1 = []) :
    ∀ rest, (optionsFrom area fuel place).2 = some rest → rest ≠ [] := by
  rintro rest isRest rfl
  cases fuel with
  | zero => cases isRest
  | succ fuel =>
      by_cases isEnd : area place = 255
      · rw [optionsFrom_end (by omega) isEnd, bytesFrom inside] at isRest
        cases isRest
      · rcases Nat.lt_or_ge packetSize (dhcpOptionParserNext area place) with outside | whole
        · rw [optionsFrom_cut isEnd outside] at isRest
          cases isRest
        · rw [optionsFrom_whole isEnd whole] at none_
          cases none_

/-- A client id of the packet is the first one of the options from it on. -/
theorem clientId_optionsFrom (isId : HasIdHeader area place ∧ area (place + 2) = 0)
    (whole : place + 19 ≤ packetSize) :
    clientId (optionsFrom area (fuel + 1) place).1 = some (bytesAt area (place + 3) 16) := by
  have length : (area (place + 1)).toNat = 17 := by
    rw [isId.1.2]
    rfl
  have next : dhcpOptionParserNext area place = place + 19 := by
    rw [dhcpOptionParserNext, length]
  have notEnd : area place ≠ 255 := by
    rw [isId.1.1]
    decide
  rw [optionsFrom_whole notEnd (by omega), clientId_cons, if_pos (isClientId_iff.mpr isId), length,
    drop_bytesAt]

/-- The scan from a place on comes to where the options from there stop. -/
theorem scansTo_iff (enough : packetSize ≤ place + fuel) (inside : place < packetSize)
    (packet : ∀ read ∈ reads, read < packetSize) :
    ScansTo area place reads uuid ↔
      ∃ found, StopsAt (optionsFrom area fuel place) found ∧ found.map storedUuid = uuid := by
  induction fuel generalizing place reads with
  | zero => omega
  | succ fuel ih =>
      by_cases isEnd : area place = 255
      · rw [scansTo_end inside packet isEnd, optionsFrom_end inside isEnd]
        constructor
        · rintro rfl
          exact ⟨none, ⟨rfl, fun _ => ⟨_, rfl, .inl rfl⟩⟩, rfl⟩
        · rintro ⟨found, ⟨rfl, -⟩, rfl⟩
          rfl
      have next : dhcpOptionParserNext area place = place + 2 + (area (place + 1)).toNat := rfl
      by_cases looks : ∀ read ∈ turnReads area place reads, read < packetSize
      · obtain ⟨visited, whole⟩ := (turnReads_inside_iff packet).mp looks
        rw [optionsFrom_whole isEnd (by omega)]
        by_cases isId : HasIdHeader area (dhcpOptionParserNext area place) ∧
            area (dhcpOptionParserNext area place + 2) = 0
        · obtain ⟨fuel, rfl⟩ : ∃ more, fuel = more + 1 := ⟨fuel - 1, by omega⟩
          rw [scansTo_found isEnd isId]
          constructor
          · rintro ⟨-, rfl⟩
            exact ⟨some _, ⟨clientId_optionsFrom isId (whole isId.1), nofun⟩, rfl⟩
          · rintro ⟨found, ⟨isFound, -⟩, rfl⟩
            rw [List.tail_cons, clientId_optionsFrom isId (whole isId.1)] at isFound
            rw [← isFound]
            exact ⟨looks, rfl⟩
        · rw [scansTo_next isEnd isId, ih (by omega) (by omega) looks]
          refine exists_congr fun found => and_congr_left' ?_
          refine (stopsAt_behind ?_ (optionsFrom_behind visited)).symm
          intro option isHead
          rw [optionsFrom_head option isHead, ← Bool.not_eq_true, isClientId_iff]
          exact isId
      · refine iff_of_false ?_ ?_
        · intro scans
          by_cases isId : HasIdHeader area (dhcpOptionParserNext area place) ∧
              area (dhcpOptionParserNext area place + 2) = 0
          · exact looks ((scansTo_found isEnd isId).mp scans).1
          · exact looks ((scansTo_next isEnd isId).mp scans).packet
        · rintro ⟨found, stops, -⟩
          rw [turnReads_inside_iff packet, not_and, not_forall] at looks
          rcases Nat.lt_or_ge packetSize (dhcpOptionParserNext area place) with outside | whole
          · rw [optionsFrom_cut isEnd outside] at stops
            exact not_stopsAt rfl (by rintro _ ⟨⟩) stops
          rw [optionsFrom_whole isEnd whole] at stops
          rcases Nat.lt_or_ge (dhcpOptionParserNext area place + 1) packetSize with visited | last
          · obtain ⟨header, short⟩ := looks visited
            have length : (area (dhcpOptionParserNext area place + 1)).toNat = 17 := by
              rw [header.2]
              rfl
            have notEnd : area (dhcpOptionParserNext area place) ≠ 255 := by
              rw [header.1]
              decide
            rw [optionsFrom_cut notEnd (by rw [dhcpOptionParserNext, length]; omega)] at stops
            exact not_stopsAt rfl (by rintro _ ⟨⟩) stops
          · obtain ⟨none_, behind⟩ := @optionsFrom_last area _ fuel last
            refine not_stopsAt ?_ (fun rest isRest => ⟨List.cons_ne_nil _ _, behind rest isRest⟩) stops
            rw [List.tail_cons, none_]
            rfl

end Scan

/-- `get_dhcp_client_id` terminates, reads the packet only and finds its client id, if and only if
the packet has no magic or its options stop with that id when they are read without pads. -/
theorem identifies_iff (area : Area) :
    Identifies area ↔ (HasMagik area → StopsAtItsId (optionArea area)) := by
  by_cases magik : HasMagik area
  · have scans : Identifies area ↔
        ScansTo area dhcpOptionsPlace magikReads (packetId area) := by
      simp only [Identifies, GetsClientId, if_pos magik, ScansTo]
    have size : (optionArea area).length = packetSize - dhcpOptionsPlace := length_bytesAt _ _ _
    have stops := @scansTo_iff area dhcpOptionsPlace (optionArea area).length magikReads
      (packetId area) (by rw [size]; decide) (by decide) (by decide)
    rw [scans, stops, packetId, if_pos magik]
    simp only [magik, true_implies]
    constructor
    · rintro ⟨found, ⟨rfl, ends⟩, same⟩
      rw [clientId_eq same] at ends
      exact ⟨clientId_eq same, ends⟩
    · intro noHarm
      refine ⟨_, noHarm, ?_⟩
      rw [funext storedUuid_eq]
  · refine iff_of_true ?_ fun magik' => absurd magik' magik
    refine ⟨{ uuid := none, reads := magikReads }, by rw [GetsClientId, if_neg magik], by decide, ?_⟩
    rw [packetId, if_neg magik]

/-- A packet with these options, and nothing else but the magic. -/
def packetOf (options : List UInt8) : Area := fun place =>
  if place < dhcpOptionsPlace then areaOf dhcpMagik (place - dhcpMagikPlace)
  else areaOf options (place - dhcpOptionsPlace)

/-- A client machine identifier. -/
def idOption : List UInt8 := [97, 17, 0] ++ (List.range 16).map UInt8.ofNat

/-- The first option is given to nobody. -/
theorem not_identifies_first : ¬ Identifies (packetOf (idOption ++ [255])) := by
  rintro ⟨result, gets, -, isId⟩
  have magik : HasMagik (packetOf (idOption ++ [255])) := by decide
  rw [GetsClientId, if_pos magik] at gets
  have ends := (gets.of_next rfl).of_done rfl
  rw [ends] at isId
  revert isId
  decide +kernel

end GrubLegacy.Efi
