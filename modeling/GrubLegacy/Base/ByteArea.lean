import GrubLegacy.Base.CStrings

/-!
# The C string functions on an area of bytes

An area has a byte at every position. `copyIn` is `memmove`: what it writes is read
from the area as it was before. A string runs from its first position to the first
NUL, which the scan looks for in as many bytes as an address space has.
-/

namespace GrubLegacy.Base

abbrev Area := Nat → UInt8

/-- Copy `length` bytes of `source`, from `start` on, to `destination`. -/
def copyIn (area : Area) (destination : Nat) (source : Area) (start length : Nat) : Area :=
  fun position =>
    if destination ≤ position ∧ position < destination + length
    then source (start + (position - destination))
    else area position

def setByte (area : Area) (place : Nat) (byte : UInt8) : Area := fun position =>
  if position = place then byte else area position

/-- How many bytes from `start` on are `kept`, looking at no more than `limit`. -/
def spanLength (kept : UInt8 → Bool) (area : Area) : (limit start : Nat) → Nat
  | 0, _ => 0
  | limit + 1, start =>
      if kept (area start) then spanLength kept area limit (start + 1) + 1 else 0

/-- As many bytes as there are addresses. -/
def addressSpace : Nat := 2 ^ 32

/-- A byte that does not end a string. -/
def isText (byte : UInt8) : Bool := byte != 0

def strlen (area : Area) (start : Nat) : Nat := spanLength isText area addressSpace start

def strcpy (area : Area) (destination : Nat) (source : Area) (start : Nat) : Area :=
  copyIn area destination source start (strlen source start + 1)

/-- The bytes of a part of an area. -/
def bytesAt (area : Area) (start length : Nat) : List UInt8 :=
  (List.range length).map fun i => area (start + i)

/-- The string at a position. -/
def stringAt (area : Area) (start : Nat) : List UInt8 := bytesAt area start (strlen area start)

/-- An area that holds a string and nothing else. -/
def areaOf (text : List UInt8) : Area := fun position => text.getD position 0

/-- A text and its NUL are stored here. -/
structure Holds (area : Area) (start : Nat) (text : List UInt8) : Prop where
  bytes : ∀ i ≤ text.length, area (start + i) = areaOf text i
  free : CStrings.NulFree text

/-- A string of at most `bound` characters starts here. -/
def EndsWithin (area : Area) (start bound : Nat) : Prop :=
  ∃ distance ≤ bound, area (start + distance) = 0

/-- What is no text is a NUL. -/
@[simp] theorem isText_eq_false {byte : UInt8} : isText byte = false ↔ byte = 0 := by
  simp [isText]

/-- A byte that is copied is that of the source, -/
theorem copyIn_inside {area source : Area} {destination start length position : Nat}
    (first : destination ≤ position) (last : position < destination + length) :
    copyIn area destination source start length position =
      source (start + (position - destination)) :=
  if_pos ⟨first, last⟩

/-- any other byte is as it was. -/
theorem copyIn_outside {area source : Area} {destination start length position : Nat}
    (outside : position < destination ∨ destination + length ≤ position) :
    copyIn area destination source start length position = area position :=
  if_neg (by omega)

/-- The byte that is set is read back, -/
theorem setByte_same {area : Area} {place : Nat} {byte : UInt8} :
    setByte area place byte place = byte :=
  if_pos rfl

/-- and any other one is as it was. -/
theorem setByte_other {area : Area} {place position : Nat} {byte : UInt8}
    (other : position ≠ place) : setByte area place byte position = area position :=
  if_neg other

/-- A byte is written that is there already. -/
theorem setByte_self {area : Area} {place : Nat} {byte : UInt8} (same : area place = byte) :
    setByte area place byte = area := by
  ext position
  by_cases here : position = place
  · rw [here, setByte_same, same]
  · rw [setByte_other here]

/-- The span ends before any byte that is not kept. -/
theorem spanLength_le {kept : UInt8 → Bool} {area : Area} {limit start distance : Nat}
    (stops : kept (area (start + distance)) = false) :
    spanLength kept area limit start ≤ distance := by
  induction limit generalizing start distance with
  | zero => exact Nat.zero_le _
  | succ limit ih =>
      rw [spanLength]
      by_cases here : kept (area start)
      · rw [if_pos here]
        cases distance with
        | zero =>
            rw [Nat.add_zero, here] at stops
            exact absurd stops (by decide)
        | succ distance =>
            have later := @ih (start + 1) distance (by
              rw [show start + 1 + distance = start + (distance + 1) by omega]
              exact stops)
            omega
      · rw [if_neg here]
        exact Nat.zero_le _

/-- Where it ends before its limit the next byte is not kept. -/
theorem spanLength_stops {kept : UInt8 → Bool} {area : Area} {limit start : Nat}
    (early : spanLength kept area limit start < limit) :
    kept (area (start + spanLength kept area limit start)) = false := by
  induction limit generalizing start with
  | zero => exact absurd early (Nat.not_lt_zero _)
  | succ limit ih =>
      by_cases here : kept (area start)
      · rw [spanLength, if_pos here] at early ⊢
        have later := @ih (start + 1) (by omega)
        rw [show start + (spanLength kept area limit (start + 1) + 1) =
          start + 1 + spanLength kept area limit (start + 1) by omega]
        exact later
      · rw [spanLength, if_neg here, Nat.add_zero]
        exact Bool.eq_false_iff.mpr here

/-- A span that begins before such a byte ends before it too. -/
theorem spanLength_before {kept : UInt8 → Bool} {area : Area} {limit start last : Nat}
    (begins : start ≤ last) (stops : kept (area last) = false) :
    start + spanLength kept area limit start ≤ last := by
  have bound := @spanLength_le kept area limit start (last - start) (by
    rw [Nat.add_sub_cancel' begins]
    exact stops)
  omega

/-- Every byte of the span is kept. -/
theorem spanLength_kept {kept : UInt8 → Bool} {area : Area} {limit start distance : Nat}
    (inside : distance < spanLength kept area limit start) :
    kept (area (start + distance)) = true := by
  by_contra other
  have bound := @spanLength_le kept area limit start distance
    (Bool.eq_false_iff.mpr other)
  omega

/-- A string ends at its first NUL at the latest. -/
theorem strlen_le {area : Area} {start distance : Nat} (nul : area (start + distance) = 0) :
    strlen area start ≤ distance :=
  spanLength_le (isText_eq_false.mpr nul)

/-- A string that ends within a bound is no longer than it, -/
theorem EndsWithin.strlen_le {area : Area} {start bound : Nat}
    (ends : EndsWithin area start bound) : strlen area start ≤ bound := by
  obtain ⟨distance, near, nul⟩ := ends
  exact Nat.le_trans (Base.strlen_le nul) near

/-- The byte after a string that is not as long as the address space is its NUL. -/
theorem nul_at_strlen {area : Area} {start : Nat} (short : strlen area start < addressSpace) :
    area (start + strlen area start) = 0 :=
  isText_eq_false.mp (spanLength_stops short)

/-- and ends within any larger one. -/
theorem EndsWithin.mono {area : Area} {start bound larger : Nat}
    (ends : EndsWithin area start bound) (le : bound ≤ larger) :
    EndsWithin area start larger := by
  obtain ⟨distance, near, nul⟩ := ends
  exact ⟨distance, Nat.le_trans near le, nul⟩

/-- A string is still there where its area keeps its bytes. -/
theorem EndsWithin.congr {area other : Area} {start bound : Nat}
    (ends : EndsWithin area start bound)
    (same : ∀ distance ≤ bound, other (start + distance) = area (start + distance)) :
    EndsWithin other start bound := by
  obtain ⟨distance, near, nul⟩ := ends
  exact ⟨distance, near, (same distance near).trans nul⟩

/-- A copied string ends where it did. -/
theorem EndsWithin.strcpy {area source : Area} {destination start bound : Nat}
    (ends : EndsWithin source start bound) (short : bound < addressSpace) :
    Base.strcpy area destination source start (destination + strlen source start) = 0 := by
  have length := ends.strlen_le
  rw [Base.strcpy, copyIn_inside (by omega) (by omega), Nat.add_sub_cancel_left]
  exact nul_at_strlen (by omega)

/-- A run of bytes before a NUL is a string of that length. -/
theorem strlen_eq {area : Area} {start length : Nat} (short : length < addressSpace)
    (text : ∀ distance < length, area (start + distance) ≠ 0) (nul : area (start + length) = 0) :
    strlen area start = length := by
  have bound := strlen_le nul
  by_contra other
  apply text (strlen area start) (by omega)
  exact nul_at_strlen (by omega)

/-- As many bytes are taken as are asked for. -/
@[simp] theorem length_bytesAt (area : Area) (start length : Nat) :
    (bytesAt area start length).length = length := by
  rw [bytesAt, List.length_map, List.length_range]

/-- The byte at a place of the part. -/
@[simp] theorem getElem_bytesAt {area : Area} {start length i : Nat}
    (inside : i < (bytesAt area start length).length) :
    (bytesAt area start length)[i] = area (start + i) := by
  simp only [bytesAt, List.getElem_map, List.getElem_range]

/-- The string in memory is as long as `strlen` says. -/
@[simp] theorem length_stringAt (area : Area) (start : Nat) :
    (stringAt area start).length = strlen area start :=
  length_bytesAt _ _ _

/-- Areas that agree on some bytes have the same text there. -/
theorem bytesAt_congr {area other : Area} {start start' length : Nat}
    (same : ∀ distance < length, other (start' + distance) = area (start + distance)) :
    bytesAt other start' length = bytesAt area start length := by
  apply List.map_congr_left
  intro distance member
  exact same distance (List.mem_range.mp member)

/-- One more byte is taken in front, -/
theorem bytesAt_succ (area : Area) (start length : Nat) :
    bytesAt area start (length + 1) = area start :: bytesAt area (start + 1) length := by
  rw [bytesAt, List.range_succ_eq_map, List.map_cons, List.map_map]
  congr 1
  ext position
  simp [bytesAt, Nat.add_assoc, Nat.add_comm 1]

/-- dropped ones are those at the start, -/
theorem drop_bytesAt (area : Area) (start length count : Nat) :
    (bytesAt area start length).drop count = bytesAt area (start + count) (length - count) := by
  apply List.ext_getElem
  · simp
  · intro i _ _
    simp [bytesAt, Nat.add_assoc]

/-- and the first ones are those from the same start. -/
theorem take_bytesAt (area : Area) (start : Nat) {length count : Nat} (inside : count ≤ length) :
    (bytesAt area start length).take count = bytesAt area start count := by
  apply List.ext_getElem
  · simp [inside]
  · intro i _ _
    simp [bytesAt]

/-- A string is where its bytes are, wherever they were before. -/
theorem stringAt_eq {area other : Area} {start start' bound : Nat}
    (ends : EndsWithin area start bound) (short : bound < addressSpace)
    (same : ∀ distance ≤ bound, other (start' + distance) = area (start + distance)) :
    stringAt other start' = stringAt area start := by
  have length := ends.strlen_le
  have kept : strlen other start' = strlen area start := by
    apply strlen_eq (by omega)
    · intro distance inside nul
      rw [same distance (by omega)] at nul
      have text := @spanLength_kept isText area addressSpace start distance inside
      rw [isText_eq_false.mpr nul] at text
      exact Bool.false_ne_true text
    · rw [same _ length]
      exact nul_at_strlen (by omega)
  rw [stringAt, stringAt, kept]
  exact bytesAt_congr fun distance inside => same distance (by omega)

/-- What is read at the copy of a string is the string. -/
theorem stringAt_strcpy {area source : Area} {destination start bound : Nat}
    (ends : EndsWithin source start bound) (short : bound < addressSpace) :
    stringAt (strcpy area destination source start) destination = stringAt source start := by
  have length := ends.strlen_le
  apply @stringAt_eq source _ start destination (strlen source start)
  · exact ⟨strlen source start, Nat.le_refl _, nul_at_strlen (by omega)⟩
  · omega
  · intro distance inside
    rw [Base.strcpy, copyIn_inside (by omega) (by omega), Nat.add_sub_cancel_left]

/-- A copy is as long as the string. -/
theorem strlen_strcpy {area source : Area} {destination start bound : Nat}
    (ends : EndsWithin source start bound) (short : bound < addressSpace) :
    strlen (strcpy area destination source start) destination = strlen source start := by
  rw [← length_stringAt, stringAt_strcpy ends short, length_stringAt]

/-- An area made of a text has its bytes, -/
theorem areaOf_lt {text : List UInt8} {i : Nat} (inside : i < text.length) :
    areaOf text i = text.get ⟨i, inside⟩ := by
  rw [areaOf, List.getD_eq_getElem _ _ inside]
  rfl

/-- and NULs behind. -/
theorem areaOf_ge {text : List UInt8} {i : Nat} (outside : text.length ≤ i) :
    areaOf text i = 0 :=
  List.getD_eq_default _ _ outside

/-- Of two texts the second follows the first. -/
theorem areaOf_append (first second : List UInt8) (i : Nat) :
    areaOf (first ++ second) i =
      if i < first.length then areaOf first i else areaOf second (i - first.length) := by
  split
  next inside => exact List.getD_append _ _ _ _ inside
  next outside => exact List.getD_append_right _ _ _ _ (Nat.le_of_not_lt outside)

/-- A text that is cut off has NULs from there on. -/
theorem areaOf_take (text : List UInt8) (count i : Nat) :
    areaOf (text.take count) i = if i < count then areaOf text i else 0 := by
  rw [areaOf, areaOf, List.getD_eq_getElem?_getD, List.getD_eq_getElem?_getD, List.getElem?_take]
  split <;> rfl

/-- A text without its start is moved down. -/
theorem areaOf_drop (text : List UInt8) (count i : Nat) :
    areaOf (text.drop count) i = areaOf text (count + i) := by
  rw [areaOf, areaOf, List.getD_eq_getElem?_getD, List.getD_eq_getElem?_getD, List.getElem?_drop]

/-- The start of a text is read back. -/
theorem bytesAt_areaOf {text : List UInt8} {count : Nat} (inside : count ≤ text.length) :
    bytesAt (areaOf text) 0 count = text.take count := by
  apply List.ext_getElem
  · simp [inside]
  · intro i small _
    rw [length_bytesAt] at small
    simp only [bytesAt, List.getElem_map, List.getElem_range, Nat.zero_add, List.getElem_take]
    exact areaOf_lt (Nat.lt_of_lt_of_le small inside)

/-- Bytes are taken in two pieces. -/
theorem bytesAt_add (area : Area) (start first second : Nat) :
    bytesAt area start (first + second) =
      bytesAt area start first ++ bytesAt area (start + first) second := by
  simp only [bytesAt, List.range_add, List.map_append, List.map_map]
  congr 1
  exact List.map_congr_left fun i _ => congrArg area (Nat.add_assoc _ _ _).symm

/-- The start of a memory with bytes copied to it. -/
theorem bytesAt_copyIn (area : Area) (place : Nat) {count : Nat} {text : List UInt8}
    (inside : count ≤ text.length) :
    bytesAt (copyIn area place (areaOf text) 0 count) 0 (place + count) =
      bytesAt area 0 place ++ text.take count := by
  have before : bytesAt (copyIn area place (areaOf text) 0 count) 0 place = bytesAt area 0 place :=
    List.map_congr_left fun i small => copyIn_outside (by
      have := List.mem_range.mp small
      omega)
  have behind : bytesAt (copyIn area place (areaOf text) 0 count) place count =
      bytesAt (areaOf text) 0 count := List.map_congr_left fun i small => by
    have := List.mem_range.mp small
    rw [copyIn_inside (by omega) (by omega), Nat.add_sub_cancel_left]
  rw [bytesAt_add, before, Nat.zero_add, behind, bytesAt_areaOf inside]

/-- There is no NUL within a text without one. -/
theorem areaOf_ne_zero {text : List UInt8} (free : CStrings.NulFree text) {i : Nat}
    (inside : i < text.length) : areaOf text i ≠ 0 := by
  rw [areaOf_lt inside]
  exact free _ (List.get_mem _ _)

namespace Holds

variable {area : Area} {start : Nat} {text : List UInt8}

/-- Behind a text that an area holds is a NUL, -/
theorem nul (holds : Holds area start text) : area (start + text.length) = 0 :=
  (holds.bytes _ (Nat.le_refl _)).trans (areaOf_ge (Nat.le_refl _))

/-- so the string ends there at the latest, -/
theorem endsWithin (holds : Holds area start text) {bound : Nat} (short : text.length ≤ bound) :
    EndsWithin area start bound :=
  ⟨text.length, short, holds.nul⟩

/-- and is as long as the text. -/
theorem strlen (holds : Holds area start text) (short : text.length < addressSpace) :
    Base.strlen area start = text.length := by
  apply strlen_eq short _ holds.nul
  intro distance inside
  rw [holds.bytes _ (Nat.le_of_lt inside)]
  exact areaOf_ne_zero holds.free inside

/-- The text is the string that is read here. -/
theorem stringAt (holds : Holds area start text) (short : text.length < addressSpace) :
    Base.stringAt area start = text := by
  rw [Base.stringAt, holds.strlen short]
  apply List.ext_getElem (length_bytesAt _ _ _)
  intro i first second
  have byte := holds.bytes i (Nat.le_of_lt second)
  rw [areaOf_lt second] at byte
  simpa [bytesAt] using byte

/-- An area with the same bytes holds the text too. -/
theorem congr (holds : Holds area start text) {other : Area} {start' : Nat}
    (same : ∀ i ≤ text.length, other (start' + i) = area (start + i)) :
    Holds other start' text where
  bytes i inside := (same i inside).trans (holds.bytes i inside)
  free := holds.free

end Holds

/-- A text without NULs is held by the area made of it. -/
theorem holds_areaOf {text : List UInt8} (free : CStrings.NulFree text) :
    Holds (areaOf text) 0 text :=
  ⟨fun i _ => by rw [Nat.zero_add], free⟩

/-- What a string ends with is a string. -/
theorem holds_drop {area : Area} {start : Nat} {text : List UInt8} (holds : Holds area start text)
    {moved : Nat} (inside : moved ≤ text.length) : Holds area (start + moved) (text.drop moved) where
  bytes i small := by
    rw [List.length_drop] at small
    rw [areaOf_drop, Nat.add_assoc]
    exact holds.bytes _ (by omega)
  free c member := holds.free c (List.mem_of_mem_drop member)

/-- A memory holds one text at a place. -/
theorem holds_unique {area : Area} {start : Nat} {text other : List UInt8}
    (holds : Holds area start text) (holds' : Holds area start other) : text = other := by
  induction text generalizing start other with
  | nil =>
      have first : area start = 0 := holds.bytes 0 (Nat.zero_le _)
      cases other with
      | nil => rfl
      | cons d other =>
          have isNul : areaOf (d :: other) 0 = 0 := (holds'.bytes 0 (Nat.zero_le _)).symm.trans first
          exact absurd isNul (holds'.free d List.mem_cons_self)
  | cons c text ih =>
      have first : area start = c := holds.bytes 0 (Nat.zero_le _)
      cases other with
      | nil =>
          have isNul : area start = 0 := holds'.bytes 0 (Nat.zero_le _)
          exact absurd (first.symm.trans isNul) (holds.free c List.mem_cons_self)
      | cons d other =>
          have first' : area start = d := holds'.bytes 0 (Nat.zero_le _)
          have later := ih (@holds_drop _ _ _ holds 1 (by simp)) (@holds_drop _ _ _ holds' 1 (by simp))
          rw [← first, ← first', later]
          rfl

/-- A string is stored where it is read. -/
theorem holds_stringAt {area : Area} {start : Nat} (short : strlen area start < addressSpace) :
    Holds area start (stringAt area start) where
  bytes i inside := by
    rw [length_stringAt] at inside
    rcases Nat.lt_or_ge i (strlen area start) with before | last
    · rw [areaOf_lt (by rw [length_stringAt]; exact before)]
      simp [stringAt, bytesAt]
    · obtain rfl := Nat.le_antisymm inside last
      rw [areaOf_ge (by rw [length_stringAt])]
      exact nul_at_strlen short
  free := by
    intro byte member
    obtain ⟨distance, inside, rfl⟩ := List.mem_map.mp member
    intro nul
    have text := @spanLength_kept isText area addressSpace start distance
      (List.mem_range.mp inside)
    rw [isText_eq_false.mpr nul] at text
    exact Bool.false_ne_true text

/-- A span is what is kept before the first byte that is not. -/
theorem spanLength_eq {kept : UInt8 → Bool} {area : Area} {limit start length : Nat}
    (short : length < limit) (inside : ∀ distance < length, kept (area (start + distance)) = true)
    (stops : kept (area (start + length)) = false) :
    spanLength kept area limit start = length := by
  have bound := @spanLength_le kept area limit start length stops
  by_contra other
  have early := inside (spanLength kept area limit start) (by omega)
  rw [@spanLength_stops kept area limit start (by omega)] at early
  exact Bool.noConfusion early

/-- The span at the start of a text is what `takeWhile` takes. -/
theorem drop_spanLength {kept : UInt8 → Bool} {text : List UInt8} {limit : Nat}
    (nul : kept 0 = false) (short : text.length < limit) :
    text.drop (spanLength kept (areaOf text) limit 0) = text.dropWhile kept := by
  have parts : text.takeWhile kept ++ text.dropWhile kept = text :=
    List.takeWhile_append_dropWhile
  have every : ∀ c ∈ text.takeWhile kept, kept c = true := fun c => List.mem_takeWhile_imp
  have head : kept (areaOf (text.dropWhile kept) 0) = false := by
    cases rest : text.dropWhile kept with
    | nil => exact nul
    | cons first later =>
        have first := List.head_dropWhile_not kept (by rw [rest]; simp)
        simpa [areaOf, rest] using first
  generalize text.takeWhile kept = front at parts every
  generalize text.dropWhile kept = rest at parts head ⊢
  subst parts
  rw [List.length_append] at short
  have span : spanLength kept (areaOf (front ++ rest)) limit 0 = front.length := by
    apply spanLength_eq (by omega)
    · intro distance inside
      rw [Nat.zero_add, areaOf_append, if_pos inside, areaOf_lt inside]
      exact every _ (List.get_mem _ _)
    · rw [Nat.zero_add, areaOf_append, if_neg (Nat.lt_irrefl _), Nat.sub_self]
      exact head
  rw [span, List.drop_left]

/-- A span depends on the bytes up to the first that is not kept. -/
theorem spanLength_congr {kept : UInt8 → Bool} {area other : Area} {limit start last : Nat}
    (begins : start ≤ last) (stops : kept (area last) = false)
    (same : ∀ position, start ≤ position → position ≤ last → other position = area position) :
    spanLength kept other limit start = spanLength kept area limit start := by
  induction limit generalizing start with
  | zero => rfl
  | succ limit ih =>
      rw [spanLength, spanLength, same start (Nat.le_refl _) begins]
      by_cases here : kept (area start)
      · rw [if_pos here, if_pos here]
        have other : start ≠ last := by
          rintro rfl
          rw [here] at stops
          exact Bool.noConfusion stops
        rw [ih (by omega) (fun position first => same position (by omega))]
      · rw [if_neg here, if_neg here]

end GrubLegacy.Base
