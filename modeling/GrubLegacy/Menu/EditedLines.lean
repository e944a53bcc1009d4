import GrubLegacy.Base.ByteArea
import GrubLegacy.Menu.FailedBoot

/-!
# Editing the lines of an entry

While an entry is edited its lines are a list of strings with a NUL behind the last one,
and `o`, `O`, `d` and `e` splice this list where the selected line is. The selection can
get out of the list where `d` removes the only line, or the last line of a scrolled menu
that shows more than a page.
-/

namespace GrubLegacy.Menu

open CStrings Stage2

/-! ## Bytes in memory -/

/-- These bytes are stored at a pointer. -/
def Stored (memory : MenuMemory) (pointer : Nat) (bytes : List UInt8) : Prop :=
  ∀ i < bytes.length, memory (pointer + i) = Base.areaOf bytes i

section Stored

variable {memory memory' : MenuMemory} {pointer size : Nat} {bytes front back : List UInt8}

/-- What is stored as two pieces has the first where it starts, -/
theorem Stored.left (stored : Stored memory pointer (front ++ back)) :
    Stored memory pointer front := by
  intro i inside
  rw [stored i (by rw [List.length_append]; omega), Base.areaOf_append, if_pos inside]

/-- and the second behind it. -/
theorem Stored.right (stored : Stored memory pointer (front ++ back)) :
    Stored memory (pointer + front.length) back := by
  intro i inside
  rw [Nat.add_assoc, stored _ (by rw [List.length_append]; omega), Base.areaOf_append,
    if_neg (by omega), Nat.add_sub_cancel_left]

/-- Two pieces side by side are stored as one. -/
theorem Stored.append (first : Stored memory pointer front)
    (second : Stored memory (pointer + front.length) back) :
    Stored memory pointer (front ++ back) := by
  intro i inside
  rw [List.length_append] at inside
  rw [Base.areaOf_append]
  split
  next before => exact first i before
  next behind =>
    rw [← second _ (by omega)]
    apply congrArg memory
    omega

/-- Bytes are stored where they were moved to. -/
theorem Stored.moved (stored : Stored memory pointer bytes) {target : Nat}
    (same : ∀ i < bytes.length, memory' (target + i) = memory (pointer + i)) :
    Stored memory' target bytes :=
  fun i inside => (same i inside).trans (stored i inside)

/-- What is read from a pointer on begins with the bytes stored there. -/
theorem Stored.bytesFrom (stored : Stored memory pointer bytes)
    (fits : pointer + bytes.length ≤ size) :
    ∃ rest, bytesFrom memory size pointer = bytes ++ rest := by
  obtain ⟨more, total⟩ : ∃ more, size - pointer = bytes.length + more :=
    ⟨size - pointer - bytes.length, by omega⟩
  refine ⟨(List.range more).map fun i => memory (pointer + (bytes.length + i)), ?_⟩
  have begun : (List.range bytes.length).map (fun i => memory (pointer + i)) = bytes := by
    apply List.ext_getElem (by rw [List.length_map, List.length_range])
    intro i first second
    have byte := stored i second
    rw [Base.areaOf_lt second] at byte
    simpa using byte
  rw [Menu.bytesFrom, total, List.range_add, List.map_append, begun, List.map_map]
  rfl

/-- The bytes of the heap from a pointer on. -/
theorem length_bytesFrom (memory : MenuMemory) (size pointer : Nat) :
    (bytesFrom memory size pointer).length = size - pointer := by
  rw [bytesFrom, List.length_map, List.length_range]

end Stored

/-! ## Lines in memory -/

/-- Lists of strings are encoded one behind the other, -/
theorem encodeStrings_append (first second : List (List UInt8)) :
    encodeStrings (first ++ second) = encodeStrings first ++ encodeStrings second :=
  List.flatMap_append

/-- and so are a string and the rest. -/
theorem encodeStrings_cons (line : List UInt8) (lines : List (List UInt8)) :
    encodeStrings (line :: lines) = encodeString line ++ encodeStrings lines := rfl

section Lines

variable {memory : MenuMemory} {list size : Nat} {lines : List (List UInt8)}

/-- Each line starts behind those before it. -/
theorem entryAt_lines (stored : Stored memory list (encodeGroup lines))
    (fits : list + (encodeGroup lines).length ≤ size) (free : ∀ line ∈ lines, NulFree line)
    {num : Nat} (known : num ≤ lines.length) :
    entryAt memory size list num false =
      some (list + (encodeStrings (lines.take num)).length) := by
  obtain ⟨rest, read⟩ := stored.bytesFrom fits
  have total := length_bytesFrom memory size list
  have entry := @getEntry_flatMap _ encodeString false lines
    (fun line member rest => skipEntry_encodeString (free line member) rest) num known ([0] ++ rest)
  have whole : bytesFrom memory size list = lines.flatMap encodeString ++ ([0] ++ rest) := by
    rw [read, encodeGroup, encodeStrings, List.append_assoc]
  have parts : (encodeStrings lines).length = (encodeStrings (lines.take num)).length +
      (encodeStrings (lines.drop num)).length := by
    rw [← List.length_append, ← encodeStrings_append, List.take_append_drop]
  rw [whole, List.length_append] at total
  rw [entryAt, whole, Int.toNat_natCast, entry, Option.map_some]
  apply congrArg some
  rw [List.length_append]
  change (encodeStrings lines).length + _ = _ at total
  change list + (size - list - ((encodeStrings (lines.drop num)).length + _)) = _
  omega

/-- The line at a pointer. -/
theorem stringAt_line {pointer : Nat} {line rest : List UInt8} (free : NulFree line)
    (stored : Stored memory pointer (encodeString line ++ rest))
    (fits : pointer + (encodeString line ++ rest).length ≤ size) :
    stringAt memory size pointer = line := by
  obtain ⟨behind, read⟩ := stored.bytesFrom fits
  rw [stringAt, read, List.append_assoc]
  exact readString_encodeString free _

/-- Lines up to one, and from it on. -/
theorem encodeGroup_split (lines : List (List UInt8)) (num : Nat) :
    encodeGroup lines =
      encodeStrings (lines.take num) ++ (encodeStrings (lines.drop num) ++ [0]) := by
  rw [encodeGroup, ← List.append_assoc, ← encodeStrings_append, List.take_append_drop]

/-- A line that is inserted stands between the lines before and behind its place. -/
theorem insertIdx_eq_append {num : Nat} (known : num ≤ lines.length) (line : List UInt8) :
    lines.insertIdx num line = lines.take num ++ line :: lines.drop num := by
  induction num generalizing lines with
  | zero => rfl
  | succ num ih =>
      cases lines with
      | nil => exact absurd known (by simp)
      | cons first lines =>
          rw [List.insertIdx_succ_cons, ih (Nat.le_of_succ_le_succ known)]
          rfl

/-- The encoding of a list with one more line, -/
theorem encodeGroup_insert {num : Nat} (known : num ≤ lines.length) (line : List UInt8) :
    encodeGroup (lines.insertIdx num line) =
      encodeStrings (lines.take num) ++
        (encodeString line ++ (encodeStrings (lines.drop num) ++ [0])) := by
  rw [insertIdx_eq_append known, encodeGroup, encodeStrings_append, encodeStrings_cons,
    List.append_assoc, List.append_assoc]

/-- without a line, -/
theorem encodeGroup_erase {num : Nat} :
    encodeGroup (lines.eraseIdx num) =
      encodeStrings (lines.take num) ++ (encodeStrings (lines.drop (num + 1)) ++ [0]) := by
  rw [List.eraseIdx_eq_take_drop_succ, encodeGroup, encodeStrings_append, List.append_assoc]

/-- and with a line replaced. -/
theorem encodeGroup_set {num : Nat} (known : num < lines.length) (line : List UInt8) :
    encodeGroup (lines.set num line) =
      encodeStrings (lines.take num) ++
        (encodeString line ++ (encodeStrings (lines.drop (num + 1)) ++ [0])) := by
  rw [List.set_eq_take_append_cons_drop, if_pos known, encodeGroup, encodeStrings_append,
    encodeStrings_cons, List.append_assoc, List.append_assoc]

/-- The line at a place, and those behind it. -/
theorem encodeStrings_drop {num : Nat} (known : num < lines.length) :
    encodeStrings (lines.drop num) =
      encodeString (lines.get ⟨num, known⟩) ++ encodeStrings (lines.drop (num + 1)) := by
  rw [List.drop_eq_getElem_cons known, encodeStrings_cons]
  rfl

end Lines

section Moves

variable {memory : MenuMemory} {target source pointer address : Nat} {len : Int}
  {bytes : List UInt8}

/-- A byte that is moved is that of the source, -/
theorem memmove_inside (some_ : 0 ≤ len) (small : len < 2 ^ 32) {i : Nat} (inside : i < len) :
    memmove memory target source len (target + i) = memory (source + i) := by
  obtain ⟨count, rfl⟩ := Int.eq_ofNat_of_zero_le some_
  rw [memmove, Base.toUInt32_of_range (by omega), if_pos ⟨by omega, by omega⟩,
    Nat.add_sub_cancel_left]

/-- a byte below the target is as it was, -/
theorem memmove_below (below : address < target) :
    memmove memory target source len address = memory address :=
  if_neg (by omega)

/-- and so is one behind it. -/
theorem memmove_behind (some_ : 0 ≤ len) (small : len < 2 ^ 32) (behind : target + len ≤ address) :
    memmove memory target source len address = memory address := by
  obtain ⟨count, rfl⟩ := Int.eq_ofNat_of_zero_le some_
  rw [memmove, Base.toUInt32_of_range (by omega), if_neg (by omega)]

/-- A byte below the stores is as it was, -/
theorem putBytes_below (below : address < pointer) :
    putBytes memory pointer bytes address = memory address :=
  if_neg (by omega)

/-- and one behind them. -/
theorem putBytes_behind (behind : pointer + bytes.length ≤ address) :
    putBytes memory pointer bytes address = memory address := by
  rw [putBytes, if_pos (by omega), List.getElem?_eq_none (by omega)]
  rfl

/-- What is put is stored. -/
theorem stored_putBytes (memory : MenuMemory) (pointer : Nat) (bytes : List UInt8) :
    Stored (putBytes memory pointer bytes) pointer bytes := by
  intro i inside
  rw [putBytes, if_pos (Nat.le_add_right _ _), Nat.add_sub_cancel_left,
    List.getElem?_eq_getElem inside, Base.areaOf_lt inside]
  rfl

/-- What the splicing of a list comes to. -/
theorem Stored.splice {memory' : MenuMemory} {list : Nat} {front middle back : List UInt8}
    (kept : Stored memory list front)
    (same : ∀ address < list + front.length, memory' address = memory address)
    (new : Stored memory' (list + front.length) middle)
    (behind : Stored memory' (list + front.length + middle.length) back) :
    Stored memory' list (front ++ (middle ++ back)) :=
  (kept.moved fun i _ => same _ (by omega)).append (new.append behind)

end Moves

/-! ## The keys for the lines -/

/-- The list of the lines that are edited lies below the heap, in memory. -/
structure ListsLines (size : Nat) (lines : List (List UInt8)) (session : MenuSession) : Prop where
  free : ∀ line ∈ lines, NulFree line
  stored : Stored session.memory session.call.menuEntries (encodeGroup lines)
  heap : session.call.heap = session.call.menuEntries + (encodeGroup lines).length
  room : session.call.heap ≤ size

section Keys

variable {size : Nat} {lines : List (List UInt8)} {session : MenuSession}

/-- A session in the same call, with another list. -/
structure Relists (size : Nat) (lines : List (List UInt8)) (session next : MenuSession) :
    Prop where
  menu : next.menu = session.menu
  null : next.call.configEntries = session.call.configEntries
  lists : ListsLines size lines next

/-- The blank line. -/
def blankLine : List UInt8 := [charOf ' ']

/-- The line a new entry starts with has no NUL, -/
theorem nulFree_blankLine : NulFree blankLine := by
  intro c member
  rw [List.mem_singleton.mp member]
  decide

/-- so a list of such lines still is one with it. -/
theorem free_insert (free : ∀ line ∈ lines, NulFree line) (num : Nat) :
    ∀ line ∈ lines.insertIdx num blankLine, NulFree line := by
  intro line member
  rcases List.eq_or_mem_of_mem_insertIdx member with rfl | member
  · exact nulFree_blankLine
  · exact free line member

/-- Where a line starts. -/
theorem ListsLines.entry (lists : ListsLines size lines session) {num : Nat}
    (known : num ≤ lines.length) :
    entryAt session.memory size session.call.menuEntries num false =
      some (session.call.menuEntries + (encodeStrings (lines.take num)).length) :=
  entryAt_lines lists.stored (by rw [← lists.heap]; exact lists.room) lists.free known

/-- The bytes the `o` and `O` keys move leave the list with a blank line inserted. -/
theorem insertBytes_lines (lists : ListsLines size lines session) (small : size < 2 ^ 32)
    {num : Nat} (known : num ≤ lines.length) (grows : session.call.heap + 2 ≤ size) :
    ∃ next, insertBytes size num session = some next ∧
      Relists size (lines.insertIdx num blankLine) session next := by
  have heap := lists.heap
  have stored := lists.stored
  have inserted := @encodeGroup_insert lines num known blankLine
  rw [encodeGroup_split lines num] at stored heap
  have behind := stored.right
  rw [List.length_append] at heap
  rw [insertBytes]
  dsimp only
  rw [lists.entry known, Option.map_some]
  refine ⟨_, rfl, rfl, rfl, free_insert lists.free num, ?_, ?_, grows⟩
  · rw [inserted]
    apply Stored.splice stored.left
    · intro address below
      refine (putBytes_below below).trans (memmove_below ?_)
      omega
    · exact stored_putBytes _ _ _
    · apply behind.moved
      intro i inside
      refine (putBytes_behind (Nat.le_add_right_of_le (Nat.le_refl _))).trans ?_
      exact memmove_inside (by omega) (by omega) (by omega)
  · rw [inserted, List.length_append, List.length_append]
    change session.call.heap + 2 = session.call.menuEntries + (_ + (2 + _))
    omega

/-- The bytes the `d` key moves leave the list without the line. -/
theorem deleteBytes_lines (lists : ListsLines size lines session) (small : size < 2 ^ 32)
    {num : Nat} (known : num < lines.length) {numEntries : Int} (some_ : 0 < numEntries) :
    ∃ next, deleteBytes size numEntries num session = some next ∧
      Relists size (lines.eraseIdx num) session next := by
  have heap := lists.heap
  have room := lists.room
  have stored := lists.stored
  have erased := @encodeGroup_erase lines num
  have split := encodeStrings_drop known
  rw [encodeGroup_split lines num, split, List.append_assoc] at stored heap
  have behind := stored.right.right
  rw [List.length_append, List.length_append] at heap
  have next : (encodeStrings (lines.take (num + 1))).length =
      (encodeStrings (lines.take num)).length +
        (encodeString (lines.get ⟨num, known⟩)).length := by
    rw [List.take_succ_eq_append_getElem known, encodeStrings_append, List.length_append,
      encodeStrings_cons, List.length_append]
    rfl
  have ptr := lists.entry (Nat.succ_le_of_lt known)
  rw [next] at ptr
  rw [deleteBytes]
  rw [lists.entry (Nat.le_of_lt known), Option.bind_some, if_pos some_]
  change ∃ next, (entryAt _ _ _ ((num + 1 : Nat) : Int) _).map _ = _ ∧ _
  rw [ptr, Option.map_some]
  refine ⟨_, rfl, rfl, rfl, fun line member => lists.free line (List.mem_of_mem_eraseIdx member),
    ?_, ?_, ?_⟩
  · rw [erased]
    apply (stored.left.moved fun i inside => memmove_below (by omega)).append
    apply behind.moved
    intro i inside
    refine (memmove_inside (by omega) (by omega) (by omega)).trans ?_
    apply congrArg session.memory
    omega
  · rw [erased, List.length_append]
    dsimp only [MenuSession.point, MenuSession.store]
    omega
  · exact Nat.le_trans (Nat.sub_le _ _) room

/-- The line that `e` puts in, which is not empty. -/
def replacement (text : List UInt8) : List UInt8 := if text = [] then blankLine else text

/-- What `e` stores for a prompt that is left lies above the heap. -/
theorem editText_cancelled (lists : ListsLines size lines session) {num : Nat}
    (known : num ≤ lines.length) (stored : List UInt8) :
    ∃ next, editText size num (.cancelled stored) session = some next ∧
      Relists size lines session next := by
  rw [editText]
  dsimp only
  rw [lists.entry known, Option.map_some]
  refine ⟨_, rfl, rfl, rfl, lists.free, ?_, lists.heap, lists.room⟩
  change Stored _ session.call.menuEntries _
  apply lists.stored.moved
  intro i inside
  have heap := lists.heap
  exact (putBytes_below (by omega)).trans (putBytes_below (by omega))

/-- The lines behind the one that is edited are moved before its text is copied, so the
text must not be longer than the room in front of it. -/
theorem editText_lines (lists : ListsLines size lines session) (small : size < 2 ^ 32)
    {num : Nat} (known : num < lines.length) {text : List UInt8} (free : NulFree text)
    (near : (replacement text).length ≤
      (lines.get ⟨num, known⟩).length + newHeapsize + 1)
    (grows : session.call.heap + (replacement text).length ≤
      size + (lines.get ⟨num, known⟩).length) :
    ∃ next, editText size num (.entered text) session = some next ∧
      Relists size (lines.set num (replacement text)) session next := by
  have heap := lists.heap
  have room := lists.room
  have whole := lists.stored
  have replaced := encodeGroup_set known (replacement text)
  have split := encodeStrings_drop known
  have old : (encodeString (lines.get ⟨num, known⟩)).length =
      (lines.get ⟨num, known⟩).length + 1 := List.length_append
  have new : (encodeString (replacement text)).length = (replacement text).length + 1 :=
    List.length_append
  rw [encodeGroup_split lines num, split, List.append_assoc] at whole heap
  have behind := whole.right.right
  rw [List.length_append, List.length_append] at heap
  have string := @stringAt_line session.memory size _ (lines.get ⟨num, known⟩) _
    (lists.free _ (List.get_mem _ _)) whole.right (by
      rw [List.length_append]
      omega)
  rw [editText]
  dsimp only
  rw [lists.entry (Nat.le_of_lt known), Option.map_some, string,
    show (if text = [] then [charOf ' '] else text) = replacement text from rfl]
  refine ⟨_, rfl, rfl, rfl, ?_, ?_, ?_, ?_⟩
  · intro line member
    rcases List.mem_or_eq_of_mem_set member with member | rfl
    · exact lists.free line member
    · rw [replacement]
      split
      · exact nulFree_blankLine
      · exact free
  · dsimp only [MenuSession.point, MenuSession.store]
    rw [replaced]
    apply Stored.splice whole.left
    · intro address below
      refine (memmove_below below).trans ((memmove_below (by omega)).trans ?_)
      exact (putBytes_below (by omega)).trans (putBytes_below (by omega))
    · apply (stored_putBytes _ _ _).moved
      intro i inside
      refine (memmove_inside (by omega) (by omega) (by omega)).trans ?_
      exact memmove_behind (by omega) (by omega) (by omega)
    · apply behind.moved
      intro i inside
      refine (memmove_behind (by omega) (by omega) (by omega)).trans ?_
      refine (memmove_inside (by omega) (by omega) (by omega)).trans ?_
      refine ((putBytes_below (by omega)).trans (putBytes_below (by omega))).trans ?_
      apply congrArg session.memory
      omega
  · rw [replaced, List.length_append, List.length_append]
    change session.call.heap + (encodeString (replacement text)).length - _ = _
    dsimp only [MenuSession.point, MenuSession.store]
    omega
  · change session.call.heap + (encodeString (replacement text)).length - _ ≤ size
    omega

end Keys

/-! ## The selection -/

/-- The selection is in the list, or at its beginning if there is no line. -/
structure InList (call : MenuCall) : Prop where
  first : 0 ≤ call.firstEntry
  entry : 0 ≤ call.entryno
  last : call.selected < max 1 call.numEntries

section Selection

variable {dumb : Bool} {call : MenuCall} {c : UInt8}

/-- The cursor stays in the list on the way up, -/
theorem InList.moveUp (inList : InList call) : InList (moveUp dumb call) := by
  obtain ⟨first, entry, last⟩ := inList
  rw [MenuCall.selected] at last
  rw [Menu.moveUp]
  repeat' split
  all_goals constructor <;> (try dsimp only [MenuCall.selected]) <;> omega

/-- down, where an entry is left, -/
theorem InList.moveDown (inList : InList call)
    (more : call.firstEntry + call.entryno + 1 < call.numEntries) :
    InList (moveDown dumb call) := by
  obtain ⟨first, entry, last⟩ := inList
  rw [MenuCall.selected] at last
  rw [Menu.moveDown]
  repeat' split
  all_goals constructor <;> (try dsimp only [MenuCall.selected]) <;> omega

/-- a page up -/
theorem InList.pageUp (inList : InList call) : InList (pageUp call) := by
  obtain ⟨first, entry, last⟩ := inList
  rw [MenuCall.selected] at last
  rw [Menu.pageUp]
  dsimp only
  split
  · constructor <;> (try dsimp only [MenuCall.selected]) <;> omega
  · constructor <;> (try dsimp only [MenuCall.selected]) <;> omega

/-- or a page down, -/
theorem InList.pageDown (inList : InList call) (some_ : 0 < call.numEntries) :
    InList (pageDown call) := by
  obtain ⟨first, entry, last⟩ := inList
  rw [MenuCall.selected] at last
  rw [Menu.pageDown]
  dsimp only
  split
  · constructor <;> (try dsimp only [MenuCall.selected]) <;> omega
  · constructor <;> (try dsimp only [MenuCall.selected]) <;> omega

/-- so for every key that moves it. -/
theorem InList.moveKey (inList : InList call) (some_ : c = 3 → 0 < call.numEntries) :
    InList (moveKey dumb c call) := by
  rw [Menu.moveKey]
  split
  · exact inList.moveUp
  split
  next down => exact inList.moveDown down.2
  split
  · exact inList.pageUp
  split
  next isPageDown => exact inList.pageDown (some_ isPageDown)
  · exact inList

/-- `o` selects the line behind the old one, `O` the one in its place. -/
theorem insertLine_selected :
    (insertLine dumb c call).selected = call.selected + if c = charOf 'o' then 1 else 0 := by
  rw [MenuCall.selected, MenuCall.selected, Menu.insertLine]
  by_cases after : c = charOf 'o'
  · rw [if_pos after, if_pos after]
    split
    · dsimp only
      omega
    · dsimp only
      omega
  · rw [if_neg after, if_neg after, Int.add_zero]

/-- There is one line more. -/
theorem insertLine_numEntries : (insertLine dumb c call).numEntries = call.numEntries + 1 := by
  rw [Menu.insertLine]
  repeat' split
  all_goals rfl

/-- There is one line less, if there was any. -/
theorem deleteLine_numEntries :
    (deleteLine call).numEntries =
      if 0 < call.numEntries then call.numEntries - 1 else call.numEntries := by
  rw [Menu.deleteLine]
  split
  · rfl
  · rfl

/-- The cursor is in the longer list. -/
theorem InList.insertLine (inList : InList call) (count : 0 ≤ call.numEntries)
    (some_ : c = charOf 'o' → 0 < call.numEntries) : InList (insertLine dumb c call) := by
  obtain ⟨first, entry, last⟩ := inList
  rw [MenuCall.selected] at last
  rw [Menu.insertLine]
  split
  next after =>
    have some_ := some_ after
    split
    · constructor <;> (try dsimp only [MenuCall.selected]) <;> omega
    · constructor <;> (try dsimp only [MenuCall.selected]) <;> omega
  · constructor <;> (try dsimp only [MenuCall.selected]) <;> omega

/-- Removing a line keeps the selection, except for the only line, and for the last one
below the first page of a scrolled menu. -/
theorem InList.deleteLine (inList : InList call) (another : call.numEntries ≠ 1)
    (near : call.firstEntry = 0 ∨ call.entryno ≤ 11 ∨ call.selected + 1 < call.numEntries) :
    InList (deleteLine call) := by
  obtain ⟨first, entry, last⟩ := inList
  rw [MenuCall.selected] at last near
  rw [Menu.deleteLine]
  dsimp only
  split
  · constructor <;> (try dsimp only [MenuCall.selected]) <;> (repeat' split) <;> omega
  · exact ⟨first, entry, last⟩

/-- A page that is scrolled shows the same entry. -/
theorem InList.scrollPage (inList : InList call) : InList (scrollPage call) := by
  obtain ⟨first, entry, last⟩ := inList
  rw [MenuCall.selected] at last
  rw [scrollPage_eq]
  constructor <;> (try dsimp only [MenuCall.selected]) <;> omega

/-- The keys that change the list move nothing. -/
theorem moveKey_changes (changes : c = charOf 'o' ∨ c = charOf 'O' ∨ c = charOf 'd' ∨
    c = charOf 'e') : moveKey dumb c call = call := by
  rcases changes with rfl | rfl | rfl | rfl <;>
    exact (if_neg (by decide)).trans ((if_neg (fun down => absurd down.1 (by decide))).trans
      ((if_neg (by decide)).trans (if_neg (by decide))))

end Selection

/-! ## A turn of the editor -/

instance (setup : MenuSetup) (state : MenuState) : Decidable (MayChange setup state) :=
  inferInstanceAs (Decidable (_ ∧ _))

/-- The keys that edit the list: the four that change it, and those that move the
selection. -/
def EditingKey (c : UInt8) : Prop :=
  (c = charOf 'o' ∨ c = charOf 'O' ∨ c = charOf 'd' ∨ c = charOf 'e') ∨
    (c = 16 ∨ c = charOf '^' ∨ c = 14 ∨ c = charOf 'v' ∨ c = 7 ∨ c = 3)

/-- The selected line is replaced, unless the prompt is left. -/
def retype (num : Nat) (prompt : PromptAnswer) (lines : List (List UInt8)) : List (List UInt8) :=
  match prompt with
  | .entered text => lines.set num (replacement text)
  | .cancelled _ => lines

/-- What a key makes of the list. -/
def editedLines (setup : MenuSetup) (c : UInt8) (prompt : PromptAnswer) (state : MenuState)
    (lines : List (List UInt8)) : List (List UInt8) :=
  let num := state.call.selected.toNat
  if c = charOf 'o' then lines.insertIdx (num + 1) blankLine
  else if c = charOf 'O' then lines.insertIdx num blankLine
  else if c = charOf 'd' then lines.eraseIdx num
  else if c = charOf 'e' ∧ MayChange setup state then retype num prompt lines
  else lines

/-- The condition on a key. The list has room to grow, a text that is entered is a string
and has room in front of the copy of it, and the selection has where to go. -/
structure Proper (setup : MenuSetup) (size : Nat) (lines : List (List UInt8)) (c : UInt8)
    (prompt : PromptAnswer) (session : MenuSession) : Prop where
  scrolls : c = 3 → lines ≠ []
  inserts : c = charOf 'o' → lines ≠ []
  grows : c = charOf 'o' ∨ c = charOf 'O' → session.call.heap + 2 ≤ size
  removes : c = charOf 'd' → lines.length ≠ 1 ∧
    (session.menu.call.firstEntry = 0 ∨ session.menu.call.entryno ≤ 11 ∨
      session.menu.call.selected + 1 < lines.length)
  replaces : c = charOf 'e' → MayChange setup session.menu → ∀ text, prompt = .entered text →
    NulFree text ∧ lines ≠ [] ∧
      ∀ line, lines[session.menu.call.selected.toNat]? = some line →
        (replacement text).length ≤ line.length + newHeapsize + 1 ∧
        session.call.heap + (replacement text).length ≤ size + line.length

/-- A call of `run_menu` edits these lines. -/
structure EditsLines (size : Nat) (lines : List (List UInt8)) (session : MenuSession) : Prop where
  keys : session.menu.loop = .keys
  quiet : session.menu.grubTimeout < 0
  editing : session.menu.call.configEntries = false
  null : session.call.configEntries = none
  count : session.menu.call.numEntries = lines.length
  inList : InList session.menu.call
  lists : ListsLines size lines session

section Turn

variable {setup : MenuSetup} {size : Nat} {lines : List (List UInt8)} {session : MenuSession}
  {c : UInt8} {input : KeyInput}

/-- The call at a turn of the loop that reads keys. -/
def freshCall (state : MenuState) : MenuCall := { state.call with curEntry := false }

/-- What is left of a key's turn is done by the keys for the settings. -/
theorem keyTurn_editing {state : MenuState} {answers : KeyAnswers}
    (quiet : state.grubTimeout < 0) (editing : state.call.configEntries = false)
    (key : answers.key = some c) (stays : c ≠ 27 ∧ c ≠ charOf 'b') :
    keyTurn setup state answers =
      settingsKey setup
        { state with
          call := { editKey state.dumb c (moveKey state.dumb c (freshCall state)) with
            curEntry := true } }
        answers c := by
  have moved := @moveKey_configEntries state.dumb (freshCall state) c
  have stopped : stopTimeout { state with call := freshCall state } =
      { state with call := freshCall state } :=
    if_neg (Int.not_le.mpr quiet)
  rw [keyTurn]
  dsimp only
  rw [if_neg (by omega), if_neg (by omega), key]
  change keyPressed setup { state with call := freshCall state } answers c = _
  rw [keyPressed, stopped]
  dsimp only
  rw [if_neg, if_neg stays.1, if_neg stays.2]
  rw [moved]
  change ¬ state.call.configEntries = true
  rw [editing]
  decide

/-- The same for the pointers and the memory. -/
theorem keyTurnBytes_editing (quiet : session.menu.grubTimeout < 0)
    (editing : session.menu.call.configEntries = false) (key : input.key = some c)
    (stays : c ≠ 27 ∧ c ≠ charOf 'b') :
    keyTurnBytes setup size input session.fetched =
      (editBytes size session.menu.dumb c
          (moveKey session.menu.dumb c (freshCall session.menu)) session.fetched).bind fun next =>
        settingsBytes setup size
          { editKey session.menu.dumb c
              (moveKey session.menu.dumb c (freshCall session.menu)) with curEntry := true }
          c input (next.point { next.call with curEntry := some next.call.menuEntries }) := by
  have moved := @moveKey_configEntries session.menu.dumb (freshCall session.menu) c
  rw [keyTurnBytes, key]
  change (if 0 ≤ session.menu.grubTimeout ∧ session.menu.grubTimeout ≤ 0 then _ else _) = _
  rw [if_neg (by omega)]
  change keyBytes setup size c input session.fetched = _
  rw [keyBytes]
  change (if (moveKey session.menu.dumb c (freshCall session.menu)).configEntries then _
    else _) = _
  rw [if_neg]
  · apply congrArg
    funext next
    rw [if_neg stays.1, if_neg stays.2]
    rfl
  · rw [moved]
    change ¬ session.menu.call.configEntries = true
    rw [editing]
    decide

/-- A key that is not one for the settings. -/
theorem settingsKey_other {state : MenuState} {answers : KeyAnswers}
    (other : c ≠ charOf 'p' ∧ c ≠ charOf 'e' ∧ c ≠ charOf 'c' ∧ c ≠ charOf 'a') :
    settingsKey setup state answers c = state := by
  obtain ⟨p, e, c', a⟩ := other
  have notAppend : ¬ (state.call.configEntries = true ∧ c = charOf 'a') := fun append => a append.2
  simp only [settingsKey, if_neg p, if_neg e, if_neg c', if_neg notAppend, ite_self]

/-- Keys that are no settings change no byte. -/
theorem settingsBytes_other {call : MenuCall}
    (other : c ≠ charOf 'p' ∧ c ≠ charOf 'e' ∧ c ≠ charOf 'c' ∧ c ≠ charOf 'a') :
    settingsBytes setup size call c input session = some session := by
  obtain ⟨p, e, c', a⟩ := other
  have notPassword : ¬ (c = charOf 'p' ∧ input.passwordRight = true ∧ input.newFile = true) :=
    fun password => p password.1
  have notAppend : ¬ (call.configEntries = true ∧ c = charOf 'a') := fun append => a append.2
  simp only [settingsBytes, if_neg notPassword, if_neg e, if_neg c', if_neg notAppend, ite_self]

/-- Changes are allowed outside secure mode, once the password is given or none is set. -/
theorem mayChange_iff {state : MenuState} :
    MayChange setup state ↔
      ¬ setup.secureLocked = true ∧ ¬ (!state.auth && setup.password) = true := by
  rw [MayChange]
  cases setup.secureLocked <;> cases state.auth <;> cases setup.password <;> decide

/-- `e` goes on at `restart`, if the settings may be changed. -/
theorem settingsKey_edit {state : MenuState} {answers : KeyAnswers}
    (editing : state.call.configEntries = false) :
    settingsKey setup state answers (charOf 'e') =
      if MayChange setup state then restart state else state := by
  have notParsed : ¬ state.call.configEntries = true := by rw [editing]; nofun
  rw [settingsKey]
  by_cases may : MayChange setup state
  · rw [if_pos may]
    rw [mayChange_iff] at may
    rw [if_neg may.1, if_neg may.2, if_pos rfl, if_neg notParsed]
  · rw [if_neg may]
    by_cases locked : setup.secureLocked = true
    · rw [if_pos locked]
    rw [if_neg locked]
    by_cases guarded : (!state.auth && setup.password) = true
    · rw [if_pos guarded, if_neg (by decide)]
    · exact absurd (mayChange_iff.mpr ⟨locked, guarded⟩) may

/-- In the list of lines `e` changes the text of the selected one, where changes are allowed. -/
theorem settingsBytes_edit {call : MenuCall} (editing : call.configEntries = false) :
    settingsBytes setup size call (charOf 'e') input session =
      if MayChange setup session.menu then editText size call.selected input.prompt session
      else some session := by
  have notParsed : ¬ call.configEntries = true := by rw [editing]; nofun
  rw [settingsBytes]
  by_cases may : MayChange setup session.menu
  · rw [if_pos may]
    rw [mayChange_iff] at may
    rw [if_neg may.1, if_neg may.2, if_pos rfl, if_neg notParsed]
  · rw [if_neg may]
    by_cases locked : setup.secureLocked = true
    · rw [if_pos locked]
    rw [if_neg locked]
    by_cases guarded : (!session.menu.auth && setup.password) = true
    · rw [if_pos guarded, if_neg fun password => absurd password.1 (by decide)]
    · exact absurd (mayChange_iff.mpr ⟨locked, guarded⟩) may

/-- The session after a turn. -/
theorem EditsLines.relist (edits : EditsLines size lines session) {lines' : List (List UInt8)}
    {next : MenuSession} {menu : MenuState} (relists : Relists size lines' session.fetched next)
    (keys : menu.loop = .keys) (quiet : menu.grubTimeout < 0)
    (editing : menu.call.configEntries = false) (count : menu.call.numEntries = lines'.length)
    (inList : InList menu.call) : EditsLines size lines' (next.turned menu) where
  keys := keys
  quiet := quiet
  editing := editing
  null := relists.null.trans edits.null
  count := count
  inList := inList
  lists := ⟨relists.lists.free, relists.lists.stored, relists.lists.heap, relists.lists.room⟩

/-- The turn of a key that the settings do not take. -/
theorem sessionTurn_other (edits : EditsLines size lines session) (key : input.key = some c)
    (stays : c ≠ 27 ∧ c ≠ charOf 'b')
    (other : c ≠ charOf 'p' ∧ c ≠ charOf 'e' ∧ c ≠ charOf 'c' ∧ c ≠ charOf 'a') :
    sessionTurn setup size session (.key input) =
      (editBytes size session.menu.dumb c
          (moveKey session.menu.dumb c (freshCall session.menu)) session.fetched).map fun next =>
        (next.point { next.call with curEntry := some next.call.menuEntries }).turned
          { session.menu with
            call := { editKey session.menu.dumb c
                (moveKey session.menu.dumb c (freshCall session.menu)) with curEntry := true } } := by
  rw [sessionTurn, if_pos edits.keys, keyTurnBytes_editing edits.quiet edits.editing key stays,
    keyTurn_editing edits.quiet edits.editing key stays, settingsKey_other other]
  cases editBytes size session.menu.dumb c
      (moveKey session.menu.dumb c (freshCall session.menu)) session.fetched with
  | none => rfl
  | some next => rw [Option.bind_some, settingsBytes_other other]; rfl

/-- The turn of `e`. -/
theorem sessionTurn_edit (edits : EditsLines size lines session)
    (key : input.key = some (charOf 'e')) :
    sessionTurn setup size session (.key input) =
      if MayChange setup session.menu then
        (editText size session.menu.call.selected input.prompt
          (session.fetched.point
            { session.fetched.call with curEntry := some session.call.menuEntries })).map
          fun next => next.turned (restart
            { session.menu with call := { session.menu.call with curEntry := true } })
      else
        some ((session.fetched.point
          { session.fetched.call with curEntry := some session.call.menuEntries }).turned
            { session.menu with call := { session.menu.call with curEntry := true } }) := by
  have unmoved : moveKey session.menu.dumb (charOf 'e') (freshCall session.menu) =
      freshCall session.menu := moveKey_changes (.inr (.inr (.inr rfl)))
  rw [sessionTurn, if_pos edits.keys,
    keyTurnBytes_editing edits.quiet edits.editing key (by decide),
    keyTurn_editing edits.quiet edits.editing key (by decide), unmoved, editBytes_edit,
    editKey_edit, Option.bind_some,
    @settingsBytes_edit _ _ _ _ { freshCall session.menu with curEntry := true } edits.editing,
    @settingsKey_edit _
      { session.menu with call := { freshCall session.menu with curEntry := true } } _
      edits.editing]
  by_cases may : MayChange setup session.menu
  · rw [if_pos may]
    refine (congrArg (Option.map _) (if_pos may)).trans ?_
    refine Option.map_congr fun next _ => congrArg next.turned (if_pos may)
  · rw [if_neg may]
    refine (congrArg (Option.map _) (if_neg may)).trans ?_
    exact congrArg some (congrArg (MenuSession.turned _) (if_neg may))

/-- The list that is edited is what is read back from it. -/
theorem EditsLines.fetched (edits : EditsLines size lines session) :
    ListsLines size lines session.fetched :=
  ⟨edits.lists.free, edits.lists.stored, edits.lists.heap, edits.lists.room⟩

/-- `cur_entry` is not part of the list. -/
theorem Relists.pointed {next : MenuSession} (relists : Relists size lines session next)
    (curEntry : Option Nat) :
    Relists size lines session (next.point { next.call with curEntry }) :=
  ⟨relists.menu, relists.null,
    relists.lists.free, relists.lists.stored, relists.lists.heap, relists.lists.room⟩

/-- The selected line, as a place in the list. -/
theorem EditsLines.place (edits : EditsLines size lines session) :
    ((session.menu.call.selected.toNat : Nat) : Int) = session.menu.call.selected := by
  have inList := edits.inList
  have first := inList.first
  have entry := inList.entry
  rw [MenuCall.selected]
  omega

/-- The selected line is in the list or right behind it, -/
theorem EditsLines.known (edits : EditsLines size lines session) :
    session.menu.call.selected.toNat ≤ lines.length := by
  have last := edits.inList.last
  have count := edits.count
  omega

/-- and in the list, if this has lines. -/
theorem EditsLines.known_lt (edits : EditsLines size lines session) (some_ : lines ≠ []) :
    session.menu.call.selected.toNat < lines.length := by
  have last := edits.inList.last
  have count := edits.count
  have positive := List.length_pos_iff.mpr some_
  omega

/-- `o` and `O`. -/
theorem editsLines_insert (edits : EditsLines size lines session) (small : size < 2 ^ 32)
    (key : input.key = some c) (inserts : c = charOf 'o' ∨ c = charOf 'O')
    (proper : Proper setup size lines c input.prompt session) :
    ∃ next, sessionTurn setup size session (.key input) = some next ∧
      EditsLines size (editedLines setup c input.prompt session.menu lines) next := by
  have unmoved : moveKey session.menu.dumb c (freshCall session.menu) = freshCall session.menu :=
    moveKey_changes (inserts.elim .inl fun before => .inr (.inl before))
  have notDelete : c ≠ charOf 'd' := by rcases inserts with rfl | rfl <;> decide
  have some_ : c = charOf 'o' → 0 < session.menu.call.numEntries := by
    intro after
    have positive := List.length_pos_iff.mpr (proper.inserts after)
    rw [edits.count]
    omega
  have isEdited : editKey session.menu.dumb c (freshCall session.menu) =
      insertLine session.menu.dumb c (freshCall session.menu) := by
    rw [editKey, if_neg notDelete, if_pos inserts]
  obtain ⟨num, known, isSelected, isInserted⟩ : ∃ num : Nat, num ≤ lines.length ∧
      (insertLine session.menu.dumb c (freshCall session.menu)).selected = num ∧
        editedLines setup c input.prompt session.menu lines = lines.insertIdx num blankLine := by
    have place := edits.place
    rcases inserts with rfl | rfl
    · refine ⟨session.menu.call.selected.toNat + 1,
        edits.known_lt (proper.inserts rfl), ?_, ?_⟩
      · rw [insertLine_selected, if_pos rfl]
        change session.menu.call.selected + 1 = _
        omega
      · rw [editedLines, if_pos rfl]
    · refine ⟨session.menu.call.selected.toNat, edits.known, ?_, ?_⟩
      · rw [insertLine_selected, if_neg (by decide), place, Int.add_zero]
        rfl
      · rw [editedLines, if_neg (by decide), if_pos rfl]
  obtain ⟨after, inserted, relists⟩ := insertBytes_lines edits.fetched small known
    (proper.grows inserts)
  rw [sessionTurn_other edits key (by rcases inserts with rfl | rfl <;> decide)
    (by rcases inserts with rfl | rfl <;> decide), unmoved, isEdited, editBytes, if_neg notDelete,
    if_pos inserts, isSelected, inserted, isInserted]
  refine ⟨_, rfl, edits.relist (relists.pointed _) edits.keys edits.quiet ?_ ?_ ?_⟩
  · change (insertLine session.menu.dumb c (freshCall session.menu)).configEntries = false
    rw [← isEdited, editKey_configEntries]
    exact edits.editing
  · change (insertLine session.menu.dumb c (freshCall session.menu)).numEntries = _
    rw [insertLine_numEntries, List.length_insertIdx_of_le_length known]
    change session.menu.call.numEntries + 1 = _
    rw [edits.count]
    rfl
  · have fresh : InList (freshCall session.menu) := ⟨edits.inList.first, edits.inList.entry,
      edits.inList.last⟩
    have moved := @InList.insertLine session.menu.dumb _ c fresh
      (by change 0 ≤ session.menu.call.numEntries; rw [edits.count]; omega) some_
    exact ⟨moved.first, moved.entry, moved.last⟩

/-- `d` -/
theorem editsLines_delete (edits : EditsLines size lines session) (small : size < 2 ^ 32)
    (key : input.key = some (charOf 'd'))
    (proper : Proper setup size lines (charOf 'd') input.prompt session) :
    ∃ next, sessionTurn setup size session (.key input) = some next ∧
      EditsLines size (editedLines setup (charOf 'd') input.prompt session.menu lines) next := by
  have unmoved : moveKey session.menu.dumb (charOf 'd') (freshCall session.menu) =
      freshCall session.menu := moveKey_changes (.inr (.inr (.inl rfl)))
  have isEdited : editKey session.menu.dumb (charOf 'd') (freshCall session.menu) =
      deleteLine (freshCall session.menu) := by
    rw [editKey, if_pos rfl]
  have isErased : editedLines setup (charOf 'd') input.prompt session.menu lines =
      lines.eraseIdx session.menu.call.selected.toNat := by
    rw [editedLines, if_neg (by decide), if_neg (by decide), if_pos rfl]
  obtain ⟨another, near⟩ := proper.removes rfl
  have count := edits.count
  obtain ⟨after, deleted, relists⟩ : ∃ after,
      deleteBytes size session.menu.call.numEntries session.menu.call.selected session.fetched =
        some after ∧
      Relists size (lines.eraseIdx session.menu.call.selected.toNat) session.fetched after := by
    rw [← edits.place]
    by_cases none_ : lines = []
    · subst none_
      refine ⟨session.fetched, ?_, rfl, rfl, edits.fetched⟩
      rw [deleteBytes, edits.fetched.entry edits.known, Option.bind_some, if_neg (by rw [count]; decide)]
    · have positive := List.length_pos_iff.mpr none_
      exact deleteBytes_lines edits.fetched small (edits.known_lt none_) (by omega)
  rw [sessionTurn_other edits key (by decide) (by decide), unmoved, isEdited, editBytes,
    if_pos rfl, isErased]
  change ∃ next, (deleteBytes size session.menu.call.numEntries session.menu.call.selected
    session.fetched).map _ = _ ∧ _
  rw [deleted]
  refine ⟨_, rfl, edits.relist (relists.pointed _) edits.keys edits.quiet ?_ ?_ ?_⟩
  · change (deleteLine (freshCall session.menu)).configEntries = false
    rw [← isEdited, editKey_configEntries]
    exact edits.editing
  · change (deleteLine (freshCall session.menu)).numEntries = _
    rw [deleteLine_numEntries]
    change (if 0 < session.menu.call.numEntries then session.menu.call.numEntries - 1
      else session.menu.call.numEntries) = _
    by_cases none_ : lines = []
    · rw [if_neg (by rw [count, none_]; decide), count, none_]
      rfl
    · have positive := List.length_pos_iff.mpr none_
      rw [if_pos (by omega), List.length_eraseIdx_of_lt (edits.known_lt none_)]
      omega
  · have moved := @InList.deleteLine (freshCall session.menu)
      ⟨edits.inList.first, edits.inList.entry, edits.inList.last⟩
      (by change session.menu.call.numEntries ≠ 1; omega)
      (near.imp_right (Or.imp_right fun more => by
        change session.menu.call.selected + 1 < session.menu.call.numEntries
        omega))
    exact ⟨moved.first, moved.entry, moved.last⟩

/-- The keys that move the selection. -/
theorem editsLines_move (edits : EditsLines size lines session) (key : input.key = some c)
    (moves : c = 16 ∨ c = charOf '^' ∨ c = 14 ∨ c = charOf 'v' ∨ c = 7 ∨ c = 3)
    (proper : Proper setup size lines c input.prompt session) :
    ∃ next, sessionTurn setup size session (.key input) = some next ∧
      EditsLines size (editedLines setup c input.prompt session.menu lines) next := by
  have isEdited : ∀ call, editKey session.menu.dumb c call = call := by
    intro call
    rcases moves with rfl | rfl | rfl | rfl | rfl | rfl <;>
      exact (if_neg (by decide)).trans (if_neg (by decide))
  have keeps : editBytes size session.menu.dumb c
      (moveKey session.menu.dumb c (freshCall session.menu)) session.fetched =
        some session.fetched := by
    rcases moves with rfl | rfl | rfl | rfl | rfl | rfl <;>
      exact (if_neg (by decide)).trans (if_neg (by decide))
  have same : editedLines setup c input.prompt session.menu lines = lines := by
    rw [editedLines]
    rcases moves with rfl | rfl | rfl | rfl | rfl | rfl <;>
      exact (if_neg (by decide)).trans ((if_neg (by decide)).trans ((if_neg (by decide)).trans
        (if_neg fun edit => absurd edit.1 (by decide))))
  have relists : Relists size lines session.fetched session.fetched :=
    ⟨rfl, rfl, edits.fetched⟩
  rw [sessionTurn_other edits key (by rcases moves with rfl | rfl | rfl | rfl | rfl | rfl <;> decide)
    (by rcases moves with rfl | rfl | rfl | rfl | rfl | rfl <;> decide), keeps, isEdited, same]
  refine ⟨_, rfl, edits.relist (relists.pointed _) edits.keys edits.quiet ?_ ?_ ?_⟩
  · exact (moveKey_configEntries c).trans edits.editing
  · exact (moveKey_numEntries c).trans edits.count
  · have moved := @InList.moveKey session.menu.dumb (freshCall session.menu) c
      ⟨edits.inList.first, edits.inList.entry, edits.inList.last⟩ fun isPageDown => by
        have positive := List.length_pos_iff.mpr (proper.scrolls isPageDown)
        change 0 < session.menu.call.numEntries
        rw [edits.count]
        omega
    exact ⟨moved.first, moved.entry, moved.last⟩

/-- What `restart` keeps of a call that edits lines. -/
theorem EditsLines.restart (edits : EditsLines size lines session) {lines' : List (List UInt8)}
    {next : MenuSession} {menu : MenuState} (relists : Relists size lines' session.fetched next)
    (quiet : menu.grubTimeout < 0) (editing : menu.call.configEntries = false)
    (count : menu.call.numEntries = lines'.length) (inList : InList menu.call) :
    EditsLines size lines' (next.turned (Menu.restart menu)) := by
  refine edits.relist relists ?_ quiet ((restart_configEntries _).trans editing)
    ((restart_numEntries _).trans count) ?_
  · change (if (decide (menu.grubTimeout < 0) || menu.showMenu) = true then MenuLoop.keys
      else .hidden) = .keys
    rw [decide_eq_true quiet, Bool.true_or, if_pos rfl]
  · change InList (if menu.dumb then menu.call else scrollPage menu.call)
    split
    · exact inList
    · exact inList.scrollPage

/-- Where changes are allowed, `e` retypes the selected line. -/
theorem editedLines_edit {state : MenuState} {prompt : PromptAnswer} :
    editedLines setup (charOf 'e') prompt state lines =
      if MayChange setup state then retype state.call.selected.toNat prompt lines else lines := by
  rw [editedLines, if_neg (by decide), if_neg (by decide), if_neg (by decide)]
  split
  next edit => rw [if_pos edit.2]
  next edit => rw [if_neg fun may => edit ⟨rfl, may⟩]

/-- `e` -/
theorem editsLines_edit (edits : EditsLines size lines session) (small : size < 2 ^ 32)
    (key : input.key = some (charOf 'e'))
    (proper : Proper setup size lines (charOf 'e') input.prompt session) :
    ∃ next, sessionTurn setup size session (.key input) = some next ∧
      EditsLines size (editedLines setup (charOf 'e') input.prompt session.menu lines) next := by
  have inList : InList { session.menu.call with curEntry := true } :=
    ⟨edits.inList.first, edits.inList.entry, edits.inList.last⟩
  have lists : ListsLines size lines (session.fetched.point
      { session.fetched.call with curEntry := some session.call.menuEntries }) :=
    ⟨edits.lists.free, edits.lists.stored, edits.lists.heap, edits.lists.room⟩
  rw [sessionTurn_edit edits key, editedLines_edit]
  by_cases may : MayChange setup session.menu
  · rw [if_pos may, if_pos may, ← edits.place]
    cases isPrompt : input.prompt with
    | cancelled stored =>
        obtain ⟨next, edited, relists⟩ := editText_cancelled lists edits.known stored
        rw [edited]
        exact ⟨_, rfl, edits.restart ⟨relists.menu, relists.null, relists.lists⟩ edits.quiet
          edits.editing edits.count inList⟩
    | entered text =>
        obtain ⟨free, some_, fits⟩ := proper.replaces rfl may text isPrompt
        have known := edits.known_lt some_
        obtain ⟨near, grows⟩ := fits _ (List.getElem?_eq_getElem known)
        obtain ⟨next, edited, relists⟩ := editText_lines lists small known free near grows
        rw [edited]
        refine ⟨_, rfl, edits.restart ⟨relists.menu, relists.null, relists.lists⟩ edits.quiet
          edits.editing ?_ inList⟩
        change session.menu.call.numEntries =
          ((lines.set session.menu.call.selected.toNat (replacement text)).length : Int)
        rw [List.length_set]
        exact edits.count
  · rw [if_neg may, if_neg may]
    exact ⟨_, rfl, edits.relist ⟨rfl, rfl, lists⟩ edits.keys edits.quiet edits.editing edits.count
      inList⟩

/-- A key of the editor does to the list what it should. -/
theorem editsLines_turn (edits : EditsLines size lines session) (small : size < 2 ^ 32)
    (key : input.key = some c) (editing : EditingKey c)
    (proper : Proper setup size lines c input.prompt session) :
    ∃ next, sessionTurn setup size session (.key input) = some next ∧
      EditsLines size (editedLines setup c input.prompt session.menu lines) next := by
  rcases editing with (rfl | rfl | rfl | rfl) | moves
  · exact editsLines_insert edits small key (.inl rfl) proper
  · exact editsLines_insert edits small key (.inr rfl) proper
  · exact editsLines_delete edits small key proper
  · exact editsLines_edit edits small key proper
  · exact editsLines_move edits key moves proper

end Turn

/-! ## Runs of the editor -/

/-- `run_menu` is called for the lines of an entry: a key has ended the countdown before. -/
def runEditor (menu : MenuState) (memory : MenuMemory) (menuEntries heap : Nat)
    (numEntries : Int) (callers : List CallBytes) : MenuSession :=
  { menu := restart { menu with
      call := { firstEntry := 0, entryno := 0, numEntries, configEntries := false,
                curEntry := false } }
    memory
    call := { menuEntries, configEntries := none, heap, curEntry := none }
    callers }

/-- The states of the editor after keys that met the condition, each with the list that
they should have made. -/
inductive EditorRun (setup : MenuSetup) (size : Nat) (start : MenuSession)
    (lines : List (List UInt8)) : List (List UInt8) → MenuSession → Prop where
  | start : EditorRun setup size start lines lines start
  | turn {edited : List (List UInt8)} {session next : MenuSession} {c : UInt8} {input : KeyInput}
      (before : EditorRun setup size start lines edited session) (key : input.key = some c)
      (editing : EditingKey c) (proper : Proper setup size edited c input.prompt session)
      (turn : sessionTurn setup size session (.key input) = some next) :
      EditorRun setup size start lines
        (editedLines setup c input.prompt session.menu edited) next

/-- The list in memory is this one, with an extra NUL just below the heap, and the selection
is in it. -/
structure KeepsList (lines : List (List UInt8)) (session : MenuSession) : Prop where
  list : Stored session.memory session.call.menuEntries (encodeGroup lines)
  heap : session.call.heap = session.call.menuEntries + (encodeGroup lines).length
  terminated : session.memory (session.call.heap - 1) = 0
  numEntries : session.menu.call.numEntries = lines.length
  selected : 0 ≤ session.menu.call.selected ∧
    session.menu.call.selected < max 1 session.menu.call.numEntries

section Runs

variable {setup : MenuSetup} {size : Nat} {lines edited : List (List UInt8)}
  {start session : MenuSession}

/-- The heap ends in a NUL. -/
theorem ListsLines.terminated (lists : ListsLines size lines session) :
    session.memory (session.call.heap - 1) = 0 := by
  have behind := lists.stored.right 0 Nat.zero_lt_one
  have heap := lists.heap
  rw [encodeGroup, List.length_append] at heap
  change session.memory (session.call.menuEntries + (encodeStrings lines).length + 0) = 0 at behind
  rw [← behind, heap]
  rfl

/-- Pointers and bytes of the session are those of the list. -/
theorem EditsLines.keepsList (edits : EditsLines size lines session) : KeepsList lines session where
  list := edits.lists.stored
  heap := edits.lists.heap
  terminated := edits.lists.terminated
  numEntries := edits.count
  selected := ⟨Int.add_nonneg edits.inList.first edits.inList.entry, edits.inList.last⟩

/-- A run of the editor keeps the list and makes of it what the keys say, one key after the
other. -/
theorem editsLines_run (small : size < 2 ^ 32) (edits : EditsLines size lines start)
    (run : EditorRun setup size start lines edited session) : EditsLines size edited session := by
  induction run with
  | start => exact edits
  | turn _ key editing proper turn inductionHypothesis =>
      obtain ⟨next, turned, edited⟩ :=
        editsLines_turn inductionHypothesis small key editing proper
      obtain rfl := Option.some.inj (turn.symm.trans turned)
      exact edited

/-- The editor starts with the first line selected. -/
theorem editsLines_start {menu : MenuState} {memory : MenuMemory} {menuEntries : Nat}
    {callers : List CallBytes} (quiet : menu.grubTimeout < 0)
    (free : ∀ line ∈ lines, NulFree line)
    (stored : Stored memory menuEntries (encodeGroup lines))
    (fits : menuEntries + (encodeGroup lines).length ≤ size) :
    EditsLines size lines (runEditor menu memory menuEntries
      (menuEntries + (encodeGroup lines).length) lines.length callers) := by
  have inList : InList ⟨0, 0, lines.length, false, false⟩ :=
    ⟨Int.le_refl 0, Int.le_refl 0, by dsimp only [MenuCall.selected]; omega⟩
  refine
    { keys := ?_
      quiet := quiet
      editing := restart_configEntries _
      null := rfl
      count := restart_numEntries _
      inList := ?_
      lists := ⟨free, stored, rfl, fits⟩ }
  · change (if (decide (menu.grubTimeout < 0) || menu.showMenu) = true then MenuLoop.keys
      else .hidden) = .keys
    rw [decide_eq_true quiet, Bool.true_or, if_pos rfl]
  · change InList (if menu.dumb then _ else scrollPage _)
    split
    · exact inList
    · exact inList.scrollPage

end Runs

/-- While an entry is edited, and each key has room and lines to act on, the list in memory is
the list that the keys make, and the next such key is taken. -/
theorem runEditor_keepsList {setup : MenuSetup} {size : Nat} {lines edited : List (List UInt8)}
    {menu : MenuState} {memory : MenuMemory} {menuEntries : Nat} {callers : List CallBytes}
    {session : MenuSession} (small : size < 2 ^ 32) (quiet : menu.grubTimeout < 0)
    (free : ∀ line ∈ lines, NulFree line)
    (stored : Stored memory menuEntries (encodeGroup lines))
    (fits : menuEntries + (encodeGroup lines).length ≤ size)
    (run : EditorRun setup size
      (runEditor menu memory menuEntries (menuEntries + (encodeGroup lines).length) lines.length
        callers) lines edited session) :
    KeepsList edited session ∧
      ∀ c input, input.key = some c → EditingKey c → Proper setup size edited c input.prompt session →
        ∃ next, sessionTurn setup size session (.key input) = some next := by
  have edits := editsLines_run small (editsLines_start quiet free stored fits) run
  refine ⟨edits.keepsList, fun c input key editing proper => ?_⟩
  obtain ⟨next, turn, _⟩ := editsLines_turn edits small key editing proper
  exact ⟨next, turn⟩

/-- A script of one line, in the editor. -/
def oneLine : MenuSession :=
  runEditor (plainMenu false) (Base.areaOf (encodeGroup [ascii "boot"])) 0
    (0 + (encodeGroup [ascii "boot"]).length) ([ascii "boot"].length : Nat) []

/-- Opening a line in front of it. -/
theorem runEditor_keepsList_open :
    ∃ session, sessionTurn ⟨false, false⟩ 40 oneLine (pressedKey (charOf 'O')) = some session ∧
      KeepsList [blankLine, ascii "boot"] session := by
  have turns : (sessionTurn ⟨false, false⟩ 40 oneLine (pressedKey (charOf 'O'))).isSome = true := by
    decide +kernel
  obtain ⟨session, turn⟩ := Option.isSome_iff_exists.mp turns
  have proper : Proper ⟨false, false⟩ 40 [ascii "boot"] (charOf 'O') (.entered (ascii "quiet"))
      oneLine :=
    ⟨nofun, nofun, fun _ => by decide, nofun, nofun⟩
  have run : EditorRun ⟨false, false⟩ 40 oneLine [ascii "boot"] [blankLine, ascii "boot"] session :=
    .turn .start rfl (.inl (.inr (.inl rfl))) proper turn
  have free : ∀ line ∈ [ascii "boot"], NulFree line := by
    intro line member
    rw [List.mem_singleton.mp member]
    exact nulFree_of_all (by decide)
  exact ⟨session, turn, (runEditor_keepsList (by decide) (by decide) free
    (fun i _ => congrArg _ (Nat.zero_add i)) (by decide) run).1⟩

/-- Removing the only line leaves the selection in front of the list. -/
theorem runEditor_loses_selection :
    ¬ ∀ session, sessionTurn ⟨false, false⟩ 40 oneLine (pressedKey (charOf 'd')) = some session →
      KeepsList [] session := by
  intro keeps
  have turns : (sessionTurn ⟨false, false⟩ 40 oneLine (pressedKey (charOf 'd'))).map
      (fun session => session.menu.call.selected) = some (-1) := by
    decide +kernel
  obtain ⟨session, turn, selected⟩ := Option.map_eq_some_iff.mp turns
  have inside := (keeps session turn).selected.1
  rw [selected] at inside
  exact absurd inside (by decide)

end GrubLegacy.Menu
