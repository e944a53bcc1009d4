import GrubLegacy.Menu.KeyMaps

/-!
# The entries of a key table

A table stands for a list of entries with one entry at most for a key. The command changes
the list as one changes a list of entries with keys, unless the table is full.
-/

namespace GrubLegacy.Menu

open Base Stage2

/-! ## Words -/

section Words

variable {toCode fromCode toCode' fromCode' : UInt8}

/-- The word of an entry has the one code above the other. -/
theorem keyWord_eq (toCode fromCode : UInt8) :
    keyWord toCode fromCode = toCode.toNat * 2 ^ 8 + fromCode.toNat := by
  rw [keyWord, ← Nat.shiftLeft_add_eq_or_of_lt fromCode.toNat_lt, Nat.shiftLeft_eq]

/-- The mask of a byte is a remainder. -/
theorem and_ff (word : Nat) : word &&& 0xFF = word % 2 ^ 8 := Nat.and_two_pow_sub_one_eq_mod word 8

/-- The lower byte of the word is the code it maps from. -/
theorem keyWord_and : keyWord toCode fromCode &&& 0xFF = fromCode.toNat := by
  have small := fromCode.toNat_lt
  rw [and_ff, keyWord_eq]
  omega

/-- Two entries have one word only if they are the same. -/
theorem keyWord_inj : keyWord toCode fromCode = keyWord toCode' fromCode' ↔
    toCode = toCode' ∧ fromCode = fromCode' := by
  have small := fromCode.toNat_lt
  have small' := fromCode'.toNat_lt
  rw [keyWord_eq, keyWord_eq, ← UInt8.toNat_inj, ← UInt8.toNat_inj]
  omega

/-- The word of an entry is not zero. -/
theorem keyWord_ne_zero (some_ : fromCode ≠ 0) : keyWord toCode fromCode ≠ 0 := by
  have positive : fromCode.toNat ≠ 0 := by
    intro none
    exact some_ (UInt8.toNat_inj.mp none)
  rw [keyWord_eq]
  omega

end Words

/-! ## Entries -/

/-- The code of a key and that of its target. -/
abbrev KeyEntry := UInt8 × UInt8

def KeyEntry.word (entry : KeyEntry) : Nat := keyWord entry.2 entry.1

/-- The words of some entries. -/
def entryWords (entries : List KeyEntry) : List Nat := entries.map KeyEntry.word

/-- A table stands for a list of entries. -/
structure Represents (map : List Nat) (entries : List KeyEntry) : Prop where
  words : map = entryWords entries ++ List.replicate (keyMapSize + 1 - entries.length) 0
  short : entries.length ≤ keyMapSize
  codes : ∀ entry ∈ entries, entry.1 ≠ 0
  differ : ∀ entry ∈ entries, entry.2 ≠ entry.1
  unique : UniqueKeys entries

section Entries

variable {map : List Nat} {entries : List KeyEntry} {toCode fromCode : UInt8}

/-- There is a word for each entry. -/
@[simp] theorem length_entryWords : (entryWords entries).length = entries.length :=
  List.length_map _

/-- A map has one word more than entries. -/
theorem Represents.length (represents : Represents map entries) : map.length = keyMapSize + 1 := by
  have short := represents.short
  rw [represents.words, List.length_append, length_entryWords, List.length_replicate]
  omega

/-- The test of the loop finds the key of an entry. -/
theorem stopsAt_word {entry : KeyEntry} (some_ : entry.1 ≠ 0) :
    (entry.word &&& 0xFF = fromCode.toNat || entry.word = 0 : Bool) =
      decide (entry.1 = fromCode) := by
  rw [KeyEntry.word, keyWord_and]
  simp [keyWord_ne_zero some_, UInt8.toNat_inj]

/-- The search of the code finds the slot of the entry. -/
theorem findIdx_words (codes : ∀ entry ∈ entries, entry.1 ≠ 0) (zeros : Nat) :
    (entryWords entries ++ List.replicate zeros 0).findIdx
      (fun word => word &&& 0xFF = fromCode.toNat || word = 0) = slotOf entries fromCode := by
  induction entries with
  | nil =>
      cases zeros with
      | zero => rfl
      | succ zeros => simp [entryWords, slotOf, List.replicate_succ, List.findIdx_cons]
  | cons entry rest ih =>
      obtain ⟨some_, others⟩ := List.forall_mem_cons.mp codes
      rw [entryWords, List.map_cons, List.cons_append, List.findIdx_cons, stopsAt_word some_]
      have later := ih others
      rw [entryWords] at later
      rw [later]
      by_cases same : entry.1 = fromCode
      · obtain ⟨_, value⟩ := entry
        obtain rfl : _ = fromCode := same
        simp
      · simp [slotOf_cons_ne same, same]

/-- The loop stops at the entry of the key, or behind the last entry. -/
theorem findSlot_eq (represents : Represents map entries) :
    findSlot map fromCode = slotOf entries fromCode := by
  have short := represents.short
  have front : map.take keyMapSize =
      entryWords entries ++ List.replicate (keyMapSize - entries.length) 0 := by
    rw [represents.words, List.take_append, length_entryWords, List.take_of_length_le (by simpa),
      List.take_replicate]
    congr 2
    omega
  rw [findSlot, front, findIdx_words represents.codes]

/-- With the zero at its end the table loses a word and gets a zero. -/
theorem moveBack_eq (represents : Represents map entries) {i : Nat} (inside : i ≤ keyMapSize) :
    moveBack map i = map.eraseIdx i ++ [0] := by
  have length := represents.length
  have short := represents.short
  have last : map.drop keyMapSize = [0] := by
    rw [represents.words, List.drop_append, length_entryWords, List.drop_of_length_le (by simpa),
      List.drop_replicate, List.nil_append]
    rw [show keyMapSize + 1 - entries.length - (keyMapSize - entries.length) = 1 by omega]
    rfl
  have kept : (map.drop (i + 1)).take (keyMapSize - i) = map.drop (i + 1) := by
    apply List.take_of_length_le
    rw [List.length_drop]
    omega
  rw [moveBack, last, kept, List.eraseIdx_eq_take_drop_succ]

/-- A deletion takes the entry of the key away. -/
theorem represents_moveBack (represents : Represents map entries) :
    Represents (moveBack map (slotOf entries fromCode)) (removeKey entries fromCode) where
  words := by
    have short := represents.short
    have bound := slotOf_le entries fromCode
    rw [moveBack_eq represents (by omega), represents.words, removeKey]
    by_cases there : slotOf entries fromCode < entries.length
    · rw [List.eraseIdx_append_of_lt_length (by simpa), List.append_assoc, entryWords, entryWords,
        List.eraseIdx_map, ← List.replicate_succ', List.length_eraseIdx_of_lt there]
      congr 2
      omega
    · have behind : slotOf entries fromCode = entries.length := by omega
      rw [behind, List.eraseIdx_of_length_le le_rfl,
        List.eraseIdx_append_of_length_le (by simp), length_entryWords, Nat.sub_self,
        List.append_assoc, show keyMapSize + 1 - entries.length =
          keyMapSize - entries.length + 1 by omega, List.replicate_succ, List.eraseIdx_cons_zero,
        ← List.replicate_succ', List.replicate_succ]
  short := (List.length_eraseIdx_le entries _).trans represents.short
  codes entry member := represents.codes entry ((mem_removeKey represents.unique).mp member).1
  differ entry member := represents.differ entry ((mem_removeKey represents.unique).mp member).1
  unique := represents.unique.removeKey

/-- And where the table is not full, the key gets its new entry. -/
theorem represents_set (represents : Represents map entries)
    (room : slotOf entries fromCode ≠ keyMapSize) (some_ : fromCode ≠ 0)
    (other : toCode ≠ fromCode) :
    Represents (map.set (slotOf entries fromCode) (keyWord toCode fromCode))
      (putKey entries fromCode toCode) where
  words := by
    have short := represents.short
    have bound := slotOf_le entries fromCode
    rw [represents.words, length_putKey, putKey]
    by_cases there : slotOf entries fromCode < entries.length
    · rw [if_pos there, if_pos there, List.set_append_left _ _ (by simpa), entryWords, entryWords,
        List.map_set]
      rfl
    · have behind : slotOf entries fromCode = entries.length := by omega
      rw [if_neg there, if_neg there, List.set_append_right _ _ (by simp [behind]),
        length_entryWords, behind, Nat.sub_self, entryWords, entryWords, List.map_append,
        List.append_assoc, show keyMapSize + 1 - entries.length =
          keyMapSize + 1 - (entries.length + 1) + 1 by omega, List.replicate_succ,
        List.set_cons_zero]
      rfl
  short := by
    have short := represents.short
    have bound := slotOf_le entries fromCode
    rw [length_putKey]
    split
    · exact short
    · omega
  codes entry member := by
    rcases (mem_putKey represents.unique).mp member with rfl | ⟨member, _⟩
    · exact some_
    · exact represents.codes entry member
  differ entry member := by
    rcases (mem_putKey represents.unique).mp member with rfl | ⟨member, _⟩
    · exact other
    · exact represents.differ entry member
  unique := represents.unique.putKey

/-- The empty map represents no entries. -/
theorem represents_empty : Represents emptyKeyMap [] where
  words := rfl
  short := Nat.zero_le _
  codes := by simp
  differ := by simp
  unique := List.nodup_nil

/-- The entries after a command. -/
def changeEntries (entries : List KeyEntry) (toCode fromCode : UInt8) : List KeyEntry :=
  if toCode = fromCode then removeKey entries fromCode else putKey entries fromCode toCode

/-- The entries behind a change: the new one, and the old ones from other codes. -/
theorem mem_changeEntries (unique : UniqueKeys entries) (entry : KeyEntry) :
    entry ∈ changeEntries entries toCode fromCode ↔
      (entry = (fromCode, toCode) ∧ toCode ≠ fromCode) ∨
        (entry ∈ entries ∧ entry.1 ≠ fromCode) := by
  rw [changeEntries]
  split
  · next same =>
      rw [mem_removeKey unique]
      simp [same]
  · next other =>
      rw [mem_putKey unique]
      simp [other]

/-- A command on a table puts an entry or takes one away, or there is no room. -/
theorem represents_remap (represents : Represents map entries) (some_ : fromCode ≠ 0)
    {map' : List Nat} (done : remap map toCode fromCode = some map') :
    Represents map' (changeEntries entries toCode fromCode) := by
  rw [remap, findSlot_eq represents] at done
  rw [changeEntries]
  split at done
  · cases done
  · next room =>
      by_cases same : toCode = fromCode
      · rw [if_pos same] at done ⊢
        obtain rfl := Option.some.inj done
        exact represents_moveBack represents
      · rw [if_neg same] at done ⊢
        obtain rfl := Option.some.inj done
        exact represents_set represents room some_ same

/-- The words of the entries are those that are not zero. -/
theorem mem_of_represents (represents : Represents map entries) (some_ : fromCode ≠ 0) :
    keyWord toCode fromCode ∈ map ↔ (fromCode, toCode) ∈ entries := by
  rw [represents.words, List.mem_append, List.mem_replicate]
  constructor
  · rintro (member | ⟨_, zero⟩)
    · obtain ⟨⟨_, _⟩, isEntry, same⟩ := List.mem_map.mp member
      obtain ⟨rfl, rfl⟩ := keyWord_inj.mp same
      exact isEntry
    · exact absurd zero (keyWord_ne_zero some_)
  · exact fun member => .inl (List.mem_map.mpr ⟨_, member, rfl⟩)

/-- A table that stands for the right entries is right. -/
theorem mapsKeys_of_represents (represents : Represents map entries)
    {target : UInt8 → Option UInt8} (right : ∀ fromCode toCode, (fromCode, toCode) ∈ entries ↔
      target fromCode = some toCode ∧ toCode ≠ fromCode) : MapsKeys map target where
  size := represents.length
  filled := by
    refine ⟨entries.length, represents.short, ?_, ?_⟩
    · rw [represents.words, List.take_append_of_le_length (by simp),
        List.take_of_length_le (by simp)]
      intro word member
      obtain ⟨entry, isEntry, rfl⟩ := List.mem_map.mp member
      exact keyWord_ne_zero (represents.codes entry isEntry)
    · rw [represents.words, List.drop_append, List.drop_of_length_le (by simp), List.nil_append]
      intro word member
      exact (List.mem_replicate.mp (List.mem_of_mem_drop member)).2
  once := by
    have entryAt : ∀ (i word : Nat), map[i]? = some word → word &&& 0xFF ≠ 0 →
        ∃ entry, entries[i]? = some entry ∧ word &&& 0xFF = entry.1.toNat := by
      intro i word isWord low
      rw [represents.words] at isWord
      by_cases inside : i < entries.length
      · rw [List.getElem?_append_left (by simpa), entryWords, List.getElem?_map] at isWord
        obtain ⟨entry, isEntry, rfl⟩ := Option.map_eq_some_iff.mp isWord
        exact ⟨entry, isEntry, keyWord_and⟩
      · rw [List.getElem?_append_right (by simpa using inside)] at isWord
        have zero := (List.mem_replicate.mp (List.mem_of_getElem? isWord)).2
        subst zero
        exact absurd rfl low
    intro i j word other isWord isOther some_ same
    have low : word &&& 0xFF ≠ 0 := by
      have member := List.mem_of_getElem? isWord
      rw [represents.words, List.mem_append, List.mem_replicate] at member
      rcases member with isEntry | ⟨_, zero⟩
      · obtain ⟨entry, among, rfl⟩ := List.mem_map.mp isEntry
        have code := represents.codes entry among
        rw [KeyEntry.word, keyWord_and]
        intro none
        exact code (UInt8.toNat_inj.mp none)
      · exact absurd zero some_
    obtain ⟨first, isFirst, lowFirst⟩ := entryAt i word isWord low
    obtain ⟨second, isSecond, lowSecond⟩ := entryAt j other isOther (same ▸ low)
    have keys : first.1 = second.1 := UInt8.toNat_inj.mp (by rw [← lowFirst, same, lowSecond])
    have unique := represents.unique
    obtain ⟨insideFirst, atFirst⟩ := List.getElem?_eq_some_iff.mp isFirst
    obtain ⟨insideSecond, atSecond⟩ := List.getElem?_eq_some_iff.mp isSecond
    have inFirst : i < (entries.map (·.1)).length := by simpa using insideFirst
    have inSecond : j < (entries.map (·.1)).length := by simpa using insideSecond
    apply (@List.Nodup.getElem_inj_iff _ _ unique i inFirst j inSecond).mp
    simp [atFirst, atSecond, keys]
  maps fromCode toCode := by
    rw [MapsKey]
    by_cases some_ : fromCode = 0
    · subst some_
      refine iff_of_false (fun maps => maps.1 rfl) ?_
      rw [← right]
      intro member
      exact represents.codes _ member rfl
    · rw [mem_of_represents represents some_, right]
      simp [some_]

end Entries

/-! ## Runs -/

section Runs

variable {maps : KeyMaps} {arg : List UInt8} {table : KeyTable} {map : List Nat}

/-- The code of a key is not zero. -/
theorem keyCodes_ne_zero {toKey fromKey : List UInt8} {toCode fromCode : UInt8}
    (codes : keyCodes toKey fromKey = some (table, toCode, fromCode)) : fromCode ≠ 0 := by
  rw [keyCodes] at codes
  split at codes
  · split at codes
    · cases codes
    · next both =>
        obtain ⟨_, _, rfl⟩ := Option.some.inj codes
        exact (not_or.mp both).2
  · next both =>
      obtain ⟨_, _, rfl⟩ := Option.some.inj codes
      exact (not_or.mp both).2

/-- The map that is set is read back, -/
@[simp] theorem table_setTable_self : (maps.setTable table map).table table = map := by
  cases table <;> rfl

/-- and the other one is as it was. -/
theorem table_setTable_other {other : KeyTable} (differ : table ≠ other) :
    (maps.setTable table map).table other = maps.table other := by
  cases table <;> cases other <;> first | rfl | exact absurd rfl differ

/-- What a command does: it empties the tables, changes one of them, or fails. -/
theorem setkeyFunc_cases (arg : List UInt8) (maps : KeyMaps) :
    (arg = [] ∧ setkeyFunc arg maps = ⟨emptyKeyMaps, .none⟩) ∨
    (arg ≠ [] ∧ ∃ table toCode fromCode map, remapped arg = some (table, toCode, fromCode) ∧
      fromCode ≠ 0 ∧ remap (maps.table table) toCode fromCode = some map ∧
        setkeyFunc arg maps = ⟨maps.setTable table map, .none⟩) ∨
    (arg ≠ [] ∧ ∃ errnum, errnum ≠ .none ∧ setkeyFunc arg maps = ⟨maps, errnum⟩) := by
  by_cases none : arg = []
  · exact .inl ⟨none, by rw [setkeyFunc, if_pos none]⟩
  · right
    rw [setkeyFunc, if_neg none]
    split
    · exact .inr ⟨none, .badArgument, by simp, rfl⟩
    · cases codes : keyCodes (nulTerminate arg) (nulTerminate (skipTo false arg)) with
      | none => exact .inr ⟨none, .badArgument, by simp, rfl⟩
      | some triple =>
          obtain ⟨table, toCode, fromCode⟩ := triple
          dsimp only
          cases done : remap (maps.table table) toCode fromCode with
          | none => exact .inr ⟨none, .wontFit, by simp, rfl⟩
          | some map =>
              refine .inl ⟨none, table, toCode, fromCode, map, ?_, keyCodes_ne_zero codes, done, rfl⟩
              rw [remapped, if_neg none, codes]

/-- After any commands a table stands for the keys that the last successful ones mapped. -/
theorem exists_represents (table : KeyTable) (commands : List (List UInt8)) :
    ∃ entries, Represents ((runSetkey commands).table table) entries ∧
      ∀ fromCode toCode, (fromCode, toCode) ∈ entries ↔
        lastTarget table fromCode commands = some toCode ∧ toCode ≠ fromCode := by
  induction commands with
  | nil =>
      refine ⟨[], ?_, by simp [lastTarget]⟩
      cases table <;> exact represents_empty
  | cons arg earlier ih =>
      obtain ⟨entries, represents, right⟩ := ih
      rcases setkeyFunc_cases arg (runSetkey earlier) with
        ⟨rfl, done⟩ | ⟨some_, used, toCode, fromCode, map, codes, code, changed, done⟩ |
        ⟨some_, errnum, failed, done⟩
      · -- a reset
        refine ⟨[], ?_, ?_⟩
        · rw [runSetkey, done]
          cases table <;> exact represents_empty
        · intro fromCode toCode
          simp [lastTarget, done]
      · by_cases here : used = table
        · subst here
          refine ⟨changeEntries entries toCode fromCode, ?_, ?_⟩
          · rw [runSetkey, done, table_setTable_self]
            exact represents_remap represents code changed
          · intro fromCode' toCode'
            rw [lastTarget, done, if_neg (not_not_intro rfl), if_neg some_, codes,
              mem_changeEntries represents.unique, right]
            dsimp only
            by_cases key : fromCode = fromCode'
            · subst key
              rw [if_pos ⟨rfl, rfl⟩, Option.some.injEq, Prod.mk.injEq]
              grind
            · simp [key, Ne.symm key]
        · refine ⟨entries, ?_, ?_⟩
          · rw [runSetkey, done, table_setTable_other here]
            exact represents
          · intro fromCode' toCode'
            rw [lastTarget, done, if_neg (not_not_intro rfl), if_neg some_, codes]
            dsimp only
            rw [if_neg (fun both => here both.1), right]
      · refine ⟨entries, ?_, ?_⟩
        · rw [runSetkey, done]
          exact represents
        · intro fromCode toCode
          rw [lastTarget, done, if_pos failed, right]

/-- After any commands both tables are right for the commands that used them, and a command
that fails leaves them. -/
theorem mapsKeys_runSetkey (commands : List (List UInt8)) :
    (∀ table, MapsKeys ((runSetkey commands).table table)
      fun fromCode => lastTarget table fromCode commands) ∧
    ∀ arg, (setkeyFunc arg (runSetkey commands)).errnum ≠ .none →
      (setkeyFunc arg (runSetkey commands)).maps = runSetkey commands := by
  refine ⟨?_, ?_⟩
  · intro table
    obtain ⟨entries, represents, right⟩ := exists_represents table commands
    exact mapsKeys_of_represents represents right
  · intro arg fails
    rcases setkeyFunc_cases arg (runSetkey commands) with
      ⟨_, done⟩ | ⟨_, _, _, _, _, _, _, _, done⟩ | ⟨_, _, _, done⟩
    · rw [done] at fails
      exact absurd rfl fails
    · rw [done] at fails
      exact absurd rfl fails
    · rw [done]

/-- The target that the last successful command for the name of a key gave it, since the last
reset. -/
def lastNamed (key : List UInt8) : List (List UInt8) → Option (List UInt8)
  | [] => none
  | arg :: earlier =>
    if (setkeyFunc arg (runSetkey earlier)).errnum ≠ .none then lastNamed key earlier
    else if arg = [] then none
    else if nulTerminate (skipTo false arg) = key then some (nulTerminate arg)
    else lastNamed key earlier

/-- A key that was mapped to a function key and then to itself is still mapped. -/
theorem functionKey_stays :
    ¬ ∀ (commands : List (List UInt8)) (key toKey : List UInt8),
      MapsKey (runSetkey commands).bios (findKeyCode key) (findKeyCode toKey) →
        ∃ target, lastNamed key commands = some target ∧ target ≠ key := by
  intro maps
  obtain ⟨target, last, other⟩ := maps [CStrings.ascii "b b", CStrings.ascii "F1 b"]
    (CStrings.ascii "b") (CStrings.ascii "F1") ⟨by decide +kernel, by decide +kernel⟩
  have isLast : lastNamed (CStrings.ascii "b") [CStrings.ascii "b b", CStrings.ascii "F1 b"] =
      some (CStrings.ascii "b") := by
    decide +kernel
  rw [isLast] at last
  exact other (Option.some.inj last).symm

end Runs

end GrubLegacy.Menu
