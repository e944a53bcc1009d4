import GrubLegacy.Console.AbstractEditor

/-!
# The line editor refines the abstract one

`Shows` connects the buffers of `real_get_cmdline` with a text, a cursor, a kill text and
a list of lines. Each clean key keeps it, and so does a run of clean keys.
-/

namespace GrubLegacy.Console

open Base

section Text

variable {text : List UInt8}

/-- A text with another one put in at a position. -/
theorem areaOf_insert (typed : List UInt8) {cursor : Nat} (inside : cursor ≤ text.length)
    (i : Nat) :
    areaOf (text.take cursor ++ typed ++ text.drop cursor) i =
      if i < cursor then areaOf text i
      else if i < cursor + typed.length then areaOf typed (i - cursor)
      else areaOf text (i - typed.length) := by
  have front : (text.take cursor).length = cursor := List.length_take_of_le inside
  rw [areaOf_append, areaOf_append, List.length_append, front, areaOf_take, areaOf_drop]
  by_cases before : i < cursor
  · rw [if_pos (by omega), if_pos before, if_pos before, if_pos before]
  · rw [if_neg before, if_neg before]
    split
    · rfl
    · apply congrArg (areaOf text)
      omega

/-- A text without some characters from a position on. -/
theorem areaOf_delete (count : Nat) {cursor : Nat} (inside : cursor ≤ text.length) (i : Nat) :
    areaOf (text.take cursor ++ text.drop (cursor + count)) i =
      if i < cursor then areaOf text i else areaOf text (i + count) := by
  have front : (text.take cursor).length = cursor := List.length_take_of_le inside
  rw [areaOf_append, front, areaOf_take, areaOf_drop]
  split
  · rfl
  · apply congrArg (areaOf text)
    omega

end Text

/-- The buffers show the line. -/
structure Shows (start : Workspace) (maxlen : Nat) (line : Line) (editor : Editor) : Prop where
  edits : Edits start (maxCmdline - 1) line
  text : Holds line.scratch 0 editor.text
  llen : line.llen = editor.text.length
  lpos : line.lpos = editor.cursor
  short : editor.text.length < maxlen
  kill : Holds line.scratch killBuf editor.kill
  killShort : editor.kill.length < maxCmdline
  history : historyLines line.toWorkspace = editor.history
  browsed : line.history = editor.browsed
  saved : Holds line.cmdline.bytes 0 editor.saved
  savedShort : editor.saved.length < maxlen

section Showing

variable {start : Workspace} {maxlen : Nat} {line : Line} {editor : Editor}

/-- The cursor is in the text or behind it. -/
theorem Shows.cursor_le (shows : Shows start maxlen line editor) :
    editor.cursor ≤ editor.text.length := by
  have place := shows.edits.place
  have llen := shows.llen
  have lpos := shows.lpos
  omega

/-- Only the text and the cursor change. -/
theorem Shows.change (shows : Shows start maxlen line editor) (bounded : maxlen ≤ maxCmdline)
    {scratch : Area} {llen lpos : Nat} {text : List UInt8} (holds : Holds scratch 0 text)
    (length : llen = text.length) (place : lpos ≤ text.length) (short : text.length < maxlen)
    (same : ∀ position, killBuf ≤ position → scratch position = line.scratch position) :
    Shows start maxlen { line with scratch := scratch, llen := llen, lpos := lpos }
      { editor with text := text, cursor := lpos } := by
  have history : historyBuf = killBuf + maxCmdline := rfl
  have above (position : Nat) (high : historyBuf ≤ position) :
      scratch position = line.scratch position :=
    same position (by omega)
  subst length
  exact {
    edits := by
      apply shows.edits.edit place (by omega)
      · have nul := holds.nul
        rwa [Nat.zero_add] at nul
      · exact above
    text := holds
    llen := rfl
    lpos := rfl
    short := short
    kill := shows.kill.congr fun i _ => same _ (Nat.le_add_right _ _)
    killShort := shows.killShort
    history := (historyLines_edited shows.edits.histories above).trans shows.history
    browsed := shows.browsed
    saved := shows.saved
    savedShort := shows.savedShort }

/-- The cursor moves. -/
theorem Shows.move (shows : Shows start maxlen line editor) (bounded : maxlen ≤ maxCmdline)
    {lpos : Nat} (place : lpos ≤ editor.text.length) :
    Shows start maxlen { line with lpos := lpos } (editor.move lpos) :=
  shows.change bounded shows.text shows.llen place shows.short fun _ _ => rfl

/-- What an insertion leaves at the positions of the longer line. -/
theorem clInsert_scratch {source : Area} {place : Nat} (cursor : line.lpos ≤ line.llen)
    (ended : line.scratch line.llen = 0) (nul : source (place + strlen source place) = 0)
    {i : Nat} (inside : i ≤ line.llen + strlen source place) :
    (if line.lpos = line.llen then
        copyIn line.scratch line.lpos source place (strlen source place + 1)
      else
        copyIn
          (copyIn line.scratch (line.lpos + strlen source place) line.scratch line.lpos
            (line.llen - line.lpos + 1))
          line.lpos source place (strlen source place)) i =
      if i < line.lpos then line.scratch i
      else if i < line.lpos + strlen source place then source (place + (i - line.lpos))
      else line.scratch (i - strlen source place) := by
  by_cases last : line.lpos = line.llen
  · rw [if_pos last]
    by_cases before : i < line.lpos
    · rw [if_pos before, copyIn_outside (Or.inl before)]
    · rw [if_neg before, copyIn_inside (by omega) (by omega)]
      by_cases typed : i < line.lpos + strlen source place
      · rw [if_pos typed]
      · have here : i = line.llen + strlen source place := by omega
        rw [if_neg typed, here, Nat.add_sub_cancel, ended, last, Nat.add_sub_cancel_left]
        exact nul
  · rw [if_neg last]
    by_cases before : i < line.lpos
    · rw [if_pos before, copyIn_outside (Or.inl before), copyIn_outside (Or.inl (by omega))]
    · rw [if_neg before]
      by_cases typed : i < line.lpos + strlen source place
      · rw [if_pos typed, copyIn_inside (by omega) typed]
      · rw [if_neg typed, copyIn_outside (Or.inr (by omega)), copyIn_inside (by omega) (by omega)]
        apply congrArg line.scratch
        omega

/-- An insertion stores below the kill buffer. -/
theorem clInsert_above {source : Area} {place : Nat} (cursor : line.lpos ≤ line.llen)
    (fits : line.llen + strlen source place < killBuf) {position : Nat}
    (above : killBuf ≤ position) :
    (if line.lpos = line.llen then
        copyIn line.scratch line.lpos source place (strlen source place + 1)
      else
        copyIn
          (copyIn line.scratch (line.lpos + strlen source place) line.scratch line.lpos
            (line.llen - line.lpos + 1))
          line.lpos source place (strlen source place)) position = line.scratch position := by
  split
  · exact copyIn_outside (Or.inr (by omega))
  · rw [copyIn_outside (Or.inr (by omega)), copyIn_outside (Or.inr (by omega))]

/-- An insertion does the same in both, -/
theorem Shows.insert (shows : Shows start maxlen line editor) (bounded : maxlen ≤ maxCmdline)
    (source : Area) (place : Nat) :
    Shows start maxlen (clInsert maxlen line source place)
      (editor.insert maxlen (stringAt source place)) := by
  have cursor := shows.edits.place
  have inside := shows.cursor_le
  have llen := shows.llen
  have lpos := shows.lpos
  have killStart : killBuf = maxCmdline := rfl
  rw [clInsert, Editor.insert, length_stringAt, ← llen]
  by_cases fits : line.llen + strlen source place < maxlen
  · rw [if_pos fits, if_pos fits]
    have small : strlen source place < addressSpace := by
      rw [addressSpace]
      rw [maxCmdline] at bounded
      omega
    have typed := holds_stringAt small
    have length : (editor.text.take editor.cursor ++ stringAt source place ++
        editor.text.drop editor.cursor).length = line.llen + strlen source place := by
      rw [List.length_append, List.length_append, List.length_take_of_le inside,
        List.length_drop, length_stringAt]
      omega
    rw [← lpos]
    rw [← lpos] at length
    apply shows.change bounded
    · exact {
        bytes := by
          intro i bound
          rw [Nat.zero_add, clInsert_scratch cursor shows.edits.ended (nul_at_strlen small)
            (by omega), lpos, areaOf_insert _ inside, length_stringAt]
          split
          · have byte := shows.text.bytes i (by omega)
            rwa [Nat.zero_add] at byte
          split
          · exact typed.bytes _ (by rw [length_stringAt]; omega)
          · have byte := shows.text.bytes (i - strlen source place) (by omega)
            rwa [Nat.zero_add] at byte
        free := by
          intro c member
          rcases List.mem_append.mp member with member | member
          · rcases List.mem_append.mp member with member | member
            · exact shows.text.free c (List.mem_of_mem_take member)
            · exact typed.free c member
          · exact shows.text.free c (List.mem_of_mem_drop member) }
    · exact length.symm
    · omega
    · omega
    · intro position above
      exact clInsert_above cursor (by omega) above
  · rw [if_neg fits, if_neg fits]
    exact shows

/-- a deletion, -/
theorem Shows.delete (shows : Shows start maxlen line editor) (bounded : maxlen ≤ maxCmdline)
    {count : Nat} (there : editor.cursor + count ≤ editor.text.length)
    (alone : editor.DeletesAlone count) :
    Shows start maxlen (clDelete line count) (editor.delete count) := by
  have inside := shows.cursor_le
  have llen := shows.llen
  have lpos := shows.lpos
  have short := shows.short
  have killStart : killBuf = maxCmdline := rfl
  rw [Editor.DeletesAlone] at alone
  have length : (editor.text.take editor.cursor ++
      editor.text.drop (editor.cursor + count)).length = editor.text.length - count := by
    rw [List.length_append, List.length_take_of_le inside, List.length_drop]
    omega
  rw [clDelete, Editor.delete, ← lpos]
  rw [← lpos] at length
  apply shows.change bounded
  · exact {
      bytes := by
        intro i bound
        rw [Nat.zero_add, lpos, areaOf_delete _ inside]
        split
        next before =>
          rw [copyIn_outside (Or.inl before)]
          have byte := shows.text.bytes i (by omega)
          rwa [Nat.zero_add] at byte
        next after =>
          rw [copyIn_inside (by omega) (by omega)]
          have byte := shows.text.bytes (i + count) (by omega)
          rw [Nat.zero_add] at byte
          rw [← byte]
          apply congrArg line.scratch
          omega
      free := by
        intro c member
        rcases List.mem_append.mp member with member | member
        · exact shows.text.free c (List.mem_of_mem_take member)
        · exact shows.text.free c (List.mem_of_mem_drop member) }
  · omega
  · omega
  · omega
  · intro position above
    exact copyIn_outside (Or.inr (by omega))

/-- A part of the line becomes the kill text. -/
theorem Shows.cut (shows : Shows start maxlen line editor) {scratch : Area}
    {kill : List UInt8} (holds : Holds scratch killBuf kill) (short : kill.length < maxCmdline)
    (same : ∀ position, position < killBuf ∨ historyBuf ≤ position →
      scratch position = line.scratch position) (bounded : maxlen ≤ maxCmdline) :
    Shows start maxlen { line with scratch := scratch } { editor with kill := kill } := by
  have killStart : killBuf = maxCmdline := rfl
  have below := shows.short
  have llen := shows.llen
  exact {
    edits := by
      apply shows.edits.edit shows.edits.place shows.edits.short
      · rw [same _ (Or.inl (by omega))]
        exact shows.edits.ended
      · exact fun position above => same position (Or.inr above)
    text := shows.text.congr fun i inside => same _ (Or.inl (by omega))
    llen := llen
    lpos := shows.lpos
    short := shows.short
    kill := holds
    killShort := short
    history :=
      (historyLines_edited shows.edits.histories fun position above =>
        same position (Or.inr above)).trans shows.history
    browsed := shows.browsed
    saved := shows.saved
    savedShort := shows.savedShort }

/-- a kill to the start -/
theorem Shows.killBackward (shows : Shows start maxlen line editor)
    (bounded : maxlen ≤ maxCmdline) :
    Shows start maxlen (killBackward line) editor.killBackward := by
  have inside := shows.cursor_le
  have short := shows.short
  have lpos := shows.lpos
  have killStart : killBuf = maxCmdline := rfl
  have history : historyBuf = killBuf + maxCmdline := rfl
  rw [Console.killBackward, Editor.killBackward, ← lpos]
  by_cases first : line.lpos = 0
  · rw [if_pos first, if_pos first]
    exact shows
  · rw [if_neg first, if_neg first]
    have front : (editor.text.take line.lpos).length = line.lpos :=
      List.length_take_of_le (by omega)
    have cut := @Shows.cut start maxlen line editor shows
      (setByte (copyIn line.scratch killBuf line.scratch 0 line.lpos) (killBuf + line.lpos) 0)
      (editor.text.take line.lpos) {
        bytes := by
          intro i bound
          rw [front] at bound
          rw [areaOf_take]
          by_cases last : i = line.lpos
          · rw [last, setByte_same, if_neg (by omega)]
          · rw [setByte_other (by omega), copyIn_inside (by omega) (by omega),
              if_pos (by omega), Nat.add_sub_cancel_left]
            exact shows.text.bytes i (by omega)
        free := fun c member => shows.text.free c (List.mem_of_mem_take member) }
      (by omega)
      (fun position outside => by
        rw [setByte_other (by omega), copyIn_outside (by omega)])
      bounded
    have moved := cut.move bounded (Nat.zero_le _)
    have deleted := @Shows.delete _ _ _ _ moved bounded line.lpos (by
      change 0 + line.lpos ≤ editor.text.length
      omega) (by
      change 0 + (editor.text.length - line.lpos) < maxCmdline
      omega)
    dsimp only [clBackward]
    rw [Nat.sub_self]
    simpa [Editor.delete, Editor.move] using deleted

/-- and one to the end. -/
theorem Shows.killForward (shows : Shows start maxlen line editor)
    (bounded : maxlen ≤ maxCmdline)
    (alone : editor.cursor < editor.text.length →
      editor.DeletesAlone (editor.text.length - editor.cursor)) :
    Shows start maxlen (killForward line) editor.killForward := by
  have inside := shows.cursor_le
  have short := shows.short
  have lpos := shows.lpos
  have llen := shows.llen
  have killStart : killBuf = maxCmdline := rfl
  have history : historyBuf = killBuf + maxCmdline := rfl
  rw [Console.killForward, Editor.killForward]
  by_cases last : editor.cursor = editor.text.length
  · rw [if_pos (by omega), if_pos last]
    exact shows
  · rw [if_neg (by omega), if_neg last]
    have back : (editor.text.drop editor.cursor).length =
        editor.text.length - editor.cursor :=
      List.length_drop
    have count : line.llen - line.lpos = editor.text.length - editor.cursor := by omega
    have cut := @Shows.cut start maxlen line editor shows
      (copyIn line.scratch killBuf line.scratch line.lpos (line.llen - line.lpos + 1))
      (editor.text.drop editor.cursor) {
        bytes := by
          intro i bound
          rw [back] at bound
          rw [copyIn_inside (by omega) (by omega), Nat.add_sub_cancel_left, areaOf_drop, lpos]
          have byte := shows.text.bytes (editor.cursor + i) (by omega)
          rwa [Nat.zero_add] at byte
        free := fun c member => shows.text.free c (List.mem_of_mem_drop member) }
      (by omega)
      (fun position outside => copyIn_outside (by omega))
      bounded
    have deleted := @Shows.delete _ _ _ _ cut bounded (line.llen - line.lpos) (by
      dsimp only
      omega) (by
      rw [count]
      exact alone (by omega))
    have all : editor.cursor + (line.llen - line.lpos) = editor.text.length := by
      omega
    rw [Editor.delete] at deleted
    dsimp only at deleted
    rw [all, List.drop_length, List.append_nil] at deleted
    exact deleted

/-- The entries of the history are the lines of the list. -/
theorem Shows.entry (shows : Shows start maxlen line editor) (no : Int) :
    (getHistory line.toWorkspace no).map (stringAt line.scratch) = editor.entry no := by
  rw [Editor.entry]
  by_cases first : no < 0
  · rw [if_pos first, getHistory, if_pos (Or.inl first)]
    rfl
  · obtain ⟨index, rfl⟩ := Int.eq_ofNat_of_zero_le (Int.not_lt.mp first)
    rw [if_neg first, Int.toNat_natCast, ← shows.history]
    exact getHistory_lines line.toWorkspace index

/-- The buffer holds the text. -/
theorem Shows.string (shows : Shows start maxlen line editor) (bounded : maxlen ≤ maxCmdline) :
    stringAt line.scratch 0 = editor.text := by
  have short := shows.short
  apply shows.text.stringAt
  rw [addressSpace]
  rw [maxCmdline] at bounded
  omega

/-- Changes are kept in the history of both. -/
theorem Shows.keepChanges (shows : Shows start maxlen line editor)
    (bounded : maxlen ≤ maxCmdline) :
    Shows start maxlen (keepChanges line) editor.keepChanges := by
  have entry := shows.entry line.history
  have text := shows.string bounded
  have low : maxCmdline - 1 < maxCmdline := by decide
  have kept := shows.edits.keepChanges low
  rw [Console.keepChanges] at kept ⊢
  rw [Editor.keepChanges, ← shows.browsed, ← entry]
  cases found : getHistory line.toWorkspace line.history with
  | none => exact shows
  | some slot =>
      obtain ⟨first, known, -⟩ := getHistory_eq_some found
      rw [found] at kept
      dsimp only [Option.map_some] at kept ⊢
      rw [text] at kept ⊢
      by_cases changed : stringAt line.scratch slot ≠ editor.text
      · rw [if_pos changed] at kept
        rw [if_pos changed, if_pos changed]
        have ends : EndsWithin line.scratch 0 (maxCmdline - 1) := shows.edits.buffer
        have below (position : Nat) (low : position < historyBuf) :
            (addHistory line.toWorkspace line.scratch line.history.toNat).scratch position =
              line.scratch position :=
          addHistory_below low
        have short := shows.short
        have killShort := shows.killShort
        have killStart : killBuf = maxCmdline := rfl
        have history : historyBuf = killBuf + maxCmdline := rfl
        exact {
          edits := kept
          text := shows.text.congr fun i bound => below _ (by omega)
          llen := shows.llen
          lpos := shows.lpos
          short := shows.short
          kill := shows.kill.congr fun i bound => below _ (by omega)
          killShort := shows.killShort
          history := by
            rw [← shows.history, ← text]
            exact historyLines_addHistory shows.edits.histories ends (by omega)
          browsed := rfl
          saved := shows.saved
          savedShort := shows.savedShort }
      · rw [if_neg changed, if_neg changed]
        exact shows

/-- A string that is fetched becomes the text. -/
theorem Shows.recallLine (shows : Shows start maxlen line editor) (bounded : maxlen ≤ maxCmdline)
    {source : Area} {place : Nat} {text : List UInt8} (holds : Holds source place text)
    (short : text.length < maxlen) :
    Shows start maxlen (recallLine line source place) (editor.fetch text) := by
  have small : text.length < addressSpace := by
    rw [addressSpace]
    rw [maxCmdline] at bounded
    omega
  have killStart : killBuf = maxCmdline := rfl
  have length := holds.strlen small
  have copied : Holds (strcpy line.scratch 0 source place) 0 text := by
    apply holds.congr
    intro i bound
    rw [strcpy, copyIn_inside (by omega) (by omega), Nat.zero_add, Nat.sub_zero]
  have read := copied.strlen small
  rw [Console.recallLine, Editor.fetch, read]
  apply shows.change bounded copied rfl (Nat.le_refl _) short
  intro position above
  exact copyIn_outside (Or.inr (by omega))

/-- An entry that is fetched becomes the text. -/
theorem Shows.fetch (shows : Shows start maxlen line editor) (bounded : maxlen ≤ maxCmdline)
    {no : Int} {slot : Nat} (found : getHistory line.toWorkspace no = some slot)
    {fetched : Line} {browsing : Editor} (later : Shows start maxlen fetched browsing)
    (short : (stringAt line.scratch slot).length < maxlen) :
    Shows start maxlen (Console.recallLine fetched line.scratch slot)
      (browsing.fetch (stringAt line.scratch slot)) := by
  obtain ⟨first, known, rfl⟩ := getHistory_eq_some found
  have ends := shows.edits.histories.ends no.toNat (by omega)
  apply later.recallLine bounded _ short
  exact holds_stringAt (Nat.lt_of_le_of_lt ends.strlen_le (by decide))

/-- A line that is saved does not change what is shown. -/
theorem Shows.save (shows : Shows start maxlen line editor) (bounded : maxlen ≤ maxCmdline) :
    Shows start maxlen { line with
        cmdline := line.cmdline.copy 0 line.scratch 0 (strlen line.scratch 0 + 1) }
      { editor with saved := editor.text } := by
  have short := shows.short
  have length := shows.text.strlen (by
    rw [addressSpace]
    rw [maxCmdline] at bounded
    omega)
  exact {
    edits := shows.edits.save (by decide)
    text := shows.text
    llen := shows.llen
    lpos := shows.lpos
    short := short
    kill := shows.kill
    killShort := shows.killShort
    history := shows.history
    browsed := shows.browsed
    saved := by
      apply shows.text.congr
      intro i bound
      dsimp only [Buffer.copy]
      rw [copyIn_inside (by omega) (by omega), Nat.zero_add, Nat.sub_zero]
    savedShort := short }

/-- The line before is shown in both, -/
theorem Shows.previousCommand (shows : Shows start maxlen line editor)
    (bounded : maxlen ≤ maxCmdline)
    (fits : ∀ text, editor.beforePrevious.entry (editor.beforePrevious.browsed + 1) = some text →
      text.length < maxlen) :
    Shows start maxlen (previousCommand line) editor.previousCommand := by
  have kept : Shows start maxlen (if line.history < 0 then
      { line with cmdline := line.cmdline.copy 0 line.scratch 0 (strlen line.scratch 0 + 1) }
    else Console.keepChanges line) editor.beforePrevious := by
    have browsed := shows.browsed
    rw [Editor.beforePrevious]
    by_cases first : line.history < 0
    · rw [if_pos first, if_pos (by omega)]
      exact shows.save bounded
    · rw [if_neg first, if_neg (by omega)]
      exact shows.keepChanges bounded
  rw [Console.previousCommand, Editor.previousCommand]
  revert kept fits
  generalize (if line.history < 0 then
      { line with cmdline := line.cmdline.copy 0 line.scratch 0 (strlen line.scratch 0 + 1) }
    else Console.keepChanges line) = saved
  generalize editor.beforePrevious = before
  intro fits kept
  have entry := kept.entry (saved.history + 1)
  have index := kept.edits.index
  rw [← kept.browsed, ← entry] at fits ⊢
  cases found : getHistory saved.toWorkspace (saved.history + 1) with
  | none => exact kept
  | some slot =>
      obtain ⟨first, known, -⟩ := getHistory_eq_some found
      have moved : Shows start maxlen { saved with history := saved.history + 1 }
          { before with browsed := saved.history + 1 } :=
        { kept with
          edits := { kept.edits with index := ⟨by dsimp only; omega, known⟩ }
          browsed := rfl }
      exact kept.fetch bounded found moved (fits _ (by rw [found]; rfl))

/-- and the line behind. -/
theorem Shows.nextCommand (shows : Shows start maxlen line editor)
    (bounded : maxlen ≤ maxCmdline)
    (fits : 0 ≤ editor.browsed → ∀ text,
      editor.keepChanges.entry (editor.keepChanges.browsed - 1) = some text →
        text.length < maxlen) :
    Shows start maxlen (nextCommand line) editor.nextCommand := by
  rw [Console.nextCommand, Editor.nextCommand, ← shows.browsed]
  rw [← shows.browsed] at fits
  by_cases first : line.history < 0
  · rw [if_pos first, if_pos first]
    exact shows
  · rw [if_neg first, if_neg first]
    have kept := shows.keepChanges bounded
    have same := keepChanges_history line
    have fitting := fits (Int.not_lt.mp first)
    revert kept same fitting
    generalize Console.keepChanges line = saved
    generalize editor.keepChanges = before
    intro kept same fitting
    have entry := kept.entry (saved.history - 1)
    have index := kept.edits.index
    rw [← kept.browsed, ← entry] at fitting
    dsimp only
    rw [← kept.browsed, ← entry]
    have moved : Shows start maxlen { saved with history := saved.history - 1 }
        { before with browsed := saved.history - 1 } :=
      { kept with
        edits := { kept.edits with index := ⟨by dsimp only; omega, by dsimp only; omega⟩ }
        browsed := rfl }
    cases found : getHistory saved.toWorkspace (saved.history - 1) with
    | none => exact moved.recallLine bounded kept.saved kept.savedShort
    | some slot => exact kept.fetch bounded found moved (fitting _ (by rw [found]; rfl))

end Showing

section Completing

variable {start : Workspace} {maxlen : Nat} {line : Line} {editor : Editor}

/-- The working buffer is the text up to its end. -/
theorem Shows.byte (shows : Shows start maxlen line editor) {i : Nat}
    (inside : i ≤ editor.text.length) : areaOf editor.text i = line.scratch i := by
  have byte := shows.text.bytes i inside
  rw [Nat.zero_add] at byte
  exact byte.symm

/-- Where a word starts depends on what is before its end only, -/
theorem wordStart_congr {buf other : Area} {last : Nat}
    (same : ∀ position < last, other position = buf position) :
    wordStart other last = wordStart buf last := by
  induction last with
  | zero => rfl
  | succ last ih =>
      rw [wordStart, wordStart, same last (Nat.lt_succ_self _),
        ih fun position inside => same position (by omega)]

/-- and is not behind it. -/
theorem wordStart_le (buf : Area) (last : Nat) : wordStart buf last ≤ last := by
  induction last with
  | zero => exact Nat.le_refl _
  | succ last ih =>
      rw [wordStart]
      split <;> omega

/-- What is looked for in a line depends on the line alone. -/
theorem afterCommand_congr {buf other : Area} {last : Nat} (ended : buf last = 0)
    (same : ∀ position ≤ last, other position = buf position) :
    afterCommand other = afterCommand buf ∧ afterCommand buf ≤ last := by
  have spaces := @spanLength_congr (· == space) buf other addressSpace 0 last (Nat.zero_le _)
    (by rw [ended]; rfl) (fun position _ => same position)
  have begins := @spanLength_before (· == space) buf addressSpace 0 last (Nat.zero_le _)
    (by rw [ended]; rfl)
  rw [Nat.zero_add] at begins
  have word := @spanLength_congr (fun c => isText c && c != equalSign && c != space) buf other
    addressSpace _ last begins (by rw [ended]; rfl) (fun position _ => same position)
  have ends := @spanLength_before (fun c => isText c && c != equalSign && c != space) buf
    addressSpace _ last begins (by rw [ended]; rfl)
  rw [afterCommand, afterCommand, spaces]
  exact ⟨congrArg _ word, ends⟩

/-- Where an equal sign stands depends on the string only, -/
theorem equalPos_congr {buf other : Area} {last : Nat} (ended : buf last = 0)
    (same : ∀ position ≤ last, other position = buf position) :
    equalPos other = equalPos buf := by
  obtain ⟨command, begins⟩ := afterCommand_congr ended same
  have rest := @spanLength_congr (fun c => isText c && c != space && c != equalSign) buf other
    addressSpace _ last begins (by rw [ended]; rfl) (fun position _ => same position)
  have ends := @spanLength_before (fun c => isText c && c != space && c != equalSign) buf
    addressSpace _ last begins (by rw [ended]; rfl)
  rw [equalPos, equalPos, command, rest, same _ ends]

/-- and there is one there. -/
theorem equalPos_byte {buf : Area} {place : Nat} (found : equalPos buf = some place) :
    buf place = equalSign := by
  rw [equalPos] at found
  split at found
  next sign =>
    obtain rfl := Option.some.inj found
    exact sign
  next => exact absurd found (by simp)

/-- A byte that is put back restores the area. -/
theorem setByte_restore (buf : Area) (place : Nat) (byte : UInt8) :
    setByte (setByte buf place byte) place (buf place) = buf := by
  funext position
  by_cases here : position = place
  · rw [here, setByte_same]
  · rw [setByte_other here, setByte_other here]

/-- It may be put back behind a copy that is further on. -/
theorem copyIn_restore (buf : Area) {place destination : Nat} (byte : UInt8)
    (before : place < destination) (source : Area) (from_ length : Nat) :
    setByte (copyIn (setByte buf place byte) destination source from_ length) place (buf place) =
      copyIn buf destination source from_ length := by
  funext position
  by_cases here : position = place
  · rw [here, setByte_same, copyIn_outside (Or.inl before)]
  · rw [setByte_other here, copyIn, copyIn, setByte_other here]

/-- A copy of what is behind it does not see the byte. -/
theorem copyIn_hidden (buf : Area) {place destination start : Nat} (byte : UInt8)
    (before : place < start) (length : Nat) :
    copyIn (setByte buf place byte) destination (setByte buf place byte) start length =
      copyIn (setByte buf place byte) destination buf start length := by
  funext position
  rw [copyIn, copyIn, setByte_other (by omega)]

/-- A byte before the cursor may be hidden while a text is inserted. -/
theorem clInsert_hidden (maxlen : Nat) (line : Line) (source : Area) (from_ : Nat) {place : Nat}
    (before : place < line.lpos) (byte : UInt8) :
    { clInsert maxlen { line with scratch := setByte line.scratch place byte } source from_ with
        scratch := setByte
          (clInsert maxlen { line with scratch := setByte line.scratch place byte } source
            from_).scratch place (line.scratch place) } =
      clInsert maxlen line source from_ := by
  rw [clInsert, clInsert]
  dsimp only
  split
  · dsimp only
    split
    · rw [copyIn_restore _ _ before]
    · have nested (length : Nat) :
          setByte (copyIn
            (copyIn (setByte line.scratch place byte) (line.lpos + strlen source from_)
              (setByte line.scratch place byte) line.lpos (line.llen - line.lpos + 1))
            line.lpos source from_ length) place (line.scratch place) =
          copyIn (copyIn line.scratch (line.lpos + strlen source from_) line.scratch line.lpos
            (line.llen - line.lpos + 1)) line.lpos source from_ length := by
        rw [copyIn_hidden _ _ before]
        funext position
        by_cases here : position = place
        · rw [here, setByte_same, copyIn_outside (Or.inl before),
            copyIn_outside (Or.inl (by omega))]
        · rw [setByte_other here, copyIn, copyIn, copyIn, copyIn, setByte_other here]
      rw [nested]
  · dsimp only
    rw [setByte_restore]

/-- An empty text is stored over what is there already. -/
theorem clInsert_nothing {maxlen : Nat} {line : Line} {source : Area} {from_ : Nat}
    (ended : line.scratch line.llen = 0)
    (nothing : line.llen + strlen source from_ < maxlen → strlen source from_ = 0) :
    clInsert maxlen line source from_ = line := by
  rw [clInsert]
  by_cases fits : line.llen + strlen source from_ < maxlen
  · have empty := nothing fits
    have nul := @nul_at_strlen source from_ (by rw [empty]; decide)
    rw [if_pos fits]
    rw [empty] at nul ⊢
    have same : (if line.lpos = line.llen then copyIn line.scratch line.lpos source from_ (0 + 1)
        else copyIn (copyIn line.scratch (line.lpos + 0) line.scratch line.lpos
          (line.llen - line.lpos + 1)) line.lpos source from_ 0) = line.scratch := by
      funext position
      split
      next last =>
        rw [copyIn]
        split
        next here =>
          have place : position = line.llen := by omega
          rw [place, last, Nat.sub_self, ended]
          exact nul
        · rfl
      next =>
        rw [copyIn, if_neg (by omega), copyIn]
        split
        · apply congrArg line.scratch
          omega
        · rfl
    rw [same]
    rfl
  · rw [if_neg fits]

/-- The word that is completed is the one of the text. -/
theorem word_congr {buf other : Area} {last : Nat}
    (same : ∀ position < last, other position = buf position) :
    bytesAt other (wordStart other last) (last - wordStart other last) =
      bytesAt buf (wordStart buf last) (last - wordStart buf last) := by
  have start := wordStart_congr same
  have below := wordStart_le buf last
  rw [start]
  apply bytesAt_congr
  intro distance inside
  exact same _ (by omega)

/-- TAB inserts the completion, and the hidden character comes back where it was. -/
theorem Shows.complete (shows : Shows start maxlen line editor) (bounded : maxlen ≤ maxCmdline)
    (key : KeyPress)
    (alone : ∀ place, equalPos (areaOf editor.text) = some place →
      place < editor.cursor ∨ editor.complete maxlen key = editor) :
    Shows start maxlen (complete maxlen line key) (editor.complete maxlen key) := by
  have inside := shows.cursor_le
  have lpos := shows.lpos
  have ended : areaOf editor.text editor.text.length = 0 := areaOf_ge (Nat.le_refl _)
  have same (position : Nat) (bound : position ≤ editor.text.length) :
      line.scratch position = areaOf editor.text position :=
    (shows.byte bound).symm
  obtain ⟨command, -⟩ := afterCommand_congr ended same
  have equal := equalPos_congr ended same
  have llen := shows.llen
  rw [Editor.complete, Editor.completion] at alone ⊢
  rw [← lpos] at alone inside ⊢
  rw [Console.complete, equal, command]
  cases found : equalPos (areaOf editor.text) with
  | none =>
      have word := @word_congr (areaOf editor.text) line.scratch line.lpos
        (fun position before => same position (by omega))
      dsimp only
      rw [word]
      cases key.completions (decide (afterCommand (areaOf editor.text) < line.lpos))
          (bytesAt (areaOf editor.text) (wordStart (areaOf editor.text) line.lpos)
            (line.lpos - wordStart (areaOf editor.text) line.lpos)) with
      | none => exact shows
      | some text => exact shows.insert bounded (areaOf text) 0
  | some place =>
      have before := alone place found
      rw [found] at before
      have there := shows.edits.equalPos_lt (equal.trans found)
      have sign := equalPos_byte (equal.trans found)
      have hidden (position : Nat) (bound : position < line.lpos) :
          setByte line.scratch place space position =
            setByte (areaOf editor.text) place space position := by
        rw [setByte, setByte, same position (by omega)]
      have word := word_congr hidden
      dsimp only at before ⊢
      rw [word]
      revert before
      cases key.completions (decide (afterCommand (areaOf editor.text) < line.lpos))
          (bytesAt (setByte (areaOf editor.text) place space)
            (wordStart (setByte (areaOf editor.text) place space) line.lpos)
            (line.lpos -
              wordStart (setByte (areaOf editor.text) place space) line.lpos)) with
      | none =>
          intro _
          dsimp only [Option.map_none]
          rw [← sign, setByte_restore]
          exact shows
      | some text =>
          dsimp only [Option.map_some]
          rintro (first | nothing)
          · have restored := clInsert_hidden maxlen line (areaOf text) 0 first space
            rw [sign] at restored
            rw [restored]
            exact shows.insert bounded (areaOf text) 0
          · have empty (fits : line.llen + strlen (areaOf text) 0 < maxlen) :
                strlen (areaOf text) 0 = 0 := by
              have cursor := congrArg Editor.cursor nothing
              rw [Editor.insert, length_stringAt, if_pos (by omega)] at cursor
              exact Nat.add_eq_left.mp cursor
            have unchanged := @clInsert_nothing maxlen
              { line with scratch := setByte line.scratch place space } (areaOf text) 0
              ((setByte_other (by dsimp only; omega)).trans shows.edits.ended) empty
            rw [nothing, unchanged, ← sign, setByte_restore]
            exact shows

end Completing

end GrubLegacy.Console
