import GrubLegacy.Console.EditorRefinement
import GrubLegacy.Console.CallerBuffers

/-!
# Runs of the line editor

A run of clean keys is a run of the abstract editor, up to what the caller finds.
-/

namespace GrubLegacy.Console

open Base

section Keys

variable {start : Workspace} {maxlen : Nat} {line : Line} {editor : Editor}

/-- A yank inserts the kill buffer in both, -/
theorem Shows.yank (shows : Shows start maxlen line editor) (bounded : maxlen ≤ maxCmdline) :
    Shows start maxlen (clInsert maxlen line line.scratch killBuf)
      (editor.insert maxlen editor.kill) := by
  have short := shows.killShort
  have kill := shows.kill.stringAt (by
    rw [addressSpace]
    rw [maxCmdline] at short
    omega)
  rw [← kill]
  exact shows.insert bounded line.scratch killBuf

/-- a key its character. -/
theorem Shows.type (shows : Shows start maxlen line editor) (bounded : maxlen ≤ maxCmdline)
    {code : UInt8} (text : code ≠ 0) :
    Shows start maxlen (clInsert maxlen line (areaOf [code]) 0)
      (editor.insert maxlen [code]) := by
  have holds : Holds (areaOf [code]) 0 [code] :=
    { bytes := fun i _ => by rw [Nat.zero_add]
      free := fun c member => by
        rw [List.mem_singleton.mp member]
        exact text }
  have string := holds.stringAt (by rw [addressSpace, List.length_singleton]; decide)
  have inserted := shows.insert bounded (areaOf [code]) 0
  rwa [string] at inserted

/-- ESC, C-d and C-h are not keys of readline. -/
theorem Editor.readlineKey_plain (maxlen : Nat) (editor : Editor) {key : KeyPress}
    (plain : key.code = 27 ∨ key.code = 4 ∨ key.code = 8) :
    editor.readlineKey maxlen key = editor := by
  rw [Editor.readlineKey]
  rcases plain with code | code | code <;> simp [code]

/-- The one plain key that leaves the editor is ESC. -/
theorem Editor.code_of_plainKey_none {maxlen : Nat} {secure : Bool} {editor : Editor}
    {code : UInt8} (leaves : editor.plainKey maxlen secure code = none) : code = 27 := by
  rw [Editor.plainKey] at leaves
  split at leaves
  next escape => exact escape.1
  split at leaves
  · split at leaves <;> exact absurd leaves (by simp)
  split at leaves
  · split at leaves <;> exact absurd leaves (by simp)
  split at leaves <;> exact absurd leaves (by simp)

/-- A key of the line editor does the same in both, -/
theorem Shows.readlineKey (shows : Shows start maxlen line editor)
    (bounded : maxlen ≤ maxCmdline) {key : KeyPress}
    (clean : Editor.CleanReadline maxlen editor key) :
    Shows start maxlen (readlineKey maxlen line key) (editor.readlineKey maxlen key) := by
  have inside := shows.cursor_le
  have place := shows.edits.place
  have lpos := shows.lpos
  have llen := shows.llen
  rw [Console.readlineKey, Editor.readlineKey]
  by_cases tab : key.code = 9
  · rw [if_pos tab, if_pos tab]
    exact shows.complete bounded key (clean.completes tab)
  rw [if_neg tab, if_neg tab]
  by_cases beginning : key.code = 1
  · rw [if_pos beginning, if_pos beginning, clBackward, Nat.sub_self]
    exact shows.move bounded (Nat.zero_le _)
  rw [if_neg beginning, if_neg beginning]
  by_cases last : key.code = 5
  · have moved := shows.move bounded (Nat.le_refl editor.text.length)
    rw [← llen] at moved
    rw [if_pos last, if_pos last, clForward, Nat.add_sub_cancel' place, ← llen]
    exact moved
  rw [if_neg last, if_neg last]
  by_cases forward : key.code = 6
  · rw [if_pos forward, if_pos forward]
    by_cases more : editor.cursor < editor.text.length
    · rw [if_pos (by omega), if_pos more, clForward, lpos]
      exact shows.move bounded more
    · rw [if_neg (by omega), if_neg more]
      exact shows
  rw [if_neg forward, if_neg forward]
  by_cases backward : key.code = 2
  · rw [if_pos backward, if_pos backward]
    by_cases more : 0 < editor.cursor
    · rw [if_pos (by omega), if_pos more, clBackward, lpos]
      exact shows.move bounded (by omega)
    · rw [if_neg (by omega), if_neg more]
      exact shows
  rw [if_neg backward, if_neg backward]
  by_cases killsBefore : key.code = 21
  · rw [if_pos killsBefore, if_pos killsBefore]
    exact shows.killBackward bounded
  rw [if_neg killsBefore, if_neg killsBefore]
  by_cases killsAfter : key.code = 11
  · rw [if_pos killsAfter, if_pos killsAfter]
    exact shows.killForward bounded (clean.kills killsAfter)
  rw [if_neg killsAfter, if_neg killsAfter]
  by_cases yanks : key.code = 25
  · rw [if_pos yanks, if_pos yanks]
    exact shows.yank bounded
  rw [if_neg yanks, if_neg yanks]
  by_cases previous : key.code = 16
  · rw [if_pos previous, if_pos previous]
    exact shows.previousCommand bounded (clean.previous previous)
  rw [if_neg previous, if_neg previous]
  by_cases next : key.code = 14
  · rw [if_pos next, if_pos next]
    exact shows.nextCommand bounded (clean.next next)
  rw [if_neg next, if_neg next]
  exact shows

/-- backspace does, -/
theorem Shows.erase (shows : Shows start maxlen line editor) (bounded : maxlen ≤ maxCmdline)
    (some_ : 0 < editor.cursor) (alone : (editor.move (editor.cursor - 1)).DeletesAlone 1) :
    Shows start maxlen (clDelete (clBackward line 1) 1)
      ((editor.move (editor.cursor - 1)).delete 1) := by
  have inside := shows.cursor_le
  have moved := @Shows.move _ _ _ _ shows bounded (editor.cursor - 1) (by omega)
  have deleted := @Shows.delete _ _ _ _ moved bounded 1 (by
    dsimp only [Editor.move]
    omega) alone
  rw [clBackward, shows.lpos]
  exact deleted

/-- and so does each plain key. -/
theorem Shows.plainKey (shows : Shows start maxlen line editor) (bounded : maxlen ≤ maxCmdline)
    {secure : Bool} {code : UInt8}
    (deletes : code = 27 ∨ code = 4 → editor.cursor < editor.text.length →
      editor.DeletesAlone 1)
    (erases : code = 8 → 0 < editor.cursor →
      (editor.move (editor.cursor - 1)).DeletesAlone 1) :
    Option.Rel (Shows start maxlen) (plainKey maxlen secure line code)
      (editor.plainKey maxlen secure code) := by
  have inside := shows.cursor_le
  have lpos := shows.lpos
  have llen := shows.llen
  rw [Console.plainKey, Editor.plainKey]
  by_cases leaves : code = 27 ∧ secure = false
  · rw [if_pos leaves, if_pos leaves]
    exact .none
  rw [if_neg leaves, if_neg leaves]
  by_cases deleting : code = 27 ∨ code = 4
  · rw [if_pos deleting, if_pos deleting]
    by_cases last : editor.cursor = editor.text.length
    · rw [if_pos (by omega), if_pos last]
      exact .some shows
    · rw [if_neg (by omega), if_neg last]
      exact .some (shows.delete bounded (by omega) (deletes deleting (by omega)))
  rw [if_neg deleting, if_neg deleting]
  by_cases erasing : code = 8
  · rw [if_pos erasing, if_pos erasing]
    by_cases some_ : 0 < editor.cursor
    · rw [if_pos (by omega), if_pos some_]
      exact .some (shows.erase bounded some_ (erases erasing some_))
    · rw [if_neg (by omega), if_neg some_]
      exact .some shows
  rw [if_neg erasing, if_neg erasing]
  by_cases printable : 32 ≤ code ∧ code ≤ 126
  · rw [if_pos printable, if_pos printable]
    refine .some (shows.type bounded ?_)
    rintro rfl
    exact absurd printable.1 (by decide)
  · rw [if_neg printable, if_neg printable]
    exact .some shows

end Keys

/-- Between two lines: the entries of the history are strings in their slots, and so is
the kill text. -/
structure Ready (workspace : Workspace) : Prop where
  histories : Histories workspace
  kill : EndsWithin workspace.scratch killBuf (maxCmdline - 1)

/-- The line as the abstract editor has it. -/
structure Agrees (maxlen : Nat) (line : Line) (editor : Editor) : Prop where
  place : line.lpos ≤ line.llen
  short : line.llen < maxlen
  ended : line.scratch line.llen = 0
  text : stringAt line.scratch 0 = editor.text
  length : line.llen = editor.text.length
  cursor : line.lpos = editor.cursor
  kill : stringAt line.scratch killBuf = editor.kill
  history : historyLines line.toWorkspace = editor.history

/-- The editor is where the abstract one is: at the same line, or it has returned the
same value with the same line, kill text and history. -/
def Refines (maxlen : Nat) : Progress → Editor.Result → Prop
  | .editing line, .editing editor => Ready line.toWorkspace ∧ Agrees maxlen line editor
  | .returned value workspace buffer, .returned value' line kill history =>
      Ready workspace ∧ value = value' ∧ stringAt buffer.bytes 0 = line ∧
        stringAt workspace.scratch killBuf = kill ∧ historyLines workspace = history
  | _, _ => False

section Run

variable {start : Workspace} {maxlen : Nat} {line : Line} {editor : Editor}

/-- The kill buffer of the code holds what was killed. -/
theorem Shows.killed (shows : Shows start maxlen line editor) :
    stringAt line.scratch killBuf = editor.kill := by
  have short := shows.killShort
  apply shows.kill.stringAt
  rw [addressSpace]
  rw [maxCmdline] at short
  omega

/-- The buffers are ready for another line. -/
theorem Shows.ready (shows : Shows start maxlen line editor) : Ready line.toWorkspace where
  histories := shows.edits.histories
  kill := shows.kill.endsWithin (Nat.le_sub_one_of_lt shows.killShort)

/-- What is shown agrees with the line. -/
theorem Shows.agrees (shows : Shows start maxlen line editor) (bounded : maxlen ≤ maxCmdline) :
    Agrees maxlen line editor where
  place := shows.edits.place
  short := by
    rw [shows.llen]
    exact shows.short
  ended := shows.edits.ended
  text := shows.string bounded
  length := shows.llen
  cursor := shows.lpos
  kill := shows.killed
  history := shows.history

/-- Enter gives the same line back in both. -/
theorem Shows.finish (shows : Shows start maxlen line editor) (bounded : maxlen ≤ maxCmdline)
    (request : Request) : Refines maxlen (finish request line) (editor.finish request) := by
  have short := shows.short
  have llen := shows.llen
  have small : editor.text.length < addressSpace := by
    rw [addressSpace]
    rw [maxCmdline] at bounded
    omega
  have span : spanLength (· == space) line.scratch addressSpace 0 =
      spanLength (· == space) (areaOf editor.text) addressSpace 0 := by
    apply spanLength_congr (Nat.zero_le _) (by rw [areaOf_ge (Nat.le_refl _)]; rfl)
    exact fun position _ inside => (shows.byte inside).symm
  have front : spanLength (· == space) (areaOf editor.text) addressSpace 0 ≤
      editor.text.length := by
    have before := @spanLength_before (· == space) (areaOf editor.text) addressSpace 0
      editor.text.length (Nat.zero_le _) (by rw [areaOf_ge (Nat.le_refl _)]; rfl)
    rwa [Nat.zero_add] at before
  have dropped := @drop_spanLength (· == space) editor.text addressSpace rfl small
  obtain ⟨lpos, below, text, first⟩ : ∃ lpos ≤ editor.text.length,
      (if request.echoChar = 0 then editor.text.dropWhile (· == space) else editor.text) =
        editor.text.drop lpos ∧
      (if request.echoChar = 0 then
        spanLength (· == space) line.scratch addressSpace 0 else 0) = lpos := by
    by_cases shown : request.echoChar = 0
    · exact ⟨_, front, by rw [if_pos shown, dropped], by rw [if_pos shown, span]⟩
    · exact ⟨0, Nat.zero_le _, by rw [if_neg shown]; rfl, by rw [if_neg shown]⟩
  have length : (editor.text.drop lpos).length = editor.text.length - lpos := List.length_drop
  have copied : Holds (line.cmdline.copy 0 line.scratch lpos (line.llen - lpos + 1)).bytes 0
      (editor.text.drop lpos) := {
    bytes := by
      intro i inside
      dsimp only [Buffer.copy]
      rw [copyIn_inside (by omega) (by omega), Nat.zero_add, Nat.sub_zero, areaOf_drop]
      exact (shows.byte (by omega)).symm
    free := fun c member => shows.text.free c (List.mem_of_mem_drop member) }
  have read := copied.stringAt (by omega)
  have ends := @Holds.endsWithin _ _ _ copied (maxCmdline - 1) (by omega)
  rw [Console.finish, Editor.finish, first, text]
  by_cases adds : request.readline = true ∧ lpos < line.llen
  · have some_ : editor.text.drop lpos ≠ [] := by
      intro none_
      rw [none_, List.length_nil] at length
      omega
    rw [if_pos adds, if_pos ⟨adds.1, some_⟩]
    have below_ (position : Nat) (low : position < historyBuf) :=
      @addHistory_below line.toWorkspace
        (line.cmdline.copy 0 line.scratch lpos (line.llen - lpos + 1)).bytes 0 position low
    have killStart : historyBuf = killBuf + maxCmdline := rfl
    have killShort := shows.killShort
    have kill := @Holds.congr _ _ _ shows.kill _ killBuf fun i inside =>
      below_ (killBuf + i) (by omega)
    refine ⟨⟨shows.edits.histories.add ends (Nat.zero_le _), kill.endsWithin (by omega)⟩, rfl,
      read, kill.stringAt (by rw [addressSpace]; rw [maxCmdline] at killShort; omega), ?_⟩
    rw [historyLines_addHistory shows.edits.histories ends (Nat.zero_le _), read, shows.history]
  · have stays : ¬ (request.readline = true ∧ editor.text.drop lpos ≠ []) := by
      rintro ⟨readline, some_⟩
      have more := List.length_pos_iff.mpr some_
      exact adds ⟨readline, by omega⟩
    rw [if_neg adds, if_neg stays]
    exact ⟨shows.ready, rfl, read, shows.killed, shows.history⟩

/-- So a whole run of keys does. -/
theorem Shows.editLoop (shows : Shows start maxlen line editor) {request : Request}
    (limit : request.maxlen = maxlen) (bounded : maxlen ≤ maxCmdline) {secure : Bool}
    {keys : List KeyPress} (clean : editor.CleanRun request secure keys) :
    Refines maxlen (editLoop request maxlen secure line keys) (editor.run request secure keys) := by
  induction keys generalizing line editor with
  | nil => exact ⟨shows.ready, shows.agrees bounded⟩
  | cons pressed keys ih =>
      rw [Console.editLoop, Editor.run]
      by_cases entered : newline pressed.code = true
      · rw [if_pos entered, if_pos entered]
        exact shows.finish bounded request
      · rw [if_neg entered, if_neg entered]
        obtain ⟨here, later⟩ := clean (Bool.eq_false_iff.mpr entered)
        rw [Editor.key, limit] at later ⊢
        have bound : Shows start maxlen
            (if request.readline then Console.readlineKey maxlen line pressed else line)
            (if request.readline then editor.readlineKey maxlen pressed else editor) := by
          split
          next readline =>
            have cleans := here.readline readline
            rw [limit] at cleans
            exact shows.readlineKey bounded cleans
          · exact shows
        have same (plain : pressed.code = 27 ∨ pressed.code = 4 ∨ pressed.code = 8) :
            (if request.readline then editor.readlineKey maxlen pressed else editor) =
              editor := by
          rw [Editor.readlineKey_plain maxlen editor plain, ite_self]
        have left (leaves : Editor.plainKey maxlen secure
            (if request.readline then editor.readlineKey maxlen pressed else editor)
            pressed.code = none) :=
          same (Or.inl (Editor.code_of_plainKey_none leaves))
        revert bound later same left
        generalize (if request.readline then Console.readlineKey maxlen line pressed
          else line) = line'
        generalize (if request.readline then editor.readlineKey maxlen pressed
          else editor) = editor'
        intro later bound same left
        have plain : Option.Rel (Shows start maxlen)
            (Console.plainKey maxlen secure line' pressed.code)
            (editor'.plainKey maxlen secure pressed.code) := by
          apply bound.plainKey bounded
          · intro code
            rw [same (code.imp_right Or.inl)]
            exact here.deletes code
          · intro code
            rw [same (Or.inr (Or.inr code))]
            exact here.erases code
        dsimp only
        revert plain later left
        generalize Console.plainKey maxlen secure line' pressed.code = next
        generalize editor'.plainKey maxlen secure pressed.code = next'
        intro later left plain
        cases plain with
        | none =>
            have unchanged := left rfl
            rw [unchanged] at bound
            exact ⟨bound.ready, rfl, bound.saved.stringAt (by
              have short := bound.savedShort
              rw [addressSpace]
              rw [maxCmdline] at bounded
              omega), bound.killed, bound.history⟩
        | some goes => exact ih goes (later _ rfl)

/-- The line the editor begins with. -/
theorem shows_startLine {request : Request} {workspace : Workspace} {bytes : Area}
    (ready : Ready workspace) (bounded : request.maxlen ≤ maxCmdline)
    (short : strlen bytes 0 < request.maxlen) :
    Shows workspace request.maxlen (startLine request workspace ⟨bytes, []⟩)
      (Editor.start (stringAt bytes 0) (stringAt workspace.scratch killBuf)
        (historyLines workspace)) := by
  have small : strlen bytes 0 < addressSpace := by
    rw [addressSpace]
    rw [maxCmdline] at bounded
    omega
  have saved := holds_stringAt small
  have length : (stringAt bytes 0).length = strlen bytes 0 := length_stringAt _ _
  have ends := @Holds.endsWithin _ _ _ saved (maxCmdline - 1) (by omega)
  have killStart : killBuf = maxCmdline := rfl
  have history : historyBuf = killBuf + maxCmdline := rfl
  have killLength := ready.kill.strlen_le
  have whole : ¬ (maxCmdline < request.maxlen ∧ maxCmdline ≤ strlen bytes 0) := by
    omega
  have above (position : Nat) (high : killBuf ≤ position) :
      strcpy workspace.scratch 0 bytes 0 position = workspace.scratch position :=
    copyIn_outside (Or.inr (by omega))
  have edits := @edits_startLine (maxCmdline - 1) request workspace ⟨bytes, []⟩ ready.histories
    rfl (by decide) ends
  rw [startLine] at edits ⊢
  dsimp only at edits ⊢
  rw [if_neg whole, if_neg whole] at edits ⊢
  exact {
    edits := edits
    text := by
      apply saved.congr
      intro i inside
      dsimp only
      rw [strcpy, copyIn_inside (by omega) (by omega), Nat.zero_add, Nat.sub_zero]
    llen := length.symm
    lpos := length.symm
    short := by
      dsimp only [Editor.start]
      omega
    kill := (holds_stringAt (Nat.lt_of_le_of_lt killLength (by decide))).congr fun i _ =>
      above _ (Nat.le_add_right _ _)
    killShort := by
      dsimp only [Editor.start]
      rw [length_stringAt]
      omega
    history := historyLines_edited ready.histories fun position high => above _ (by omega)
    browsed := rfl
    saved := saved
    savedShort := by
      dsimp only [Editor.start]
      omega }

end Run

section Frame

variable (maxlen : Nat) (editor : Editor)

/-- What is typed leaves kill buffer and history, -/
theorem Editor.insert_frame (typed : List UInt8) :
    (editor.insert maxlen typed).kill = editor.kill ∧
      (editor.insert maxlen typed).history = editor.history := by
  rw [Editor.insert]
  split <;> exact ⟨rfl, rfl⟩

/-- and so does a completion. -/
theorem Editor.complete_frame (pressed : KeyPress) :
    (editor.complete maxlen pressed).kill = editor.kill ∧
      (editor.complete maxlen pressed).history = editor.history := by
  rw [Editor.complete]
  split
  · exact ⟨rfl, rfl⟩
  · exact editor.insert_frame maxlen _

/-- Going to another line of the history keeps the changes of this one there. -/
theorem Editor.keepChanges_frame :
    editor.keepChanges.kill = editor.kill ∧
      (editor.keepChanges.history = editor.history ∨
        ∃ no, editor.keepChanges.history = insertLine editor.history no editor.text) := by
  rw [Editor.keepChanges]
  split
  · exact ⟨rfl, Or.inl rfl⟩
  · split
    · exact ⟨rfl, Or.inr ⟨_, rfl⟩⟩
    · exact ⟨rfl, Or.inl rfl⟩

/-- The line before does so, -/
theorem Editor.previousCommand_frame :
    editor.previousCommand.kill = editor.kill ∧
      (editor.previousCommand.history = editor.history ∨
        ∃ no, editor.previousCommand.history = insertLine editor.history no editor.text) := by
  have before : editor.beforePrevious.kill = editor.kill ∧
      (editor.beforePrevious.history = editor.history ∨
        ∃ no, editor.beforePrevious.history = insertLine editor.history no editor.text) := by
    rw [Editor.beforePrevious]
    split
    · exact ⟨rfl, Or.inl rfl⟩
    · exact editor.keepChanges_frame
  rw [Editor.previousCommand]
  split
  · exact before
  · exact before

/-- and the line behind. -/
theorem Editor.nextCommand_frame :
    editor.nextCommand.kill = editor.kill ∧
      (editor.nextCommand.history = editor.history ∨
        ∃ no, editor.nextCommand.history = insertLine editor.history no editor.text) := by
  rw [Editor.nextCommand]
  split
  · exact ⟨rfl, Or.inl rfl⟩
  · dsimp only
    split
    · exact editor.keepChanges_frame
    · exact editor.keepChanges_frame

/-- What a key leaves alone: only C-u and C-k change the kill text, and the history only
gets the line as it was. -/
def Editor.Keeps (pressed : KeyPress) (editor next : Editor) : Prop :=
  (pressed.code ≠ 21 → pressed.code ≠ 11 → next.kill = editor.kill) ∧
    (next.history = editor.history ∨
      ∃ no, next.history = insertLine editor.history no editor.text)

/-- A key of the line editor keeps what it should, -/
theorem Editor.readlineKey_keeps (pressed : KeyPress) :
    Editor.Keeps pressed editor (editor.readlineKey maxlen pressed) := by
  have completed := editor.complete_frame maxlen pressed
  have yanked := editor.insert_frame maxlen editor.kill
  have previous := editor.previousCommand_frame
  have next := editor.nextCommand_frame
  rw [Editor.readlineKey]
  split
  · exact ⟨fun _ _ => completed.1, Or.inl completed.2⟩
  split
  · exact ⟨fun _ _ => rfl, Or.inl rfl⟩
  split
  · exact ⟨fun _ _ => rfl, Or.inl rfl⟩
  split
  · split <;> exact ⟨fun _ _ => rfl, Or.inl rfl⟩
  split
  · split <;> exact ⟨fun _ _ => rfl, Or.inl rfl⟩
  split
  next code =>
    refine ⟨fun other _ => absurd code other, Or.inl ?_⟩
    rw [Editor.killBackward]
    split <;> rfl
  split
  next code =>
    refine ⟨fun _ other => absurd code other, Or.inl ?_⟩
    rw [Editor.killForward]
    split <;> rfl
  split
  · exact ⟨fun _ _ => yanked.1, Or.inl yanked.2⟩
  split
  · exact ⟨fun _ _ => previous.1, previous.2⟩
  split
  · exact ⟨fun _ _ => next.1, next.2⟩
  · exact ⟨fun _ _ => rfl, Or.inl rfl⟩

/-- a plain key all of it, -/
theorem Editor.plainKey_frame {secure : Bool} {code : UInt8} {next : Editor}
    (goes : editor.plainKey maxlen secure code = some next) :
    next.kill = editor.kill ∧ next.history = editor.history := by
  rw [Editor.plainKey] at goes
  split at goes
  · exact absurd goes (by simp)
  split at goes
  · split at goes <;> exact Option.some.inj goes ▸ ⟨rfl, rfl⟩
  split at goes
  · split at goes <;> exact Option.some.inj goes ▸ ⟨rfl, rfl⟩
  split at goes
  · exact Option.some.inj goes ▸ editor.insert_frame maxlen [code]
  · exact Option.some.inj goes ▸ ⟨rfl, rfl⟩

end Frame

/-- and so does any key. -/
theorem Editor.key_keeps {request : Request} {secure : Bool} {editor next : Editor}
    {pressed : KeyPress} (goes : editor.key request secure pressed = some next) :
    Editor.Keeps pressed editor next := by
  rw [Editor.key] at goes
  obtain ⟨kill, history⟩ := Editor.plainKey_frame _ _ goes
  rw [Editor.Keeps, kill, history]
  split
  · exact editor.readlineKey_keeps request.maxlen pressed
  · exact ⟨fun _ _ => rfl, Or.inl rfl⟩

/-- The line that is edited when `real_get_cmdline` begins. -/
def firstEditor (workspace : Workspace) (bytes : Area) : Editor :=
  Editor.start (stringAt bytes 0) (stringAt workspace.scratch killBuf) (historyLines workspace)

/-- For every limit up to MAX_CMDLINE and every shorter text, a run of clean keys is a
run of the abstract editor, whose keys change the kill text and the history as they
should. -/
theorem realGetCmdline_refines (request : Request) (secure : Bool) (workspace : Workspace)
    (bytes : Area) (keys : List KeyPress) (bounded : request.maxlen ≤ maxCmdline)
    (ready : Ready workspace) (short : strlen bytes 0 < request.maxlen)
    (clean : (firstEditor workspace bytes).CleanRun request secure keys) :
    Refines request.maxlen (realGetCmdline request secure workspace ⟨bytes, []⟩ keys)
        ((firstEditor workspace bytes).run request secure keys) ∧
      ∀ editor pressed next, Editor.key request secure editor pressed = some next →
        Editor.Keeps pressed editor next := by
  have limit : min request.maxlen maxCmdline = request.maxlen := Nat.min_eq_left bounded
  refine ⟨?_, fun editor pressed next goes => Editor.key_keeps goes⟩
  rw [realGetCmdline, limit]
  exact (shows_startLine ready bounded short).editLoop rfl bounded clean

/-- The buffers after the command "ls". -/
def commandWorkspace : Workspace := addHistory (bootWorkspace fun _ => 0) (areaOf [108, 115]) 0

/-- The buffers a boot starts with are ready, -/
theorem ready_boot : Ready (bootWorkspace fun _ => 0) where
  histories := histories_bootWorkspace _
  kill := ⟨0, Nat.zero_le _, rfl⟩

/-- those after a command, -/
theorem ready_command : Ready commandWorkspace where
  histories := ready_boot.histories.add ⟨2, by decide, rfl⟩ (Nat.zero_le _)
  kill := ⟨0, Nat.zero_le _, by decide +kernel⟩

/-- and those with a long history. -/
theorem ready_longHistory : Ready longHistory where
  histories := histories_longHistory
  kill := by
    refine ⟨0, Nat.zero_le _, ?_⟩
    rw [longHistory]
    dsimp only
    rw [if_neg (fun inside => absurd inside.1 (by decide))]

/-- The line before is fetched, its last character erased, the rest killed and yanked
twice, and a letter typed. -/
def recallKeys : List KeyPress :=
  [controlP, press 8, press 21, press 25, press 25, press 97, press 10]

/-- So "lla" is entered in the menu's editor. -/
theorem realGetCmdline_refines_recall :
    Refines 1501
      (realGetCmdline Caller.editRequest false commandWorkspace ⟨fun _ => 0, []⟩ recallKeys)
      ((firstEditor commandWorkspace fun _ => 0).run Caller.editRequest false recallKeys) :=
  (realGetCmdline_refines Caller.editRequest false commandWorkspace (fun _ => 0) recallKeys
    (by decide) ready_command (by decide +kernel) (by decide +kernel)).1

/-- C-p in the menu's editor fetches a line of 1599 characters, above the limit. -/
theorem realGetCmdline_exceeds_limit :
    ¬ ∀ (request : Request) (secure : Bool) (workspace : Workspace) (bytes : Area)
        (keys : List KeyPress), request.maxlen ≤ maxCmdline → Ready workspace →
        strlen bytes 0 < request.maxlen →
        Refines request.maxlen (realGetCmdline request secure workspace ⟨bytes, []⟩ keys)
          ((firstEditor workspace bytes).run request secure keys) := by
  intro every
  have refines := every Caller.editRequest false longHistory emptyBuffer.bytes [controlP]
    (by decide) ready_longHistory (by rw [strlen_empty]; decide)
  obtain ⟨fetched, fetches, length, first⟩ := previousCommand_long Caller.editRequest
  have edited : realGetCmdline Caller.editRequest false longHistory emptyBuffer [controlP] =
      .editing fetched := by
    rw [← fetches]
    rfl
  change Refines 1501 (realGetCmdline Caller.editRequest false longHistory emptyBuffer
    [controlP]) _ at refines
  rw [edited] at refines
  revert refines
  cases (firstEditor longHistory emptyBuffer.bytes).run Caller.editRequest false [controlP] with
  | editing editor =>
      rintro ⟨-, agrees⟩
      have short := agrees.short
      rw [length] at short
      exact absurd short (by decide)
  | returned value line kill history => exact False.elim

end GrubLegacy.Console
