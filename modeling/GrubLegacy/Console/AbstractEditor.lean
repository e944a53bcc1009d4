import GrubLegacy.Console.HistoryLines

/-!
# What the line editor is for

A text with a cursor, a kill text and a list of earlier lines. `Clean` is the condition
under which a key does to the buffers of `real_get_cmdline` what it does here.
-/

namespace GrubLegacy.Console

open Base

/-- A line being edited. `browsed` is the entry of the history its text was fetched from,
or -1, and `saved` is the text from before the first of them. -/
structure Editor where
  text : List UInt8
  cursor : Nat
  kill : List UInt8
  history : List (List UInt8)
  browsed : Int
  saved : List UInt8
deriving DecidableEq, Repr

namespace Editor

def start (text kill : List UInt8) (history : List (List UInt8)) : Editor where
  text := text
  cursor := text.length
  kill := kill
  history := history
  browsed := -1
  saved := text

/-- Put a text at the cursor, if the line stays below its limit. -/
def insert (maxlen : Nat) (editor : Editor) (typed : List UInt8) : Editor :=
  if editor.text.length + typed.length < maxlen then
    { editor with
      text := editor.text.take editor.cursor ++ typed ++ editor.text.drop editor.cursor
      cursor := editor.cursor + typed.length }
  else editor

def move (editor : Editor) (cursor : Nat) : Editor := { editor with cursor := cursor }

/-- Delete characters from the cursor on. -/
def delete (editor : Editor) (count : Nat) : Editor :=
  { editor with
    text := editor.text.take editor.cursor ++ editor.text.drop (editor.cursor + count) }

def killBackward (editor : Editor) : Editor :=
  if editor.cursor = 0 then editor
  else
    { editor with
      kill := editor.text.take editor.cursor
      text := editor.text.drop editor.cursor
      cursor := 0 }

def killForward (editor : Editor) : Editor :=
  if editor.cursor = editor.text.length then editor
  else
    { editor with
      kill := editor.text.drop editor.cursor
      text := editor.text.take editor.cursor }

def entry (editor : Editor) (no : Int) : Option (List UInt8) :=
  if no < 0 then none else editor.history[no.toNat]?

/-- A changed line is put before the entry it came from. -/
def keepChanges (editor : Editor) : Editor :=
  match editor.entry editor.browsed with
  | none => editor
  | some line =>
      if line ≠ editor.text then
        { editor with history := insertLine editor.history editor.browsed.toNat editor.text }
      else editor

def fetch (editor : Editor) (text : List UInt8) : Editor :=
  { editor with text := text, cursor := text.length }

/-- The editor that C-p looks up an entry in. -/
def beforePrevious (editor : Editor) : Editor :=
  if editor.browsed < 0 then { editor with saved := editor.text } else editor.keepChanges

def previousCommand (editor : Editor) : Editor :=
  match editor.beforePrevious.entry (editor.beforePrevious.browsed + 1) with
  | none => editor.beforePrevious
  | some line =>
      fetch { editor.beforePrevious with browsed := editor.beforePrevious.browsed + 1 } line

def nextCommand (editor : Editor) : Editor :=
  if editor.browsed < 0 then editor
  else
    let kept := editor.keepChanges
    let earlier := { kept with browsed := kept.browsed - 1 }
    match kept.entry (kept.browsed - 1) with
    | none => fetch earlier kept.saved
    | some line => fetch earlier line

/-- What the completion of the word before the cursor adds to it. -/
def completion (editor : Editor) (key : KeyPress) : Option (List UInt8) :=
  let buf := areaOf editor.text
  let hidden := match equalPos buf with
    | some place => setByte buf place space
    | none => buf
  let i := wordStart hidden editor.cursor
  (key.completions (decide (afterCommand buf < editor.cursor))
    (bytesAt hidden i (editor.cursor - i))).map fun text => stringAt (areaOf text) 0

def complete (maxlen : Nat) (editor : Editor) (key : KeyPress) : Editor :=
  match editor.completion key with
  | none => editor
  | some text => editor.insert maxlen text

/-- The keys of readline. -/
def readlineKey (maxlen : Nat) (editor : Editor) (key : KeyPress) : Editor :=
  if key.code = 9 then editor.complete maxlen key
  else if key.code = 1 then editor.move 0
  else if key.code = 5 then editor.move editor.text.length
  else if key.code = 6 then
    if editor.cursor < editor.text.length then editor.move (editor.cursor + 1) else editor
  else if key.code = 2 then
    if 0 < editor.cursor then editor.move (editor.cursor - 1) else editor
  else if key.code = 21 then editor.killBackward
  else if key.code = 11 then editor.killForward
  else if key.code = 25 then editor.insert maxlen editor.kill
  else if key.code = 16 then editor.previousCommand
  else if key.code = 14 then editor.nextCommand
  else editor

/-- The other keys. ESC leaves the editor, or deletes where it may not. -/
def plainKey (maxlen : Nat) (secure : Bool) (editor : Editor) (code : UInt8) : Option Editor :=
  if code = 27 ∧ secure = false then none
  else if code = 27 ∨ code = 4 then
    if editor.cursor = editor.text.length then some editor else some (editor.delete 1)
  else if code = 8 then
    if 0 < editor.cursor then some ((editor.move (editor.cursor - 1)).delete 1) else some editor
  else if 32 ≤ code ∧ code ≤ 126 then some (editor.insert maxlen [code])
  else some editor

/-- What one key does, unless it ends the line. -/
def key (request : Request) (secure : Bool) (editor : Editor) (pressed : KeyPress) :
    Option Editor :=
  plainKey request.maxlen secure
    (if request.readline then editor.readlineKey request.maxlen pressed else editor)
    pressed.code

/-- The line is being edited, or it has been left with what the caller then finds: a
value, a line, the kill text and the history. -/
inductive Result where
  | editing (editor : Editor)
  | returned (value : Nat) (line kill : List UInt8) (history : List (List UInt8))

/-- The line is entered, without its leading spaces unless it was not shown. -/
def finish (request : Request) (editor : Editor) : Result :=
  let line :=
    if request.echoChar = 0 then editor.text.dropWhile (· == space) else editor.text
  .returned 0 line editor.kill
    (if request.readline ∧ line ≠ [] then insertLine editor.history 0 line else editor.history)

def run (request : Request) (secure : Bool) : Editor → List KeyPress → Result
  | editor, [] => .editing editor
  | editor, pressed :: keys =>
      if newline pressed.code then editor.finish request
      else
        match editor.key request secure pressed with
        | none => .returned 1 editor.saved editor.kill editor.history
        | some next => run request secure next keys

/-- The move of a deletion ends before the kill text. -/
def DeletesAlone (editor : Editor) (count : Nat) : Prop :=
  editor.cursor + (editor.text.length - count) < maxCmdline

/-- The condition on the keys of readline: C-k stays away from the kill text it has just
stored, a fetched entry is below the limit, and no text is completed in front of the
equal character after the command. -/
structure CleanReadline (maxlen : Nat) (editor : Editor) (pressed : KeyPress) : Prop where
  kills : pressed.code = 11 → editor.cursor < editor.text.length →
    editor.DeletesAlone (editor.text.length - editor.cursor)
  previous : pressed.code = 16 → ∀ line,
    editor.beforePrevious.entry (editor.beforePrevious.browsed + 1) = some line →
      line.length < maxlen
  next : pressed.code = 14 → 0 ≤ editor.browsed → ∀ line,
    editor.keepChanges.entry (editor.keepChanges.browsed - 1) = some line →
      line.length < maxlen
  completes : pressed.code = 9 → ∀ place, equalPos (areaOf editor.text) = some place →
    place < editor.cursor ∨ editor.complete maxlen pressed = editor

/-- The condition on a key: nothing is moved over the kill text, and with readline the
condition on its keys. -/
structure Clean (request : Request) (editor : Editor) (pressed : KeyPress) : Prop where
  deletes : pressed.code = 27 ∨ pressed.code = 4 → editor.cursor < editor.text.length →
    editor.DeletesAlone 1
  erases : pressed.code = 8 → 0 < editor.cursor →
    (editor.move (editor.cursor - 1)).DeletesAlone 1
  readline : request.readline = true → CleanReadline request.maxlen editor pressed

/-- Every key of a run is clean, up to the one that ends the line. -/
def CleanRun (request : Request) (secure : Bool) : Editor → List KeyPress → Prop
  | _, [] => True
  | editor, pressed :: keys =>
      newline pressed.code = false →
        Clean request editor pressed ∧
          ∀ next, editor.key request secure pressed = some next →
            CleanRun request secure next keys

instance (editor : Editor) (count : Nat) : Decidable (editor.DeletesAlone count) :=
  inferInstanceAs (Decidable (_ < _))

instance (maxlen : Nat) (editor : Editor) (pressed : KeyPress) :
    Decidable (CleanReadline maxlen editor pressed) :=
  have _fetched (found : Option (List UInt8)) :
      Decidable (∀ line, found = some line → line.length < maxlen) :=
    inferInstanceAs (Decidable (∀ line ∈ found, line.length < maxlen))
  have _completed (found : Option Nat) : Decidable (∀ place, found = some place →
      place < editor.cursor ∨ editor.complete maxlen pressed = editor) :=
    inferInstanceAs (Decidable (∀ place ∈ found, _))
  decidable_of_iff (_ ∧ _ ∧ _ ∧ _)
    ⟨fun ⟨kills, previous, next, completes⟩ => ⟨kills, previous, next, completes⟩,
      fun ⟨kills, previous, next, completes⟩ => ⟨kills, previous, next, completes⟩⟩

instance (request : Request) (editor : Editor) (pressed : KeyPress) :
    Decidable (Clean request editor pressed) :=
  decidable_of_iff (_ ∧ _ ∧ _)
    ⟨fun ⟨deletes, erases, readline⟩ => ⟨deletes, erases, readline⟩,
      fun ⟨deletes, erases, readline⟩ => ⟨deletes, erases, readline⟩⟩

/-- A run can be checked key by key. -/
instance decidableCleanRun (request : Request) (secure : Bool) :
    (editor : Editor) → (keys : List KeyPress) → Decidable (CleanRun request secure editor keys)
  | _, [] => inferInstanceAs (Decidable True)
  | editor, pressed :: keys =>
      have _later : Decidable (∀ next, editor.key request secure pressed = some next →
          CleanRun request secure next keys) :=
        have := fun next => decidableCleanRun request secure next keys
        inferInstanceAs (Decidable (∀ next ∈ editor.key request secure pressed, _))
      inferInstanceAs (Decidable (_ → _ ∧ _))

end Editor

end GrubLegacy.Console
