import GrubLegacy.Menu.ConfigLine

/-!
# The logical lines of a configuration file

`logicalLines` says what the lines of a configuration file are, without any
cursor: carriage returns are dropped, tabs are blanks, a backslash before a
newline makes the two of them one blank, and blank lines and comments do not
count. The rest of the module follows `get_line_from_config` through the pieces
of such a file.
-/

namespace GrubLegacy.Menu

/-- Drop carriage returns and turn tabs into blanks. -/
def normalize (bytes : List UInt8) : List UInt8 :=
  (bytes.filter (· ≠ charReturn)).map detab

/-- A byte of a logical line, or the place where two physical lines were joined. -/
inductive Piece where
  | byte (c : UInt8)
  | joint
deriving DecidableEq, Repr

/-- The byte a piece stands for: a joint reads as a blank. -/
def Piece.value : Piece → UInt8
  | .byte c => c
  | .joint => charBlank

/-- Put a piece at the start of the first line. -/
def consHead (piece : Piece) : List (List Piece) → List (List Piece)
  | [] => [[piece]]
  | line :: lines => (piece :: line) :: lines

/-- Split normalized bytes at the newlines that no backslash precedes. -/
def physicalLines : List UInt8 → List (List Piece)
  | [] => [[]]
  | c :: rest =>
    if c = charNewline then [] :: physicalLines rest
    else if c = charBackslash ∧ rest.head? = some charNewline then
      consHead .joint (physicalLines rest).tail
    else consHead (.byte c) (physicalLines rest)

/-- A line without its leading blanks. -/
def unindent (line : List Piece) : List Piece :=
  line.dropWhile fun piece => piece.value = charBlank

/-- The line is neither blank nor a comment. -/
def Counts (line : List Piece) : Prop :=
  ∃ piece rest, unindent line = piece :: rest ∧ piece.value ≠ charHash

/-- The text of a line, cut to `maxlen` bytes. -/
def lineText (maxlen : Nat) (line : List Piece) : List UInt8 :=
  ((unindent line).map Piece.value).take maxlen

instance (line : List Piece) : Decidable (Counts line) :=
  match shape : unindent line with
  | [] => .isFalse (by rintro ⟨piece, rest, eq, _⟩; rw [shape] at eq; cases eq)
  | piece :: rest =>
    decidable_of_iff (piece.value ≠ charHash)
      ⟨fun ne => ⟨piece, rest, shape, ne⟩, by
        rintro ⟨piece', rest', eq, ne⟩
        rw [shape] at eq
        cases eq
        exact ne⟩

/-- The physical lines of a file that count. -/
def countedLines (file : List UInt8) : List (List Piece) :=
  (physicalLines (normalize file)).filter Counts

/-- The logical lines of a configuration file, each cut to `maxlen` bytes. -/
def logicalLines (maxlen : Nat) (file : List UInt8) : List (List UInt8) :=
  (countedLines file).map (lineText maxlen)

/-! ## The line under construction, piece by piece -/

/-- What a piece does to the line under construction. Past `maxlen` a joint finds
no backslash to overwrite and takes the last byte instead. -/
def addPiece (maxlen : Nat) (state : LineState) (piece : Piece) : LineState :=
  if state.comment then state
  else if state.line = [] then
    match piece with
    | .byte c =>
      if c = charHash then { state with comment := true }
      else if c = charBlank then state
      else { state with line := [c] }
    | .joint => state
  else if state.line.length < maxlen then { state with line := state.line ++ [piece.value] }
  else
    match piece with
    | .byte _ => state
    | .joint => { state with line := state.line.dropLast ++ [charBlank] }

/-- A piece leaves the quotes. -/
@[simp] theorem addPiece_literal (maxlen : Nat) (state : LineState) (piece : Piece) :
    (addPiece maxlen state piece).literal = state.literal := by
  unfold addPiece
  repeat' split
  all_goals rfl

/-- What holds of the locals between two pieces: a comment is only begun while
nothing is stored, and the line keeps within its bound. -/
structure Consistent (maxlen : Nat) (state : LineState) : Prop where
  idle : state.comment = true → state.line = []
  bounded : state.line.length ≤ maxlen

/-- The first state is consistent. -/
theorem consistent_start (maxlen : Nat) : Consistent maxlen .start where
  idle := fun _ => rfl
  bounded := Nat.zero_le _

/-- A piece keeps a state consistent. -/
theorem Consistent.addPiece {maxlen : Nat} (room : 2 ≤ maxlen) {state : LineState}
    (consistent : Consistent maxlen state) (piece : Piece) :
    Consistent maxlen (addPiece maxlen state piece) := by
  have bounded := consistent.bounded
  unfold Menu.addPiece
  split
  · exact consistent
  · rename_i outside
    split
    · rename_i empty
      cases piece with
      | byte c =>
          dsimp only
          split
          · exact ⟨fun _ => empty, bounded⟩
          · split
            · exact consistent
            · exact ⟨fun comment => absurd comment outside, by simp; omega⟩
      | joint => exact consistent
    · split
      · exact ⟨fun comment => absurd comment outside, by simp; omega⟩
      · cases piece with
        | byte c => exact consistent
        | joint => exact ⟨fun comment => absurd comment outside, by simp; omega⟩

/-- A blank is none of the special characters, -/
theorem blank_plain :
    charBlank ≠ charNewline ∧ charBlank ≠ charHash ∧ charBlank ≠ charBackslash := by
  decide

/-- nor is a hash one of the others -/
theorem hash_plain : charHash ≠ charNewline ∧ charHash ≠ charBackslash := by decide

/-- or a backslash. -/
theorem backslash_plain :
    charBackslash ≠ charNewline ∧ charBackslash ≠ charHash ∧ charBackslash ≠ charBlank := by
  decide

/-- A byte other than a carriage return that does not end a line adds a piece. -/
theorem lineByte_plain (maxlen : Nat) (state : LineState) {c : UInt8} (notReturn : c ≠ charReturn)
    (notNewline : detab c ≠ charNewline) :
    lineByte maxlen state c =
      .more { addPiece maxlen state (.byte (detab c)) with literal := detab c = charBackslash } := by
  unfold lineByte addPiece storeByte
  generalize detab c = byte at notNewline
  rcases state with ⟨line, literal, comment⟩
  cases comment with
  | true => simp [notReturn, notNewline]
  | false =>
      by_cases empty : line = []
      · by_cases hash : byte = charHash
        · simp [notReturn, empty, hash, hash_plain]
        · by_cases blank : byte = charBlank
          · simp [notReturn, empty, blank, blank_plain]
          · simp [notReturn, notNewline, empty, hash, blank]
      · by_cases room : line.length < maxlen <;>
          simp [notReturn, notNewline, empty, room, Piece.value]

/-- A newline after a backslash turns the two of them into a joint. -/
theorem lineByte_joint {maxlen : Nat} (room : 2 ≤ maxlen) {state : LineState}
    (consistent : Consistent maxlen state) {c : UInt8} (notReturn : c ≠ charReturn)
    (newline : detab c = charNewline) :
    lineByte maxlen { addPiece maxlen state (.byte charBackslash) with literal := true } c =
      .more { addPiece maxlen state .joint with literal := false } := by
  unfold lineByte addPiece storeByte
  rcases state with ⟨line, literal, comment⟩
  cases comment with
  | true =>
      have empty : line = [] := consistent.idle rfl
      simp [notReturn, newline, empty, blank_plain]
  | false =>
      by_cases empty : line = []
      · simp [notReturn, newline, empty, blank_plain, backslash_plain]
      · have nonempty : line.length ≠ 0 := by simpa using empty
        by_cases space : line.length < maxlen
        · simp [notReturn, newline, empty, space, blank_plain, Piece.value]
        · have shorter : line.length - 1 ≠ 0 ∧ line.length - 1 < maxlen := by
            have bounded : line.length ≤ maxlen := consistent.bounded
            omega
          simp [notReturn, newline, empty, space, blank_plain, shorter]

/-- Any other newline ends the line if there is one. -/
theorem lineByte_newline {maxlen : Nat} {state : LineState}
    (consistent : Consistent maxlen state) (plain : state.literal = false) {c : UInt8}
    (notReturn : c ≠ charReturn)
    (newline : detab c = charNewline) :
    lineByte maxlen state c = if state.line = [] then .more .start else .stop state := by
  have notBackslash : charNewline ≠ charBackslash := by decide
  have notHash : charNewline ≠ charHash := by decide
  unfold lineByte storeByte
  rcases state with ⟨line, literal, comment⟩
  cases plain
  cases comment with
  | true =>
      have empty : line = [] := consistent.idle rfl
      simp [notReturn, newline, empty, notBackslash, LineState.start]
  | false =>
      by_cases empty : line = [] <;>
        simp [notReturn, newline, empty, notBackslash, notHash, LineState.start]

end GrubLegacy.Menu
