import GrubLegacy.Menu.LogicalLines

/-!
# Reading a configuration file once

`scanPieces` is `get_line_from_config` over the lines of a file instead of its
bytes; from it follow the answers of all successive calls. The cursor goes back
to the start whenever the data ends, also when that very call returns a line, so
the calls reach the end of a file only if its last line does not count.
-/

namespace GrubLegacy.Menu

open Stage2 (newHeapsize)

/-- `scanLine` over physical lines: the line stored, and the lines left after it. -/
def scanPieces (maxlen : Nat) :
    List (List Piece) → LineState → List UInt8 × Option (List (List Piece))
  | [], state => (state.line, none)
  | [line], state => ((line.foldl (addPiece maxlen) state).line, none)
  | line :: lines, state =>
    let text := (line.foldl (addPiece maxlen) state).line
    if text = [] then scanPieces maxlen lines .start else (text, some lines)

/-- A piece in front makes a line. -/
theorem consHead_ne_nil (piece : Piece) (lines : List (List Piece)) :
    consHead piece lines ≠ [] := by
  cases lines <;> simp [consHead]

/-- Every file has a line. -/
theorem physicalLines_ne_nil (bytes : List UInt8) : physicalLines bytes ≠ [] := by
  unfold physicalLines
  split
  · simp
  · split
    · simp
    · split <;> exact consHead_ne_nil _ _

/-- A piece in front of the lines is added first. -/
theorem scanPieces_consHead (maxlen : Nat) (piece : Piece) {lines : List (List Piece)}
    (nonempty : lines ≠ []) (state : LineState) :
    scanPieces maxlen (consHead piece lines) state =
      scanPieces maxlen lines (addPiece maxlen state piece) := by
  match lines with
  | [line] => rfl
  | line :: next :: lines => rfl

/-- An empty line in front of the others ends the line under construction. -/
theorem scanPieces_newline (maxlen : Nat) {lines : List (List Piece)} (nonempty : lines ≠ [])
    (state : LineState) :
    scanPieces maxlen ([] :: lines) state =
      if state.line = [] then scanPieces maxlen lines .start else (state.line, some lines) := by
  match lines with
  | line :: lines => rfl

/-! ## The bytes follow the pieces -/

/-- The answer of `scanLine`, with the bytes left as physical lines. -/
def scannedLines (answer : List UInt8 × Option (List UInt8)) :
    List UInt8 × Option (List (List Piece)) :=
  (answer.1, answer.2.map fun rest => physicalLines (normalize rest))

/-- A carriage return is dropped, -/
private theorem normalize_return (rest : List UInt8) :
    normalize (charReturn :: rest) = normalize rest := by
  simp [normalize]

/-- and any other character is kept, a tab as a blank. -/
private theorem normalize_cons {c : UInt8} (notReturn : c ≠ charReturn) (rest : List UInt8) :
    normalize (c :: rest) = detab c :: normalize rest := by
  simp [normalize, notReturn]

/-- Whether a piece is added does not depend on the character before. -/
private theorem addPiece_set_literal (maxlen : Nat) (state : LineState) (literal : Bool)
    (piece : Piece) :
    addPiece maxlen { state with literal } piece =
      { addPiece maxlen state piece with literal } := by
  unfold addPiece
  dsimp only
  repeat' split
  all_goals rfl

/-- A state is itself with the flag it has. -/
private theorem set_literal_self {state : LineState} {literal : Bool}
    (same : state.literal = literal) : { state with literal } = state := by
  cases state
  cases same
  rfl

/-- Scanning bytes is scanning the pieces of their physical lines; the second part
is the same after a backslash that has been stored already. -/
theorem scanLine_pieces {maxlen : Nat} (room : 2 ≤ maxlen) (bytes : List UInt8) :
    (∀ {state : LineState}, Consistent maxlen state → state.literal = false →
      scannedLines (scanLine maxlen bytes state) =
        scanPieces maxlen (physicalLines (normalize bytes)) state) ∧
    (∀ {state : LineState}, Consistent maxlen state → state.literal = false →
      scannedLines (scanLine maxlen bytes
          { addPiece maxlen state (.byte charBackslash) with literal := true }) =
        scanPieces maxlen (physicalLines (charBackslash :: normalize bytes)) state) := by
  induction bytes with
  | nil =>
      constructor
      · intro state _ _
        rfl
      · intro state _ _
        simp [scanLine, scannedLines, normalize, physicalLines, consHead, scanPieces,
          backslash_plain]
  | cons c rest ih =>
      obtain ⟨plainRest, joinRest⟩ := ih
      by_cases return_ : c = charReturn
      · subst return_
        simp only [normalize_return, scanLine, lineByte, if_true]
        exact ⟨plainRest, joinRest⟩
      rw [normalize_cons return_]
      have linesLeft := physicalLines_ne_nil (normalize rest)
      by_cases newline : detab c = charNewline
      · constructor
        · intro state consistent plain
          rw [scanLine, lineByte_newline consistent plain return_ newline, newline,
            show physicalLines (charNewline :: normalize rest) =
              [] :: physicalLines (normalize rest) by simp [physicalLines],
            scanPieces_newline maxlen linesLeft]
          by_cases empty : state.line = []
          · simpa only [empty, if_true] using plainRest (consistent_start maxlen) rfl
          · simp [empty, scannedLines]
        · intro state consistent plain
          rw [scanLine, lineByte_joint room consistent return_ newline, newline,
            show physicalLines (charBackslash :: charNewline :: normalize rest) =
              consHead .joint (physicalLines (normalize rest)) by
                simp [physicalLines, backslash_plain],
            scanPieces_consHead maxlen .joint linesLeft]
          have literalOff := (addPiece_literal maxlen state .joint).trans plain
          rw [set_literal_self literalOff]
          exact plainRest (consistent.addPiece room .joint) literalOff
      · have plainHere : ∀ {state : LineState}, Consistent maxlen state →
            scannedLines (scanLine maxlen (c :: rest) state) =
              scanPieces maxlen (physicalLines (detab c :: normalize rest))
                { state with literal := false } := by
          intro state consistent
          rw [scanLine, lineByte_plain maxlen state return_ newline]
          have consistent' : Consistent maxlen { state with literal := false } :=
            ⟨consistent.idle, consistent.bounded⟩
          by_cases backslash : detab c = charBackslash
          · have joined := joinRest consistent' rfl
            rw [addPiece_set_literal] at joined
            simpa only [backslash, decide_true] using joined
          · have literalOff := addPiece_literal maxlen { state with literal := false }
              (.byte (detab c))
            rw [show physicalLines (detab c :: normalize rest) =
                consHead (.byte (detab c)) (physicalLines (normalize rest)) by
                  simp [physicalLines, newline, backslash],
              scanPieces_consHead maxlen _ linesLeft,
              ← plainRest (consistent'.addPiece room _) literalOff]
            simp only [backslash, decide_false, addPiece_set_literal maxlen state false]
        constructor
        · intro state consistent plain
          rw [plainHere consistent, set_literal_self plain]
        · intro state consistent plain
          have added := consistent.addPiece room (.byte charBackslash)
          have literalOff := (addPiece_literal maxlen state (.byte charBackslash)).trans plain
          have here := @plainHere { addPiece maxlen state (.byte charBackslash) with
            literal := true } ⟨added.idle, added.bounded⟩
          have same : { addPiece maxlen state (.byte charBackslash) with literal := false } =
            addPiece maxlen state (.byte charBackslash) := set_literal_self literalOff
          refine here.trans ?_
          rw [show physicalLines (charBackslash :: detab c :: normalize rest) =
              consHead (.byte charBackslash) (physicalLines (detab c :: normalize rest)) by
                simp [physicalLines, newline, backslash_plain],
            scanPieces_consHead maxlen _ (physicalLines_ne_nil _)]
          exact congrArg _ same

/-! ## The text of one line -/

/-- What `get_line_from_config` stores for a physical line. -/
def storedText (maxlen : Nat) (line : List Piece) : List UInt8 :=
  (line.foldl (addPiece maxlen) .start).line

/-- A joint past `maxlen` replaces the last byte kept by a blank; the line bears
that if the byte is a blank anyway. -/
def JointsFit (maxlen : Nat) (line : List Piece) : Prop :=
  .joint ∈ (unindent line).drop maxlen →
    ((unindent line).map Piece.value)[maxlen - 1]? = some charBlank

instance (maxlen : Nat) (line : List Piece) : Decidable (JointsFit maxlen line) :=
  inferInstanceAs (Decidable (_ → _))

/-- Leading blanks and joints leave the start of a line as it is. -/
theorem foldl_addPiece_unindent (maxlen : Nat) (line : List Piece) :
    line.foldl (addPiece maxlen) .start = (unindent line).foldl (addPiece maxlen) .start := by
  induction line with
  | nil => rfl
  | cons piece line ih =>
      unfold unindent
      by_cases blank : piece.value = charBlank
      · have skipped : addPiece maxlen .start piece = .start := by
          cases piece with
          | byte c =>
              have isBlank : c = charBlank := blank
              simp [addPiece, LineState.start, isBlank, blank_plain]
          | joint => rfl
        rw [List.foldl_cons, skipped, List.dropWhile_cons_of_pos (by simpa using blank)]
        exact ih
      · rw [List.dropWhile_cons_of_neg (by simpa using blank)]

/-- Nothing of a comment is added. -/
theorem foldl_addPiece_comment (maxlen : Nat) (line : List Piece) {state : LineState}
    (comment : state.comment = true) : line.foldl (addPiece maxlen) state = state := by
  induction line with
  | nil => rfl
  | cons piece line ih =>
      have unchanged : addPiece maxlen state piece = state := by simp [addPiece, comment]
      rw [List.foldl_cons, unchanged, ih]

/-- Once a byte is stored, the rest of the line follows up to `maxlen`. -/
theorem foldl_addPiece_text (maxlen : Nat) (line : List Piece) {state : LineState}
    (outside : state.comment = false) (stored : state.line ≠ [])
    (bounded : state.line.length ≤ maxlen) :
    (line.foldl (addPiece maxlen) state).line =
      if .joint ∈ line.drop (maxlen - state.line.length) then
        (state.line ++ line.map Piece.value).take (maxlen - 1) ++ [charBlank]
      else (state.line ++ line.map Piece.value).take maxlen := by
  induction line generalizing state with
  | nil => simp [List.take_of_length_le bounded]
  | cons piece line ih =>
      have positive : 0 < state.line.length := List.length_pos_iff.mpr stored
      rw [List.foldl_cons]
      by_cases room : state.line.length < maxlen
      · have added : addPiece maxlen state piece =
            { state with line := state.line ++ [piece.value] } := by
          simp [addPiece, outside, stored, room]
        have next : maxlen - state.line.length =
          maxlen - (state.line ++ [piece.value]).length + 1 := by simp; omega
        have rest := @ih { state with line := state.line ++ [piece.value] } outside
          (by simp) (by simp; omega)
        rw [added, rest, next, List.drop_succ_cons]
        simp
      · have full : state.line.length = maxlen := by omega
        cases piece with
        | byte c =>
            have added : addPiece maxlen state (.byte c) = state := by
              simp [addPiece, outside, stored, room]
            rw [added, ih outside stored bounded]
            simp [full, List.take_append]
        | joint =>
            have added : addPiece maxlen state .joint =
                { state with line := state.line.dropLast ++ [charBlank] } := by
              simp [addPiece, outside, stored, room]
            have length : (state.line.dropLast ++ [charBlank]).length = maxlen := by
              simp; omega
            have rest := @ih { state with line := state.line.dropLast ++ [charBlank] }
              outside (by simp) (by simp; omega)
            rw [added, rest]
            simp only [length, full, Nat.sub_self, List.drop_zero, List.mem_cons_self, if_true]
            have kept : (state.line ++ List.map Piece.value (.joint :: line)).take (maxlen - 1) =
                state.line.dropLast := by
              rw [List.take_append_of_le_length (by omega), List.dropLast_eq_take, full]
            rw [kept]
            split
            · rw [List.take_append_of_le_length (by simp; omega),
                List.take_append_of_le_length (by simp; omega),
                List.take_of_length_le (by simp; omega)]
            · rw [List.take_append_of_le_length (by omega),
                List.take_of_length_le (by omega)]

/-- A blank line or a comment stores nothing. -/
theorem storedText_of_not_counts (maxlen : Nat) {line : List Piece} (skipped : ¬ Counts line) :
    storedText maxlen line = [] := by
  rw [storedText, foldl_addPiece_unindent]
  cases shape : unindent line with
  | nil => rfl
  | cons piece rest =>
      have hash : piece.value = charHash := by
        by_contra notHash
        exact skipped ⟨piece, rest, shape, notHash⟩
      cases piece with
      | joint => exact absurd hash (by decide)
      | byte c =>
          have isHash : c = charHash := hash
          have begun : addPiece maxlen .start (.byte c) =
              { LineState.start with comment := true } := by
            simp [addPiece, LineState.start, isHash]
          rw [List.foldl_cons, begun, foldl_addPiece_comment maxlen rest rfl]
          rfl

/-- A line that counts is stored, but for a joint past `maxlen`. -/
theorem storedText_of_counts {maxlen : Nat} (room : 1 ≤ maxlen) {line : List Piece}
    (counts : Counts line) :
    storedText maxlen line =
      if .joint ∈ (unindent line).drop maxlen then
        ((unindent line).map Piece.value).take (maxlen - 1) ++ [charBlank]
      else ((unindent line).map Piece.value).take maxlen := by
  obtain ⟨piece, rest, shape, notHash⟩ := counts
  have notBlank : piece.value ≠ charBlank := by
    have first := List.head?_dropWhile_not (fun piece : Piece => piece.value = charBlank) line
    rw [← unindent, shape] at first
    simpa using first
  rw [storedText, foldl_addPiece_unindent, shape]
  cases piece with
  | joint => exact absurd rfl notBlank
  | byte c =>
      have begun : addPiece maxlen .start (.byte c) = { LineState.start with line := [c] } := by
        have notHash' : c ≠ charHash := notHash
        have notBlank' : c ≠ charBlank := notBlank
        simp [addPiece, LineState.start, notHash', notBlank']
      obtain ⟨before, rfl⟩ : ∃ before, maxlen = before + 1 := ⟨maxlen - 1, by omega⟩
      rw [List.foldl_cons, begun, foldl_addPiece_text (before + 1) rest rfl (by simp) (by simp)]
      simp [Piece.value]

/-- A line that counts is stored as some text. -/
theorem storedText_ne_nil {maxlen : Nat} (room : 2 ≤ maxlen) {line : List Piece}
    (counts : Counts line) : storedText maxlen line ≠ [] := by
  rw [storedText_of_counts (by omega) counts]
  split
  · simp
  · obtain ⟨piece, rest, shape, _⟩ := counts
    rw [shape]
    simp
    omega

/-- A line is stored as its text exactly if its joints fit. -/
theorem storedText_eq_lineText_iff {maxlen : Nat} (room : 1 ≤ maxlen) {line : List Piece}
    (counts : Counts line) :
    storedText maxlen line = lineText maxlen line ↔ JointsFit maxlen line := by
  rw [storedText_of_counts room counts, lineText, JointsFit]
  split
  next displaced =>
    have long : maxlen - 1 < ((unindent line).map Piece.value).length := by
      have := List.length_pos_of_mem displaced
      simp at this ⊢
      omega
    have split : ((unindent line).map Piece.value).take maxlen =
        ((unindent line).map Piece.value).take (maxlen - 1) ++
          [((unindent line).map Piece.value)[maxlen - 1]] := by
      rw [List.take_append_getElem long, Nat.sub_add_cancel room]
    rw [split, List.append_cancel_left_eq, List.getElem?_eq_getElem long]
    simp [displaced, eq_comm]
  next fits => simp [fits]

/-! ## Successive calls -/

/-- The last physical line is blank or a comment, so no call meets the end of the
data with a line in hand. -/
def LastLineSkipped (lines : List (List Piece)) : Prop := ∀ last ∈ lines.getLast?, ¬ Counts last

instance (lines : List (List Piece)) : Decidable (LastLineSkipped lines) :=
  inferInstanceAs (Decidable (∀ last ∈ lines.getLast?, ¬ Counts last))

/-- The last line of several is the last one behind the first. -/
private theorem getLast?_tail {line : List Piece} {lines : List (List Piece)}
    (nonempty : lines ≠ []) : (line :: lines).getLast? = lines.getLast? := by
  cases lines with
  | nil => exact absurd rfl nonempty
  | cons next lines => simp [List.getLast?_cons]

/-- A line that stores nothing is passed over, any other one is stored. -/
private theorem scanPieces_cons {maxlen : Nat} {line : List Piece} {lines : List (List Piece)}
    (nonempty : lines ≠ []) :
    scanPieces maxlen (line :: lines) .start =
      if storedText maxlen line = [] then scanPieces maxlen lines .start
      else (storedText maxlen line, some lines) := by
  match lines with
  | next :: lines => rfl

/-- With nothing but skipped lines left, a call returns 0. -/
theorem scanPieces_skipped (maxlen : Nat) {lines : List (List Piece)}
    (skipped : lines.filter Counts = []) : scanPieces maxlen lines .start = ([], none) := by
  induction lines with
  | nil => rfl
  | cons line lines ih =>
      obtain ⟨notCounts, restSkipped⟩ : ¬ Counts line ∧ lines.filter Counts = [] := by
        simpa using skipped
      have empty := storedText_of_not_counts maxlen notCounts
      by_cases nonempty : lines = []
      · subst nonempty
        exact congrArg (·, none) empty
      · rw [scanPieces_cons nonempty, if_pos empty, ih restSkipped]

/-- Otherwise it returns the first line that counts, provided the last does not. -/
theorem scanPieces_counted {maxlen : Nat} (room : 2 ≤ maxlen) {lines counted : List (List Piece)}
    {line : List Piece} (lastSkipped : LastLineSkipped lines)
    (found : lines.filter Counts = line :: counted) :
    ∃ rest, scanPieces maxlen lines .start = (storedText maxlen line, some rest) ∧
      rest.filter Counts = counted ∧ LastLineSkipped rest := by
  induction lines with
  | nil => simp at found
  | cons first lines ih =>
      by_cases nonempty : lines = []
      · subst nonempty
        have skipped : ¬ Counts first := lastSkipped first (by simp)
        simp [skipped] at found
      have restSkipped : LastLineSkipped lines := by
        simpa only [LastLineSkipped, getLast?_tail nonempty] using lastSkipped
      rw [scanPieces_cons nonempty]
      by_cases counts : Counts first
      · obtain ⟨rfl, rest⟩ : first = line ∧ lines.filter Counts = counted := by
          simpa [counts] using found
        rw [if_neg (storedText_ne_nil room counts)]
        exact ⟨lines, rfl, rest, restSkipped⟩
      · rw [if_pos (storedText_of_not_counts maxlen counts)]
        exact ih restSkipped (by simpa [counts] using found)

/-- When the last line counts, every call returns a line. -/
theorem scanPieces_unterminated {maxlen : Nat} (room : 2 ≤ maxlen) {lines : List (List Piece)}
    {last : List Piece} (isLast : lines.getLast? = some last) (counts : Counts last) :
    (scanPieces maxlen lines .start).1 ≠ [] ∧
      ∀ rest, (scanPieces maxlen lines .start).2 = some rest → rest.getLast? = some last := by
  induction lines with
  | nil => simp at isLast
  | cons line lines ih =>
      by_cases nonempty : lines = []
      · subst nonempty
        obtain rfl : line = last := by simpa using isLast
        exact ⟨storedText_ne_nil room counts, fun rest left => by cases left⟩
      · rw [getLast?_tail nonempty] at isLast
        rw [scanPieces_cons nonempty]
        split
        · exact ih isLast
        next stored =>
          refine ⟨stored, fun rest left => ?_⟩
          obtain rfl : lines = rest := Option.some.inj left
          exact isLast

/-- The physical lines from the cursor on. -/
def linesFrom (file : List UInt8) (clnIndex : Nat) : List (List Piece) :=
  physicalLines (normalize (file.drop clnIndex))

/-- What is left is the end of the file. -/
private theorem scanLine_suffix {maxlen : Nat} {bytes rest : List UInt8} {state : LineState}
    (left : (scanLine maxlen bytes state).2 = some rest) : rest <:+ bytes := by
  induction bytes generalizing state with
  | nil => simp [scanLine] at left
  | cons c bytes ih =>
      rw [scanLine] at left
      split at left
      · obtain rfl : bytes = rest := by simpa using left
        exact List.suffix_cons c bytes
      · exact (ih left).trans (List.suffix_cons c bytes)

/-- A call answers as `scanPieces` on the lines from the cursor on. -/
theorem getLineFromConfig_file {maxlen : Nat} (room : 2 ≤ maxlen) (file : List UInt8)
    (clnIndex : Nat) :
    ∃ next, getLineFromConfig maxlen (.file file clnIndex) =
        ((scanPieces maxlen (linesFrom file clnIndex) .start).1, .file file next) ∧
      match (scanPieces maxlen (linesFrom file clnIndex) .start).2 with
      | none => next = 0
      | some lines => linesFrom file next = lines := by
  have answer := (scanLine_pieces room (file.drop clnIndex)).1 (consistent_start maxlen) rfl
  rw [linesFrom, ← answer, scannedLines, getLineFromConfig]
  rcases scanned : scanLine maxlen (file.drop clnIndex) .start with ⟨text, _ | rest⟩
  · exact ⟨0, rfl, rfl⟩
  · have suffix : rest <:+ file :=
      (scanLine_suffix (congrArg Prod.snd scanned)).trans (List.drop_suffix _ _)
    exact ⟨file.length - rest.length, rfl, by
      dsimp only [Option.map_some]
      rw [linesFrom, ← List.suffix_iff_eq_drop.mp suffix]⟩

/-- A file whose last line does not count is read to its end. -/
theorem lineCalls_terminated {maxlen : Nat} (room : 2 ≤ maxlen) (file : List UInt8)
    {counted : List (List Piece)} {clnIndex : Nat}
    (lastSkipped : LastLineSkipped (linesFrom file clnIndex))
    (left : (linesFrom file clnIndex).filter Counts = counted) :
    lineCalls maxlen (counted.length + 1) (.file file clnIndex) =
      counted.map (storedText maxlen) ++ [[]] := by
  induction counted generalizing clnIndex with
  | nil =>
      obtain ⟨next, answer, _⟩ := getLineFromConfig_file room file clnIndex
      rw [scanPieces_skipped maxlen left] at answer
      simp [lineCalls, answer]
  | cons line counted ih =>
      obtain ⟨next, answer, reached⟩ := getLineFromConfig_file room file clnIndex
      obtain ⟨rest, found, restLeft, restSkipped⟩ := scanPieces_counted room lastSkipped left
      rw [found] at answer reached
      subst reached
      simp only [List.length_cons, List.map_cons, List.cons_append]
      rw [lineCalls, answer, ← ih restSkipped restLeft]

/-- A file whose last line counts is read over and over. -/
theorem lineCalls_unterminated {maxlen : Nat} (room : 2 ≤ maxlen) {file : List UInt8}
    {last : List Piece} (isLast : (linesFrom file 0).getLast? = some last) (counts : Counts last)
    (calls : Nat) {clnIndex : Nat} (here : (linesFrom file clnIndex).getLast? = some last) :
    [] ∉ lineCalls maxlen calls (.file file clnIndex) := by
  induction calls generalizing clnIndex with
  | zero => simp [lineCalls]
  | succ calls ih =>
      obtain ⟨next, answer, reached⟩ := getLineFromConfig_file room file clnIndex
      obtain ⟨stored, onward⟩ := scanPieces_unterminated room here counts
      have nextLast : (linesFrom file next).getLast? = some last := by
        cases left : (scanPieces maxlen (linesFrom file clnIndex) .start).2 with
        | none =>
            rw [left] at reached
            rwa [reached]
        | some lines =>
            rw [left] at reached
            rw [reached]
            exact onward lines left
      rw [lineCalls, answer, List.mem_cons, not_or]
      exact ⟨Ne.symm stored, ih nextLast⟩

/-! ## Each line once -/

/-- `cmain` sees every logical line once, in order, and then a 0. -/
def ReadsOnce (file : List UInt8) : Prop :=
  let lines := logicalLines newHeapsize file
  lineCalls newHeapsize (lines.length + 1) (.file file 0) = lines ++ [[]]

instance (file : List UInt8) : Decidable (ReadsOnce file) :=
  inferInstanceAs (Decidable (_ = _))

/-- The buffered file is read once, line by line, exactly when its last physical
line does not count and no line that counts has a join displacing a byte at the
end of the command line buffer. -/
theorem readsOnce_iff (file : List UInt8) :
    ReadsOnce file ↔
      LastLineSkipped (physicalLines (normalize file)) ∧
        ∀ line ∈ countedLines file, JointsFit newHeapsize line := by
  have room : 2 ≤ newHeapsize := by decide
  have whole : linesFrom file 0 = physicalLines (normalize file) := by
    rw [linesFrom, List.drop_zero]
  have lineCount : (logicalLines newHeapsize file).length = (countedLines file).length :=
    List.length_map _
  unfold ReadsOnce
  simp only [lineCount]
  by_cases lastSkipped : LastLineSkipped (physicalLines (normalize file))
  · rw [lineCalls_terminated room file (by rwa [whole]) (by rw [whole]; rfl),
      List.append_cancel_right_eq, logicalLines, List.map_inj_left]
    refine ⟨fun same => ⟨lastSkipped, fun line counted => ?_⟩, fun fits line counted => ?_⟩
    all_goals
      have counts : Counts line := by simpa using (List.mem_filter.mp counted).2
    · exact (storedText_eq_lineText_iff (by decide) counts).mp (same line counted)
    · exact (storedText_eq_lineText_iff (by decide) counts).mpr (fits.2 line counted)
  · obtain ⟨last, isLast, counts⟩ : ∃ last, (linesFrom file 0).getLast? = some last ∧
        Counts last := by
      simpa [LastLineSkipped, whole] using lastSkipped
    have never := lineCalls_unterminated room isLast counts ((countedLines file).length + 1) isLast
    constructor
    · intro once
      rw [once] at never
      simp at never
    · exact fun fits => absurd fits.1 lastSkipped

/-- A file of one letter without a newline is read again on every call. -/
theorem readsOnce_needs_newline : ¬ ReadsOnce [0x61] := by decide

end GrubLegacy.Menu
