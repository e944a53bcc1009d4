import GrubLegacy.Console.LineBounds

/-!
# The buffers the line editor is given

A caller's buffer is kept exactly if the terminal can edit and, where the line is edited
with readline, the buffer is as long as an entry of the history. Neither is what the
caller's limit says: a terminal that cannot edit has no limit at all, and a history entry
is fetched whole.
-/

namespace GrubLegacy.Console

open Base

def enter : KeyPress := press 10

def letterA : KeyPress := press 97

def controlP : KeyPress := press 16

/-- Without an editor every character goes to the next place, wherever that is. -/
theorem gather_letters (secure : Bool) (workspace : Workspace) (count : Nat)
    (cmdline : Buffer) (place : Nat) :
    ∃ typed : Buffer,
      gather secure workspace cmdline place (List.replicate count letterA ++ [enter]) =
        .returned 0 workspace (typed.set (place + count) 0) := by
  induction count generalizing cmdline place with
  | zero => exact ⟨cmdline, rfl⟩
  | succ count ih =>
      obtain ⟨typed, result⟩ := ih (cmdline.set place 97) (place + 1)
      refine ⟨typed, ?_⟩
      have letter : newline letterA.code = false := by decide
      have printable : 32 ≤ letterA.code ∧ letterA.code ≤ 126 ∧
          (letterA.code ≠ space ∨ place ≠ 0) := ⟨by decide, by decide, Or.inl (by decide)⟩
      rw [List.replicate_succ, List.cons_append, gather, if_neg (by rw [letter]; decide),
        if_neg (fun escape => absurd escape.2 (by decide)), if_pos printable]
      rw [show place + (count + 1) = place + 1 + count by omega]
      exact result

/-- The text of one letter. -/
theorem strlen_letter : strlen (areaOf [97]) 0 = 1 := by
  decide

/-- A letter typed at the end of the line makes it one longer. -/
theorem clInsert_letter {maxlen : Nat} {line : Line} (last : line.lpos = line.llen)
    (fits : line.llen + 1 < maxlen) :
    clInsert maxlen line (areaOf [97]) 0 =
      { line with
        scratch := copyIn line.scratch line.lpos (areaOf [97]) 0 2
        llen := line.llen + 1
        lpos := line.lpos + 1 } := by
  rw [clInsert, strlen_letter, if_pos fits, if_pos last]

/-- Letters typed at the end of the line, as many as fit the limit. -/
theorem editLoop_letters (request : Request) (maxlen : Nat) (secure : Bool) (count : Nat)
    (keys : List KeyPress) {line : Line} (last : line.lpos = line.llen)
    (fits : line.llen + count < maxlen) :
    ∃ typed : Line, typed.llen = line.llen + count ∧
      (0 < line.llen → typed.scratch 0 = line.scratch 0) ∧
      (line.llen = 0 → 0 < count → typed.scratch 0 = 97) ∧
      editLoop request maxlen secure line (List.replicate count letterA ++ keys) =
        editLoop request maxlen secure typed keys := by
  induction count generalizing line with
  | zero => exact ⟨line, rfl, fun _ => rfl, fun _ some_ => absurd some_ (by decide), rfl⟩
  | succ count ih =>
      have inserted := @clInsert_letter maxlen line last (by omega)
      have unbound : (if request.readline then readlineKey maxlen line letterA else line) =
          line := by
        split <;> rfl
      have step : plainKey maxlen secure line letterA.code =
          some (clInsert maxlen line (areaOf [97]) 0) := rfl
      have letter : newline letterA.code = false := by decide
      obtain ⟨typed, length, first, firstTyped, rest⟩ :=
        @ih (clInsert maxlen line (areaOf [97]) 0) (by
          rw [inserted]
          exact congrArg (· + 1) last) (by
          rw [inserted]
          dsimp only
          omega)
      refine ⟨typed, ?_, ?_, ?_, ?_⟩
      · rw [length, inserted]
        dsimp only
        omega
      · intro begun
        rw [first (by rw [inserted]; exact Nat.succ_pos _), inserted]
        exact copyIn_outside (Or.inl (by omega))
      · intro empty _
        rw [first (by rw [inserted]; exact Nat.succ_pos _), inserted]
        refine Eq.trans (copyIn_inside (by omega) (by omega)) ?_
        rw [last, empty]
        rfl
      · rw [List.replicate_succ, List.cons_append, editLoop, if_neg (by rw [letter]; decide),
          unbound]
        dsimp only
        rw [step]
        exact rest

/-- The stores into the caller's buffer so far. -/
def Outcome.stores : Outcome → List (Nat × Nat)
  | .waiting _ buffer => buffer.stores
  | .returned _ _ buffer => buffer.stores

/-- In a safe call every store is in the buffer. -/
theorem Safe.within {room : Nat} {outcome : Outcome} (safe : Safe room outcome)
    {store : Nat × Nat} (member : store ∈ outcome.stores) : store.1 + store.2 ≤ room := by
  cases outcome with
  | waiting workspace buffer => exact safe store member
  | returned value workspace buffer => exact safe.1 store member

/-- A line that does not begin with a space is stored whole. -/
theorem finish_stores (request : Request) {line : Line} (text : line.scratch 0 ≠ space) :
    (0, line.llen + 1) ∈ (finish request line).outcome.stores := by
  have first : (if request.echoChar = 0 then
      spanLength (· == space) line.scratch addressSpace 0 else 0) = 0 := by
    split
    · apply Nat.le_zero.mp
      exact @spanLength_le (· == space) line.scratch addressSpace 0 0 (by
        rw [Nat.add_zero]
        exact beq_false_of_ne text)
    · rfl
  rw [finish, first]
  split <;> exact List.mem_cons_self

/-- A history of one entry, the longest there can be. -/
def longHistory : Workspace where
  scratch position :=
    if historySlot 0 ≤ position ∧ position < historySlot 0 + (maxCmdline - 1) then 97 else 0
  numHistory := 1
  calls := []

/-- The line of the long history is full, -/
theorem longHistory_text {distance : Nat} (inside : distance < maxCmdline - 1) :
    longHistory.scratch (historySlot 0 + distance) = 97 :=
  if_pos ⟨Nat.le_add_right _ _, Nat.add_lt_add_left inside _⟩

/-- and ends in a NUL. -/
theorem longHistory_nul : longHistory.scratch (historySlot 0 + (maxCmdline - 1)) = 0 := by
  rw [longHistory]
  dsimp only
  rw [if_neg (fun inside => Nat.lt_irrefl _ inside.2)]

/-- So it is a history. -/
theorem histories_longHistory : Histories longHistory where
  few := by decide
  ends no known := by
    obtain rfl : no = 0 := Nat.lt_one_iff.mp known
    exact ⟨maxCmdline - 1, Nat.le_refl _, longHistory_nul⟩

/-- An empty buffer. -/
def emptyBuffer : Buffer where
  bytes _ := 0
  stores := []

/-- The empty buffer has an empty string. -/
theorem strlen_empty (start : Nat) : strlen emptyBuffer.bytes start = 0 :=
  Nat.le_zero.mp (strlen_le rfl)

/-- The command before is fetched whole into an empty line. -/
theorem previousCommand_long (request : Request) :
    ∃ fetched : Line,
      previousCommand (startLine request longHistory emptyBuffer) = fetched ∧
      fetched.llen = maxCmdline - 1 ∧ fetched.scratch 0 = 97 := by
  have history : historyBuf = 2 * maxCmdline := rfl
  have cut : ¬ (maxCmdline < request.maxlen ∧ maxCmdline ≤ strlen emptyBuffer.bytes 0) := by
    rw [strlen_empty]
    exact fun long => absurd long.2 (by decide)
  have ends : EndsWithin longHistory.scratch (historySlot 0) (maxCmdline - 1) :=
    histories_longHistory.ends 0 (by decide)
  generalize begun : startLine request longHistory emptyBuffer = line
  have scratch : line.scratch = strcpy longHistory.scratch 0 emptyBuffer.bytes 0 := by
    rw [← begun, startLine]
    dsimp only
    rw [if_neg cut]
  have known : line.numHistory = 1 := by
    rw [← begun]
    rfl
  have before : line.history = -1 := by
    rw [← begun]
    rfl
  have kept : ∀ position, historyBuf ≤ position →
      line.scratch position = longHistory.scratch position := by
    intro position above
    rw [scratch]
    apply copyIn_outside
    rw [strlen_empty]
    have large : 1 ≤ historyBuf := by decide
    omega
  have slot (distance : Nat) : line.scratch (historySlot 0 + distance) =
      longHistory.scratch (historySlot 0 + distance) :=
    kept _ (by rw [historySlot]; omega)
  have slotLength : strlen line.scratch (historySlot 0) = maxCmdline - 1 := by
    apply strlen_eq (by decide)
    · intro distance inside
      rw [slot, longHistory_text inside]
      decide
    · rw [slot, longHistory_nul]
  have found (workspace : Workspace) (one : workspace.numHistory = 1) :
      getHistory workspace (-1 + 1) = some (historySlot 0) := by
    rw [getHistory, one]
    rfl
  rw [previousCommand, before, if_pos (by decide)]
  dsimp only
  rw [found _ known]
  refine ⟨_, rfl, ?_, ?_⟩
  · exact (strlen_strcpy (ends.congr fun distance _ => slot distance) (by decide)).trans slotLength
  · dsimp only [recallLine, strcpy]
    rw [copyIn_inside (Nat.le_refl _) (by omega), Nat.sub_self, slot]
    exact longHistory_text (by decide)

/-- Recalling the longest entry stores as many bytes as an entry has. -/
theorem recalled_stores {request : Request} (readline : request.readline = true)
    (secure : Bool) :
    (0, maxCmdline) ∈
      (realGetCmdline request secure longHistory emptyBuffer
        [controlP, enter]).outcome.stores := by
  obtain ⟨fetched, fetches, length, first⟩ := previousCommand_long request
  have bound : (if request.readline then
      readlineKey (min request.maxlen maxCmdline) (startLine request longHistory emptyBuffer)
        controlP
      else startLine request longHistory emptyBuffer) = fetched := by
    rw [if_pos readline, ← fetches]
    rfl
  have unprinted : plainKey (min request.maxlen maxCmdline) secure fetched controlP.code =
      some fetched := rfl
  have stored := @finish_stores request fetched (by rw [first]; decide)
  rw [realGetCmdline, editLoop, if_neg (by decide), bound]
  dsimp only
  rw [unprinted]
  dsimp only
  rw [editLoop, if_pos (by decide)]
  rw [length] at stored
  exact stored

/-- A buffer as long as an entry of the history is long enough with readline. -/
theorem readline_safe {request : Request} {secure : Bool} {workspace : Workspace}
    {bytes : Area} {room : Nat} (histories : Histories workspace)
    (ends : EndsWithin bytes 0 (maxCmdline - 1)) (enough : maxCmdline ≤ room)
    (keys : List KeyPress) :
    Safe room (realGetCmdline request secure workspace ⟨bytes, []⟩ keys).outcome := by
  have settled := @realGetCmdline_settled (maxCmdline - 1) request workspace ⟨bytes, []⟩ secure
    histories rfl (by decide) ends (Nat.min_le_right _ _) (fun _ => rfl) keys
  exact settled.safe enough

/-- A password stays below its limit. -/
theorem password_safe {secure : Bool} {workspace : Workspace} {bytes : Area}
    (histories : Histories workspace) (empty : bytes 0 = 0) (keys : List KeyPress) :
    Safe 32 (realGetCmdline Caller.passwordRequest secure workspace ⟨bytes, []⟩ keys).outcome := by
  have settled := @realGetCmdline_settled 30 Caller.passwordRequest workspace ⟨bytes, []⟩ secure
    histories rfl (by decide) ⟨0, Nat.zero_le _, empty⟩ (by decide)
    (fun readline => absurd readline (by decide)) keys
  exact settled.safe (by decide)

/-- For every caller: the terminal can edit, and with readline there is room for an
entry of the history, exactly if no history, text or key makes the editor store outside
of the buffer or return without a string in it. -/
theorem getCmdline_safe_iff (caller : Caller) (terminal : Terminal) (secure : Bool) :
    (∀ workspace, Histories workspace → ∀ bytes, caller.Passes bytes → ∀ keys,
        Safe caller.room
          (getCmdline caller.request terminal secure workspace ⟨bytes, []⟩ keys)) ↔
      (terminal.noEcho || terminal.noEdit) = false ∧
        (caller.request.readline = true → maxCmdline ≤ caller.room) := by
  constructor
  · intro safe
    have empty : caller.Passes emptyBuffer.bytes := by
      cases caller with
      | menuEdit room some_ => exact ⟨0, Nat.zero_le _, rfl⟩
      | menuAppend room some_ => exact ⟨0, Nat.zero_le _, rfl⟩
      | commandLine room some_ => rfl
      | recoveryShell => rfl
      | menuPassword => rfl
      | passwordCommand => rfl
      | md5crypt => rfl
    have edits : (terminal.noEcho || terminal.noEdit) = false := by
      by_contra plain
      obtain ⟨typed, result⟩ :=
        gather_letters secure longHistory caller.room emptyBuffer 0
      have here := safe longHistory histories_longHistory emptyBuffer.bytes empty
        (List.replicate caller.room letterA ++ [enter])
      rw [getCmdline, if_pos ((Bool.not_eq_false _).mp plain)] at here
      have past := (@Safe.within caller.room _ here (0 + caller.room, 1) (by
        erw [result]
        exact List.mem_cons_self))
      dsimp only at past
      omega
    refine ⟨edits, fun readline => ?_⟩
    have here := safe longHistory histories_longHistory emptyBuffer.bytes empty
      [controlP, enter]
    rw [getCmdline, if_neg (by rw [edits]; decide)] at here
    have stored := here.within (recalled_stores readline secure)
    simpa using stored
  · rintro ⟨edits, room⟩ workspace histories bytes passes keys
    rw [getCmdline, if_neg (by rw [edits]; decide)]
    cases caller with
    | commandLine _ _ => exact readline_safe histories ⟨0, Nat.zero_le _, passes⟩ (room rfl) keys
    | recoveryShell => exact absurd (room rfl) (by decide)
    | menuEdit _ _ => exact readline_safe histories (passes.mono (by omega)) (room rfl) keys
    | menuAppend _ _ => exact readline_safe histories (passes.mono (by omega)) (room rfl) keys
    | menuPassword => exact password_safe histories passes keys
    | passwordCommand => exact password_safe histories passes keys
    | md5crypt => exact password_safe histories passes keys

/-- The recovery shell, on a terminal that can edit: 128 characters fill its buffer and
their NUL is stored behind it. -/
theorem getCmdline_overruns :
    ¬ ∀ (caller : Caller) (terminal : Terminal) (secure : Bool) (workspace : Workspace),
        Histories workspace → ∀ bytes, caller.Passes bytes → ∀ keys,
        Safe caller.room
          (getCmdline caller.request terminal secure workspace ⟨bytes, []⟩ keys) := by
  intro safe
  have empty : Histories ⟨fun _ => 0, 0, []⟩ :=
    { few := Nat.zero_le _, ends := fun no known => absurd known (Nat.not_lt_zero no) }
  have nothing : Caller.Passes emptyBuffer.bytes .recoveryShell := rfl
  -- the keys keep a name, or the run of the editor is unfolded here
  obtain ⟨keys, isKeys⟩ : ∃ keys, keys = List.replicate 128 letterA ++ [enter] := ⟨_, rfl⟩
  have here := safe .recoveryShell ⟨false, false⟩ true ⟨fun _ => 0, 0, []⟩ empty emptyBuffer.bytes
    nothing keys
  rw [Caller.room, Caller.request, getCmdline, if_neg (by decide)] at here
  have begun : startLine Caller.commandRequest ⟨fun _ => 0, 0, []⟩ emptyBuffer =
      ⟨⟨strcpy (fun _ => 0) 0 (fun _ => 0) 0, 0, []⟩, emptyBuffer, 0, 0, -1⟩ := by
    have none_ : strlen emptyBuffer.bytes 0 = 0 := strlen_empty 0
    rw [startLine, none_]
    rfl
  obtain ⟨typed, length, -, first, result⟩ :=
    @editLoop_letters Caller.commandRequest (min 2048 maxCmdline) true 128 [enter]
      (startLine Caller.commandRequest ⟨fun _ => 0, 0, []⟩ emptyBuffer) (by rw [begun])
      (by rw [begun]; decide)
  have text : typed.scratch 0 = 97 := first (by rw [begun]) (by decide)
  have stored := @finish_stores Caller.commandRequest typed (by rw [text]; decide)
  rw [length, begun] at stored
  have ends : realGetCmdline Caller.commandRequest true ⟨fun _ => 0, 0, []⟩ emptyBuffer keys =
      finish Caller.commandRequest typed := by
    rw [isKeys, realGetCmdline]
    refine Eq.trans result ?_
    rw [editLoop, if_pos (by decide)]
  rw [show (⟨emptyBuffer.bytes, []⟩ : Buffer) = emptyBuffer from rfl, ends] at here
  exact absurd (here.within stored) (by decide)

end GrubLegacy.Console
