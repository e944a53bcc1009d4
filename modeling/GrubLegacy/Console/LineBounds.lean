import GrubLegacy.Console.LineEditor

/-!
# Where the line editor stores

While a line is edited its working buffer ends within a limit, the entries of the
history end in their slots and the caller's buffer holds a string of the same limit.
-/

namespace GrubLegacy.Console

open Base

/-- Every entry of the history is a string in its own slot. -/
structure Histories (workspace : Workspace) : Prop where
  few : workspace.numHistory ≤ historySize
  ends : ∀ no < workspace.numHistory,
    EndsWithin workspace.scratch (historySlot no) (maxCmdline - 1)

/-- What the editor does to what lasts: it writes below HISTORY_BUF, and it adds lines to
the history, before an entry or after the last. -/
inductive Evolves (start : Workspace) : Workspace → Prop where
  | unchanged : Evolves start start
  | edited {workspace : Workspace} {scratch : Area} (earlier : Evolves start workspace)
      (same : ∀ position, historyBuf ≤ position →
        scratch position = workspace.scratch position) :
      Evolves start { workspace with scratch := scratch }
  | added {workspace : Workspace} {source : Area} {no : Nat} (earlier : Evolves start workspace)
      (ends : EndsWithin source 0 (maxCmdline - 1)) (known : no ≤ workspace.numHistory) :
      Evolves start (addHistory workspace source no)

/-- What holds of the editor between two keys. -/
structure Edits (start : Workspace) (limit : Nat) (line : Line) : Prop where
  place : line.lpos ≤ line.llen
  short : line.llen ≤ limit
  ended : line.scratch line.llen = 0
  histories : Histories line.toWorkspace
  evolved : Evolves start line.toWorkspace
  index : -1 ≤ line.history ∧ line.history < line.numHistory
  stored : ∀ store ∈ line.cmdline.stores, store.1 + store.2 ≤ limit + 1
  saved : EndsWithin line.cmdline.bytes 0 limit

/-- All stores kept within the buffer. -/
def Within (room : Nat) (buffer : Buffer) : Prop :=
  ∀ store ∈ buffer.stores, store.1 + store.2 ≤ room

instance (room : Nat) (buffer : Buffer) : Decidable (Within room buffer) :=
  inferInstanceAs (Decidable (∀ store ∈ buffer.stores, store.1 + store.2 ≤ room))

/-- The buffer was kept, and there is a string in it when the caller goes on. -/
def Safe (room : Nat) : Outcome → Prop
  | .waiting _ buffer => Within room buffer
  | .returned _ _ buffer => Within room buffer ∧ EndsWithin buffer.bytes 0 (room - 1)

section History

variable {workspace : Workspace}

/-- The history does not depend on what is below HISTORY_BUF. -/
theorem Histories.frame (histories : Histories workspace) {scratch : Area}
    (same : ∀ position, historyBuf ≤ position → scratch position = workspace.scratch position) :
    Histories { workspace with scratch := scratch } where
  few := histories.few
  ends no known := (histories.ends no known).congr fun distance _ =>
    same _ (by rw [historySlot]; omega)

/-- A line of the history is stored behind the command line. -/
theorem addHistory_below {source : Area} {no position : Nat} (below : position < historyBuf) :
    (addHistory workspace source no).scratch position = workspace.scratch position := by
  have slot : historyBuf ≤ historySlot no := Nat.le_add_right _ _
  have next : historyBuf ≤ historySlot (no + 1) := Nat.le_add_right _ _
  dsimp only [addHistory, strcpy]
  rw [copyIn_outside (Or.inl (by omega)), copyIn_outside (Or.inl (by omega))]

/-- The entries before the new one stay, those after it move up by one slot. -/
theorem Histories.add (histories : Histories workspace) {source : Area} {no : Nat}
    (ends : EndsWithin source 0 (maxCmdline - 1)) (known : no ≤ workspace.numHistory) :
    Histories (addHistory workspace source no) where
  few := by
    have few := histories.few
    dsimp only [addHistory]
    split <;> omega
  ends := by
    intro other otherKnown
    have bounded : other ≤ workspace.numHistory := by
      dsimp only [addHistory] at otherKnown
      split at otherKnown <;> omega
    have length := ends.strlen_le
    rw [maxCmdline] at length
    rcases Nat.lt_trichotomy other no with before | here | after
    · apply (histories.ends other (by omega)).congr
      intro distance near
      dsimp only [addHistory, strcpy, historySlot, maxCmdline] at near ⊢
      rw [copyIn_outside (Or.inl (by omega)), copyIn_outside (Or.inl (by omega))]
    · subst here
      refine ⟨strlen source 0, ends.strlen_le, ?_⟩
      exact ends.strcpy (by decide)
    · obtain ⟨distance, near, nul⟩ := histories.ends (other - 1) (by omega)
      refine ⟨distance, near, ?_⟩
      dsimp only [addHistory, strcpy, historySlot, maxCmdline] at near nul ⊢
      rw [copyIn_outside (Or.inr (by omega)), copyIn_inside (by omega) (by omega)]
      refine Eq.trans (congrArg workspace.scratch ?_) nul
      omega

end History

section Editing

variable {start : Workspace} {limit maxlen : Nat} {line : Line}

/-- Only the working buffer and the kill buffer change, and the line still ends. -/
theorem Edits.edit (edits : Edits start limit line) {scratch : Area} {llen lpos : Nat}
    (place : lpos ≤ llen) (short : llen ≤ limit) (ended : scratch llen = 0)
    (same : ∀ position, historyBuf ≤ position → scratch position = line.scratch position) :
    Edits start limit { line with scratch := scratch, llen := llen, lpos := lpos } where
  place := place
  short := short
  ended := ended
  histories := edits.histories.frame same
  evolved := edits.evolved.edited same
  index := edits.index
  stored := edits.stored
  saved := edits.saved

/-- The cursor may be anywhere in the line. -/
theorem Edits.move (edits : Edits start limit line) {lpos : Nat} (place : lpos ≤ line.llen) :
    Edits start limit { line with lpos := lpos } :=
  edits.edit place edits.short edits.ended fun _ _ => rfl

/-- Moving back is an edit. -/
theorem Edits.clBackward (edits : Edits start limit line) (count : Nat) :
    Edits start limit (clBackward line count) :=
  edits.move (Nat.le_trans (Nat.sub_le _ _) edits.place)

/-- An insertion that would reach the limit is refused. -/
theorem Edits.clInsert (edits : Edits start limit line) (low : limit < maxCmdline)
    (bound : maxlen ≤ limit + 1) (source : Area) (place : Nat) :
    Edits start limit (clInsert maxlen line source place) := by
  rw [Console.clInsert]
  by_cases fits : line.llen + strlen source place < maxlen
  · rw [if_pos fits]
    have cursor := edits.place
    have history : historyBuf = 2 * maxCmdline := rfl
    have nul := @nul_at_strlen source place (by
      rw [addressSpace]
      rw [maxCmdline] at low
      omega)
    apply edits.edit (by omega) (by omega)
    · by_cases last : line.lpos = line.llen
      · rw [if_pos last, copyIn_inside (by omega) (by omega), ← nul]
        congr 1
        omega
      · rw [if_neg last, copyIn_outside (Or.inr (by omega)), copyIn_inside (by omega) (by omega),
          ← edits.ended]
        congr 1
        omega
    · intro position above
      by_cases last : line.lpos = line.llen
      · rw [if_pos last, copyIn_outside (Or.inr (by omega))]
      · rw [if_neg last, copyIn_outside (Or.inr (by omega)), copyIn_outside (Or.inr (by omega))]
  · rw [if_neg fits]
    exact edits

/-- A deletion moves more bytes than the line has, but none from behind the kill
buffer's place reaches the history. -/
theorem Edits.clDelete (edits : Edits start limit line) (low : limit < maxCmdline) {count : Nat}
    (there : line.lpos + count ≤ line.llen) : Edits start limit (clDelete line count) := by
  have short := edits.short
  have history : historyBuf = 2 * maxCmdline := rfl
  apply edits.edit (by omega) (by omega)
  · rw [copyIn_inside (by omega) (by omega), ← edits.ended]
    congr 1
    omega
  · intro position above
    exact copyIn_outside (Or.inr (by omega))

/-- A byte of the line may be overwritten, for it is not the one that ends it. -/
theorem Edits.setByte (edits : Edits start limit line) (low : limit < maxCmdline) {place : Nat}
    (inside : place < line.llen) (byte : UInt8) :
    Edits start limit { line with scratch := setByte line.scratch place byte } := by
  have short := edits.short
  have history : historyBuf = 2 * maxCmdline := rfl
  apply edits.edit edits.place edits.short
  · exact (setByte_other (by omega)).trans edits.ended
  · intro position above
    exact setByte_other (by omega)

/-- An insertion does not make a line shorter. -/
theorem clInsert_longer (maxlen : Nat) (line : Line) (source : Area) (start : Nat) :
    line.llen ≤ (Console.clInsert maxlen line source start).llen := by
  rw [Console.clInsert]
  split
  · exact Nat.le_add_right _ _
  · exact Nat.le_refl _

/-- An equal character that is found belongs to the line. -/
theorem Edits.equalPos_lt (edits : Edits start limit line) {place : Nat}
    (found : equalPos line.scratch = some place) : place < line.llen := by
  have spaces := @spanLength_before (· == space) line.scratch addressSpace 0 line.llen
    (Nat.zero_le _) (by rw [edits.ended]; rfl)
  have word := @spanLength_before (fun c => isText c && c != equalSign && c != space)
    line.scratch addressSpace _ line.llen spaces (by rw [edits.ended]; rfl)
  rw [Nat.zero_add] at word
  have rest := @spanLength_before (fun c => isText c && c != space && c != equalSign)
    line.scratch addressSpace (afterCommand line.scratch) line.llen word
    (by rw [edits.ended]; rfl)
  dsimp only [equalPos] at found
  split at found
  next sign =>
    obtain rfl := Option.some.inj found
    apply Nat.lt_of_le_of_ne rest
    intro last
    rw [last, edits.ended] at sign
    exact absurd sign (by decide)
  next => exact absurd found (by simp)

/-- A completion is an insertion, with one byte of the line hidden meanwhile. -/
theorem Edits.complete (edits : Edits start limit line) (low : limit < maxCmdline)
    (bound : maxlen ≤ limit + 1) (key : KeyPress) : Edits start limit (complete maxlen line key) := by
  rw [Console.complete]
  cases found : equalPos line.scratch with
  | none =>
      dsimp only
      split
      · exact edits.clInsert low bound _ _
      · exact edits
  | some place =>
      dsimp only
      have inside := edits.equalPos_lt found
      have hidden := edits.setByte low inside space
      split
      · apply (hidden.clInsert low bound _ _).setByte low
        refine Nat.lt_of_lt_of_le ?_ (clInsert_longer maxlen _ _ _)
        exact inside
      · exact hidden.setByte low inside equalSign

/-- A kill to the start is an edit. -/
theorem Edits.killBackward (edits : Edits start limit line) (low : limit < maxCmdline) :
    Edits start limit (killBackward line) := by
  have place := edits.place
  have short := edits.short
  have kill : killBuf = maxCmdline := rfl
  have history : historyBuf = 2 * maxCmdline := rfl
  rw [Console.killBackward]
  split
  · exact edits
  · apply Edits.clDelete _ low
    · dsimp only [Console.clBackward]
      omega
    · apply Edits.clBackward
      apply edits.edit place short
      · rw [setByte_other (by omega), copyIn_outside (Or.inl (by omega))]
        exact edits.ended
      · intro position above
        rw [setByte_other (by omega), copyIn_outside (Or.inr (by omega))]

/-- A kill to the end is an edit. -/
theorem Edits.killForward (edits : Edits start limit line) (low : limit < maxCmdline) :
    Edits start limit (killForward line) := by
  have place := edits.place
  have short := edits.short
  have kill : killBuf = maxCmdline := rfl
  have history : historyBuf = 2 * maxCmdline := rfl
  rw [Console.killForward]
  split
  · exact edits
  · apply Edits.clDelete _ low
    · dsimp only
      omega
    · apply edits.edit place short
      · rw [copyIn_outside (Or.inl (by omega))]
        exact edits.ended
      · intro position above
        exact copyIn_outside (Or.inr (by omega))

/-- A line of the history that is found is in its slot. -/
theorem getHistory_eq_some {workspace : Workspace} {no : Int} {slot : Nat}
    (found : getHistory workspace no = some slot) :
    0 ≤ no ∧ no < workspace.numHistory ∧ slot = historySlot no.toNat := by
  rw [getHistory] at found
  split at found
  · exact absurd found (by simp)
  next inside =>
    obtain rfl := Option.some.inj found
    exact ⟨by omega, by omega, rfl⟩

/-- The working buffer is a string, and no longer than the line. -/
theorem Edits.buffer (edits : Edits start limit line) : EndsWithin line.scratch 0 limit :=
  ⟨line.llen, edits.short, by rw [Nat.zero_add]; exact edits.ended⟩

/-- Keeping the changes of a line is an edit. -/
theorem Edits.keepChanges (edits : Edits start limit line) (low : limit < maxCmdline) :
    Edits start limit (keepChanges line) := by
  rw [Console.keepChanges]
  cases found : getHistory line.toWorkspace line.history with
  | none => exact edits
  | some slot =>
      obtain ⟨first, known, -⟩ := getHistory_eq_some found
      dsimp only
      split
      · have short := edits.short
        have below : line.llen < historyBuf :=
          Nat.lt_trans (Nat.lt_of_le_of_lt short low) (by decide)
        exact {
          place := edits.place
          short := short
          ended := (addHistory_below below).trans edits.ended
          histories := edits.histories.add (edits.buffer.mono (by omega)) (by omega)
          evolved := edits.evolved.added (edits.buffer.mono (by omega)) (by omega)
          index := by
            refine ⟨edits.index.1, ?_⟩
            dsimp only [addHistory]
            split <;> omega
          stored := edits.stored
          saved := edits.saved }
      · exact edits

/-- A line fetched from a string that ends within the limit. -/
theorem Edits.recallLine (edits : Edits start limit line) (low : limit < maxCmdline) {source : Area}
    {place : Nat} (ends : EndsWithin source place limit) :
    Edits start limit (recallLine line source place) := by
  have length := ends.strlen_le
  have small : limit < addressSpace := Nat.lt_trans low (by decide)
  have copied := @strlen_strcpy line.scratch source 0 place limit ends small
  have history : historyBuf = 2 * maxCmdline := rfl
  apply edits.edit (Nat.le_refl _) (by omega)
  · rw [copied]
    have nul := @EndsWithin.strcpy line.scratch source 0 place limit ends small
    rwa [Nat.zero_add] at nul
  · intro position above
    exact copyIn_outside (Or.inr (by omega))

/-- The entries of the history end within the limit where it is as high as it may be. -/
theorem Edits.entry (edits : Edits start limit line) (full : limit + 1 = maxCmdline) {no : Int}
    {slot : Nat} (found : getHistory line.toWorkspace no = some slot) :
    EndsWithin line.scratch slot limit := by
  obtain ⟨first, known, rfl⟩ := getHistory_eq_some found
  apply (edits.histories.ends no.toNat (by omega)).mono
  omega

/-- The working buffer is saved in the caller's. -/
theorem Edits.save (edits : Edits start limit line) (low : limit < maxCmdline) :
    Edits start limit { line with
      cmdline := line.cmdline.copy 0 line.scratch 0 (strlen line.scratch 0 + 1) } := by
  have length := edits.buffer.strlen_le
  exact {
    place := edits.place
    short := edits.short
    ended := edits.ended
    histories := edits.histories
    evolved := edits.evolved
    index := edits.index
    stored := by
      intro store member
      rcases List.mem_cons.mp member with rfl | earlier
      · dsimp only
        omega
      · exact edits.stored store earlier
    saved := by
      refine ⟨strlen line.scratch 0, length, ?_⟩
      exact edits.buffer.strcpy (Nat.lt_trans low (by decide)) }

/-- Going to the line before is an edit, if a whole line fits. -/
theorem Edits.previousCommand (edits : Edits start limit line) (full : limit + 1 = maxCmdline) :
    Edits start limit (previousCommand line) := by
  have low : limit < maxCmdline := by omega
  have kept : Edits start limit (if line.history < 0 then
      { line with cmdline := line.cmdline.copy 0 line.scratch 0 (strlen line.scratch 0 + 1) }
    else Console.keepChanges line) := by
    split
    · exact edits.save low
    · exact edits.keepChanges low
  rw [Console.previousCommand]
  revert kept
  generalize (if line.history < 0 then
      { line with cmdline := line.cmdline.copy 0 line.scratch 0 (strlen line.scratch 0 + 1) }
    else Console.keepChanges line) = saved
  intro kept
  cases found : getHistory saved.toWorkspace (saved.history + 1) with
  | none => exact kept
  | some slot =>
      obtain ⟨first, known, -⟩ := getHistory_eq_some found
      have moved : Edits start limit { saved with history := saved.history + 1 } :=
        { kept with index := ⟨by dsimp only; omega, known⟩ }
      exact moved.recallLine low (kept.entry full found)

/-- Keeping the changes does not move in the history. -/
theorem keepChanges_history (line : Line) : (keepChanges line).history = line.history := by
  rw [keepChanges]
  split
  · rfl
  · split <;> rfl

/-- Going to the line behind is an edit, if a whole line fits. -/
theorem Edits.nextCommand (edits : Edits start limit line) (full : limit + 1 = maxCmdline) :
    Edits start limit (nextCommand line) := by
  have low : limit < maxCmdline := by omega
  rw [Console.nextCommand]
  by_cases first : line.history < 0
  · rw [if_pos first]
    exact edits
  · rw [if_neg first]
    have kept := edits.keepChanges low
    have same := keepChanges_history line
    revert kept same
    generalize Console.keepChanges line = saved
    intro kept same
    have index := kept.index
    have moved : Edits start limit { saved with history := saved.history - 1 } :=
      { kept with index := ⟨by dsimp only; omega, by dsimp only; omega⟩ }
    dsimp only
    cases found : getHistory saved.toWorkspace (saved.history - 1) with
    | none => exact moved.recallLine low kept.saved
    | some slot => exact moved.recallLine low (kept.entry full found)

/-- Every key of the line editor is an edit. -/
theorem Edits.readlineKey (edits : Edits start limit line) (full : limit + 1 = maxCmdline)
    (bound : maxlen ≤ limit + 1) (key : KeyPress) :
    Edits start limit (readlineKey maxlen line key) := by
  have low : limit < maxCmdline := by omega
  have place := edits.place
  rw [Console.readlineKey]
  split
  · exact edits.complete low bound key
  split
  · exact edits.clBackward _
  split
  · exact edits.move (by omega)
  split
  · split
    · exact edits.move (by omega)
    · exact edits
  split
  · split
    · exact edits.clBackward 1
    · exact edits
  split
  · exact edits.killBackward low
  split
  · exact edits.killForward low
  split
  · exact edits.clInsert low bound _ _
  split
  · exact edits.previousCommand full
  split
  · exact edits.nextCommand full
  · exact edits

/-- Every plain key that stays in the editor is an edit. -/
theorem Edits.plainKey (edits : Edits start limit line) (low : limit < maxCmdline)
    (bound : maxlen ≤ limit + 1) {secure : Bool} {code : UInt8} {next : Line}
    (goes : plainKey maxlen secure line code = some next) : Edits start limit next := by
  have place := edits.place
  rw [Console.plainKey] at goes
  split at goes
  · exact absurd goes (by simp)
  split at goes
  · split at goes
    · obtain rfl := Option.some.inj goes
      exact edits
    · obtain rfl := Option.some.inj goes
      exact edits.clDelete low (by omega)
  split at goes
  · split at goes
    · obtain rfl := Option.some.inj goes
      apply (edits.clBackward 1).clDelete low
      dsimp only [Console.clBackward]
      omega
    · obtain rfl := Option.some.inj goes
      exact edits
  split at goes
  · obtain rfl := Option.some.inj goes
    exact edits.clInsert low bound _ _
  · obtain rfl := Option.some.inj goes
    exact edits

end Editing

section Lines

variable {start : Workspace} {limit : Nat} {request : Request} {workspace : Workspace}
  {cmdline : Buffer}

/-- What the editor leaves: the history as it was found, the stores within the limit,
and a string in the buffer. -/
def Settled (start : Workspace) (limit : Nat) : Progress → Prop
  | .editing line => Edits start limit line
  | .returned _ workspace buffer =>
      (Histories workspace ∧ Evolves start workspace) ∧ Within (limit + 1) buffer ∧
        EndsWithin buffer.bytes 0 limit

/-- A call that settles within its limit is safe in a buffer with room for it. -/
theorem Settled.safe {progress : Progress} {room : Nat} (settled : Settled start limit progress)
    (fits : limit + 1 ≤ room) : Safe room progress.outcome := by
  cases progress with
  | editing line =>
      intro store member
      exact Nat.le_trans (settled.stored store member) fits
  | returned value workspace buffer =>
      obtain ⟨-, within, ends⟩ := settled
      refine ⟨fun store member => Nat.le_trans (within store member) fits, ?_⟩
      exact ends.mono (by omega)

/-- Enter settles within the limit. -/
theorem Edits.finish {line : Line} (edits : Edits start limit line) (low : limit < maxCmdline) :
    Settled start limit (finish request line) := by
  have short := edits.short
  have spaces := @spanLength_before (· == space) line.scratch addressSpace 0 line.llen
    (Nat.zero_le _) (by rw [edits.ended]; rfl)
  rw [Nat.zero_add] at spaces
  have first : (if request.echoChar = 0 then
      spanLength (· == space) line.scratch addressSpace 0 else 0) ≤ line.llen := by
    split
    · exact spaces
    · exact Nat.zero_le _
  rw [Console.finish]
  revert first
  generalize (if request.echoChar = 0 then
      spanLength (· == space) line.scratch addressSpace 0 else 0) = lpos
  intro first
  have within : Within (limit + 1)
      (line.cmdline.copy 0 line.scratch lpos (line.llen - lpos + 1)) := by
    intro store member
    rcases List.mem_cons.mp member with rfl | earlier
    · dsimp only
      omega
    · exact edits.stored store earlier
  have ends : EndsWithin
      (line.cmdline.copy 0 line.scratch lpos (line.llen - lpos + 1)).bytes 0 limit := by
    refine ⟨line.llen - lpos, by omega, ?_⟩
    refine Eq.trans (copyIn_inside (by omega) (by omega)) ?_
    refine Eq.trans (congrArg line.scratch ?_) edits.ended
    omega
  split
  · exact ⟨⟨edits.histories.add (ends.mono (by omega)) (Nat.zero_le _),
      edits.evolved.added (ends.mono (by omega)) (Nat.zero_le _)⟩, within, ends⟩
  · exact ⟨⟨edits.histories, edits.evolved⟩, within, ends⟩

/-- So does every run of keys. -/
theorem Edits.editLoop {maxlen : Nat} {secure : Bool} {line : Line} (edits : Edits start limit line)
    (low : limit < maxCmdline) (bound : maxlen ≤ limit + 1)
    (full : request.readline = true → limit + 1 = maxCmdline) (keys : List KeyPress) :
    Settled start limit (editLoop request maxlen secure line keys) := by
  induction keys generalizing line with
  | nil => exact edits
  | cons key keys ih =>
      rw [Console.editLoop]
      by_cases entered : newline key.code = true
      · rw [if_pos entered]
        exact edits.finish low
      · rw [if_neg entered]
        have bound_ : Edits start limit
            (if request.readline then Console.readlineKey maxlen line key else line) := by
          split
          next readline => exact edits.readlineKey (full readline) bound key
          · exact edits
        dsimp only
        split
        · exact ⟨⟨bound_.histories, bound_.evolved⟩, bound_.stored, bound_.saved⟩
        next next_ goes => exact ih (bound_.plainKey low bound goes)

/-- The line the editor begins with, where the caller's is shorter than its buffer. -/
theorem edits_startLine (histories : Histories workspace) (fresh : cmdline.stores = [])
    (low : limit < maxCmdline) (ends : EndsWithin cmdline.bytes 0 limit) :
    Edits workspace limit (startLine request workspace cmdline) := by
  have length := ends.strlen_le
  have whole : ¬ (maxCmdline < request.maxlen ∧ maxCmdline ≤ strlen cmdline.bytes 0) := by
    omega
  have history : historyBuf = 2 * maxCmdline := rfl
  have below (position : Nat) (above : historyBuf ≤ position) :
      strcpy workspace.scratch 0 cmdline.bytes 0 position = workspace.scratch position :=
    copyIn_outside (Or.inr (by omega))
  rw [startLine]
  rw [if_neg whole, if_neg whole]
  exact {
    place := Nat.le_refl _
    short := length
    ended := by
      have nul := @EndsWithin.strcpy workspace.scratch cmdline.bytes 0 0 limit ends
        (Nat.lt_trans low (by decide))
      rwa [Nat.zero_add] at nul
    histories := histories.frame below
    evolved := Evolves.unchanged.edited below
    index := ⟨Int.le_refl _, by dsimp only; omega⟩
    stored := by
      rw [fresh]
      exact fun store member => absurd member List.not_mem_nil
    saved := ends }

/-- A line that is edited stays within its limit: the caller's own without readline, and
the longest line of the history with it. -/
theorem realGetCmdline_settled (secure : Bool) (histories : Histories workspace)
    (fresh : cmdline.stores = []) (low : limit < maxCmdline)
    (ends : EndsWithin cmdline.bytes 0 limit) (bound : min request.maxlen maxCmdline ≤ limit + 1)
    (full : request.readline = true → limit + 1 = maxCmdline) (keys : List KeyPress) :
    Settled workspace limit (realGetCmdline request secure workspace cmdline keys) :=
  (edits_startLine histories fresh low ends).editLoop low bound full keys

end Lines

end GrubLegacy.Console
