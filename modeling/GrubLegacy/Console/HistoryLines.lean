import GrubLegacy.Base.Runs
import GrubLegacy.Console.LineBounds

/-!
# The history as a list of lines

`add_history` inserts a line into the list of the slots and keeps the first five lines.
What it stores stays in HISTORY_BUF as long as there is a free slot; in a full history
the last line is moved out of the buffer, to where completions are put.
-/

namespace GrubLegacy.Console

open Base

/-- The lines of the history, the latest first. -/
def historyLines (workspace : Workspace) : List (List UInt8) :=
  (List.range workspace.numHistory).map fun no => stringAt workspace.scratch (historySlot no)

/-- A list of lines with another one before entry `no`. -/
def insertLine (lines : List (List UInt8)) (no : Nat) (line : List UInt8) : List (List UInt8) :=
  (lines.insertIdx no line).take historySize

/-- The list that calls of `add_history` make out of a list, the last call first. -/
def replay (lines : List (List UInt8)) : List HistoryCall → List (List UInt8)
  | [] => lines
  | call :: earlier => insertLine (replay lines earlier) call.no call.line

/-- Bytes of HISTORY_BUF only. -/
def InHistoryBuf (store : Nat × Nat) : Prop :=
  ∀ position, store.1 ≤ position → position < store.1 + store.2 →
    historyBuf ≤ position ∧ position < historyBuf + maxCmdline * historySize

/-- There are as many lines as are counted. -/
@[simp] theorem length_historyLines (workspace : Workspace) :
    (historyLines workspace).length = workspace.numHistory := by
  rw [historyLines, List.length_map, List.length_range]

/-- A line is the string in its slot. -/
theorem historyLines_getElem? (workspace : Workspace) (no : Nat) :
    (historyLines workspace)[no]? =
      if no < workspace.numHistory then some (stringAt workspace.scratch (historySlot no))
      else none := by
  rw [historyLines, List.getElem?_map]
  split
  next known => rw [List.getElem?_range known, Option.map_some]
  next unknown => rw [List.getElem?_eq_none (by rw [List.length_range]; omega), Option.map_none]

/-- What `get_history` returns is the line of that number. -/
theorem getHistory_lines (workspace : Workspace) (no : Nat) :
    (getHistory workspace no).map (stringAt workspace.scratch) =
      (historyLines workspace)[no]? := by
  rw [historyLines_getElem?, getHistory]
  by_cases known : no < workspace.numHistory
  · rw [if_neg (by omega), if_pos known]
    rfl
  · rw [if_pos (by omega), if_neg known]
    rfl

section Adding

variable {workspace : Workspace}

/-- The lines depend on the buffer of the history only. -/
theorem historyLines_edited (histories : Histories workspace) {scratch : Area}
    (same : ∀ position, historyBuf ≤ position → scratch position = workspace.scratch position) :
    historyLines { workspace with scratch := scratch } = historyLines workspace := by
  apply List.map_congr_left
  intro no member
  apply stringAt_eq (histories.ends no (List.mem_range.mp member)) (by decide)
  intro distance _
  exact same _ (by rw [historySlot]; omega)

/-- A slot before the new line keeps its string. -/
theorem addHistory_before (histories : Histories workspace) {source : Area} {no other : Nat}
    (ends : EndsWithin source 0 (maxCmdline - 1)) (known : other < workspace.numHistory)
    (before : other < no) :
    stringAt (addHistory workspace source no).scratch (historySlot other) =
      stringAt workspace.scratch (historySlot other) := by
  have length := ends.strlen_le
  rw [maxCmdline] at length
  apply stringAt_eq (histories.ends other known) (by decide)
  intro distance near
  dsimp only [addHistory, strcpy, historySlot, maxCmdline] at near ⊢
  rw [copyIn_outside (Or.inl (by omega)), copyIn_outside (Or.inl (by omega))]

/-- A slot after it has the string of the slot before. -/
theorem addHistory_after (histories : Histories workspace) {source : Area} {no other : Nat}
    (ends : EndsWithin source 0 (maxCmdline - 1)) (known : other ≤ workspace.numHistory)
    (after : no < other) :
    stringAt (addHistory workspace source no).scratch (historySlot other) =
      stringAt workspace.scratch (historySlot (other - 1)) := by
  have length := ends.strlen_le
  rw [maxCmdline] at length
  apply stringAt_eq (histories.ends (other - 1) (by omega)) (by decide)
  intro distance near
  dsimp only [addHistory, strcpy, historySlot, maxCmdline] at near ⊢
  rw [copyIn_outside (Or.inr (by omega)), copyIn_inside (by omega) (by omega)]
  apply congrArg workspace.scratch
  omega

/-- The line that is added is read back from its slot. -/
theorem addHistory_here {source : Area} {no : Nat}
    (ends : EndsWithin source 0 (maxCmdline - 1)) :
    stringAt (addHistory workspace source no).scratch (historySlot no) = stringAt source 0 :=
  stringAt_strcpy ends (by decide)

/-- `add_history` inserts a line and keeps the first five. -/
theorem historyLines_addHistory (histories : Histories workspace) {source : Area} {no : Nat}
    (ends : EndsWithin source 0 (maxCmdline - 1)) (known : no ≤ workspace.numHistory) :
    historyLines (addHistory workspace source no) =
      insertLine (historyLines workspace) no (stringAt source 0) := by
  have few := histories.few
  have count : (addHistory workspace source no).numHistory =
      min (workspace.numHistory + 1) historySize := by
    dsimp only [addHistory]
    split <;> omega
  apply List.ext_getElem?
  intro other
  rw [historyLines_getElem?, count, insertLine, List.getElem?_take]
  by_cases inside : other < min (workspace.numHistory + 1) historySize
  · rw [if_pos inside, if_pos (by omega), List.getElem?_insertIdx]
    rcases Nat.lt_trichotomy other no with before | here | after
    · rw [if_pos before, historyLines_getElem?, if_pos (by omega),
        addHistory_before histories ends (by omega) before]
    · rw [if_neg (by omega), if_pos here, if_pos (by rw [length_historyLines]; omega), here,
        addHistory_here ends]
    · rw [if_neg (by omega), if_neg (by omega), historyLines_getElem?, if_pos (by omega),
        addHistory_after histories ends (by omega) after]
  · rw [if_neg inside]
    by_cases full : other < historySize
    · rw [if_pos full, List.getElem?_insertIdx, if_neg (by omega), if_neg (by omega),
        historyLines_getElem?, if_neg (by omega)]
    · rw [if_neg full]

end Adding

/-- What is known of a call: its index, its line, and what it stores. -/
structure HistoryCall.Sound (call : HistoryCall) : Prop where
  known : call.no ≤ call.numHistory
  few : call.numHistory ≤ historySize
  short : call.line.length < maxCmdline
  stored : call.stores =
    [(historySlot (call.no + 1), maxCmdline * (call.numHistory - call.no)),
      (historySlot call.no, call.line.length + 1)]

/-- All bytes that such a call stores are bytes of HISTORY_BUF exactly if there was a
free slot. -/
theorem HistoryCall.Sound.inHistoryBuf_iff {call : HistoryCall} (sound : call.Sound) :
    (∀ store ∈ call.stores, InHistoryBuf store) ↔ call.numHistory < historySize := by
  have known := sound.known
  have few := sound.few
  have short := sound.short
  rw [sound.stored]
  dsimp only [InHistoryBuf, historySlot, maxCmdline, historySize] at *
  constructor
  · intro inside
    by_contra full
    have moved := inside _ (List.mem_cons_self) (historyBuf + 1600 * 5)
    have stored := inside _ (List.mem_cons_of_mem _ List.mem_cons_self) (historyBuf + 1600 * 5)
    dsimp only at moved stored
    omega
  · intro free store member position first last
    rcases List.mem_cons.mp member with rfl | member
    · dsimp only at first last
      omega
    · obtain rfl := List.mem_singleton.mp member
      dsimp only at first last
      omega

/-- A call of `add_history` is a sound one. -/
theorem sound_historyCall {workspace : Workspace} (histories : Histories workspace)
    {source : Area} {no : Nat} (ends : EndsWithin source 0 (maxCmdline - 1))
    (known : no ≤ workspace.numHistory) : (historyCall workspace source no).Sound where
  known := known
  few := histories.few
  short := by
    have length := ends.strlen_le
    have some_ : 0 < maxCmdline := by decide
    dsimp only [historyCall]
    rw [length_stringAt]
    omega
  stored := by
    dsimp only [historyCall]
    rw [length_stringAt]

/-- The lines are what the calls since `start` made of those there were. -/
structure Chronicle (start workspace : Workspace) (calls : List HistoryCall) : Prop where
  histories : Histories workspace
  begun : workspace.calls = calls ++ start.calls
  lines : historyLines workspace = replay (historyLines start) calls
  sound : ∀ call ∈ calls, call.Sound

/-- A history that has evolved did so by some calls. -/
theorem Evolves.chronicle {start workspace : Workspace} (histories : Histories start)
    (evolved : Evolves start workspace) : ∃ calls, Chronicle start workspace calls := by
  induction evolved with
  | unchanged => exact ⟨[], histories, rfl, rfl, fun call member => absurd member List.not_mem_nil⟩
  | edited earlier same ih =>
      obtain ⟨calls, past⟩ := ih
      exact ⟨calls, {
        histories := past.histories.frame same
        begun := past.begun
        lines := (historyLines_edited past.histories same).trans past.lines
        sound := past.sound }⟩
  | @added workspace source no earlier ends known ih =>
      obtain ⟨calls, past⟩ := ih
      refine ⟨historyCall workspace source no :: calls, ?_⟩
      exact {
        histories := past.histories.add ends known
        begun := congrArg (historyCall workspace source no :: ·) past.begun
        lines := by
          rw [historyLines_addHistory past.histories ends known, past.lines]
          rfl
        sound := by
          intro call member
          rcases List.mem_cons.mp member with rfl | member
          · exact sound_historyCall past.histories ends known
          · exact past.sound call member }

/-- A history evolves step by step. -/
theorem Evolves.trans {first second third : Workspace} (earlier : Evolves first second)
    (later : Evolves second third) : Evolves first third := by
  induction later with
  | unchanged => exact earlier
  | edited _ same ih => exact ih.edited same
  | added _ ends known ih => exact ih.added ends known

/-- A line that is asked for: the arguments of `get_cmdline`, what the buffer holds and
the keys that are pressed. -/
structure Asked where
  request : Request
  terminal : Terminal
  secure : Bool
  bytes : Area
  keys : List KeyPress

def Outcome.workspace : Outcome → Workspace
  | .waiting workspace _ => workspace
  | .returned _ workspace _ => workspace

/-- What a line leaves to the next one. -/
def askLine (workspace : Workspace) (asked : Asked) : Workspace :=
  (getCmdline asked.request asked.terminal asked.secure workspace ⟨asked.bytes, []⟩
    asked.keys).workspace

/-- A plain terminal leaves the history. -/
theorem gather_workspace (secure : Bool) (workspace : Workspace) (cmdline : Buffer)
    (place : Nat) (keys : List KeyPress) :
    (gather secure workspace cmdline place keys).workspace = workspace := by
  induction keys generalizing cmdline place with
  | nil => rfl
  | cons key keys ih =>
      rw [gather]
      split
      · rfl
      split
      · rfl
      split
      · exact ih _ _
      · exact ih _ _

/-- A line changes what lasts as its keys do. -/
theorem evolves_askLine {workspace : Workspace} (histories : Histories workspace)
    {asked : Asked} (short : EndsWithin asked.bytes 0 (maxCmdline - 1)) :
    Evolves workspace (askLine workspace asked) := by
  rw [askLine, getCmdline]
  split
  · rw [gather_workspace]
    exact .unchanged
  · have settled := @realGetCmdline_settled (maxCmdline - 1) asked.request workspace
      ⟨asked.bytes, []⟩ asked.secure histories rfl (by decide) short (Nat.min_le_right _ _)
      (fun _ => rfl) asked.keys
    revert settled
    generalize realGetCmdline asked.request asked.secure workspace ⟨asked.bytes, []⟩
      asked.keys = progress
    intro settled
    cases progress with
    | editing line => exact settled.evolved
    | returned value workspace buffer => exact settled.1.2

/-- Asking for lines lets the history evolve. -/
theorem evolves_askLines {start workspace : Workspace} (histories : Histories start)
    (evolved : Evolves start workspace) {lines : List Asked}
    (short : ∀ asked ∈ lines, EndsWithin asked.bytes 0 (maxCmdline - 1)) :
    Evolves start (runOps askLine workspace lines) := by
  induction lines generalizing workspace with
  | nil => exact evolved
  | cons asked lines ih =>
      obtain ⟨calls, past⟩ := evolved.chronicle histories
      apply ih
      · exact evolved.trans (evolves_askLine past.histories (short asked List.mem_cons_self))
      · exact fun later member => short later (List.mem_cons_of_mem _ member)

/-- The workspace at the start: no history, and any bytes in the scratch area. -/
def bootWorkspace (scratch : Area) : Workspace where
  scratch := scratch
  numHistory := 0
  calls := []

/-- The history is empty at the start. -/
theorem histories_bootWorkspace (scratch : Area) : Histories (bootWorkspace scratch) where
  few := Nat.zero_le _
  ends no known := absurd known (Nat.not_lt_zero no)

/-- The history is kept: all its calls store in HISTORY_BUF, there are no more entries
than slots, and the entries are those of the list. -/
def HistoryKept (workspace : Workspace) : Prop :=
  (∀ call ∈ workspace.calls, ∀ store ∈ call.stores, InHistoryBuf store) ∧
    workspace.numHistory ≤ historySize ∧
    ∀ no : Nat, (getHistory workspace no).map (stringAt workspace.scratch) =
      (replay [] workspace.calls)[no]?

/-- For every sequence of lines: the history is kept exactly if no line was added to a
full one. -/
theorem historyKept_iff (scratch : Area) (lines : List Asked)
    (short : ∀ asked ∈ lines, EndsWithin asked.bytes 0 (maxCmdline - 1)) :
    HistoryKept (runOps askLine (bootWorkspace scratch) lines) ↔
      ∀ call ∈ (runOps askLine (bootWorkspace scratch) lines).calls,
        call.numHistory < historySize := by
  have histories := histories_bootWorkspace scratch
  obtain ⟨calls, past⟩ := (evolves_askLines histories .unchanged short).chronicle histories
  generalize runOps askLine (bootWorkspace scratch) lines = final at past ⊢
  have begun : final.calls = calls := past.begun.trans (List.append_nil _)
  have sound := past.sound
  rw [← begun] at sound
  constructor
  · rintro ⟨stores, -, -⟩ call member
    exact (sound call member).inHistoryBuf_iff.mp (stores call member)
  · intro free
    refine ⟨fun call member => ?_, past.histories.few, fun no => ?_⟩
    · exact (sound call member).inHistoryBuf_iff.mpr (free call member)
    · rw [getHistory_lines, past.lines, begun]
      rfl

/-- The line `a` at the command line. -/
def askedLetter : Asked where
  request := Caller.commandRequest
  terminal := { noEcho := false, noEdit := false }
  secure := false
  bytes _ := 0
  keys := [press 97, press 10]

/-- Two lines fit. -/
theorem historyKept_two :
    HistoryKept (runOps askLine (bootWorkspace fun _ => 0) [askedLetter, askedLetter]) := by
  apply (historyKept_iff (fun _ => 0) [askedLetter, askedLetter] ?_).mpr
  · have counts : ((runOps askLine (bootWorkspace fun _ => 0)
        [askedLetter, askedLetter]).calls.map (·.numHistory)) = [1, 0] := by
      decide +kernel
    intro call member
    have listed : call.numHistory ∈ _ := List.mem_map_of_mem member
    rw [counts] at listed
    revert listed
    generalize call.numHistory = count
    decide +revert
  · intro asked member
    have same : asked = askedLetter := by simpa using member
    rw [same]
    exact ⟨0, Nat.zero_le _, rfl⟩

/-- The sixth line is added to a full history, and the last entry is moved out of it. -/
theorem askLine_leaves_historyBuf :
    ¬ ∀ (scratch : Area) (lines : List Asked),
        (∀ asked ∈ lines, EndsWithin asked.bytes 0 (maxCmdline - 1)) →
        HistoryKept (runOps askLine (bootWorkspace scratch) lines) := by
  intro every
  have kept := every (fun _ => 0) (List.replicate 6 askedLetter) (by
    intro asked member
    rw [List.eq_of_mem_replicate member]
    exact ⟨0, Nat.zero_le _, rfl⟩)
  have moved : (historySlot 1, 8000) ∈ (runOps askLine (bootWorkspace fun _ => 0)
      (List.replicate 6 askedLetter)).calls.flatMap (·.stores) := by
    decide +kernel
  obtain ⟨call, member, store⟩ := List.mem_flatMap.mp moved
  have outside := kept.1 call member _ store (historyBuf + 8000) (by decide) (by decide)
  exact absurd outside.2 (by decide)

end GrubLegacy.Console
