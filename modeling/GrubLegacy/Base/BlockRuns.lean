import Mathlib

/-!
# Runs of blocks

A file is stored as runs of consecutive blocks. A run says which of the blocks of the file
it has, and where the first of them is; the blocks that no run has are holes.
-/

namespace GrubLegacy.Base

/-- The blocks of a file from `offset` on, which are stored from `start` on. -/
structure BlockRun where
  offset : Nat
  start : Nat
  len : Nat
deriving DecidableEq, Repr

namespace BlockRun

/-- The block behind a run. -/
def stop (run : BlockRun) : Nat := run.offset + run.len

/-- The run has a block. -/
def Has (run : BlockRun) (key : Nat) : Prop := run.offset ≤ key ∧ key < run.stop

instance (run : BlockRun) (key : Nat) : Decidable (run.Has key) :=
  inferInstanceAs (Decidable (_ ∧ _))

end BlockRun

/-- The runs are in order, apart and not empty. -/
structure InOrder (runs : List BlockRun) : Prop where
  sorted : runs.Pairwise fun before behind => before.stop ≤ behind.offset
  nonempty : ∀ run ∈ runs, 0 < run.len

/-- Each run starts where the one before it stops. -/
def Adjacent : List BlockRun → Prop :=
  List.IsChain fun before behind => behind.offset = before.stop

/-- Where the last of some runs stops, if there is one. -/
def stopOf (stop : Nat) : List BlockRun → Nat
  | [] => stop
  | run :: runs => stopOf run.stop runs

/-- The run that has a block. -/
def runOf (runs : List BlockRun) (key : Nat) : Option BlockRun := runs.find? fun run => run.Has key

section

variable {runs before behind : List BlockRun} {run : BlockRun}

/-- The first runs of an order are in order, -/
theorem InOrder.append_left (inOrder : InOrder (before ++ behind)) : InOrder before :=
  ⟨(List.pairwise_append.mp inOrder.sorted).1,
    fun run member => inOrder.nonempty run (List.mem_append_left _ member)⟩

/-- and so are the last ones -/
theorem InOrder.append_right (inOrder : InOrder (before ++ behind)) : InOrder behind :=
  ⟨(List.pairwise_append.mp inOrder.sorted).2.1,
    fun run member => inOrder.nonempty run (List.mem_append_right _ member)⟩

/-- and those behind the first. -/
theorem InOrder.tail (inOrder : InOrder (run :: runs)) : InOrder runs :=
  ⟨(List.pairwise_cons.mp inOrder.sorted).2,
    fun other member => inOrder.nonempty other (List.mem_cons_of_mem _ member)⟩

/-- A run has a block. -/
theorem InOrder.offset_lt_stop (inOrder : InOrder runs) (member : run ∈ runs) :
    run.offset < run.stop :=
  Nat.lt_add_of_pos_right (inOrder.nonempty run member)

/-- The runs behind the first one start behind it. -/
theorem InOrder.first_stop (inOrder : InOrder (run :: runs)) {other : BlockRun}
    (member : other ∈ runs) : run.stop ≤ other.offset :=
  (List.pairwise_cons.mp inOrder.sorted).1 other member

/-- A run ends before a later one starts. -/
theorem InOrder.apart (inOrder : InOrder (before ++ behind)) {first second : BlockRun}
    (member : first ∈ before) (member' : second ∈ behind) : first.stop ≤ second.offset :=
  (List.pairwise_append.mp inOrder.sorted).2.2 first member second member'

/-- A block has one run at most. -/
theorem runOf_mem (inOrder : InOrder runs) (member : run ∈ runs) {key : Nat}
    (has : run.Has key) : runOf runs key = some run := by
  induction runs with
  | nil => exact absurd member List.not_mem_nil
  | cons first runs inductionHypothesis =>
      rcases List.mem_cons.mp member with rfl | later
      · exact List.find?_cons_of_pos (decide_eq_true has)
      · have behind := inOrder.first_stop later
        have misses : ¬ first.Has key := by
          intro both
          exact absurd (Nat.lt_of_lt_of_le both.2 behind) (Nat.not_lt.mpr has.1)
        rw [runOf, List.find?_cons_of_neg (by simpa using misses)]
        exact inductionHypothesis inOrder.tail later

/-- No run is found for a hole. -/
theorem runOf_hole {key : Nat} (hole : ∀ run ∈ runs, ¬ run.Has key) : runOf runs key = none := by
  apply List.find?_eq_none.mpr
  intro run member
  simpa using hole run member

/-- Adjacent runs that start where `stop` says, and one more. -/
theorem stopOf_append (stop : Nat) :
    stopOf stop (before ++ behind) = stopOf (stopOf stop before) behind := by
  induction before generalizing stop with
  | nil => rfl
  | cons run before inductionHypothesis => exact inductionHypothesis run.stop

/-- None of some runs in order reaches beyond the last of them. -/
theorem InOrder.stop_le (inOrder : InOrder (run :: runs)) {other : BlockRun}
    (member : other ∈ run :: runs) : other.stop ≤ stopOf run.stop runs := by
  induction runs generalizing run other with
  | nil =>
      obtain rfl := List.mem_singleton.mp member
      exact Nat.le_refl _
  | cons next runs inductionHypothesis =>
      rcases List.mem_cons.mp member with rfl | later
      · have step := inOrder.first_stop (List.mem_cons_self (a := next) (l := runs))
        have inside := inOrder.tail.offset_lt_stop List.mem_cons_self
        have isHead : next ∈ next :: runs := List.mem_cons_self
        have rest := inductionHypothesis inOrder.tail isHead
        exact Nat.le_trans step (Nat.le_trans (Nat.le_of_lt inside) rest)
      · exact inductionHypothesis inOrder.tail later

/-- No run ends behind the last one. -/
theorem InOrder.stop_le_stopOf (inOrder : InOrder runs) (member : run ∈ runs) (stop : Nat) :
    run.stop ≤ stopOf stop runs := by
  cases runs with
  | nil => exact absurd member List.not_mem_nil
  | cons first runs => exact inOrder.stop_le member

/-- Where there are runs they end with the last one. -/
theorem stopOf_of_ne_nil (some_ : runs ≠ []) (stop stop' : Nat) : stopOf stop runs = stopOf stop' runs := by
  cases runs with
  | nil => exact absurd rfl some_
  | cons first runs => rfl

/-- The last of some runs stops no later than all of them do. -/
theorem stopOf_le_of {key : Nat} (all : ∀ other ∈ run :: runs, other.stop ≤ key) :
    stopOf run.stop runs ≤ key := by
  induction runs generalizing run with
  | nil => exact all run List.mem_cons_self
  | cons next runs inductionHypothesis =>
      exact inductionHypothesis fun other member => all other (List.mem_cons_of_mem _ member)

/-- What lies behind some runs lies behind the last of them. -/
theorem InOrder.stopOf_le (inOrder : InOrder (run :: runs ++ behind)) {other : BlockRun}
    (member : other ∈ behind) : stopOf run.stop runs ≤ other.offset := by
  induction runs generalizing run with
  | nil => exact inOrder.first_stop member
  | cons next runs inductionHypothesis => exact inductionHypothesis inOrder.tail

/-- Before the last of some runs stops, those behind it do not count. -/
theorem InOrder.runOf_front (inOrder : InOrder (runs ++ behind)) {key : Nat}
    (inside : key < stopOf 0 runs) : runOf (runs ++ behind) key = runOf runs key := by
  have later : runOf behind key = none := by
    apply runOf_hole
    intro other member has
    cases runs with
    | nil => exact absurd inside (Nat.not_lt_zero key)
    | cons first runs =>
        have apart := inOrder.stopOf_le member
        exact absurd has.1 (Nat.not_le.mpr (Nat.lt_of_lt_of_le inside apart))
  rw [runOf, List.find?_append]
  rw [runOf] at later
  rw [later, Option.or_none, runOf]

/-- Between some runs and the next one is a hole. -/
theorem InOrder.gap (inOrder : InOrder (before ++ run :: behind)) {key : Nat}
    (above : ∀ other ∈ before, other.stop ≤ key) (below : key < run.offset) :
    ∀ other ∈ before ++ run :: behind, ¬ other.Has key := by
  intro other member has
  rcases List.mem_append.mp member with first | second
  · exact absurd has.2 (Nat.not_lt.mpr (above other first))
  · rcases List.mem_cons.mp second with rfl | later
    · exact absurd has.1 (Nat.not_le.mpr below)
    · have inside := inOrder.append_right.offset_lt_stop List.mem_cons_self
      have apart := inOrder.append_right.first_stop later
      exact absurd (Nat.lt_of_lt_of_le inside (Nat.le_trans apart has.1))
        (Nat.not_lt.mpr (Nat.le_of_lt below))

/-- The runs before a block, and those that have it or lie behind it. -/
theorem InOrder.split_at (inOrder : InOrder runs) (key : Nat) :
    ∃ early late, runs = early ++ late ∧ (∀ run ∈ early, run.stop ≤ key) ∧
      ∀ run ∈ late, key < run.stop := by
  induction runs with
  | nil => exact ⟨[], [], rfl, nofun, nofun⟩
  | cons first runs inductionHypothesis =>
      by_cases before : first.stop ≤ key
      · obtain ⟨early, late, rfl, allEarly, allLate⟩ := inductionHypothesis inOrder.tail
        refine ⟨first :: early, late, rfl, ?_, allLate⟩
        intro run member
        rcases List.mem_cons.mp member with rfl | later
        · exact before
        · exact allEarly run later
      · refine ⟨[], first :: runs, rfl, nofun, ?_⟩
        intro run member
        rcases List.mem_cons.mp member with rfl | later
        · exact Nat.not_le.mp before
        · have follows := inOrder.first_stop later
          have inside := inOrder.tail.offset_lt_stop later
          omega

/-- A run, those that follow it without a hole, and the rest. -/
theorem InOrder.split_run (inOrder : InOrder (run :: runs)) :
    ∃ following rest, runs = following ++ rest ∧ Adjacent (run :: following) ∧
      ∀ next ∈ rest.head?, stopOf run.stop following < next.offset := by
  induction runs generalizing run with
  | nil => exact ⟨[], [], rfl, List.IsChain.singleton run, nofun⟩
  | cons second runs inductionHypothesis =>
      have apart := inOrder.first_stop List.mem_cons_self
      rcases Nat.eq_or_lt_of_le apart with joins | hole
      · obtain ⟨following, rest, rfl, adjacent, behind⟩ := inductionHypothesis inOrder.tail
        exact ⟨second :: following, rest, rfl,
          List.isChain_cons_cons.mpr ⟨joins.symm, adjacent⟩, behind⟩
      · refine ⟨[], second :: runs, rfl, List.IsChain.singleton run, ?_⟩
        intro next isNext
        obtain rfl : second = next := Option.some.inj isNext
        exact hole

end

end GrubLegacy.Base
