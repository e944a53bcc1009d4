import Mathlib

/-!
# Machines that return

A step of a machine goes on to another state or ends with a result. `Returns` says that a run
comes to a result. It does when a measure falls with every step that is made, and it does not
from a set of states that is never left. A walk follows links as long as there are any; it
comes to an end if and only if it comes nowhere twice.
-/

namespace GrubLegacy.Base

universe u v w

/-- What a step comes to. -/
inductive Step (State : Type u) (Result : Type v) where
  | next (state : State)
  | done (result : Result)

section

variable {State : Type u} {Result : Type v} (step : State → Step State Result)

/-- The run from a state on ends with a result. -/
inductive Returns : State → Result → Prop
  | done {state : State} {result : Result} (ends : step state = .done result) :
      Returns state result
  | next {state state' : State} {result : Result} (goesOn : step state = .next state')
      (later : Returns state' result) : Returns state result

/-- The run from a state on comes to another one. -/
inductive Reached (start : State) : State → Prop
  | start : Reached start start
  | next {state state' : State} (reached : Reached start state)
      (goesOn : step state = .next state') : Reached start state'

end

section

variable {State : Type u} {Result : Type v} {step : State → Step State Result}

/-- A run returns when a measure falls with each of its steps. -/
theorem returns_of_measure {α : Type w} {less : α → α → Prop} (wellFounded : WellFounded less)
    (measure : State → α) {start : State}
    (falls : ∀ state state', Reached step start state → step state = .next state' →
      less (measure state') (measure state)) : ∃ result, Returns step start result := by
  have all : ∀ key, ∀ state, Reached step start state → measure state = key →
      ∃ result, Returns step state result := by
    intro key
    induction key using wellFounded.induction with
    | _ key inductionHypothesis =>
      intro state reached isKey
      cases outcome : step state with
      | done result => exact ⟨result, .done outcome⟩
      | next state' =>
          have less_ := falls state state' reached outcome
          rw [isKey] at less_
          obtain ⟨result, later⟩ :=
            inductionHypothesis _ less_ state' (.next reached outcome) rfl
          exact ⟨result, .next outcome later⟩
  exact all _ start .start rfl

/-- A run that returns does so from its next state too. -/
theorem Returns.of_next {state state' : State} {result : Result}
    (returns : Returns step state result) (goesOn : step state = .next state') :
    Returns step state' result := by
  cases returns with
  | done ends =>
      rw [ends] at goesOn
      cases goesOn
  | next goesOn' later =>
      rw [goesOn'] at goesOn
      cases goesOn
      exact later

/-- A run that ends at once has this result. -/
theorem Returns.of_done {state : State} {result result' : Result}
    (returns : Returns step state result) (ends : step state = .done result') :
    result = result' := by
  cases returns with
  | done ends' =>
      rw [ends'] at ends
      cases ends
      rfl
  | next goesOn later =>
      rw [goesOn] at ends
      cases ends

/-- A run has one result. -/
theorem Returns.unique {state : State} {result result' : Result}
    (returns : Returns step state result) (returns' : Returns step state result') :
    result = result' := by
  induction returns with
  | done ends => exact (returns'.of_done ends).symm
  | next goesOn later inductionHypothesis => exact inductionHypothesis (returns'.of_next goesOn)

/-- A run does not return from states that go on to such states. -/
theorem not_returns {stuck : State → Prop}
    (keeps : ∀ state, stuck state → ∃ state', step state = .next state' ∧ stuck state')
    {state : State} (isStuck : stuck state) (result : Result) : ¬ Returns step state result := by
  intro returns
  induction returns with
  | done ends =>
      obtain ⟨_, goesOn, -⟩ := keeps _ isStuck
      rw [goesOn] at ends
      cases ends
  | next goesOn later inductionHypothesis =>
      obtain ⟨_, goesOn', isStuck'⟩ := keeps _ isStuck
      rw [goesOn'] at goesOn
      cases goesOn
      exact inductionHypothesis isStuck'

end

/-! ## Runs that are carried out -/

section

variable {State : Type u} {Result : Type v} (step : State → Step State Result)
  (check : State → Bool)

/-- Within so many steps the run ends, and the states it comes to pass a check. -/
def runPasses : (steps : Nat) → State → Bool
  | 0, _ => false
  | steps + 1, state =>
    check state &&
      match step state with
      | .next state' => runPasses steps state'
      | .done _ => true

variable {step check}

/-- A run that passes does so behind a step. -/
theorem runPasses_next {steps : Nat} {state state' : State}
    (passes : runPasses step check steps state = true) (goesOn : step state = .next state') :
    ∃ fewer, runPasses step check fewer state' = true := by
  cases steps with
  | zero => cases passes
  | succ steps =>
      rw [runPasses, goesOn, Bool.and_eq_true] at passes
      exact ⟨steps, passes.2⟩

/-- The states that are reached are those the run was carried through. -/
theorem check_of_runPasses {steps : Nat} {start state : State}
    (passes : runPasses step check steps start = true) (reached : Reached step start state) :
    check state = true := by
  have left : ∃ steps, runPasses step check steps state = true := by
    induction reached with
    | start => exact ⟨steps, passes⟩
    | next _ goesOn inductionHypothesis =>
        obtain ⟨steps, passes⟩ := inductionHypothesis
        exact runPasses_next passes goesOn
  obtain ⟨steps, passes⟩ := left
  cases steps with
  | zero => cases passes
  | succ steps =>
      rw [runPasses, Bool.and_eq_true] at passes
      exact passes.1

end

/-! ## Walks -/

section

variable {α : Type u} (next : α → Option α)

/-- Where a walk is after so many links. -/
def walk (start : Option α) : Nat → Option α
  | 0 => start
  | count + 1 => (walk start count).bind next

/-- A walk comes nowhere twice. -/
def NoReturn (start : Option α) : Prop :=
  ∀ i j, i < j → walk next start i = walk next start j → walk next start i = none

end

section

variable {α : Type u} {next : α → Option α} {start : Option α}

/-- A walk can be made in two parts. -/
theorem walk_add (i j : Nat) : walk next start (i + j) = walk next (walk next start i) j := by
  induction j with
  | zero => rfl
  | succ j inductionHypothesis =>
      rw [Nat.add_succ, walk, walk, inductionHypothesis]

/-- The walk from the first link on. -/
theorem walk_succ (first : α) (count : Nat) :
    walk next (some first) (count + 1) = walk next (next first) count := by
  rw [Nat.add_comm, walk_add]
  rfl

/-- A walk that has ended stays so. -/
theorem walk_none {i j : Nat} (later : i ≤ j) (ended : walk next start i = none) :
    walk next start j = none := by
  obtain ⟨more, rfl⟩ := Nat.exists_eq_add_of_le later
  rw [walk_add, ended]
  clear later
  induction more with
  | zero => rfl
  | succ more inductionHypothesis =>
      rw [walk, inductionHypothesis]
      rfl

/-- A walk among so many places that comes nowhere twice ends after so many links. -/
theorem NoReturn.ends {next : Nat → Option Nat} {start : Option Nat} {bound : Nat}
    (noReturn : NoReturn next start)
    (bounded : ∀ count place, walk next start count = some place → place < bound) :
    walk next start bound = none := by
  apply Classical.not_not.mp
  intro goesOn
  have some_ : ∀ i : Fin (bound + 1), ∃ place, walk next start i = some place := by
    intro i
    apply Option.ne_none_iff_exists'.mp
    exact fun ended => goesOn (walk_none (Nat.le_of_lt_succ i.isLt) ended)
  choose place isPlace using some_
  obtain ⟨i, j, different, same⟩ := Fintype.exists_ne_map_eq_of_card_lt
    (fun i => (⟨place i, bounded i (place i) (isPlace i)⟩ : Fin bound)) (by simp)
  have samePlace : place i = place j := congrArg Fin.val same
  have sameWalk : walk next start i = walk next start j := by
    rw [isPlace, isPlace, samePlace]
  rcases Nat.lt_or_gt_of_ne (fun equal => different (Fin.ext equal)) with before | before
  · have ended := noReturn i j before sameWalk
    rw [isPlace] at ended
    cases ended
  · have ended := noReturn j i before sameWalk.symm
    rw [isPlace] at ended
    cases ended

/-- A walk that ends comes nowhere twice. -/
theorem noReturn_of_ends {count : Nat} (ended : walk next start count = none) :
    NoReturn next start := by
  intro i j before same
  apply Classical.not_not.mp
  intro goesOn
  -- From there on, the walk goes round and round.
  obtain ⟨period, rfl⟩ := Nat.exists_eq_add_of_lt before
  have round : ∀ rounds, walk next start (i + rounds * (period + 1)) = walk next start i := by
    intro rounds
    induction rounds with
    | zero => rw [Nat.zero_mul, Nat.add_zero]
    | succ rounds inductionHypothesis =>
        rw [Nat.succ_mul, ← Nat.add_assoc, walk_add, inductionHypothesis, ← walk_add, same]
        rfl
  have far : count ≤ i + count * (period + 1) :=
    Nat.le_trans (Nat.le_mul_of_pos_right _ (Nat.succ_pos _)) (Nat.le_add_left _ _)
  exact goesOn ((round count).symm.trans (walk_none far ended))

end

end GrubLegacy.Base
