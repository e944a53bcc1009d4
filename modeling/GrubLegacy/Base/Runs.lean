import Mathlib

/-!
# Runs of a deterministic machine

A machine is a step function from a state and an operation to the next state.
`Along` says that a predicate on the state and the coming operation holds at
every point a list of operations passes through, so that a property of whole
runs is stated once and derived from one step by `Along.of_invariant`.
-/

namespace GrubLegacy.Base

universe u v

variable {State : Type u} {Op : Type v}

/-- The state reached by performing the operations in order. -/
def runOps (step : State → Op → State) : State → List Op → State
  | state, [] => state
  | state, op :: ops => runOps step (step state op) ops

/-- `holds state op` at every state the run passes through, with the operation
that is about to be performed there. -/
def Along (step : State → Op → State) (holds : State → Op → Prop) : State → List Op → Prop
  | _, [] => True
  | state, op :: ops => holds state op ∧ Along step holds (step state op) ops

/-- An empty run stays where it is. -/
@[simp] theorem runOps_nil (step : State → Op → State) (state : State) :
    runOps step state [] = state := rfl

/-- A run starts with its first step. -/
@[simp] theorem runOps_cons (step : State → Op → State) (state : State) (op : Op)
    (ops : List Op) : runOps step state (op :: ops) = runOps step (step state op) ops := rfl

/-- Two runs follow each other. -/
theorem runOps_append (step : State → Op → State) (state : State) (first second : List Op) :
    runOps step state (first ++ second) = runOps step (runOps step state first) second := by
  induction first generalizing state with
  | nil => rfl
  | cons op ops ih => exact ih (step state op)

/-- Nothing is asked of an empty run. -/
@[simp] theorem along_nil (step : State → Op → State) (holds : State → Op → Prop)
    (state : State) : Along step holds state [] := trivial

/-- Of any other run it is asked of the first step and of the rest. -/
@[simp] theorem along_cons {step : State → Op → State} {holds : State → Op → Prop}
    {state : State} {op : Op} {ops : List Op} :
    Along step holds state (op :: ops) ↔
      holds state op ∧ Along step holds (step state op) ops := Iff.rfl

/-- Predicates that are the same at every step are the same along a run. -/
theorem along_congr {step : State → Op → State} {holds holds' : State → Op → Prop}
    (same : ∀ state op, holds state op ↔ holds' state op) {state : State} {ops : List Op} :
    Along step holds state ops ↔ Along step holds' state ops := by
  induction ops generalizing state with
  | nil => exact Iff.rfl
  | cons op ops ih => exact and_congr (same state op) ih

/-- A predicate along two runs, one after the other. -/
theorem along_append {step : State → Op → State} {holds : State → Op → Prop} {state : State}
    {first second : List Op} :
    Along step holds state (first ++ second) ↔
      Along step holds state first ∧ Along step holds (runOps step state first) second := by
  induction first generalizing state with
  | nil => simp
  | cons op ops ih => simp [ih, and_assoc]

instance decidableAlong (step : State → Op → State) (holds : State → Op → Prop)
    [∀ state op, Decidable (holds state op)] :
    (state : State) → (ops : List Op) → Decidable (Along step holds state ops)
  | _, [] => isTrue trivial
  | state, op :: ops =>
    have := decidableAlong step holds (step state op) ops
    inferInstanceAs (Decidable (_ ∧ _))

/-- A predicate along a run is a predicate at each state it reaches by a proper
prefix of its operations. -/
theorem along_iff_starts {step : State → Op → State} {holds : State → Op → Prop}
    {state : State} {ops : List Op} :
    Along step holds state ops ↔
      ∀ before op after, ops = before ++ op :: after → holds (runOps step state before) op := by
  induction ops generalizing state with
  | nil => simp
  | cons first rest ih =>
      rw [along_cons, ih]
      constructor
      · rintro ⟨head, tail⟩ before op after split
        cases before with
        | nil =>
            obtain ⟨rfl, rfl⟩ := List.cons.inj split
            exact head
        | cons earlier before =>
            obtain ⟨rfl, rest_eq⟩ := List.cons.inj split
            exact tail before op after rest_eq
      · intro every
        refine ⟨every [] first rest rfl, fun before op after split => ?_⟩
        exact every (first :: before) op after (by rw [split, List.cons_append])

/-- An invariant that every permitted step keeps, and under which every
permitted step is good, makes every step of a permitted run good. -/
theorem Along.of_invariant {step : State → Op → State} {permitted good : State → Op → Prop}
    (inv : State → Prop)
    (keeps : ∀ state op, inv state → permitted state op → inv (step state op))
    (sound : ∀ state op, inv state → permitted state op → good state op)
    {state : State} {ops : List Op} (start : inv state) (run : Along step permitted state ops) :
    Along step good state ops := by
  induction ops generalizing state with
  | nil => trivial
  | cons op ops ih =>
      obtain ⟨here, later⟩ := run
      exact ⟨sound state op start here, ih (keeps state op start here) later⟩

/-- The same invariant holds of the state a permitted run ends in. -/
theorem Along.invariant_end {step : State → Op → State} {permitted : State → Op → Prop}
    (inv : State → Prop)
    (keeps : ∀ state op, inv state → permitted state op → inv (step state op))
    {state : State} {ops : List Op} (start : inv state) (run : Along step permitted state ops) :
    inv (runOps step state ops) := by
  induction ops generalizing state with
  | nil => exact start
  | cons op ops ih =>
      obtain ⟨here, later⟩ := run
      exact ih (keeps state op start here) later

end GrubLegacy.Base
