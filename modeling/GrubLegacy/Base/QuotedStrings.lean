import Mathlib

/-!
# Folds over the quoted strings of a text

A fold takes a step on every character between quotes, passes over what stands between two
strings, and looks before each string whether it is done.
-/

namespace GrubLegacy.Base

variable {Symbol State Other : Type} [DecidableEq Symbol]

structure StringFold (Symbol State : Type) where
  quote : Symbol
  done : State → Bool
  step : State → Symbol → State

/-- Whether the fold was done at its end, and the state it has there. -/
structure Folded (State : Type) where
  done : Bool
  state : State

namespace StringFold

def run (fold : StringFold Symbol State) : (inside : Bool) → State → List Symbol → Folded State
  | _, state, [] => ⟨fold.done state, state⟩
  | true, state, c :: rest =>
      if c = fold.quote then fold.run false state rest
      else fold.run true (fold.step state c) rest
  | false, state, c :: rest =>
      if fold.done state then ⟨true, state⟩
      else if c = fold.quote then fold.run true state rest
      else fold.run false state rest

attribute [local simp] run

/-- A run that is done stops. -/
theorem run_done {fold : StringFold Symbol State} {state : State} {input : List Symbol}
    (done : fold.done state = true) : fold.run false state input = ⟨true, state⟩ := by
  cases input with
  | nil => simp [run, done]
  | cons c rest => simp [run, done]

/-- What stands before a string is passed over. -/
theorem run_gap {fold : StringFold Symbol State} {state : State} {gap rest : List Symbol}
    (more : fold.done state = false) (free : fold.quote ∉ gap) :
    fold.run false state (gap ++ fold.quote :: rest) = fold.run true state rest := by
  induction gap with
  | nil => simp [run, more]
  | cons c gap ih =>
      obtain ⟨other, free⟩ := by simpa using free
      simpa [run, more, Ne.symm other] using ih free

/-- A string is folded up to its quote. -/
theorem run_string {fold : StringFold Symbol State} {state : State} {text rest : List Symbol}
    (free : fold.quote ∉ text) :
    fold.run true state (text ++ fold.quote :: rest) =
      fold.run false (text.foldl fold.step state) rest := by
  induction text generalizing state with
  | nil => simp [run]
  | cons c text ih =>
      obtain ⟨other, free⟩ := by simpa using free
      simpa [run, Ne.symm other] using ih free

/-- What every step keeps holds at the end. -/
theorem run_keeps {fold : StringFold Symbol State} {holds : State → Prop}
    (kept : ∀ state c, holds state → holds (fold.step state c)) {inside : Bool} {state : State}
    {input : List Symbol} (start : holds state) : holds (fold.run inside state input).state := by
  induction input generalizing inside state with
  | nil => exact start
  | cons c rest ih =>
      cases inside with
      | true =>
          rw [run]
          split
          · exact ih start
          · exact ih (kept state c start)
      | false =>
          rw [run]
          split_ifs
          · exact start
          · exact ih start
          · exact ih start

/-- Two folds go along together until both are lost. -/
theorem run_together {fold : StringFold Symbol State} {other : StringFold Symbol Other}
    (sameQuote : fold.quote = other.quote) {together : State → Other → Prop}
    {lost : State → Prop} {lostOther : Other → Prop}
    (sameDone : ∀ state right, together state right → fold.done state = other.done right)
    (steps : ∀ state right c, together state right →
      together (fold.step state c) (other.step right c) ∨
        lost (fold.step state c) ∧ lostOther (other.step right c))
    (keepsLost : ∀ state c, lost state → lost (fold.step state c))
    (keepsOther : ∀ right c, lostOther right → lostOther (other.step right c))
    {inside : Bool} {state : State} {right : Other} {input : List Symbol}
    (start : together state right) :
    together (fold.run inside state input).state (other.run inside right input).state ∨
      lost (fold.run inside state input).state ∧
        lostOther (other.run inside right input).state := by
  induction input generalizing inside state right with
  | nil => exact .inl start
  | cons c rest ih =>
      have same := sameDone state right start
      cases inside with
      | true =>
          rw [run, run, ← sameQuote]
          split
          · exact ih start
          · rcases steps state right c start with still | ⟨left, right⟩
            · exact ih still
            · exact .inr ⟨run_keeps keepsLost left, run_keeps keepsOther right⟩
      | false =>
          rw [run, run, ← sameQuote, ← same]
          split_ifs
          · exact .inl start
          · exact ih start
          · exact ih start

end StringFold

end GrubLegacy.Base
