import Mathlib

/-!
# Calling an iterator again and again

An iterator keeps its position in a state that is handed from call to call. Each
call finds a next item, says that there is none, or faults. `Enumerates` relates a
state to the list of all items found from it on, so it also says that the calls
come to an end. `Ends` says only that, and has an induction rule along the walk.
`FindsThen` adds what holds where the calls stop, for an iterator that another one calls.
-/

namespace GrubLegacy.Base

universe u v

/-- The outcome of a call. -/
inductive Scan (State : Type u) where
  | found (state : State)
  | stop (state : State)
  | fault

variable {State : Type u} {Item : Type v}

/-- The calls from `state` on find these items, and then say that there is none. -/
def Enumerates (next : State → Scan State) (item : State → Item) : State → List Item → Prop
  | state, [] => ∃ last, next state = .stop last
  | state, first :: rest => ∃ state', next state = .found state' ∧ item state' = first ∧
      Enumerates next item state' rest

/-- The call with this outcome and those that follow it find these items, and then stop
where `after` holds. -/
def FindsThen (next : State → Scan State) (item : State → Item) (after : State → Prop) :
    Scan State → List Item → Prop
  | outcome, [] => ∃ last, outcome = .stop last ∧ after last
  | outcome, first :: rest => ∃ state, outcome = .found state ∧ item state = first ∧
      FindsThen next item after (next state) rest

/-- After a call with this outcome the calls come to an end. -/
inductive Ends (next : State → Scan State) : Scan State → Prop
  | stop {state : State} : Ends next (.stop state)
  | found {state : State} (later : Ends next (next state)) : Ends next (.found state)

/-- A property of the states a walk that ends passes through, from the end on. -/
theorem Ends.induction {next : State → Scan State} {holds : State → Prop}
    (stop : ∀ state last, next state = .stop last → holds state)
    (found : ∀ state after, next state = .found after → holds after → holds state)
    {state : State} (ends : Ends next (next state)) : holds state := by
  generalize outcome : next state = scan at ends
  induction ends generalizing state with
  | stop => exact stop state _ outcome
  | found later ih => exact found state _ outcome (ih rfl)

/-- What holds where the calls stop can be replaced by what follows from it. -/
theorem FindsThen.imp {next : State → Scan State} {item : State → Item}
    {after after' : State → Prop} (onward : ∀ last, after last → after' last)
    {outcome : Scan State} {items : List Item} (finds : FindsThen next item after outcome items) :
    FindsThen next item after' outcome items := by
  induction items generalizing outcome with
  | nil =>
      obtain ⟨last, stops, holds⟩ := finds
      exact ⟨last, stops, onward last holds⟩
  | cons first rest ih =>
      obtain ⟨state, goes, isFirst, tail⟩ := finds
      exact ⟨state, goes, isFirst, ih tail⟩

/-- The items are enumerated just when the first scan finds the first one, and so on. -/
theorem enumerates_iff_findsThen {next : State → Scan State} {item : State → Item}
    {state : State} {items : List Item} :
    Enumerates next item state items ↔ FindsThen next item (fun _ => True) (next state) items := by
  induction items generalizing state with
  | nil => exact exists_congr fun last => (iff_of_eq (and_true _)).symm
  | cons first rest ih =>
      exact exists_congr fun state' => and_congr_right fun _ => and_congr_right fun _ => ih

/-- The calls find one list of items only. -/
theorem Enumerates.unique {next : State → Scan State} {item : State → Item} {state : State}
    {items items' : List Item} (left : Enumerates next item state items)
    (right : Enumerates next item state items') : items = items' := by
  induction items generalizing state items' with
  | nil =>
      obtain ⟨last, stops⟩ := left
      cases items' with
      | nil => rfl
      | cons first rest =>
          obtain ⟨state', goes, _⟩ := right
          rw [stops] at goes
          cases goes
  | cons first rest ih =>
      obtain ⟨state', goes, isFirst, tail⟩ := left
      cases items' with
      | nil =>
          obtain ⟨last, stops⟩ := right
          rw [goes] at stops
          cases stops
      | cons first' rest' =>
          obtain ⟨state'', goes', isFirst', tail'⟩ := right
          obtain rfl : state' = state'' := Scan.found.inj (goes.symm.trans goes')
          rw [← isFirst, ← isFirst', ih tail tail']

/-- An enumeration does not start with a fault. -/
theorem Enumerates.runs {next : State → Scan State} {item : State → Item} {state : State}
    {items : List Item} (enumerates : Enumerates next item state items) : next state ≠ .fault := by
  intro faults
  cases items with
  | nil =>
      obtain ⟨last, stops⟩ := enumerates
      rw [faults] at stops
      cases stops
  | cons first rest =>
      obtain ⟨state', goes, _⟩ := enumerates
      rw [faults] at goes
      cases goes

/-- What is noted of each item can be changed. -/
theorem Enumerates.map {next : State → Scan State} {state : State} {states : List State}
    (enumerates : Enumerates next id state states) (item : State → Item) :
    Enumerates next item state (states.map item) := by
  induction states generalizing state with
  | nil => exact enumerates
  | cons first rest ih =>
      obtain ⟨state', goes, rfl, tail⟩ := enumerates
      exact ⟨state', goes, rfl, ih tail⟩

/-- An enumeration ends. -/
theorem Enumerates.ends {next : State → Scan State} {item : State → Item} {state : State}
    {items : List Item} (enumerates : Enumerates next item state items) :
    Ends next (next state) := by
  induction items generalizing state with
  | nil =>
      obtain ⟨last, stops⟩ := enumerates
      rw [stops]
      exact .stop
  | cons first rest ih =>
      obtain ⟨state', goes, _, tail⟩ := enumerates
      rw [goes]
      exact .found (ih tail)

end GrubLegacy.Base
