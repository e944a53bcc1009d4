import GrubLegacy.Inflate.InflateWindow

/-!
# The bounds of the window

Whatever the data are, the inflate code stores nothing outside of its window.
-/

namespace GrubLegacy.Inflate

open Gunzip Loader

variable {file : OpenFile} {offset : Int} {state : InflateState} {stale : Stale} {locals : Locals}
  {before slide : Nat → UInt8} {w turns fuel : Nat}

/-- The window is filled up to `w`, and nothing behind its end has changed. -/
structure Bounded (before slide : Nat → UInt8) (w : Nat) : Prop where
  room : w ≤ wsize
  outside : ∀ n, wsize ≤ n → slide n = before n

/-- A store inside the window keeps what is outside. -/
theorem Bounded.store (bounded : Bounded before slide w) (room : w < wsize) (byte : UInt8) :
    Bounded before (Function.update slide w byte) (w + 1) := by
  refine ⟨room, fun n outside => ?_⟩
  rw [Function.update_of_ne (by omega), bounded.outside n outside]

/-! ## Copies -/

/-- A copy changes the bytes it is to only. -/
theorem copyBytes_outside {d e n : Nat} (outside : w + e ≤ n) :
    copyBytes slide w d e n = slide n := by
  induction e generalizing slide w d with
  | zero => rfl
  | succ e ih => rw [copyBytes, ih (by omega), Function.update_of_ne (by omega)]

/-- The pieces of a copy stay inside the window, -/
theorem copyChunks_bounded (bounded : Bounded before locals.slide locals.w)
    (room : locals.w < wsize) :
    Bounded before (copyChunks fuel locals).slide (copyChunks fuel locals).w := by
  induction fuel generalizing locals with
  | zero => exact bounded
  | succ fuel ih =>
      have mask : locals.d &&& (wsize - 1) ≤ wsize - 1 := Nat.and_le_right
      obtain ⟨d, isD⟩ : ∃ d, d = locals.d &&& (wsize - 1) := ⟨_, rfl⟩
      obtain ⟨e, isE⟩ : ∃ e, e = min (wsize - max d locals.w) locals.n := ⟨_, rfl⟩
      have fits : locals.w + e ≤ wsize := by omega
      have copied : Bounded before
          (if e ≤ (locals.w + 2 ^ 32 - d) % 2 ^ 32 then moveBytes locals.slide locals.w d e
            else copyBytes locals.slide locals.w d e) (locals.w + e) := by
        refine ⟨fits, fun n outside => ?_⟩
        rw [← bounded.outside n outside]
        split
        · rw [moveBytes, if_neg (by omega)]
        · exact copyBytes_outside (by omega)
      rw [copyChunks]
      simp only [← isD, ← isE]
      split
      · exact copied
      · next more =>
          exact ih copied (Nat.lt_of_le_of_ne fits fun full => more (.inl full))

/-- so a copy does, -/
theorem copyCode_bounded (bounded : Bounded before locals.slide locals.w)
    (room : locals.w < wsize) : Bounded before (copyCode locals).slide (copyCode locals).w := by
  rw [copyCode]
  split <;> exact copyChunks_bounded bounded room

/-! ## Codes -/

def Turn.leaves : Turn → Locals
  | .failed locals => locals
  | .left locals _ => locals
  | .goesOn locals => locals

/-- After a turn there is place in the window if the loop goes on. -/
structure Turn.Bounded (before : Nat → UInt8) (turn : Turn) : Prop where
  window : Inflate.Bounded before turn.leaves.slide turn.leaves.w
  room : ∀ next, turn = .goesOn next → next.w < wsize

/-- a turn of the code loop, -/
theorem readCode_bounded (bounded : Bounded before locals.slide locals.w)
    (room : locals.w < wsize) : (readCode file offset state turns locals).Bounded before := by
  rw [readCode]
  split
  · exact ⟨by simpa only [Turn.leaves] using bounded, fun _ other => Turn.noConfusion other⟩
  · dsimp only
    split
    · have stored := fun byte => bounded.store room byte
      split
      · exact ⟨by simpa only [Turn.leaves] using stored _, fun _ other => Turn.noConfusion other⟩
      · next more =>
          refine ⟨by simpa only [Turn.leaves] using stored _, fun next isNext => ?_⟩
          rw [← Turn.goesOn.inj isNext]
          exact Nat.lt_of_le_of_ne room more
    · split
      · exact ⟨by simpa only [Turn.leaves] using bounded, fun _ other => Turn.noConfusion other⟩
      · split
        · exact ⟨by simpa only [Turn.leaves] using bounded, fun _ other => Turn.noConfusion other⟩
        · refine ⟨by simpa only [Turn.leaves] using bounded, fun next isNext => ?_⟩
          rw [← Turn.goesOn.inj isNext]
          exact room

/-- the loop -/
theorem runCodes_bounded (bounded : Bounded before locals.slide locals.w)
    (room : locals.w < wsize) :
    Bounded before (runCodes file offset state turns fuel locals).leaves.slide
      (runCodes file offset state turns fuel locals).leaves.w := by
  induction fuel generalizing locals with
  | zero => exact bounded
  | succ fuel ih =>
      obtain ⟨turn, isTurn⟩ : ∃ turn, turn = if locals.codeState = 0 then
          readCode file offset state turns locals else .goesOn locals := ⟨_, rfl⟩
      have read : turn.Bounded before := by
        rw [isTurn]
        split
        · exact readCode_bounded bounded room
        · refine ⟨bounded, fun next isNext => ?_⟩
          rw [← Turn.goesOn.inj isNext]
          exact room
      rw [runCodes, ← isTurn]
      cases turn with
      | failed | left => exact read.window
      | goesOn next =>
          have more := read.room next rfl
          dsimp only
          split
          · exact ih read.window more
          · have copied := copyCode_bounded read.window more
            split
            · exact copied
            · next notFull => exact ih copied (Nat.lt_of_le_of_ne copied.room notFull)

/-! ## Blocks -/

/-- and the codes of a block, -/
theorem inflateCodesInWindow_bounded (bounded : Bounded before state.slide state.wp)
    (room : state.wp < wsize) :
    Bounded before (inflateCodesInWindow file offset state turns).slide
      (inflateCodesInWindow file offset state turns).wp := by
  obtain ⟨begins, isBegins⟩ : ∃ begins : Locals, begins =
      { bits := state.bits
        slide := state.slide
        w := state.wp
        n := state.inflateN
        d := state.inflateD
        codeState := state.codeState } := ⟨_, rfl⟩
  have codes := @runCodes_bounded file offset state begins before turns turns
    (by simpa only [isBegins] using bounded) (by simpa only [isBegins] using room)
  rw [inflateCodesInWindow, ← isBegins]
  generalize runCodes file offset state turns turns begins = turn at codes
  cases turn with
  | failed => exact ⟨room.le, codes.outside⟩
  | left => exact codes
  | goesOn => exact bounded

/-- and a stored block. -/
theorem passThrough_bounded (bounded : Bounded before state.slide state.wp) :
    Bounded before (passThrough file offset fuel state).slide
      (passThrough file offset fuel state).wp := by
  induction fuel generalizing state with
  | zero => exact bounded
  | succ fuel ih =>
      rw [passThrough]
      split
      · next more => exact ih (bounded.store more.2.1 _)
      · exact bounded

/-- The headers of the blocks leave the window as it is. -/
def SameWindow (state state' : InflateState) : Prop :=
  state'.slide = state.slide ∧ state'.wp = state.wp

/-- An error leaves the window. -/
theorem bad_same {input : Input} : SameWindow state (state.bad input) := ⟨rfl, rfl⟩

/-- So does either branch of a test that leaves it, -/
theorem SameWindow.ite {c : Prop} [Decidable c] {state₁ state₂ : InflateState}
    (yes : SameWindow state state₁) (no : SameWindow state state₂) :
    SameWindow state (if c then state₁ else state₂) := by
  split
  · exact yes
  · exact no

/-- and one step after the other. -/
theorem SameWindow.trans {state₁ state₂ : InflateState} (first : SameWindow state state₁)
    (second : SameWindow state₁ state₂) : SameWindow state state₂ :=
  ⟨second.1.trans first.1, second.2.trans first.2⟩

/-- The header of a stored block leaves it, -/
theorem initStoredBlock_same : SameWindow state (initStoredBlock file offset state) := by
  have any : ∀ len inverse : Nat × BitBuffer, SameWindow state
      (if len.1 = 0xffff - inverse.1 then { state.restore inverse.2 with blockLen := len.1 }
        else { state.restore inverse.2 with blockLen := len.1 }.bad inverse.2.input) :=
    fun _ _ => .ite ⟨rfl, rfl⟩ ⟨rfl, rfl⟩
  exact any _ _

/-- building the tables, -/
theorem buildTables_same {bits : BitBuffer} {lit dist : List Nat} {literalBits distanceBits most : Nat} :
    SameWindow state (buildTables state stale bits lit dist literalBits distanceBits most) :=
  .ite ⟨rfl, rfl⟩ (.ite ⟨rfl, rfl⟩ ⟨rfl, rfl⟩)

/-- the header of a dynamic block -/
theorem initDynamicBlock_same : SameWindow state (initDynamicBlock file offset state stale) := by
  rw [initDynamicBlock]
  refine .ite bad_same (.ite bad_same ?_)
  split
  · exact bad_same
  · exact buildTables_same

/-- and so that of any block. -/
theorem getNewBlock_same : SameWindow state (getNewBlock file offset state stale) := by
  have any : ∀ last type : Nat × BitBuffer, SameWindow state
      (let state := { state.restore type.2 with lastBlock := last.1, blockType := type.1 }
        if type.1 = 0 then initStoredBlock file offset state
        else if type.1 = 1 then initFixedBlock state stale
        else if type.1 = 2 then initDynamicBlock file offset state stale
        else state) := by
    intro last type
    have same : SameWindow state
        { state.restore type.2 with lastBlock := last.1, blockType := type.1 } := ⟨rfl, rfl⟩
    exact .ite (same.trans initStoredBlock_same) (.ite (same.trans buildTables_same)
      (.ite (same.trans initDynamicBlock_same) same))
  exact any _ _

/-! ## Calls -/

/-- Whatever the number of its turns, the loop stays inside the window. -/
theorem inflateLoop_bounded (bounded : Bounded before state.slide state.wp) :
    Bounded before (inflateLoop file offset stale turns fuel state).1.slide
      (inflateLoop file offset stale turns fuel state).1.wp := by
  induction fuel generalizing state with
  | zero => exact bounded
  | succ fuel ih =>
      obtain ⟨state₁, isNext⟩ : ∃ state₁, state₁ =
          if state.blockLen = 0 then getNewBlock file offset state stale else state := ⟨_, rfl⟩
      have same₁ : SameWindow state state₁ := by
        rw [isNext]
        split
        · exact getNewBlock_same
        · exact ⟨rfl, rfl⟩
      obtain ⟨state₂, isChecked⟩ : ∃ state₂, state₂ =
          if 2 < state₁.blockType then state₁.bad state₁.input else state₁ := ⟨_, rfl⟩
      have same₂ : SameWindow state₁ state₂ := by
        rw [isChecked]
        split <;> exact ⟨rfl, rfl⟩
      have bounded₂ : Bounded before state₂.slide state₂.wp := by
        rwa [same₂.1, same₂.2, same₁.1, same₁.2]
      rw [inflateLoop, ← isNext]
      dsimp only
      rw [← isChecked]
      split
      · next more =>
          split
          · exact bounded
          split
          · exact bounded₂
          split
          · exact ih (passThrough_bounded bounded₂)
          · refine ih (inflateCodesInWindow_bounded bounded₂ ?_)
            rw [same₂.2, same₁.2]
            exact more.1
      · exact bounded

/-- So does a call for a window. -/
theorem callWindow_bounded (outside : ∀ n, wsize ≤ n → state.slide n = before n) :
    Bounded before (callWindow file offset state stale turns).1.slide
      (callWindow file offset state stale turns).1.wp := by
  have begins : Bounded before ({ state with wp := 0 } : InflateState).slide
      ({ state with wp := 0 } : InflateState).wp := ⟨Nat.zero_le _, outside⟩
  exact inflateLoop_bounded begins

/-- Nothing is stored outside of the window, in any number of calls with any number of turns, for any
data and whatever was there before. -/
theorem afterCalls_bounded (file : OpenFile) (offset : Int) (state : InflateState) (stale : Stale)
    (turns calls : Nat) :
    Bounded state.slide (afterCalls file offset state stale turns (calls + 1)).1.slide
      (afterCalls file offset state stale turns (calls + 1)).1.wp := by
  have next : ∀ calls,
      (∀ n, wsize ≤ n → (afterCalls file offset state stale turns calls).1.slide n = state.slide n) →
      Bounded state.slide (afterCalls file offset state stale turns (calls + 1)).1.slide
        (afterCalls file offset state stale turns (calls + 1)).1.wp := by
    intro calls outside
    rw [afterCalls]
    exact callWindow_bounded outside
  have outside : ∀ n, wsize ≤ n →
      (afterCalls file offset state stale turns calls).1.slide n = state.slide n := by
    induction calls with
    | zero => exact fun n _ => rfl
    | succ calls ih => exact (next calls ih).outside
  exact next calls outside

end GrubLegacy.Inflate
