import GrubLegacy.Inflate.BlockHeaders

/-!
# The windows

`inflate_window` fills the window with the next part of what the stream stands for, from wherever the
last call has left it: between blocks, in a stored block, or in the codes of a block.
-/

namespace GrubLegacy.Inflate

open Base Gunzip Loader Stage2 Rfc1951

variable {file : OpenFile} {offset : Int} {start : Input} {state : InflateState} {p turns : Nat}
  {out out' contents : List UInt8} {bits rest : List Bool} {stale : Stale}

/-! ## Blocks -/

/-- What `inflate_codes_in_window` begins with. -/
def InflateState.locals (state : InflateState) : Locals where
  bits := state.bits
  slide := state.slide
  w := state.wp
  n := state.inflateN
  d := state.inflateD
  codeState := state.codeState

/-- The output is in the window up to `wp`, and the input is read up to `p`. -/
def InflateState.At (state : InflateState) (file : OpenFile) (offset : Int) (start : Input) (p : Nat)
    (out : List UInt8) : Prop :=
  Placed file offset start state.bits state.slide state.wp p out

/-- At its place a state has no error, if no read has. -/
theorem InflateState.At.noError (at_ : state.At file offset start p out)
    (clear : ∀ n, (inputAfter file offset start n).errnum = .none) :
    state.input.errnum = .none := by
  obtain ⟨⟨-, input, -, -⟩, -, -⟩ := at_
  have isInput : state.input = _ := input
  rw [isInput, clear]

/-- In a block, of which these bits are left. -/
inductive InBlock (file : OpenFile) (offset : Int) (start : Input) (state : InflateState) (p : Nat)
    (out : List UInt8) : List Bool → List UInt8 → Prop
  | stored {data : List UInt8} (placed : state.At file offset start p out)
      (isStored : state.blockType = 0) (empty : state.bk = 0) (left : state.blockLen = data.length)
      (reads : Reads file offset start p (streamBits data)) :
      InBlock file offset start state p out (streamBits data) (out ++ data)
  | coded {lit dist : List Nat} {bits : List Bool} {out' : List UInt8}
      (isCoded : state.blockType = 1 ∨ state.blockType = 2) (begun : state.blockLen ≠ 0)
      (tables : BlockTables state lit dist)
      (inCodes : InCodes file offset start lit dist state.locals p out bits out') :
      InBlock file offset start state p out bits out'

/-- In a block the state is at its place. -/
theorem InBlock.at_ (inBlock : InBlock file offset start state p out bits out') :
    state.At file offset start p out := by
  cases inBlock with
  | stored placed => exact placed
  | coded _ _ _ inCodes => exact inCodes.placed

/-- The rest of a block only adds to the output, -/
theorem InBlock.prefix_ (inBlock : InBlock file offset start state p out bits out') :
    out <+: out' := by
  cases inBlock with
  | stored => exact List.prefix_append _ _
  | coded _ _ _ inCodes => exact inCodes.prefix_

/-- so a block does, -/
theorem Rfc1951.Block.prefix_ {position : Nat} {final : Bool}
    (block : Block position final out bits out') : out <+: out' := by
  cases block with
  | stored => exact List.prefix_append _ _
  | fixed codes => exact codes.prefix_
  | dynamic _ codes => exact codes.prefix_

/-- all blocks do -/
theorem Rfc1951.Blocks.prefix_ {position : Nat} (blocks : Blocks position out bits contents) :
    out <+: contents := by
  induction blocks with
  | last block => exact block.prefix_
  | more block _ ih => exact block.prefix_.trans ih

/-- `get_new_block` comes to the body of the block. -/
theorem getNewBlock_spec {final : Bool} (block : Block p final out bits out')
    (at_ : state.At file offset start p out) (reads : Reads file offset start p bits) :
    ∃ p' bits', InBlock file offset start (getNewBlock file offset state stale) p' out bits' out' ∧
      p' + bits'.length = p + bits.length ∧ p < p' ∧
      (getNewBlock file offset state stale).lastBlock = final.toNat ∧
      (getNewBlock file offset state stale).wp = state.wp := by
  obtain ⟨bitsAt, holds, place⟩ := at_
  -- the first three bits of any block
  have header : ∀ {a b : Bool} {body : List Bool},
      Reads file offset start p (final :: a :: b :: body) →
      ∃ bits', (grab file offset 1 state.bits).1 = final.toNat ∧
        grab file offset 2 (grab file offset 1 state.bits).2 = (ofBits [a, b], bits') ∧
        BitsAt file offset start bits' (p + 3) ∧ Reads file offset start (p + 3) body := by
    intro a b body reads
    have split : final :: a :: b :: body = [final] ++ ([a, b] ++ body) := rfl
    rw [split] at reads
    obtain ⟨readsFinal, reads⟩ := reads_append.mp reads
    obtain ⟨readsType, readsBody⟩ := reads_append.mp reads
    obtain ⟨isFinal, at₁⟩ := bitsAt.grab_reads readsFinal (by simp [bmax])
    obtain ⟨isType, at₂⟩ := at₁.grab_reads readsType (by simp [bmax])
    exact ⟨_, by simpa [ofBits] using isFinal, Prod.ext isType rfl, at₂, readsBody⟩
  cases block with
  | @stored data pad len short aligned lenBits dataLength =>
      obtain ⟨bits', isFinal, isType, at₃, readsBody⟩ := header reads
      have isStored : ofBits [false, false] = 0 := rfl
      obtain ⟨bits'', result, at₄, empty⟩ := @initStoredBlock_spec file offset start
        { state.restore bits' with lastBlock := final.toNat, blockType := 0 } (p + 3) at₃ pad len _
        short aligned lenBits readsBody
      obtain ⟨-, readsBody⟩ := reads_append.mp readsBody
      obtain ⟨-, readsBody⟩ := reads_append.mp readsBody
      obtain ⟨-, readsData⟩ := reads_append.mp readsBody
      have built : getNewBlock file offset state stale =
          { state.restore bits'' with
            lastBlock := final.toNat, blockType := 0, blockLen := ofBits len } := by
        simp only [getNewBlock, isFinal, isType, isStored, if_true, result]
        rfl
      rw [built]
      have begins : p + 3 + pad.length + len.length + (len.map (!·)).length =
          p + 3 + pad.length + 32 := by
        rw [List.length_map, lenBits]
      rw [begins] at readsData
      refine ⟨p + 3 + pad.length + 32, streamBits data,
        .stored ⟨at₄, holds, place⟩ rfl empty dataLength.symm readsData, ?_, by omega, rfl, rfl⟩
      simp only [List.length_cons, List.length_append, List.length_map, lenBits]
      omega
  | @fixed _ codes isCodes =>
      obtain ⟨bits', isFinal, isType, at₃, readsBody⟩ := header reads
      have isFixed : ofBits [true, false] = 1 := rfl
      obtain ⟨tl, td, bl, bd, result, tables⟩ := initFixedBlock_spec stale
        { state.restore bits' with lastBlock := final.toNat, blockType := 1 }
      have built : getNewBlock file offset state stale =
          { state.restore bits' with
            lastBlock := final.toNat, blockType := 1, tl := tl, td := td, bl := bl, bd := bd,
            codeState := 0, blockLen := state.blockLen + 1 } := by
        simp only [getNewBlock, isFinal, isType, isFixed, if_true, result]
        rfl
      rw [built]
      refine ⟨p + 3, codes, .coded (.inl rfl) (Nat.succ_ne_zero _) tables
        ⟨⟨at₃, holds, place⟩, readsBody, .inl ⟨rfl, isCodes⟩⟩, ?_, by omega, rfl, rfl⟩
      simp only [List.length_cons]
      omega
  | @dynamic _ lit dist codes own isCodes =>
      obtain ⟨bits', isFinal, isType, at₃, readsBody⟩ := header reads
      have isDynamic : ofBits [false, true] = 2 := rfl
      obtain ⟨readsHeader, readsCodes⟩ := reads_append.mp readsBody
      obtain ⟨bits'', tl, td, bl, bd, result, tables, at₄⟩ := @initDynamicBlock_spec file offset start
        { state.restore bits' with lastBlock := final.toNat, blockType := 2 } (p + 3) stale lit dist
        own at₃ readsHeader
      have built : getNewBlock file offset state stale =
          { state.restore bits'' with
            lastBlock := final.toNat, blockType := 2, tl := tl, td := td, bl := bl, bd := bd,
            codeState := 0, blockLen := state.blockLen + 1 } := by
        have others : ¬ 2 = 0 ∧ ¬ 2 = 1 := by decide
        simp only [getNewBlock, isFinal, isType, isDynamic, if_neg others.1, if_neg others.2, if_true,
          result]
        rfl
      rw [built]
      refine ⟨p + 3 + own.bits.length, codes, .coded (.inr rfl) (Nat.succ_ne_zero _) tables
        ⟨⟨at₄, holds, place⟩, readsCodes, .inl ⟨rfl, isCodes⟩⟩, ?_, by omega, rfl, rfl⟩
      simp only [List.length_cons, List.length_append]
      omega

/-- So many bytes of the data of a stored block have been put into the window. -/
structure Passed (file : OpenFile) (offset : Int) (start : Input) (state : InflateState) (p : Nat)
    (out data : List UInt8) (e : Nat) (state' : InflateState) : Prop where
  result : ∃ input slide, state' =
    { state with
      input := input, slide := slide, wp := state.wp + e, blockLen := data.length - e }
  at_ : state'.At file offset start (p + 8 * e) (out ++ data.take e)
  reads : Reads file offset start (p + 8 * e) (streamBits (data.drop e))

/-- Nothing is put into it where there is no place or nothing is left. -/
theorem passed_zero {data : List UInt8} (at_ : state.At file offset start p out)
    (left : state.blockLen = data.length) (reads : Reads file offset start p (streamBits data)) :
    Passed file offset start state p out data 0 state where
  result := ⟨state.input, state.slide, by rw [Nat.add_zero, Nat.sub_zero, ← left]⟩
  at_ := by simpa using at_
  reads := by simpa using reads

/-- The bytes of a stored block go into the window, as many as it has place for. -/
theorem passThrough_spec (clear : ∀ n, (inputAfter file offset start n).errnum = .none)
    {data : List UInt8} {fuel : Nat} (at_ : state.At file offset start p out)
    (empty : state.bk = 0) (left : state.blockLen = data.length) (room : state.wp ≤ wsize)
    (reads : Reads file offset start p (streamBits data)) (enough : wsize - state.wp ≤ fuel) :
    ∃ e, e = min data.length (wsize - state.wp) ∧
      Passed file offset start state p out data e (passThrough file offset fuel state) := by
  induction fuel generalizing state p out data with
  | zero => exact ⟨0, by omega, passed_zero at_ left reads⟩
  | succ fuel ih =>
      by_cases more : data.length ≠ 0 ∧ state.wp < wsize
      · have noError := at_.noError clear
        obtain ⟨⟨aligned, input, b, short⟩, holds, place⟩ := at_
        simp only [InflateState.bits, empty, Nat.add_zero] at aligned input b
        obtain ⟨q, rfl⟩ := aligned
        obtain ⟨byte, data, rfl⟩ := List.exists_cons_of_ne_nil
          (fun none_ => more.1 (by rw [none_, List.length_nil]) : data ≠ [])
        obtain ⟨isByte, readsRest⟩ := byteAt_of_reads reads
        rw [Nat.mul_div_cancel_left _ (by decide)] at input
        have byteRead : getByte file offset state.input =
            (byte, inputAfter file offset start (q + 1)) := by
          rw [input, ← isByte]
          rfl
        have isPlace : state.wp = out.length % wsize := by rw [place, Nat.mod_eq_of_lt more.2]
        have next : InflateState.At
            { state with
              input := inputAfter file offset start (q + 1)
              slide := Function.update state.slide state.wp byte
              wp := state.wp + 1
              blockLen := state.blockLen - 1 } file offset start (8 * (q + 1)) (out ++ [byte]) := by
          refine ⟨⟨?_, ?_, ?_, ?_⟩, holds.push isPlace byte, ?_⟩
          · simp [InflateState.bits, empty]
          · simp [InflateState.bits, empty]
          · simpa [InflateState.bits, empty, field] using b
          · simp [InflateState.bits, empty]
          · rw [List.length_append, List.length_singleton]
            simp only [wsize] at isPlace ⊢
            omega
        obtain ⟨e, isE, ⟨input', slide, result⟩, after, readsAfter⟩ := ih next empty
          (by simp [left]) (by dsimp only; omega) readsRest (by dsimp only; omega)
        dsimp only at isE result
        have total : 8 * (q + 1) + 8 * e = 8 * q + 8 * (e + 1) := by omega
        have moved : state.wp + 1 + e = state.wp + (e + 1) := by omega
        have remaining : data.length - e = (byte :: data).length - (e + 1) := by
          rw [List.length_cons]
          omega
        rw [total] at after readsAfter
        rw [moved, remaining] at result
        rw [passThrough, if_pos ⟨by rw [left]; exact more.1, more.2, noError⟩, byteRead]
        refine ⟨e + 1, by rw [List.length_cons]; omega, ⟨input', slide, result⟩, ?_, readsAfter⟩
        rw [List.take_succ_cons, List.append_cons]
        exact after
      · have stays : passThrough file offset (fuel + 1) state = state := by
          rw [passThrough, if_neg]
          rintro ⟨some_, below, -⟩
          exact more ⟨left ▸ some_, below⟩
        rw [stays]
        exact ⟨0, by omega, passed_zero at_ left reads⟩

/-- `inflate_codes_in_window` comes to the end of the block or of the window. -/
theorem inflateCodesInWindow_spec {lit dist : List Nat} (tables : BlockTables state lit dist)
    (inCodes : InCodes file offset start lit dist state.locals p out bits out')
    (room : state.wp < wsize) (lookups : bmax < turns) (enough : wsize < turns) :
    ∃ locals ends out₁, inflateCodesInWindow file offset state turns =
        { state.restore locals.bits with
          slide := locals.slide
          wp := locals.w
          codeState := locals.codeState
          inflateN := locals.n
          inflateD := locals.d
          blockLen := if ends then 0 else state.blockLen } ∧
      out₁.length + state.wp = out.length + locals.w ∧
      LeftAt file offset start lit dist out' (p + bits.length) locals ends out₁ := by
  obtain ⟨locals, ends, out₁, result, sum, left⟩ := inCodes.runCodes tables lookups room
    (Nat.lt_of_le_of_lt (Nat.sub_le _ _) enough)
  refine ⟨locals, ends, out₁, ?_, sum, left⟩
  rw [inflateCodesInWindow, ← InflateState.locals, result]

/-! ## The rest of the stream -/

/-- What comes after a block: nothing if it is the last one, or else more blocks. -/
inductive After (file : OpenFile) (offset : Int) (start : Input) (lastBlock p : Nat)
    (out contents : List UInt8) : List Bool → Prop
  | done (isLast : lastBlock ≠ 0) (whole : out = contents) :
      After file offset start lastBlock p out contents []
  | more {rest : List Bool} (notLast : lastBlock = 0) (reads : Reads file offset start p rest)
      (blocks : Blocks p out rest contents) : After file offset start lastBlock p out contents rest

/-- So many bits are left of the stream, of which the output has been given up to here. -/
inductive Ahead (file : OpenFile) (offset : Int) (start : Input) (contents : List UInt8)
    (state : InflateState) (p : Nat) (out : List UInt8) : (left : Nat) → Prop
  | between {rest : List Bool} (placed : state.At file offset start p out)
      (idle : state.blockLen = 0)
      (after : After file offset start state.lastBlock p out contents rest) :
      Ahead file offset start contents state p out rest.length
  | inside {bits rest : List Bool} {out' : List UInt8} (busy : state.blockLen ≠ 0)
      (inBlock : InBlock file offset start state p out bits out')
      (after : After file offset start state.lastBlock (p + bits.length) out' contents rest) :
      Ahead file offset start contents state p out (bits.length + rest.length)

/-- and what follows a block. -/
theorem After.prefix_ {lastBlock : Nat}
    (after : After file offset start lastBlock p out contents rest) : out <+: contents := by
  cases after with
  | done _ whole => exact whole ▸ List.prefix_rfl
  | more _ _ blocks => exact blocks.prefix_

namespace Ahead

variable {left : Nat} (ahead : Ahead file offset start contents state p out left)

include ahead

/-- Between two windows the state is at its place, -/
theorem at_ : state.At file offset start p out := by
  cases ahead with
  | between placed => exact placed
  | inside _ inBlock => exact inBlock.at_

/-- and its output is the start of the contents. -/
theorem prefix_ : out <+: contents := by
  cases ahead with
  | between _ _ after => exact after.prefix_
  | inside _ inBlock after => exact inBlock.prefix_.trans after.prefix_

end Ahead

/-- How far the window is filled by a step, with what is left of the stream, which ends at a place. -/
structure Filled (file : OpenFile) (offset : Int) (start : Input) (contents : List UInt8)
    (state : InflateState) (out : List UInt8) (most stop : Nat) (state' : InflateState) (p' : Nat)
    (out' : List UInt8) (left : Nat) : Prop where
  ahead : Ahead file offset start contents state' p' out' left
  isStop : p' + left = stop
  moved : out'.length + state.wp = out.length + state'.wp
  room : state'.wp ≤ wsize
  progress : (state'.blockLen = 0 ∧ left ≤ most) ∨ state'.wp = wsize

/-- The body of a block fills the window or comes to the end of the block. -/
theorem InBlock.body (clear : ∀ n, (inputAfter file offset start n).errnum = .none)
    (inBlock : InBlock file offset start state p out bits out') (room : state.wp < wsize)
    (lookups : bmax < turns) (enough : wsize < turns)
    (after : After file offset start state.lastBlock (p + bits.length) out' contents rest) :
    ∃ p₁ out₁ left, Filled file offset start contents state out rest.length
      (p + bits.length + rest.length)
      (if state.blockType = 0 then passThrough file offset wsize state
        else inflateCodesInWindow file offset state turns) p₁ out₁ left := by
  cases inBlock with
  | @stored data placed isStored empty left reads =>
      obtain ⟨e, isE, ⟨input, slide, result⟩, next, readsRest⟩ :=
        passThrough_spec clear placed empty left room.le reads (Nat.sub_le _ _)
      rw [result] at next
      rw [if_pos isStored, result]
      by_cases whole : e = data.length
      · subst whole
        refine ⟨_, _, _, .between next (Nat.sub_self _) ?_, ?_, ?_, ?_,
          .inl ⟨Nat.sub_self _, Nat.le_refl _⟩⟩
        · rw [List.take_length]
          rwa [streamBits_length] at after
        · rw [streamBits_length]
        · rw [List.take_length, List.length_append]
          dsimp only
          omega
        · dsimp only
          omega
      · have stays : After file offset start state.lastBlock
            (p + 8 * e + (streamBits (data.drop e)).length) (out ++ data.take e ++ data.drop e)
            contents rest := by
          have place : p + 8 * e + (streamBits (data.drop e)).length =
              p + (streamBits data).length := by
            rw [streamBits_length, streamBits_length, List.length_drop]
            omega
          rwa [place, List.append_assoc, List.take_append_drop]
        refine ⟨_, _, _, .inside ?_ (.stored next isStored empty ?_ readsRest) stays, ?_, ?_, ?_,
          .inr ?_⟩
        · dsimp only
          omega
        · simp
        · rw [streamBits_length, streamBits_length, List.length_drop]
          omega
        · rw [List.length_append, List.length_take]
          dsimp only
          omega
        · dsimp only
          omega
        · dsimp only
          omega
  | @coded lit dist _ _ isCoded begun tables inCodes =>
      obtain ⟨locals, ends, out₁, result, sum, left⟩ :=
        inflateCodesInWindow_spec tables inCodes room lookups enough
      rw [if_neg (by omega), result]
      cases left with
      | ended placed below =>
          exact ⟨_, _, _, .between placed rfl after, rfl, sum, below.le,
            .inl ⟨rfl, Nat.le_refl _⟩⟩
      | @full p₁ _ bits₁ inCodes isFull isStop =>
          rw [← isStop] at after
          exact ⟨_, _, _, .inside begun
            (.coded isCoded begun ⟨tables.literal, tables.distance, tables.litShort,
              tables.distShort⟩ inCodes) after, by omega, sum, isFull.le, .inr isFull⟩

/-- Whether a block is begun, which takes one more turn. -/
def InflateState.begun (state : InflateState) : Nat := if state.blockLen = 0 then 0 else 1

/-- In a block its type is one of the three. -/
theorem InBlock.blockType_le (inBlock : InBlock file offset start state p out bits out') :
    state.blockType ≤ 2 := by
  cases inBlock with
  | stored _ isStored => omega
  | coded isCoded => omega

/-- With the window full the loop stops. -/
theorem inflateLoop_full {fuel : Nat} (some_ : 0 < fuel) (full : state.wp = wsize) :
    inflateLoop file offset stale turns fuel state = (state, true) := by
  obtain ⟨fuel, rfl⟩ := Nat.exists_eq_succ_of_ne_zero (Nat.ne_of_gt some_)
  rw [inflateLoop, if_neg (fun more => Nat.ne_of_lt more.1 full)]

/-- The window is filled, or the stream is at its end. -/
def Stops (file : OpenFile) (offset : Int) (start : Input) (contents : List UInt8)
    (state : InflateState) (out : List UInt8) (stop : Nat) (result : InflateState × Bool) : Prop :=
  ∃ p' out' left', Ahead file offset start contents result.1 p' out' left' ∧ result.2 = true ∧
    p' + left' = stop ∧ out'.length + state.wp = out.length + result.1.wp ∧ result.1.wp ≤ wsize ∧
    (result.1.wp = wsize ∨ out' = contents)

/-- The loop comes to the end of the window or of the stream. -/
theorem Ahead.inflateLoop (clear : ∀ n, (inputAfter file offset start n).errnum = .none)
    {left fuel : Nat} (ahead : Ahead file offset start contents state p out left)
    (room : state.wp ≤ wsize) (lookups : bmax < turns) (windows : wsize < turns)
    (enough : left + state.begun < fuel) :
    Stops file offset start contents state out (p + left)
      (inflateLoop file offset stale turns fuel state) := by
  induction fuel generalizing state p out left with
  | zero => omega
  | succ fuel ih =>
      by_cases full : state.wp = wsize
      · rw [inflateLoop_full (Nat.succ_pos _) full]
        exact ⟨p, out, left, ahead, rfl, rfl, rfl, room, .inl full⟩
      have below : state.wp < wsize := by omega
      rw [Inflate.inflateLoop, if_pos ⟨below, ahead.at_.noError clear⟩]
      -- a turn in a block, and then the other turns
      have turn : ∀ {state₁ : InflateState} {p₁ : Nat} {bits₁ rest : List Bool}
          {out₁ : List UInt8}, InBlock file offset start state₁ p₁ out bits₁ out₁ →
          After file offset start state₁.lastBlock (p₁ + bits₁.length) out₁ contents rest →
          state₁.wp = state.wp → p₁ + bits₁.length + rest.length = p + left →
          rest.length < fuel →
          Stops file offset start contents state out (p + left)
            (let state := if 2 < state₁.blockType then state₁.bad state₁.input else state₁
              if state.input.errnum ≠ .none then (state, false)
              else if state.blockType = 0 then
                Inflate.inflateLoop file offset stale turns fuel (passThrough file offset wsize state)
              else Inflate.inflateLoop file offset stale turns fuel
                (inflateCodesInWindow file offset state turns)) := by
        intro state₁ p₁ bits₁ rest out₁ inBlock after sameW isStop few
        obtain ⟨p₂, out₂, left₂, ahead₂, isStop₂, moved, room₂, progress⟩ :=
          inBlock.body clear (sameW ▸ below) lookups windows after
        simp only [if_neg (Nat.not_lt_of_le inBlock.blockType_le),
          if_neg (not_not_intro (inBlock.at_.noError clear)), ← apply_ite]
        generalize (if state₁.blockType = 0 then passThrough file offset wsize state₁
          else inflateCodesInWindow file offset state₁ turns) = state₂ at ahead₂ moved room₂ progress
        rcases progress with ⟨idle, few₂⟩ | isFull
        · obtain ⟨p', out', left', ahead', returns, isStop', moved', room', last⟩ :=
            ih ahead₂ room₂ (by rw [InflateState.begun, if_pos idle]; omega)
          exact ⟨p', out', left', ahead', returns, by omega, by omega, room', last⟩
        · rw [inflateLoop_full (by omega) isFull]
          exact ⟨p₂, out₂, left₂, ahead₂, rfl, by omega, by rw [← sameW]; exact moved, room₂,
            .inl isFull⟩
      cases ahead with
      | between placed idle after =>
          cases after with
          | done isLast whole =>
              rw [if_pos ⟨idle, isLast⟩]
              exact ⟨p, out, _, .between placed idle (.done isLast whole), rfl, rfl, rfl, room,
                .inr whole⟩
          | more notLast reads blocks =>
              rw [if_neg (fun ends => ends.2 notLast), if_pos idle]
              cases blocks with
              | last block =>
                  obtain ⟨p₁, bits₁, inBlock, isStop, later, isLast, sameW⟩ :=
                    @getNewBlock_spec _ _ _ _ _ _ _ _ stale _ block placed reads
                  have isDone : (getNewBlock file offset state stale).lastBlock ≠ 0 := by
                    rw [isLast]
                    decide
                  exact turn inBlock (.done isDone rfl) sameW isStop (by rw [List.length_nil]; omega)
              | @more _ _ out₁ _ bits rest block blocks =>
                  obtain ⟨readsBlock, readsRest⟩ := reads_append.mp reads
                  obtain ⟨p₁, bits₁, inBlock, isStop, later, isLast, sameW⟩ :=
                    @getNewBlock_spec _ _ _ _ _ _ _ _ stale _ block placed readsBlock
                  have both := @List.length_append _ bits rest
                  rw [← isStop] at readsRest blocks
                  exact turn inBlock (.more isLast readsRest blocks) sameW (by omega) (by omega)
      | inside busy inBlock after =>
          rw [InflateState.begun, if_neg busy] at enough
          rw [if_neg (fun ends => busy ends.1), if_neg busy]
          exact turn inBlock after rfl (Nat.add_assoc _ _ _) (by omega)

end GrubLegacy.Inflate
