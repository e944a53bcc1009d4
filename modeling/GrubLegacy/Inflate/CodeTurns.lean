import GrubLegacy.Inflate.BitStream

/-!
# The codes of a block

`inflate_codes_in_window` puts what the codes stand for into the window, up to its end or to the end of
the block. A copy that the window has no place for goes on in the next window.
-/

namespace GrubLegacy.Inflate

open Base Gunzip Loader Stage2 Rfc1951

variable {file : OpenFile} {offset : Int} {start : Input}

/-! ## Lookups of codes -/

/-- The tables find the values below a limit by their codes. -/
def Finder (lens : List Nat) (limit s : Nat) (d e : List Nat) (tables : Tables) (m : Nat) : Prop :=
  ∀ value < limit, lens.getD value 0 ≠ 0 →
    (∀ bits, (valueEntry s d e bits value).e ≤ 16 ∨ (valueEntry s d e bits value).e = 99) →
    ∀ p, reversed (lens.getD value 0) p = codeOf lens value →
      ∃ bits, Finds tables 0 m p (valueEntry s d e bits value) (lens.getD value 0)

/-- A code of the stream is looked up. -/
theorem BitsAt.findCode {lens d e : List Nat} {limit s m value p : Nat} {tables : Tables}
    {bits : BitBuffer} {code : List Bool} (at_ : BitsAt file offset start bits p)
    (finder : Finder lens limit s d e tables m) (below : value < limit) (isCode : IsCode lens value code)
    (short : code.length ≤ bmax) (reads : Reads file offset start p code)
    {turns : Nat} (lookups : bmax < turns)
    (entry : ∀ bits, (valueEntry s d e bits value).e ≤ 16) :
    ∃ n bits', Inflate.findEntry file offset tables turns 0 m bits =
        .ok (valueEntry s d e n value, bits') ∧
      BitsAt file offset start bits' (p + code.length) := by
  obtain ⟨isLength, some_, isCode⟩ := isCode
  have starts := reads.reversed (Nat.le_add_right code.length bmax)
  rw [isCode, isLength] at starts
  have positive : lens.getD value 0 ≠ 0 := by
    rw [← isLength]
    exact fun none_ => some_ (List.length_eq_zero_iff.mp none_)
  obtain ⟨n, found⟩ := finder value below positive (fun bits => .inl (entry bits)) _ starts
  obtain ⟨bits', looked, after⟩ := @BitsAt.findEntry _ _ _ _ _ _ _ _ turns _ _ _ found (entry n)
    _ rfl (by omega) (by omega) at_
  rw [isLength]
  exact ⟨n, bits', looked, after⟩

/-- The tables of the code are those of the format for lengths, -/
theorem lengthTables : ∀ i < 29, cplens.getD i 0 = lengthBase i ∧ cplext.getD i 0 = lengthExtra i := by
  decide

/-- and for distances. -/
theorem distanceTables :
    ∀ j < 30, cpdist.getD j 0 = distanceBase j ∧ cpdext.getD j 0 = distanceExtra j := by
  decide

/-- No length takes fifteen extra bits, -/
theorem lengthExtra_lt {i : Nat} (length : i < 29) : lengthExtra i < 15 := by
  rw [lengthExtra]
  split <;> omega

/-- and no distance. -/
theorem distanceExtra_lt {j : Nat} (distance : j < 30) : distanceExtra j < 15 := by
  rw [distanceExtra]
  omega

/-- A literal or the end of a block. -/
theorem valueEntry_simple {s b value : Nat} {d e : List Nat} (simple : value < s)
    (short : value < 0x10000) :
    valueEntry s d e b value = { e := if value < 256 then 16 else 15, b, v := value } := by
  rw [valueEntry, if_pos simple, ush_of_lt short]

/-- An entry for a length has its base and extra bits, -/
theorem valueEntry_length {b i : Nat} (length : i < 29) :
    valueEntry 257 cplens cplext b (257 + i) = { e := lengthExtra i, b, v := lengthBase i } := by
  obtain ⟨base, extra⟩ := lengthTables i length
  have small := lengthExtra_lt length
  rw [valueEntry, if_neg (by omega), Nat.add_sub_cancel_left, base, extra, uch_of_lt (by omega)]

/-- and one for a distance too. -/
theorem valueEntry_distance {b j : Nat} (distance : j < 30) :
    valueEntry 0 cpdist cpdext b j = { e := distanceExtra j, b, v := distanceBase j } := by
  obtain ⟨base, extra⟩ := distanceTables j distance
  have small := distanceExtra_lt distance
  rw [valueEntry, if_neg (by omega), Nat.sub_zero, base, extra, uch_of_lt (by omega)]

/-! ## The window -/

/-- The window holds the last bytes of the output, each at its place. -/
def Holds (slide : Nat → UInt8) (out : List UInt8) : Prop :=
  ∀ pos < out.length, out.length ≤ pos + wsize → slide (pos % wsize) = out.getD pos 0

/-- Every window holds nothing. -/
theorem holds_nil (slide : Nat → UInt8) : Holds slide [] :=
  fun pos inside => absurd inside (Nat.not_lt_zero pos)

/-- A byte at the place of the next one is held behind the others. -/
theorem Holds.push {slide : Nat → UInt8} {out : List UInt8} (holds : Holds slide out)
    {w : Nat} (place : w = out.length % wsize) (byte : UInt8) :
    Holds (Function.update slide w byte) (out ++ [byte]) := by
  intro pos inside recent
  rw [List.length_append, List.length_singleton] at inside recent
  rcases Nat.eq_or_lt_of_le (Nat.le_of_lt_succ inside) with rfl | before
  · rw [← place, Function.update_self, List.getD_append_right _ _ _ _ (Nat.le_refl _)]
    simp
  · have other : pos % wsize ≠ w := by
      simp only [wsize] at place recent ⊢
      omega
    rw [Function.update_of_ne other, List.getD_append _ _ _ _ before]
    exact holds pos before (by omega)

/-- A copy adds as many bytes as it is long. -/
@[simp] theorem copyBack_length (distance n : Nat) (out : List UInt8) :
    (copyBack distance n out).length = out.length + n := by
  induction n generalizing out with
  | zero => rfl
  | succ n ih =>
      rw [copyBack, ih, List.length_append, List.length_singleton]
      omega

/-- A copy may be made in two pieces. -/
theorem copyBack_add (distance m n : Nat) (out : List UInt8) :
    copyBack distance (m + n) out = copyBack distance n (copyBack distance m out) := by
  induction m generalizing out with
  | zero => simp [copyBack]
  | succ m ih => rw [Nat.succ_add, copyBack, copyBack, ih]

/-- The bytes are copied one after the other. -/
theorem Holds.copyBytes {slide : Nat → UInt8} {out : List UInt8} (holds : Holds slide out)
    {w d e distance : Nat} (place : out.length % wsize = w % wsize) (fits : w + e ≤ wsize)
    (fitsFrom : d + e ≤ wsize) (from_ : d % wsize = (out.length - distance) % wsize)
    (some_ : 0 < distance) (inside : distance ≤ out.length) (near : distance ≤ wsize) :
    Holds (copyBytes slide w d e) (copyBack distance e out) := by
  induction e generalizing slide w d out with
  | zero => exact holds
  | succ e ih =>
      have source : slide d = out.getD (out.length - distance) 0 := by
        rw [← holds (out.length - distance) (by omega) (by omega), ← from_,
          Nat.mod_eq_of_lt (by omega)]
      have isPlace : w = out.length % wsize := by
        rw [place, Nat.mod_eq_of_lt (by omega)]
      rw [Inflate.copyBytes, copyBack, ← source]
      refine ih (holds.push isPlace (slide d)) ?_ (by omega) (by omega) ?_ ?_
      all_goals rw [List.length_append, List.length_singleton]
      · simp only [wsize] at place ⊢
        omega
      · simp only [wsize] at from_ ⊢
        omega
      · omega

/-- `memmove` does the same where the copy does not run into its own bytes. -/
theorem moveBytes_eq {slide : Nat → UInt8} {w d e : Nat} (apart : w < d ∨ d + e ≤ w) :
    moveBytes slide w d e = copyBytes slide w d e := by
  induction e generalizing slide w d with
  | zero =>
      ext n
      rw [moveBytes, if_neg (by omega), copyBytes]
  | succ e ih =>
      rw [copyBytes, ← ih (by omega)]
      ext n
      simp only [moveBytes]
      by_cases first : n = w
      · subst first
        rw [if_pos (by omega), if_neg (by omega), Function.update_self, Nat.sub_self, Nat.add_zero]
      · by_cases later : w ≤ n ∧ n < w + (e + 1)
        · have moved : d + 1 + (n - (w + 1)) = d + (n - w) := by omega
          rw [if_pos later, if_pos (by omega), moved, Function.update_of_ne (by omega)]
        · rw [if_neg later, if_neg (by omega), Function.update_of_ne first]

/-- A copy that is under way: so many bytes of it are to come. -/
structure Copying (locals : Locals) (out : List UInt8) (distance : Nat) : Prop where
  holds : Holds locals.slide out
  place : out.length % wsize = locals.w % wsize
  from_ : locals.d % wsize = (out.length - distance) % wsize
  some_ : 0 < distance
  inside : distance ≤ out.length
  near : distance ≤ wsize

/-- The loop copies up to the end of the copy or of the window. -/
theorem Copying.copyChunks {locals : Locals} {out : List UInt8} {distance fuel : Nat}
    (copying : Copying locals out distance) (room : locals.w < wsize) (more : 0 < locals.n)
    (enough : locals.n ≤ fuel) :
    ∃ e slide d, 0 < e ∧ e ≤ locals.n ∧ locals.w + e ≤ wsize ∧
      (locals.w + e = wsize ∨ e = locals.n) ∧
      copyChunks fuel locals =
        { locals with slide := slide, w := locals.w + e, d := d, n := locals.n - e } ∧
      Copying { locals with slide := slide, w := locals.w + e, d := d, n := locals.n - e }
        (copyBack distance e out) distance := by
  induction fuel generalizing locals out with
  | zero => omega
  | succ fuel ih =>
      obtain ⟨holds, place, from_, some_, inside, near⟩ := copying
      rw [Inflate.copyChunks]
      have mask : locals.d &&& (wsize - 1) = locals.d % wsize := Nat.and_two_pow_sub_one_eq_mod _ 15
      have below : locals.d % wsize < wsize := Nat.mod_lt _ (by decide)
      rw [mask]
      obtain ⟨e, isE⟩ : ∃ e, min (wsize - max (locals.d % wsize) locals.w) locals.n = e := ⟨_, rfl⟩
      simp only [isE]
      have positive : 0 < e := by omega
      -- `memmove` is only used where it copies the same.
      have sameCopy : (if e ≤ (locals.w + 2 ^ 32 - locals.d % wsize) % 2 ^ 32 then
          moveBytes locals.slide locals.w (locals.d % wsize) e
        else copyBytes locals.slide locals.w (locals.d % wsize) e) =
          copyBytes locals.slide locals.w (locals.d % wsize) e := by
        split
        · next far =>
            refine moveBytes_eq ?_
            simp only [wsize] at room below far ⊢
            omega
        · rfl
      rw [sameCopy]
      have copied := holds.copyBytes (w := locals.w) (d := locals.d % wsize) (e := e) place (by omega)
        (by omega) (by rw [Nat.mod_mod]; exact from_) some_ inside near
      have next : Copying
          { locals with
            slide := copyBytes locals.slide locals.w (locals.d % wsize) e
            w := locals.w + e
            d := locals.d % wsize + e
            n := locals.n - e } (copyBack distance e out) distance := by
        refine ⟨copied, ?_, ?_, some_, ?_, near⟩
        all_goals rw [copyBack_length]
        · simp only [wsize] at place ⊢
          omega
        · simp only [wsize] at from_ ⊢
          omega
        · omega
      by_cases done : locals.w + e = wsize ∨ locals.n - e = 0
      · rw [if_pos done]
        exact ⟨e, _, _, positive, by omega, by omega, by omega, rfl, next⟩
      · rw [if_neg done]
        obtain ⟨e', slide, d, positive', le, fits, ends, result, last⟩ :=
          ih next (by dsimp only; omega) (by dsimp only; omega) (by dsimp only; omega)
        dsimp only at le fits ends result last
        have sum : locals.w + e + e' = locals.w + (e + e') := Nat.add_assoc _ _ _
        have left : locals.n - e - e' = locals.n - (e + e') := Nat.sub_sub _ _ _
        rw [sum, left] at result last
        rw [← copyBack_add] at last
        exact ⟨e + e', slide, d, by omega, by omega, by omega, by omega, result, last⟩

/-! ## A turn -/

/-- The tables of a block are the ones of these codes. -/
structure BlockTables (state : InflateState) (lit dist : List Nat) : Prop where
  literal : Finder lit 286 257 cplens cplext state.tl state.bl
  distance : Finder dist 30 0 cpdist cpdext state.td state.bd
  litShort : ∀ k ∈ lit, k ≤ bmax
  distShort : ∀ k ∈ dist, k ≤ bmax

/-- A code is no longer than the longest length. -/
theorem Rfc1951.IsCode.short {lens : List Nat} {value max : Nat} {code : List Bool}
    (isCode : IsCode lens value code) (short : ∀ k ∈ lens, k ≤ max) : code.length ≤ max := by
  rw [isCode.length]
  by_cases inside : value < lens.length
  · rw [List.getD_eq_getElem _ _ inside]
    exact short _ (List.getElem_mem inside)
  · rw [List.getD_eq_default _ _ (Nat.le_of_not_lt inside)]
    exact Nat.zero_le _

/-- A number is below the power of two of its bits. -/
theorem ofBits_lt (bits : List Bool) : ofBits bits < 2 ^ bits.length := by
  induction bits with
  | nil => simp [ofBits]
  | cons bit bits ih =>
      have := bit.toNat_lt
      rw [ofBits, List.length_cons, Nat.pow_succ]
      omega

/-- A distance reaches back into the window. -/
theorem distance_near {j : Nat} (distance : j < 30) {extra : List Bool}
    (extraBits : extra.length = distanceExtra j) :
    0 < distanceBase j ∧ distanceBase j + ofBits extra ≤ wsize := by
  have limits : ∀ j < 30, 0 < distanceBase j ∧ distanceBase j + 2 ^ distanceExtra j ≤ wsize + 1 := by
    decide
  obtain ⟨positive, most⟩ := limits j distance
  have below := ofBits_lt extra
  rw [extraBits] at below
  exact ⟨positive, by omega⟩

section Turns

variable {state : InflateState} {lit dist : List Nat} {locals : Locals} {p turns : Nat}

/-- A turn that reads the end code leaves the loop behind it. -/
theorem BlockTables.readEnd (tables : BlockTables state lit dist)
    (lookups : bmax < turns) (at_ : BitsAt file offset start locals.bits p) {code : List Bool}
    (isEnd : IsCode lit 256 code)
    (reads : Reads file offset start p code) :
    ∃ bits', readCode file offset state turns locals = .left { locals with bits := bits' } true ∧
      BitsAt file offset start bits' (p + code.length) := by
  obtain ⟨n, bits', looked, after⟩ := at_.findCode tables.literal (by decide) isEnd
    (isEnd.short tables.litShort) reads lookups
    fun bits => by simp [valueEntry_simple]
  rw [valueEntry_simple (by decide) (by decide)] at looked
  refine ⟨bits', ?_, after⟩
  rw [readCode, looked]
  rfl

/-- A turn that reads a literal puts it into the window, and leaves if this is full. -/
theorem BlockTables.readLiteral (tables : BlockTables state lit dist)
    (lookups : bmax < turns) (at_ : BitsAt file offset start locals.bits p) {byte : UInt8} {code : List Bool}
    (isByte : IsCode lit byte.toNat code) (reads : Reads file offset start p code) :
    ∃ bits', readCode file offset state turns locals =
        (if locals.w + 1 = wsize then
          .left { locals with
            bits := bits', slide := Function.update locals.slide locals.w byte, w := locals.w + 1 }
            false
        else
          .goesOn { locals with
            bits := bits', slide := Function.update locals.slide locals.w byte, w := locals.w + 1 }) ∧
      BitsAt file offset start bits' (p + code.length) := by
  have small := byte.toNat_lt
  obtain ⟨n, bits', looked, after⟩ := at_.findCode tables.literal (by omega) isByte
    (isByte.short tables.litShort) reads lookups
    fun bits => by rw [valueEntry_simple (by omega) (by omega), if_pos small]
  rw [valueEntry_simple (by omega) (by omega), if_pos small] at looked
  refine ⟨bits', ?_, after⟩
  rw [readCode, looked]
  simp

/-- A turn that reads a copy goes on with length and distance of it. -/
theorem BlockTables.readCopy (tables : BlockTables state lit dist)
    (lookups : bmax < turns) (at_ : BitsAt file offset start locals.bits p) {i j : Nat}
    {code extra distCode distExtra : List Bool} (length : i < 29)
    (isLength : IsCode lit (257 + i) code) (extraBits : extra.length = lengthExtra i)
    (distance : j < 30) (isDistance : IsCode dist j distCode)
    (distExtraBits : distExtra.length = distanceExtra j)
    (reads : Reads file offset start p (code ++ (extra ++ (distCode ++ distExtra)))) :
    ∃ bits', readCode file offset state turns locals =
        .goesOn { locals with
          bits := bits'
          n := lengthBase i + ofBits extra
          d := (locals.w + 2 ^ 32 - distanceBase j - ofBits distExtra) % 2 ^ 32
          codeState := locals.codeState + 1 } ∧
      BitsAt file offset start bits'
        (p + (code ++ (extra ++ (distCode ++ distExtra))).length) := by
  obtain ⟨readsCode, reads⟩ := reads_append.mp reads
  obtain ⟨readsExtra, reads⟩ := reads_append.mp reads
  obtain ⟨readsDist, readsDistExtra⟩ := reads_append.mp reads
  have shortExtra := lengthExtra_lt length
  have shortDist := distanceExtra_lt distance
  obtain ⟨n, bits₁, looked, at₁⟩ := at_.findCode tables.literal (by omega) isLength
    (isLength.short tables.litShort) readsCode lookups fun bits => by
      rw [valueEntry_length length]
      dsimp only
      omega
  rw [valueEntry_length length] at looked
  obtain ⟨grabbed, at₂⟩ := at₁.grab_reads readsExtra (by simp only [bmax]; omega)
  obtain ⟨n', bits₃, looked', at₃⟩ := at₂.findCode tables.distance distance isDistance
    (isDistance.short tables.distShort) readsDist lookups fun bits => by
      rw [valueEntry_distance distance]
      dsimp only
      omega
  rw [valueEntry_distance distance] at looked'
  obtain ⟨grabbed', at₄⟩ := at₃.grab_reads readsDistExtra (by simp only [bmax]; omega)
  rw [extraBits] at grabbed looked'
  rw [distExtraBits] at grabbed' at₄
  refine ⟨(grab file offset (distanceExtra j) bits₃).2, ?_, ?_⟩
  · have notLiteral : lengthExtra i ≠ 16 := by omega
    have notEnd : lengthExtra i ≠ 15 := by omega
    simp only [readCode, looked, if_neg notLiteral, if_neg notEnd, looked', grabbed, grabbed']
  · simp only [List.length_append, ← Nat.add_assoc, distExtraBits]
    exact at₄

end Turns

/-! ## All turns -/

/-- The output that is in the window, and the bits for the rest of a block. -/
structure Placed (file : OpenFile) (offset : Int) (start : Input) (bits : BitBuffer)
    (slide : Nat → UInt8) (w p : Nat) (out : List UInt8) : Prop where
  at_ : BitsAt file offset start bits p
  holds : Holds slide out
  place : out.length % wsize = w % wsize

/-- In a block the codes are read up to `p`, and a copy may be under way. -/
structure InCodes (file : OpenFile) (offset : Int) (start : Input) (lit dist : List Nat)
    (locals : Locals) (p : Nat) (out : List UInt8) (bits : List Bool) (out' : List UInt8) :
    Prop where
  placed : Placed file offset start locals.bits locals.slide locals.w p out
  reads : Reads file offset start p bits
  codes : (locals.codeState = 0 ∧ Codes lit dist out bits out') ∨
    (locals.codeState = 1 ∧ 0 < locals.n ∧ ∃ distance, Copying locals out distance ∧
      Codes lit dist (copyBack distance locals.n out) bits out')

/-- A copy is made behind what there is, -/
theorem copyBack_begins (distance n : Nat) (out : List UInt8) : out <+: copyBack distance n out := by
  induction n generalizing out with
  | zero => exact List.prefix_rfl
  | succ n ih => exact (List.prefix_append _ _).trans (ih _)

/-- so codes only add to the output, -/
theorem Rfc1951.Codes.prefix_ {lit dist : List Nat} {out out' : List UInt8} {bits : List Bool}
    (codes : Codes lit dist out bits out') : out <+: out' := by
  induction codes with
  | endOfBlock => exact List.prefix_rfl
  | literal _ _ ih => exact (List.prefix_append _ _).trans ih
  | copy _ _ _ _ _ _ _ _ ih => exact (copyBack_begins _ _ _).trans ih

section Runs

variable {state : InflateState} {lit dist : List Nat} {locals : Locals} {p turns : Nat}
  {out out' : List UInt8} {bits : List Bool}

/-- and the codes of a turn too. -/
theorem InCodes.prefix_ (inCodes : InCodes file offset start lit dist locals p out bits out') :
    out <+: out' := by
  rcases inCodes.codes with ⟨-, codes⟩ | ⟨-, -, distance, -, codes⟩
  · exact codes.prefix_
  · exact (copyBack_begins _ _ _).trans codes.prefix_

/-- A copy goes on to its end or to the end of the window. -/
theorem InCodes.copyCode (inCodes : InCodes file offset start lit dist locals p out bits out')
    (room : locals.w < wsize) (copies : locals.codeState ≠ 0) :
    ∃ e out₁, 0 < e ∧ (copyCode locals).w = locals.w + e ∧ locals.w + e ≤ wsize ∧
      out₁.length = out.length + e ∧
      InCodes file offset start lit dist (Inflate.copyCode locals) p out₁ bits out' := by
  obtain ⟨placed, reads, codes⟩ := inCodes
  obtain ⟨isCopy, more, distance, copying, codes⟩ := codes.resolve_left fun none_ => copies none_.1
  obtain ⟨e, slide, d, some_, le, fits, ends, copied, next⟩ :=
    copying.copyChunks room more (Nat.le_succ locals.n)
  have left : copyBack distance locals.n out =
      copyBack distance (locals.n - e) (copyBack distance e out) := by
    rw [← copyBack_add, Nat.add_sub_cancel' le]
  refine ⟨e, copyBack distance e out, some_, ?_, fits, copyBack_length _ _ _, ?_⟩
  · rw [Inflate.copyCode, copied]
    dsimp only
    split <;> rfl
  · rw [Inflate.copyCode, copied]
    dsimp only
    by_cases done : locals.n - e = 0
    · rw [if_pos done]
      rw [left, done] at codes
      exact ⟨⟨placed.at_, next.holds, next.place⟩, reads, .inl ⟨by dsimp only; omega, codes⟩⟩
    · rw [if_neg done]
      rw [left] at codes
      exact ⟨⟨placed.at_, next.holds, next.place⟩, reads,
        .inr ⟨isCopy, Nat.pos_of_ne_zero done, distance, next, codes⟩⟩

/-- How the codes of a block are left: at its end, or with a full window. -/
inductive LeftAt (file : OpenFile) (offset : Int) (start : Input) (lit dist : List Nat)
    (out' : List UInt8) (stop : Nat) (locals : Locals) : Bool → (out₁ : List UInt8) → Prop
  | ended (placed : Placed file offset start locals.bits locals.slide locals.w stop out')
      (room : locals.w < wsize) : LeftAt file offset start lit dist out' stop locals true out'
  | full {p₁ : Nat} {out₁ : List UInt8} {bits₁ : List Bool}
      (inCodes : InCodes file offset start lit dist locals p₁ out₁ bits₁ out')
      (isFull : locals.w = wsize) (isStop : p₁ + bits₁.length = stop) :
      LeftAt file offset start lit dist out' stop locals false out₁

/-- The turns come to the end of the block or of the window. -/
theorem InCodes.runCodes (tables : BlockTables state lit dist)
    (lookups : bmax < turns) {fuel : Nat}
    (inCodes : InCodes file offset start lit dist locals p out bits out')
    (room : locals.w < wsize) (enough : wsize - locals.w < fuel) :
    ∃ locals' ends out₁, runCodes file offset state turns fuel locals = .left locals' ends ∧
      out₁.length + locals.w = out.length + locals'.w ∧
      LeftAt file offset start lit dist out' (p + bits.length) locals' ends out₁ := by
  induction fuel generalizing locals p out bits with
  | zero => omega
  | succ fuel ih =>
      -- a turn that copies, after the code has been read
      have copyTurn : ∀ {locals₁ : Locals} {p₁ : Nat} {bits₁ : List Bool},
          InCodes file offset start lit dist locals₁ p₁ out bits₁ out' → locals₁.codeState ≠ 0 →
          locals₁.w = locals.w → p₁ + bits₁.length = p + bits.length →
          (if locals.codeState = 0 then readCode file offset state turns locals else .goesOn locals) =
            .goesOn locals₁ →
          ∃ locals' ends out₁,
            Inflate.runCodes file offset state turns (fuel + 1) locals = .left locals' ends ∧
            out₁.length + locals.w = out.length + locals'.w ∧
            LeftAt file offset start lit dist out' (p + bits.length) locals' ends out₁ := by
        intro locals₁ p₁ bits₁ inCodes₁ copies sameW samePlace turn
        obtain ⟨e, out₂, some_, moved, fits, grown, next⟩ :=
          inCodes₁.copyCode (by omega) copies
        rw [Inflate.runCodes, turn]
        simp only [if_neg copies]
        by_cases isFull : (Inflate.copyCode locals₁).w = wsize
        · rw [if_pos isFull]
          exact ⟨_, _, out₂, rfl, by omega, .full next isFull samePlace⟩
        · rw [if_neg isFull, ← samePlace]
          obtain ⟨locals', ends, out₁, result, sum, left⟩ := ih next (by omega) (by omega)
          exact ⟨locals', ends, out₁, result, by omega, left⟩
      obtain ⟨placed, reads, codes⟩ := inCodes
      rcases codes with ⟨none_, codes⟩ | ⟨isCopy, more, copying⟩
      · cases codes with
        | endOfBlock isEnd =>
            obtain ⟨bits', turn, after⟩ := tables.readEnd lookups placed.at_ isEnd reads
            rw [Inflate.runCodes, if_pos none_, turn]
            exact ⟨_, _, _, rfl, rfl, .ended ⟨after, placed.holds, placed.place⟩ room⟩
        | @literal _ _ byte code rest isByte codes =>
            obtain ⟨readsCode, readsRest⟩ := reads_append.mp reads
            obtain ⟨bits', turn, after⟩ := tables.readLiteral lookups placed.at_ isByte readsCode
            have isPlace : locals.w = out.length % wsize := by
              rw [placed.place, Nat.mod_eq_of_lt room]
            have grown : (out ++ [byte]).length = out.length + 1 := by simp
            have next : InCodes file offset start lit dist
                { locals with
                  bits := bits'
                  slide := Function.update locals.slide locals.w byte
                  w := locals.w + 1 } (p + code.length) (out ++ [byte]) rest out' := by
              refine ⟨⟨after, placed.holds.push isPlace byte, ?_⟩, readsRest, .inl ⟨none_, codes⟩⟩
              rw [grown]
              simp only [wsize] at isPlace ⊢
              omega
            have isStop : p + (code ++ rest).length = p + code.length + rest.length := by
              rw [List.length_append, Nat.add_assoc]
            rw [Inflate.runCodes, if_pos none_, turn, isStop]
            by_cases isFull : locals.w + 1 = wsize
            · rw [if_pos isFull]
              exact ⟨_, _, _, rfl, by rw [grown]; dsimp only; omega, .full next isFull rfl⟩
            · rw [if_neg isFull]
              simp only [if_pos none_]
              obtain ⟨locals', ends, out₁, result, sum, left⟩ :=
                ih next (by dsimp only; omega) (by dsimp only; omega)
              rw [grown] at sum
              exact ⟨locals', ends, out₁, result, by dsimp only at sum; omega, left⟩
        | @copy _ _ i j code extra distCode distExtra rest length isLength extraBits distance
            isDistance distExtraBits inside codes =>
            have split : code ++ (extra ++ (distCode ++ (distExtra ++ rest))) =
                code ++ (extra ++ (distCode ++ distExtra)) ++ rest := by simp
            obtain ⟨some_, near⟩ := distance_near distance distExtraBits
            rw [split] at reads copyTurn ⊢
            obtain ⟨readsCode, readsRest⟩ := reads_append.mp reads
            obtain ⟨bits', turn, after⟩ := tables.readCopy lookups placed.at_ length isLength extraBits
              distance isDistance distExtraBits readsCode
            have next : InCodes file offset start lit dist
                { locals with
                  bits := bits'
                  n := lengthBase i + ofBits extra
                  d := (locals.w + 2 ^ 32 - distanceBase j - ofBits distExtra) % 2 ^ 32
                  codeState := locals.codeState + 1 }
                (p + (code ++ (extra ++ (distCode ++ distExtra))).length) out rest out' := by
              refine ⟨⟨after, placed.holds, placed.place⟩, readsRest, .inr ⟨?_, ?_, _,
                ⟨placed.holds, placed.place, ?_, ?_, inside, near⟩, codes⟩⟩
              · dsimp only
                omega
              · have positive : ∀ i < 29, 0 < lengthBase i := by decide
                exact Nat.add_pos_left (positive i length) _
              · have place := placed.place
                simp only [wsize] at place near room ⊢
                omega
              · omega
            refine copyTurn next ?_ rfl ?_ ?_
            · dsimp only
              omega
            · rw [@List.length_append _ _ rest, Nat.add_assoc]
            · rw [if_pos none_, turn]
      · exact copyTurn ⟨placed, reads, .inr ⟨isCopy, more, copying⟩⟩ (by omega) rfl rfl
          (if_neg (by omega))

end Runs

end GrubLegacy.Inflate
