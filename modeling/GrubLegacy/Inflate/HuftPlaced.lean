import GrubLegacy.Inflate.HuftTables

/-!
# The loop of `huft_build`

On the way to the next code there is a stack of tables, each linked to the one before it. Every code
that has been placed is found, whatever comes after it.
-/

namespace GrubLegacy.Inflate

open Base

namespace CodeSet

variable {set : CodeSet} {real : Nat → Nat} {labels : Nat → Label} {k m : Nat} {state : Building}

/-! ## The stack -/

/-- The table of a level, which is for the bits of the next code before it. If it has less than `l`
bits, they are enough for all codes with these bits. -/
structure Level (set : CodeSet) (labels : Nat → Label) (k : Nat) (state : Building) (h : Nat) :
    Prop where
  known : state.u h < state.allocated
  w : (labels (state.u h)).w = set.l * h
  x : (labels (state.u h)).x = state.i % 2 ^ (set.l * h)
  pattern : state.x h = state.i % 2 ^ (set.l * h)
  deep : set.l * h < k
  wide : (labels (state.u h)).bits = set.l ∨
    (reversed (set.l * h) state.i + 1) * 2 ^ (set.g - set.l * h) ≤
      codeStart set.c set.g (set.l * h + (labels (state.u h)).bits)
        (set.c (set.l * h + (labels (state.u h)).bits))

/-- The entry for the next code in the table of a level is a link to the table of the next level. -/
structure Linked (set : CodeSet) (labels : Nat → Label) (state : Building) (h : Nat) : Prop where
  full : (labels (state.u h)).bits = set.l
  link : state.tables (state.u h) (state.i / 2 ^ (set.l * h) % 2 ^ set.l) =
    { e := 16 + (labels (state.u (h + 1))).bits, b := set.l, v := state.u (h + 1) }

/-- Code `m` of `k` bits comes next. -/
structure Shape (set : CodeSet) (labels : Nat → Label) (k m : Nat) (state : Building) : Prop where
  code : reversed k state.i = firstCode set.c k + m
  small : state.i < 2 ^ k
  below : state.i < 2 ^ (set.l * state.levels)
  base : state.x 0 = 0
  sizes : ∀ t < state.allocated, 0 < (labels t).bits ∧ (labels t).bits ≤ set.l
  root : state.levels ≠ 0 → state.u 0 = 0 ∧ labels 0 = { w := 0, x := 0, bits := set.l }
  level : ∀ h < state.levels, Level set labels k state h
  linked : ∀ h, h + 1 < state.levels → Linked set labels state h
  current : k ≤ set.l * state.levels →
    state.q = state.u (state.levels - 1) ∧ 2 ^ (labels state.q).bits ≤ state.z
  none_ : state.levels = 0 → state.allocated = 0 ∧ m = 0 ∧ ∀ j, 0 < j → j < k → set.c j = 0

/-- A table that has too few bits for the next code has `l` bits. -/
theorem Shape.full (shape : Shape set labels k m state) (le : k ≤ set.g) {h : Nat}
    (lt : h < state.levels) (beyond : set.l * h + (labels (state.u h)).bits < k) :
    (labels (state.u h)).bits = set.l := by
  have level := shape.level h lt
  rcases level.wide with isMax | wide
  · exact isMax
  · have some_ := (shape.sizes _ level.known).1
    have before := @codeStart_shorter set.c _ _ _ (by omega) beyond le
    have begun : codeStart set.c set.g k 0 ≤ codeStart set.c set.g k m :=
      codeStart_mono (Nat.zero_le m)
    have next := (codeStart_le_reversed le shape.code).1
    have inside := (reversed_bounds (by omega : set.l * h ≤ set.g) state.i).2
    omega

/-! ## A new table -/

/-- The patterns of the next code begin with the ones that start like it. -/
theorem Shape.codeStart (shape : Shape set labels k m state) (le : k ≤ set.g)
    (deep : set.l * state.levels < k) :
    codeStart set.c set.g k m =
      reversed (set.l * state.levels) state.i * 2 ^ (set.g - set.l * state.levels) :=
  codeStart_of_lt deep.le le shape.below shape.code

/-- The label of the table that `addTable` makes. More bits of the first table than `l` are never
looked up. -/
def newLabel (set : CodeSet) (k a : Nat) (state : Building) : Label where
  w := set.l * state.levels
  x := state.i
  bits := if state.levels = 0 then set.l else set.tableBits (set.l * state.levels) k a

/-- The first table is for codes of `k` bits. -/
theorem Shape.first_le (shape : Shape set labels k m state) (sound : Sound set real)
    (empty : state.levels = 0) : k ≤ set.l := by
  obtain ⟨least, some_, le, isCode⟩ := sound.least
  obtain ⟨-, -, none_⟩ := shape.none_ empty
  by_contra long
  have := none_ least some_ (by omega)
  omega

/-- What is known of a table after the first one. -/
theorem Shape.newBits (shape : Shape set labels k m state) (sound : Sound set real) (some_ : 0 < k)
    (le : k ≤ set.g) (isCode : m < set.c k) (deep : set.l * state.levels < k)
    (more : state.levels ≠ 0) :
    let w := set.l * state.levels
    let bits := set.tableBits w k (set.c k - m - 1)
    k - w ≤ set.l ∧ 0 < bits ∧ bits ≤ set.l ∧
      (bits = set.l ∨ (reversed w state.i + 1) * 2 ^ (set.g - w) ≤
        Base.codeStart set.c set.g (w + bits) (set.c (w + bits))) := by
  have begins := shape.codeStart le deep
  have inside : Base.codeStart set.c set.g k m + 2 ^ (set.g - set.l * state.levels) ≤ 2 ^ set.g := by
    have split : 2 ^ set.g = 2 ^ (set.l * state.levels) * 2 ^ (set.g - set.l * state.levels) := by
      rw [← Nat.pow_add]
      congr 1
      omega
    rw [begins, split, ← Nat.succ_mul]
    exact Nat.mul_le_mul_right _ (reversed_lt _ _)
  have deeper : set.l ≤ set.l * state.levels := Nat.le_mul_of_pos_right _ (Nat.pos_of_ne_zero more)
  obtain ⟨near, room⟩ := sound.room some_ le isCode deep deeper inside
  obtain ⟨enough, fits, wide⟩ := tableBits_spec sound some_ le isCode deep inside near room
  rw [begins, ← Nat.succ_mul] at wide
  exact ⟨near, by omega, fits, wide⟩

/-- A table that is added is one level deeper, and keeps the shape. -/
theorem Shape.addTable (shape : Shape set labels k m state) (sound : Sound set real) (some_ : 0 < k)
    (le : k ≤ set.g) (isCode : m < set.c k) (deep : set.l * state.levels < k) :
    k ≤ set.l * (state.levels + 1) ∧
      Shape set
        (Function.update labels state.allocated (newLabel set k (set.c k - m - 1) state)) k m
        (set.addTable k (set.c k - m - 1) state) := by
  have max : set.l ≤ 16 := sound.width.trans sound.max
  rcases Nat.eq_zero_or_pos state.levels with empty | more
  · obtain ⟨fresh, rfl, none_⟩ := shape.none_ empty
    have zero : state.i = 0 := by simpa [empty] using shape.below
    have short := shape.first_le sound empty
    have bits := le_tableBits_root sound some_ short isCode (firstCode_eq_zero none_)
    refine ⟨by simpa [empty] using short, ?_⟩
    rw [CodeSet.addTable, if_pos empty]
    refine ⟨shape.code, shape.small, ?_, shape.base, ?_, ?_, ?_, ?_, ?_, ?_⟩
    · simp [zero]
    · intro t lt
      obtain rfl : t = 0 := by simpa [fresh] using lt
      simp [fresh, newLabel, empty, sound.positive]
    · simp [fresh, newLabel, empty, zero]
    · intro h lt
      obtain rfl : h = 0 := by simpa [empty] using lt
      refine ⟨?_, ?_, ?_, ?_, ?_, .inl ?_⟩ <;>
        simp [fresh, newLabel, empty, zero, some_, shape.base]
    · intro h lt
      simp [empty] at lt
    · intro _
      simpa [fresh, newLabel, empty] using Nat.pow_le_pow_right (by decide) bits
    · simp
  · obtain ⟨near, some_bits, fits, wide⟩ := shape.newBits sound some_ le isCode deep more.ne'
    have last : set.l * state.levels = set.l * (state.levels - 1) + set.l := by
      rw [← Nat.mul_succ]
      congr 1
      omega
    have lastLevel := shape.level (state.levels - 1) (by omega)
    have lastFull := shape.full le (by omega : state.levels - 1 < state.levels)
      (by have := (shape.sizes _ lastLevel.known).2; omega)
    have keep : ∀ {label : Label}, ∀ t < state.allocated,
        Function.update labels state.allocated label t = labels t :=
      fun t known => Function.update_of_ne known.ne _ _
    have slot : state.i / 2 ^ (set.l * (state.levels - 1)) < 2 ^ set.l := by
      refine Nat.div_lt_of_lt_mul ?_
      rw [← Nat.pow_add, ← last]
      exact shape.below
    refine ⟨by rw [Nat.mul_succ]; omega, ?_⟩
    rw [CodeSet.addTable, if_neg more.ne']
    refine ⟨shape.code, shape.small, ?_, ?_, ?_, ?_, ?_, ?_, ?_, ?_⟩
    · exact shape.below.trans_le
        (Nat.pow_le_pow_right (by decide) (Nat.mul_le_mul_left _ (Nat.le_succ _)))
    · simp [Function.update_of_ne more.ne, shape.base]
    · intro t lt
      rcases Nat.lt_succ_iff_lt_or_eq.mp lt with known | rfl
      · simpa [keep t known] using shape.sizes t known
      · simpa [newLabel, more.ne'] using And.intro some_bits fits
    · intro _
      have known := (shape.level 0 more).known
      rw [(shape.root more.ne').1] at known
      simpa [Function.update_of_ne more.ne, keep 0 known] using shape.root more.ne'
    · intro h lt
      rcases Nat.lt_succ_iff_lt_or_eq.mp lt with lower | rfl
      · have level := shape.level h lower
        refine ⟨?_, ?_, ?_, ?_, level.deep, ?_⟩ <;>
          simp only [Function.update_of_ne lower.ne, keep _ level.known]
        · exact Nat.lt_succ_of_lt level.known
        · exact level.w
        · exact level.x
        · exact level.pattern
        · exact level.wide
      · refine ⟨?_, ?_, ?_, ?_, deep, ?_⟩ <;> simp only [Function.update_self, newLabel, more.ne',
          if_false]
        · exact Nat.lt_succ_self _
        · exact (Nat.mod_eq_of_lt shape.below).symm
        · exact (Nat.mod_eq_of_lt shape.below).symm
        · exact wide
    · intro h (lt : h + 1 < state.levels + 1)
      rcases Nat.lt_or_ge (h + 1) state.levels with lower | top
      · have linked := shape.linked h lower
        have level := shape.level h (by omega)
        have above := shape.level (h + 1) lower
        -- The link goes into a table of another level.
        have other : state.u h ≠ state.u (state.levels - 1) := by
          intro same
          have same_w := level.w
          rw [same, lastLevel.w] at same_w
          have := Nat.eq_of_mul_eq_mul_left sound.positive same_w
          omega
        refine ⟨?_, ?_⟩
        · simpa [Function.update_of_ne (by omega : h ≠ state.levels), keep _ level.known] using
            linked.full
        · simpa [Function.update_of_ne (by omega : h ≠ state.levels),
            Function.update_of_ne (by omega : h + 1 ≠ state.levels), keep _ above.known,
            Tables.store, Function.update_of_ne other] using linked.link
      · have isLast : h + 1 = state.levels := by omega
        obtain rfl : h = state.levels - 1 := by omega
        refine ⟨?_, ?_⟩
        · simpa [Function.update_of_ne (by omega : state.levels - 1 ≠ state.levels),
            keep _ lastLevel.known] using lastFull
        · have before : set.l * state.levels - set.l = set.l * (state.levels - 1) := by omega
          have small_e : 16 + set.tableBits (set.l * state.levels) k (set.c k - m - 1) < 0x100 := by
            omega
          simp [Function.update_of_ne (by omega : state.levels - 1 ≠ state.levels), isLast,
            Tables.store, Nat.mod_eq_of_lt slot, before, Nat.shiftRight_eq_div_pow, newLabel,
            more.ne', uch_of_lt small_e, uch_of_lt (by omega : set.l < 0x100)]
    · intro _
      simp [newLabel, more.ne']
    · simp

/-! ## What has been placed -/

/-- The entries for the values with a code before code `m` of `k` bits are found. -/
def Decoded (set : CodeSet) (real : Nat → Nat) (labels : Nat → Label) (k m : Nat)
    (state : Building) : Prop :=
  ∀ k' m', 0 < k' → k' ≤ set.g → m' < real k' → Earlier k' m' k m →
    ∀ b, reversed k' b = firstCode set.c k' + m' →
      ∃ w < k', Walk state.tables labels state.allocated set.l 0 b
        (valueEntry set.s set.d set.e (k' - w) (set.v (valueOffset set.c k' + m'))) w

/-- The real codes of a length are among those that are counted. -/
theorem Sound.real_le_count (sound : Sound set real) (le : k ≤ set.g) : real k ≤ set.c k := by
  rcases Nat.eq_or_lt_of_le le with rfl | lt
  · exact sound.real_le
  · exact (sound.shorter k lt).le

/-- It stays so where nothing changes for the patterns before this code. -/
theorem Decoded.frame (decoded : Decoded set real labels k m state) (sound : Sound set real)
    (le : k ≤ set.g) {labels' : Nat → Label} {state' : Building}
    (more : state.allocated ≤ state'.allocated)
    (same : ∀ t < state.allocated, labels' t = labels t)
    (kept : ∀ b, reversed set.g b < Base.codeStart set.c set.g k m → ∀ t < state.allocated,
      (labels t).On b →
        state'.tables t ((labels t).slot b) = state.tables t ((labels t).slot b)) :
    Decoded set real labels' k m state' := by
  intro k' m' some_ le' isCode earlier b starts
  obtain ⟨w, lt, walk⟩ := decoded k' m' some_ le' isCode earlier b starts
  refine ⟨w, lt, walk.frame more same (kept b ?_)⟩
  exact (codeStart_le_reversed le' starts).2.trans_le
    (codeStart_earlier some_ le (isCode.trans_le (sound.real_le_count le')) earlier)

/-- The link to a new table is for patterns from the next code on. -/
theorem Shape.addTable_frame (shape : Shape set labels k m state) (le : k ≤ set.g)
    (deep : set.l * state.levels < k) (a : Nat) {b : Nat}
    (before : reversed set.g b < Base.codeStart set.c set.g k m) {t : Nat}
    (on : (labels t).On b) :
    (set.addTable k a state).tables t ((labels t).slot b) =
      state.tables t ((labels t).slot b) := by
  by_cases empty : state.levels = 0
  · rw [CodeSet.addTable, if_pos empty]
  rw [CodeSet.addTable, if_neg empty]
  by_cases isLast : t = state.u (state.levels - 1)
  · subst isLast
    have last : set.l * state.levels = set.l * (state.levels - 1) + set.l := by
      rw [← Nat.mul_succ]
      congr 1
      omega
    have level := shape.level (state.levels - 1) (by omega)
    have full := shape.full le (by omega : state.levels - 1 < state.levels)
      (by have := (shape.sizes _ level.known).2; omega)
    rw [Label.On, level.w, level.x] at on
    have other : (labels (state.u (state.levels - 1))).slot b ≠
        state.i >>> (set.l * state.levels - set.l) := by
      rw [Label.slot, level.w, full, Nat.shiftRight_eq_div_pow, last, Nat.add_sub_cancel]
      intro sameSlot
      refine absurd (codeStart_le_of_mod (b := b) deep.le le shape.below shape.code ?_) (by omega)
      refine mod_eq_of_parts (w := set.l * (state.levels - 1)) (by omega) shape.below on ?_
      rw [last, Nat.add_sub_cancel_left]
      exact sameSlot
    simp [Tables.store, Function.update_of_ne other]
  · simp [Tables.store, Function.update_of_ne isLast]

/-- A new table does not take the next value. -/
theorem addTable_p (a : Nat) : (set.addTable k a state).p = state.p := by
  rw [addTable]
  split <;> rfl

/-- A new table is one level deeper. -/
theorem addTable_levels (a : Nat) : (set.addTable k a state).levels = state.levels + 1 := by
  rw [addTable]
  split <;> rfl

/-- A new table is counted. -/
theorem addTable_allocated (a : Nat) :
    (set.addTable k a state).allocated = state.allocated + 1 := by
  rw [addTable]
  split <;> rfl

/-- No table is added where the code reaches into the last one. -/
theorem addTables_of_le {fuel : Nat} (a : Nat) (le : k ≤ set.l * state.levels) :
    set.addTables k a fuel state = state := by
  cases fuel with
  | zero => rfl
  | succ fuel => rw [addTables, if_neg (Nat.not_lt.mpr le)]

/-- Before the entry for a code is made, there are the tables for its length: one table is enough. -/
theorem Shape.addTables (shape : Shape set labels k m state) (sound : Sound set real)
    (some_ : 0 < k) (le : k ≤ set.g) (isCode : m < set.c k)
    (decoded : Decoded set real labels k m state) :
    ∃ labels', Shape set labels' k m (set.addTables k (set.c k - m - 1) k state) ∧
      Decoded set real labels' k m (set.addTables k (set.c k - m - 1) k state) ∧
      k ≤ set.l * (set.addTables k (set.c k - m - 1) k state).levels ∧
      (set.addTables k (set.c k - m - 1) k state).p = state.p := by
  by_cases deep : set.l * state.levels < k
  · obtain ⟨enough, added⟩ := shape.addTable sound some_ le isCode deep
    obtain ⟨fuel, rfl⟩ := Nat.exists_eq_succ_of_ne_zero some_.ne'
    rw [CodeSet.addTables, if_pos deep, addTables_of_le _ (by rwa [addTable_levels])]
    refine ⟨_, added, ?_, by rwa [addTable_levels], addTable_p _⟩
    refine decoded.frame sound le (by rw [addTable_allocated]; exact Nat.le_succ _)
      (fun t known => Function.update_of_ne known.ne _ _) fun b before t _ on => ?_
    exact shape.addTable_frame le deep _ before on
  · rw [addTables_of_le _ (Nat.le_of_not_lt deep)]
    exact ⟨labels, shape, decoded, Nat.le_of_not_lt deep, rfl⟩

/-! ## The entries of a code -/

/-- The slots that are filled are those with the code in their lower bits. -/
theorem fillSlots_apply {r : Huft} {f z fuel j : Nat} {slots : Nat → Huft} (positive : 0 < f)
    (enough : z ≤ j + fuel * f) (n : Nat) :
    fillSlots r f z fuel j slots n = if j ≤ n ∧ n < z ∧ (n - j) % f = 0 then r else slots n := by
  induction fuel generalizing j slots with
  | zero => rw [fillSlots, if_neg (by omega)]
  | succ fuel ih =>
      rw [fillSlots]
      by_cases more : j < z
      · rw [if_pos more, ih (by rw [Nat.succ_mul] at enough; omega)]
        rcases Nat.lt_trichotomy n j with before | rfl | after
        · rw [if_neg (by omega), if_neg (by omega), Function.update_of_ne (by omega)]
        · rw [if_neg (by omega), if_pos ⟨Nat.le_refl n, more, by simp⟩, Function.update_self]
        · rw [Function.update_of_ne (by omega)]
          refine if_congr ?_ rfl rfl
          by_cases far : j + f ≤ n
          · have step : n - j = n - (j + f) + f := by omega
            rw [step, Nat.add_mod_right]
            omega
          · have rest : (n - j) % f = n - j := Nat.mod_eq_of_lt (by omega)
            omega
      · rw [if_neg more, if_neg (by omega)]

/-- The entries for the patterns with the bits in `j` are filled. -/
theorem fillSlots_eq {r : Huft} {f z j : Nat} {slots : Nat → Huft} (small : j < f) (n : Nat) :
    fillSlots r f z (z + 1) j slots n = if n < z ∧ n % f = j then r else slots n := by
  have enough : z ≤ j + (z + 1) * f := by
    have := Nat.le_mul_of_pos_right (z + 1) (Nat.zero_lt_of_lt small)
    omega
  rw [fillSlots_apply (Nat.zero_lt_of_lt small) enough]
  refine if_congr ⟨?_, ?_⟩ rfl rfl
  · rintro ⟨le, lt, multiple⟩
    obtain ⟨times, isMultiple⟩ := Nat.dvd_of_mod_eq_zero multiple
    have isSum : n = j + f * times := by omega
    exact ⟨lt, by rw [isSum, Nat.add_mul_mod_self_left, Nat.mod_eq_of_lt small]⟩
  · rintro ⟨lt, rfl⟩
    exact ⟨Nat.mod_le n f, lt, Nat.sub_mod_eq_zero_of_mod_eq (Nat.mod_mod n f).symm⟩

/-- Bits that are the same in both. -/
theorem div_mod_congr {b i a n : Nat} (le : a + n ≤ k) (same : b % 2 ^ k = i % 2 ^ k) :
    b / 2 ^ a % 2 ^ n = i / 2 ^ a % 2 ^ n := by
  have low : b % 2 ^ (a + n) = i % 2 ^ (a + n) := by
    rw [← Nat.mod_mod_of_dvd b (Nat.pow_dvd_pow 2 le), same,
      Nat.mod_mod_of_dvd i (Nat.pow_dvd_pow 2 le)]
  rw [← Nat.mod_mul_right_div_self, ← Nat.mod_mul_right_div_self, ← Nat.pow_add, low]

/-- The stack leads to the last table. -/
theorem Shape.walk (shape : Shape set labels k m state) {b h : Nat} {r : Huft}
    (same : b % 2 ^ k = state.i) (lt : h < state.levels)
    (found : state.tables (state.u (state.levels - 1))
      ((labels (state.u (state.levels - 1))).slot b) = r)
    (fits : r.b ≤ (labels (state.u (state.levels - 1))).bits) :
    Walk state.tables labels state.allocated set.l (state.u h) b r
      (set.l * (state.levels - 1)) := by
  have agrees : ∀ {w}, w ≤ k → b % 2 ^ w = state.i % 2 ^ w := fun le => by
    rw [← same, Nat.mod_mod_of_dvd b (Nat.pow_dvd_pow 2 le)]
  obtain ⟨above, isAbove⟩ := Nat.exists_eq_add_of_lt lt
  induction above generalizing h with
  | zero =>
      obtain rfl : h = state.levels - 1 := by omega
      have level := shape.level _ lt
      rw [← level.w]
      refine .entry level.known ?_ found fits
      rw [Label.On, level.w, level.x]
      exact agrees level.deep.le
  | succ above ih =>
      have level := shape.level h lt
      have next := shape.level (h + 1) (by omega)
      have linked := shape.linked h (by omega)
      have deeper : set.l * (h + 1) = set.l * h + set.l := Nat.mul_succ _ _
      have slot : (labels (state.u h)).slot b = state.i / 2 ^ (set.l * h) % 2 ^ set.l := by
        rw [Label.slot, level.w, linked.full]
        have deep := next.deep
        exact div_mod_congr (k := k) (by omega) (by rw [same, Nat.mod_eq_of_lt shape.small])
      refine .link level.known ?_ (by rw [slot, linked.link]) ?_ linked.full
        (ih (by omega) (by omega))
      · rw [Label.On, level.w, level.x]
        exact agrees level.deep.le
      · rw [level.w, next.w, deeper]

/-- The entry for the next code can be put into the last table. -/
structure Ready (set : CodeSet) (real : Nat → Nat) (labels : Nat → Label) (k m : Nat)
    (state : Building) : Prop where
  shape : Shape set labels k m state
  decoded : Decoded set real labels k m state
  enough : k ≤ set.l * state.levels

namespace Ready

variable (ready : Ready set real labels k m state)

include ready

/-- The last table has a place for the code. -/
theorem top (some_ : 0 < k) (le : k ≤ set.g) :
    0 < state.levels ∧ set.l * (state.levels - 1) + (labels state.q).bits ≥ k := by
  have more : 0 < state.levels := by
    refine Nat.pos_of_ne_zero fun empty => ?_
    have enough := ready.enough
    simp only [empty, Nat.mul_zero] at enough
    omega
  refine ⟨more, ?_⟩
  rw [(ready.shape.current ready.enough).1]
  by_contra short
  have full := ready.shape.full le (by omega : state.levels - 1 < state.levels) (by omega)
  have whole : set.l * state.levels = set.l * (state.levels - 1) + set.l := by
    rw [← Nat.mul_succ]
    congr 1
    omega
  have enough := ready.enough
  omega

/-- What the entries are filled with is found for the code, and nothing is lost. -/
theorem fill (sound : Sound set real) (some_ : 0 < k) (le : k ≤ set.g) {r : Huft}
    (isBits : r.b = k - set.l * (state.levels - 1)) (p : Nat) :
    Shape set labels k m (set.fillTable k { state with r := r, p := p }) ∧
      Decoded set real labels k m (set.fillTable k { state with r := r, p := p }) ∧
      ∀ b, reversed k b = firstCode set.c k + m →
        Walk (set.fillTable k { state with r := r, p := p }).tables labels state.allocated set.l 0 b r
          (set.l * (state.levels - 1)) := by
  obtain ⟨more, wide⟩ := ready.top some_ le
  obtain ⟨isTop, room⟩ := ready.shape.current ready.enough
  have topLevel := ready.shape.level (state.levels - 1) (by omega)
  have deep := topLevel.deep
  have top_w : (labels state.q).w = set.l * (state.levels - 1) := by rw [isTop, topLevel.w]
  have top_x : (labels state.q).x = state.i % 2 ^ (set.l * (state.levels - 1)) := by
    rw [isTop, topLevel.x]
  have small : state.i >>> (set.l * (state.levels - 1)) < 2 ^ (k - set.l * (state.levels - 1)) := by
    rw [Nat.shiftRight_eq_div_pow]
    refine Nat.div_lt_of_lt_mul ?_
    rw [← Nat.pow_add, Nat.add_sub_cancel' deep.le]
    exact ready.shape.small
  -- the bits of a place in the table that the code is in
  have inTable : ∀ b, (labels state.q).slot b % 2 ^ (k - set.l * (state.levels - 1)) =
      b / 2 ^ (set.l * (state.levels - 1)) % 2 ^ (k - set.l * (state.levels - 1)) := fun b => by
    rw [Label.slot, top_w]
    exact Nat.mod_mod_of_dvd _ (Nat.pow_dvd_pow 2 (by omega))
  have shape : Shape set labels k m (set.fillTable k { state with r := r, p := p }) := by
    obtain ⟨code, small, below, base, sizes, root, level, linked, current, none_⟩ := ready.shape
    refine ⟨code, small, below, base, sizes, root, ?_, ?_, current, none_⟩
    · intro h lt
      obtain ⟨known, w, x, pattern, deep, wide⟩ := level h lt
      exact ⟨known, w, x, pattern, deep, wide⟩
    · intro h (lt : h + 1 < state.levels)
      obtain ⟨full, link⟩ := linked h lt
      refine ⟨full, ?_⟩
      have other : state.u h ≠ state.q := by
        intro same
        have same_w := (level h (by omega : h < state.levels)).w
        rw [same, top_w] at same_w
        have := Nat.eq_of_mul_eq_mul_left sound.positive same_w
        omega
      simpa [fillTable, Tables.store, Function.update_of_ne other] using link
  refine ⟨shape, ?_, ?_⟩
  · refine ready.decoded.frame sound le (Nat.le_refl _) (fun _ _ => rfl) fun b before t _ on => ?_
    by_cases isLast : t = state.q
    · subst isLast
      simp only [fillTable, Tables.store, Function.update_self, fillSlots_eq small]
      refine if_neg ?_
      rintro ⟨-, inCode⟩
      rw [inTable, Nat.shiftRight_eq_div_pow] at inCode
      rw [Label.On, top_w, top_x] at on
      have low := mod_eq_of_parts deep.le ready.shape.small on inCode
      have code : reversed k b = firstCode set.c k + m := by
        rw [← reversed_mod (Nat.le_refl k), low, ready.shape.code]
      have := (codeStart_le_reversed le code).1
      omega
    · simp [fillTable, Tables.store, Function.update_of_ne isLast]
  · intro b code
    have low : b % 2 ^ k = state.i := by
      rw [← Nat.mod_eq_of_lt ready.shape.small]
      exact mod_eq_of_reversed (code.trans ready.shape.code.symm)
    have walk := @Shape.walk set labels k m _ shape b 0 r low more ?_ ?_
    · rwa [show (set.fillTable k { state with r := r, p := p }).u 0 = 0 from
        (ready.shape.root more.ne').1] at walk
    · have isSlot : (labels state.q).slot b < state.z :=
        (Nat.mod_lt _ (Nat.two_pow_pos _)).trans_le room
      have inCode : (labels state.q).slot b % 2 ^ (k - set.l * (state.levels - 1)) =
          state.i >>> (set.l * (state.levels - 1)) := by
        have same : b % 2 ^ k = state.i % 2 ^ k := by rw [low, Nat.mod_eq_of_lt ready.shape.small]
        rw [Nat.shiftRight_eq_div_pow] at small
        rw [inTable, Nat.shiftRight_eq_div_pow, ← Nat.mod_eq_of_lt small]
        exact div_mod_congr (by omega) same
      simp only [fillTable, Tables.store, ← isTop, Function.update_self, fillSlots_eq small]
      exact if_pos ⟨isSlot, inCode⟩
    · change r.b ≤ (labels (state.u (state.levels - 1))).bits
      rw [← isTop, isBits]
      omega

end Ready

/-! ## The next code -/

/-- The loop backs up to the level whose code is the lower bits of the next one. -/
theorem backUp_spec {x : Nat → Nat} {i levels : Nat} (base : x 0 = 0) (some_ : 0 < levels) :
    0 < set.backUp x i levels ∧ set.backUp x i levels ≤ levels ∧
      i % 2 ^ (set.l * (set.backUp x i levels - 1)) = x (set.backUp x i levels - 1) ∧
      (set.backUp x i levels < levels →
        i % 2 ^ (set.l * set.backUp x i levels) ≠ x (set.backUp x i levels)) := by
  induction levels with
  | zero => omega
  | succ h ih =>
      rw [backUp, Nat.and_two_pow_sub_one_eq_mod]
      by_cases done : i % 2 ^ (set.l * h) = x h
      · rw [if_neg (not_not.mpr done)]
        exact ⟨Nat.succ_pos h, Nat.le_refl _, done, fun lt => absurd lt (Nat.lt_irrefl _)⟩
      · have lower : 0 < h := by
          refine Nat.pos_of_ne_zero ?_
          rintro rfl
          simp [base, Nat.mod_one] at done
        rw [if_pos done]
        obtain ⟨positive, le, here, notAbove⟩ := ih lower
        refine ⟨positive, Nat.le_succ_of_le le, here, fun _ => ?_⟩
        rcases Nat.eq_or_lt_of_le le with same | lt
        · rwa [same]
        · exact notAbove lt

/-- The stack is as it should be for the next code of the same length. -/
theorem Ready.next (ready : Ready set real labels k m state) (some_ : 0 < k) (le : k ≤ set.g)
    (more : firstCode set.c k + (m + 1) < 2 ^ k) :
    Shape set labels k (m + 1) (set.nextCode k state) := by
  obtain ⟨levels_pos, -⟩ := ready.top some_ le
  obtain ⟨code, small, below, base, sizes, root, level, linked, current, none_⟩ := ready.shape
  obtain ⟨positive, fewer, here, notAbove⟩ :=
    @backUp_spec set state.x (backwardsIncrement k state.i) state.levels base levels_pos
  rw [nextCode]
  generalize set.backUp state.x (backwardsIncrement k state.i) state.levels = levels' at *
  have deep : ∀ h < state.levels, set.l * h < k := fun h lt => (level h lt).deep
  have mono : ∀ {h h'}, h ≤ h' → set.l * h ≤ set.l * h' := fun le => Nat.mul_le_mul_left _ le
  -- The bits before the last level stay.
  have agrees : ∀ {w}, w ≤ set.l * (levels' - 1) →
      backwardsIncrement k state.i % 2 ^ w = state.i % 2 ^ w := fun {w} le_w => by
    have top := (level (levels' - 1) (by omega)).pattern
    rw [← Nat.mod_mod_of_dvd (backwardsIncrement k state.i) (Nat.pow_dvd_pow 2 le_w), here, top,
      Nat.mod_mod_of_dvd _ (Nat.pow_dvd_pow 2 le_w)]
  refine ⟨?_, backwardsIncrement_lt small, ?_, base, sizes, ?_, ?_, ?_, ?_, ?_⟩
  · rw [reversed_backwardsIncrement small (by omega), code, Nat.add_assoc]
  · rcases Nat.eq_or_lt_of_le fewer with rfl | lt
    · exact (backwardsIncrement_lt small).trans_le (Nat.pow_le_pow_right (by decide) ready.enough)
    · refine (backwardsIncrement_low small (deep _ lt).le).resolve_left ?_
      rw [← (level _ lt).pattern]
      exact notAbove lt
  · exact fun _ => root levels_pos.ne'
  · intro h (lt : h < levels')
    obtain ⟨known, w, x, pattern, deep, wide⟩ := level h (by omega)
    have same := agrees (mono (by omega : h ≤ levels' - 1))
    refine ⟨known, w, x.trans same.symm, pattern.trans same.symm, deep, ?_⟩
    rwa [reversed_congr same]
  · intro h (lt : h + 1 < levels')
    obtain ⟨full, link⟩ := linked h (by omega)
    refine ⟨full, ?_⟩
    have inside : set.l * h + set.l ≤ set.l * (levels' - 1) := by
      rw [← Nat.mul_succ]
      exact mono (by omega)
    rwa [div_mod_congr inside (agrees (Nat.le_refl _))]
  · intro (enough : k ≤ set.l * levels')
    rcases Nat.eq_or_lt_of_le fewer with rfl | lt
    · exact current ready.enough
    · have := deep _ lt
      omega
  · intro empty
    simp only at empty
    omega

/-! ## The loop -/

/-- So far everything is as it should be before code `m` of `k` bits. There is no next code after
the last one. -/
structure Placed (set : CodeSet) (real : Nat → Nat) (labels : Nat → Label) (k m : Nat)
    (state : Building) : Prop where
  decoded : Decoded set real labels k m state
  shape : firstCode set.c k + m < 2 ^ k → Shape set labels k m state
  value : m ≤ real k → state.p = valueOffset set.c k + m
  sizes : ∀ t < state.allocated, 0 < (labels t).bits ∧ (labels t).bits ≤ set.l
  root : 0 < state.allocated → labels 0 = { w := 0, x := 0, bits := set.l }

/-- The bits of an entry are those of the code. -/
@[simp] theorem valueEntry_b {s : Nat} {d e : List Nat} (b value : Nat) :
    (valueEntry s d e b value).b = b := by
  rw [valueEntry]
  split <;> rfl

/-- As long as there are values, the entry is for the next one. -/
theorem setEntry_eq (k : Nat) (state : Building) :
    ∃ r p, set.setEntry k state = { state with r := r, p := p } ∧
      r.b = uch (k - set.l * (state.levels - 1)) ∧
      (state.p < set.n →
        r = valueEntry set.s set.d set.e (uch (k - set.l * (state.levels - 1))) (set.v state.p) ∧
          p = state.p + 1) := by
  rw [setEntry]
  by_cases out : set.n ≤ state.p
  · exact ⟨_, state.p, if_pos out, rfl, fun more => absurd more (Nat.not_lt.mpr out)⟩
  · exact ⟨_, _, if_neg out, valueEntry_b _ _, fun _ => ⟨rfl, rfl⟩⟩

/-- In a complete set every code is a number of its length. -/
theorem Complete.code_lt (complete : Complete set.c set.g) (some_ : 0 < k) (le : k ≤ set.g)
    (isCode : m < set.c k) : firstCode set.c k + m < 2 ^ k := by
  rcases Nat.eq_or_lt_of_le le with rfl | lt
  · have := complete.full
    omega
  · have := complete.firstCode_add_lt some_ lt
    omega

/-- Placing a code keeps what is placed, with one code more. -/
theorem Placed.placeCode (placed : Placed set real labels k m state) (sound : Sound set real)
    (some_ : 0 < k) (le : k ≤ set.g) (isCode : m < set.c k) :
    ∃ labels', Placed set real labels' k (m + 1) (set.placeCode k (set.c k - m - 1) state) := by
  have max := sound.max
  obtain ⟨labels', shape, decoded, enough, sameValue⟩ :=
    (placed.shape (Complete.code_lt sound.complete some_ le isCode)).addTables sound some_ le isCode
      placed.decoded
  rw [CodeSet.placeCode]
  generalize set.addTables k (set.c k - m - 1) k state = added at shape decoded enough sameValue ⊢
  obtain ⟨r, p, isEntry, isBits, next⟩ := @setEntry_eq set k added
  have short : k - set.l * (added.levels - 1) < 0x100 := by
    simp only [bmax] at max
    omega
  rw [uch_of_lt short] at isBits
  obtain ⟨filled, kept, found⟩ := Ready.fill ⟨shape, decoded, enough⟩ sound some_ le isBits p
  have ready : Ready set real labels' k m (set.fillTable k { added with r := r, p := p }) :=
    ⟨filled, kept, enough⟩
  rw [isEntry]
  -- the value of this code, if it has one
  have value : m < real k → r = valueEntry set.s set.d set.e (k - set.l * (added.levels - 1))
      (set.v (valueOffset set.c k + m)) ∧ p = valueOffset set.c k + m + 1 := fun isReal => by
    have here := placed.value isReal.le
    obtain ⟨isR, isP⟩ := next (by rw [sameValue, here]; exact sound.values k m some_ le isReal)
    rw [sameValue, here] at isR isP
    rw [isR, isP, uch_of_lt short]
    exact ⟨rfl, rfl⟩
  refine ⟨labels', ?_, ready.next some_ le, ?_, filled.sizes, fun _ => (filled.root ?_).2⟩
  · intro k' m' some' le' isReal earlier b starts
    by_cases before : Earlier k' m' k m
    · exact kept k' m' some' le' isReal before b starts
    · obtain ⟨rfl, rfl⟩ : k' = k ∧ m' = m := by
        simp only [Earlier] at earlier before
        omega
      have deep := (shape.level (added.levels - 1) (by
        have := (ready.top some_ le).1
        exact Nat.sub_lt this Nat.one_pos)).deep
      refine ⟨set.l * (added.levels - 1), deep, ?_⟩
      rw [← (value isReal).1]
      exact found b starts
  · exact fun isReal => (value isReal).2
  · exact (ready.top some_ le).1.ne'

/-- So do all codes of a length, -/
theorem Placed.placeCodes (sound : Sound set real) (some_ : 0 < k) (le : k ≤ set.g) {a : Nat}
    (few : a ≤ set.c k) (placed : Placed set real labels k (set.c k - a) state) :
    ∃ labels', Placed set real labels' k (set.c k) (set.placeCodes k a state) := by
  induction a generalizing labels state with
  | zero => exact ⟨labels, placed⟩
  | succ a ih =>
      obtain ⟨labels', next⟩ := placed.placeCode sound some_ le (by omega)
      have left : set.c k - (set.c k - (a + 1)) - 1 = a := by omega
      have here : set.c k - (a + 1) + 1 = set.c k - a := by omega
      rw [left, here] at next
      exact ih (by omega) next

/-- After the codes of a length come the ones of the next length. -/
theorem Placed.nextLength (sound : Sound set real) (some_ : 0 < k) (lt : k < set.g)
    (placed : Placed set real labels k (set.c k) state) :
    Placed set real labels (k + 1) 0 state := by
  obtain ⟨decoded, shape, value, sizes, root⟩ := placed
  have more := sound.complete.firstCode_add_lt some_ lt
  refine ⟨?_, fun _ => ?_, fun _ => ?_, sizes, root⟩
  · intro k' m' some' le' isReal earlier
    refine decoded k' m' some' le' isReal ?_
    have isCode := isReal.trans_le (sound.real_le_count le')
    rcases earlier with shorter | ⟨-, none_⟩
    · rcases Nat.eq_or_lt_of_le (Nat.le_of_lt_succ shorter) with rfl | shorter
      · exact .inr ⟨rfl, isCode⟩
      · exact .inl shorter
    · exact absurd none_ (Nat.not_lt_zero _)
  · obtain ⟨code, small, below, base, sizes, root, level, linked, current, none_⟩ := shape more
    refine ⟨?_, ?_, below, base, sizes, root, ?_, linked, ?_, ?_⟩
    · rw [reversed_of_lt small 1, code, firstCode_succ some_]
      ring
    · rw [Nat.pow_succ]
      omega
    · intro h lt
      obtain ⟨known, w, x, pattern, deep, wide⟩ := level h lt
      exact ⟨known, w, x, pattern, Nat.lt_succ_of_lt deep, wide⟩
    · exact fun enough => current (Nat.le_of_succ_le enough)
    · intro empty
      obtain ⟨fresh, noCodes, shorter⟩ := none_ empty
      refine ⟨fresh, rfl, fun j some_ lt => ?_⟩
      rcases Nat.eq_or_lt_of_le (Nat.le_of_lt_succ lt) with rfl | lt
      · exact noCodes
      · exact shorter j some_ lt
  · obtain ⟨k, rfl⟩ := Nat.exists_eq_succ_of_ne_zero some_.ne'
    rw [value (sound.shorter _ lt).ge]
    rfl

/-- and all lengths. -/
theorem Placed.placeLengths (sound : Sound set real) {lengths : Nat} (some_ : 0 < k)
    (last : k + lengths = set.g) (placed : Placed set real labels k 0 state) :
    ∃ labels', Placed set real labels' set.g (set.c set.g)
      (set.placeLengths (lengths + 1) k state) := by
  induction lengths generalizing labels k state with
  | zero =>
      obtain rfl : k = set.g := last
      exact Placed.placeCodes sound some_ (Nat.le_refl _) (Nat.le_refl _) (by simpa using placed)
  | succ lengths ih =>
      obtain ⟨labels', done⟩ :=
        Placed.placeCodes sound some_ (by omega) (Nat.le_refl _) (by simpa using placed)
      exact ih (Nat.succ_pos k) (by omega) (done.nextLength sound some_ (by omega))

/-- Values start at zero if there is no shorter code. -/
theorem valueOffset_eq_zero {c : Nat → Nat} (none_ : ∀ j, 0 < j → j < k → c j = 0) :
    valueOffset c k = 0 := by
  induction k with
  | zero => rfl
  | succ k ih =>
      rcases Nat.eq_zero_or_pos k with rfl | some_
      · rfl
      · obtain ⟨k, rfl⟩ := Nat.exists_eq_succ_of_ne_zero some_.ne'
        rw [valueOffset, none_ _ some_ (Nat.lt_succ_self _),
          ih fun j some_ lt => none_ j some_ (Nat.lt_succ_of_lt lt)]

/-- It begins with the shortest codes. -/
theorem Placed.start (sound : Sound set real) (memory : Tables) (some_ : 0 < k)
    (none_ : ∀ j, 0 < j → j < k → set.c j = 0) :
    Placed set real labels k 0 (CodeSet.start memory) := by
  have zero : reversed k 0 = 0 := by
    have := reversed_of_lt (k := 0) (b := 0) (by decide) k
    simpa [reversed] using this
  refine ⟨?_, fun _ => ?_, fun _ => ?_, ?_, ?_⟩
  · rintro k' m' some' le' isReal (shorter | ⟨-, lt⟩)
    · have isCode := isReal.trans_le (sound.real_le_count le')
      rw [none_ k' some' shorter] at isCode
      exact absurd isCode (Nat.not_lt_zero _)
    · exact absurd lt (Nat.not_lt_zero _)
  · refine ⟨?_, Nat.two_pow_pos k, Nat.two_pow_pos _, rfl, ?_, ?_, ?_, ?_, ?_, ?_⟩
    · simpa [firstCode_eq_zero none_, CodeSet.start] using zero
    · exact fun t lt => absurd lt (Nat.not_lt_zero _)
    · exact fun some_ => absurd rfl some_
    · exact fun h lt => absurd lt (Nat.not_lt_zero _)
    · exact fun h lt => absurd lt (Nat.not_lt_zero _)
    · intro (enough : k ≤ set.l * 0)
      omega
    · exact fun _ => ⟨rfl, rfl, none_⟩
  · simp [valueOffset_eq_zero none_, CodeSet.start]
  · exact fun t lt => absurd lt (Nat.not_lt_zero _)
  · exact fun lt => absurd lt (Nat.lt_irrefl _)

/-- The tables that are made find the value of every code, and use its bits. -/
theorem Sound.finds (sound : Sound set real) (memory : Tables) {j : Nat} (some_ : 0 < j)
    (le : j ≤ set.g) (none_ : ∀ i, 0 < i → i < j → set.c i = 0) (k_pos : 0 < k) (k_le : k ≤ set.g)
    (isReal : m < real k) {b : Nat} (starts : reversed k b = firstCode set.c k + m)
    (final : ∀ bits, (valueEntry set.s set.d set.e bits (set.v (valueOffset set.c k + m))).e ≤ 16 ∨
      (valueEntry set.s set.d set.e bits (set.v (valueOffset set.c k + m))).e = 99) :
    ∃ bits, Finds (set.placeLengths (set.g + 1 - j) j (CodeSet.start memory)).tables 0 set.l b
      (valueEntry set.s set.d set.e bits (set.v (valueOffset set.c k + m))) k := by
  have max := sound.max
  have width := sound.width
  have lengths : set.g + 1 - j = set.g - j + 1 := by omega
  rw [lengths]
  have last : j + (set.g - j) = set.g := Nat.add_sub_cancel' le
  obtain ⟨labels, placed⟩ := Placed.placeLengths sound some_ last
    (@Placed.start set real (fun _ => { w := 0, x := 0, bits := 0 }) j sound memory some_ none_)
  have earlier : Earlier k m set.g (set.c set.g) := by
    rcases Nat.eq_or_lt_of_le k_le with rfl | lt
    · exact .inr ⟨rfl, isReal.trans_le sound.real_le⟩
    · exact .inl lt
  obtain ⟨w, lt, walk⟩ := placed.decoded k m k_pos k_le isReal earlier b starts
  have root := placed.root walk.known
  obtain ⟨-, found⟩ := walk.finds sound.positive
    (fun t known => ⟨(placed.sizes t known).1, by have := (placed.sizes t known).2; omega⟩)
    (final _) (by rw [valueEntry_b]; omega)
  have used : w - 0 + (k - w) = k := by omega
  simp only [root, pow_zero, Nat.div_one, valueEntry_b, used] at found
  exact ⟨_, found⟩

end CodeSet

end GrubLegacy.Inflate
