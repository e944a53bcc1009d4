import GrubLegacy.Inflate.HuftPlaced

/-!
# What `huft_build` makes of the lengths

What it returns says whether the codes take up all patterns. Where they do, or where no length is
more than twice the bits asked for, the tables find the value of every code.
-/

namespace GrubLegacy.Inflate

open Base

/-! ## The lengths -/

/-- The counts are those of the lengths. -/
theorem lengthCounts_eq (b : List Nat) : lengthCounts b = fun k => b.count k := by
  suffices general : ∀ c : Nat → Nat,
      b.foldl (fun c length => Function.update c length (c length + 1)) c =
        fun k => c k + b.count k by
    simpa [lengthCounts] using general fun _ => 0
  induction b with
  | nil => simp
  | cons length b ih =>
      intro c
      ext k
      simp only [List.foldl_cons, ih, Function.update_apply, List.count_cons, beq_iff_eq]
      by_cases same : k = length
      · subst same
        simp
        omega
      · simp [same, Ne.symm same]

/-- The first loop finds the shortest length that is used, -/
theorem shortestFrom_spec {c : Nat → Nat} {fuel j : Nat} (found : ∃ k, j ≤ k ∧ k < j + fuel ∧ c k ≠ 0) :
    j ≤ shortestFrom c fuel j ∧ c (shortestFrom c fuel j) ≠ 0 ∧
      ∀ i, j ≤ i → i < shortestFrom c fuel j → c i = 0 := by
  induction fuel generalizing j with
  | zero => omega
  | succ fuel ih =>
      rw [shortestFrom]
      by_cases here : c j ≠ 0
      · rw [if_pos here]
        exact ⟨Nat.le_refl j, here, fun i le lt => by omega⟩
      · rw [if_neg here]
        obtain ⟨k, le, lt, isCode⟩ := found
        have other : j ≠ k := fun same => here (same ▸ isCode)
        obtain ⟨after, isLength, none_⟩ := @ih (j + 1) ⟨k, by omega, by omega, isCode⟩
        refine ⟨by omega, isLength, fun i le lt => ?_⟩
        rcases Nat.eq_or_lt_of_le le with rfl | lt'
        · exact not_not.mp here
        · exact none_ i lt' lt

/-- and the second one the longest. -/
theorem longestUpTo_spec {c : Nat → Nat} {i : Nat} (found : ∃ k, 0 < k ∧ k ≤ i ∧ c k ≠ 0) :
    longestUpTo c i ≤ i ∧ c (longestUpTo c i) ≠ 0 ∧
      ∀ k, longestUpTo c i < k → k ≤ i → c k = 0 := by
  induction i with
  | zero => omega
  | succ i ih =>
      rw [longestUpTo]
      by_cases here : c (i + 1) ≠ 0
      · rw [if_pos here]
        exact ⟨Nat.le_refl _, here, fun k lt le => by omega⟩
      · rw [if_neg here]
        obtain ⟨k, some_, le, isCode⟩ := found
        have other : k ≠ i + 1 := by
          rintro rfl
          exact here isCode
        obtain ⟨le', isLength, none_⟩ := ih ⟨k, some_, by omega, isCode⟩
        refine ⟨by omega, isLength, fun k lt le => ?_⟩
        rcases Nat.eq_or_lt_of_le le with rfl | lt'
        · exact not_not.mp here
        · exact none_ k lt (Nat.le_of_lt_succ lt')

/-- Where there are too many codes, there are too many with the longer ones as well. -/
theorem firstCode_over {c : Nat → Nat} {j : Nat} (some_ : 0 < j)
    (excess : 2 ^ j < firstCode c j + c j) (steps : Nat) :
    2 ^ (j + steps) < firstCode c (j + steps) + c (j + steps) := by
  induction steps with
  | zero => exact excess
  | succ steps ih =>
      rw [← Nat.add_assoc, firstCode_succ (by omega), Nat.pow_succ]
      omega

/-- The number of dummy codes is what is missing to all patterns. -/
theorem dummyCodes_spec {c : Nat → Nat} {steps j y : Nat} (some_ : 0 < j)
    (left : firstCode c j + y = 2 ^ j) :
    match dummyCodes c steps j y with
    | none => 2 ^ (j + steps) < firstCode c (j + steps) + c (j + steps)
    | some y => firstCode c (j + steps) + c (j + steps) + y = 2 ^ (j + steps) := by
  induction steps generalizing j y with
  | zero =>
      rw [dummyCodes]
      by_cases excess : y < c j
      · simp only [if_pos excess, Nat.add_zero]
        omega
      · simp only [if_neg excess, Nat.add_zero]
        omega
  | succ steps ih =>
      rw [dummyCodes]
      by_cases excess : y < c j
      · simp only [if_pos excess]
        exact firstCode_over some_ (by omega) (steps + 1)
      · have next : firstCode c (j + 1) + 2 * (y - c j) = 2 ^ (j + 1) := by
          rw [firstCode_succ some_, Nat.pow_succ]
          omega
        have step : j + (steps + 1) = j + 1 + steps := by omega
        rw [if_neg excess, step]
        exact ih (Nat.succ_pos j) next

/-! ## The values -/

/-- The values of a length follow those of the one before. -/
theorem valueOffset_succ {c : Nat → Nat} {k : Nat} (some_ : 0 < k) :
    valueOffset c (k + 1) = valueOffset c k + c k := by
  obtain ⟨k, rfl⟩ := Nat.exists_eq_succ_of_ne_zero some_.ne'
  rfl

/-- Values of different lengths do not overlap. -/
theorem valueOffset_apart {c : Nat → Nat} {k k' : Nat} (some_ : 0 < k) (lt : k < k') :
    valueOffset c k + c k ≤ valueOffset c k' := by
  induction k' with
  | zero => exact absurd lt (Nat.not_lt_zero k)
  | succ k' ih =>
      rw [valueOffset_succ (by omega)]
      rcases Nat.eq_or_lt_of_le (Nat.le_of_lt_succ lt) with rfl | lt'
      · exact Nat.le_refl _
      · exact (ih lt').trans (Nat.le_add_right _ _)

/-- Values start behind all shorter codes. -/
theorem valueOffset_eq_sum (c : Nat → Nat) (k : Nat) :
    valueOffset c (k + 1) = ∑ j ∈ Finset.Ico 1 (k + 1), c j := by
  induction k with
  | zero => rfl
  | succ k ih =>
      rw [valueOffset_succ (Nat.succ_pos k), ih,
        Finset.sum_Ico_succ_top (Nat.succ_le_succ (Nat.zero_le k)) fun j => c j]

/-- Where values start depends on the shorter codes only. -/
theorem valueOffset_congr {c c' : Nat → Nat} {k : Nat} (same : ∀ j, 0 < j → j < k → c j = c' j) :
    valueOffset c k = valueOffset c' k := by
  induction k with
  | zero => rfl
  | succ k ih =>
      rcases Nat.eq_zero_or_pos k with rfl | some_
      · rfl
      · rw [valueOffset_succ some_, valueOffset_succ some_, same k some_ (Nat.lt_succ_self k),
          ih fun j some_ lt => same j some_ (Nat.lt_succ_of_lt lt)]

/-- There are no more values than lengths. -/
theorem valueOffset_le_length (b : List Nat) (k : Nat) :
    valueOffset (fun k => b.count k) k ≤ b.length := by
  suffices isCount : valueOffset (fun k => b.count k) k = b.countP fun j => 0 < j ∧ j < k by
    rw [isCount]
    exact List.countP_le_length
  induction k with
  | zero => simp [valueOffset]
  | succ k ih =>
      rcases Nat.eq_zero_or_pos k with rfl | some_
      · refine (List.countP_eq_zero.mpr fun j _ => ?_).symm
        simp only [decide_eq_true_eq]
        omega
      · rw [valueOffset_succ some_, ih]
        clear ih
        induction b with
        | nil => rfl
        | cons j b ih =>
            simp only [List.countP_cons, List.count_cons, beq_iff_eq, decide_eq_true_eq]
            rw [← ih]
            split_ifs <;> omega

/-- The values of the lengths are put into places of their own, the ones of a length one after the
other. -/
theorem sortValues_spec {b : List Nat} {i : Nat} {x v : Nat → Nat}
    (apart : ∀ k k', 0 < k → k < k' → x k + b.count k ≤ x k') :
    (∀ value, b.getD value 0 ≠ 0 →
      sortValues b i x v (x (b.getD value 0) + (b.take value).count (b.getD value 0)) = i + value) ∧
      ∀ place, (∀ k, 0 < k → place < x k ∨ x k + b.count k ≤ place) →
        sortValues b i x v place = v place := by
  induction b generalizing i x v with
  | nil => exact ⟨fun value isCode => absurd rfl isCode, fun place _ => rfl⟩
  | cons j b ih =>
      rw [sortValues]
      by_cases isCode : j ≠ 0
      · have apart' : ∀ k k', 0 < k → k < k' →
            Function.update x j (x j + 1) k + b.count k ≤ Function.update x j (x j + 1) k' := by
          intro k k' some_ lt
          have before := apart k k' some_ lt
          rcases eq_or_ne k j with rfl | other
          · rw [List.count_cons_self] at before
            rw [Function.update_self, Function.update_of_ne lt.ne']
            omega
          · rw [List.count_cons_of_ne other.symm] at before
            rw [Function.update_of_ne other]
            rcases eq_or_ne k' j with rfl | other'
            · rw [Function.update_self]
              omega
            · rwa [Function.update_of_ne other']
        obtain ⟨values, others⟩ := @ih (i + 1) (Function.update x j (x j + 1))
          (Function.update v (x j) i) apart'
        rw [if_pos isCode]
        refine ⟨fun value isCode' => ?_, fun place outside => ?_⟩
        · cases value with
          | zero =>
              have kept := others (x j) fun k some_ => by
                rcases Nat.lt_trichotomy j k with lt | rfl | lt
                · have := apart j k (by omega) lt
                  simp only [List.count_cons, beq_self_eq_true, if_true] at this
                  rw [Function.update_of_ne (by omega)]
                  omega
                · rw [Function.update_self]
                  omega
                · have := apart k j some_ lt
                  have other : (j == k) = false := beq_eq_false_iff_ne.mpr (by omega)
                  simp only [List.count_cons, other] at this
                  rw [Function.update_of_ne (by omega)]
                  exact .inr (by simpa using this)
              simpa using kept
          | succ value =>
              rw [List.getD_cons_succ] at isCode' ⊢
              have found := values value isCode'
              have next : i + 1 + value = i + (value + 1) := by omega
              rw [List.take_succ_cons]
              rcases eq_or_ne (b.getD value 0) j with same | other
              · rw [same, Function.update_self, next] at found
                rw [same, List.count_cons_self, ← found]
                congr 1
                omega
              · rw [Function.update_of_ne other, next] at found
                rw [List.count_cons_of_ne other.symm, found]
        · have kept := others place fun k some_ => by
            have := outside k some_
            rcases eq_or_ne k j with rfl | other
            · rw [List.count_cons_self] at this
              rw [Function.update_self]
              omega
            · rw [List.count_cons_of_ne other.symm] at this
              rwa [Function.update_of_ne other]
          rw [kept, Function.update_of_ne]
          rintro rfl
          have := outside j (by omega)
          simp at this
      · obtain rfl := not_not.mp isCode
        have apart' : ∀ k k', 0 < k → k < k' → x k + b.count k ≤ x k' := by
          intro k k' some_ lt
          have := apart k k' some_ lt
          rwa [List.count_cons_of_ne (by omega)] at this
        obtain ⟨values, others⟩ := @ih (i + 1) x v apart'
        rw [if_neg isCode]
        refine ⟨fun value isCode' => ?_, fun place outside => others place fun k some_ => ?_⟩
        · cases value with
          | zero => exact absurd rfl isCode'
          | succ value =>
              rw [List.getD_cons_succ] at isCode' ⊢
              rw [List.take_succ_cons, List.count_cons_of_ne isCode'.symm, values value isCode']
              omega
        · have := outside k some_
          rwa [List.count_cons_of_ne (by omega)] at this

/-! ## What is made -/

def shortest (b : List Nat) : Nat := shortestFrom (fun k => b.count k) bmax 1

def longest (b : List Nat) : Nat := longestUpTo (fun k => b.count k) bmax

/-- The bits of the first table. -/
def tableWidth (b : List Nat) (m : Nat) : Nat := min (max m (shortest b)) (longest b)

/-- What the tables are made for, with `y` dummy codes. -/
def builtSet (stale : Stale) (b : List Nat) (s : Nat) (d e : List Nat) (m y : Nat) : CodeSet where
  c := Function.update (fun k => b.count k) (longest b) (b.count (longest b) + y)
  g := longest b
  l := tableWidth b m
  n := b.length
  s := s
  d := d
  e := e
  v := sortValues b 0
    (valueOffset (Function.update (fun k => b.count k) (longest b) (b.count (longest b) + y)))
    stale.stack

/-- Lengths of codes, as they are expected, where not all are zero. -/
structure Lengths (b : List Nat) : Prop where
  bounded : ∀ k ∈ b, k ≤ bmax
  coded : ∃ k ∈ b, k ≠ 0

namespace Lengths

variable {b : List Nat} (lengths : Lengths b)

include lengths

/-- The longest length is used, and none is longer. -/
theorem longest_spec : 0 < longest b ∧ longest b ≤ bmax ∧ 0 < b.count (longest b) ∧
    ∀ k ∈ b, k ≤ longest b := by
  obtain ⟨k, member, some_⟩ := lengths.coded
  obtain ⟨le, isLength, none_⟩ := @longestUpTo_spec (fun k => b.count k) bmax
    ⟨k, Nat.pos_of_ne_zero some_, lengths.bounded k member, (List.count_pos_iff.mpr member).ne'⟩
  have all : ∀ k ∈ b, k ≤ longest b := fun k member => by
    by_contra long
    exact (List.count_pos_iff.mpr member).ne'
      (none_ k (Nat.lt_of_not_le long) (lengths.bounded k member))
  exact ⟨(Nat.pos_of_ne_zero some_).trans_le (all k member), le, Nat.pos_of_ne_zero isLength, all⟩

/-- The shortest length is used, and none is shorter. -/
theorem shortest_spec : 0 < shortest b ∧ shortest b ≤ longest b ∧ 0 < b.count (shortest b) ∧
    ∀ i, 0 < i → i < shortest b → b.count i = 0 := by
  obtain ⟨some_, le, isLength, all⟩ := lengths.longest_spec
  obtain ⟨positive, isCode, none_⟩ := @shortestFrom_spec (fun k => b.count k) bmax 1
    ⟨longest b, some_, by omega, isLength.ne'⟩
  have member : shortest b ∈ b := List.count_pos_iff.mp (Nat.pos_of_ne_zero isCode)
  exact ⟨positive, all _ member, Nat.pos_of_ne_zero isCode, fun i some_ lt => none_ i some_ lt⟩

/-- The patterns of the longest codes end with all the patterns of codes. -/
theorem kraft : (firstCode (fun k => b.count k) (longest b) + b.count (longest b)) *
    2 ^ (bmax - longest b) = kraftSum bmax b := by
  obtain ⟨some_, le, -, all⟩ := lengths.longest_spec
  rw [← codeStart_eq_kraftSum lengths.bounded (by decide),
    @codeStart_eq_sum (fun k => b.count k) bmax bmax (Nat.le_refl bmax) (by decide),
    ← Finset.sum_Ico_consecutive _ (Nat.succ_le_succ (Nat.zero_le (longest b)))
      (Nat.succ_le_succ le), ← codeStart_eq_sum le some_, codeStart, left_eq_add]
  refine Finset.sum_eq_zero fun j inside => ?_
  rw [Finset.mem_Ico] at inside
  rw [List.count_eq_zero.mpr fun member => by have := all j member; omega, Nat.zero_mul]

omit lengths in
/-- With a code at all `huft_build` counts, checks and places. -/
theorem huftBuild_eq (stale : Stale) (s : Nat) (d e : List Nat) (m : Nat)
    (coded : ¬ b.count 0 = b.length) :
    huftBuild stale b s d e m =
      match dummyCodes (fun k => b.count k) (longest b - shortest b) (shortest b)
        (2 ^ shortest b) with
      | none => { t := none, m := tableWidth b m, returned := 2 }
      | some y =>
        { t := some ((builtSet stale b s d e m y).placeLengths (longest b + 1 - shortest b)
            (shortest b) (CodeSet.start stale.memory)).tables
          m := tableWidth b m
          returned := if y ≠ 0 ∧ longest b ≠ 1 then 1 else 0 } := by
  simp only [huftBuild, lengthCounts_eq, if_neg coded]
  rfl

/-- There are too many codes, or `y` dummy codes make the code complete. -/
theorem huftBuild_cases (stale : Stale) (s : Nat) (d e : List Nat) (m : Nat) :
    (2 ^ longest b < firstCode (fun k => b.count k) (longest b) + b.count (longest b) ∧
      huftBuild stale b s d e m = { t := none, m := tableWidth b m, returned := 2 }) ∨
    ∃ y, firstCode (fun k => b.count k) (longest b) + b.count (longest b) + y = 2 ^ longest b ∧
      huftBuild stale b s d e m =
        { t := some ((builtSet stale b s d e m y).placeLengths (longest b + 1 - shortest b)
            (shortest b) (CodeSet.start stale.memory)).tables
          m := tableWidth b m
          returned := if y ≠ 0 ∧ longest b ≠ 1 then 1 else 0 } := by
  obtain ⟨positive, le, -, none_⟩ := lengths.shortest_spec
  have notZero : ¬ b.count 0 = b.length := by
    intro all
    obtain ⟨k, member, some_⟩ := lengths.coded
    exact some_ (List.count_eq_length.mp all k member).symm
  have spec := @dummyCodes_spec (fun k => b.count k) (longest b - shortest b) (shortest b)
    (2 ^ shortest b) positive (by rw [firstCode_eq_zero none_, Nat.zero_add])
  have last : shortest b + (longest b - shortest b) = longest b := by omega
  rw [last] at spec
  rw [huftBuild_eq stale s d e m notZero]
  cases isLeft : dummyCodes (fun k => b.count k) (longest b - shortest b) (shortest b)
    (2 ^ shortest b) with
  | none =>
      rw [isLeft] at spec
      exact .inl ⟨spec, rfl⟩
  | some y =>
      rw [isLeft] at spec
      exact .inr ⟨y, spec, rfl⟩

variable {y m s : Nat} {d e : List Nat}

omit lengths in
/-- Below the full length there are no dummy codes. -/
theorem builtSet_c (stale : Stale) {k : Nat} (lt : k < longest b) :
    (builtSet stale b s d e m y).c k = b.count k := by
  simp only [builtSet]
  rw [Function.update_of_ne lt.ne]

/-- The tables are made for a complete code. -/
theorem sound (stale : Stale) (positive : 0 < m)
    (full : firstCode (fun k => b.count k) (longest b) + b.count (longest b) + y = 2 ^ longest b)
    (fits : (∀ k ∈ b, k ≤ 2 * m) ∨ (y = 0 ∧ b.length < 2 ^ m)) :
    CodeSet.Sound (builtSet stale b s d e m y) fun k => b.count k := by
  obtain ⟨some_, le, isLength, all⟩ := lengths.longest_spec
  obtain ⟨least_pos, least_le, isLeast, none_⟩ := lengths.shortest_spec
  have width : tableWidth b m ≤ longest b := Nat.min_le_right _ _
  have top : (builtSet stale b s d e m y).c (longest b) = b.count (longest b) + y := by
    simp [builtSet]
  refine ⟨⟨?_, some_, ?_⟩, le, ?_, width, ⟨shortest b, least_pos, ?_, ?_⟩, ?_, ?_, ?_, ?_⟩
  · exact top ▸ Nat.add_pos_left isLength y
  · have same : firstCode (builtSet stale b s d e m y).c (longest b) =
        firstCode (fun k => b.count k) (longest b) :=
      firstCode_congr fun j _ lt => builtSet_c stale lt
    rw [show (builtSet stale b s d e m y).g = longest b from rfl, top, same, ← Nat.add_assoc, full]
  · exact Nat.lt_min.mpr ⟨Nat.lt_of_lt_of_le positive (Nat.le_max_left _ _), some_⟩
  · exact Nat.le_min.mpr ⟨Nat.le_max_right _ _, least_le⟩
  · rcases Nat.eq_or_lt_of_le least_le with same | lt
    · rw [same, top]
      omega
    · rwa [builtSet_c stale lt]
  · rcases Nat.eq_or_lt_of_le width with same | lt
    · refine .inl ?_
      change longest b ≤ 2 * tableWidth b m
      omega
    have wide : m ≤ tableWidth b m := by
      simp only [tableWidth] at lt ⊢
      omega
    rcases fits with short | ⟨rfl, few⟩
    · refine .inl ?_
      have := short _ (List.count_pos_iff.mp isLength)
      change longest b ≤ 2 * tableWidth b m
      omega
    · refine .inr ?_
      have same : (builtSet stale b s d e m 0).c = fun k => b.count k := by simp [builtSet]
      have values := valueOffset_le_length b (longest b + 1)
      rw [valueOffset_eq_sum] at values
      rw [same]
      exact values.trans_lt (few.trans_le (Nat.pow_le_pow_right (by decide) wide))
  · exact fun k lt => (builtSet_c stale lt).symm
  · exact top ▸ Nat.le_add_right _ _
  · intro k place some_ le isReal
    have same : valueOffset (builtSet stale b s d e m y).c k =
        valueOffset (fun k => b.count k) k :=
      valueOffset_congr fun j _ lt => builtSet_c stale (lt.trans_le le)
    have values := valueOffset_le_length b (k + 1)
    rw [valueOffset_succ some_] at values
    rw [same]
    exact (Nat.add_lt_add_left isReal _).trans_le values

omit lengths in
/-- The values are in the order of their codes. -/
theorem builtSet_v (stale : Stale) {value : Nat} (isCode : b.getD value 0 ≠ 0) :
    (builtSet stale b s d e m y).v (valueOffset (builtSet stale b s d e m y).c (b.getD value 0) +
      (b.take value).count (b.getD value 0)) = value := by
  have apart : ∀ k k', 0 < k → k < k' →
      valueOffset (builtSet stale b s d e m y).c k + b.count k ≤
        valueOffset (builtSet stale b s d e m y).c k' := fun k k' some_ lt => by
    refine le_trans (Nat.add_le_add_left ?_ _) (valueOffset_apart some_ lt)
    simp only [builtSet, Function.update_apply]
    split
    · next same => exact same ▸ Nat.le_add_right _ _
    · exact Nat.le_refl _
  have sorted := (@sortValues_spec b 0 _ stale.stack apart).1 value isCode
  rwa [Nat.zero_add] at sorted

/-- There is a code for every value with a length. -/
theorem isReal {value : Nat} (isCode : b.getD value 0 ≠ 0) :
    0 < b.getD value 0 ∧ b.getD value 0 ≤ longest b ∧
      (b.take value).count (b.getD value 0) < b.count (b.getD value 0) := by
  obtain ⟨-, -, -, all⟩ := lengths.longest_spec
  have inside : value < b.length := by
    by_contra outside
    exact isCode (List.getD_eq_default _ _ (Nat.le_of_not_lt outside))
  have isElement : b.getD value 0 = b[value] := List.getD_eq_getElem _ _ inside
  refine ⟨Nat.pos_of_ne_zero isCode, ?_, ?_⟩
  · rw [isElement]
    exact all _ (List.getElem_mem inside)
  · have split := List.take_append_drop value b
    rw [List.drop_eq_getElem_cons inside, ← isElement] at split
    have counted := congrArg (List.count (b.getD value 0)) split
    rw [List.count_append, List.count_cons_self] at counted
    omega

end Lengths

/-- How many codes there are decides what `huft_build` returns. -/
theorem huftBuild_returned (stale : Stale) {b : List Nat} (bounded : ∀ k ∈ b, k ≤ bmax)
    (s : Nat) (d e : List Nat) (m : Nat) :
    (huftBuild stale b s d e m).returned =
      if 2 ^ bmax < kraftSum bmax b then 2
      else if kraftSum bmax b < 2 ^ bmax ∧ ∃ k ∈ b, 1 < k then 1
      else 0 := by
  by_cases coded : ∃ k ∈ b, k ≠ 0
  · have lengths : Lengths b := ⟨bounded, coded⟩
    obtain ⟨some_, le, isLength, all⟩ := lengths.longest_spec
    have kraft := lengths.kraft
    have patterns : 2 ^ longest b * 2 ^ (bmax - longest b) = 2 ^ bmax := by
      rw [← Nat.pow_add, Nat.add_sub_cancel' le]
    have long : longest b ≠ 1 ↔ ∃ k ∈ b, 1 < k := by
      refine ⟨fun other => ⟨longest b, List.count_pos_iff.mp isLength, by omega⟩, ?_⟩
      rintro ⟨k, member, lt⟩
      have := all k member
      omega
    rcases lengths.huftBuild_cases stale s d e m with ⟨excess, built⟩ | ⟨y, full, built⟩
    · have more : 2 ^ bmax < kraftSum bmax b := by
        rw [← kraft, ← patterns]
        exact Nat.mul_lt_mul_of_pos_right excess (Nat.two_pow_pos _)
      rw [built, if_pos more]
    · have whole : kraftSum bmax b + y * 2 ^ (bmax - longest b) = 2 ^ bmax := by
        rw [← kraft, ← patterns, ← Nat.add_mul, full]
      have left : y ≠ 0 ↔ kraftSum bmax b < 2 ^ bmax := by
        constructor
        · intro dummies
          have := Nat.mul_pos (Nat.pos_of_ne_zero dummies) (Nat.two_pow_pos (bmax - longest b))
          omega
        · rintro less rfl
          omega
      have notOver : ¬ 2 ^ bmax < kraftSum bmax b := by omega
      rw [built, if_neg notOver]
      simp only [left, long]
  · push Not at coded
    have zero : kraftSum bmax b = 0 := by
      rw [kraftSum, List.sum_eq_zero]
      intro part member
      obtain ⟨k, isLength, rfl⟩ := List.mem_map.mp member
      rw [if_pos (coded k isLength)]
    have none_ : ¬ ∃ k ∈ b, 1 < k := by
      rintro ⟨k, member, lt⟩
      have := coded k member
      omega
    have all : lengthCounts b 0 = b.length := by
      rw [lengthCounts_eq]
      exact List.count_eq_length.mpr fun k member => (coded k member).symm
    rw [huftBuild]
    simp only [if_pos all, zero]
    rw [if_neg (Nat.not_lt_zero _), if_neg fun short => none_ short.2]

/-- The tables find every value by its code. They do so if no length is more than twice the bits that
are asked for, or if the code is complete and has less values than a table of these bits has
entries. -/
theorem huftBuild_finds (stale : Stale) {b : List Nat} (lengths : Lengths b) (s : Nat)
    (d e : List Nat) {m : Nat} (positive : 0 < m) (notOver : kraftSum bmax b ≤ 2 ^ bmax)
    (fits : (∀ k ∈ b, k ≤ 2 * m) ∨ (kraftSum bmax b = 2 ^ bmax ∧ b.length < 2 ^ m)) :
    ∃ tables, (huftBuild stale b s d e m).t = some tables ∧
      ∀ value, b.getD value 0 ≠ 0 →
        (∀ bits, (valueEntry s d e bits value).e ≤ 16 ∨ (valueEntry s d e bits value).e = 99) →
        ∀ p, reversed (b.getD value 0) p = codeOf b value →
          ∃ bits, Finds tables 0 (huftBuild stale b s d e m).m p (valueEntry s d e bits value)
            (b.getD value 0) := by
  obtain ⟨-, le, -, -⟩ := lengths.longest_spec
  obtain ⟨least_pos, least_le, -, none_⟩ := lengths.shortest_spec
  have kraft := lengths.kraft
  have patterns : 2 ^ longest b * 2 ^ (bmax - longest b) = 2 ^ bmax := by
    rw [← Nat.pow_add, Nat.add_sub_cancel' le]
  rcases lengths.huftBuild_cases stale s d e m with ⟨excess, built⟩ | ⟨y, full, built⟩
  · have more : 2 ^ bmax < kraftSum bmax b := by
      rw [← kraft, ← patterns]
      exact Nat.mul_lt_mul_of_pos_right excess (Nat.two_pow_pos _)
    omega
  rw [built]
  refine ⟨_, rfl, fun value isCode final p starts => ?_⟩
  have sound : CodeSet.Sound (builtSet stale b s d e m y) fun k => b.count k := by
    refine lengths.sound stale positive full (fits.imp_right fun ⟨whole, few⟩ => ⟨?_, few⟩)
    have same := Nat.eq_of_mul_eq_mul_right (Nat.two_pow_pos _)
      ((kraft.trans whole).trans patterns.symm)
    omega
  obtain ⟨k_pos, k_le, isReal⟩ := lengths.isReal isCode
  have first : firstCode (fun k => b.count k) (b.getD value 0) =
      firstCode (builtSet stale b s d e m y).c (b.getD value 0) :=
    firstCode_congr fun j _ lt => (Lengths.builtSet_c stale (lt.trans_le k_le)).symm
  have isValue := @Lengths.builtSet_v b y m s d e stale value isCode
  rw [codeOf, first] at starts
  have found := sound.finds stale.memory least_pos least_le
    (fun i some_ lt => (Lengths.builtSet_c stale (lt.trans_le least_le)).trans (none_ i some_ lt))
    k_pos k_le isReal starts (by rw [isValue]; exact final)
  rwa [isValue] at found

/-- What `huft_build` makes of a set of lengths: it returns 2 if there are too many codes, 1 if there
are too few of them, and the tables find every value by its code if there are not too many. -/
theorem huftBuild_tables (stale : Stale) {b : List Nat} (lengths : Lengths b) (s : Nat)
    (d e : List Nat) {m : Nat} (positive : 0 < m) :
    (huftBuild stale b s d e m).returned =
        (if 2 ^ bmax < kraftSum bmax b then 2
          else if kraftSum bmax b < 2 ^ bmax ∧ ∃ k ∈ b, 1 < k then 1
          else 0) ∧
      (kraftSum bmax b ≤ 2 ^ bmax →
        (∀ k ∈ b, k ≤ 2 * m) ∨ (kraftSum bmax b = 2 ^ bmax ∧ b.length < 2 ^ m) →
        ∃ tables, (huftBuild stale b s d e m).t = some tables ∧
          ∀ value, b.getD value 0 ≠ 0 →
            (∀ bits, (valueEntry s d e bits value).e ≤ 16 ∨
              (valueEntry s d e bits value).e = 99) →
            ∀ p, reversed (b.getD value 0) p = codeOf b value →
              ∃ bits, Finds tables 0 (huftBuild stale b s d e m).m p (valueEntry s d e bits value)
                (b.getD value 0)) :=
  ⟨huftBuild_returned stale lengths.bounded s d e m,
    fun notOver fits => huftBuild_finds stale lengths s d e positive notOver fits⟩

/-- Eight literals, with codes of two to four bits in tables of two bits: the code 1110 of one
of them, which comes as the bits of 7, is found through a link. -/
theorem huftBuild_tables_literals :
    (huftBuild ⟨fun _ _ => ⟨0, 0, 0⟩, fun _ => 0⟩ [3, 3, 3, 3, 3, 2, 4, 4] 257 [] [] 2).returned = 0 ∧
      ∃ tables, (huftBuild ⟨fun _ _ => ⟨0, 0, 0⟩, fun _ => 0⟩ [3, 3, 3, 3, 3, 2, 4, 4] 257 [] []
        2).t = some tables ∧
          ∃ bits, Finds tables 0 2 7 { e := 16, b := bits, v := 6 } 4 := by
  obtain ⟨returned, found⟩ := @huftBuild_tables ⟨fun _ _ => ⟨0, 0, 0⟩, fun _ => 0⟩
    [3, 3, 3, 3, 3, 2, 4, 4] ⟨by decide, 3, by decide, by decide⟩ 257 [] [] 2 (by decide)
  obtain ⟨tables, isTables, finds⟩ := found (by decide) (.inl (by decide))
  have width : (huftBuild ⟨fun _ _ => ⟨0, 0, 0⟩, fun _ => 0⟩ [3, 3, 3, 3, 3, 2, 4, 4] 257 [] []
      2).m = 2 := by decide +kernel
  have isFound := finds 6 (by decide) (fun _ => .inl (Nat.le_refl 16)) 7 (by decide)
  rw [width] at isFound
  exact ⟨returned.trans (by decide), tables, isTables, isFound⟩

end GrubLegacy.Inflate
