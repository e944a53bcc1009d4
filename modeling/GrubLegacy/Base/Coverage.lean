import Mathlib

/-!
# How far some spans reach

Spans of a linear order may overlap and come in any order. A bound that lies in one of them
is raised to its end, again and again. What cannot be raised any more is the greatest bound
up to which everything is covered.
-/

namespace GrubLegacy.Base

universe u

/-- What is at least `low` and less than `high`. -/
structure Span (α : Type u) where
  low : α
  high : α

section

variable {α : Type u} [LinearOrder α]

def Span.Has (span : Span α) (a : α) : Prop := span.low ≤ a ∧ a < span.high

instance (span : Span α) (a : α) : Decidable (span.Has a) := inferInstanceAs (Decidable (_ ∧ _))

/-- Some span has it. -/
def Covers (spans : List (Span α)) (a : α) : Prop := ∃ span ∈ spans, span.Has a

/-- Everything from `bottom` to `top` is covered. -/
structure CoveredTo (spans : List (Span α)) (bottom top : α) : Prop where
  behind : bottom ≤ top
  inside : ∀ a, bottom ≤ a → a < top → Covers spans a

/-- Raise a bound to the end of a span. -/
def raise (top : α) (span : Span α) : α := if span.Has top then span.high else top

/-- Try all spans. -/
def sweep (spans : List (Span α)) (top : α) : α := spans.foldl raise top

/-- Sweep until nothing changes, for a number of rounds. -/
def reach (spans : List (Span α)) : (rounds : Nat) → (top : α) → Option α
  | 0, _ => none
  | rounds + 1, top =>
    if sweep spans top = top then some top else reach spans rounds (sweep spans top)

variable {spans : List (Span α)} {bottom top : α}

/-- Raising never lowers the top, -/
theorem le_raise (top : α) (span : Span α) : top ≤ raise top span := by
  rw [raise]
  split
  · next has => exact has.2.le
  · exact le_rfl

/-- nor does a sweep. -/
theorem le_sweep (spans : List (Span α)) (top : α) : top ≤ sweep spans top := by
  induction spans generalizing top with
  | nil => exact le_rfl
  | cons span spans ih => exact (le_raise top span).trans (ih (raise top span))

/-- A sweep that changes nothing found no span to raise the bound with. -/
theorem sweep_eq_self : sweep spans top = top ↔ ¬ Covers spans top := by
  induction spans generalizing top with
  | nil => simp [sweep, Covers]
  | cons span spans ih =>
      have unfolded : sweep (span :: spans) top = sweep spans (raise top span) := rfl
      by_cases has : span.Has top
      · have raised : raise top span = span.high := if_pos has
        rw [unfolded, raised]
        refine iff_of_false ?_ ?_
        · exact (has.2.trans_le (le_sweep spans span.high)).ne'
        · exact not_not_intro ⟨span, List.mem_cons_self, has⟩
      · have same : raise top span = top := if_neg has
        rw [unfolded, same, ih]
        simp [Covers, has]

/-- What is covered stays covered behind a span, -/
theorem CoveredTo.raise (covered : CoveredTo spans bottom top) {span : Span α}
    (member : span ∈ spans) : CoveredTo spans bottom (raise top span) where
  behind := covered.behind.trans (le_raise top span)
  inside a low high := by
    by_cases before : a < top
    · exact covered.inside a low before
    · rw [Base.raise] at high
      split at high
      · next has => exact ⟨span, member, has.1.trans (not_lt.mp before), high⟩
      · exact absurd high before

/-- and behind a sweep. -/
theorem CoveredTo.sweep (covered : CoveredTo spans bottom top) {some_ : List (Span α)}
    (among : some_ ⊆ spans) : CoveredTo spans bottom (sweep some_ top) := by
  induction some_ generalizing top with
  | nil => exact covered
  | cons span some_ ih =>
      obtain ⟨member, others⟩ := List.cons_subset.mp among
      exact ih (covered.raise member) others

/-- Where nothing raises the bound any more, it is the greatest. -/
theorem CoveredTo.isGreatest (covered : CoveredTo spans bottom top) (ends : ¬ Covers spans top) :
    IsGreatest {t | CoveredTo spans bottom t} top := by
  refine ⟨covered, ?_⟩
  intro t further
  by_contra above
  exact ends (further.inside top covered.behind (not_le.mp above))

/-- What is reached is the greatest bound. -/
theorem isGreatest_reach {rounds : Nat} {last : α} (covered : CoveredTo spans bottom top)
    (reached : reach spans rounds top = some last) :
    IsGreatest {t | CoveredTo spans bottom t} last := by
  induction rounds generalizing top with
  | zero => cases reached
  | succ rounds ih =>
      rw [reach] at reached
      split at reached
      · next fixed =>
          obtain rfl := Option.some.inj reached
          exact covered.isGreatest (sweep_eq_self.mp fixed)
      · exact ih (covered.sweep (List.Subset.refl _)) reached

/-- The bound a sweep raises to is the end of a span. -/
theorem sweep_mem (spans : List (Span α)) (top : α) :
    sweep spans top = top ∨ ∃ span ∈ spans, top < span.high ∧ sweep spans top = span.high := by
  induction spans generalizing top with
  | nil => exact .inl rfl
  | cons span spans ih =>
      have unfolded : sweep (span :: spans) top = sweep spans (raise top span) := rfl
      rw [unfolded]
      rcases ih (raise top span) with same | ⟨other, member, above, equal⟩
      · by_cases has : span.Has top
        · have raised : raise top span = span.high := if_pos has
          exact .inr ⟨span, List.mem_cons_self, has.2, same.trans raised⟩
        · exact .inl (same.trans (if_neg has))
      · exact .inr ⟨other, List.mem_cons_of_mem _ member, (le_raise top span).trans_lt above, equal⟩

/-- The spans that end above a bound. -/
def endsAbove (spans : List (Span α)) (top : α) : Nat := spans.countP fun span => top < span.high

/-- Every sweep that changes the top leaves fewer ends above it. -/
theorem endsAbove_sweep_lt (changes : sweep spans top ≠ top) :
    endsAbove spans (sweep spans top) < endsAbove spans top := by
  obtain ⟨span, member, higher, equal⟩ := (sweep_mem spans top).resolve_left changes
  have fewer : ∀ list : List (Span α), list.countP (fun other => sweep spans top < other.high) ≤
      list.countP fun other => top < other.high := by
    intro list
    apply List.countP_mono_left
    intro other _ ends
    have later := of_decide_eq_true ends
    exact decide_eq_true ((le_sweep spans top).trans_lt later)
  rw [endsAbove, endsAbove]
  obtain ⟨front, back, split⟩ := List.append_of_mem member
  have inFront := fewer front
  have inBack := fewer back
  generalize sweep spans top = last at *
  subst split equal
  simp only [List.countP_append, List.countP_cons, lt_irrefl, higher, decide_true, decide_false,
    if_true, Bool.false_eq_true, if_false]
  omega

/-- A round for each span, and one more, is enough. -/
theorem exists_reach {rounds : Nat} (enough : endsAbove spans top < rounds) :
    ∃ last, reach spans rounds top = some last := by
  induction rounds generalizing top with
  | zero => omega
  | succ rounds ih =>
      rw [reach]
      split
      · exact ⟨top, rfl⟩
      · next changes =>
          have fewer := endsAbove_sweep_lt changes
          exact ih (by omega)

/-- Nothing is covered up to the bottom. -/
theorem coveredTo_self (spans : List (Span α)) (bottom : α) : CoveredTo spans bottom bottom :=
  ⟨le_rfl, fun _ low high => absurd high (not_lt.mpr low)⟩

/-- There is a greatest top. -/
theorem exists_isGreatest (spans : List (Span α)) (bottom : α) :
    ∃ top, IsGreatest {t | CoveredTo spans bottom t} top := by
  obtain ⟨last, reached⟩ := exists_reach (Nat.lt_succ_self (endsAbove spans bottom))
  exact ⟨last, isGreatest_reach (coveredTo_self spans bottom) reached⟩

end

end GrubLegacy.Base
