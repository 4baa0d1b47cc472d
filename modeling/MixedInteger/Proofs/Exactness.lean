/-
**Bounds are exact where terms share no variable.**

The bounds of an expression are made term by term.  Every term comes as close to its own bound as one
likes, between the bounds of its variables; and terms that share no variable do so together.  Then the
bound of the whole is the least value, or there is none because values go below any limit.

For a coefficient of zero the upper end of the term is looked at, in both directions.  Operators leave no
such coefficient, but an expression may be given with one; where it stands at a term without upper end, both
bounds are missing, whatever values there are.

Main definitions:

* `MixedInteger.Expression.span` — the values of an expression between the bounds of its variables;
* `MixedInteger.Expression.ZerosBounded`, `MixedInteger.Expression.Ended` — terms whose coefficient is zero
  do not go above some limit, and have an upper end;
* `MixedInteger.Term.lowest`, `MixedInteger.Term.sumLowest` — the least value of a term, and of terms
  together.

Main results:

* `MixedInteger.Term.exists_close_range` — a term comes close to both ends of its range;
* `MixedInteger.Term.exists_close_sumLowest` — so do terms that share no variable, together;
* `MixedInteger.Expression.exists_close_lower?` — the lower bound is exact, whatever the infinity of the
  store;
* `MixedInteger.Expression.bounds_are_sound_and_exact` — **bounds of expressions**;
* `MixedInteger.Expression.not_exact_with_stored_zero` — a stored zero may hide the exact bounds.
-/

import MixedInteger.Meaning.Term
import MixedInteger.Proofs.Approach
import MixedInteger.Proofs.Bounds
import MixedInteger.Proofs.Canonical
import Mathlib.Order.Bounds.Basic
import Mathlib.Data.Rat.Floor

set_option autoImplicit false

namespace MixedInteger

open Extended

variable {K : Type} [Field K] [LinearOrder K] [FloorRing K]

/-! ### Bounds of a variable -/

namespace Extended

/-- Opposites compare the other way round. -/
protected theorem neg_lt_neg_iff [IsStrictOrderedRing K] (a b : Extended K) : -a < -b ↔ b < a := by
  cases a <;> cases b <;> simp [and_comm]

/-- What has something above it is not infinity. -/
theorem ne_infinite_false_of_lt {a b : Extended K} (h : a < b) : a ≠ infinite false := by
  rintro rfl
  cases b <;> simp at h

/-- What has something below it is not minus infinity. -/
theorem ne_infinite_true_of_lt {a b : Extended K} (h : a < b) : b ≠ infinite true := by
  rintro rfl
  cases a <;> simp at h

protected theorem lt_irrefl (a : Extended K) : ¬ a < a := by
  cases a with
  | undefined => exact id
  | finite x => exact (lt_irrefl x)
  | infinite n => cases n <;> simp

/-- A sum of two values below infinity is below infinity. -/
protected theorem add_lt {a b : Extended K} (ha : a < infinite false) (hb : b < infinite false) :
    a + b < infinite false := by
  cases a with
  | undefined => exact ha
  | finite x =>
      cases b with
      | undefined => exact hb
      | finite y => rfl
      | infinite n => exact hb
  | infinite m =>
      obtain rfl : m = true := ha.1
      cases b with
      | undefined => exact hb
      | finite y => exact ha
      | infinite n =>
          obtain rfl : n = true := hb.1
          exact ha

theorem finite_add_add (x y : K) (a : Extended K) :
    finite x + finite y + a = finite x + (finite y + a) := by
  cases a with
  | undefined => rfl
  | finite z => exact congrArg finite (add_assoc x y z)
  | infinite n => rfl

theorem finite_add_infinite_add (x : K) {a : Extended K} (ha : a < infinite false) :
    finite x + (infinite true + a) = infinite true := by
  cases a with
  | undefined => exact ha.elim
  | finite y => rfl
  | infinite n =>
      obtain rfl : n = true := ha.1
      rfl

end Extended

/-- Whether a variable lies within its bounds depends on its own value. -/
theorem Environment.Within.congr {env : Environment (Extended K)} {s t : Assignment K}
    {v : Variable} (h : env.Within s v) (hst : t v = s v) : env.Within t v := by
  obtain ⟨hl, hu⟩ := h
  rw [← hst] at hl hu
  exact ⟨hl, hu⟩

namespace Environment.Consistent

variable {env : Environment (Extended K)} {v : Variable}

/-- The lower bound of a variable is minus infinity, or what was given. -/
theorem trueLower_eq (h : env.Consistent v) :
    env.trueLower v = infinite true ∨ env.trueLower v = env.lower v := by
  unfold trueLower Expression.extend
  split
  · next hle => exact (Extended.not_lt_of_le hle h.lower_lt).elim
  · split
    · exact Or.inl rfl
    · exact Or.inr rfl

/-- The upper bound of a variable is infinity, or what was given. -/
theorem trueUpper_eq (h : env.Consistent v) :
    env.trueUpper v = infinite false ∨ env.trueUpper v = env.upper v := by
  unfold trueUpper Expression.extend
  split
  · exact Or.inl rfl
  · split
    · next hle => exact (Extended.not_lt_of_le hle h.lt_upper).elim
    · exact Or.inr rfl

theorem trueLower_ne (h : env.Consistent v) : env.trueLower v ≠ infinite false := by
  rcases h.trueLower_eq with h' | h'
  · exact h' ▸ nofun
  · exact h' ▸ ne_infinite_false_of_lt h.lower_lt

theorem trueUpper_ne (h : env.Consistent v) : env.trueUpper v ≠ infinite true := by
  rcases h.trueUpper_eq with h' | h'
  · exact h' ▸ nofun
  · exact h' ▸ ne_infinite_true_of_lt h.lt_upper

/-- The lower bound of a variable is beyond the infinity of the store, or it is a number. -/
theorem trueLower_cases (h : env.Consistent v) :
    env.lower v ≤ -env.infinity v.store ∧ env.trueLower v = infinite true ∨
      ¬ env.lower v ≤ -env.infinity v.store ∧ ∃ x, env.trueLower v = finite x := by
  have hlt := h.lower_lt
  have hnot : ¬ env.infinity v.store ≤ env.lower v := fun hle => Extended.not_lt_of_le hle hlt
  unfold trueLower Expression.extend
  rw [if_neg hnot]
  by_cases hle : env.lower v ≤ -env.infinity v.store
  · exact Or.inl ⟨hle, if_pos hle⟩
  · refine Or.inr ⟨hle, ?_⟩
    rw [if_neg hle]
    have hinf : (env.infinity v.store).IsDefined := (IsDefined.of_le (Extended.le_of_lt hlt)).2
    cases hl : env.lower v with
    | finite x => exact ⟨x, rfl⟩
    | undefined => exact absurd hlt (hl ▸ not_undefined_lt _)
    | infinite m =>
        rw [hl] at hle hlt
        cases m with
        | false => exact (ne_infinite_false_of_lt hlt rfl).elim
        | true => exact absurd (infinite_true_le hinf.neg) hle

/-- The upper bound of a variable is beyond the infinity of the store, or it is a number. -/
theorem trueUpper_cases (h : env.Consistent v) :
    env.infinity v.store ≤ env.upper v ∧ env.trueUpper v = infinite false ∨
      ¬ env.infinity v.store ≤ env.upper v ∧ ∃ x, env.trueUpper v = finite x := by
  have hlt := h.lt_upper
  have hnot : ¬ env.upper v ≤ -env.infinity v.store := fun hle => Extended.not_lt_of_le hle hlt
  unfold trueUpper Expression.extend
  by_cases hle : env.infinity v.store ≤ env.upper v
  · exact Or.inl ⟨hle, if_pos hle⟩
  · refine Or.inr ⟨hle, ?_⟩
    rw [if_neg hle, if_neg hnot]
    have hinf : (env.infinity v.store).IsDefined :=
      (IsDefined.of_le (Extended.le_of_lt h.lower_lt)).2
    cases hu : env.upper v with
    | finite x => exact ⟨x, rfl⟩
    | undefined => exact absurd hlt (hu ▸ not_lt_undefined _)
    | infinite m =>
        rw [hu] at hle hlt
        cases m with
        | false => exact absurd (le_infinite_false hinf) hle
        | true => exact (ne_infinite_true_of_lt hlt rfl).elim

theorem trueLower_le (h : env.Consistent v) : env.trueLower v ≤ env.trueUpper v := by
  obtain ⟨hl, hu⟩ := IsDefined.of_le h.ordered
  rcases h.trueLower_eq with h1 | h1 <;> rcases h.trueUpper_eq with h2 | h2 <;> rw [h1, h2]
  · exact Or.inl rfl
  · exact infinite_true_le hu
  · exact le_infinite_false hl
  · exact h.ordered

theorem isDefined (h : env.Consistent v) {a : Extended K}
    (ha : a = env.trueLower v ∨ a = env.trueUpper v) : a.IsDefined := by
  obtain ⟨hl, hu⟩ := IsDefined.of_le h.trueLower_le
  rcases ha with rfl | rfl
  · exact hl
  · exact hu

variable [IsStrictOrderedRing K]

/-- Between the bounds of a variable there are numbers close to either of them. -/
theorem exists_close (h : env.Consistent v) {a : Extended K}
    (ha : a = env.trueLower v ∨ a = env.trueUpper v) (limit : K) :
    ∃ x, env.trueLower v ≤ finite x ∧ finite x ≤ env.trueUpper v ∧ Close a limit x := by
  rcases ha with rfl | rfl
  · exact exists_close_lower h.trueLower_le h.trueLower_ne h.trueUpper_ne limit
  · exact exists_close_upper h.trueLower_le h.trueLower_ne h.trueUpper_ne limit

end Environment.Consistent

/-! ### Extremes -/

namespace Extended

omit [Field K] [LinearOrder K] [FloorRing K] in
/-- Choices between two values, made along a list, end with a value of the list. -/
theorem foldl_mem {f : Extended K → Extended K → Extended K} (hf : ∀ a b, f a b = a ∨ f a b = b)
    (a : Extended K) (rest : List (Extended K)) : rest.foldl f a ∈ a :: rest := by
  induction rest generalizing a with
  | nil => simp
  | cons b rest ih =>
      rw [List.foldl_cons]
      rcases List.mem_cons.1 (ih (f a b)) with h | h
      · rcases hf a b with hab | hab
        · exact List.mem_cons.2 (Or.inl (h.trans hab))
        · exact List.mem_cons_of_mem _ (List.mem_cons.2 (Or.inl (h.trans hab)))
      · exact List.mem_cons_of_mem _ (List.mem_cons_of_mem _ h)

theorem least_mem (a : Extended K) (rest : List (Extended K)) :
    Scalar.least a rest ∈ a :: rest := by
  apply foldl_mem
  intro b c
  unfold Scalar.smaller
  split <;> simp

theorem greatest_mem (a : Extended K) (rest : List (Extended K)) :
    Scalar.greatest a rest ∈ a :: rest := by
  apply foldl_mem
  intro b c
  unfold Scalar.larger
  split <;> simp

protected theorem le_antisymm {a b : Extended K} (h : a ≤ b) (h' : b ≤ a) : a = b := by
  cases a <;> cases b <;> simp_all
  next x y => exact le_antisymm h h'
  next m n => cases m <;> cases n <;> simp_all

end Extended

/-! ### Corners of a square -/

namespace Expression

variable [IsStrictOrderedRing K]

/-- All products of two ends of an interval. -/
def corners (l u : Extended K) : List (Extended K) := [times l l, times l u, times u l, times u u]

omit [IsStrictOrderedRing K] in
theorem diagonal_mem_corners {l u d : Extended K} (hd : d = l ∨ d = u) :
    times d d ∈ corners l u := by
  rcases hd with rfl | rfl <;> simp [corners]

/-- No product of two ends of an interval is above the squares of both. -/
theorem exists_le_diagonal {l u c : Extended K} (h : l ≤ u) (hc : c ∈ corners l u) :
    ∃ d, (d = l ∨ d = u) ∧ c ≤ times d d := by
  obtain ⟨hl, hu⟩ := IsDefined.of_le h
  have hmixed : ∃ d, (d = l ∨ d = u) ∧ times l u ≤ times d d := by
    by_cases h0 : (0 : Extended K) ≤ u
    · refine ⟨u, Or.inr rfl, ?_⟩
      rw [times_comm]
      exact times_le_times h h0
    · have hu0 : u ≤ 0 :=
        le_of_not_lt hu isFinite_zero.isDefined fun hlt => h0 (Extended.le_of_lt hlt)
      exact ⟨l, Or.inl rfl, times_le_times_of_nonpos h (Extended.le_trans h hu0)⟩
  simp only [corners, List.mem_cons, List.not_mem_nil, or_false] at hc
  rcases hc with rfl | rfl | rfl | rfl
  · exact ⟨l, Or.inl rfl, (isDefined_times hl hl).le_refl⟩
  · exact hmixed
  · rwa [times_comm]
  · exact ⟨u, Or.inr rfl, (isDefined_times hu hu).le_refl⟩

/-- Where an interval does not straddle zero, none is below the squares of both ends either. -/
theorem exists_diagonal_le {l u c : Extended K} (h : l ≤ u) (hs : 0 ≤ l ∨ u ≤ 0)
    (hc : c ∈ corners l u) : ∃ d, (d = l ∨ d = u) ∧ times d d ≤ c := by
  obtain ⟨hl, hu⟩ := IsDefined.of_le h
  have hmixed : ∃ d, (d = l ∨ d = u) ∧ times d d ≤ times l u := by
    rcases hs with h0 | h0
    · exact ⟨l, Or.inl rfl, times_le_times h h0⟩
    · refine ⟨u, Or.inr rfl, ?_⟩
      rw [times_comm l u]
      exact times_le_times_of_nonpos h h0
  simp only [corners, List.mem_cons, List.not_mem_nil, or_false] at hc
  rcases hc with rfl | rfl | rfl | rfl
  · exact ⟨l, Or.inl rfl, (isDefined_times hl hl).le_refl⟩
  · exact hmixed
  · rwa [times_comm]
  · exact ⟨u, Or.inr rfl, (isDefined_times hu hu).le_refl⟩

end Expression

/-! ### Terms -/

namespace Term

variable [IsStrictOrderedRing K] {env : Environment (Extended K)} {n : Nat} {inf : Extended K}

/-- A product of two different variables comes close to every product of their bounds. -/
theorem exists_close_corner {p : VariablePair} (hne : p.first ≠ p.second)
    (hf : env.Consistent p.first) (hs : env.Consistent p.second) {c : Extended K}
    (hc : c ∈ Expression.corner env p :: Expression.otherCorners env p) (limit : K) :
    ∃ s, (env.Within s p.first ∧ env.Within s p.second) ∧
      Close c limit (Expression.pairValue s p) := by
  obtain ⟨a, b, ha, hb, rfl⟩ : ∃ a b, (a = env.trueLower p.first ∨ a = env.trueUpper p.first) ∧
      (b = env.trueLower p.second ∨ b = env.trueUpper p.second) ∧ c = Expression.times a b := by
    simp only [Expression.corner, Expression.otherCorners, List.mem_cons, List.not_mem_nil,
      or_false] at hc
    rcases hc with rfl | rfl | rfl | rfl
    · exact ⟨_, _, Or.inl rfl, Or.inl rfl, rfl⟩
    · exact ⟨_, _, Or.inl rfl, Or.inr rfl, rfl⟩
    · exact ⟨_, _, Or.inr rfl, Or.inl rfl, rfl⟩
    · exact ⟨_, _, Or.inr rfl, Or.inr rfl, rfl⟩
  obtain ⟨m, hm⟩ := close_times (hf.isDefined ha) (hs.isDefined hb) limit
  obtain ⟨x, hxl, hxu, hx⟩ := hf.exists_close ha m
  obtain ⟨y, hyl, hyu, hy⟩ := hs.exists_close hb m
  refine ⟨fun v => if v = p.first then x else y, ⟨⟨?_, ?_⟩, ⟨?_, ?_⟩⟩, ?_⟩
  · rwa [if_pos rfl]
  · rwa [if_pos rfl]
  · rwa [if_neg hne.symm]
  · rwa [if_neg hne.symm]
  · rw [Expression.pairValue, if_pos rfl, if_neg hne.symm]
    exact hm x y hx hy

/-- A square comes close to the squares of both bounds. -/
theorem exists_close_diagonal {p : VariablePair} (he : p.first = p.second)
    (hf : env.Consistent p.first) {d : Extended K}
    (hd : d = env.trueLower p.first ∨ d = env.trueUpper p.first) (limit : K) :
    ∃ s, (env.Within s p.first ∧ env.Within s p.second) ∧
      Close (Expression.times d d) limit (Expression.pairValue s p) := by
  obtain ⟨m, hm⟩ := close_times (hf.isDefined hd) (hf.isDefined hd) limit
  obtain ⟨x, hxl, hxu, hx⟩ := hf.exists_close hd m
  have hwithin : env.Within (fun _ => x) p.first := ⟨hxl, hxu⟩
  exact ⟨fun _ => x, ⟨hwithin, he ▸ hwithin⟩, hm x x hx hx⟩

/-- The square of a variable comes close to both ends of its range.  What is extreme among all corners
is so among the two squares. -/
theorem exists_close_squareRange {p : VariablePair} (hn : env.infinity p.first.store = inf)
    (he : p.first = p.second) (hf : env.Consistent p.first) {c : Extended K}
    (hc : c = (Expression.pairRange env inf p).1 ∨ c = (Expression.pairRange env inf p).2)
    (limit : K) :
    ∃ s, (env.Within s p.first ∧ env.Within s p.second) ∧
      Close c limit (Expression.pairValue s p) := by
  rw [Expression.pairRange_eq hn (he ▸ hn)] at hc
  have hle := hf.trueLower_le
  have hcorners : Expression.corner env p :: Expression.otherCorners env p =
      Expression.corners (env.trueLower p.first) (env.trueUpper p.first) := by
    rw [Expression.corner, Expression.otherCorners, ← he]
    rfl
  have hdefined : ∀ c ∈ Expression.corner env p :: Expression.otherCorners env p, c.IsDefined := by
    intro c hc
    rw [hcorners] at hc
    obtain ⟨d, -, hd⟩ := Expression.exists_le_diagonal hle hc
    exact (IsDefined.of_le hd).1
  have hsquare : p.isSquare = true := decide_eq_true he
  rcases hc with rfl | rfl
  · by_cases hstraddles : env.trueLower p.first < 0 ∧ 0 < env.trueUpper p.first
    · -- zero lies between the bounds, and its square is the least one
      have hwithin : env.Within (fun _ => 0) p.first :=
        ⟨Extended.le_of_lt hstraddles.1, Extended.le_of_lt hstraddles.2⟩
      refine ⟨fun _ => 0, ⟨hwithin, he ▸ hwithin⟩, ?_⟩
      simp only [hsquare, hstraddles, decide_true, Bool.and_self, ↓reduceIte]
      exact mul_zero 0
    · have hside : 0 ≤ env.trueLower p.first ∨ env.trueUpper p.first ≤ 0 := by
        by_contra hn
        rw [not_or] at hn
        exact hstraddles ⟨lt_of_not_le (hf.isDefined (Or.inl rfl)) isFinite_zero.isDefined hn.1,
          lt_of_not_le isFinite_zero.isDefined (hf.isDefined (Or.inr rfl)) hn.2⟩
      have hm := least_mem (Expression.corner env p) (Expression.otherCorners env p)
      obtain ⟨d, hd, hdle⟩ := Expression.exists_diagonal_le hle hside (hcorners ▸ hm)
      have hled := least_le hdefined (hcorners ▸ Expression.diagonal_mem_corners hd)
      rw [if_neg (by simpa [hsquare] using hstraddles), ← Extended.le_antisymm hdle hled]
      exact exists_close_diagonal he hf hd limit
  · have hm := greatest_mem (Expression.corner env p) (Expression.otherCorners env p)
    obtain ⟨d, hd, hled⟩ := Expression.exists_le_diagonal hle (hcorners ▸ hm)
    have hdle := le_greatest hdefined (hcorners ▸ Expression.diagonal_mem_corners hd)
    rw [Extended.le_antisymm hled hdle]
    exact exists_close_diagonal he hf hd limit

/-- A product of two variables comes close to both ends of its range. -/
theorem exists_close_pairRange {p : VariablePair} (hfn : env.infinity p.first.store = inf)
    (hsn : env.infinity p.second.store = inf) (hf : env.Consistent p.first)
    (hs : env.Consistent p.second) {c : Extended K}
    (hc : c = (Expression.pairRange env inf p).1 ∨ c = (Expression.pairRange env inf p).2)
    (limit : K) :
    ∃ s, (env.Within s p.first ∧ env.Within s p.second) ∧
      Close c limit (Expression.pairValue s p) := by
  by_cases he : p.first = p.second
  · exact exists_close_squareRange hfn he hf hc limit
  · rw [Expression.pairRange_eq hfn hsn] at hc
    have hsquare : p.isSquare = false := decide_eq_false he
    simp only [hsquare, Bool.false_and, Bool.false_eq_true, ↓reduceIte] at hc
    rcases hc with rfl | rfl
    · exact exists_close_corner he hf hs (least_mem _ _) limit
    · exact exists_close_corner he hf hs (greatest_mem _ _) limit

/-- The variables of a term belong to one store and have room between their bounds. -/
def Admissible (env : Environment (Extended K)) (n : Nat) (t : Term) : Prop :=
  ∀ v ∈ t.vars, v.store = n ∧ env.Consistent v

/-- The variables of a term belong to stores of one infinity and have room between their bounds. -/
def Measured (env : Environment (Extended K)) (inf : Extended K) (t : Term) : Prop :=
  ∀ v ∈ t.vars, env.infinity v.store = inf ∧ env.Consistent v

omit [IsStrictOrderedRing K] in
theorem Admissible.measured {t : Term} (ht : t.Admissible env n) : t.Measured env (env.infinity n) :=
  fun v hv => ⟨congrArg env.infinity (ht v hv).1, (ht v hv).2⟩

/-- A term comes close to both ends of its range. -/
theorem exists_close_range {t : Term} (ht : t.Measured env inf) {c : Extended K}
    (hc : c = (t.range env inf).1 ∨ c = (t.range env inf).2) (limit : K) :
    ∃ s, (∀ v ∈ t.vars, env.Within s v) ∧ Close c limit (t.weight s) := by
  cases t with
  | «variable» v =>
      obtain ⟨rfl, hv⟩ := ht v List.mem_cons_self
      obtain ⟨x, hl, hu, hx⟩ := hv.exists_close hc limit
      refine ⟨fun _ => x, fun w hw => ?_, hx⟩
      obtain rfl := List.mem_singleton.1 hw
      exact ⟨hl, hu⟩
  | pair p =>
      obtain ⟨hfn, hf⟩ := ht p.first (by simp [vars, VariablePair.toList])
      obtain ⟨hsn, hs⟩ := ht p.second (by simp [vars, VariablePair.toList])
      obtain ⟨s, ⟨hwf, hws⟩, hx⟩ := exists_close_pairRange hfn hsn hf hs hc limit
      refine ⟨s, fun w hw => ?_, hx⟩
      simp only [vars, VariablePair.toList, List.mem_cons, List.not_mem_nil, or_false] at hw
      rcases hw with rfl | rfl
      · exact hwf
      · exact hws

/-- The value of a term lies in its range. -/
theorem range_contains {t : Term} (hinf : ∀ v ∈ t.vars, env.infinity v.store = inf)
    {s : Assignment K} (hs : ∀ v ∈ t.vars, env.Within s v) :
    (t.range env inf).1 ≤ finite (t.weight s) ∧ finite (t.weight s) ≤ (t.range env inf).2 := by
  cases t with
  | «variable» v =>
      obtain rfl := hinf v List.mem_cons_self
      exact ⟨(hs v List.mem_cons_self).lower, (hs v List.mem_cons_self).upper⟩
  | pair p =>
      have hf : p.first ∈ (pair p).vars := by simp [vars, VariablePair.toList]
      have hsecond : p.second ∈ (pair p).vars := by simp [vars, VariablePair.toList]
      exact Expression.pairRange_contains (hinf _ hf) (hinf _ hsecond) (hs _ hf) (hs _ hsecond)

/-- The values of a term between the bounds of its variables. -/
def weights (env : Environment (Extended K)) (t : Term) : Set K :=
  {x | ∃ s : Assignment K, (∀ v ∈ t.vars, env.Within s v) ∧ t.weight s = x}

/-- A term has an upper end exactly if its values have a limit. -/
theorem isInfinite_range_iff {t : Term} (ht : t.Measured env inf) :
    Scalar.isInfinite (t.range env inf).2 = false ↔ BddAbove (t.weights env) := by
  have hinf : ∀ v ∈ t.vars, env.infinity v.store = inf := fun v hv => (ht v hv).1
  obtain ⟨s, hs, -⟩ := exists_close_range ht (Or.inr rfl) 0
  have hmem := (range_contains hinf hs).2
  cases hr : (t.range env inf).2 with
  | undefined => exact absurd hmem (hr ▸ not_le_undefined _)
  | finite y =>
      refine iff_of_true rfl ⟨y, ?_⟩
      rintro x ⟨s', hs', rfl⟩
      have hle := (range_contains hinf hs').2
      rwa [hr] at hle
  | infinite m =>
      obtain rfl : m = false := by simpa [hr] using hmem
      refine iff_of_false nofun ?_
      rintro ⟨limit, hlimit⟩
      obtain ⟨s', hs', hclose⟩ := exists_close_range ht (Or.inr rfl) limit
      rw [hr] at hclose
      exact (hlimit ⟨s', hs', rfl⟩).not_gt hclose

/-! ### The least values of terms -/

/-- The least value of a multiple of a term, or minus infinity. -/
def lowest (env : Environment (Extended K)) (inf : Extended K) (t : Term × Extended K) :
    Extended K := Expression.times t.2 (t.1.bound env inf t.2)

/-- The least value of multiples of terms together. -/
def sumLowest (env : Environment (Extended K)) (inf : Extended K) (ts : List (Term × Extended K)) :
    Extended K := ts.foldr (fun t total => lowest env inf t + total) 0

omit [IsStrictOrderedRing K] in
theorem bound_eq (env : Environment (Extended K)) (inf c : Extended K) (t : Term) :
    t.bound env inf c = (t.range env inf).1 ∨ t.bound env inf c = (t.range env inf).2 := by
  unfold bound
  split
  · exact Or.inl rfl
  · exact Or.inr rfl

omit [IsStrictOrderedRing K] in
/-- For a coefficient of zero that is the upper end. -/
theorem bound_of_eq_zero {c : Extended K} (hc : c.IsFinite) (hzero : c.toNumber = 0)
    (env : Environment (Extended K)) (inf : Extended K) (t : Term) :
    t.bound env inf c = (t.range env inf).2 := by
  apply if_neg
  rw [hc.eq_finite, hzero]
  exact lt_irrefl (0 : K)

/-- A multiple of a term comes close to its least value. -/
theorem exists_close_lowest {t : Term × Extended K} (ht : t.1.Admissible env n)
    (hc : t.2.IsFinite) (limit : K) :
    ∃ s, (∀ v ∈ t.1.vars, env.Within s v) ∧
      Close (lowest env (env.infinity n) t) limit (t.2.toNumber * t.1.weight s) := by
  have hbound := bound_eq env (env.infinity n) t.2 t.1
  have hdefined : (t.1.bound env (env.infinity n) t.2).IsDefined := by
    obtain ⟨s, -, hs⟩ := exists_close_range ht.measured hbound 0
    intro hu
    rw [hu] at hs
    exact hs
  obtain ⟨m, hm⟩ := close_times hc.isDefined hdefined limit
  obtain ⟨s, hs, hclose⟩ := exists_close_range ht.measured hbound m
  have hnumber : Close t.2 m t.2.toNumber := by
    rw [hc.eq_finite]
    rfl
  exact ⟨s, hs, hm _ _ hnumber hclose⟩

/-- The end of the range that is least is a number, or beyond it the term goes below any limit. -/
theorem lowest_cases {t : Term × Extended K} (ht : t.1.Admissible env n) (hc : t.2.IsFinite)
    (hz : t.2.toNumber = 0 → Scalar.isInfinite (t.1.range env (env.infinity n)).2 = false) :
    (∃ y, t.1.bound env (env.infinity n) t.2 = finite y ∧
        lowest env (env.infinity n) t = finite (t.2.toNumber * y)) ∨
      (∃ m, t.1.bound env (env.infinity n) t.2 = infinite m) ∧
        lowest env (env.infinity n) t = infinite true := by
  obtain ⟨s, hs, -⟩ := exists_close_range ht.measured (Or.inl rfl) 0
  obtain ⟨hl, hu⟩ := range_contains (fun v hv => (ht.measured v hv).1) hs
  have hlowest : lowest env (env.infinity n) t =
      Expression.times (finite t.2.toNumber) (t.1.bound env (env.infinity n) t.2) := by
    rw [lowest, ← hc.eq_finite]
  rcases le_or_gt t.2.toNumber 0 with hle | hpos
  · have hbound : t.1.bound env (env.infinity n) t.2 = (t.1.range env (env.infinity n)).2 := by
      apply if_neg
      rw [hc.eq_finite]
      exact hle.not_gt
    rw [hlowest, hbound]
    cases hr : (t.1.range env (env.infinity n)).2 with
    | undefined => exact (not_le_undefined _ (hr ▸ hu)).elim
    | finite y => exact Or.inl ⟨y, rfl, Expression.times_finite _ _⟩
    | infinite m =>
        obtain rfl : m = false := by simpa [hr] using hu
        -- the upper end is missing, so the coefficient is not zero
        have hne : t.2.toNumber ≠ 0 := fun h => by simpa [hr, Scalar.isInfinite, infinite?] using hz h
        refine Or.inr ⟨⟨_, rfl⟩, ?_⟩
        rw [Expression.times_finite_infinite, if_neg hne, decide_eq_true (lt_of_le_of_ne hle hne)]
        rfl
  · have hbound : t.1.bound env (env.infinity n) t.2 = (t.1.range env (env.infinity n)).1 := by
      apply if_pos
      rw [hc.eq_finite]
      exact hpos
    rw [hlowest, hbound]
    cases hr : (t.1.range env (env.infinity n)).1 with
    | undefined => exact (not_undefined_le _ (hr ▸ hl)).elim
    | finite y => exact Or.inl ⟨y, rfl, Expression.times_finite _ _⟩
    | infinite m =>
        obtain rfl : m = true := by simpa [hr] using hl
        refine Or.inr ⟨⟨_, rfl⟩, ?_⟩
        rw [Expression.times_finite_infinite, if_neg hpos.ne', decide_eq_false hpos.not_gt]
        rfl

/-- Terms that may be added up: admissible ones, times a number that is zero only if the term has an
upper end, which is what counts for a coefficient of zero. -/
structure Proper (env : Environment (Extended K)) (n : Nat) (t : Term × Extended K) : Prop where
  admissible : t.1.Admissible env n
  finite : t.2.IsFinite
  ended : t.2.toNumber = 0 → Scalar.isInfinite (t.1.range env (env.infinity n)).2 = false

theorem lowest_lt {t : Term × Extended K} (ht : Proper env n t) :
    lowest env (env.infinity n) t < infinite false := by
  rcases lowest_cases ht.admissible ht.finite ht.ended with ⟨y, -, h⟩ | ⟨-, h⟩
  · rw [h]
    rfl
  · rw [h]
    exact ⟨rfl, rfl⟩

theorem sumLowest_lt {ts : List (Term × Extended K)} (hts : ∀ t ∈ ts, Proper env n t) :
    sumLowest env (env.infinity n) ts < infinite false := by
  induction ts with
  | nil => rfl
  | cons t rest ih =>
      exact Extended.add_lt (lowest_lt (hts t List.mem_cons_self))
        (ih fun u hu => hts u (List.mem_cons_of_mem _ hu))

omit [IsStrictOrderedRing K] in
/-- Where the least values of terms add up, none of them is infinite. -/
theorem isInfinite_bound_of_foldlM {ts : List (Term × Extended K)} {a u : Extended K}
    (h : ts.foldlM (addLower env inf) a = some u) :
    ∀ t ∈ ts, Scalar.isInfinite (t.1.bound env inf t.2) = false := by
  induction ts generalizing a with
  | nil => simp
  | cons t rest ih =>
      rw [List.foldlM_cons, Option.bind_eq_bind, Option.bind_eq_some_iff] at h
      obtain ⟨a', ha', h⟩ := h
      intro w hw
      rcases List.mem_cons.1 hw with rfl | hw
      · unfold addLower at ha'
        split at ha'
        · cases ha'
        · next hi => exact Bool.eq_false_iff.2 hi
      · exact ih h w hw

/-- The lower bound of terms is their least value together; it is missing where that is minus
infinity. -/
theorem getD_foldlM_addLower {ts : List (Term × Extended K)} (hts : ∀ t ∈ ts, Proper env n t)
    {total : Extended K} (hf : total.IsFinite) :
    (ts.foldlM (addLower env (env.infinity n)) total).getD (infinite true) =
      total + sumLowest env (env.infinity n) ts := by
  induction ts generalizing total with
  | nil =>
      rw [hf.eq_finite]
      exact congrArg Extended.finite (add_zero _).symm
  | cons t rest ih =>
      have ht : Proper env n t := hts t List.mem_cons_self
      have hrest : ∀ u ∈ rest, Proper env n u := fun u hu => hts u (List.mem_cons_of_mem _ hu)
      have hsum : sumLowest env (env.infinity n) (t :: rest) =
          lowest env (env.infinity n) t + sumLowest env (env.infinity n) rest := rfl
      rw [List.foldlM_cons, hsum]
      rcases lowest_cases ht.admissible ht.finite ht.ended with ⟨y, hb, hl⟩ | ⟨⟨m, hb⟩, hl⟩
      · have hadd : addLower env (env.infinity n) total t = some (total + t.2 * .finite y) := by
          simp [addLower, hb]
        have hnext : (total + t.2 * .finite y).IsFinite :=
          hf.add (ht.finite.mul (isFinite_finite y))
        rw [hadd, Option.bind_eq_bind, Option.bind_some, ih hrest hnext, hl, ht.finite.eq_finite,
          hf.eq_finite]
        exact finite_add_add _ _ _
      · have hadd : addLower env (env.infinity n) total t = none := by
          simp [addLower, hb, Scalar.isInfinite, infinite?]
        rw [hadd, hl, hf.eq_finite, finite_add_infinite_add _ (sumLowest_lt hrest)]
        rfl

/-- Terms that share no variable come close to their least value together. -/
theorem exists_close_sumLowest {ts : List (Term × Extended K)} (hts : ∀ t ∈ ts, Proper env n t)
    (hseparate : ts.Pairwise fun t u => List.Disjoint t.1.vars u.1.vars) (limit : K) :
    ∃ s, (∀ t ∈ ts, ∀ v ∈ t.1.vars, env.Within s v) ∧
      Close (sumLowest env (env.infinity n) ts) limit
        (ts.map fun t => t.2.toNumber * t.1.weight s).sum := by
  induction ts generalizing limit with
  | nil => exact ⟨0, nofun, rfl⟩
  | cons t rest ih =>
      have ht : Proper env n t := hts t List.mem_cons_self
      have hrest : ∀ u ∈ rest, Proper env n u := fun u hu => hts u (List.mem_cons_of_mem _ hu)
      obtain ⟨hdisjoint, hpairwise⟩ := List.pairwise_cons.1 hseparate
      obtain ⟨m, hm⟩ := close_add (lowest_lt ht) (sumLowest_lt hrest) limit
      obtain ⟨s, hs, hclose⟩ := exists_close_lowest ht.admissible ht.finite m
      obtain ⟨s', hs', hclose'⟩ := ih hrest hpairwise m
      -- the assignments for the first term and for the others do not get in each other's way
      let both : Assignment K := fun v => if v ∈ t.1.vars then s v else s' v
      have hfirst : ∀ v ∈ t.1.vars, both v = s v := fun v hv => if_pos hv
      have hothers : ∀ u ∈ rest, ∀ v ∈ u.1.vars, both v = s' v := fun u hu v hv =>
        if_neg fun h => hdisjoint u hu h hv
      refine ⟨both, fun u hu v hv => ?_, ?_⟩
      · rcases List.mem_cons.1 hu with rfl | hu
        · exact (hs v hv).congr (hfirst v hv)
        · exact (hs' u hu v hv).congr (hothers u hu v hv)
      · rw [List.map_cons, List.sum_cons, weight_congr hfirst]
        have hsum : (rest.map fun u => u.2.toNumber * u.1.weight both) =
            rest.map fun u => u.2.toNumber * u.1.weight s' := by
          apply List.map_congr_left
          intro u hu
          rw [weight_congr (hothers u hu)]
        rw [hsum]
        exact hm _ _ hclose hclose'

end Term

/-! ### Expressions -/

namespace Expression

/-- The values that an expression takes between the bounds of its variables. -/
def span (env : Environment (Extended K)) (e : Expression (Extended K)) : Set K :=
  {x | ∃ s : Assignment K, (∀ v ∈ e.vars, env.Within s v) ∧ e.value s = x}

/-- A term whose coefficient is zero takes no values above some limit. -/
def ZerosBounded (env : Environment (Extended K)) (e : Expression (Extended K)) : Prop :=
  ∀ t ∈ e.terms, t.2.toNumber = 0 → BddAbove (t.1.weights env)

/-- A term whose coefficient is zero has an upper end. -/
def Ended (env : Environment (Extended K)) (inf : Extended K) (e : Expression (Extended K)) : Prop :=
  ∀ t ∈ e.terms, t.2.toNumber = 0 → Scalar.isInfinite (t.1.range env inf).2 = false

variable {env : Environment (Extended K)} {n : Nat} {e : Expression (Extended K)}

omit [LinearOrder K] [FloorRing K] in
/-- A canonical form has no coefficient that is zero. -/
theorem Canonical.ne_zero_of_mem_terms (he : e.Canonical) : ∀ t ∈ e.terms, t.2.toNumber ≠ 0 := by
  intro t ht
  rcases List.mem_append.1 ht with h | h
  · obtain ⟨u, hu, rfl⟩ := List.mem_map.1 h
    exact he.noZeroLinear u hu
  · obtain ⟨u, hu, rfl⟩ := List.mem_map.1 h
    exact he.noZeroQuadratic u hu

theorem Canonical.zerosBounded (he : e.Canonical) (env : Environment (Extended K)) :
    e.ZerosBounded env := fun t ht hzero => absurd hzero (he.ne_zero_of_mem_terms t ht)

/-- The terms of an expression may be added up if those whose coefficient is zero have an upper end. -/
theorem Ended.proper (hended : e.Ended env (env.infinity n)) (he : e.IsFinite)
    (hstore : ∀ v ∈ e.vars, v.store = n) (hroom : ∀ v ∈ e.vars, env.Consistent v) :
    ∀ t ∈ e.terms, Term.Proper env n t := by
  intro t ht
  refine ⟨fun v hv => ?_, he.of_mem_terms t ht, hended t ht⟩
  exact ⟨(forall_mem_vars_iff e _).1 hstore t ht v hv, (forall_mem_vars_iff e _).1 hroom t ht v hv⟩

theorem terms_neg (e : Expression (Extended K)) :
    e.neg.terms = e.terms.map fun t => (t.1, t.2 * -1) := by
  simp [neg_eq_map, map, terms, variableTerms, pairTerms, Coefficients.map, Function.comp_def]

/-- The opposite of zero is zero, so the same terms are asked for an upper end. -/
theorem ended_neg_iff (he : e.IsFinite) (inf : Extended K) :
    e.neg.Ended env inf ↔ e.Ended env inf := by
  unfold Ended
  rw [terms_neg, List.forall_mem_map]
  refine forall_congr' fun t => forall_congr' fun ht => ?_
  rw [toNumber_mul (he.of_mem_terms t ht) isFinite_one.neg, mul_eq_zero,
    or_iff_left (by simp [one_eq])]

/-- Where there is a lower bound, every term whose coefficient is zero has an upper end. -/
theorem ended_of_lower? (he : e.IsFinite) {inf u : Extended K} (h : e.lower? env inf = some u) :
    e.Ended env inf := by
  intro t ht hzero
  rw [lower?_eq_foldlM] at h
  rw [← Term.bound_of_eq_zero (he.of_mem_terms t ht) hzero]
  exact Term.isInfinite_bound_of_foldlM h t ht

/-- The lower bound is what the terms add up to, unless one of them is missing. -/
theorem lower_eq_getD (hstore : ∀ v ∈ e.vars, v.store = n) :
    e.lower env = (e.lower? env (env.infinity n)).getD (-env.infinity n) := by
  cases hc : e.isConstant with
  | false => simp [lower, hc, infinity_eq hstore hc]
  | true =>
      simp only [isConstant, Coefficients.isEmpty, Bool.and_eq_true, List.isEmpty_iff] at hc
      simp [lower, lower?, isConstant, Coefficients.isEmpty, hc.1, hc.2]

/-- Where the infinity of every store is infinite, so is that of an expression over them. -/
theorem infinity_eq_infinity (hinf : ∀ v ∈ e.vars, env.infinity v.store = Scalar.infinity) :
    e.infinity env = Scalar.infinity := by
  cases hc : e.isConstant with
  | true => exact if_pos hc
  | false =>
      obtain ⟨v, hv, hinfinity⟩ := exists_infinity_eq env hc
      rw [hinfinity, hinf v hv]

variable [IsStrictOrderedRing K]

/-- An expression takes no value below its lower bound, unless that is minus the infinity. -/
theorem lower_le_finite_value (he : e.IsFinite) (hstore : ∀ v ∈ e.vars, v.store = n)
    {s : Assignment K} (hs : ∀ v ∈ e.vars, env.Within s v)
    (h : -e.infinity env < e.lower env) : e.lower env ≤ finite (e.value s) := by
  have hlower : e.lower env = (e.lower? env (env.infinity n)).getD (-env.infinity n) :=
    lower_eq_getD hstore
  cases hc : e.isConstant with
  | true =>
      rw [lower, if_pos hc, value_of_isConstant hc, ← he.constant.eq_finite]
      exact he.constant.isDefined.le_refl
  | false =>
      rw [infinity_eq hstore hc] at h
      cases ht : e.lower? env (env.infinity n) with
      | none =>
          rw [hlower, ht] at h
          exact (Extended.lt_irrefl _ h).elim
      | some t =>
          obtain ⟨hf, hle⟩ := lower?_le he hstore hs ht
          rw [hlower, ht, Option.getD_some, hf.eq_finite]
          exact hle

/-- Nor any above its upper bound, unless that is the infinity. -/
theorem finite_value_le_upper (he : e.IsFinite) (hstore : ∀ v ∈ e.vars, v.store = n)
    {s : Assignment K} (hs : ∀ v ∈ e.vars, env.Within s v)
    (h : e.upper env < e.infinity env) : finite (e.value s) ≤ e.upper env := by
  rw [← vars_neg] at hstore hs
  have hneg : -e.neg.infinity env < e.neg.lower env := by
    rwa [infinity_neg, ← Extended.neg_lt_neg_iff, Extended.neg_neg]
  have hle := lower_le_finite_value he.neg hstore hs hneg
  rwa [value_neg he, ← neg_finite, ← Extended.neg_le_neg_iff, Extended.neg_neg] at hle

/-- Where no variable occurs in two terms, the value comes close to the lower bound, which is minus
infinity where it is missing. -/
theorem exists_close_lower? (he : e.IsFinite) (hended : e.Ended env (env.infinity n))
    (hstore : ∀ v ∈ e.vars, v.store = n) (hroom : ∀ v ∈ e.vars, env.Consistent v)
    (hseparate : e.Separate) (limit : K) :
    ∃ s, (∀ v ∈ e.vars, env.Within s v) ∧
      Close ((e.lower? env (env.infinity n)).getD (infinite true)) limit (e.value s) := by
  have hproper := hended.proper he hstore hroom
  obtain ⟨m, hm⟩ := close_add (a := e.constant) (by rw [he.constant.eq_finite]; rfl)
    (Term.sumLowest_lt hproper) limit
  obtain ⟨s, hs, hclose⟩ := Term.exists_close_sumLowest hproper hseparate m
  refine ⟨s, fun v hv => ?_, ?_⟩
  · exact (forall_mem_vars_iff e _).2 hs v hv
  · have hconstant : Close e.constant m e.constant.toNumber := by
      rw [he.constant.eq_finite]
      rfl
    rw [lower?_eq_foldlM, Term.getD_foldlM_addLower hproper he.constant, value_eq_sum_terms]
    exact hm _ _ hconstant hclose

/-- Then the lower bound is the least value, or minus infinity if values go below any limit. -/
theorem lower_exact (he : e.IsFinite) (hended : e.Ended env (env.infinity n))
    (hstore : ∀ v ∈ e.vars, v.store = n) (hroom : ∀ v ∈ e.vars, env.Consistent v)
    (hseparate : e.Separate) (hinf : env.infinity n = Scalar.infinity) :
    (∃ x, e.lower env = finite x ∧ IsLeast (e.span env) x) ∨
      e.lower env = infinite true ∧ ¬ BddBelow (e.span env) := by
  have hlower : e.lower env = (e.lower? env (env.infinity n)).getD (infinite true) := by
    rw [lower_eq_getD hstore, hinf]
    rfl
  have hclose := exists_close_lower? he hended hstore hroom hseparate
  have hle : ∀ s : Assignment K, (∀ v ∈ e.vars, env.Within s v) → infinite true < e.lower env →
      e.lower env ≤ finite (e.value s) := by
    intro s hs h
    refine lower_le_finite_value he hstore hs ?_
    rwa [infinity_eq_infinity fun v hv => by rw [hstore v hv, hinf]]
  rw [← hlower] at hclose
  cases hl : e.lower env with
  | undefined =>
      obtain ⟨s, -, hs⟩ := hclose 0
      rw [hl] at hs
      exact hs.elim
  | finite x =>
      rw [hl] at hclose hle
      refine Or.inl ⟨x, rfl, ?_, ?_⟩
      · obtain ⟨s, hs, hx⟩ := hclose 0
        exact ⟨s, hs, hx⟩
      · rintro y ⟨s, hs, rfl⟩
        exact hle s hs rfl
  | infinite m =>
      rw [hl] at hclose hle
      cases m with
      | false =>
          obtain ⟨s, hs, -⟩ := hclose 0
          exact absurd (hle s hs ⟨rfl, rfl⟩) (by simp)
      | true =>
          refine Or.inr ⟨rfl, ?_⟩
          rintro ⟨b, hb⟩
          obtain ⟨s, hs, hx⟩ := hclose (-b)
          rw [close_infinite, signed, if_pos rfl, neg_lt_neg_iff] at hx
          exact (hb ⟨s, hs, rfl⟩).not_gt hx

omit [IsStrictOrderedRing K] in
theorem separate_neg (h : e.Separate) : e.neg.Separate := by
  rw [Separate, terms_neg, List.pairwise_map]
  exact h

/-- So is the upper bound the greatest value, or infinity if values go above any limit. -/
theorem upper_exact (he : e.IsFinite) (hended : e.Ended env (env.infinity n))
    (hstore : ∀ v ∈ e.vars, v.store = n) (hroom : ∀ v ∈ e.vars, env.Consistent v)
    (hseparate : e.Separate) (hinf : env.infinity n = Scalar.infinity) :
    (∃ x, e.upper env = finite x ∧ IsGreatest (e.span env) x) ∨
      e.upper env = infinite false ∧ ¬ BddAbove (e.span env) := by
  have hspan : ∀ x, x ∈ e.neg.span env ↔ -x ∈ e.span env := by
    intro x
    simp only [span, Set.mem_ofPred_eq, vars_neg, value_neg he, neg_eq_iff_eq_neg]
  rw [← vars_neg] at hstore hroom
  rw [← ended_neg_iff he] at hended
  rcases lower_exact he.neg hended hstore hroom (separate_neg hseparate) hinf with
    ⟨x, hx, hmem, hleast⟩ | ⟨hl, hunbounded⟩
  · refine Or.inl ⟨-x, by rw [upper, hx, neg_finite], (hspan x).1 hmem, fun y hy => ?_⟩
    have hy' : -y ∈ e.neg.span env := by rwa [hspan, neg_neg]
    exact le_neg_of_le_neg (hleast hy')
  · refine Or.inr ⟨by rw [upper, hl]; rfl, ?_⟩
    rintro ⟨b, hb⟩
    apply hunbounded
    refine ⟨-b, fun y hy => ?_⟩
    exact neg_le_of_neg_le (hb ((hspan y).1 hy))

omit [IsStrictOrderedRing K] in
/-- Where there is a term without upper end whose coefficient is zero, both bounds are missing. -/
theorem bounds_of_not_ended (he : e.IsFinite) (hended : ¬ e.Ended env (env.infinity n))
    (hstore : ∀ v ∈ e.vars, v.store = n) (hinf : env.infinity n = Scalar.infinity) :
    e.lower env = infinite true ∧ e.upper env = infinite false := by
  have hmissing : ∀ {f : Expression (Extended K)}, f.IsFinite → ¬ f.Ended env (env.infinity n) →
      (∀ v ∈ f.vars, v.store = n) → f.lower env = infinite true := by
    intro f hf hended hstore
    rw [lower_eq_getD hstore]
    cases h : f.lower? env (env.infinity n) with
    | none => exact congrArg (- ·) hinf
    | some u => exact absurd (ended_of_lower? hf h) hended
  refine ⟨hmissing he hended hstore, ?_⟩
  rw [upper, hmissing he.neg ((ended_neg_iff he _).not.2 hended) (by rwa [vars_neg])]
  rfl

/-- Whether values have a limit is whether there is an upper end. -/
theorem zerosBounded_iff_ended (hstore : ∀ v ∈ e.vars, v.store = n)
    (hroom : ∀ v ∈ e.vars, env.Consistent v) :
    e.ZerosBounded env ↔ e.Ended env (env.infinity n) := by
  refine forall_congr' fun t => forall_congr' fun ht => imp_congr_right fun _ => ?_
  have hmeasured : t.1.Measured env (env.infinity n) := fun v hv =>
    ⟨congrArg env.infinity ((forall_mem_vars_iff e _).1 hstore t ht v hv),
      (forall_mem_vars_iff e _).1 hroom t ht v hv⟩
  exact (Term.isInfinite_range_iff hmeasured).symm

/-- **Bounds are sound, and exact without repeated variables.**  Between the bounds of its variables an
expression over one store takes no value below its lower bound or above its upper bound, unless these
are told by the infinity of the store.

If that infinity is infinite, and the variables, which have room between their bounds, occur in one term
each, then the lower bound is the least value or there are values below any limit, and the upper bound is
the greatest value or there are values above any, provided that no term whose coefficient is zero takes
values above any limit.  Where some does, both bounds are infinite.  All coefficients that operators leave
are other than zero (`MixedInteger.Cells.Canonical.run`). -/
theorem bounds_are_sound_and_exact (he : e.IsFinite) (hstore : ∀ v ∈ e.vars, v.store = n)
    (hroom : ∀ v ∈ e.vars, env.Consistent v) :
    (∀ s : Assignment K, (∀ v ∈ e.vars, env.Within s v) →
      (-e.infinity env < e.lower env → e.lower env ≤ finite (e.value s)) ∧
      (e.upper env < e.infinity env → finite (e.value s) ≤ e.upper env)) ∧
    (e.ZerosBounded env → e.Separate → env.infinity n = Scalar.infinity →
      ((∃ x, e.lower env = finite x ∧ IsLeast (e.span env) x) ∨
        e.lower env = infinite true ∧ ¬ BddBelow (e.span env)) ∧
      ((∃ x, e.upper env = finite x ∧ IsGreatest (e.span env) x) ∨
        e.upper env = infinite false ∧ ¬ BddAbove (e.span env))) ∧
    (¬ e.ZerosBounded env → env.infinity n = Scalar.infinity →
      e.lower env = infinite true ∧ e.upper env = infinite false) := by
  have hbounded := zerosBounded_iff_ended hstore hroom
  refine ⟨fun s hs => ⟨lower_le_finite_value he hstore hs, finite_value_le_upper he hstore hs⟩, ?_, ?_⟩
  · intro hzeros hseparate hinf
    rw [hbounded] at hzeros
    exact ⟨lower_exact he hzeros hstore hroom hseparate hinf,
      upper_exact he hzeros hstore hroom hseparate hinf⟩
  · intro hzeros hinf
    rw [hbounded] at hzeros
    exact bounds_of_not_ended he hzeros hstore hinf

/-- `x * y + z` for `x` from -1 to 2, `y` from -3 to 5, and `z` from zero on: it is least where `x` is 2
and `y` is -3, and it has no greatest value. -/
theorem bounds_are_sound_and_exact_of_product :
    let x : Variable := ⟨0, 0⟩
    let y : Variable := ⟨0, 1⟩
    let z : Variable := ⟨0, 2⟩
    let env : Environment (Extended ℚ) :=
      { attributes := fun v =>
          if v = x then ⟨.continuous, finite (-1), finite 2, none⟩
          else if v = y then ⟨.continuous, finite (-3), finite 5, none⟩
          else ⟨.continuous, finite 0, infinite false, none⟩
        infinity := fun _ => infinite false }
    let e := ((ofVariable x).product (ofVariable y)).addVariable z 1
    IsLeast (e.span env) (-6) ∧ ¬ BddAbove (e.span env) := by
  intro x y z env e
  have he : e.Canonical :=
    ((canonical_ofVariable x).product (canonical_ofVariable y)).addVariable z isFinite_one
  have hstore : ∀ v ∈ e.vars, v.store = 0 := (forall_mem_vars_iff e _).2 (by decide +kernel)
  have hroom : ∀ v ∈ e.vars, env.Consistent v := by
    have h : ∀ t ∈ e.terms, ∀ v ∈ t.1.vars, env.lower v ≤ env.upper v ∧
        env.lower v < env.infinity v.store ∧ -env.infinity v.store < env.upper v := by
      decide +kernel
    exact (forall_mem_vars_iff e _).2 fun t ht v hv =>
      ⟨(h t ht v hv).1, (h t ht v hv).2.1, (h t ht v hv).2.2⟩
  have hseparate : e.Separate := by
    have h : e.terms.Pairwise fun t u => ∀ v ∈ t.1.vars, v ∉ u.1.vars := by decide +kernel
    exact h.imp fun h v hv hu => h v hv hu
  obtain ⟨-, hexact, -⟩ := bounds_are_sound_and_exact he.toIsFinite hstore hroom
  obtain ⟨hlower, hupper⟩ := hexact (he.zerosBounded env) hseparate rfl
  have hl : e.lower env = finite (-6) := by decide +kernel
  have hu : e.upper env = infinite false := by decide +kernel
  rw [hl] at hlower
  rw [hu] at hupper
  rcases hlower with ⟨b, hb, hleast⟩ | ⟨hb, -⟩
  · rcases hupper with ⟨c, hc, -⟩ | ⟨-, hunbounded⟩
    · cases hc
    · cases hb
      exact ⟨hleast, hunbounded⟩
  · cases hb

/-- **A stored zero may hide the exact bounds**: zero times a free variable is zero everywhere, and has no
lower bound. -/
theorem not_exact_with_stored_zero :
    ¬ ∀ (env : Environment (Extended ℚ)) (e : Expression (Extended ℚ)) (n : Nat), e.IsFinite →
        (∀ v ∈ e.vars, v.store = n) → (∀ v ∈ e.vars, env.Consistent v) → e.Separate →
        env.infinity n = Scalar.infinity →
        (∃ x, e.lower env = finite x ∧ IsLeast (e.span env) x) ∨
          e.lower env = infinite true ∧ ¬ BddBelow (e.span env) := by
  intro hclaim
  let x : Variable := ⟨0, 0⟩
  let env : Environment (Extended ℚ) :=
    .alike .continuous (infinite true) (infinite false) (infinite false)
  let e : Expression (Extended ℚ) := .affine (finite 0) (finite 0) x
  have hvars : ∀ v ∈ e.vars, v = x := fun v hv => (mem_vars_affine _ _ _ v).1 hv
  have hconsistent : env.Consistent x := by decide +kernel
  have hvalue : ∀ s : Assignment ℚ, e.value s = 0 := by
    intro s
    simp [e, value, affine]
  have hlower : e.lower env = infinite true := by decide +kernel
  rcases hclaim env e 0 (isFinite_affine _ _ _) (fun v hv => by rw [hvars v hv])
    (fun v hv => by rwa [hvars v hv]) (List.pairwise_singleton _ _) rfl with
    ⟨y, hy, -⟩ | ⟨-, hunbounded⟩
  · rw [hlower] at hy
    cases hy
  · refine hunbounded ⟨0, ?_⟩
    rintro y ⟨s, -, rfl⟩
    exact (hvalue s).ge

end Expression

end MixedInteger
