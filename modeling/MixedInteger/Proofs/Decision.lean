/-
**What the bounds decide.**

A constraint is refused, or counts as violated, when one of its bounds is beyond zero on the wrong side,
and counts as satisfied when both are on the right one.  Bounds are sound, so what is decided is true of
every assignment within the bounds of the variables.  A linear expression takes every value between two
of its values, and over a store whose infinity is infinite its bounds are exact, unless zero is stored as
the coefficient of a variable that is free above.  Then nothing is left undecided that could be decided.

Main definitions:

* `MixedInteger.Assignment.between` — an assignment on the way from one to another;
* `MixedInteger.Constraint.HoldsEverywhere`, `MixedInteger.Constraint.HoldsNowhere` — satisfaction between
  the bounds of the variables.

Main results:

* `MixedInteger.Expression.ordConnected_span` — the values of a linear expression have no gaps;
* `MixedInteger.Expression.lower_tells_sign`, `MixedInteger.Expression.upper_tells_sign` — exact bounds
  tell the sign of all values;
* `MixedInteger.Constraint.holdsNowhere_of_violated`, `MixedInteger.Constraint.holdsEverywhere_of_satisfied`
  — what is decided is true;
* `MixedInteger.Constraint.decided_by_bounds` — **the bounds decide satisfiability**;
* `MixedInteger.Constraint.undecided_with_stored_zero` — a stored zero may hide that nothing holds.
-/

import MixedInteger.Proofs.Difference
import Mathlib.Order.Interval.Set.OrdConnected

set_option autoImplicit false

namespace MixedInteger

open Extended

variable {K : Type} [Field K] [LinearOrder K] [FloorRing K]

/-! ### Values between two values -/

namespace Assignment

/-- The assignment that has gone the part `x` of the way from `s` to `t`. -/
def between (s t : Assignment K) (x : K) : Assignment K := fun v => s v + x * (t v - s v)

end Assignment

section Between

variable [IsStrictOrderedRing K] {s t : Assignment K} {x : K}

/-- What lies below two numbers lies below all numbers between them, -/
theorem Extended.le_between {a : Extended K} {y z : K} (hy : a ≤ finite y) (hz : a ≤ finite z)
    (h0 : 0 ≤ x) (h1 : x ≤ 1) : a ≤ finite (y + x * (z - y)) := by
  cases a with
  | undefined => exact (not_undefined_le _ hy).elim
  | infinite n => exact hy
  | finite b =>
      rw [finite_le_finite] at hy hz ⊢
      nlinarith only [mul_nonneg (sub_nonneg.2 h1) (sub_nonneg.2 hy), mul_nonneg h0 (sub_nonneg.2 hz)]

/-- and so does what lies above them. -/
theorem Extended.between_le {a : Extended K} {y z : K} (hy : finite y ≤ a) (hz : finite z ≤ a)
    (h0 : 0 ≤ x) (h1 : x ≤ 1) : finite (y + x * (z - y)) ≤ a := by
  rw [← Extended.neg_le_neg_iff, neg_finite] at hy hz ⊢
  have hmirror : -(y + x * (z - y)) = -y + x * (-z - -y) := by ring
  rw [hmirror]
  exact le_between hy hz h0 h1

/-- Between two values within the bounds of a variable all values are. -/
theorem Environment.Within.between {env : Environment (Extended K)} {v : Variable}
    (hs : env.Within s v) (ht : env.Within t v) (h0 : 0 ≤ x) (h1 : x ≤ 1) :
    env.Within (s.between t x) v :=
  ⟨le_between hs.lower ht.lower h0 h1, between_le hs.upper ht.upper h0 h1⟩

end Between

omit [LinearOrder K] [FloorRing K] in
/-- A weighted sum goes the same part of the way as its weights. -/
theorem Coefficients.weigh_between (m : Coefficients Variable (Extended K)) (s t : Assignment K) (x : K) :
    m.weigh (s.between t x) = m.weigh s + x * (m.weigh t - m.weigh s) := by
  rw [← Coefficients.weigh_sub]
  simp only [weigh, Assignment.between]
  induction m.entries with
  | nil => simp
  | cons u rest ih =>
      simp only [List.map_cons, List.sum_cons, ih]
      ring

namespace Expression

variable {env : Environment (Extended K)} {n : Nat} {e : Expression (Extended K)}

omit [LinearOrder K] [FloorRing K] in
/-- So does the value of a linear expression. -/
theorem value_between (h : e.isLinear = true) (s t : Assignment K) (x : K) :
    e.value (s.between t x) = e.value s + x * (e.value t - e.value s) := by
  have hlinear : ∀ u : Assignment K, e.value u = e.constant.toNumber + e.linear.weigh u := by
    intro u
    simp [value, Coefficients.weigh, entries_of_isLinear h]
  rw [hlinear, hlinear s, hlinear t, Coefficients.weigh_between]
  ring

variable [IsStrictOrderedRing K]

/-- **A linear expression takes every value between two of its values.** -/
theorem ordConnected_span (h : e.isLinear = true) : (e.span env).OrdConnected := by
  refine ⟨?_⟩
  rintro _ ⟨s, hs, rfl⟩ _ ⟨t, ht, rfl⟩ z ⟨hz, hz'⟩
  rcases (hz.trans hz').eq_or_lt with heq | hlt
  · exact ⟨s, hs, le_antisymm hz (heq ▸ hz')⟩
  · have hgap : 0 < e.value t - e.value s := sub_pos.2 hlt
    let x := (z - e.value s) / (e.value t - e.value s)
    have h0 : 0 ≤ x := div_nonneg (sub_nonneg.2 hz) hgap.le
    have h1 : x ≤ 1 := (div_le_one hgap).2 (sub_le_sub_right hz' _)
    refine ⟨s.between t x, fun v hv => (hs v hv).between (ht v hv) h0 h1, ?_⟩
    rw [value_between h, div_mul_cancel₀ _ hgap.ne']
    ring

/-- So if it takes values of both signs, it takes the value zero. -/
theorem zero_mem_span_or (h : e.isLinear = true) :
    0 ∈ e.span env ∨ (∀ x ∈ e.span env, 0 < x) ∨ ∀ x ∈ e.span env, x < 0 := by
  by_contra hnot
  simp only [not_or, not_forall, not_lt] at hnot
  obtain ⟨hzero, ⟨x, hx, hx0⟩, y, hy, hy0⟩ := hnot
  exact hzero ((ordConnected_span h).out hx hy ⟨hx0, hy0⟩)

/-! ### The sign of a value -/

/-- What has a positive lower bound has no value that is not positive. -/
theorem value_pos (he : e.IsFinite) (hinf : 0 < env.infinity n) (hstore : ∀ v ∈ e.vars, v.store = n)
    (h : 0 < e.lower env) {s : Assignment K} (hs : ∀ v ∈ e.vars, env.Within s v) :
    0 < e.value s := by
  have hpos := infinity_pos hinf hstore
  have hbelow : ¬ e.lower env ≤ -e.infinity env := fun hle =>
    Extended.not_lt_of_le (Extended.le_trans hle
      (Extended.le_of_lt ((neg_lt_zero_iff _).2 hpos))) h
  obtain ⟨hf, hvalue⟩ := lower_le_value he hinf hstore hs hbelow
  rw [hf.eq_finite] at h
  exact lt_of_lt_of_le h hvalue

/-- What has a negative upper bound has no value that is not negative. -/
theorem value_neg_of_upper (he : e.IsFinite) (hinf : 0 < env.infinity n)
    (hstore : ∀ v ∈ e.vars, v.store = n) (h : e.upper env < 0) {s : Assignment K}
    (hs : ∀ v ∈ e.vars, env.Within s v) : e.value s < 0 := by
  rw [← vars_neg] at hstore hs
  have hneg := value_pos he.neg hinf hstore ((neg_lt_zero_iff _).1 h) hs
  rwa [value_neg he, neg_pos] at hneg

/-- What has an upper bound that is not positive has no positive value. -/
theorem value_nonpos (he : e.IsFinite) (hinf : 0 < env.infinity n)
    (hstore : ∀ v ∈ e.vars, v.store = n) (h : e.upper env ≤ 0) {s : Assignment K}
    (hs : ∀ v ∈ e.vars, env.Within s v) : e.value s ≤ 0 := by
  rw [← vars_neg] at hstore hs
  have hlower : 0 ≤ e.neg.lower env := by rwa [lower_neg, zero_le_neg_iff]
  have hneg := value_nonneg he.neg hinf hstore hlower hs
  rwa [value_neg he, neg_nonneg] at hneg

/-- An exact lower bound tells whether all values are positive, and whether none is negative. -/
theorem lower_tells_sign (he : e.IsFinite) (hzeros : e.ZerosBounded env)
    (hstore : ∀ v ∈ e.vars, v.store = n) (hroom : ∀ v ∈ e.vars, env.Consistent v)
    (hseparate : e.Separate) (hinf : env.infinity n = Scalar.infinity) :
    (0 < e.lower env ↔ ∀ x ∈ e.span env, 0 < x) ∧ (0 ≤ e.lower env ↔ ∀ x ∈ e.span env, 0 ≤ x) := by
  have hended := (zerosBounded_iff_ended hstore hroom).1 hzeros
  rcases lower_exact he hended hstore hroom hseparate hinf with ⟨y, hy, hmem, hleast⟩ | ⟨hy, hunbounded⟩
  · rw [hy]
    exact ⟨⟨fun h x hx => lt_of_lt_of_le h (hleast hx), fun h => h y hmem⟩,
      fun h x hx => le_trans h (hleast hx), fun h => h y hmem⟩
  · -- without a least value some are negative
    obtain ⟨x, hx, hx0⟩ : ∃ x ∈ e.span env, x < 0 := by
      by_contra hnot
      push Not at hnot
      exact hunbounded ⟨0, fun x hx => hnot x hx⟩
    rw [hy]
    exact ⟨iff_of_false nofun fun h => (h x hx).not_gt hx0,
      iff_of_false nofun fun h => (h x hx).not_gt hx0⟩

/-- An exact upper bound tells whether all values are negative, and whether none is positive. -/
theorem upper_tells_sign (he : e.IsFinite) (hzeros : e.ZerosBounded env)
    (hstore : ∀ v ∈ e.vars, v.store = n) (hroom : ∀ v ∈ e.vars, env.Consistent v)
    (hseparate : e.Separate) (hinf : env.infinity n = Scalar.infinity) :
    (e.upper env < 0 ↔ ∀ x ∈ e.span env, x < 0) ∧ (¬ 0 < e.upper env ↔ ∀ x ∈ e.span env, x ≤ 0) := by
  have hended := (zerosBounded_iff_ended hstore hroom).1 hzeros
  rcases upper_exact he hended hstore hroom hseparate hinf with ⟨y, hy, hmem, hgreatest⟩ | ⟨hy, hunbounded⟩
  · rw [hy]
    exact ⟨⟨fun h x hx => lt_of_le_of_lt (hgreatest hx) h, fun h => h y hmem⟩,
      fun h x hx => le_trans (hgreatest hx) (not_lt.1 h), fun h => not_lt.2 (h y hmem)⟩
  · -- without a greatest value some are positive
    obtain ⟨x, hx, hx0⟩ : ∃ x ∈ e.span env, 0 < x := by
      by_contra hnot
      push Not at hnot
      exact hunbounded ⟨0, fun x hx => hnot x hx⟩
    rw [hy]
    exact ⟨iff_of_false nofun fun h => (h x hx).not_gt hx0,
      iff_of_false (fun h => h rfl) fun h => (h x hx).not_gt hx0⟩

omit [Field K] [LinearOrder K] [FloorRing K] [IsStrictOrderedRing K] in
/-- No variable occurs in two terms of a linear expression. -/
theorem separate_of_isLinear (h : e.isLinear = true) : e.Separate := by
  have hlinear : e.linearPart = e := by
    have hquadratic : e.quadratic = .empty := Coefficients.eq_of_entries_eq (entries_of_isLinear h)
    rw [linearPart, ← hquadratic]
  exact hlinear ▸ separate_linearPart e

end Expression

/-! ### What the bounds decide -/

namespace Constraint

/-- A constraint holds wherever its variables are within their bounds. -/
def HoldsEverywhere (env : Environment (Extended K)) (c : Constraint (Extended K)) : Prop :=
  ∀ s : Assignment K, (∀ v ∈ c.expression.vars, env.Within s v) → c.Holds s

/-- A constraint holds nowhere that its variables are within their bounds. -/
def HoldsNowhere (env : Environment (Extended K)) (c : Constraint (Extended K)) : Prop :=
  ∀ s : Assignment K, (∀ v ∈ c.expression.vars, env.Within s v) → ¬ c.Holds s

variable {env : Environment (Extended K)} {n : Nat} {c : Constraint (Extended K)}

/-- Satisfaction everywhere, said with the values of the expression. -/
theorem holdsEverywhere_iff : c.HoldsEverywhere env ↔
    (∀ x ∈ c.expression.span env, x ≤ 0) ∧
      (c.relation = .equal → ∀ x ∈ c.expression.span env, 0 ≤ x) := by
  simp only [HoldsEverywhere, Holds, Expression.span, Set.mem_ofPred_eq, forall_exists_index, and_imp,
    forall_apply_eq_imp_iff₂]
  cases c.relation with
  | atMost => simp
  | equal => simp [le_antisymm_iff, forall_and]

/-- Satisfaction nowhere, said likewise. -/
theorem holdsNowhere_iff : c.HoldsNowhere env ↔
    if c.relation = .equal then 0 ∉ c.expression.span env
    else ∀ x ∈ c.expression.span env, 0 < x := by
  simp only [HoldsNowhere, Holds, Expression.span, Set.mem_ofPred_eq, forall_exists_index, and_imp,
    forall_apply_eq_imp_iff₂]
  cases c.relation with
  | atMost => simp
  | equal => simp

variable [IsStrictOrderedRing K]

/-- What counts as violated holds nowhere. -/
theorem holdsNowhere_of_violated (hc : c.IsFinite) (hinf : 0 < env.infinity n)
    (hstore : ∀ v ∈ c.expression.vars, v.store = n) (h : c.mustBeViolated env = true) :
    c.HoldsNowhere env := by
  intro s hs hholds
  rcases (mustBeViolated_eq_true_iff env c).1 h with hlower | ⟨hrelation, hupper⟩
  · have hpos := Expression.value_pos hc hinf hstore hlower hs
    unfold Holds at hholds
    split at hholds
    · exact hholds.not_gt hpos
    · exact hpos.ne' hholds
  · rw [Holds, hrelation] at hholds
    exact (Expression.value_neg_of_upper hc hinf hstore hupper hs).ne hholds

/-- What counts as satisfied holds everywhere. -/
theorem holdsEverywhere_of_satisfied (hc : c.IsFinite) (hinf : 0 < env.infinity n)
    (hstore : ∀ v ∈ c.expression.vars, v.store = n)
    (hcompares : ∀ v ∈ c.expression.vars, env.Compares v) (h : c.mustBeSatisfied env = true) :
    c.HoldsEverywhere env := by
  obtain ⟨hupper, hlower⟩ := (mustBeSatisfied_eq_true_iff env c).1 h
  have hle : c.expression.upper env ≤ 0 := le_of_not_lt
    (Expression.isDefined_upper hc hinf hstore hcompares) isFinite_zero.isDefined hupper
  intro s hs
  have hnonpos := Expression.value_nonpos hc hinf hstore hle hs
  unfold Holds
  split
  · exact hnonpos
  · next hrelation =>
      have hge := hlower.resolve_left (by rw [hrelation]; decide)
      exact le_antisymm hnonpos (Expression.value_nonneg hc hinf hstore hge hs)

/-- What holds somewhere between the bounds is not refused. -/
theorem not_violated_of_holds {s : Assignment K} (hc : c.IsFinite) (hinf : 0 < env.infinity n)
    (hstore : ∀ v ∈ c.expression.vars, v.store = n)
    (hs : ∀ v ∈ c.expression.vars, env.Within s v) (h : c.Holds s) :
    c.mustBeViolated env = false := by
  rw [Bool.eq_false_iff]
  intro hviolated
  exact holdsNowhere_of_violated hc hinf hstore hviolated s hs h

omit [IsStrictOrderedRing K] in
/-- Making a constraint is refused exactly if it counts as violated. -/
theorem refused_iff (env : Environment (Extended K)) (c : Constraint (Extended K)) :
    make env c.relation c.expression c.name =
        .error (.unsatisfiable c (c.expression.lower env) (c.expression.upper env)) ↔
      c.mustBeViolated env = true := by
  unfold make
  cases h : c.mustBeViolated env with
  | false =>
      dsimp only
      rw [h]
      exact iff_of_false nofun nofun
  | true =>
      dsimp only
      rw [h]
      exact iff_of_true rfl rfl

/-- Between exact bounds, what holds nowhere counts as violated, -/
theorem violated_of_holdsNowhere (hc : c.IsFinite) (hzeros : c.expression.ZerosBounded env)
    (hlinear : c.expression.isLinear = true) (hstore : ∀ v ∈ c.expression.vars, v.store = n)
    (hroom : ∀ v ∈ c.expression.vars, env.Consistent v) (hinf : env.infinity n = Scalar.infinity)
    (h : c.HoldsNowhere env) : c.mustBeViolated env = true := by
  have hseparate := Expression.separate_of_isLinear hlinear
  obtain ⟨hlower, -⟩ := Expression.lower_tells_sign hc hzeros hstore hroom hseparate hinf
  obtain ⟨hupper, -⟩ := Expression.upper_tells_sign hc hzeros hstore hroom hseparate hinf
  rw [mustBeViolated_eq_true_iff, hlower, hupper]
  rw [holdsNowhere_iff] at h
  split at h
  · next hrelation =>
      -- an equation that holds nowhere stays on one side of zero
      rcases Expression.zero_mem_span_or hlinear with hzero | hpos | hneg
      · exact absurd hzero h
      · exact Or.inl hpos
      · exact Or.inr ⟨hrelation, hneg⟩
  · exact Or.inl h

/-- and what holds everywhere counts as satisfied. -/
theorem satisfied_of_holdsEverywhere (hc : c.IsFinite) (hzeros : c.expression.ZerosBounded env)
    (hlinear : c.expression.isLinear = true) (hstore : ∀ v ∈ c.expression.vars, v.store = n)
    (hroom : ∀ v ∈ c.expression.vars, env.Consistent v) (hinf : env.infinity n = Scalar.infinity)
    (h : c.HoldsEverywhere env) : c.mustBeSatisfied env = true := by
  have hseparate := Expression.separate_of_isLinear hlinear
  obtain ⟨-, hlower⟩ := Expression.lower_tells_sign hc hzeros hstore hroom hseparate hinf
  obtain ⟨-, hupper⟩ := Expression.upper_tells_sign hc hzeros hstore hroom hseparate hinf
  obtain ⟨hnonpos, hnonneg⟩ := holdsEverywhere_iff.1 h
  rw [mustBeSatisfied_eq_true_iff, hlower, hupper]
  refine ⟨hnonpos, ?_⟩
  cases hrelation : c.relation with
  | atMost => exact Or.inl rfl
  | equal => exact Or.inr (hnonneg hrelation)

omit [IsStrictOrderedRing K] in
/-- Where both bounds are infinite, nothing is decided. -/
theorem undecided_of_infinite (hlower : c.expression.lower env = infinite true)
    (hupper : c.expression.upper env = infinite false) :
    c.mustBeViolated env = false ∧ c.mustBeSatisfied env = false := by
  rw [Bool.eq_false_iff, Bool.eq_false_iff, ne_eq, ne_eq, mustBeViolated_eq_true_iff,
    mustBeSatisfied_eq_true_iff, hlower, hupper]
  refine ⟨?_, fun h => h.1 rfl⟩
  rintro (h | ⟨-, h⟩) <;> cases h

/-- **The bounds decide satisfiability.**  Over one store whose variables have room between their bounds,
a constraint that is refused when it is made, or that counts as violated, holds nowhere between the
bounds, and one that counts as satisfied holds everywhere, so that no constraint counts as both.

If its expression is linear and the infinity of the store is infinite, it is refused, and counts as
violated, exactly if it holds nowhere, and it counts as satisfied exactly if it holds everywhere, provided
that no variable whose coefficient is zero is free above.  Where one is, nothing is decided.  All
coefficients that operators leave are other than zero (`MixedInteger.Cells.Canonical.run`). -/
theorem decided_by_bounds (hc : c.IsFinite) (hinf : 0 < env.infinity n)
    (hstore : ∀ v ∈ c.expression.vars, v.store = n)
    (hroom : ∀ v ∈ c.expression.vars, env.Consistent v) :
    let refused := make env c.relation c.expression c.name =
      .error (.unsatisfiable c (c.expression.lower env) (c.expression.upper env))
    (refused ∨ c.mustBeViolated env = true → c.HoldsNowhere env) ∧
    (c.mustBeSatisfied env = true → c.HoldsEverywhere env) ∧
    ¬ (c.mustBeViolated env = true ∧ c.mustBeSatisfied env = true) ∧
    (c.expression.ZerosBounded env → c.expression.isLinear = true → env.infinity n = Scalar.infinity →
      (refused ↔ c.HoldsNowhere env) ∧ (c.mustBeViolated env = true ↔ c.HoldsNowhere env) ∧
        (c.mustBeSatisfied env = true ↔ c.HoldsEverywhere env)) ∧
    (¬ c.expression.ZerosBounded env → env.infinity n = Scalar.infinity →
      ¬ refused ∧ c.mustBeViolated env = false ∧ c.mustBeSatisfied env = false) := by
  intro refused
  have hrefused : refused ↔ c.mustBeViolated env = true := refused_iff env c
  have hnowhere : c.mustBeViolated env = true → c.HoldsNowhere env :=
    holdsNowhere_of_violated hc hinf hstore
  have heverywhere : c.mustBeSatisfied env = true → c.HoldsEverywhere env :=
    holdsEverywhere_of_satisfied hc hinf hstore fun v hv =>
      Environment.compares_of_le (hroom v hv).ordered
  refine ⟨?_, heverywhere, ?_, ?_, ?_⟩
  · rw [hrefused, or_self]
    exact hnowhere
  · rintro ⟨hviolated, hsatisfied⟩
    obtain ⟨s, hs⟩ := Expression.exists_within env
    have hwithin : ∀ v ∈ c.expression.vars, env.Within s v := fun v hv => hs v (hroom v hv)
    exact hnowhere hviolated s hwithin (heverywhere hsatisfied s hwithin)
  · intro hzeros hlinear hinfinite
    have hviolated : c.mustBeViolated env = true ↔ c.HoldsNowhere env :=
      ⟨hnowhere, violated_of_holdsNowhere hc hzeros hlinear hstore hroom hinfinite⟩
    exact ⟨hrefused.trans hviolated, hviolated, heverywhere,
      satisfied_of_holdsEverywhere hc hzeros hlinear hstore hroom hinfinite⟩
  · intro hzeros hinfinite
    rw [Expression.zerosBounded_iff_ended hstore hroom] at hzeros
    obtain ⟨hlower, hupper⟩ := Expression.bounds_of_not_ended hc hzeros hstore hinfinite
    obtain ⟨hviolated, hsatisfied⟩ := undecided_of_infinite hlower hupper
    rw [hrefused, hviolated]
    exact ⟨Bool.false_ne_true, rfl, hsatisfied⟩

/-- With `x` from zero on and `y` from -1 to 2, `2 y - x = 3` is not decided: it holds somewhere, and
not everywhere. -/
theorem decided_by_bounds_on_half_line :
    let x : Variable := ⟨0, 0⟩
    let y : Variable := ⟨0, 1⟩
    let env : Environment (Extended ℚ) :=
      { attributes := fun v =>
          if v.slot = 0 then ⟨.continuous, finite 0, infinite false, none⟩
          else ⟨.continuous, finite (-1), finite 2, none⟩
        infinity := fun _ => infinite false }
    let e := ((Expression.ofVariable y).scale (finite 2)).addVariable x (finite (-1))
    let c : Constraint (Extended ℚ) := ⟨.equal, e.addConstant (finite (-3)), none⟩
    ¬ c.HoldsNowhere env ∧ ¬ c.HoldsEverywhere env := by
  intro x y env e c
  have hc : c.expression.Canonical :=
    (((Expression.canonical_ofVariable y).scale (isFinite_finite _)).addVariable x
      (isFinite_finite _)).addConstant (isFinite_finite _)
  have hstore : ∀ v ∈ c.expression.vars, v.store = 0 :=
    (Expression.forall_mem_vars_iff _ _).2 (by decide +kernel)
  have hroom : ∀ v ∈ c.expression.vars, env.Consistent v :=
    (Expression.forall_mem_vars_iff _ _).2 (by decide +kernel)
  have hinf : 0 < env.infinity 0 := by decide +kernel
  obtain ⟨-, -, -, hexact, -⟩ := decided_by_bounds hc.toIsFinite hinf hstore hroom
  obtain ⟨-, hnowhere, heverywhere⟩ := hexact (hc.zerosBounded env) (by decide +kernel) rfl
  rw [← hnowhere, ← heverywhere]
  exact ⟨by decide +kernel, by decide +kernel⟩

/-- **A stored zero may hide that nothing holds**: zero times a free variable plus five is not at most zero
anywhere, which is not noticed. -/
theorem undecided_with_stored_zero :
    ¬ ∀ (env : Environment (Extended ℚ)) (c : Constraint (Extended ℚ)) (n : Nat), c.IsFinite →
        0 < env.infinity n → (∀ v ∈ c.expression.vars, v.store = n) →
        (∀ v ∈ c.expression.vars, env.Consistent v) → c.expression.isLinear = true →
        env.infinity n = Scalar.infinity → (c.mustBeViolated env = true ↔ c.HoldsNowhere env) := by
  intro hclaim
  let x : Variable := ⟨0, 0⟩
  let env : Environment (Extended ℚ) :=
    .alike .continuous (infinite true) (infinite false) (infinite false)
  let c : Constraint (Extended ℚ) := ⟨.atMost, .affine (finite 5) (finite 0) x, none⟩
  have hvars : ∀ v ∈ c.expression.vars, v = x := fun v hv => (Expression.mem_vars_affine _ _ _ v).1 hv
  have hconsistent : env.Consistent x := by decide +kernel
  have hnowhere : c.HoldsNowhere env := by
    intro s _
    have hvalue : c.expression.value s = 5 := by simp [c, Expression.value, Expression.affine]
    simp [Holds, c, hvalue]
  have hviolated : c.mustBeViolated env = false := by decide +kernel
  have hiff := hclaim env c 0 (Expression.isFinite_affine _ _ _) (by decide +kernel)
    (fun v hv => by rw [hvars v hv]) (fun v hv => by rwa [hvars v hv]) rfl rfl
  rw [hviolated] at hiff
  exact Bool.false_ne_true (hiff.2 hnowhere)

end Constraint

end MixedInteger
