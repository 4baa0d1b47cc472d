/-
**Which equations are captured.**

An equation that can be captured, and that the bounds decide neither way, is captured: the expression
for it is there, it is linear, and where the kinds and the bounds of the variables allow it tells
whether the equation holds.  Nothing is asked of the infinity of the store.  If that is not positive,
room between the bounds of a variable means that neither bound restricts it; both bounds of the
expression are then at the infinity, and the equation counts as satisfied.

Main results:

* `MixedInteger.Environment.Consistent.isInfinite_bounds` — an infinity that is not positive leaves
  every variable unbounded;
* `MixedInteger.Constraint.infinity_pos_of_undecided` — so what is not decided has a positive one;
* `MixedInteger.Constraint.captured_of_undecided` — **an equation that is not decided is captured**.
-/

import MixedInteger.Proofs.Replaceability

set_option autoImplicit false

namespace MixedInteger

open Extended

variable {K : Type} [Field K] [LinearOrder K] [IsStrictOrderedRing K] [FloorRing K]

/-! ### An infinity that is not positive -/

omit [IsStrictOrderedRing K] in
/-- A bound at or beyond the infinity on either side is infinite. -/
theorem Extended.isInfinite_extend {inf bound : Extended K} (h : inf ≤ bound ∨ bound ≤ -inf) :
    Scalar.isInfinite (Expression.extend inf bound) = true := by
  unfold Expression.extend
  split
  · rfl
  · next hi =>
      rw [if_pos (h.resolve_left hi)]
      rfl

/-- What is not positive lies below its opposite. -/
theorem Extended.le_neg_of_not_pos {a : Extended K} (hd : a.IsDefined) (h : ¬ 0 < a) :
    a ≤ 0 ∧ 0 ≤ -a := by
  have hle : a ≤ 0 := le_of_not_lt hd isFinite_zero.isDefined h
  exact ⟨hle, (zero_le_neg_iff a).2 hle⟩

/-- **An infinity that is not positive leaves every variable unbounded** whose bounds leave room. -/
theorem Environment.Consistent.isInfinite_bounds {env : Environment (Extended K)} {v : Variable}
    (h : env.Consistent v) (hinf : ¬ 0 < env.infinity v.store) :
    Scalar.isInfinite (env.trueLower v) = true ∧ Scalar.isInfinite (env.trueUpper v) = true := by
  have hd : (env.infinity v.store).IsDefined := (IsDefined.of_le (Extended.le_of_lt h.lower_lt)).2
  obtain ⟨hle, hge⟩ := le_neg_of_not_pos hd hinf
  constructor
  · exact isInfinite_extend (Or.inr
      (Extended.le_trans (Extended.le_of_lt h.lower_lt) (Extended.le_trans hle hge)))
  · exact isInfinite_extend (Or.inl
      (Extended.le_trans (Extended.le_trans hle hge) (Extended.le_of_lt h.lt_upper)))

namespace Expression

variable {env : Environment (Extended K)} {n : Nat} {e : Expression (Extended K)}

/-- Then a linear expression that is not constant has no least value, -/
theorem lower_of_infinity_not_pos (hlinear : e.isLinear = true) (hconstant : e.isConstant = false)
    (hstore : ∀ v ∈ e.vars, v.store = n) (hroom : ∀ v ∈ e.vars, env.Consistent v)
    (hinf : ¬ 0 < env.infinity n) : e.lower env = -env.infinity n := by
  have hquadratic := entries_of_isLinear hlinear
  have hnone : e.lower? env (env.infinity n) = none := by
    cases hentries : e.linear.entries with
    | nil => simp [isConstant, Coefficients.isEmpty, hentries, hquadratic] at hconstant
    | cons term rest =>
        -- the first term already has no bound on the side that its sign asks for
        have hv : term.1 ∈ e.vars := mem_vars_of_mem_linear (by simp [Coefficients.keys, hentries])
        have hs := hstore _ hv
        obtain ⟨hl, hu⟩ := (hroom _ hv).isInfinite_bounds (hs.symm ▸ hinf)
        rw [Environment.trueLower, hs] at hl
        rw [Environment.trueUpper, hs] at hu
        have hterm : addLinearLower env (env.infinity n) e.constant term = none := by
          unfold addLinearLower
          by_cases hpos : 0 < term.2 <;> simp [hpos, hl, hu]
        unfold lower?
        rw [hentries, List.foldlM_cons, hterm]
        rfl
  simp [lower, hconstant, infinity_eq hstore hconstant, hnone]

/-- and no greatest value either. -/
theorem upper_of_infinity_not_pos (hlinear : e.isLinear = true) (hconstant : e.isConstant = false)
    (hstore : ∀ v ∈ e.vars, v.store = n) (hroom : ∀ v ∈ e.vars, env.Consistent v)
    (hinf : ¬ 0 < env.infinity n) : e.upper env = env.infinity n := by
  have hneg : e.neg.isConstant = false := by rwa [neg_eq_map, isConstant_map]
  rw [← vars_neg] at hstore hroom
  rw [upper, lower_of_infinity_not_pos (isLinear_neg e hlinear) hneg hstore hroom hinf,
    Extended.neg_neg]

end Expression

/-! ### What is not decided -/

namespace Constraint

variable {env : Environment (Extended K)} {n : Nat} {c : Constraint (Extended K)}

omit [IsStrictOrderedRing K] in
/-- The bounds decide every equation about a constant. -/
theorem not_isConstant_of_undecided (hc : c.expression.IsFinite) (hrelation : c.relation = .equal)
    (hs : c.mustBeSatisfied env = false) (hv : c.mustBeViolated env = false) :
    c.expression.isConstant = false := by
  rw [Bool.eq_false_iff]
  intro hconstant
  have hl : c.expression.lower env = c.expression.constant := by
    rw [Expression.lower, if_pos hconstant]
  have hu : c.expression.upper env = c.expression.constant :=
    Expression.upper_of_isConstant hc.constant hconstant
  rw [mustBeSatisfied, hl, hu, hc.constant.eq_finite, hrelation] at hs
  rw [mustBeViolated, hl, hu, hc.constant.eq_finite, hrelation] at hv
  simp only [zero_eq, finite_lt_finite, finite_le_finite, beq_self_eq_true, Bool.true_and,
    Bool.or_eq_false_iff, decide_eq_false_iff_not, not_lt] at hs hv
  have hzero : c.expression.constant.toNumber = 0 := le_antisymm hv.1 hv.2
  rw [hzero] at hs
  simp at hs

/-- The bounds decide every linear equation over a store whose infinity is not positive. -/
theorem infinity_pos_of_undecided (hc : c.expression.IsFinite)
    (hstore : ∀ v ∈ c.expression.vars, v.store = n)
    (hroom : ∀ v ∈ c.expression.vars, env.Consistent v) (hr : c.isReifiable env = true)
    (hs : c.mustBeSatisfied env = false) (hv : c.mustBeViolated env = false) :
    0 < env.infinity n := by
  simp only [isReifiable, Bool.and_eq_true, beq_iff_eq] at hr
  obtain ⟨⟨⟨hrelation, hlinear⟩, -⟩, -⟩ := hr
  have hconstant := not_isConstant_of_undecided hc hrelation hs hv
  by_contra hinf
  have hl := Expression.lower_of_infinity_not_pos hlinear hconstant hstore hroom hinf
  have hu := Expression.upper_of_infinity_not_pos hlinear hconstant hstore hroom hinf
  obtain ⟨v, hmem⟩ := Expression.exists_mem_vars hconstant
  have hd : (env.infinity n).IsDefined := by
    rw [← hstore v hmem]
    exact (IsDefined.of_le (Extended.le_of_lt (hroom v hmem).lower_lt)).2
  -- the least value is not below zero then, nor the greatest one above it
  have hge : 0 ≤ -env.infinity n := (le_neg_of_not_pos hd hinf).2
  rw [mustBeSatisfied, hl, hu, if_neg hinf, hrelation] at hs
  simp [hge] at hs

/-- **An equation that is not decided is captured.**  If it can be captured, over a store whose
variables have room between their bounds, the expression for it is there; it is linear, and wherever
the bounds and the kinds of the variables allow, it is zero if the equation holds, and at least one if
not. -/
theorem captured_of_undecided (hc : c.IsFinite) (hstore : ∀ v ∈ c.expression.vars, v.store = n)
    (hroom : ∀ v ∈ c.expression.vars, env.Consistent v) (hr : c.isReifiable env = true)
    (hs : c.mustBeSatisfied env = false) (hv : c.mustBeViolated env = false) :
    ∃ r, c.reified env = .ok r ∧ r.isLinear = true ∧
      ∀ s : Assignment K, (∀ v ∈ c.expression.vars, env.Allows s v) →
        (c.Holds s ↔ r.value s = 0) ∧ (¬ c.Holds s → 1 ≤ r.value s) := by
  have hinf := infinity_pos_of_undecided hc hstore hroom hr hs hv
  have hcompares : ∀ v ∈ c.expression.vars, env.Compares v := fun v hmem =>
    Environment.compares_of_le (hroom v hmem).ordered
  obtain ⟨r, h⟩ := Implication.exists_reified hc hinf hstore hcompares hr hs hv
  refine ⟨r, h, isLinear_of_reified h, ?_⟩
  intro s hallows
  obtain ⟨-, htells⟩ := tells_reified hc hinf hstore hallows h
  rcases htells with ⟨hholds, hzero⟩ | ⟨hfails, hone⟩
  · exact ⟨iff_of_true hholds hzero, fun h => absurd hholds h⟩
  · have hne : r.value s ≠ 0 := (zero_lt_one.trans_le hone).ne'
    exact ⟨iff_of_false hfails hne, fun _ => hone⟩

/-- With a binary variable `x` and a whole variable `y` from zero on without end, `2 x + y = 0` is
captured: the expression is three where both are one. -/
theorem captured_of_undecided_half_line :
    let x : Variable := ⟨0, 0⟩
    let y : Variable := ⟨0, 1⟩
    let env : Environment (Extended ℚ) :=
      { attributes := fun v =>
          if v.slot = 0 then ⟨.binary, .finite 0, .finite 1, none⟩
          else ⟨.integer, .finite 0, .finite 1000, none⟩
        infinity := fun _ => .finite 1000 }
    let c : Constraint (Extended ℚ) :=
      ⟨.equal, (Expression.affine (.finite 0) (.finite 2) x).add (Expression.ofVariable y), none⟩
    let s : Assignment ℚ := fun _ => 1
    ¬ c.Holds s ∧ ∃ r, c.reified env = .ok r ∧ r.isLinear = true ∧ 1 ≤ r.value s := by
  intro x y env c s
  have hkeys : c.expression.linear.keys = [x, y] ∧ c.expression.quadratic.keys = [] := by
    decide +kernel
  have hvars : ∀ v ∈ c.expression.vars, v = x ∨ v = y := by
    intro v hv
    rw [Expression.mem_vars_iff, hkeys.1, hkeys.2] at hv
    simpa using hv
  have hc : c.IsFinite :=
    (Expression.isFinite_affine _ _ x).add (Expression.isFinite_ofVariable y)
  have hstore : ∀ v ∈ c.expression.vars, v.store = 0 := by
    intro v hv
    rcases hvars v hv with rfl | rfl <;> rfl
  have hroom : ∀ v ∈ c.expression.vars, env.Consistent v := by
    intro v hv
    rcases hvars v hv with rfl | rfl <;>
      exact ⟨by decide +kernel, by decide +kernel, by decide +kernel⟩
  have hallows : ∀ v ∈ c.expression.vars, env.Allows s v := by
    intro v hv
    rcases hvars v hv with rfl | rfl <;> decide +kernel
  have hfails : ¬ c.Holds s := by decide +kernel
  obtain ⟨r, h, hlinear, htells⟩ := captured_of_undecided hc hstore hroom (by decide +kernel)
    (by decide +kernel) (by decide +kernel)
  exact ⟨hfails, r, h, hlinear, (htells s hallows).2 hfails⟩

end Constraint

end MixedInteger
