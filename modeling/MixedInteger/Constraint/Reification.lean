/-
**Constraints captured by an expression.**

A linear equation between whole numbers whose expression never changes sign is captured by that
expression, or by its opposite: it is zero where the equation holds and at least one elsewhere.

Main definitions:

* `MixedInteger.Constraint.isReifiable` — the equation can be captured;
* `MixedInteger.Constraint.reified` — the expression that captures it.

Main results:

* `MixedInteger.Constraint.eq_of_reified` — which expression that is.
-/

import MixedInteger.Constraint.Triviality

set_option autoImplicit false

namespace MixedInteger.Constraint

variable {α : Type} [Scalar α]

/-- A linear equation between whole numbers whose expression never changes sign. -/
def isReifiable (env : Environment α) (c : Constraint α) : Bool :=
  c.relation == .equal && c.isLinear && c.expression.isIntegral env &&
    (decide (0 ≤ c.expression.lower env) || decide (c.expression.upper env ≤ 0))

/-- The expression that is zero where the constraint holds and positive elsewhere.  A constraint
that the bounds decide has none. -/
def reified (env : Environment α) (c : Constraint α) : Except (Fault α) (Expression α) :=
  if !c.isReifiable env then throw (.notReifiable c)
  else if c.mustBeSatisfied env then throw (.alwaysSatisfied c)
  else if c.mustBeViolated env then throw (.alwaysViolated c)
  else if 0 < c.expression.upper env then return c.expression
  else if c.expression.upper env == 0 then return c.expression.neg
  else throw (.signless c)

/-- What is captured, and how, if something is. -/
theorem eq_of_reified {env : Environment α} {c : Constraint α} {r : Expression α}
    (h : c.reified env = .ok r) :
    c.isReifiable env = true ∧ c.mustBeSatisfied env = false ∧ c.mustBeViolated env = false ∧
      (0 < c.expression.upper env ∧ r = c.expression ∨
        (c.expression.upper env == 0) = true ∧ r = c.expression.neg) := by
  unfold reified at h
  split at h
  · cases h
  · next hr =>
      split at h
      · cases h
      · next hs =>
          split at h
          · cases h
          · next hv =>
              refine ⟨by simpa using hr, by simpa using hs, by simpa using hv, ?_⟩
              split at h
              · next hpos =>
                  cases h
                  exact Or.inl ⟨hpos, rfl⟩
              · split at h
                · next hz =>
                    cases h
                    exact Or.inr ⟨hz, rfl⟩
                · cases h

/-- What captures a constraint is linear. -/
theorem isLinear_of_reified {env : Environment α} {c : Constraint α} {r : Expression α}
    (h : c.reified env = .ok r) : r.isLinear = true := by
  obtain ⟨hr, -, -, hcase⟩ := eq_of_reified h
  simp only [isReifiable, Bool.and_eq_true] at hr
  obtain ⟨⟨⟨-, hlinear⟩, -⟩, -⟩ := hr
  rcases hcase with ⟨-, rfl⟩ | ⟨-, rfl⟩
  · exact hlinear
  · exact Expression.isLinear_neg _ hlinear

end MixedInteger.Constraint
