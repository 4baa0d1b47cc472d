/-
**Making constraints, and what the bounds decide about them.**

A constraint is refused when the bounds of its expression show that nothing can satisfy it.  Bounds
change afterwards, so whether a constraint is satisfied everywhere or nowhere is asked again of the
environment of the moment.

Main definitions:

* `MixedInteger.Constraint.make` — a constraint, unless it cannot be satisfied;
* `MixedInteger.Constraint.compare` — a comparison of two expressions;
* `MixedInteger.Constraint.negation` — the constraint that a truth value is false;
* `MixedInteger.Constraint.mustBeSatisfied`, `MixedInteger.Constraint.mustBeViolated` — what the
  bounds decide.

Main results:

* `MixedInteger.Constraint.make_eq_ok_iff` — a constraint can be made exactly when the bounds do not
  violate it.
-/

import MixedInteger.Expression.Integrality
import MixedInteger.Expression.Interval
import MixedInteger.Fault

set_option autoImplicit false

namespace MixedInteger.Constraint

variable {α : Type} [Scalar α]

/-- The bounds leave no way to satisfy the constraint. -/
def mustBeViolated (env : Environment α) (c : Constraint α) : Bool :=
  decide (0 < c.expression.lower env) ||
    (c.relation == .equal && decide (c.expression.upper env < 0))

/-- The bounds leave no way to violate the constraint. -/
def mustBeSatisfied (env : Environment α) (c : Constraint α) : Bool :=
  if 0 < c.expression.upper env then false
  else c.relation == .atMost || decide (0 ≤ c.expression.lower env)

theorem mustBeViolated_eq_true_iff (env : Environment α) (c : Constraint α) :
    c.mustBeViolated env = true ↔
      0 < c.expression.lower env ∨ c.relation = .equal ∧ c.expression.upper env < 0 := by
  simp only [mustBeViolated, Bool.or_eq_true, Bool.and_eq_true, decide_eq_true_eq, beq_iff_eq]

theorem mustBeSatisfied_eq_true_iff (env : Environment α) (c : Constraint α) :
    c.mustBeSatisfied env = true ↔
      ¬ 0 < c.expression.upper env ∧ (c.relation = .atMost ∨ 0 ≤ c.expression.lower env) := by
  unfold mustBeSatisfied
  by_cases h : 0 < c.expression.upper env <;> simp [h]

/-- A constraint, unless the bounds leave no way to satisfy it. -/
def make (env : Environment α) (relation : Relation) (e : Expression α) (name : Option String) :
    Except (Fault α) (Constraint α) :=
  let c : Constraint α := ⟨relation, e, name⟩
  if c.mustBeViolated env then throw (.unsatisfiable c (e.lower env) (e.upper env)) else return c

theorem make_eq_ok_iff (env : Environment α) (relation : Relation) (e : Expression α)
    (name : Option String) (c : Constraint α) :
    make env relation e name = .ok c ↔
      c = ⟨relation, e, name⟩ ∧ c.mustBeViolated env = false := by
  unfold make
  by_cases h : (⟨relation, e, name⟩ : Constraint α).mustBeViolated env = true
  · simp only [h, ↓reduceIte]
    constructor
    · intro h'; cases h'
    · rintro ⟨rfl, h'⟩; simp [h] at h'
  · simp only [h]
    constructor
    · intro h'; cases h'; exact ⟨rfl, by simpa using h⟩
    · rintro ⟨rfl, _⟩; rfl

/-- The same constraint under another name.  The bounds are asked again. -/
def rename (env : Environment α) (c : Constraint α) (name : Option String) :
    Except (Fault α) (Constraint α) :=
  make env c.relation c.expression name

/-- The comparison of two expressions, one of which has to mention a variable. -/
def compare (env : Environment α) (relation : Relation) (left right : Expression α) :
    Except (Fault α) (Constraint α) :=
  if left.isConstant && right.isConstant then throw (.constantComparison left right)
  else make env relation (left.sub right) none

/-- What a comparison comes to, if it is not refused. -/
theorem eq_of_compare {env : Environment α} {relation : Relation} {left right : Expression α}
    {c : Constraint α} (h : compare env relation left right = .ok c) :
    c = ⟨relation, left.sub right, none⟩ := by
  unfold compare at h
  split at h
  · cases h
  · exact ((make_eq_ok_iff env relation _ none c).1 h).1

/-- The constraint that an expression which is a truth value is zero. -/
def negation (env : Environment α) (e : Expression α) : Except (Fault α) (Constraint α) :=
  if e.isBinary env then compare env .equal e (.const 0) else throw (.notBinary e)

end MixedInteger.Constraint
