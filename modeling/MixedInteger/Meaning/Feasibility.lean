/-
**Assignments that satisfy.**

A constraint holds at an assignment if the value of its expression compares with zero as it says.  An
environment allows the values that lie within the bounds of a variable, of which those at or beyond
the infinity of the store restrict nothing, and that are whole where its kind asks for it.

Main definitions:

* `MixedInteger.Constraint.Holds`, `MixedInteger.Implication.Holds` — satisfaction;
* `MixedInteger.Environment.Consistent` — no variable is left without room;
* `MixedInteger.Environment.Within`, `MixedInteger.Environment.Allows` — a variable within its bounds,
  and one that is whole besides if it has to be.

Main results:

* `MixedInteger.Constraint.holds_of_compare` — **a comparison holds exactly when the values of its
  sides compare**.
-/

import MixedInteger.Constraint.Triviality
import MixedInteger.Meaning.Product

set_option autoImplicit false

namespace MixedInteger

variable {K : Type} [Field K] [LinearOrder K]

/-! ### Satisfaction -/

/-- The value of the expression compares with zero as the constraint says. -/
def Constraint.Holds (s : Assignment K) (c : Constraint (Extended K)) : Prop :=
  match c.relation with
  | .atMost => c.expression.value s ≤ 0
  | .equal => c.expression.value s = 0

/-- Every coefficient of a constraint is a number. -/
def Constraint.IsFinite (c : Constraint (Extended K)) : Prop := c.expression.IsFinite

/-- Every coefficient of an implication is a number. -/
structure Implication.IsFinite (i : Implication (Extended K)) : Prop where
  premise : i.premise.IsFinite
  conclusion : i.conclusion.IsFinite

/-- If the premise holds, so does the conclusion. -/
def Implication.Holds (s : Assignment K) (i : Implication (Extended K)) : Prop :=
  i.premise.Holds s → i.conclusion.Holds s

/-- Whether two numbers compare as a relation says. -/
def Relation.Compares (r : Relation) (x y : K) : Prop :=
  match r with
  | .atMost => x ≤ y
  | .equal => x = y

instance (s : Assignment K) (c : Constraint (Extended K)) : Decidable (c.Holds s) :=
  match h : c.relation with
  | .atMost => decidable_of_iff (c.expression.value s ≤ 0) (by rw [Constraint.Holds, h])
  | .equal => decidable_of_iff (c.expression.value s = 0) (by rw [Constraint.Holds, h])

instance (s : Assignment K) (i : Implication (Extended K)) : Decidable (i.Holds s) :=
  inferInstanceAs (Decidable (i.premise.Holds s → i.conclusion.Holds s))

/-! ### Bounds -/

namespace Environment

variable [FloorRing K]

/-- The lower bound of a variable, measured against the infinity of its store. -/
def trueLower (env : Environment (Extended K)) (v : Variable) : Extended K :=
  Expression.extend (env.infinity v.store) (env.lower v)

/-- The upper bound of a variable, measured against the infinity of its store. -/
def trueUpper (env : Environment (Extended K)) (v : Variable) : Extended K :=
  Expression.extend (env.infinity v.store) (env.upper v)

/-- The bounds of a variable leave room: they are in order, and neither excludes every number. -/
structure Consistent (env : Environment (Extended K)) (v : Variable) : Prop where
  ordered : env.lower v ≤ env.upper v
  lower_lt : env.lower v < env.infinity v.store
  lt_upper : -env.infinity v.store < env.upper v

/-- A variable lies within its bounds. -/
structure Within (env : Environment (Extended K)) (s : Assignment K) (v : Variable) : Prop where
  lower : env.trueLower v ≤ .finite (s v)
  upper : .finite (s v) ≤ env.trueUpper v

/-- A variable lies within its bounds and takes a whole value if its kind asks for one. -/
structure Allows (env : Environment (Extended K)) (s : Assignment K) (v : Variable) : Prop
    extends env.Within s v where
  whole : env.kind v ≠ .continuous → Int.fract (s v) = 0

instance (env : Environment (Extended K)) (v : Variable) : Decidable (env.Consistent v) :=
  decidable_of_iff (env.lower v ≤ env.upper v ∧ env.lower v < env.infinity v.store ∧
      -env.infinity v.store < env.upper v)
    ⟨fun h => ⟨h.1, h.2.1, h.2.2⟩, fun h => ⟨h.1, h.2, h.3⟩⟩

instance (env : Environment (Extended K)) (s : Assignment K) (v : Variable) :
    Decidable (env.Within s v) :=
  decidable_of_iff (env.trueLower v ≤ .finite (s v) ∧ .finite (s v) ≤ env.trueUpper v)
    ⟨fun h => ⟨h.1, h.2⟩, fun h => ⟨h.1, h.2⟩⟩

instance (env : Environment (Extended K)) (s : Assignment K) (v : Variable) :
    Decidable (env.Allows s v) :=
  decidable_of_iff (env.Within s v ∧ (env.kind v ≠ .continuous → Int.fract (s v) = 0))
    ⟨fun h => ⟨h.1, h.2⟩, fun h => ⟨h.1, h.2⟩⟩

end Environment

/-! ### Comparisons -/

variable [IsStrictOrderedRing K] [FloorRing K]

/-- A comparison of two expressions holds exactly when their values compare. -/
theorem Constraint.holds_of_compare {env : Environment (Extended K)} {r : Relation}
    {e f : Expression (Extended K)} {c : Constraint (Extended K)} (he : e.IsFinite)
    (hf : f.IsFinite) (h : Constraint.compare env r e f = .ok c) (s : Assignment K) :
    c.Holds s ↔ r.Compares (e.value s) (f.value s) := by
  obtain rfl := Constraint.eq_of_compare h
  cases r
  · simp only [Holds, Relation.Compares, Expression.value_sub he hf]
    exact sub_nonpos
  · simp only [Holds, Relation.Compares, Expression.value_sub he hf]
    exact sub_eq_zero

end MixedInteger
