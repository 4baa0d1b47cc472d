/-
**Constraints and implications between them.**

A constraint compares an expression with zero, everything having been moved to its left side.  An
implication asks of an assignment that satisfies its premise to satisfy its conclusion too.

These are the bare data; which constraints may be made, and what can be done with them, is in the
modules beside this one.

Main definitions:

* `MixedInteger.Relation`, `MixedInteger.Constraint` — `e ≤ 0` and `e = 0`;
* `MixedInteger.Implication` — a premise and a conclusion.
-/

import MixedInteger.Expression.Basic

set_option autoImplicit false

namespace MixedInteger

/-- How the expression of a constraint compares with zero. -/
inductive Relation where
  | atMost
  | equal
  deriving Repr, DecidableEq

/-- The sign of a relation. -/
def Relation.sign : Relation → String
  | atMost => "<="
  | equal => "="

/-- The relations in the order of their declaration. -/
def Relation.all : List Relation := [atMost, equal]

/-- The relation that a sign stands for. -/
def Relation.ofSign? (s : String) : Option Relation := all.find? (·.sign == s)

theorem Relation.ofSign?_sign (r : Relation) : ofSign? r.sign = some r := by cases r <;> rfl

/-- An expression compared with zero. -/
structure Constraint (α : Type) where
  relation : Relation
  expression : Expression α
  name : Option String

/-- Whether the expression of a constraint has no products. -/
def Constraint.isLinear {α : Type} (c : Constraint α) : Bool := c.expression.isLinear

/-- One function on every number of a constraint. -/
def Constraint.map {α β : Type} (f : α → β) (c : Constraint α) : Constraint β :=
  ⟨c.relation, c.expression.map f, c.name⟩

/-- Whenever the premise holds, so must the conclusion. -/
structure Implication (α : Type) where
  premise : Constraint α
  conclusion : Constraint α
  name : Option String

/-- Whether a variable occurs in an implication. -/
def Implication.Mentions {α : Type} (i : Implication α) (v : Variable) : Prop :=
  v ∈ i.premise.expression.vars ∨ v ∈ i.conclusion.expression.vars

/-- One function on every number of an implication. -/
def Implication.map {α β : Type} (f : α → β) (i : Implication α) : Implication β :=
  ⟨i.premise.map f, i.conclusion.map f, i.name⟩

end MixedInteger
