/-
**Objects that refer to each other.**

An expression is an object that has a map of terms, and that map is all that ever changes.  A constraint
is an object too: it refers to an expression object of its own, which nothing else should reach.  Objects
are never taken away, and each is told by its place among those of its sort.

Main definitions:

* `MixedInteger.Script.Heap` — maps of terms, expression objects and constraint objects;
* `MixedInteger.Script.Heap.terms?`, `MixedInteger.Script.Heap.constraint?`,
  `MixedInteger.Script.Heap.implication?` — what is read when references are followed;
* `MixedInteger.Script.Heap.newExpression`, `MixedInteger.Script.Heap.newConstraint`,
  `MixedInteger.Script.Heap.write` — new objects, and other terms for an expression.
-/

import MixedInteger.Constraint.Basic
import MixedInteger.Script.Value

set_option autoImplicit false

namespace MixedInteger.Script

/-- A constraint as an object: its expression is given by the place of an object. -/
structure ConstraintObject where
  relation : Relation
  expression : Nat
  name : Option String

/-- Objects by their places. -/
structure Heap where
  /-- Maps of terms. -/
  maps : Array (Expression Number)
  /-- The expression objects: each is the place of its map. -/
  expressions : Array Nat
  constraints : Array ConstraintObject

namespace Heap

/-- No objects. -/
def empty : Heap := ⟨#[], #[], #[]⟩

/-! ### Following references -/

/-- The terms of an expression object. -/
def terms? (h : Heap) (n : Nat) : Option (Expression Number) := do h.maps[← h.expressions[n]?]?

/-- A constraint object with the terms of its expression. -/
def constraint? (h : Heap) (n : Nat) : Option (Constraint Number) := do
  let o ← h.constraints[n]?
  return ⟨o.relation, ← h.terms? o.expression, o.name⟩

/-- An implication between two constraint objects. -/
def implication? (h : Heap) (v : Value) : Option (Implication Number) :=
  match v with
  | .implication _ (.constraint p) (.constraint c) name => do
    return ⟨← h.constraint? p, ← h.constraint? c, name⟩
  | _ => none

/-! ### Changes -/

/-- A new expression object with a map of its own. -/
def newExpression (h : Heap) (e : Expression Number) : Heap :=
  { h with maps := h.maps.push e, expressions := h.expressions.push h.maps.size }

/-- A new constraint object. -/
def newConstraint (h : Heap) (o : ConstraintObject) : Heap :=
  { h with constraints := h.constraints.push o }

/-- Other terms for an expression object. -/
def write (h : Heap) (n : Nat) (e : Expression Number) : Heap :=
  match h.expressions[n]? with
  | some m => { h with maps := h.maps.setIfInBounds m e }
  | none => h

end Heap

end MixedInteger.Script
