/-
**Bounds of an expression.**

The bounds of the variables bound every term of an expression, and the terms add up.  As soon as one
term is unbounded in the direction asked for, so is the whole, which is then told by the infinity of
the store.  Terms are treated one by one: a variable that occurs in several terms counts in each of
them independently.

Main definitions:

* `MixedInteger.Expression.extend` — a bound at or beyond the infinity of the store is infinite;
* `MixedInteger.Expression.pairRange` — the range of a product of two variables;
* `MixedInteger.Expression.lower`, `MixedInteger.Expression.upper` — the bounds of an expression.
-/

import MixedInteger.Expression.Basic

set_option autoImplicit false

namespace MixedInteger.Expression

variable {α : Type} [Scalar α]

/-- A bound at or beyond the infinity of the store, in either direction, is infinite. -/
def extend (inf bound : α) : α :=
  if inf ≤ bound then Scalar.infinity
  else if bound ≤ -inf then -Scalar.infinity
  else bound

/-- The product of two bounds; zero times anything is zero, since a variable fixed at zero makes
the whole product zero. -/
def times (a b : α) : α := if a == 0 || b == 0 then 0 else a * b

/-- The range of a product of two variables: the extremes of the products of their bounds.  The
square of a variable that may have either sign starts at zero. -/
def pairRange (env : Environment α) (inf : α) (p : VariablePair) : α × α :=
  let xl := extend inf (env.lower p.first)
  let xu := extend inf (env.upper p.first)
  let yl := if p.isSquare then xl else extend inf (env.lower p.second)
  let yu := if p.isSquare then xu else extend inf (env.upper p.second)
  let corner := times xl yl
  let others := [times xl yu, times xu yl, times xu yu]
  let straddles := p.isSquare && decide (xl < 0) && decide (0 < xu)
  (if straddles then 0 else Scalar.least corner others, Scalar.greatest corner others)

/-- Adds the least value of a linear term to a total; nothing if the term is unbounded below. -/
def addLinearLower (env : Environment α) (inf : α) (total : α) (term : Variable × α) : Option α :=
  let bound := extend inf (if 0 < term.2 then env.lower term.1 else env.upper term.1)
  if Scalar.isInfinite bound then none else some (total + term.2 * bound)

/-- Adds the least value of a product term to a total; nothing if the term is unbounded below. -/
def addPairLower (env : Environment α) (inf : α) (total : α) (term : VariablePair × α) :
    Option α :=
  let range := pairRange env inf term.1
  let bound := if 0 < term.2 then range.1 else range.2
  if Scalar.isInfinite bound then none else some (total + term.2 * bound)

/-- The sum of the least values of all terms; nothing if one of them is unbounded below. -/
def lower? (env : Environment α) (inf : α) (e : Expression α) : Option α := do
  let total ← e.linear.entries.foldlM (addLinearLower env inf) e.constant
  e.quadratic.entries.foldlM (addPairLower env inf) total

/-- The lower bound of an expression; minus the infinity of the store if there is none. -/
def lower (env : Environment α) (e : Expression α) : α :=
  if e.isConstant then e.constant
  else
    let inf := e.infinity env
    (e.lower? env inf).getD (-inf)

/-- The upper bound of an expression: the opposite of the lower bound of its opposite. -/
def upper (env : Environment α) (e : Expression α) : α := -(e.neg.lower env)

@[simp] theorem lower_const (env : Environment α) (a : α) : (const a).lower env = a := rfl

end MixedInteger.Expression
