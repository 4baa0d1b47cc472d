/-
**Products and quotients of expressions.**

A product stays an expression unless its degree would exceed two.  The check looks at which kinds of
terms occur, so it is exact as long as no stored coefficient is zero.

Main definitions:

* `MixedInteger.Expression.product` — the product of two expressions whose degrees allow it;
* `MixedInteger.Expression.mul` — the product, or why there is none;
* `MixedInteger.Expression.divConstant`, `MixedInteger.Expression.div` — quotients by a number and by
  a constant expression.

Main results:

* `MixedInteger.Expression.eq_product_of_mul` — a product that does not fail.
-/

import MixedInteger.Fault

set_option autoImplicit false

namespace MixedInteger.Expression

variable {α : Type} [Scalar α]

/-- The products of the linear terms of two expressions, those of the first one in the outer
place. -/
def crossTerms (e f : Expression α) : List (VariablePair × α) :=
  e.linear.entries.flatMap fun x =>
    f.linear.entries.map fun y => (VariablePair.of x.1 y.1, x.2 * y.2)

/-- The product of two expressions whose degrees add up to at most two: the first one scaled by the
constant of the second, then the second one's terms times the constant of the first, then the
products of linear terms. -/
def product (e f : Expression α) : Expression α :=
  let scaled := e.scale f.constant
  { constant := scaled.constant
    linear := scaled.linear.accumulateAll
      (f.linear.entries.map fun x => (x.1, e.constant * x.2))
    quadratic := (scaled.quadratic.accumulateAll
      (f.quadratic.entries.map fun x => (x.1, e.constant * x.2))).accumulateAll
        (crossTerms e f) }

/-- The product, unless its degree exceeds two. -/
def mul (e f : Expression α) : Except (Fault α) (Expression α) :=
  if e.isQuadratic && f.isQuadratic then throw (.quarticProduct e f)
  else if (e.isQuadratic && !f.linear.isEmpty) || (!e.linear.isEmpty && f.isQuadratic) then
    throw (.cubicProduct e f)
  else return product e f

theorem eq_product_of_mul {e f g : Expression α} (h : mul e f = .ok g) : g = product e f := by
  unfold mul at h
  split at h
  · cases h
  · split at h
    · cases h
    · cases h
      rfl

/-- The quotient of two numbers; there is none by zero. -/
def quotient (a b : α) : Except (Fault α) α :=
  if b == 0 then throw (.number .divisionByZero) else return a / b

/-- The quotient by a number, which is the multiple by its inverse. -/
def divConstant (e : Expression α) (c : α) : Except (Fault α) (Expression α) :=
  return e.scale (← quotient 1 c)

/-- The quotient by an expression, which has to be constant. -/
def div (e f : Expression α) : Except (Fault α) (Expression α) :=
  if f.isConstant then e.divConstant f.constant else throw (.variableDivisor e f)

end MixedInteger.Expression
