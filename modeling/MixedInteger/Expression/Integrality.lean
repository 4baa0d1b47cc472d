/-
**Expressions with special values.**

Whether an expression is a truth value — a binary variable, a product of two, or one minus either —
and whether it takes whole values only.  Both are read off the terms and the kinds of the variables.

Main definitions:

* `MixedInteger.Expression.isBinary` — only zero and one are taken;
* `MixedInteger.Expression.isIntegral` — only whole numbers are taken.
-/

import MixedInteger.Expression.Basic

set_option autoImplicit false

namespace MixedInteger.Expression

variable {α : Type} [Scalar α]

/-- With one binary term: the term itself, or one minus it. -/
def isTruthForm (constant coefficient : α) : Bool :=
  (constant == 1 && coefficient == -1) || (constant == 0 && coefficient == 1)

/-- The expression is zero, one, a binary variable, a product of binary variables, or one minus one
of the latter two. -/
def isBinary (env : Environment α) (e : Expression α) : Bool :=
  match e.linear.entries, e.quadratic.entries with
  | [], [] => e.constant == 0 || e.constant == 1
  | [(v, c)], [] => env.kind v == .binary && isTruthForm e.constant c
  | [], [(p, c)] =>
    env.kind p.first == .binary && env.kind p.second == .binary && isTruthForm e.constant c
  | _, _ => false

/-- Every coefficient and the constant are whole, and no continuous variable occurs. -/
def isIntegral (env : Environment α) (e : Expression α) : Bool :=
  Scalar.isIntegral e.constant &&
    (e.linear.entries.all fun t => env.kind t.1 != .continuous && Scalar.isIntegral t.2) &&
    e.quadratic.entries.all fun t =>
      Scalar.isIntegral t.2 && env.kind t.1.first != .continuous &&
        env.kind t.1.second != .continuous

end MixedInteger.Expression
