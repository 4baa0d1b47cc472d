/-
**Questions about expressions that need doubles.**

A question goes through the terms of an expression in their order and stops as soon as the answer is
settled.  It has no answer if it comes upon a coefficient whose double is needed and missing.  An
expression with all doubles has all answers.

Main definitions:

* `MixedInteger.Expression.hasLower`, `MixedInteger.Expression.hasUpper` — the bounds;
* `MixedInteger.Expression.hasIntegrality` — whether only whole numbers are taken;
* `MixedInteger.Expression.hasAmplitudes` — the range of amplitudes.
-/

import MixedInteger.Expression.Amplitude
import MixedInteger.Expression.Integrality
import MixedInteger.Expression.Partway

set_option autoImplicit false

namespace MixedInteger.Expression

/-- What a question meets at a term: whether it needs the double of a coefficient that has none, and
whether the answer is settled there. -/
structure Visit where
  isBlocked : Bool
  isSettled : Bool

/-- Whether nothing blocks a question before its answer is settled. -/
def passes : List Visit → Bool
  | [] => true
  | v :: rest => !v.isBlocked && (v.isSettled || passes rest)

/-- A visit where a settled answer needs no double. -/
def visitUnless (isSettled : Bool) (c : Number) : Visit := ⟨!isSettled && !c.hasDouble, isSettled⟩

variable (env : Environment Number) (e : Expression Number)

/-- Whether there is a lower bound.  An unbounded term settles it. -/
def hasLower : Bool :=
  let inf := e.infinity env
  passes <|
    (e.linear.entries.map fun t =>
      visitUnless (addLinearLower env inf 0 t).isNone t.2) ++
    e.quadratic.entries.map fun t => visitUnless (addPairLower env inf 0 t).isNone t.2

/-- Whether there is an upper bound, which takes the opposite expression. -/
def hasUpper : Bool := e.hasDoubles

/-- Whether it can be said that only whole numbers are taken.  A continuous variable settles it, and
so does a fraction; in a product the coefficient is looked at first. -/
def hasIntegrality : Bool :=
  !Scalar.isIntegral e.constant ||
    passes
      ((e.linear.entries.map fun t =>
        visitUnless (env.kind t.1 == .continuous || !Scalar.isIntegral t.2) t.2) ++
      e.quadratic.entries.map fun t =>
        ⟨!t.2.hasDouble, !Scalar.isIntegral t.2 || env.kind t.1.first == .continuous ||
          env.kind t.1.second == .continuous⟩)

/-- Whether there is a range of amplitudes.  A bounded term needs the double of its coefficient, and so
do the ends of the range. -/
def hasAmplitudes (ignoreInfinite : Bool) : Bool :=
  let inf := e.infinity env
  let isFree := fun (c reach : Number) => Scalar.isInfinite reach || c.hasDouble
  let areFree :=
    (e.linear.entries.all fun t => isFree t.2 (variableReach env inf t.1)) &&
      e.quadratic.entries.all fun t => isFree t.2 (pairReach env inf t.1)
  let range := e.amplitudeRange env ignoreInfinite
  areFree && range.1.hasDouble && range.2.hasDouble

end MixedInteger.Expression
