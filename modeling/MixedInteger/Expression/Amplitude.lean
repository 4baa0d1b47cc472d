/-
**Amplitudes of the terms of an expression.**

The amplitude of a term is the greatest absolute value that it can take within the bounds of its
variables; the constant is a term of its own.  The smallest and the greatest amplitude tell how badly
an expression is scaled.

Main definitions:

* `MixedInteger.Expression.amplitudes` — the amplitudes that are not zero, the constant's first;
* `MixedInteger.Expression.amplitudeRange` — the smallest and the greatest of them.
-/

import MixedInteger.Expression.Interval

set_option autoImplicit false

namespace MixedInteger.Expression

variable {α : Type} [Scalar α]

/-- The amplitude of a term with the given coefficient whose variables reach as far as `reach`.  An
unbounded term is as large as its coefficient if infinite bounds are ignored, else infinite. -/
def amplitude (ignoreInfinite : Bool) (coefficient reach : α) : α :=
  if Scalar.isInfinite reach then
    if ignoreInfinite then Scalar.magnitude coefficient else Scalar.infinity
  else Scalar.magnitude coefficient * reach

/-- How far a variable reaches from zero. -/
def variableReach (env : Environment α) (inf : α) (v : Variable) : α :=
  Scalar.larger (Scalar.magnitude (extend inf (env.lower v)))
    (Scalar.magnitude (extend inf (env.upper v)))

/-- How far a product of two variables reaches from zero. -/
def pairReach (env : Environment α) (inf : α) (p : VariablePair) : α :=
  let range := pairRange env inf p
  Scalar.larger (Scalar.magnitude range.1) (Scalar.magnitude range.2)

/-- The amplitudes that are not zero: of the constant, the linear terms and the products. -/
def amplitudes (env : Environment α) (inf : α) (ignoreInfinite : Bool) (e : Expression α) :
    List α :=
  let constant := if e.constant == 0 then [] else [Scalar.magnitude e.constant]
  let linear := e.linear.entries.map fun t =>
    amplitude ignoreInfinite t.2 (variableReach env inf t.1)
  let quadratic := e.quadratic.entries.map fun t =>
    amplitude ignoreInfinite t.2 (pairReach env inf t.1)
  (constant ++ linear ++ quadratic).filter fun a => !(a == 0)

/-- The smallest and the greatest amplitude, an infinite one told by the infinity of the store; two
zeros if every term is zero. -/
def amplitudeRange (env : Environment α) (ignoreInfinite : Bool) (e : Expression α) : α × α :=
  let inf := e.infinity env
  match e.amplitudes env inf ignoreInfinite with
  | [] => (0, 0)
  | a :: rest =>
    let low := Scalar.least a rest
    let high := Scalar.greatest a rest
    (if Scalar.isInfinite low then inf else low, if Scalar.isInfinite high then inf else high)

end MixedInteger.Expression
