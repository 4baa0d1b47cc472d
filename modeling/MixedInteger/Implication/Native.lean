/-
**Implications that engines take as they are.**

An engine takes an implication whose premise fixes one binary variable to zero or one and whose
conclusion is linear.

Main definitions:

* `MixedInteger.Implication.checkPremise` — the premise is taken, or why not;
* `MixedInteger.Implication.checkNative` — the shape is taken, or why not;
* `MixedInteger.Implication.isNative` — the same as a truth value.
-/

import MixedInteger.Expression.Product

set_option autoImplicit false

namespace MixedInteger

variable {α : Type} [Scalar α]

/-- Whether a fault says that an engine does not take a shape of constraint, implication or
objective. -/
def Fault.isUnsupportedShape : Fault α → Bool
  | .quadraticConstraint .. => true
  | .noImplications .. => true
  | .quadraticObjective .. => true
  | .premiseNotEquation _ => true
  | .premiseNotUnary _ => true
  | .premiseNotBinary _ => true
  | .premiseNotFixing _ => true
  | .conclusionNotLinear _ => true
  | _ => false

namespace Implication

/-- The value that a premise `k + c * x = 0` fixes its variable to. -/
def fixedValue (constant coefficient : α) : Except (Fault α) α :=
  Expression.quotient (-constant) coefficient

/-- A premise has to be an equation in one binary variable that fixes it to zero or one. -/
def checkPremise (env : Environment α) (c : Constraint α) : Except (Fault α) Unit := do
  let e := c.expression
  if c.relation != .equal then throw (.premiseNotEquation c)
  match e.isLinear, e.linear.entries with
  | true, [(v, a)] =>
    if env.kind v != .binary then throw (.premiseNotBinary c)
    let value ← fixedValue e.constant a
    if !(value == 0 || value == 1) then throw (.premiseNotFixing c)
  | _, _ => throw (.premiseNotUnary c)

/-- The premise fixes a binary variable, and the conclusion is linear. -/
def checkNative (env : Environment α) (i : Implication α) : Except (Fault α) Unit := do
  checkPremise env i.premise
  if !i.conclusion.isLinear then throw (.conclusionNotLinear i.conclusion)

/-- Whether the shape is taken.  Only a refusal of the shape counts as an answer. -/
def isNative (env : Environment α) (i : Implication α) : Except (Fault α) Bool :=
  match i.checkNative env with
  | .ok () => return true
  | .error f => if f.isUnsupportedShape then return false else throw f

end Implication

end MixedInteger
