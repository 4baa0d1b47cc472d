/-
**Implications with sides of any sort.**

What stands on the sides of an implication is asked for only when it is used, and it is used step by
step: the conclusion is not looked at where the premise alone decides.  A conclusion that is an
expression does for an engine, but there is no constraint in its place.

Main definitions:

* `MixedInteger.Script.hasReplacement`, `MixedInteger.Script.replacementOf` — constraints in the place of
  an implication;
* `MixedInteger.Script.checkNative`, `MixedInteger.Script.isNative` — whether engines take it.
-/

import MixedInteger.Script.Telling

set_option autoImplicit false

namespace MixedInteger.Script

open Run

/-- A side that has to be a constraint. -/
def sideConstraint (v : Value) : Look (Constraint Number) :=
  match v with
  | .constraint n => constraintAt n
  | _ => throw .noSuchPart

/-- Whether constraints can take the place of an implication. -/
def hasReplacement (p c : Value) : Look Bool := do
  let env ← environment
  let premise ← sideConstraint p
  if !premise.isReifiable env then return false
  return Implication.hasReplacement env ⟨premise, ← sideConstraint c, none⟩

/-- The constraints that take the place of an implication. -/
def replacementOf (p c : Value) (name : Option String) : Look (List (Constraint Number)) := do
  let env ← environment
  let premise ← sideConstraint p
  if !premise.isReifiable env then
    throw (.loosePremise (← implicationText p c) (premise.text env))
  lift (Implication.replacement env ⟨premise, ← sideConstraint c, name⟩)

/-- Whether a conclusion is linear. -/
def isLinearSide (v : Value) : Look Bool :=
  match v with
  | .constraint n => return (← constraintAt n).isLinear
  | .expression n => return (← terms n).isLinear
  | _ => throw .noSuchPart

/-- Refuses an implication that engines do not take. -/
def checkNative (p c : Value) : Look Unit := do
  lift (Implication.checkPremise (← environment) (← sideConstraint p))
  if !(← isLinearSide c) then throw (.looseConclusion (← valueText c))

/-- Whether engines take an implication.  Only a refusal of the shape counts as an answer. -/
def isNative (p c : Value) : Look Bool :=
  tryCatch
    (do
      checkNative p c
      return true)
    fun r => if r.isUnsupportedShape then return false else throw r

end MixedInteger.Script
