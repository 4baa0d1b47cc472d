/-
**The values of terms.**

The operands of a term are evaluated from left to right before anything is made of them.

Main definitions:

* `MixedInteger.Script.evaluate` — the value of a term.
-/

import MixedInteger.Script.Copying
import MixedInteger.Script.Operation

set_option autoImplicit false

namespace MixedInteger.Script

open Run

/-- Applies an operator from the left. -/
def operateAll (op : Operator) : List Value → Run Value
  | [] => throw .wrongSort
  | first :: rest => rest.foldlM (operate op) first

/-- A constraint given by its sign and its expression. -/
def makeConstraint (sign : String) (v : Value) (name : Option String) : Run Value := do
  let relation ← orRefuse (Relation.ofSign? sign) .wrongValue
  let e ← asExpression v
  needDoubles e.hasDoubles
  newConstraint (← lift (Constraint.make (← environment) relation e name))

/-- The same constraint or implication under another name. -/
def rename (v : Value) (name : Option String) : Run Value := do
  match v with
  | .constraint n => do
    newConstraint (← lift ((← constraintAt n).rename (← environment) name))
  | .implication _ p c _ => newImplication p c name
  | _ => throw .noSuchPart

/-- A character of a text, if there is one at that place; negative places count from the end. -/
def characterAt? (s : String) (place : Int) : Option Char :=
  let index := if place < 0 then place + s.length else place
  if index < 0 then none else s.toList[index.toNat]?

/-- A character of a text as a text. -/
def itemAt (v : Value) (place : Int) : Look Value :=
  match v with
  | .text s => do return .text (String.ofList [← orRefuse (characterAt? s place) .outOfRange])
  | _ => throw .wrongSort

/-- The expression of a constraint, as an object of its own. -/
def expressionOf (v : Value) : Run Value :=
  match v with
  | .constraint n => do newExpression (← constraintAt n).expression
  | _ => throw .noSuchPart

/-- The expression that captures a constraint. -/
def reify (v : Value) : Run Value :=
  match v with
  | .constraint n => do
    newExpression (← lift ((← constraintAt n).reified (← environment)))
  | _ => throw .noSuchPart

/-- The premise of an implication. -/
def premiseOf (v : Value) : Look Value :=
  match v with
  | .implication _ p _ _ => return p
  | _ => throw .noSuchPart

/-- The conclusion of an implication. -/
def conclusionOf (v : Value) : Look Value :=
  match v with
  | .implication _ _ c _ => return c
  | _ => throw .noSuchPart

mutual

/-- The value of a term, the operands from left to right. -/
def evaluate : Term → Run Value
  | .register name => register name
  | .plain p => return .ofPlain p
  | .chain op operands => do operateAll op (← evaluateAll operands)
  | .negated t => do negate (← evaluate t)
  | .affirmed t => do affirm (← evaluate t)
  | .complemented t => do complement (← evaluate t)
  | .expression none => newExpression (.const 0)
  | .expression (some t) => do newExpression (← asExpression (← evaluate t))
  | .copied t => do copy (← evaluate t)
  | .deepCopied t => do deepCopy (← evaluate t)
  | .constraint sign t name => do makeConstraint sign (← evaluate t) name
  | .implication p c => do
    let premise ← evaluate p
    newImplication premise (← evaluate c) none
  | .named t name => do rename (← evaluate t) name
  | .item t place => do itemAt (← evaluate t) place
  | .expressionOf t => do expressionOf (← evaluate t)
  | .reified t => do reify (← evaluate t)
  | .premise t => do premiseOf (← evaluate t)
  | .conclusion t => do conclusionOf (← evaluate t)

/-- The values of terms, from left to right. -/
def evaluateAll : List Term → Run (List Value)
  | [] => return []
  | t :: rest => do
    let v ← evaluate t
    return v :: (← evaluateAll rest)

end

end MixedInteger.Script
