/-
**The texts of values.**

A value has a text that it is told by, and a description that tells its sort as well.  An expression
with a coefficient that no double comes near has neither, and a whole number with very many digits has
no text.

Main definitions:

* `MixedInteger.Script.expressionText`, `MixedInteger.Script.valueText` — texts;
* `MixedInteger.Script.implicationText` — the text of an implication, whatever stands on its sides;
* `MixedInteger.Script.postedText` — the description of something that was posted.
-/

import MixedInteger.Script.Workspace

set_option autoImplicit false

namespace MixedInteger.Script

open Run

/-- The text of an expression. -/
def expressionText (e : Expression Number) : Look String := do
  needDoubles e.hasDoubles
  return e.text (← environment)

/-- The text of a whole number. -/
def wholeText (n : Int) : Look String :=
  if n.natAbs < tenPow Typed.maxDigits then return toString n else throw .wrongValue

/-- The text of a plain value. -/
def plainText (v : Value) : Look String :=
  match v with
  | .nothing => return "None"
  | .truth b => return if b then "True" else "False"
  | .whole n => wholeText n
  | .real x => return Notation.plain x
  | .text s => return s
  | _ => throw .noSuchPart

/-- The text of a value. -/
def valueText : Value → Look String
  | .variable x => do return (← environment).label x
  | .expression n => do expressionText (← terms n)
  | .constraint n => do return (← constraintAt n).text (← environment)
  | .implication _ p c _ => do
    let premise ← valueText p
    return premise ++ " -> " ++ (← valueText c)
  | v => plainText v

/-- The text of an implication, whatever stands on its sides. -/
def implicationText (p c : Value) : Look String := do
  let premise ← valueText p
  return premise ++ " -> " ++ (← valueText c)

/-- The description of an implication. -/
def implicationDescription (p c : Value) : Look String := do
  return "IndicatorConstr(" ++ (← implicationText p c) ++ ")"

/-- The description of an expression. -/
def expressionDescription (e : Expression Number) : Look String := do
  return "Expr(" ++ (← expressionText e) ++ ")"

/-- The description of a constraint, or of an expression that was posted as one. -/
def postedText (v : Value) : Look String :=
  match v with
  | .constraint n => do return (← constraintAt n).describe (← environment)
  | .expression n => do expressionDescription (← terms n)
  | v => valueText v

end MixedInteger.Script
