/-
**Values and terms of scripts.**

A script builds models step by step and keeps what it makes in named registers.  Expressions and
constraints are objects, which several registers may hold: a step may change an expression in place, and
every register that holds it then sees the change.  Implications carry a tag, so that a script can tell
whether it got back the one that it gave.

A term is what a step writes to denote a value: a register, a plain value, or something made from the
values of other terms.

Main definitions:

* `MixedInteger.Script.Plain`, `MixedInteger.Script.Value` — what may be written down as it is, and what
  a register may hold;
* `MixedInteger.Script.Operator` — the operators with two operands;
* `MixedInteger.Script.Term` — terms.
-/

import MixedInteger.Expression.Basic
import MixedInteger.Scalar.Number

set_option autoImplicit false

namespace MixedInteger.Script

/-- A value that is written down as it is. -/
inductive Plain where
  | nothing
  | truth (b : Bool)
  | whole (n : Int)
  | real (x : Float)
  | text (s : String)
  deriving Inhabited

/-- What a register may hold. -/
inductive Value where
  | nothing
  | truth (b : Bool)
  | whole (n : Int)
  | real (x : Float)
  | text (s : String)
  | variable (v : Variable)
  /-- An expression object, by its place. -/
  | expression (place : Nat)
  /-- A constraint object, by its place. -/
  | constraint (place : Nat)
  /-- An implication.  What stands on its sides is asked for only when it is used. -/
  | implication (tag : Nat) (premise conclusion : Value) (name : Option String)
  | model (place : Nat)
  | solver (place : Nat)
  deriving Inhabited

/-- A plain value as a value. -/
def Value.ofPlain : Plain → Value
  | .nothing => .nothing
  | .truth b => .truth b
  | .whole n => .whole n
  | .real x => .real x
  | .text s => .text s

/-- The name of the sort of a value in messages. -/
def Value.sort : Value → String
  | .nothing => "NoneType"
  | .truth _ => "bool"
  | .whole _ => "int"
  | .real _ => "float"
  | .text _ => "str"
  | .variable _ => "Var"
  | .expression _ => "Expr"
  | .constraint .. => "Constr"
  | .implication .. => "IndicatorConstr"
  | .model _ => "LocalBackend"
  | .solver _ => "Solver"

/-- The number that a value is, if it is one; a truth value counts as zero or one. -/
def Value.number? : Value → Option Number
  | .truth b => some (.whole (if b then 1 else 0))
  | .whole n => some (.whole n)
  | .real x => some (.real x)
  | _ => none

/-- A number as a value. -/
def Value.ofNumber : Number → Value
  | .whole n => .whole n
  | .real x => .real x

/-- Whether two values are one and the same object. -/
def Value.isSame : Value → Value → Bool
  | .expression m, .expression n => m == n
  | .constraint m, .constraint n => m == n
  | .implication s _ _ _, .implication t _ _ _ => s == t
  | .model m, .model n => m == n
  | .solver m, .solver n => m == n
  | _, _ => false

/-- The operators with two operands. -/
inductive Operator where
  | add
  | sub
  | mul
  | div
  | atMost
  | atLeast
  | equal
  | different
  /-- The left side implies the right side; a shift to the right of plain numbers. -/
  | implies
  /-- The right side implies the left side; a shift to the left of plain numbers. -/
  | impliedBy
  deriving Repr, DecidableEq

/-- What a step writes to denote a value. -/
inductive Term where
  | register (name : String)
  | plain (p : Plain)
  /-- An operator between two or more operands, applied from the left. -/
  | chain (op : Operator) (operands : List Term)
  | negated (t : Term)
  | affirmed (t : Term)
  | complemented (t : Term)
  /-- An expression made from a value; zero if there is none. -/
  | expression (t : Option Term)
  | copied (t : Term)
  /-- A copy that shares neither models nor constraints with the value. -/
  | deepCopied (t : Term)
  | constraint (sign : String) (t : Term) (name : Option String)
  | implication (premise conclusion : Term)
  | named (t : Term) (name : Option String)
  /-- A character of a text. -/
  | item (t : Term) (place : Int)
  /-- The expression of a constraint. -/
  | expressionOf (t : Term)
  | reified (t : Term)
  | premise (t : Term)
  | conclusion (t : Term)
  deriving Inhabited

end MixedInteger.Script
