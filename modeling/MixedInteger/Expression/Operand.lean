/-
**Operators on expressions, variables and numbers.**

An operator stands between two operands, of which one at least is an expression or a variable; the
other may be a number.  A number on the right is taken as it is; a number on the left is brought to
the other side first, where the operator allows it.

Main definitions:

* `MixedInteger.Arithmetic`, `MixedInteger.Comparison` — the operators that compute and those that
  compare;
* `MixedInteger.Operand` — what stands on a side of an operator;
* `MixedInteger.Expression.combine` — an operator with an expression on its left;
* `MixedInteger.Expression.combineAfter` — an operator with a number on the left of an expression;
* `MixedInteger.Operand.operate`, `MixedInteger.Operand.negate`, `MixedInteger.Operand.compare` — the
  operators.
-/

import MixedInteger.Constraint.Triviality
import MixedInteger.Expression.Product

set_option autoImplicit false

namespace MixedInteger

/-- The operators that compute. -/
inductive Arithmetic where
  | add
  | sub
  | mul
  | div
  deriving Repr, DecidableEq

/-- The operators that compare. -/
inductive Comparison where
  | atMost
  | atLeast
  | equal
  deriving Repr, DecidableEq

/-- What stands on a side of an operator. -/
inductive Operand (α : Type) where
  | variable (v : Variable)
  | expression (e : Expression α)
  | number (a : α)

variable {α : Type} [Scalar α]

/-- An operand as an expression. -/
def Operand.asExpression : Operand α → Expression α
  | .variable v => .ofVariable v
  | .expression e => e
  | .number a => .const a

/-! ### Operators that compute -/

namespace Expression

/-- An expression, an operator, and something on its right. -/
def combine (op : Arithmetic) (e : Expression α) (o : Operand α) :
    Except (Fault α) (Expression α) :=
  match op, o with
  | .add, .variable v => return e.addVariable v 1
  | .add, .expression f => return e.add f
  | .add, .number a => return e.addConstant a
  | .sub, .variable v => return e.addVariable v (-1)
  | .sub, .expression f => return e.sub f
  | .sub, .number a => return e.addConstant (-a)
  | .mul, .number a => return e.scale a
  | .mul, o => e.mul o.asExpression
  | .div, .number a => e.divConstant a
  | .div, o => e.div o.asExpression

/-- A number, an operator, and an expression on its right.  A sum and a product are turned round, a
difference is the opposite plus the number, and for a quotient the number becomes an expression. -/
def combineAfter (op : Arithmetic) (a : α) (e : Expression α) : Except (Fault α) (Expression α) :=
  match op with
  | .sub => e.neg.combine .add (.number a)
  | .div => (const a).combine .div (.expression e)
  | op => e.combine op (.number a)

end Expression

namespace Operand

/-- An operator that computes between two operands. -/
def operate (op : Arithmetic) (a b : Operand α) : Except (Fault α) (Expression α) :=
  match a with
  | .number x => Expression.combineAfter op x b.asExpression
  | a => a.asExpression.combine op b

/-- The opposite of an operand. -/
def negate (a : Operand α) : Expression α := a.asExpression.neg

/-! ### Operators that compare -/

/-- An operator that compares between two operands.  An equation begins with the side that mentions
a variable. -/
def compare (env : Environment α) (r : Comparison) (a b : Operand α) :
    Except (Fault α) (Constraint α) :=
  match r, a with
  | .atMost, a => Constraint.compare env .atMost a.asExpression b.asExpression
  | .atLeast, a => Constraint.compare env .atMost b.asExpression a.asExpression
  | .equal, .number x => Constraint.compare env .equal b.asExpression (.const x)
  | .equal, a => Constraint.compare env .equal a.asExpression b.asExpression

end Operand

end MixedInteger
