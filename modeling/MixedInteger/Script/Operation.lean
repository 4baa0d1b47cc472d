/-
**Operators on values.**

Where a variable or an expression is involved, an operator builds an expression, a constraint or an
implication; the other side may then be a variable, an expression or a number.  Otherwise it is an
operator on plain values.

Main definitions:

* `MixedInteger.Script.asExpression` — the expression that a value can be taken for;
* `MixedInteger.Script.change`, `MixedInteger.Script.changeAfter` — sums, differences, products and
  quotients of an expression;
* `MixedInteger.Script.operate` — operators with two operands;
* `MixedInteger.Script.negate`, `MixedInteger.Script.affirm`, `MixedInteger.Script.complement` —
  operators with one operand;
* `MixedInteger.Script.assign` — an operator that changes its left operand in place.

Main results:

* `MixedInteger.Script.combine_of_change` — a change that does not stop is the operator.
-/

import MixedInteger.Expression.Operand
import MixedInteger.Script.Plain

set_option autoImplicit false

namespace MixedInteger.Script

open Run

/-! ### Operands -/

/-- What a value is beside an expression, if it can stand there. -/
def operand? (v : Value) : Look (Option (Operand Number)) :=
  match v with
  | .variable x => return some (.variable x)
  | .expression n => return some (.expression (← terms n))
  | v =>
    match v.number? with
    | some x => return some (.number (.real (← double x)))
    | none => return none

/-- A double as an expression. -/
def constant (x : Float) : Expression Number := .const (.real x)

/-- The expression that a value can be taken for, if there is one. -/
def asExpression? (v : Value) : Look (Option (Expression Number)) :=
  return (← operand? v).map Operand.asExpression

/-- The expression that a value can be taken for. -/
def asExpression (v : Value) : Look (Expression Number) := do
  orRefuse (← asExpression? v) (.notAnExpression v.sort)

/-- The expression of a value that already is a variable or an expression. -/
def symbolic? (v : Value) : Look (Option (Expression Number)) :=
  match v with
  | .variable x => return some (.ofVariable x)
  | .expression n => return some (← terms n)
  | _ => return none

/-! ### Arithmetic -/

/-- The operator that computes, if it is one of those. -/
def Operator.computing? : Operator → Option Arithmetic
  | add => some .add
  | sub => some .sub
  | mul => some .mul
  | div => some .div
  | _ => none

/-- Whether an operator compares. -/
def Operator.isComparison : Operator → Bool
  | atMost => true
  | atLeast => true
  | equal => true
  | different => true
  | _ => false

/-- The change of an expression by an operator that computes, with something on its right. -/
def change (op : Arithmetic) (e : Expression Number) (o : Operand Number) : Expression.Change :=
  match op, o with
  | .add, .variable v => e.increaseBy v 1
  | .add, .expression f => e.increase f
  | .add, .number a => .complete (e.addConstant a)
  | .sub, .variable v => e.increaseBy v (-1)
  | .sub, .expression f => e.decrease f
  | .sub, .number a => .complete (e.addConstant (-a))
  | .mul, .number a => e.multiplyAll a.toFloat
  | .mul, o => e.multiplyBy o.asExpression
  | .div, .number a => e.divide a.toFloat
  | .div, o => e.divideBy o.asExpression

/-- A change that does not stop is the operator, the constant on the right being a double. -/
theorem combine_of_change {op : Arithmetic} {e g : Expression Number} {o : Operand Number}
    (ho : o.asExpression.constant = .real o.asExpression.constant.toFloat)
    (hg : (change op e o).result = .ok g) : e.combine op o = .ok g := by
  obtain ⟨h, rfl⟩ := Expression.Change.of_result hg
  cases op with
  | add =>
      cases o with
      | «variable» v => rw [change, Expression.addVariable_of_increaseBy h]; rfl
      | expression f => rw [change, Expression.increase_eq_add h]; rfl
      | number a => rfl
  | sub =>
      cases o with
      | «variable» v => rw [change, Expression.addVariable_of_increaseBy h]; rfl
      | expression f => rw [change, Expression.decrease_eq_sub h]; rfl
      | number a => rfl
  | mul =>
      cases o with
      | «variable» v => exact Expression.mul_of_multiplyBy ho h
      | expression f => exact Expression.mul_of_multiplyBy ho h
      | number a =>
          have ha : a = .real a.toFloat := ho
          rw [change, Expression.multiplyAll_eq_scale h, ← ha]
          rfl
  | div =>
      cases o with
      | «variable» v => exact Expression.div_of_divideBy ho h
      | expression f => exact Expression.div_of_divideBy ho h
      | number a =>
          have ha : a = .real a.toFloat := ho
          have hd := Expression.divConstant_of_divide h
          rwa [← ha] at hd

/-- The change that a number makes together with an expression on its right. -/
def changeAfter (op : Arithmetic) (a : Number) (e : Expression Number) :
    Except (Fault Number) (Expression Number) := do
  match op with
  | .sub => (change .add (← e.oppose.result) (.number a)).result
  | .div => (change .div (.const a) (.expression e)).result
  | op => (change op e (.number a)).result

/-! ### Comparisons and implications -/

/-- The constraint of two expressions.  Its bounds are asked for, which needs all doubles. -/
def relate (relation : Relation) (e f : Expression Number) : Look (Constraint Number) := do
  let env ← environment
  if !(e.isConstant && f.isConstant) then
    let difference ← lift (e.decrease f).result
    needDoubles difference.hasDoubles
  lift (Constraint.compare env relation e f)

/-- The constraint that compares two expressions. -/
def comparison (op : Operator) (e f : Expression Number) : Run Value := do
  match op with
  | .atMost => newConstraint (← relate .atMost e f)
  | .atLeast => newConstraint (← relate .atMost f e)
  | .equal => newConstraint (← relate .equal e f)
  | .different => throw (.noTruth (← relate .equal e f))
  | _ => throw .wrongSort

/-- An implication of a constraint by an expression being one. -/
def impliedByOne (e : Expression Number) (conclusion : Value) : Run Value := do
  newImplication (← comparison .equal e (constant 1.0)) conclusion none

/-! ### Operators with two operands -/

/-- An operator with a variable or an expression on the left. -/
def operateLeft (op : Operator) (e : Expression Number) (b : Value) : Run Value := do
  match op.computing? with
  | some a =>
    match ← operand? b with
    | some o => newExpression (← lift (change a e o).result)
    | none => throw .wrongSort
  | none =>
    if op.isComparison then
      match ← asExpression? b with
      | some f => comparison op e f
      | none => unlike op
    else
      match op, b with
      | .implies, .constraint .. => impliedByOne e b
      | .impliedBy, .constraint .. => throw .wrongSort
      | _, _ => throw .wrongSort

/-- An operator with a variable or an expression on the right and neither on the left. -/
def operateRight (op : Operator) (a : Value) (e : Expression Number) : Run Value := do
  match a.number? with
  | some n =>
    match op.computing? with
    | some a => newExpression (← lift (changeAfter a (.real (← double n)) e))
    | none =>
      match op with
      | .equal => comparison .equal e (constant (← double n))
      | .different => comparison .different e (constant (← double n))
      | .atMost => comparison .atMost (constant (← double n)) e
      | .atLeast => comparison .atLeast (constant (← double n)) e
      | _ => throw .wrongSort
  | none =>
    match op, a with
    | .impliedBy, .constraint .. => impliedByOne e a
    | _, _ => unlike op

/-- Operators where no variable and no expression is involved. -/
def operateOther (op : Operator) (a b : Value) : Run Value := do
  match op, a, b with
  | .implies, .constraint .., .constraint .. => newImplication a b none
  | .impliedBy, .constraint .., .constraint .. => newImplication b a none
  | .impliedBy, .constraint .., b =>
    match ← asExpression? b with
    | some e => impliedByOne e a
    | none => throw .wrongSort
  | op, a, b =>
    if a.isSame b then
      match op with
      | .equal => return .truth true
      | .different => return .truth false
      | _ => throw .wrongSort
    else plainOperation op a b

/-- An operator with two operands. -/
def operate (op : Operator) (a b : Value) : Run Value := do
  match ← symbolic? a with
  | some e => operateLeft op e b
  | none =>
    match ← symbolic? b with
    | some e => operateRight op a e
    | none => operateOther op a b

/-! ### Operators with one operand -/

/-- The opposite. -/
def negate (a : Value) : Run Value := do
  match ← symbolic? a with
  | some e => newExpression (← lift e.oppose.result)
  | none =>
    match a.number? with
    | some x => return .ofNumber x.opposite
    | none => throw .wrongSort

/-- The same value once more. -/
def affirm (a : Value) : Run Value := do
  match ← symbolic? a with
  | some e => newExpression e
  | none =>
    match a.number? with
    | some x => return .ofNumber x
    | none => throw .wrongSort

/-- The constraint that a truth value is false; of a whole number, all its bits turned over. -/
def complement (a : Value) : Run Value := do
  match ← symbolic? a with
  | some e => newConstraint (← lift (Constraint.negation (← environment) e))
  | none =>
    match a.number? with
    | some (.whole n) => return .whole (-n - 1)
    | _ => throw .wrongSort

/-! ### Truth -/

/-- Whether a value counts as true.  A constraint has no truth value. -/
def truthOf (a : Value) : Look Bool :=
  match a with
  | .nothing => return false
  | .truth b => return b
  | .whole n => return n != 0
  | .real x => return x != 0.0
  | .text s => return !s.isEmpty
  | .constraint n => do throw (.noTruth (← constraintAt n))
  | _ => return true

/-! ### Changing in place -/

/-- The change of an expression by an operator; one that does not compute changes nothing. -/
def changeBy (op : Operator) (e : Expression Number) (o : Operand Number) : Expression.Change :=
  (op.computing?.map fun a => change a e o).getD (.complete e)

/-- Applies an operator to what a value stands for.  An expression object is changed, so that everything
which holds it sees the change, also one that stops on the way; any other value is left alone and a new
one made. -/
def assign (op : Operator) (target argument : Value) : Run Value := do
  match target with
  | .expression n =>
    match ← operand? argument with
    | some o =>
      let c := changeBy op (← terms n) o
      setTerms n c.reached
      let _ ← lift c.result
      return target
    | none => throw .wrongSort
  | target => operate op target argument

end MixedInteger.Script
