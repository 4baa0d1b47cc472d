/-
**Arithmetic on plain values.**

Whole numbers are exact and of any size; a truth value counts as zero or one.  Together with a real
number, and in every division, whole numbers become doubles, which fails if they are too large.
Comparisons of whole and real numbers are exact.

Main definitions:

* `MixedInteger.Script.calculate`, `MixedInteger.Script.holds` — arithmetic and comparison of numbers;
* `MixedInteger.Script.plainOperation` — operators on all plain values;
* `MixedInteger.Script.exceeds`, `MixedInteger.Script.floatOf` — plain values as bounds.
-/

import MixedInteger.Script.Workspace

set_option autoImplicit false

namespace MixedInteger.Script

/-! ### Numbers -/

/-- Why a plain operation has no result. -/
abbrev Calculated := Except (NumberFault Number)

/-- Whether a comparison holds. -/
def holds (op : Operator) (a b : Number) : Option Bool :=
  match op with
  | .atMost => some (a.isAtMost b)
  | .atLeast => some (b.isAtMost a)
  | .equal => some (a.isEqual b)
  | .different => some (!a.isEqual b)
  | _ => none

/-- The nearest double to a quotient of whole numbers. -/
def divideWhole (a b : Int) : Calculated Float := do
  if b = 0 then throw .divisionByZero
  let x := Binary64.ofFraction (decide (a < 0) != decide (b < 0)) a.natAbs b.natAbs
  if x.isInf then throw .overflow
  return x

/-- The greatest amount by which a whole number is shifted to the left. -/
def maxShift : Nat := 1000000

/-- A whole number shifted to the left; zero is not moved by any amount. -/
def shiftLeft (a : Int) (amount : Nat) : Calculated Int :=
  if a = 0 then return 0
  else if maxShift < amount then throw .overflow
  else return a * twoPow amount

/-- Arithmetic on whole numbers. -/
def calculateWhole (op : Operator) (a b : Int) : Calculated (Option Number) :=
  match op with
  | .add => return some (.whole (a + b))
  | .sub => return some (.whole (a - b))
  | .mul => return some (.whole (a * b))
  | .div => return some (.real (← divideWhole a b))
  | .implies => if b < 0 then throw .outOfDomain else return some (.whole (a >>> b.toNat))
  | .impliedBy =>
    if b < 0 then throw .outOfDomain else return some (.whole (← shiftLeft a b.toNat))
  | _ => return none

/-- Arithmetic on doubles. -/
def calculateReal (op : Operator) (x y : Float) : Calculated (Option Number) :=
  match op with
  | .add => return some (.real (x + y))
  | .sub => return some (.real (x - y))
  | .mul => return some (.real (x * y))
  | .div => if y == 0.0 then throw .divisionByZero else return some (.real (x / y))
  | _ => return none

/-- Arithmetic on numbers; nothing for an operator that they do not have. -/
def calculate (op : Operator) (a b : Number) : Calculated (Option Number) :=
  match a, b with
  | .whole n, .whole m => calculateWhole op n m
  | a, b =>
    match op with
    | .implies => return none
    | .impliedBy => return none
    | _ => do calculateReal op (← doubleOf a) (← doubleOf b)

/-! ### Operators on all plain values -/

/-- The greatest length to which a text is repeated. -/
def maxLength : Nat := 100000000

/-- A text repeated.  The number of times has to fit in a machine word. -/
def repeatText (n : Int) (s : String) : Calculated String :=
  if isWord n && decide (s.length * n.toNat ≤ maxLength) then
    return if s.isEmpty then s else String.join (List.replicate n.toNat s)
  else throw .overflow

/-- Operators on texts. -/
def textOperation (op : Operator) (s t : String) : Option Value :=
  match op with
  | .add => some (.text (s ++ t))
  | .atMost => some (.truth (decide (s ≤ t)))
  | .atLeast => some (.truth (decide (t ≤ s)))
  | .equal => some (.truth (s == t))
  | .different => some (.truth (s != t))
  | _ => none

/-- Equality of values of sorts that have nothing in common. -/
def unlike (op : Operator) : Look Value :=
  match op with
  | .equal => return .truth false
  | .different => return .truth true
  | _ => throw .wrongSort

/-- Operators on plain values. -/
def plainOperation (op : Operator) (a b : Value) : Look Value := do
  match a.number?, b.number? with
  | some x, some y =>
    match holds op x y with
    | some t => return .truth t
    | none =>
      match ← Run.number (calculate op x y) with
      | some r => return .ofNumber r
      | none => throw .wrongSort
  | _, _ =>
    match a, b with
    | .text s, .text t => Run.orRefuse (textOperation op s t) .wrongSort
    | .nothing, .nothing =>
      match op with
      | .equal => return .truth true
      | .different => return .truth false
      | _ => throw .wrongSort
    | .text s, b =>
      match op, b.number? with
      | .mul, some (.whole n) => return .text (← Run.number (repeatText n s))
      | _, _ => unlike op
    | a, .text s =>
      match op, a.number? with
      | .mul, some (.whole n) => return .text (← Run.number (repeatText n s))
      | _, _ => unlike op
    | _, _ => unlike op

/-! ### Bounds -/

/-- Whether the first plain value is above the second; texts are compared as such. -/
def exceeds (a b : Value) : Look Bool :=
  match a.number?, b.number? with
  | some x, some y => return y.isBelow x
  | _, _ =>
    match a, b with
    | .text s, .text t => return decide (t < s)
    | _, _ => throw .wrongSort

/-- The double that a plain value stands for; a text is read as a numeral. -/
def floatOf (v : Value) : Look Float :=
  match v.number? with
  | some x => Run.double x
  | none =>
    match v with
    | .text s => Run.orRefuse (Typed.real? s.toList) .wrongValue
    | _ => throw .wrongSort

end MixedInteger.Script
