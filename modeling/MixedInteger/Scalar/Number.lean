/-
**Whole numbers and doubles as scalars.**

A coefficient that is written as a whole number is exact and of any size, and it stays so among whole
numbers.  Beside a double, and in every quotient, it becomes a double itself.  Whole numbers that are
too large for that have no double; they are told by `Number.hasDouble`, and count as infinite where a
double is wanted all the same.

Main definitions:

* `MixedInteger.Number` — a whole number or a double;
* `MixedInteger.Number.float?`, `MixedInteger.Number.toFloat` — its double;
* `MixedInteger.Number.addsTo`, `MixedInteger.Number.timesFits` — sums and products that no missing
  double prevents;
* the instances of `MixedInteger.Scalar` and `MixedInteger.Display`.

Main results:

* `MixedInteger.Number.whole_add`, `MixedInteger.Number.whole_mul` — whole numbers are exact.
-/

import MixedInteger.Scalar.Double

set_option autoImplicit false

namespace MixedInteger

/-- A whole number or a double. -/
inductive Number where
  | whole (n : Int)
  | real (x : Float)

namespace Number

/-! ### Doubles -/

/-- The nearest double, unless the number is out of range. -/
def float? : Number → Option Float
  | whole n => Binary64.ofInt? n
  | real x => some x

/-- The nearest double; a whole number out of range is infinite. -/
def toFloat : Number → Float
  | whole n => Binary64.ofInt n
  | real x => x

/-- Whether there is a double for a number. -/
def hasDouble (a : Number) : Bool := a.float?.isSome

@[simp] theorem hasDouble_real (x : Float) : (real x).hasDouble = true := rfl

/-! ### Comparison -/

/-- The exact value of a number. -/
def exact : Number → Binary64
  | whole n => .exact n
  | real x => .ofFloat x

/-- Whether the first number is below the second, exactly. -/
def isBelow : Number → Number → Bool
  | real x, real y => decide (x < y)
  | a, b => a.exact.lt b.exact

/-- Whether two numbers are equal, exactly. -/
def isEqual : Number → Number → Bool
  | real x, real y => x.beq y
  | a, b => a.exact.eq b.exact

/-- Whether the first number is at most the second, exactly. -/
def isAtMost (a b : Number) : Bool := a.isBelow b || a.isEqual b

/-! ### Arithmetic -/

/-- An operation that is exact on whole numbers. -/
def combine (onWhole : Int → Int → Int) (onReal : Float → Float → Float) :
    Number → Number → Number
  | whole n, whole m => whole (onWhole n m)
  | a, b => real (onReal a.toFloat b.toFloat)

/-- The opposite number. -/
def opposite : Number → Number
  | whole n => whole (-n)
  | real x => real (-x)

/-- Whether a number is one of the two infinities. -/
def infinite? : Number → Bool
  | whole _ => false
  | real x => x.isInf

/-- Whether a number is whole. -/
def whole? : Number → Bool
  | whole _ => true
  | real x => Scalar.isIntegral x

instance : Scalar Number where
  zero := real 0.0
  one := real 1.0
  add := combine (· + ·) (· + ·)
  sub := combine (· - ·) (· - ·)
  mul := combine (· * ·) (· * ·)
  div a b := real (a.toFloat / b.toFloat)
  neg := opposite
  lt a b := a.isBelow b = true
  le a b := a.isAtMost b = true
  beq := isEqual
  testLt := fun a b => inferInstanceAs (Decidable (a.isBelow b = true))
  testLe := fun a b => inferInstanceAs (Decidable (a.isAtMost b = true))
  infinity := real (1.0 / 0.0)
  isInfinite := infinite?
  isIntegral := whole?

instance : Inhabited Number := ⟨0⟩

@[simp] theorem whole_add (n m : Int) : whole n + whole m = whole (n + m) := rfl

@[simp] theorem whole_mul (n m : Int) : whole n * whole m = whole (n * m) := rfl

instance : Display Number where
  text a := Notation.general a.toFloat
  exactText
    | whole n => toString n
    | real x => Notation.plain x

/-! ### What missing doubles prevent -/

/-- Whether two numbers have a sum or a difference: whole ones always do, others need doubles. -/
def addsTo : Number → Number → Bool
  | whole _, whole _ => true
  | a, b => a.hasDouble && b.hasDouble

/-- Whether two numbers have a product, and that product a double. -/
def timesFits : Number → Number → Bool
  | whole n, whole m => (whole (n * m)).hasDouble
  | a, b => a.hasDouble && b.hasDouble

@[simp] theorem addsTo_real (x y : Float) : (real x).addsTo (real y) = true := rfl

end Number

end MixedInteger
