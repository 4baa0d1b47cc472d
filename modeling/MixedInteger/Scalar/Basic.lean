/-
**The numbers a model is written in.**

Coefficients, bounds and constants live in one carrier with the four operations, an order, numeric
equality and an infinite value.  Everything that computes with expressions is written over this
interface alone, in one fixed order of operations, so that the same definitions compute with doubles
(`Scalar/Double.lean`) and speak about exact numbers (`Scalar/Extended.lean`).

No law is part of the interface: with doubles, addition does not associate, and a value that is not a
number differs from itself.

Main definitions:

* `MixedInteger.Scalar` — the interface;
* `MixedInteger.Scalar.magnitude`, `MixedInteger.Scalar.smaller`, `MixedInteger.Scalar.larger` —
  absolute value and the two choices, which keep their first argument unless the second one is
  strictly better;
* `MixedInteger.Scalar.least`, `MixedInteger.Scalar.greatest` — the same choices over a list.
-/

set_option autoImplicit false

namespace MixedInteger

/-- A carrier of coefficients and bounds. -/
class Scalar (α : Type) extends Zero α, One α, Add α, Sub α, Mul α, Div α, Neg α, LT α, LE α,
    BEq α where
  /-- The order can be tested. -/
  testLt : DecidableLT α
  /-- The weak order can be tested. -/
  testLe : DecidableLE α
  /-- Positive infinity. -/
  infinity : α
  /-- Whether a value is one of the two infinities. -/
  isInfinite : α → Bool
  /-- Whether a value is a whole number. -/
  isIntegral : α → Bool

namespace Scalar

variable {α : Type} [Scalar α]

instance : DecidableLT α := Scalar.testLt

instance : DecidableLE α := Scalar.testLe

/-- The absolute value; zero has no sign. -/
def magnitude (a : α) : α := if a < 0 then -a else if a == 0 then 0 else a

/-- The second value if it is strictly below the first, else the first. -/
def smaller (a b : α) : α := if b < a then b else a

/-- The second value if it is strictly above the first, else the first. -/
def larger (a b : α) : α := if a < b then b else a

/-- The least value of a list that starts with `a`, the earliest of equal ones. -/
def least (a : α) (rest : List α) : α := rest.foldl smaller a

/-- The greatest value of a list that starts with `a`, the earliest of equal ones. -/
def greatest (a : α) (rest : List α) : α := rest.foldl larger a

@[simp] theorem least_nil (a : α) : least a [] = a := rfl

@[simp] theorem least_cons (a b : α) (rest : List α) :
    least a (b :: rest) = least (smaller a b) rest := rfl

@[simp] theorem greatest_nil (a : α) : greatest a [] = a := rfl

@[simp] theorem greatest_cons (a b : α) (rest : List α) :
    greatest a (b :: rest) = greatest (larger a b) rest := rfl

end Scalar

/-- A carrier whose values have a text. -/
class Display (α : Type) where
  /-- The text of a value in messages and tables, at most six significant digits. -/
  text : α → String
  /-- The text of a value that names it exactly. -/
  exactText : α → String

end MixedInteger
