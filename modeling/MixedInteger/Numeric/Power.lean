/-
**Powers of two and of ten.**

The bases that doubles and decimal numerals are measured in, as functions of a natural exponent, and
the range of machine words.

Main definitions:

* `MixedInteger.twoPow`, `MixedInteger.tenPow`;
* `MixedInteger.isWord` — the whole numbers that a machine word holds.
-/

set_option autoImplicit false

namespace MixedInteger

/-- The power of two with the given exponent. -/
def twoPow (n : Nat) : Nat := Nat.pow 2 n

/-- The power of ten with the given exponent. -/
def tenPow (n : Nat) : Nat := Nat.pow 10 n

@[simp] theorem twoPow_zero : twoPow 0 = 1 := rfl

theorem twoPow_pos (n : Nat) : 0 < twoPow n := Nat.two_pow_pos n

@[simp] theorem tenPow_zero : tenPow 0 = 1 := rfl

theorem tenPow_pos (n : Nat) : 0 < tenPow n := Nat.pow_pos (by decide)

/-- Whether a whole number fits a machine word of sixty-four binary digits, one of them for the
sign. -/
def isWord (n : Int) : Bool := decide (-(twoPow 63 : Int) ≤ n) && decide (n < (twoPow 63 : Int))

end MixedInteger
