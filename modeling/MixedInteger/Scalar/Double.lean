/-
**Doubles as scalars.**

The carrier that runs: IEEE double arithmetic with its own comparison, in which zeros of either sign
are equal and nothing compares with a value that is not a number.
-/

import MixedInteger.Numeric.Notation
import MixedInteger.Scalar.Basic

set_option autoImplicit false

namespace MixedInteger

instance : Scalar Float where
  zero := 0.0
  one := 1.0
  add := Float.add
  sub := Float.sub
  mul := Float.mul
  div := Float.div
  neg := Float.neg
  lt a b := a < b
  le a b := a ≤ b
  beq a b := a.beq b
  testLt := fun a b => inferInstanceAs (Decidable (a < b))
  testLe := fun a b => inferInstanceAs (Decidable (a ≤ b))
  infinity := 1.0 / 0.0
  isInfinite := Float.isInf
  isIntegral a := (Binary64.ofFloat a).isIntegral

instance : Display Float where
  text := Notation.general
  exactText := Notation.plain

end MixedInteger
