/-
**Exact roots and logarithms.**

Over the real numbers the square root and the binary logarithm are exact, and a power of two is never
out of range.

Main definitions:

* `MixedInteger.Rounding.exact` — roots and logarithms of real numbers, not rounded;
* the instance of `MixedInteger.Roots` for the extended reals.
-/

import Mathlib.Analysis.SpecialFunctions.Log.Base
import Mathlib.Analysis.SpecialFunctions.Pow.Real
import MixedInteger.Scalar.Rounding

set_option autoImplicit false

namespace MixedInteger

/-- Roots and logarithms of real numbers as they are. -/
noncomputable def Rounding.exact : Rounding ℝ where
  root
    | .finite x => if x < 0 then throw .outOfDomain else return .finite (Real.sqrt x)
    | .infinite true => throw .outOfDomain
    | a => return a
  logTwo
    | .finite x => if x ≤ 0 then throw .outOfDomain else return .finite (Real.logb (2 : ℕ) x)
    | .infinite true => throw .outOfDomain
    | a => return a
  nearest := Extended.toWhole Extended.nearestWhole
  ceiling := Extended.toWhole Int.ceil

noncomputable instance : Roots (Extended ℝ) := Rounding.exact.roots

end MixedInteger
