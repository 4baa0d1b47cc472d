/-
**Roots and logarithms of exact numbers, rounded in some way.**

A square root or a logarithm of an exact number need not be there, and what is taken for it may be
rounded.  How it is rounded is left open here; a power of two is exact in any case.

Main definitions:

* `MixedInteger.Extended.nearestWhole` — the nearest whole number, a half to the even one;
* `MixedInteger.Rounding`, `MixedInteger.Rounding.roots` — some way of rounding, and the carrier that
  it makes;
* `MixedInteger.Rounding.rational` — for rational numbers, exact where the root is rational and the
  logarithm whole.

Main results:

* `MixedInteger.Extended.abs_sub_nearestWhole_le` — the nearest whole number is at most a half away;
* `MixedInteger.Rounding.exactPowers` — powers of two are exact.
-/

import MixedInteger.Scalar.Extended
import MixedInteger.Scalar.Powers
import Mathlib.Data.Int.Log
import Mathlib.Data.Rat.Floor
import Mathlib.Data.Rat.Sqrt
import Mathlib.Tactic.Linarith

set_option autoImplicit false

namespace MixedInteger

variable {K : Type}

/-! ### Whole numbers -/

namespace Extended

/-- A whole number made from a number; other values have none. -/
def toWhole (f : K → Int) : Extended K → Except (NumberFault (Extended K)) Int
  | finite x => return f x
  | infinite _ => throw .overflow
  | undefined => throw .outOfDomain

variable [Field K] [LinearOrder K] [FloorRing K]

/-- The nearest whole number, a half to the even one. -/
def nearestWhole (x : K) : Int :=
  if Int.fract x < 1 / 2 then ⌊x⌋
  else if 1 / 2 < Int.fract x then ⌊x⌋ + 1
  else if Even ⌊x⌋ then ⌊x⌋
  else ⌊x⌋ + 1

theorem abs_sub_nearestWhole_le [IsStrictOrderedRing K] (x : K) : |x - nearestWhole x| ≤ 1 / 2 := by
  have h0 := Int.fract_nonneg x
  have h1 := Int.fract_lt_one x
  have hx : x = ⌊x⌋ + Int.fract x := (Int.floor_add_fract x).symm
  unfold nearestWhole
  rw [abs_le]
  split_ifs <;> push_cast <;> constructor <;> linarith

end Extended

/-! ### Ways of rounding -/

/-- What is taken for square roots, for binary logarithms and for whole numbers near a number. -/
structure Rounding (K : Type) where
  root : Extended K → Except (NumberFault (Extended K)) (Extended K)
  logTwo : Extended K → Except (NumberFault (Extended K)) (Extended K)
  nearest : Extended K → Except (NumberFault (Extended K)) Int
  ceiling : Extended K → Except (NumberFault (Extended K)) Int

/-- A power of two is that power, if it is there. -/
def ExactPowers (K : Type) [Field K] [Roots (Extended K)] : Prop :=
  ∀ (n : Int) (a : Extended K), Roots.powerOfTwo n = .ok a → a = .finite (2 ^ n)

namespace Rounding

/-- The carrier that a way of rounding makes. -/
@[reducible] def roots [Field K] (R : Rounding K) : Roots (Extended K) where
  root := R.root
  logTwo := R.logTwo
  nearest := R.nearest
  ceiling := R.ceiling
  powerOfTwo n := return .finite (2 ^ n)

theorem exactPowers [Field K] (R : Rounding K) :
    letI := R.roots
    ExactPowers K := by
  intro n a h
  cases h
  rfl

/-- The root and the logarithm of a rational number, exact where they are rational and whole. -/
def rational : Rounding ℚ where
  root
    | .finite x => if x < 0 then throw .outOfDomain else return .finite (Rat.sqrt x)
    | .infinite true => throw .outOfDomain
    | a => return a
  logTwo
    | .finite x => if x ≤ 0 then throw .outOfDomain else return .finite (Int.log 2 x)
    | .infinite true => throw .outOfDomain
    | a => return a
  nearest := Extended.toWhole Extended.nearestWhole
  ceiling := Extended.toWhole Int.ceil

end Rounding

end MixedInteger
