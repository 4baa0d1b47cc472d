/-
**Powers of two near a number.**

Scale factors are powers of two, by which multiplication is exact.  They are found through the binary
logarithm, rounded to the nearest whole number, a half to the even one, or up.

Main definitions:

* `MixedInteger.Roots` — carriers with square roots, binary logarithms and powers of two;
* `MixedInteger.nearestPower`, `MixedInteger.nextPower` — the power of two at the nearest and at the
  next whole logarithm;
* `MixedInteger.nicePower` — the next one for numbers below one, else the nearest.
-/

import MixedInteger.Fault
import MixedInteger.Scalar.Number

set_option autoImplicit false

namespace MixedInteger

/-- A carrier with square roots, binary logarithms and powers of two, some of which may be missing
or out of range. -/
class Roots (α : Type) where
  /-- The square root. -/
  root : α → Except (NumberFault α) α
  /-- The binary logarithm. -/
  logTwo : α → Except (NumberFault α) α
  /-- The nearest whole number, a half to the even one. -/
  nearest : α → Except (NumberFault α) Int
  /-- The least whole number that is not below. -/
  ceiling : α → Except (NumberFault α) Int
  /-- The power of two. -/
  powerOfTwo : Int → Except (NumberFault α) α

variable {α : Type} [Roots α]

/-- The power of two whose logarithm is nearest. -/
def nearestPower (a : α) : Except (NumberFault α) α := do
  Roots.powerOfTwo (← Roots.nearest (← Roots.logTwo a))

/-- The least power of two that is not below. -/
def nextPower (a : α) : Except (NumberFault α) α := do
  Roots.powerOfTwo (← Roots.ceiling (← Roots.logTwo a))

/-- The next power of two for a number below one, else the nearest. -/
def nicePower [Scalar α] (a : α) : Except (NumberFault α) α := do
  if a ≤ 0 then throw (.notPositive a)
  if (← Roots.logTwo a) < 0 then nextPower a else nearestPower a

/-- A nice power is a power of two. -/
theorem exists_powerOfTwo_of_nicePower [Scalar α] {a b : α} (h : nicePower a = .ok b) :
    ∃ n, Roots.powerOfTwo n = .ok b := by
  unfold nicePower at h
  split at h
  · cases h
  · obtain ⟨l, -, h⟩ := exists_of_bind_eq_ok h
    split at h
    · obtain ⟨l, -, h⟩ := exists_of_bind_eq_ok h
      obtain ⟨n, -, h⟩ := exists_of_bind_eq_ok h
      exact ⟨n, h⟩
    · obtain ⟨l, -, h⟩ := exists_of_bind_eq_ok h
      obtain ⟨n, -, h⟩ := exists_of_bind_eq_ok h
      exact ⟨n, h⟩

/-! ### Doubles -/

/-- A whole number made from a double, which has none if it is infinite or not a number. -/
def wholeOf (x : Float) (rounded : Option Int) : Except (NumberFault Float) Int :=
  match rounded with
  | some n => return n
  | none => if x.isInf then throw .overflow else throw .outOfDomain

instance : Roots Float where
  root x := if x < 0 then throw .outOfDomain else return x.sqrt
  logTwo x := if x ≤ 0 then throw .outOfDomain else return x.log2
  nearest x := wholeOf x (Binary64.ofFloat x).nearest?
  ceiling x := wholeOf x (Binary64.ofFloat x).ceil?
  powerOfTwo n := if 1024 ≤ n then throw .overflow else return Binary64.ofScaled false 1 (max n (-1100))

/-! ### Whole numbers and doubles -/

/-- A result of doubles as one of numbers. -/
def ofDoubles {β : Type} (x : Except (NumberFault Float) β) : Except (NumberFault Number) β :=
  x.mapError fun e => e.map .real

/-- The double of a number, or that it has none. -/
def doubleOf (a : Number) : Except (NumberFault Number) Float :=
  match a.float? with
  | some x => return x
  | none => throw .overflow

instance : Roots Number where
  root a := do return .real (← ofDoubles (Roots.root (← doubleOf a)))
  logTwo a := do return .real (← ofDoubles (Roots.logTwo (← doubleOf a)))
  nearest a := do ofDoubles (Roots.nearest (← doubleOf a))
  ceiling a := do ofDoubles (Roots.ceiling (← doubleOf a))
  powerOfTwo n := do return .real (← ofDoubles (Roots.powerOfTwo n))

end MixedInteger
