/-
**Scaling a constraint.**

A constraint whose amplitudes are far from one is multiplied by a power of two.  The divisor is the
geometric mean of the amplitude range together with one, which centres the range around one on a
logarithmic scale; its inverse is then snapped to a power of two, by which multiplication is exact.  A
constraint within the accepted range is left alone.

Main definitions:

* `MixedInteger.Thresholds` — the accepted range and when to give notice of a wide one;
* `MixedInteger.Notice` — remarks that modeling steps leave behind;
* `MixedInteger.Constraint.divisor` — the number whose inverse centres the range;
* `MixedInteger.Constraint.rescale` — the scaled constraint, if it needs scaling.

Main results:

* `MixedInteger.Constraint.eq_of_rescale` — scaling multiplies by a power of two.
-/

import MixedInteger.Constraint.Triviality
import MixedInteger.Expression.Amplitude
import MixedInteger.Expression.Product
import MixedInteger.Scalar.Powers

set_option autoImplicit false

namespace MixedInteger

/-- When a constraint is scaled, and when its spread is worth a remark. -/
structure Thresholds (α : Type) where
  /-- Amplitudes from here on are accepted. -/
  skipLower : α
  /-- Amplitudes up to here are accepted. -/
  skipUpper : α
  /-- A term with an infinite bound counts with its coefficient alone. -/
  ignoreInfinite : Bool
  /-- A quotient of amplitudes from here on is remarked upon. -/
  wideSpread : α

/-- Remarks that modeling steps leave behind. -/
inductive Notice (α : Type) where
  /-- The amplitudes of an expression differ widely. -/
  | wideSpread (limit : α) (e : Expression α) (low high : α)
  /-- A constraint was scaled. -/
  | scaled (before after : Constraint α)
  /-- An implication was replaced by so many constraints. -/
  | replaced (i : Implication α) (count : Nat)

/-- What scaling comes to: remarks, and a new constraint if there is one. -/
structure Rescaling (α : Type) where
  notices : List (Notice α)
  outcome : Except (Fault α) (Option (Constraint α))

variable {α : Type}

/-- A fault of a number function as a fault of a modeling step. -/
def liftNumber {β : Type} (x : Except (NumberFault α) β) : Except (Fault α) β :=
  x.mapError .number

theorem eq_ok_of_liftNumber {β : Type} {x : Except (NumberFault α) β} {b : β}
    (h : liftNumber x = .ok b) : x = .ok b := by
  cases x with
  | error f => cases h
  | ok a =>
      cases h
      rfl

namespace Constraint

variable [Scalar α] [Roots α]

/-- The number whose inverse centres the range from `low` to `high` together with one: the geometric
mean of the least and the greatest of the three. -/
def divisor (low high : α) : Except (NumberFault α) α :=
  if high ≤ 1 then Roots.root low
  else if low ≤ 1 then Roots.root (low * high)
  else Roots.root high

/-- The range from `low` to `high` together with one, divided by `c`. -/
def centredRange (low high c : α) : Except (Fault α) (α × α) := do
  let unit ← Expression.quotient 1 c
  let top ← Expression.quotient high c
  let bottom ← Expression.quotient low c
  return (Scalar.smaller unit bottom, Scalar.larger unit top)

/-- The divisor and the remarks for a constraint that is not to be left alone. -/
def plan (t : Thresholds α) (e : Expression α) (low high : α) :
    Except (Fault α) (α × List (Notice α)) := do
  let c ← liftNumber (divisor low high)
  let range ← centredRange low high c
  if t.ignoreInfinite then return (c, [])
  let spread ← Expression.quotient range.2 range.1
  if t.wideSpread ≤ spread then
    return (c, [.wideSpread t.wideSpread e range.1 range.2])
  return (c, [])

/-- The constraint times the power of two near the inverse of the divisor. -/
def applyDivisor (env : Environment α) (c : Constraint α) (d : α) :
    Except (Fault α) (Constraint α) := do
  let factor ← liftNumber (nicePower (← Expression.quotient 1 d))
  make env c.relation (c.expression.scale factor) c.name

/-- The scaled constraint, or none if it is accepted as it is.  A term with an infinite amplitude
cannot be scaled. -/
def rescale (env : Environment α) (t : Thresholds α) (c : Constraint α) : Rescaling α :=
  let e := c.expression
  let inf := e.infinity env
  let (low, high) := e.amplitudeRange env t.ignoreInfinite
  if inf ≤ low ∨ inf ≤ high then ⟨[], .error (.unboundedTerms c)⟩
  else if high == 0 || (decide (t.skipLower ≤ low) && decide (high ≤ t.skipUpper)) then
    ⟨[], .ok none⟩
  else
    match plan t e low high with
    | .error f => ⟨[], .error f⟩
    | .ok (d, notices) => ⟨notices, (applyDivisor env c d).map some⟩

theorem eq_of_applyDivisor {env : Environment α} {c c' : Constraint α} {d : α}
    (h : c.applyDivisor env d = .ok c') :
    ∃ n a, Roots.powerOfTwo n = .ok a ∧ c' = ⟨c.relation, c.expression.scale a, c.name⟩ := by
  unfold applyDivisor at h
  obtain ⟨q, -, h⟩ := exists_of_bind_eq_ok h
  obtain ⟨a, ha, h⟩ := exists_of_bind_eq_ok h
  obtain ⟨n, hn⟩ := exists_powerOfTwo_of_nicePower (eq_ok_of_liftNumber ha)
  exact ⟨n, a, hn, ((make_eq_ok_iff env _ _ _ c').1 h).1⟩

/-- Scaling multiplies a constraint by a power of two, if it changes it at all. -/
theorem eq_of_rescale {env : Environment α} {t : Thresholds α} {c c' : Constraint α}
    (h : (c.rescale env t).outcome = .ok (some c')) :
    ∃ n a, Roots.powerOfTwo n = .ok a ∧ c' = ⟨c.relation, c.expression.scale a, c.name⟩ := by
  unfold rescale at h
  dsimp only at h
  split at h
  · cases h
  · split at h
    · cases h
    · split at h
      · cases h
      · next d notices hplan =>
          cases hd : applyDivisor env c d with
          | error f =>
              rw [hd] at h
              cases h
          | ok c'' =>
              rw [hd] at h
              cases h
              exact eq_of_applyDivisor hd

end Constraint

end MixedInteger
