/-
**The divisor is the best centre.**

On a logarithmic scale, dividing a range together with one moves its two ends by the same amount.  The
sum of the squares of their distances from one is least where one lies half-way between them, and
nowhere else.  That is what the divisor does, whichever of its three branches computes it, so no other
divisor leaves the ends as near to one.

Main definitions:

* `MixedInteger.Constraint.imbalance` — how far the ends of a range are from one;
* `MixedInteger.Constraint.imbalanceAfter` — the same for a range together with one, divided by a number.

Main results:

* `MixedInteger.Constraint.centredRange_finite` — the range that scaling works with;
* `MixedInteger.Constraint.imbalanceAfter_eq_add` — what another divisor than the centre costs;
* `MixedInteger.Constraint.divisor_is_the_best_centre` — **the divisor is the only one at which the
  imbalance is least**.
-/

import MixedInteger.Proofs.Centring
import MixedInteger.Proofs.Reach

set_option autoImplicit false

namespace MixedInteger

open Extended

namespace Constraint

/-! ### The imbalance of a range -/

/-- How far the ends of a range are from one: the squares of their logarithms together. -/
noncomputable def imbalance (low high : ℝ) : ℝ := Real.log low ^ 2 + Real.log high ^ 2

/-- The imbalance of the range from `m` to `M` together with one, divided by `d`. -/
noncomputable def imbalanceAfter (m M d : ℝ) : ℝ :=
  imbalance (min (1 / d) (m / d)) (max (1 / d) (M / d))

/-- The range together with one, divided by a positive number. -/
theorem centredRange_finite (m M : ℝ) {d : ℝ} (hd : 0 < d) :
    centredRange (finite m) (finite M) (finite d) =
      .ok (finite (min (1 / d) (m / d)), finite (max (1 / d) (M / d))) := by
  have hunit : Expression.quotient (1 : Extended ℝ) (finite d) = .ok (finite (1 / d)) :=
    quotient_finite 1 hd
  rw [← smaller_finite, ← larger_finite]
  unfold centredRange
  rw [hunit, quotient_finite M hd, quotient_finite m hd]
  rfl

variable {m M d : ℝ}

/-- A divisor moves both ends on the logarithmic scale. -/
theorem imbalanceAfter_eq (hm : 0 < m) (hd : 0 < d) :
    imbalanceAfter m M d =
      (Real.log (min 1 m) - Real.log d) ^ 2 + (Real.log (max 1 M) - Real.log d) ^ 2 := by
  have hlow : min 1 m ≠ 0 := (lt_min one_pos hm).ne'
  have hhigh : max 1 M ≠ 0 := (one_pos.trans_le (le_max_left 1 M)).ne'
  unfold imbalanceAfter imbalance
  rw [min_div_div_right hd.le, max_div_div_right hd.le, Real.log_div hlow hd.ne',
    Real.log_div hhigh hd.ne']

/-- The geometric mean lies half-way on the logarithmic scale. -/
theorem log_of_sq_eq (hm : 0 < m) (hsq : d ^ 2 = min 1 m * max 1 M) :
    2 * Real.log d = Real.log (min 1 m) + Real.log (max 1 M) := by
  have hlow : min 1 m ≠ 0 := (lt_min one_pos hm).ne'
  have hhigh : max 1 M ≠ 0 := (one_pos.trans_le (le_max_left 1 M)).ne'
  have hpow : Real.log (d ^ 2) = 2 * Real.log d := by
    rw [Real.log_pow]
    norm_num
  rw [← hpow, hsq, Real.log_mul hlow hhigh]

/-- **What another divisor than the centre costs**: twice the square of its distance from it. -/
theorem imbalanceAfter_eq_add {d' : ℝ} (hm : 0 < m) (hd : 0 < d) (hd' : 0 < d')
    (hsq : d ^ 2 = min 1 m * max 1 M) :
    imbalanceAfter m M d' = imbalanceAfter m M d + 2 * (Real.log d' - Real.log d) ^ 2 := by
  have hhalf := log_of_sq_eq hm hsq
  rw [imbalanceAfter_eq hm hd, imbalanceAfter_eq hm hd']
  linear_combination 2 * (Real.log d' - Real.log d) * hhalf

/-! ### The divisor -/

/-- **The divisor is the best centre.**  It is the geometric mean of the least and the greatest of the
range and one.  Of all positive numbers it leaves the range together with one the least imbalance, and
any other leaves more. -/
theorem divisor_is_the_best_centre (hm : 0 < m) (hle : m ≤ M) :
    ∃ d : ℝ, 0 < d ∧ divisor (finite m) (finite M) = .ok (finite d) ∧
      d ^ 2 = min 1 m * max 1 M ∧
      ∀ d' : ℝ, 0 < d' →
        centredRange (finite m) (finite M) (finite d') =
          .ok (finite (min (1 / d') (m / d')), finite (max (1 / d') (M / d'))) ∧
        imbalanceAfter m M d ≤ imbalanceAfter m M d' ∧
        (imbalanceAfter m M d = imbalanceAfter m M d' → d' = d) := by
  obtain ⟨d, hd, hdivisor, hsq⟩ := sq_of_divisor hm hle
  refine ⟨d, hd, hdivisor, hsq, fun d' hd' => ?_⟩
  have hcost := imbalanceAfter_eq_add (M := M) hm hd hd' hsq
  refine ⟨centredRange_finite m M hd', ?_, fun heq => ?_⟩
  · rw [hcost]
    exact le_add_of_nonneg_right (by positivity)
  · have hsquare : (Real.log d' - Real.log d) ^ 2 = 0 := by linarith
    exact Real.log_injOn_pos hd' hd (sub_eq_zero.1 (sq_eq_zero_iff.1 hsquare))

/-- Amplitudes from a fourth to sixty-four are best divided by four. -/
theorem divisor_is_the_best_centre_four :
    divisor (finite (1 / 4)) (finite 64) = .ok (finite (4 : ℝ)) ∧
      ∀ d : ℝ, 0 < d → d ≠ 4 → imbalanceAfter (1 / 4) 64 4 < imbalanceAfter (1 / 4) 64 d := by
  obtain ⟨d, hd, hdivisor, hsq, hbest⟩ :=
    divisor_is_the_best_centre (m := 1 / 4) (M := 64) (by norm_num) (by norm_num)
  have hfour : d ^ 2 = 4 ^ 2 := by
    rw [hsq]
    norm_num
  obtain rfl : d = 4 := (pow_left_inj₀ hd.le (by norm_num) two_ne_zero).1 hfour
  refine ⟨hdivisor, fun d' hd' hne => ?_⟩
  obtain ⟨-, hle, hunique⟩ := hbest d' hd'
  exact lt_of_le_of_ne hle fun h => hne (hunique h)

end Constraint

end MixedInteger
