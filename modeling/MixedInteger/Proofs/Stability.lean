/-
**Scaling settles at once.**

The power of two by which a constraint is multiplied depends on the logarithms of the two ends of its
range alone.  If one lies within the range, it lies within the multiple again, or the range is so narrow
that it has come to lie above one by less than a factor of four; it never comes to lie below one, since
what is rounded up is not rounded down later.  In each case the exponent that is found the second time is
zero.  So a constraint that is scaled twice with the same thresholds is scaled once, whatever the
thresholds are and whether or not the first multiple is accepted by them.

Main definitions:

* `MixedInteger.Constraint.centringExponent` — the exponent of the factor, by the logarithms of the range;
* `MixedInteger.Constraint.scaled` — what scaling returns, which may be the constraint itself.

Main results:

* `MixedInteger.niceExponent_eq_zero` — a number that is near enough to one is left alone;
* `MixedInteger.Constraint.centringExponent_again` — the second exponent is zero;
* `MixedInteger.Constraint.outcome_rescale` — what scaling makes of a constraint, by its range;
* `MixedInteger.Constraint.scaled_once_for_all` — **scaling a second time changes nothing**.
-/

import MixedInteger.Proofs.Centring
import MixedInteger.Proofs.Reach

set_option autoImplicit false

namespace MixedInteger

open Extended

/-! ### Multiples by one -/

section One

variable {K : Type} [Field K] [LinearOrder K] [FloorRing K]

theorem Extended.mul_finite_one (a : Extended K) : a * finite 1 = a := by
  cases a with
  | finite x => rw [finite_mul, mul_one]
  | infinite n => exact infinite_mul_finite n one_pos
  | undefined => rfl

theorem Expression.map_mul_one (e : Expression (Extended K)) :
    e.map (· * finite 1) = e := by
  have hone : (fun a : Extended K => a * finite 1) = id := funext Extended.mul_finite_one
  rw [hone]
  simp [Expression.map, Coefficients.map]

end One

/-! ### Exponents -/

theorem le_niceExponent {l : ℝ} (hl : l < 0) : l ≤ niceExponent l := by
  rw [niceExponent, if_pos hl]
  exact Int.le_ceil l

theorem niceExponent_nonneg {l : ℝ} (hl : 0 ≤ l) : 0 ≤ niceExponent l := by
  have hnear := (niceExponent_near l).1
  have hlow : ((-1 : ℤ) : ℝ) < niceExponent l := by
    push_cast
    linarith
  have hlow' : -1 < niceExponent l := Int.cast_lt.1 hlow
  omega

/-- A number that is near enough to one is left alone: a half is rounded to the even side, which is zero. -/
theorem niceExponent_eq_zero {l : ℝ} (hlow : -1 < l) (hhigh : l ≤ 1 / 2) : niceExponent l = 0 := by
  unfold niceExponent
  split
  · next hneg => exact Int.ceil_eq_zero_iff.2 ⟨hlow, hneg.le⟩
  · next hneg =>
      have hfloor : ⌊l⌋ = 0 := Int.floor_eq_zero_iff.2 ⟨not_lt.1 hneg, by linarith⟩
      have hfract : Int.fract l = l := by
        rw [Int.fract, hfloor, Int.cast_zero, sub_zero]
      unfold nearestWhole
      rw [hfloor, hfract, if_neg hhigh.not_gt]
      simp

namespace Constraint

/-- The exponent of the power of two by which a constraint is multiplied, by the logarithms of the least
and the greatest of its amplitudes. -/
noncomputable def centringExponent (μ ν : ℝ) : ℤ :=
  niceExponent (-((min 0 μ + max 0 ν) / (2 : ℕ)))

/-- **The second exponent is zero**, if one lies within the range. -/
theorem centringExponent_again {μ ν : ℝ} (hμ : μ ≤ 0) (hν : 0 < ν) :
    centringExponent (μ + centringExponent μ ν) (ν + centringExponent μ ν) = 0 := by
  have hn : centringExponent μ ν = niceExponent (-((μ + ν) / 2)) := by
    rw [centringExponent, Nat.cast_ofNat, min_eq_right hμ, max_eq_right hν.le]
  rw [hn]
  obtain ⟨hbelow, habove⟩ := niceExponent_near (-((μ + ν) / 2))
  rcases le_total (ν + niceExponent (-((μ + ν) / 2))) 0 with hhigh | hhigh
  · -- below one the range cannot come to lie: the exponent would be negative, hence rounded up
    exfalso
    have hlow : -((μ + ν) / 2) < 0 := by
      by_contra hnot
      have hnonneg : (0 : ℝ) ≤ niceExponent (-((μ + ν) / 2)) :=
        Int.cast_nonneg (niceExponent_nonneg (not_lt.1 hnot))
      linarith
    linarith [le_niceExponent hlow]
  · rcases le_total (μ + niceExponent (-((μ + ν) / 2))) 0 with hlow | hlow
    · -- one lies within the range again, and its centre is near one
      rw [centringExponent, Nat.cast_ofNat, min_eq_right hlow, max_eq_right hhigh]
      apply niceExponent_eq_zero
      · linarith
      · linarith
    · -- above one the range is too narrow to matter
      rw [centringExponent, Nat.cast_ofNat, min_eq_left hlow, max_eq_right hhigh]
      apply niceExponent_eq_zero
      · linarith
      · linarith

/-- The logarithms of a range, moved by the exponent of a factor. -/
theorem logb_zpow_mul (n : ℤ) {x : ℝ} (hx : 0 < x) :
    Real.logb 2 (2 ^ n * x) = Real.logb 2 x + n := by
  rw [Real.logb_mul (zpow_pos two_pos n).ne' hx.ne', ← Real.rpow_intCast,
    Real.logb_rpow two_pos (by norm_num), add_comm]

/-- The exponent by the divisor is the one by the range. -/
theorem niceExponent_of_sq_eq {m M d : ℝ} (hm : 0 < m) (hle : m ≤ M)
    (hsq : d ^ 2 = min 1 m * max 1 M) :
    niceExponent (Real.logb 2 (1 / d)) = centringExponent (Real.logb 2 m) (Real.logb 2 M) := by
  have hmono : MonotoneOn (Real.logb 2) (Set.Ioi 0) :=
    (Real.strictMonoOn_logb one_lt_two).monotoneOn
  have hone : (1 : ℝ) ∈ Set.Ioi 0 := Set.mem_Ioi.2 one_pos
  have hmin : Real.logb 2 (min 1 m) = min 0 (Real.logb 2 m) := by
    rw [hmono.map_min hone hm, Real.logb_one]
  have hmax : Real.logb 2 (max 1 M) = max 0 (Real.logb 2 M) := by
    rw [hmono.map_max hone (hm.trans_le hle), Real.logb_one]
  have hlog : 2 * Real.logb 2 d = min 0 (Real.logb 2 m) + max 0 (Real.logb 2 M) := by
    have hpow : Real.logb 2 (d ^ 2) = 2 * Real.logb 2 d := by
      rw [Real.logb_pow]
      norm_num
    rw [← hpow, hsq, Real.logb_mul (lt_min one_pos hm).ne'
      (one_pos.trans_le (le_max_left 1 M)).ne', hmin, hmax]
  rw [centringExponent, Nat.cast_ofNat, one_div, Real.logb_inv, ← hlog]
  congr 1
  ring

/-! ### Scaling twice -/

/-- What scaling returns: the constraint itself where it is left alone. -/
def scaled {α : Type} [Scalar α] [Roots α] (env : Environment α) (t : Thresholds α)
    (c : Constraint α) : Except (Fault α) (Constraint α) :=
  (c.rescale env t).outcome.map (·.getD c)

variable {env : Environment (Extended ℝ)} {t : Thresholds (Extended ℝ)}
  {c : Constraint (Extended ℝ)} {m M : ℝ}

/-- **What scaling makes of a constraint, by its range**: it is accepted, or multiplied by the power of two
whose exponent the range tells. -/
theorem outcome_rescale (hc : c.IsFinite) (hinf : c.expression.infinity env = infinite false)
    (hkept : c.mustBeViolated env = false) (hm : 0 < m) (hle : m ≤ M)
    (hrange : c.expression.amplitudeRange env t.ignoreInfinite = (finite m, finite M)) :
    (c.rescale env t).outcome =
      if t.skipLower ≤ finite m ∧ finite M ≤ t.skipUpper then .ok none
      else .ok (some ⟨c.relation, c.expression.map
        (· * finite (2 ^ centringExponent (Real.logb 2 m) (Real.logb 2 M))), c.name⟩) := by
  have hbounded : ¬ (c.expression.infinity env ≤ finite m ∨
      c.expression.infinity env ≤ finite M) := by
    rw [hinf]
    simp
  split
  · next hskip =>
      unfold rescale
      dsimp only
      rw [hrange, if_neg hbounded]
      simp [hskip]
  · next hskip =>
      obtain ⟨d, -, hsq, h⟩ := rescale_eq hc hm hle hrange hbounded hskip hkept
      rw [h, niceExponent_of_sq_eq hm hle hsq]

/-- **Scaling a second time changes nothing.**  Take a constraint that the bounds do not violate, over a
store whose infinity is infinite, and let the range of its amplitudes contain one.  Scaling returns a
constraint, be it the same one, and scaling that with the same thresholds returns it once more, with
every coefficient and the constant as they are. -/
theorem scaled_once_for_all (hc : c.IsFinite) (hinf : c.expression.infinity env = infinite false)
    (hkept : c.mustBeViolated env = false) (hm : 0 < m) (hlow : m ≤ 1) (hhigh : 1 < M)
    (hrange : c.expression.amplitudeRange env t.ignoreInfinite = (finite m, finite M)) :
    ∃ c', c.scaled env t = .ok c' ∧ c'.scaled env t = .ok c' := by
  have hle : m ≤ M := hlow.trans hhigh.le
  have hM : 0 < M := hm.trans_le hle
  have hfirst := outcome_rescale (t := t) hc hinf hkept hm hle hrange
  by_cases hskip : t.skipLower ≤ finite m ∧ finite M ≤ t.skipUpper
  · -- accepted at once
    rw [if_pos hskip] at hfirst
    have hscaled : c.scaled env t = .ok c := by
      rw [scaled, hfirst]
      rfl
    exact ⟨c, hscaled, hscaled⟩
  · rw [if_neg hskip] at hfirst
    set n := centringExponent (Real.logb 2 m) (Real.logb 2 M) with hn
    have hpow : (0 : ℝ) < 2 ^ n := zpow_pos two_pos n
    let c' : Constraint (Extended ℝ) :=
      ⟨c.relation, c.expression.map (· * finite (2 ^ n)), c.name⟩
    refine ⟨c', by rw [scaled, hfirst]; rfl, ?_⟩
    -- the multiple is a constraint of the same kind, and its range is the multiple of the range
    have hscale : c.expression.scale (finite (2 ^ n)) = c'.expression :=
      Expression.scale_of_pos _ hpow
    have hc' : c'.IsFinite := by
      change c'.expression.IsFinite
      rw [← hscale]
      exact Expression.IsFinite.scale hc (isFinite_finite _)
    have hinf' : c'.expression.infinity env = infinite false :=
      (Expression.infinity_map _ _).trans hinf
    have hkept' : c'.mustBeViolated env = false := by
      have hsame : mustBeViolated env ⟨c.relation, c.expression.scale (finite (2 ^ n)), c.name⟩ =
          c.mustBeViolated env := mustBeViolated_scale hc hpow c.name
      rw [hscale] at hsame
      exact hsame.trans hkept
    have hrange' : c'.expression.amplitudeRange env t.ignoreInfinite =
        (finite (2 ^ n * m), finite (2 ^ n * M)) := by
      have hd : (c.expression.infinity env).IsDefined := by
        rw [hinf]
        exact (IsDefined.of_le (le_infinite_false isFinite_zero.isDefined)).2
      have hmap : c'.expression.amplitudeRange env t.ignoreInfinite =
          ((c.expression.amplitudeRange env t.ignoreInfinite).1 * finite (2 ^ n),
            (c.expression.amplitudeRange env t.ignoreInfinite).2 * finite (2 ^ n)) := by
        apply Expression.amplitudeRange_map hc hd _ _ hpow <;>
          rw [hrange, hinf] <;>
          simp
      rw [hmap, hrange, finite_mul, finite_mul, mul_comm m, mul_comm M]
    have hsecond := outcome_rescale (t := t) hc' hinf' hkept' (mul_pos hpow hm)
      (mul_le_mul_of_nonneg_left hle hpow.le) hrange'
    have hzero : centringExponent (Real.logb 2 (2 ^ n * m)) (Real.logb 2 (2 ^ n * M)) = 0 := by
      rw [logb_zpow_mul n hm, logb_zpow_mul n hM]
      exact centringExponent_again (Real.logb_nonpos one_lt_two hm.le hlow)
        (Real.logb_pos one_lt_two hhigh)
    rw [hzero, zpow_zero, Expression.map_mul_one] at hsecond
    rw [scaled, hsecond]
    split <;> rfl

/-- At most zero for `2 x - 1/16` with `x` from zero to one.  The exponent is half-way between one and two,
and the even one is taken; the range of the multiple by four is from a fourth to eight, which is not
accepted either, and whose exponent is half-way between minus one and zero. -/
theorem scaled_once_for_all_between_powers :
    let x : Variable := ⟨0, 0⟩
    let env : Environment (Extended ℝ) :=
      .alike .continuous (finite 0) (finite 1) (infinite false)
    let t : Thresholds (Extended ℝ) := ⟨finite 1, finite 1, false, finite 100⟩
    let e : Expression (Extended ℝ) := .affine (finite (-1 / 16)) (finite 2) x
    let c' : Constraint (Extended ℝ) := ⟨.atMost, e.map (· * finite (2 ^ (2 : ℤ))), none⟩
    scaled env t ⟨.atMost, e, none⟩ = .ok c' ∧ c'.scaled env t = .ok c' := by
  intro x env t e c'
  let c : Constraint (Extended ℝ) := ⟨.atMost, e, none⟩
  have hc : c.IsFinite := Expression.isFinite_affine _ _ _
  have hinf : c.expression.infinity env = infinite false := rfl
  have hkept : c.mustBeViolated env = false := by
    have hvars : ∀ v ∈ c.expression.vars, v = x := fun v hmem =>
      (Expression.mem_vars_affine _ _ _ v).1 hmem
    refine not_violated_of_holds (n := 0) (s := fun _ => 0) hc rfl ?_ ?_ ?_
    · intro v hmem
      rw [hvars v hmem]
    · intro v _
      exact ⟨le_refl (0 : ℝ), (zero_le_one : (0 : ℝ) ≤ 1)⟩
    · have hle : (-1 / 16 : ℝ) ≤ 0 := by norm_num
      simpa [Holds, c, e, Expression.affine, Expression.value] using hle
  have hreach : Expression.variableReach env (infinite false) x = finite 1 := by
    have hextend : ∀ y : ℝ, Expression.extend (infinite false) (finite y) = finite y := fun y => rfl
    change Scalar.larger (Scalar.magnitude (Expression.extend (infinite false) (finite 0)))
      (Scalar.magnitude (Expression.extend (infinite false) (finite 1))) = _
    rw [hextend, hextend, magnitude_finite, magnitude_finite]
    simp [Scalar.larger]
  have hamplitudes : e.amplitudes env (infinite false) false = [finite (1 / 16), finite 2] := by
    have hlinear : Expression.amplitude false (finite 2) (finite (1 : ℝ)) = finite 2 := by
      simp [Expression.amplitude, magnitude_finite]
    have hentries : e.linear.entries = [(x, finite 2)] := rfl
    have hquadratic : e.quadratic.entries = [] := rfl
    have hconstant : (e.constant == 0) = false := decide_eq_false (by norm_num)
    have hmagnitude : Scalar.magnitude e.constant = finite (1 / 16) := by
      change Scalar.magnitude (finite (-1 / 16 : ℝ)) = _
      rw [magnitude_finite, abs_of_neg (by norm_num)]
      norm_num
    have hlow : ((finite 16⁻¹ : Extended ℝ) == 0) = false := decide_eq_false (by norm_num)
    have hhigh : ((finite 2 : Extended ℝ) == 0) = false := decide_eq_false (by norm_num)
    unfold Expression.amplitudes
    simp [hconstant, hmagnitude, hentries, hquadratic, hreach, hlinear, hlow, hhigh]
  have hrange : e.amplitudeRange env false = (finite (1 / 16), finite 2) := by
    have hleast : Scalar.least (finite (1 / 16)) [finite (2 : ℝ)] = finite (1 / 16) := by
      rw [Scalar.least_cons, smaller_finite, min_eq_left (by norm_num)]
      rfl
    have hgreatest : Scalar.greatest (finite (1 / 16)) [finite (2 : ℝ)] = finite 2 := by
      rw [Scalar.greatest_cons, larger_finite, max_eq_right (by norm_num)]
      rfl
    unfold Expression.amplitudeRange
    dsimp only
    rw [hinf, hamplitudes]
    dsimp only
    rw [hleast, hgreatest]
    rfl
  have hexponent : centringExponent (Real.logb 2 (1 / 16)) (Real.logb 2 2) = 2 := by
    have hlow : Real.logb 2 (1 / 16) = -4 := by
      rw [show (1 / 16 : ℝ) = 2 ^ (-4 : ℝ) by norm_num]
      exact Real.logb_rpow two_pos (by norm_num)
    have hfloor : ⌊(3 / 2 : ℝ)⌋ = 1 := Int.floor_eq_iff.2 (by norm_num)
    have hnearest : niceExponent (3 / 2) = 2 := by
      unfold niceExponent nearestWhole
      rw [Int.fract, hfloor]
      norm_num
    rw [hlow, Real.logb_self_eq_one one_lt_two, centringExponent, Nat.cast_ofNat,
      show (-((min 0 (-4) + max 0 1) / 2) : ℝ) = 3 / 2 by norm_num]
    exact hnearest
  obtain ⟨d, hfirst, hsecond⟩ := scaled_once_for_all (c := c) (t := t) hc hinf hkept (by norm_num)
    (by norm_num) (by norm_num) hrange
  have hbeyond : ¬ (t.skipLower ≤ finite (1 / 16) ∧ finite 2 ≤ t.skipUpper) := fun h =>
    (finite_le_finite _ _).not.2 (by norm_num) h.2
  have houtcome := outcome_rescale (t := t) hc hinf hkept (by norm_num) (by norm_num) hrange
  rw [if_neg hbeyond, hexponent] at houtcome
  obtain rfl : d = c' := by
    rw [scaled, houtcome] at hfirst
    exact (Except.ok.inj hfirst).symm
  exact ⟨hfirst, hsecond⟩

end Constraint

end MixedInteger
