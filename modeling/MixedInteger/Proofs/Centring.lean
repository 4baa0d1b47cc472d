/-
**Scaling centres a constraint.**

A positive factor multiplies every amplitude of an expression, and so the least and the greatest of
them.  The divisor is the geometric mean of the least and the greatest of the range together with one;
where it applies, the three branches that compute it come to the same.  The power of two that is taken
for its inverse lies above it by less than a factor of two if that is below one, else within a factor of
the root of two.  What is scaled is therefore centred around one up to a factor between the half and
four, the product of the least and the greatest amplitude taken together with one.

Main results:

* `MixedInteger.Expression.amplitudeRange_map` — a positive factor multiplies the amplitude range;
* `MixedInteger.near_of_nicePower` — how far the power of two is from the number;
* `MixedInteger.Constraint.sq_of_divisor` — **the divisor** is a geometric mean;
* `MixedInteger.Constraint.rescale_eq` — what scaling makes of a constraint;
* `MixedInteger.Constraint.centred_of_rescale` — **scaling preserves a constraint and centres it**.
-/

import MixedInteger.Proofs.Decision
import MixedInteger.Proofs.Posting
import MixedInteger.Proofs.Remaking

set_option autoImplicit false

namespace MixedInteger

variable {K : Type} [Field K] [LinearOrder K] [FloorRing K]

open Extended

/-! ### Multiples of positive values -/

namespace Extended

variable [IsStrictOrderedRing K] {x : K}

/-- A positive factor keeps the order. -/
theorem mul_finite_lt_mul_finite_iff (a b : Extended K) (hx : 0 < x) :
    a * finite x < b * finite x ↔ a < b := by
  cases a with
  | undefined => exact iff_of_false (not_undefined_lt _) (not_undefined_lt _)
  | finite y =>
      cases b with
      | undefined => exact Iff.rfl
      | finite z => exact mul_lt_mul_iff_of_pos_right hx
      | infinite n => rw [infinite_mul_finite n hx]; rfl
  | infinite m =>
      rw [infinite_mul_finite m hx]
      cases b with
      | undefined => exact Iff.rfl
      | finite z => rfl
      | infinite n => rw [infinite_mul_finite n hx]

theorem smaller_mul_finite (a b : Extended K) (hx : 0 < x) :
    Scalar.smaller (a * finite x) (b * finite x) = Scalar.smaller a b * finite x := by
  simp only [Scalar.smaller, mul_finite_lt_mul_finite_iff b a hx]
  split <;> rfl

theorem larger_mul_finite (a b : Extended K) (hx : 0 < x) :
    Scalar.larger (a * finite x) (b * finite x) = Scalar.larger a b * finite x := by
  simp only [Scalar.larger, mul_finite_lt_mul_finite_iff a b hx]
  split <;> rfl

/-- So it multiplies the least value of a list, -/
theorem least_mul_finite (a : Extended K) (rest : List (Extended K)) (hx : 0 < x) :
    Scalar.least (a * finite x) (rest.map (· * finite x)) = Scalar.least a rest * finite x := by
  induction rest generalizing a with
  | nil => rfl
  | cons b rest ih =>
      rw [List.map_cons, Scalar.least_cons, smaller_mul_finite a b hx, ih, Scalar.least_cons]

/-- and the greatest one. -/
theorem greatest_mul_finite (a : Extended K) (rest : List (Extended K)) (hx : 0 < x) :
    Scalar.greatest (a * finite x) (rest.map (· * finite x)) =
      Scalar.greatest a rest * finite x := by
  induction rest generalizing a with
  | nil => rfl
  | cons b rest ih =>
      rw [List.map_cons, Scalar.greatest_cons, larger_mul_finite a b hx, ih, Scalar.greatest_cons]

omit [IsStrictOrderedRing K] in
/-- A positive factor makes nothing infinite, -/
theorem isInfinite_mul_finite (a : Extended K) (hx : 0 < x) :
    Scalar.isInfinite (a * finite x) = Scalar.isInfinite a := by
  cases a with
  | finite y => rfl
  | infinite n => rw [infinite_mul_finite n hx]
  | undefined => rfl

/-- and nothing zero. -/
theorem mul_finite_beq_zero (a : Extended K) (hx : 0 < x) : (a * finite x == 0) = (a == 0) := by
  cases a with
  | finite y =>
      rw [finite_mul, zero_eq, finite_beq, finite_beq]
      exact decide_eq_decide.2 (mul_eq_zero_iff_right hx.ne')
  | infinite n => rw [infinite_mul_finite n hx]
  | undefined => rfl

end Extended

/-! ### Amplitudes of a multiple -/

namespace Expression

variable [IsStrictOrderedRing K] {env : Environment (Extended K)} {e : Expression (Extended K)}
  {ignoreInfinite : Bool} {x : K}

/-- A factor of a coefficient multiplies the amplitude of its term. -/
theorem amplitude_mul_finite {c : Extended K} (hc : c.IsFinite) (reach : Extended K) (hx : x ≠ 0) :
    amplitude ignoreInfinite (c * finite x) reach =
      amplitude ignoreInfinite c reach * finite |x| := by
  have hmagnitude : Scalar.magnitude (c * finite x) = Scalar.magnitude c * finite |x| := by
    rw [hc.eq_finite, finite_mul, magnitude_finite, magnitude_finite, abs_mul, finite_mul]
  unfold amplitude
  rw [hmagnitude, hc.eq_finite, magnitude_finite]
  split
  · split
    · rfl
    · exact (infinite_mul_finite false (abs_pos.2 hx)).symm
  · next hreach =>
      cases reach with
      | finite y => simp only [finite_mul, mul_right_comm]
      | infinite n => exact absurd rfl hreach
      | undefined => rfl

/-- A factor other than zero multiplies the amplitudes of an expression. -/
theorem amplitudes_map (he : e.IsFinite) (inf : Extended K) (hx : x ≠ 0) :
    (e.map (· * finite x)).amplitudes env inf ignoreInfinite =
      (e.amplitudes env inf ignoreInfinite).map (· * finite |x|) := by
  have hzero : ((e.constant * finite x : Extended K) == 0) = (e.constant == 0) := by
    rw [he.constant.eq_finite, finite_mul, zero_eq, finite_beq, finite_beq]
    exact decide_eq_decide.2 (mul_eq_zero_iff_right hx)
  have hconstant : (if (e.map (· * finite x)).constant == 0 then []
        else [Scalar.magnitude (e.map (· * finite x)).constant]) =
      (if e.constant == 0 then [] else [Scalar.magnitude e.constant]).map (· * finite |x|) := by
    change (if e.constant * finite x == 0 then [] else [Scalar.magnitude (e.constant * finite x)]) = _
    rw [hzero, he.constant.eq_finite, finite_mul, magnitude_finite, magnitude_finite, abs_mul]
    split <;> rfl
  have hlinear : ((e.map (· * finite x)).linear.entries.map fun t =>
        amplitude ignoreInfinite t.2 (variableReach env inf t.1)) =
      (e.linear.entries.map fun t =>
        amplitude ignoreInfinite t.2 (variableReach env inf t.1)).map (· * finite |x|) := by
    simp only [map, Coefficients.map, List.map_map]
    exact List.map_congr_left fun t ht => amplitude_mul_finite (he.linear t ht) _ hx
  have hquadratic : ((e.map (· * finite x)).quadratic.entries.map fun t =>
        amplitude ignoreInfinite t.2 (pairReach env inf t.1)) =
      (e.quadratic.entries.map fun t =>
        amplitude ignoreInfinite t.2 (pairReach env inf t.1)).map (· * finite |x|) := by
    simp only [map, Coefficients.map, List.map_map]
    exact List.map_congr_left fun t ht => amplitude_mul_finite (he.quadratic t ht) _ hx
  -- amplitudes that are zero are left out, and the factor makes none of those
  unfold amplitudes
  dsimp only
  rw [hconstant, hlinear, hquadratic, ← List.map_append, ← List.map_append, List.filter_map]
  congr 1
  refine List.filter_congr fun a _ => ?_
  rw [Function.comp_apply, mul_finite_beq_zero a (abs_pos.2 hx)]

omit [IsStrictOrderedRing K] in
/-- A range below the infinity of the store consists of amplitudes. -/
theorem amplitudeRange_of_amplitudes {a : Extended K} {rest : List (Extended K)}
    (hd : (e.infinity env).IsDefined)
    (h : e.amplitudes env (e.infinity env) ignoreInfinite = a :: rest)
    (hlow : ¬ e.infinity env ≤ (e.amplitudeRange env ignoreInfinite).1)
    (hhigh : ¬ e.infinity env ≤ (e.amplitudeRange env ignoreInfinite).2) :
    Scalar.isInfinite (Scalar.least a rest) = false ∧
      Scalar.isInfinite (Scalar.greatest a rest) = false ∧
      e.amplitudeRange env ignoreInfinite = (Scalar.least a rest, Scalar.greatest a rest) := by
  have hrange : e.amplitudeRange env ignoreInfinite =
      (if Scalar.isInfinite (Scalar.least a rest) then e.infinity env else Scalar.least a rest,
        if Scalar.isInfinite (Scalar.greatest a rest) then e.infinity env
        else Scalar.greatest a rest) := by
    unfold amplitudeRange
    dsimp only
    rw [h]
  rw [hrange] at hlow hhigh
  have hfinite : ∀ b : Extended K,
      ¬ e.infinity env ≤ (if Scalar.isInfinite b then e.infinity env else b) →
      Scalar.isInfinite b = false := by
    intro b hb
    rw [Bool.eq_false_iff]
    intro hinfinite
    rw [if_pos hinfinite] at hb
    exact hb hd.le_refl
  have hl := hfinite _ hlow
  have hh := hfinite _ hhigh
  refine ⟨hl, hh, ?_⟩
  rw [hrange, hl, hh]
  rfl

/-- **A positive factor multiplies the amplitude range**, if that is below the infinity of the store. -/
theorem amplitudeRange_map (he : e.IsFinite) (hd : (e.infinity env).IsDefined)
    (hlow : ¬ e.infinity env ≤ (e.amplitudeRange env ignoreInfinite).1)
    (hhigh : ¬ e.infinity env ≤ (e.amplitudeRange env ignoreInfinite).2) (hx : 0 < x) :
    (e.map (· * finite x)).amplitudeRange env ignoreInfinite =
      ((e.amplitudeRange env ignoreInfinite).1 * finite x,
        (e.amplitudeRange env ignoreInfinite).2 * finite x) := by
  have hmap : (e.map (· * finite x)).amplitudes env (e.infinity env) ignoreInfinite =
      (e.amplitudes env (e.infinity env) ignoreInfinite).map (· * finite x) := by
    rw [amplitudes_map he _ hx.ne', abs_of_pos hx]
  cases h : e.amplitudes env (e.infinity env) ignoreInfinite with
  | nil =>
      rw [h] at hmap
      have hzero : (0 : Extended K) * finite x = 0 := by simp [zero_eq]
      unfold amplitudeRange
      dsimp only
      rw [infinity_map, hmap, h, List.map_nil, hzero]
  | cons a rest =>
      obtain ⟨hl, hh, hrange⟩ := amplitudeRange_of_amplitudes hd h hlow hhigh
      rw [h, List.map_cons] at hmap
      rw [hrange]
      unfold amplitudeRange
      dsimp only
      rw [infinity_map, hmap]
      dsimp only
      rw [least_mul_finite a rest hx, greatest_mul_finite a rest hx, isInfinite_mul_finite _ hx,
        isInfinite_mul_finite _ hx, hl, hh]
      rfl

/-- Unless there are none, the least and the greatest amplitude are positive numbers in order. -/
theorem exists_amplitudeRange (he : e.IsFinite) (hv : ∀ v ∈ e.vars, env.Compares v)
    (hd : (e.infinity env).IsDefined)
    (hlow : ¬ e.infinity env ≤ (e.amplitudeRange env ignoreInfinite).1)
    (hhigh : ¬ e.infinity env ≤ (e.amplitudeRange env ignoreInfinite).2)
    (hne : ((e.amplitudeRange env ignoreInfinite).2 == 0) = false) :
    ∃ m M, 0 < m ∧ m ≤ M ∧ e.amplitudeRange env ignoreInfinite = (finite m, finite M) := by
  cases h : e.amplitudes env (e.infinity env) ignoreInfinite with
  | nil =>
      have hzero : e.amplitudeRange env ignoreInfinite = (0, 0) := by
        unfold amplitudeRange
        dsimp only
        rw [h]
      rw [hzero] at hne
      exact absurd rfl (of_decide_eq_false hne)
  | cons a rest =>
      have hpos : ∀ b ∈ a :: rest, 0 < b := fun b hb =>
        zero_lt_of_mem_amplitudes he hv (h ▸ hb)
      have hdefined : ∀ b ∈ a :: rest, b.IsDefined := fun b hb =>
        (IsDefined.of_le (Extended.le_of_lt (hpos b hb))).2
      obtain ⟨hl, hh, hrange⟩ := amplitudeRange_of_amplitudes hd h hlow hhigh
      have hleast := hpos _ (least_mem a rest)
      have hgreatest := hpos _ (greatest_mem a rest)
      have hle : Scalar.least a rest ≤ Scalar.greatest a rest :=
        Extended.le_trans (least_le hdefined List.mem_cons_self)
          (le_greatest hdefined List.mem_cons_self)
      obtain ⟨m, -, hm⟩ := exists_eq_finite (Extended.le_of_lt hleast) hl
      obtain ⟨M, -, hM⟩ := exists_eq_finite (Extended.le_of_lt hgreatest) hh
      rw [hm, hM] at hle hrange
      rw [hm] at hleast
      exact ⟨m, M, hleast, hle, hrange⟩

end Expression

/-! ### Powers of two near a number -/

/-- A power of two differs from a number as its exponent from the logarithm. -/
theorem zpow_div_eq_rpow (n : ℤ) {x : ℝ} (hx : 0 < x) :
    ((2 : ℝ) ^ n / x) ^ 2 = 2 ^ (2 * ((n : ℝ) - Real.logb 2 x)) := by
  have hlog : (2 : ℝ) ^ Real.logb 2 x = x := Real.rpow_logb two_pos (by norm_num) hx
  have hratio : (2 : ℝ) ^ ((n : ℝ) - Real.logb 2 x) = 2 ^ n / x := by
    rw [Real.rpow_sub two_pos, hlog, Real.rpow_intCast]
  rw [← hratio, mul_comm, Real.rpow_mul two_pos.le, Real.rpow_two]

/-- A power of two whose exponent is at most a half below the logarithm, and less than one above. -/
theorem near_of_logb {n : ℤ} {x : ℝ} (hx : 0 < x) (hlow : -(1 / 2) ≤ (n : ℝ) - Real.logb 2 x)
    (hhigh : (n : ℝ) - Real.logb 2 x < 1) :
    1 / 2 ≤ ((2 : ℝ) ^ n / x) ^ 2 ∧ ((2 : ℝ) ^ n / x) ^ 2 < 4 := by
  rw [zpow_div_eq_rpow n hx]
  constructor
  · calc (1 / 2 : ℝ) = 2 ^ (-1 : ℝ) := by rw [Real.rpow_neg_one, one_div]
      _ ≤ 2 ^ (2 * ((n : ℝ) - Real.logb 2 x)) :=
        Real.rpow_le_rpow_of_exponent_le one_le_two (by linarith)
  · calc (2 : ℝ) ^ (2 * ((n : ℝ) - Real.logb 2 x)) < 2 ^ (2 : ℝ) :=
        Real.rpow_lt_rpow_of_exponent_lt one_lt_two (by linarith)
      _ = 4 := by rw [Real.rpow_two]; norm_num

/-- The exponent of the nice power of two near a number, by the logarithm of that. -/
noncomputable def niceExponent (l : ℝ) : ℤ := if l < 0 then ⌈l⌉ else nearestWhole l

/-- It is at most a half below the logarithm, and less than one above. -/
theorem niceExponent_near (l : ℝ) :
    -(1 / 2) ≤ (niceExponent l : ℝ) - l ∧ (niceExponent l : ℝ) - l < 1 := by
  unfold niceExponent
  split
  · -- below one: the next whole logarithm
    have hlow := Int.le_ceil l
    have hhigh := Int.ceil_lt_add_one l
    constructor <;> linarith
  · -- from one on: the nearest
    have hnear := abs_le.1 (abs_sub_nearestWhole_le l)
    constructor <;> linarith [hnear.1, hnear.2]

/-- There is a nice power of two for every positive number. -/
theorem nicePower_finite {x : ℝ} (hx : 0 < x) :
    nicePower (finite x) = .ok (finite (2 ^ niceExponent (Real.logb 2 x))) := by
  have hlog : Roots.logTwo (finite x) = .ok (finite (Real.logb 2 x)) := by
    change (if x ≤ 0 then _ else _) = _
    rw [if_neg hx.not_ge]
    rfl
  have hpos : ¬ (finite x : Extended ℝ) ≤ 0 := not_le.2 hx
  have hsign : (finite (Real.logb 2 x) : Extended ℝ) < 0 ↔ Real.logb 2 x < 0 := Iff.rfl
  unfold nicePower nextPower nearestPower niceExponent
  simp only [hpos, if_false, hlog, bind, Except.bind, hsign]
  split <;> rfl

/-- **How far a nice power of two is from the number**: its square is at least half and less than four
times that of the number. -/
theorem near_of_nicePower {x : ℝ} (hx : 0 < x) :
    1 / 2 ≤ ((2 : ℝ) ^ niceExponent (Real.logb 2 x) / x) ^ 2 ∧
      ((2 : ℝ) ^ niceExponent (Real.logb 2 x) / x) ^ 2 < 4 :=
  near_of_logb hx (niceExponent_near _).1 (niceExponent_near _).2

namespace Constraint

/-! ### Scaling -/

variable {env : Environment (Extended ℝ)} {t : Thresholds (Extended ℝ)}
  {c c' : Constraint (Extended ℝ)}

/-- **The divisor** is the geometric mean of the least and the greatest of the range and one. -/
theorem sq_of_divisor {m M : ℝ} (hm : 0 < m) (hle : m ≤ M) :
    ∃ d, 0 < d ∧ divisor (finite m) (finite M) = .ok (finite d) ∧
      d ^ 2 = min 1 m * max 1 M := by
  have hM : 0 < M := hm.trans_le hle
  have hroot : ∀ y : ℝ, 0 < y → Roots.root (finite y) = .ok (finite √y) := by
    intro y hy
    change (if y < 0 then _ else _) = _
    rw [if_neg hy.not_gt]
    rfl
  unfold divisor
  by_cases hhigh : M ≤ 1
  · -- the range lies below one
    have hlow : m ≤ 1 := hle.trans hhigh
    refine ⟨√m, Real.sqrt_pos.2 hm, ?_, ?_⟩
    · exact (if_pos hhigh).trans (hroot m hm)
    · rw [Real.sq_sqrt hm.le, min_eq_right hlow, max_eq_left hhigh, mul_one]
  · by_cases hlow : m ≤ 1
    · -- it contains one
      refine ⟨√(m * M), Real.sqrt_pos.2 (mul_pos hm hM), ?_, ?_⟩
      · exact (if_neg hhigh).trans ((if_pos hlow).trans (hroot _ (mul_pos hm hM)))
      · rw [Real.sq_sqrt (mul_pos hm hM).le, min_eq_right hlow, max_eq_right (not_le.1 hhigh).le]
    · -- it lies above one
      refine ⟨√M, Real.sqrt_pos.2 hM, ?_, ?_⟩
      · exact (if_neg hhigh).trans ((if_neg hlow).trans (hroot M hM))
      · rw [Real.sq_sqrt hM.le, min_eq_left (not_le.1 hlow).le, max_eq_right (not_le.1 hhigh).le,
          one_mul]

/-- Scaling by a positive number makes the multiple by the nice power of two near its inverse. -/
theorem applyDivisor_finite (env : Environment (Extended ℝ)) (c : Constraint (Extended ℝ)) {d : ℝ}
    (hd : 0 < d) :
    c.applyDivisor env (finite d) =
      make env c.relation
        (c.expression.map (· * finite (2 ^ niceExponent (Real.logb 2 (1 / d))))) c.name := by
  have hunit : Expression.quotient (1 : Extended ℝ) (finite d) = .ok (finite (1 / d)) :=
    quotient_finite 1 hd
  rw [← Expression.scale_of_pos _ (zpow_pos two_pos _)]
  unfold applyDivisor
  rw [hunit]
  simp only [bind, Except.bind, nicePower_finite (one_div_pos.2 hd), liftNumber, Except.mapError]

/-- The factor by which a constraint is multiplied is near the inverse of the divisor. -/
theorem near_of_applyDivisor {d : ℝ} (hd : 0 < d) (h : c.applyDivisor env (finite d) = .ok c') :
    ∃ n : ℤ, c' = ⟨c.relation, c.expression.map (· * finite (2 ^ n)), c.name⟩ ∧
      1 / 2 ≤ ((2 : ℝ) ^ n * d) ^ 2 ∧ ((2 : ℝ) ^ n * d) ^ 2 < 4 := by
  have hnear := near_of_nicePower (one_div_pos.2 hd)
  simp only [div_div_eq_mul_div, div_one] at hnear
  rw [applyDivisor_finite env c hd] at h
  exact ⟨_, ((make_eq_ok_iff env _ _ _ c').1 h).1, hnear⟩

/-- The divisor of a plan is the one for the range. -/
theorem eq_of_plan {e : Expression (Extended ℝ)} {low high a : Extended ℝ} {d : ℝ}
    {notices : List (Notice (Extended ℝ))} (hd : divisor low high = .ok (finite d))
    (h : plan t e low high = .ok (a, notices)) : a = finite d := by
  unfold plan at h
  obtain ⟨c, hc, h⟩ := exists_of_bind_eq_ok h
  obtain rfl : c = finite d := Except.ok.inj ((eq_ok_of_liftNumber hc).symm.trans hd)
  obtain ⟨range, -, h⟩ := exists_of_bind_eq_ok h
  split at h
  · cases h
    rfl
  · obtain ⟨spread, -, h⟩ := exists_of_bind_eq_ok h
    split at h <;>
      · cases h
        rfl

/-- **What scaling makes**: a constraint whose range is a pair of positive numbers below the infinity of
the store that is not accepted is multiplied, if the bounds leave a way to satisfy it. -/
theorem rescale_eq (hc : c.IsFinite) {m M : ℝ} (hm : 0 < m) (hle : m ≤ M)
    (hrange : c.expression.amplitudeRange env t.ignoreInfinite = (finite m, finite M))
    (hbounded : ¬ (c.expression.infinity env ≤ finite m ∨ c.expression.infinity env ≤ finite M))
    (hskip : ¬ (t.skipLower ≤ finite m ∧ finite M ≤ t.skipUpper))
    (hkept : c.mustBeViolated env = false) :
    ∃ d : ℝ, 0 < d ∧ d ^ 2 = min 1 m * max 1 M ∧
      (c.rescale env t).outcome = .ok (some ⟨c.relation,
        c.expression.map (· * finite (2 ^ niceExponent (Real.logb 2 (1 / d)))), c.name⟩) := by
  have hM : 0 < M := hm.trans_le hle
  obtain ⟨d, hd, hdivisor, hsq⟩ := sq_of_divisor hm hle
  obtain ⟨a, notices, -, hplan⟩ := exists_plan responds_real t c.expression hm hM
  have heq : (finite a : Extended ℝ) = finite d := eq_of_plan hdivisor hplan
  rw [heq] at hplan
  have hzero : ((finite M : Extended ℝ) == 0) = false := decide_eq_false hM.ne'
  have haccepted : ((finite M : Extended ℝ) == 0 ||
      (decide (t.skipLower ≤ finite m) && decide (finite M ≤ t.skipUpper))) = false := by
    rw [hzero, Bool.false_or, ← Bool.decide_and]
    exact decide_eq_false hskip
  refine ⟨d, hd, hsq, ?_⟩
  have hpow : (0 : ℝ) < 2 ^ niceExponent (Real.logb 2 (1 / d)) := zpow_pos two_pos _
  have hmake := (make_eq_ok_iff env c.relation _ c.name _).2
    ⟨rfl, (mustBeViolated_scale hc hpow c.name).trans hkept⟩
  rw [Expression.scale_of_pos _ hpow] at hmake
  unfold rescale
  dsimp only
  rw [hrange, if_neg hbounded, haccepted, hplan]
  dsimp only
  rw [applyDivisor_finite env c hd, hmake]
  rfl

/-- **Scaling preserves a constraint and centres it.**  If a constraint is scaled at all, one power of
two multiplies its constant and every coefficient, its relation and its name stay, and it holds at the
same assignments.  The same power multiplies the amplitude range, whose ends taken together with one then
have a product between a half and four. -/
theorem centred_of_rescale (hc : c.IsFinite) (hv : ∀ v ∈ c.expression.vars, env.Compares v)
    (hd : (c.expression.infinity env).IsDefined)
    (h : (c.rescale env t).outcome = .ok (some c')) :
    ∃ n : ℤ, let f : ℝ := 2 ^ n
      c' = ⟨c.relation, c.expression.map (· * finite f), c.name⟩ ∧
      (∀ s : Assignment ℝ, c'.Holds s ↔ c.Holds s) ∧
      ∃ m M : ℝ, 0 < m ∧
        c.expression.amplitudeRange env t.ignoreInfinite = (finite m, finite M) ∧
        c'.expression.amplitudeRange env t.ignoreInfinite = (finite (f * m), finite (f * M)) ∧
        1 / 2 ≤ f ^ 2 * min 1 m * max 1 M ∧ f ^ 2 * min 1 m * max 1 M < 4 := by
  unfold rescale at h
  dsimp only at h
  split at h
  · cases h
  · next hbounded =>
      obtain ⟨hlow, hhigh⟩ := not_or.1 hbounded
      split at h
      · cases h
      · next hskip =>
          have hne : ((c.expression.amplitudeRange env t.ignoreInfinite).2 == 0) = false := by
            simp only [Bool.or_eq_true, not_or, Bool.not_eq_true] at hskip
            exact hskip.1
          obtain ⟨m, M, hm, hle, hrange⟩ :=
            Expression.exists_amplitudeRange hc hv hd hlow hhigh hne
          -- the range fixes the divisor, and the divisor the power of two
          obtain ⟨d, hpos, hdivisor, hsq⟩ := sq_of_divisor hm hle
          have hmultiple := fun n : ℤ =>
            Expression.amplitudeRange_map hc hd hlow hhigh (zpow_pos (two_pos : (0 : ℝ) < 2) n)
          simp only [hrange] at h hmultiple
          split at h
          · cases h
          · next a notices hplan =>
              obtain rfl := eq_of_plan hdivisor hplan
              cases happly : c.applyDivisor env (finite d) with
              | error f =>
                  rw [happly] at h
                  cases h
              | ok c'' =>
                  rw [happly] at h
                  cases h
                  obtain ⟨n, rfl, hnear⟩ := near_of_applyDivisor hpos happly
                  rw [mul_pow, hsq, ← mul_assoc] at hnear
                  refine ⟨n, rfl, ?_, m, M, hm, hrange, ?_, hnear⟩
                  · intro s
                    rw [← Expression.scale_of_pos _ (zpow_pos two_pos n)]
                    exact holds_scale hc (zpow_pos two_pos n) c.name s
                  · rw [hmultiple n, finite_mul, finite_mul, mul_comm m, mul_comm M]

/-- At most zero for sixteen times a variable from zero to one: the only amplitude is sixteen, and the
multiple is found. -/
theorem centred_of_rescale_sixteen :
    let e : Expression (Extended ℝ) := .affine (finite 0) (finite 16) ⟨0, 0⟩
    let env : Environment (Extended ℝ) :=
      .alike .continuous (finite 0) (finite 1) (infinite false)
    let t : Thresholds (Extended ℝ) := ⟨finite 1, finite 1, false, finite 100⟩
    ∃ n : ℤ, let f : ℝ := 2 ^ n
      (rescale env t ⟨.atMost, e, some "wide"⟩).outcome =
          .ok (some ⟨.atMost, e.map (· * finite f), some "wide"⟩) ∧
        (e.map (· * finite f)).amplitudeRange env false = (finite (f * 16), finite (f * 16)) ∧
        1 / 2 ≤ f ^ 2 * 16 ∧ f ^ 2 * 16 < 4 := by
  intro e env t
  let c : Constraint (Extended ℝ) := ⟨.atMost, e, some "wide"⟩
  have hc : c.IsFinite := Expression.isFinite_affine _ _ _
  have hv : ∀ v ∈ c.expression.vars, env.Compares v := fun v _ =>
    ⟨(isFinite_finite _).isDefined, (isFinite_finite _).isDefined⟩
  have hinf : c.expression.infinity env = infinite false := rfl
  have hdefined : (c.expression.infinity env).IsDefined :=
    (IsDefined.of_le (le_infinite_false isFinite_zero.isDefined)).2
  have hreach : Expression.variableReach env (infinite false) ⟨0, 0⟩ = finite 1 := by
    have hextend : ∀ y : ℝ, Expression.extend (infinite false) (finite y) = finite y := fun y => rfl
    change Scalar.larger (Scalar.magnitude (Expression.extend (infinite false) (finite 0)))
      (Scalar.magnitude (Expression.extend (infinite false) (finite 1))) = _
    rw [hextend, hextend, magnitude_finite, magnitude_finite]
    simp [Scalar.larger]
  have hamplitude : e.amplitudes env (infinite false) false = [finite 16] := by
    have hlinear : Expression.amplitude false (finite 16) (finite (1 : ℝ)) = finite 16 := by
      simp [Expression.amplitude, magnitude_finite]
    have hentries : e.linear.entries = [(⟨0, 0⟩, finite 16)] := rfl
    have hquadratic : e.quadratic.entries = [] := rfl
    have hconstant : (e.constant == 0) = true := decide_eq_true rfl
    have hkept : ((finite 16 : Extended ℝ) == 0) = false := decide_eq_false (by norm_num)
    unfold Expression.amplitudes
    simp [hconstant, hentries, hquadratic, hreach, hlinear, hkept]
  have hrange : e.amplitudeRange env false = (finite 16, finite 16) := by
    unfold Expression.amplitudeRange
    dsimp only
    rw [hinf, hamplitude]
    rfl
  have hkept : c.mustBeViolated env = false := by
    have hvars : ∀ v ∈ e.vars, v = ⟨0, 0⟩ := fun v hmem => (Expression.mem_vars_affine _ _ _ v).1 hmem
    refine not_violated_of_holds (n := 0) (s := fun _ => 0) hc rfl ?_ ?_ ?_
    · intro v hmem
      rw [hvars v hmem]
    · intro v _
      exact ⟨le_refl (0 : ℝ), (zero_le_one : (0 : ℝ) ≤ 1)⟩
    · simp [Holds, c, e, Expression.affine, Expression.value]
  have hscaled : ∃ c', (c.rescale env t).outcome = .ok (some c') := by
    have hbounded : ¬ (c.expression.infinity env ≤ finite 16 ∨
        c.expression.infinity env ≤ finite 16) := by
      rw [hinf]
      simp
    have hbeyond : ¬ (finite 16 : Extended ℝ) ≤ t.skipUpper :=
      (finite_le_finite _ _).not.2 (by norm_num)
    obtain ⟨d, -, -, h⟩ :=
      rescale_eq hc (by norm_num) le_rfl hrange hbounded (fun h => hbeyond h.2) hkept
    exact ⟨_, h⟩
  obtain ⟨c', h⟩ := hscaled
  obtain ⟨n, rfl, -, m, M, -, hbefore, hafter, hlow, hhigh⟩ :=
    centred_of_rescale hc hv hdefined h
  have hend : (finite m, finite M) = ((finite 16, finite 16) : Extended ℝ × Extended ℝ) :=
    hbefore.symm.trans hrange
  simp only [Prod.mk.injEq, finite.injEq] at hend
  obtain ⟨rfl, rfl⟩ := hend
  refine ⟨n, h, hafter, ?_, ?_⟩
  · norm_num at hlow ⊢
    exact hlow
  · norm_num at hhigh ⊢
    exact hhigh

end Constraint

end MixedInteger
