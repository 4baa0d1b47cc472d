/-
**Making a constraint a second time.**

A constraint is refused if the bounds of the moment leave no way to satisfy it.  It is made again when it
is renamed and when it is scaled, and bounds may have changed since.  So both may be refused for a
constraint that is there already, and that is the only new reason for a refusal.

Main definitions:

* `MixedInteger.Responds` — roots and logarithms of positive numbers are numbers.

Main results:

* `MixedInteger.Expression.lower_scale` — a positive factor multiplies the bounds of an expression;
* `MixedInteger.Constraint.mustBeViolated_scale` — so it does not change what they decide;
* `MixedInteger.Constraint.remade_unless_violated` — **renaming and scaling, whatever the bounds are now**;
* `MixedInteger.Session.refused_again` — a constraint that cannot be renamed.
-/

import MixedInteger.Constraint.Scaling
import MixedInteger.Meaning.Term
import MixedInteger.Model.Session
import MixedInteger.Proofs.Difference
import MixedInteger.Scalar.Reals

set_option autoImplicit false

namespace MixedInteger

variable {K : Type} [Field K] [LinearOrder K] [FloorRing K]

open Extended

/-! ### Multiples of values -/

namespace Extended

/-- An infinity times a positive number is that infinity. -/
theorem infinite_mul_finite (n : Bool) {x : K} (hx : 0 < x) :
    (infinite n : Extended K) * finite x = infinite n := by
  change (if x = 0 then undefined else infinite (n != decide (x < 0))) = infinite n
  rw [if_neg hx.ne', decide_eq_false hx.not_gt, Bool.bne_false]

/-- A positive factor keeps the sign. -/
theorem zero_lt_mul_finite_iff [IsStrictOrderedRing K] (a : Extended K) {x : K} (hx : 0 < x) :
    0 < a * finite x ↔ 0 < a := by
  cases a with
  | undefined => exact Iff.rfl
  | finite y => exact mul_pos_iff_of_pos_right hx
  | infinite n => rw [infinite_mul_finite n hx]

/-- A common factor of a total and a coefficient comes out. -/
theorem mul_add_mul {a b c : Extended K} (ha : Scalar.isInfinite a = false) (hc : c.IsFinite)
    (hb : Scalar.isInfinite b = false) (x : K) :
    Scalar.isInfinite (a + c * b) = false ∧
      a * finite x + c * finite x * b = (a + c * b) * finite x := by
  rw [hc.eq_finite]
  cases a with
  | infinite n => cases ha
  | undefined => exact ⟨rfl, rfl⟩
  | finite y =>
      cases b with
      | infinite n => cases hb
      | undefined => exact ⟨rfl, rfl⟩
      | finite z =>
          refine ⟨rfl, ?_⟩
          simp only [finite_mul, finite_add]
          congr 1
          ring

end Extended

/-! ### Multiples of expressions -/

namespace Expression

variable {env : Environment (Extended K)} {e : Expression (Extended K)} {x : K}

theorem scale_of_ne_zero (e : Expression (Extended K)) (hx : x ≠ 0) :
    e.scale (finite x) = e.map (· * finite x) := by
  have hne : ((finite x : Extended K) == 0) = false := decide_eq_false hx
  unfold scale
  rw [hne]
  rfl

theorem scale_of_pos (e : Expression (Extended K)) (hx : 0 < x) :
    e.scale (finite x) = e.map (· * finite x) :=
  scale_of_ne_zero e hx.ne'

theorem infinity_map (f : Extended K → Extended K) (e : Expression (Extended K)) :
    (e.map f).infinity env = e.infinity env := by
  rw [infinity, infinity, isConstant_map]
  simp [store?, map]

omit [Field K] [LinearOrder K] [FloorRing K] in
theorem terms_map (f : Extended K → Extended K) (e : Expression (Extended K)) :
    (e.map f).terms = e.terms.map fun t => (t.1, f t.2) := by
  simp [terms, variableTerms, pairTerms, map, Coefficients.map, Function.comp_def]

/-- Two factors may change places. -/
theorem neg_scale (e : Expression (Extended K)) (hx : 0 < x) :
    (e.scale (finite x)).neg = e.neg.scale (finite x) := by
  have hcomm : ∀ a : Extended K, a * finite x * -1 = a * -1 * finite x := by
    intro a
    cases a with
    | undefined => rfl
    | finite y => simp only [one_eq, neg_finite, finite_mul, mul_right_comm]
    | infinite n =>
        have hneg : (infinite n : Extended K) * -1 = infinite (n != decide ((-1 : K) < 0)) :=
          if_neg (neg_ne_zero.2 one_ne_zero)
        rw [infinite_mul_finite n hx, hneg, infinite_mul_finite _ hx]
  rw [scale_of_pos e hx, scale_of_pos e.neg hx, neg_eq_map, neg_eq_map]
  simp [map, Coefficients.map, hcomm]

variable [IsStrictOrderedRing K]

/-- A positive factor of a coefficient does not change which end of a range is taken. -/
theorem bound_mul (env : Environment (Extended K)) (inf : Extended K) (t : Term) (c : Extended K)
    (hx : 0 < x) : t.bound env inf (c * finite x) = t.bound env inf c := by
  simp only [Term.bound, Extended.zero_lt_mul_finite_iff c hx]

/-- The sum of the least values of the terms is multiplied, term by term. -/
theorem foldlM_addLower_mul (env : Environment (Extended K)) (inf : Extended K) (hx : 0 < x)
    {ts : List (Term × Extended K)} (hts : ∀ t ∈ ts, t.2.IsFinite) {total : Extended K}
    (htotal : Scalar.isInfinite total = false) :
    (ts.map fun t => (t.1, t.2 * finite x)).foldlM (Term.addLower env inf) (total * finite x) =
      (ts.foldlM (Term.addLower env inf) total).map (· * finite x) := by
  induction ts generalizing total with
  | nil => rfl
  | cons t rest ih =>
      have hrest : ∀ u ∈ rest, u.2.IsFinite := fun u hu => hts u (List.mem_cons_of_mem _ hu)
      rw [List.map_cons, List.foldlM_cons, List.foldlM_cons]
      simp only [Term.addLower, bound_mul env inf t.1 t.2 hx]
      by_cases hinfinite : Scalar.isInfinite (t.1.bound env inf t.2) = true
      · simp [hinfinite]
      · obtain ⟨hnext, hmul⟩ := Extended.mul_add_mul htotal (hts t List.mem_cons_self)
          (Bool.eq_false_iff.2 hinfinite) x
        simp only [hinfinite, hmul]
        exact ih hrest hnext

/-- A positive factor multiplies the lower bound of an expression, if there is one. -/
theorem lower_scale (env : Environment (Extended K)) (he : e.IsFinite) (hx : 0 < x) :
    (e.scale (finite x)).lower env = e.lower env * finite x ∨
      ((e.scale (finite x)).lower env = -e.infinity env ∧ e.lower env = -e.infinity env) := by
  rw [scale_of_pos e hx]
  unfold lower
  rw [isConstant_map]
  cases hc : e.isConstant with
  | true => exact Or.inl rfl
  | false =>
      have hconstant : Scalar.isInfinite e.constant = false := by
        rw [he.constant.eq_finite]
        rfl
      simp only [Bool.false_eq_true, if_false, infinity_map, lower?_eq_foldlM, terms_map]
      have hfold := foldlM_addLower_mul env (e.infinity env) hx he.of_mem_terms hconstant
      have hmap : (e.map (· * finite x)).constant = e.constant * finite x := rfl
      rw [hmap, hfold]
      cases e.terms.foldlM (Term.addLower env (e.infinity env)) e.constant with
      | none => exact Or.inr ⟨rfl, rfl⟩
      | some total => exact Or.inl rfl

theorem zero_lt_lower_scale_iff (he : e.IsFinite) (hx : 0 < x) :
    0 < (e.scale (finite x)).lower env ↔ 0 < e.lower env := by
  rcases lower_scale env he hx with h | ⟨h, h'⟩
  · rw [h, zero_lt_mul_finite_iff _ hx]
  · rw [h, h']

theorem upper_scale_lt_zero_iff (he : e.IsFinite) (hx : 0 < x) :
    (e.scale (finite x)).upper env < 0 ↔ e.upper env < 0 := by
  rw [upper, upper, neg_scale e hx, neg_lt_zero_iff, neg_lt_zero_iff,
    zero_lt_lower_scale_iff he.neg hx]

end Expression

/-! ### What the bounds decide -/

namespace Constraint

variable {env : Environment (Extended K)} {c : Constraint (Extended K)}

/-- **A positive factor does not change whether the bounds leave a way to satisfy a constraint.** -/
theorem mustBeViolated_scale [IsStrictOrderedRing K] (hc : c.expression.IsFinite) {x : K}
    (hx : 0 < x) (name : Option String) :
    mustBeViolated env ⟨c.relation, c.expression.scale (finite x), name⟩ = c.mustBeViolated env := by
  unfold mustBeViolated
  rw [decide_eq_decide.2 (Expression.zero_lt_lower_scale_iff hc hx),
    decide_eq_decide.2 (Expression.upper_scale_lt_zero_iff hc hx)]

end Constraint

/-! ### Amplitudes -/

namespace Extended

variable [IsStrictOrderedRing K]

theorem magnitude_finite (y : K) : Scalar.magnitude (finite y) = finite |y| := by
  unfold Scalar.magnitude
  split
  · next hneg => rw [neg_finite, abs_of_neg hneg]
  · next hneg =>
      have hy : 0 ≤ y := not_lt.1 hneg
      rw [abs_of_nonneg hy]
      split
      · next hzero => rw [eq_zero_of_beq hzero]
      · rfl

theorem zero_le_magnitude {a : Extended K} (ha : a.IsDefined) : 0 ≤ Scalar.magnitude a := by
  unfold Scalar.magnitude
  split
  · next hneg => exact (zero_le_neg_iff a).2 (Extended.le_of_lt hneg)
  · next hneg =>
      split
      · exact (finite_le_finite 0 0).2 le_rfl
      · exact le_of_not_lt isFinite_zero.isDefined ha hneg

omit [IsStrictOrderedRing K] in
theorem isFinite_magnitude {a : Extended K} (ha : a.IsFinite) : (Scalar.magnitude a).IsFinite := by
  unfold Scalar.magnitude
  split
  · exact ha.neg
  · split
    · exact isFinite_zero
    · exact ha

omit [IsStrictOrderedRing K] in
theorem zero_le_larger {a b : Extended K} (ha : 0 ≤ a) (hb : 0 ≤ b) : 0 ≤ Scalar.larger a b := by
  unfold Scalar.larger
  split
  · exact hb
  · exact ha

omit [IsStrictOrderedRing K] in
/-- What is not below zero is a number unless it is infinite. -/
theorem exists_eq_finite {a : Extended K} (ha : 0 ≤ a) (hinfinite : Scalar.isInfinite a = false) :
    ∃ x, 0 ≤ x ∧ a = finite x := by
  cases a with
  | finite x => exact ⟨x, ha, rfl⟩
  | infinite n => cases hinfinite
  | undefined => exact (not_le_undefined _ ha).elim

omit [IsStrictOrderedRing K] in
/-- What is above zero, and below another value, is a number. -/
theorem exists_eq_finite_of_not_le {a b : Extended K} (ha : 0 < a) (hb : b.IsDefined)
    (h : ¬ b ≤ a) : ∃ x, 0 < x ∧ a = finite x := by
  cases a with
  | finite x => exact ⟨x, ha, rfl⟩
  | infinite n =>
      obtain rfl : n = false := ha
      exact absurd (le_infinite_false hb) h
  | undefined => exact (not_lt_undefined _ ha).elim

omit [IsStrictOrderedRing K] in
theorem zero_lt_of_zero_le {a : Extended K} (ha : 0 ≤ a) (hne : (a == 0) = false) : 0 < a := by
  cases a with
  | finite x => exact lt_of_le_of_ne ha (Ne.symm (of_decide_eq_false hne))
  | infinite n => exact ha
  | undefined => exact (not_le_undefined _ ha).elim

end Extended

namespace Expression

variable {env : Environment (Extended K)} {e : Expression (Extended K)}

variable [IsStrictOrderedRing K]

theorem zero_le_variableReach {v : Variable} (inf : Extended K) (hv : env.Compares v) :
    0 ≤ variableReach env inf v :=
  zero_le_larger (zero_le_magnitude hv.1.extend)
    (zero_le_magnitude hv.2.extend)

omit [IsStrictOrderedRing K] in
/-- The range of a product of two variables has ends that compare. -/
theorem isDefined_pairRange {p : VariablePair} (inf : Extended K) (hx : env.Compares p.first)
    (hy : env.Compares p.second) :
    (pairRange env inf p).1.IsDefined ∧ (pairRange env inf p).2.IsDefined := by
  have hxl : (extend inf (env.lower p.first)).IsDefined := hx.1.extend
  have hxu : (extend inf (env.upper p.first)).IsDefined := hx.2.extend
  have hyl : (if p.isSquare then extend inf (env.lower p.first)
      else extend inf (env.lower p.second)).IsDefined := by
    split
    · exact hxl
    · exact hy.1.extend
  have hyu : (if p.isSquare then extend inf (env.upper p.first)
      else extend inf (env.upper p.second)).IsDefined := by
    split
    · exact hxu
    · exact hy.2.extend
  have hcorners : ∀ xl xu yl yu : Extended K, xl.IsDefined → xu.IsDefined → yl.IsDefined →
      yu.IsDefined → ∀ c ∈ times xl yl :: [times xl yu, times xu yl, times xu yu], c.IsDefined := by
    intro xl xu yl yu hxl hxu hyl hyu
    simp [isDefined_times, hxl, hxu, hyl, hyu]
  have hdefined := hcorners _ _ _ _ hxl hxu hyl hyu
  unfold pairRange
  constructor
  · dsimp only
    split
    · exact isFinite_zero.isDefined
    · exact hdefined _ (least_mem _ _)
  · exact hdefined _ (greatest_mem _ _)

theorem zero_le_pairReach {p : VariablePair} (inf : Extended K) (hx : env.Compares p.first)
    (hy : env.Compares p.second) : 0 ≤ pairReach env inf p := by
  obtain ⟨hlow, hhigh⟩ := isDefined_pairRange inf hx hy
  exact zero_le_larger (zero_le_magnitude hlow) (zero_le_magnitude hhigh)

/-- An amplitude is not below zero. -/
theorem zero_le_amplitude {c reach : Extended K} (ignoreInfinite : Bool) (hc : c.IsFinite)
    (hreach : 0 ≤ reach) : 0 ≤ amplitude ignoreInfinite c reach := by
  unfold amplitude
  split
  · split
    · exact zero_le_magnitude hc.isDefined
    · rfl
  · next hinfinite =>
      obtain ⟨y, hy, rfl⟩ := exists_eq_finite hreach (Bool.eq_false_iff.2 hinfinite)
      have hmagnitude := zero_le_magnitude hc.isDefined
      rw [(isFinite_magnitude hc).eq_finite] at hmagnitude ⊢
      exact mul_nonneg hmagnitude hy

/-- The amplitudes that are kept are positive. -/
theorem zero_lt_of_mem_amplitudes (he : e.IsFinite) (hv : ∀ v ∈ e.vars, env.Compares v)
    {inf a : Extended K} {ignoreInfinite : Bool} (ha : a ∈ e.amplitudes env inf ignoreInfinite) :
    0 < a := by
  unfold amplitudes at ha
  obtain ⟨ha, hne⟩ := List.mem_filter.1 ha
  refine zero_lt_of_zero_le ?_ (by simpa using hne)
  rcases List.mem_append.1 ha with ha | ha
  · rcases List.mem_append.1 ha with ha | ha
    · split at ha
      · cases ha
      · rw [List.mem_singleton.1 ha]
        exact zero_le_magnitude he.constant.isDefined
    · obtain ⟨t, ht, rfl⟩ := List.mem_map.1 ha
      exact zero_le_amplitude _ (he.linear t ht)
        (zero_le_variableReach inf (hv _ (mem_vars_of_mem_linear (List.mem_map_of_mem ht))))
  · obtain ⟨t, ht, rfl⟩ := List.mem_map.1 ha
    obtain ⟨hx, hy⟩ := mem_vars_of_mem_quadratic (List.mem_map_of_mem ht)
    exact zero_le_amplitude _ (he.quadratic t ht) (zero_le_pairReach inf (hv _ hx) (hv _ hy))

/-- The smallest and the greatest amplitude are positive, unless there are none. -/
theorem amplitudeRange_cases (he : e.IsFinite) (hv : ∀ v ∈ e.vars, env.Compares v)
    (hinf : 0 < e.infinity env) (ignoreInfinite : Bool) :
    e.amplitudeRange env ignoreInfinite = (0, 0) ∨
      0 < (e.amplitudeRange env ignoreInfinite).1 ∧ 0 < (e.amplitudeRange env ignoreInfinite).2 := by
  have hpos : ∀ a ∈ e.amplitudes env (e.infinity env) ignoreInfinite, 0 < a :=
    fun a ha => zero_lt_of_mem_amplitudes he hv ha
  unfold amplitudeRange
  dsimp only
  cases hlist : e.amplitudes env (e.infinity env) ignoreInfinite with
  | nil => exact Or.inl rfl
  | cons a rest =>
      rw [hlist] at hpos
      refine Or.inr ⟨?_, ?_⟩
      · dsimp only
        split
        · exact hinf
        · exact hpos _ (least_mem a rest)
      · dsimp only
        split
        · exact hinf
        · exact hpos _ (greatest_mem a rest)

end Expression

/-! ### Roots and logarithms -/

/-- Roots and logarithms of positive numbers are numbers, whole numbers are found near every number, and
powers of two are there. -/
structure Responds (K : Type) [Field K] [LinearOrder K] [Roots (Extended K)] : Prop where
  root : ∀ x : K, 0 < x → ∃ y, 0 < y ∧ Roots.root (finite x) = .ok (finite y)
  logTwo : ∀ x : K, 0 < x → ∃ y, Roots.logTwo (finite x) = .ok (finite y)
  nearest : ∀ x : K, ∃ n, Roots.nearest (finite x) = .ok n
  ceiling : ∀ x : K, ∃ n, Roots.ceiling (finite x) = .ok n
  powerOfTwo : ∀ n, Roots.powerOfTwo n = .ok (finite (2 ^ n : K))

/-- The rounded roots and logarithms of rational numbers respond. -/
theorem responds_rational :
    letI := Rounding.rational.roots
    Responds ℚ := by
  let roots := Rounding.rational.roots
  refine ⟨?_, ?_, fun x => ⟨_, rfl⟩, fun x => ⟨_, rfl⟩, fun n => rfl⟩
  · intro x hx
    refine ⟨Rat.sqrt x, ?_, ?_⟩
    · have hnum : 0 < Nat.sqrt x.num.toNat := Nat.sqrt_pos.2 (by have := Rat.num_pos.2 hx; omega)
      have hden : 0 < Nat.sqrt x.den := Nat.sqrt_pos.2 x.den_pos
      have hsqrt : Rat.sqrt x = (Nat.sqrt x.num.toNat : ℚ) / Nat.sqrt x.den := Rat.mkRat_eq_div _ _
      rw [hsqrt]
      positivity
    · change (if x < 0 then _ else _) = _
      rw [if_neg hx.not_gt]
      rfl
  · intro x hx
    refine ⟨Int.log 2 x, ?_⟩
    change (if x ≤ 0 then _ else _) = _
    rw [if_neg hx.not_ge]
    rfl

/-- So do those of the real numbers, which are exact. -/
theorem responds_real : Responds ℝ := by
  refine ⟨?_, ?_, fun x => ⟨_, rfl⟩, fun x => ⟨_, rfl⟩, fun n => rfl⟩
  · intro x hx
    refine ⟨Real.sqrt x, Real.sqrt_pos.2 hx, ?_⟩
    change (if x < 0 then _ else _) = _
    rw [if_neg hx.not_gt]
    rfl
  · intro x hx
    refine ⟨Real.logb (2 : ℕ) x, ?_⟩
    change (if x ≤ 0 then _ else _) = _
    rw [if_neg hx.not_ge]
    rfl

namespace Constraint

theorem quotient_finite (x : K) {y : K} (hy : 0 < y) :
    Expression.quotient (finite x) (finite y) = .ok (finite (x / y)) := by
  have hne : ((finite y : Extended K) == 0) = false := decide_eq_false hy.ne'
  unfold Expression.quotient
  rw [hne, finite_div x hy.ne']
  rfl

variable [IsStrictOrderedRing K]

/-- The range around one, divided by a positive number, begins with a positive number. -/
theorem exists_centredRange {x d : K} (y : K) (hx : 0 < x) (hd : 0 < d) :
    ∃ low high, 0 < low ∧
      centredRange (finite x) (finite y) (finite d) = .ok (finite low, finite high) := by
  have hunit : Expression.quotient (1 : Extended K) (finite d) = .ok (finite (1 / d)) :=
    quotient_finite 1 hd
  have hlow : ∃ low, 0 < low ∧ Scalar.smaller (finite (1 / d)) (finite (x / d)) = finite low := by
    unfold Scalar.smaller
    split
    · exact ⟨_, div_pos hx hd, rfl⟩
    · exact ⟨_, div_pos one_pos hd, rfl⟩
  have hhigh : ∃ high, Scalar.larger (finite (1 / d)) (finite (y / d)) = finite high := by
    unfold Scalar.larger
    split <;> exact ⟨_, rfl⟩
  obtain ⟨low, hpos, hlow⟩ := hlow
  obtain ⟨high, hhigh⟩ := hhigh
  refine ⟨low, high, hpos, ?_⟩
  rw [← hlow, ← hhigh]
  unfold centredRange
  rw [hunit, quotient_finite y hd, quotient_finite x hd]
  rfl

variable [Roots (Extended K)]

/-- The divisor for positive amplitudes is a positive number. -/
theorem exists_divisor (hroots : Responds K) {x y : K} (hx : 0 < x) (hy : 0 < y) :
    ∃ d, 0 < d ∧ divisor (finite x) (finite y) = .ok (finite d) := by
  unfold divisor
  split
  · exact hroots.root x hx
  · split
    · exact hroots.root (x * y) (mul_pos hx hy)
    · exact hroots.root y hy

/-- So there is a plan to scale by it. -/
theorem exists_plan (hroots : Responds K) (t : Thresholds (Extended K)) (e : Expression (Extended K))
    {x y : K} (hx : 0 < x) (hy : 0 < y) :
    ∃ d notices, 0 < d ∧ plan t e (finite x) (finite y) = .ok (finite d, notices) := by
  obtain ⟨d, hd, hdivisor⟩ := exists_divisor hroots hx hy
  obtain ⟨low, high, hlow, hrange⟩ := exists_centredRange y hx hd
  have hspread := quotient_finite high hlow
  unfold plan
  rw [hdivisor]
  simp only [liftNumber, Except.mapError, bind, Except.bind, hrange, hspread]
  split
  · exact ⟨d, _, hd, rfl⟩
  · split
    · exact ⟨d, _, hd, rfl⟩
    · exact ⟨d, _, hd, rfl⟩

omit [IsStrictOrderedRing K] in
/-- There is a nice power of two for every positive number. -/
theorem exists_nicePower (hroots : Responds K) {x : K} (hx : 0 < x) :
    ∃ n : ℤ, nicePower (finite x) = .ok (finite (2 ^ n)) := by
  obtain ⟨l, hlog⟩ := hroots.logTwo x hx
  have hpos : ¬ (finite x : Extended K) ≤ 0 := not_le.2 hx
  unfold nicePower nextPower nearestPower
  simp only [hpos, if_false, hlog, bind, Except.bind]
  split
  · obtain ⟨n, hn⟩ := hroots.ceiling l
    exact ⟨n, by simp only [hn, hroots.powerOfTwo]⟩
  · obtain ⟨n, hn⟩ := hroots.nearest l
    exact ⟨n, by simp only [hn, hroots.powerOfTwo]⟩

/-- Scaling by a positive number makes a multiple of the constraint. -/
theorem exists_applyDivisor (hroots : Responds K) (env : Environment (Extended K))
    (c : Constraint (Extended K)) {d : K} (hd : 0 < d) :
    ∃ n : ℤ, c.applyDivisor env (finite d) =
      make env c.relation (c.expression.scale (finite (2 ^ n))) c.name := by
  obtain ⟨n, hn⟩ := exists_nicePower hroots (div_pos one_pos hd)
  have hunit : Expression.quotient (1 : Extended K) (finite d) = .ok (finite (1 / d)) :=
    quotient_finite 1 hd
  refine ⟨n, ?_⟩
  unfold applyDivisor
  rw [hunit]
  simp only [bind, Except.bind, hn, liftNumber, Except.mapError]

/-! ### Renaming and scaling -/

/-- **Renaming and scaling a constraint that is there, whatever the bounds are now.**  Renaming is refused
exactly if they leave no way to satisfy the constraint.  Scaling finds a term without bounds, or leaves the
constraint alone, or makes a positive multiple, which is refused exactly in that case too. -/
theorem remade_unless_violated (hroots : Responds K) {env : Environment (Extended K)}
    {c : Constraint (Extended K)} (hc : c.expression.IsFinite)
    (hinf : 0 < c.expression.infinity env) (hv : ∀ v ∈ c.expression.vars, env.Compares v) :
    (∀ name, c.rename env name =
        if c.mustBeViolated env then
          .error (.unsatisfiable ⟨c.relation, c.expression, name⟩ (c.expression.lower env)
            (c.expression.upper env))
        else .ok ⟨c.relation, c.expression, name⟩) ∧
      ∀ t, (c.rescale env t).outcome = .error (.unboundedTerms c) ∨
        (c.rescale env t).outcome = .ok none ∨
        ∃ n : ℤ, (c.rescale env t).outcome =
          let e := c.expression.scale (finite (2 ^ n))
          if c.mustBeViolated env then
            .error (.unsatisfiable ⟨c.relation, e, c.name⟩ (e.lower env) (e.upper env))
          else .ok (some ⟨c.relation, e, c.name⟩) := by
  refine ⟨fun name => rfl, fun t => ?_⟩
  have hdefined : (c.expression.infinity env).IsDefined :=
    (IsDefined.of_le (Extended.le_of_lt hinf)).2
  unfold rescale
  dsimp only
  rcases Expression.amplitudeRange_cases hc hv hinf t.ignoreInfinite with hnone | ⟨hlow, hhigh⟩
  · -- no amplitudes: nothing is scaled
    right
    left
    have hnot : ¬ c.expression.infinity env ≤ 0 := fun h => Extended.not_lt_of_le h hinf
    have hzero : ((0 : Extended K) == 0) = true := decide_eq_true rfl
    rw [hnone]
    simp [hnot, hzero]
  · split
    · exact Or.inl rfl
    · next hbounded =>
        obtain ⟨hlow', hhigh'⟩ := not_or.1 hbounded
        obtain ⟨x, hx, hlow⟩ := exists_eq_finite_of_not_le hlow hdefined hlow'
        obtain ⟨y, hy, hhigh⟩ := exists_eq_finite_of_not_le hhigh hdefined hhigh'
        split
        · exact Or.inr (Or.inl rfl)
        · -- both amplitudes are positive numbers, so the divisor is one
          right
          right
          obtain ⟨d, notices, hd, hplan⟩ := exists_plan hroots t c.expression hx hy
          obtain ⟨n, happly⟩ := exists_applyDivisor hroots env c hd
          refine ⟨n, ?_⟩
          rw [hlow, hhigh, hplan]
          dsimp only
          rw [happly]
          unfold make
          dsimp only
          rw [mustBeViolated_scale hc (zpow_pos two_pos n)]
          split <;> rfl

/-- A constraint that could be made while a variable began with zero, now that it begins with six. -/
theorem remade_unless_violated_after_change :
    letI := Rounding.rational.roots
    let c : Constraint (Extended ℚ) :=
      ⟨.atMost, .affine (finite (-5)) (finite 1) ⟨0, 0⟩, none⟩
    let env : Environment (Extended ℚ) :=
      .alike .continuous (finite 6) (finite 10) (infinite false)
    c.mustBeViolated (.alike .continuous (finite 0) (finite 10) (infinite false)) = false ∧
      c.rename env (some "cap") =
        .error (.unsatisfiable ⟨.atMost, c.expression, some "cap"⟩ (finite 1) (finite 5)) ∧
      ∀ t, (c.rescale env t).outcome = .error (.unboundedTerms c) ∨
        (c.rescale env t).outcome = .ok none ∨
        ∃ n : ℤ, (c.rescale env t).outcome =
          let e := c.expression.scale (finite (2 ^ n))
          .error (.unsatisfiable ⟨.atMost, e, none⟩ (e.lower env) (e.upper env)) := by
  let roots := Rounding.rational.roots
  intro c env
  have hc : c.expression.IsFinite := Expression.isFinite_affine _ _ _
  have hinf : 0 < c.expression.infinity env := by decide +kernel
  have hv : ∀ v ∈ c.expression.vars, env.Compares v := fun v _ => ⟨nofun, nofun⟩
  obtain ⟨hrename, hrescale⟩ := remade_unless_violated responds_rational hc hinf hv
  have hviolated : c.mustBeViolated env = true := by decide +kernel
  have hlower : c.expression.lower env = finite 1 := by decide +kernel
  have hupper : c.expression.upper env = finite 5 := by decide +kernel
  simp only [hviolated, if_true, hlower, hupper] at hrename hrescale
  exact ⟨by decide +kernel, hrename (some "cap"), hrescale⟩

end Constraint

/-! ### After changes of bounds -/

namespace Session

/-- Whether a request changes what a variable is like. -/
def Request.isSetting {α : Type} : Request α → Bool
  | .setLower _ _ | .setUpper _ _ | .setKind _ _ | .setName _ _ => true
  | _ => false

/-- **A constraint that is there may be refused a second time**: one that could be made, and cannot be
renamed after a bound has been raised. -/
theorem refused_again :
    ¬ ∀ (capabilities : Capabilities) (infinity : Float) (o : PostingOptions Float)
      (requests changes : List (Request Float)) (c : Constraint Float), 0 < infinity →
      let s := (start (Model.empty .memory capabilities infinity) o).run requests
      Constraint.make s.environment c.relation c.expression c.name = .ok c →
      (∀ r ∈ changes, r.isSetting = true) →
      let env := (s.run changes).environment
      (∀ name, c.rename env name = .ok ⟨c.relation, c.expression, name⟩) ∧
        ∀ t f, (c.rescale env t).outcome = .error f → ∃ d, f = .unboundedTerms d := by
  intro hagain
  let c : Constraint Float := ⟨.atMost, .affine (-5) 1 ⟨0, 0⟩, none⟩
  let declaration : Request Float := .declare .continuous (some 0) (some 10) (some "x")
  let s := (start (Model.empty .memory .full (Scalar.infinity : Float)) ⟨.native, none⟩).run
    [declaration]
  have hmade : Constraint.make s.environment c.relation c.expression c.name = .ok c :=
    (Constraint.make_eq_ok_iff _ _ _ _ c).2 ⟨rfl, by decide +kernel⟩
  have hrename := (hagain .full Scalar.infinity ⟨.native, none⟩ [declaration] [.setLower 0 6] c
    (by decide +kernel) hmade (by decide)).1 none
  have hnot := ((Constraint.make_eq_ok_iff _ _ _ _ _).1 hrename).2
  exact absurd hnot (by decide +kernel)

end Session

end MixedInteger
