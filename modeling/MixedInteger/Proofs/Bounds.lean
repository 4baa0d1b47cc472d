/-
**The bounds of an expression are bounds of its values.**

Between the bounds of its variables, an expression takes no value below its lower bound and none above
its upper bound, unless the bound is the infinity of the store.  Terms are looked at one by one: a
linear term is least at the bound that the sign of its coefficient chooses, a product of two variables
at one of the four products of their bounds.

Main results:

* `MixedInteger.Expression.pairRange_contains` — the range of a product;
* `MixedInteger.Expression.addLinearLower_le`, `MixedInteger.Expression.addPairLower_le` — a term;
* `MixedInteger.Expression.lower_le_value`, `MixedInteger.Expression.value_le_upper` — **the bounds of
  an expression**.
-/

import MixedInteger.Meaning.Feasibility
import MixedInteger.Proofs.Order

set_option autoImplicit false

namespace MixedInteger

variable {K : Type} [Field K] [LinearOrder K] [FloorRing K]

open Extended

/-! ### Products of two variables -/

namespace Expression

variable {env : Environment (Extended K)} {s : Assignment K}

/-- The product of the lower bounds of two variables. -/
def corner (env : Environment (Extended K)) (p : VariablePair) : Extended K :=
  times (env.trueLower p.first) (env.trueLower p.second)

/-- The other products of their bounds. -/
def otherCorners (env : Environment (Extended K)) (p : VariablePair) : List (Extended K) :=
  [times (env.trueLower p.first) (env.trueUpper p.second),
    times (env.trueUpper p.first) (env.trueLower p.second),
    times (env.trueUpper p.first) (env.trueUpper p.second)]

/-- The range of a product, said with the bounds of the variables. -/
theorem pairRange_eq {inf : Extended K} {p : VariablePair} (hf : env.infinity p.first.store = inf)
    (hs : env.infinity p.second.store = inf) :
    pairRange env inf p =
      (if p.isSquare && decide (env.trueLower p.first < 0) && decide (0 < env.trueUpper p.first)
        then 0
        else Scalar.least (corner env p) (otherCorners env p),
      Scalar.greatest (corner env p) (otherCorners env p)) := by
  -- for a square the bounds of the first variable are used twice, which are those of the second
  have hl : (if p.isSquare then env.trueLower p.first else env.trueLower p.second) =
      env.trueLower p.second := by
    by_cases h : p.first = p.second <;> simp [VariablePair.isSquare, h]
  have hu : (if p.isSquare then env.trueUpper p.first else env.trueUpper p.second) =
      env.trueUpper p.second := by
    by_cases h : p.first = p.second <;> simp [VariablePair.isSquare, h]
  rw [corner, otherCorners, ← hl, ← hu]
  simp only [Environment.trueLower, Environment.trueUpper, hf, hs]
  rfl

theorem isDefined_corner {p : VariablePair} (hx : env.Within s p.first)
    (hy : env.Within s p.second) :
    ∀ c ∈ corner env p :: otherCorners env p, c.IsDefined := by
  have dxl := (IsDefined.of_le hx.lower).1
  have dxu := (IsDefined.of_le hx.upper).2
  have dyl := (IsDefined.of_le hy.lower).1
  have dyu := (IsDefined.of_le hy.upper).2
  simp [corner, otherCorners, isDefined_times, dxl, dxu, dyl, dyu]

variable [IsStrictOrderedRing K]

omit [FloorRing K] in
theorem pairValue_nonneg_of_isSquare {p : VariablePair} (h : p.isSquare = true) :
    0 ≤ pairValue s p := by
  have hp : p.first = p.second := by simpa [VariablePair.isSquare] using h
  rw [pairValue, hp]
  exact mul_self_nonneg _

/-- The value of a product lies in its range. -/
theorem pairRange_contains {inf : Extended K} {p : VariablePair}
    (hf : env.infinity p.first.store = inf) (hs : env.infinity p.second.store = inf)
    (hx : env.Within s p.first) (hy : env.Within s p.second) :
    (pairRange env inf p).1 ≤ finite (pairValue s p) ∧
      finite (pairValue s p) ≤ (pairRange env inf p).2 := by
  rw [pairRange_eq hf hs]
  constructor
  · split
    · next h =>
        simp only [Bool.and_eq_true] at h
        exact pairValue_nonneg_of_isSquare h.1.1
    · obtain ⟨c, hm, hle⟩ := exists_corner_le hx.lower hx.upper hy.lower hy.upper
      exact Extended.le_trans (least_le (isDefined_corner hx hy) hm) hle
  · obtain ⟨c, hm, hle⟩ := exists_le_corner hx.lower hx.upper hy.lower hy.upper
    exact Extended.le_trans hle (le_greatest (isDefined_corner hx hy) hm)

/-! ### Terms -/

/-- A coefficient times the bound that its sign chooses is a bound of the term. -/
theorem mul_bound_le {c bound : Extended K} {x : K} (hc : c.IsFinite)
    (hb : Scalar.isInfinite bound = false) (hpos : 0 < c → bound ≤ finite x)
    (hneg : ¬ 0 < c → finite x ≤ bound) :
    (c * bound).IsFinite ∧ (c * bound).toNumber ≤ c.toNumber * x := by
  rw [hc.eq_finite] at hpos hneg
  have hdefined : bound.IsDefined := by
    by_cases h : (0 : Extended K) < finite c.toNumber
    · exact (IsDefined.of_le (hpos h)).1
    · exact (IsDefined.of_le (hneg h)).2
  cases bound with
  | undefined => exact (hdefined rfl).elim
  | infinite n => cases hb
  | finite y =>
      refine ⟨hc.mul trivial, ?_⟩
      rw [toNumber_mul hc (isFinite_finite y), toNumber_finite]
      rcases lt_or_ge 0 c.toNumber with h | h
      · exact mul_le_mul_of_nonneg_left (hpos h) h.le
      · exact mul_le_mul_of_nonpos_left (hneg (not_lt.2 h)) h

/-- What is added for a linear term is at most its value. -/
theorem addLinearLower_le {n : Nat} {total t : Extended K} {term : Variable × Extended K}
    (ht : total.IsFinite) (hc : term.2.IsFinite) (hs : term.1.store = n)
    (hw : env.Within s term.1) (h : addLinearLower env (env.infinity n) total term = some t) :
    t.IsFinite ∧ t.toNumber ≤ total.toNumber + term.2.toNumber * s term.1 := by
  unfold addLinearLower at h
  subst hs
  simp only [Option.ite_none_left_eq_some, Option.some.injEq, Bool.not_eq_true] at h
  obtain ⟨hfinite, rfl⟩ := h
  obtain ⟨hm, hle⟩ := mul_bound_le (x := s term.1) hc hfinite
    (fun hpos => by rw [if_pos hpos]; exact hw.lower)
    (fun hneg => by rw [if_neg hneg]; exact hw.upper)
  refine ⟨ht.add hm, ?_⟩
  rw [toNumber_add ht hm]
  linarith

/-- What is added for a product is at most its value. -/
theorem addPairLower_le {n : Nat} {total t : Extended K} {term : VariablePair × Extended K}
    (ht : total.IsFinite) (hc : term.2.IsFinite) (hf : term.1.first.store = n)
    (hs : term.1.second.store = n) (hx : env.Within s term.1.first)
    (hy : env.Within s term.1.second) (h : addPairLower env (env.infinity n) total term = some t) :
    t.IsFinite ∧ t.toNumber ≤ total.toNumber + term.2.toNumber * pairValue s term.1 := by
  unfold addPairLower at h
  simp only [Option.ite_none_left_eq_some, Option.some.injEq, Bool.not_eq_true] at h
  obtain ⟨hfinite, rfl⟩ := h
  have hrange := pairRange_contains (congrArg env.infinity hf) (congrArg env.infinity hs) hx hy
  obtain ⟨hm, hle⟩ := mul_bound_le (x := pairValue s term.1) hc hfinite
    (fun hpos => by rw [if_pos hpos]; exact hrange.1)
    (fun hneg => by rw [if_neg hneg]; exact hrange.2)
  refine ⟨ht.add hm, ?_⟩
  rw [toNumber_add ht hm]
  linarith

omit [FloorRing K] in
/-- If every term adds at most its value, all of them together do. -/
theorem foldlM_le {κ : Type} (weight : κ → K)
    {f : Extended K → κ × Extended K → Option (Extended K)} {es : List (κ × Extended K)}
    (hstep : ∀ total t : Extended K, ∀ term ∈ es, total.IsFinite → f total term = some t →
      t.IsFinite ∧ t.toNumber ≤ total.toNumber + term.2.toNumber * weight term.1)
    {total t : Extended K} (ht : total.IsFinite) (h : es.foldlM f total = some t) :
    t.IsFinite ∧ t.toNumber ≤ total.toNumber + (es.map fun e => e.2.toNumber * weight e.1).sum := by
  induction es generalizing total with
  | nil =>
      cases h
      exact ⟨ht, by simp⟩
  | cons term rest ih =>
      rw [List.foldlM_cons, Option.bind_eq_bind, Option.bind_eq_some_iff] at h
      obtain ⟨u, hu, hrest⟩ := h
      obtain ⟨hfu, hle⟩ := hstep total u term List.mem_cons_self ht hu
      obtain ⟨hft, hle'⟩ := ih (fun a b e he => hstep a b e (List.mem_cons_of_mem _ he)) hfu hrest
      refine ⟨hft, ?_⟩
      rw [List.map_cons, List.sum_cons]
      linarith

/-! ### Expressions -/

/-- The sum of the least values of the terms is at most the value. -/
theorem lower?_le {n : Nat} {e : Expression (Extended K)} {t : Extended K} (he : e.IsFinite)
    (hstore : ∀ v ∈ e.vars, v.store = n) (hw : ∀ v ∈ e.vars, env.Within s v)
    (h : e.lower? env (env.infinity n) = some t) : t.IsFinite ∧ t.toNumber ≤ e.value s := by
  unfold lower? at h
  rw [Option.bind_eq_bind, Option.bind_eq_some_iff] at h
  obtain ⟨u, hu, ht⟩ := h
  -- the bound runs through the linear terms from the constant on, and then through the products
  obtain ⟨fu, hle⟩ : u.IsFinite ∧ u.toNumber ≤ e.constant.toNumber +
      (e.linear.entries.map fun term => term.2.toNumber * s term.1).sum := by
    refine foldlM_le s ?_ he.constant hu
    intro total t term hm ht h
    have hv : term.1 ∈ e.vars := mem_vars_of_mem_linear (List.mem_map_of_mem hm)
    exact addLinearLower_le ht (he.linear term hm) (hstore _ hv) (hw _ hv) h
  obtain ⟨ft, hle'⟩ : t.IsFinite ∧ t.toNumber ≤ u.toNumber +
      (e.quadratic.entries.map fun term => term.2.toNumber * pairValue s term.1).sum := by
    refine foldlM_le (pairValue s) ?_ fu ht
    intro total t term hm ht h
    obtain ⟨hf, hs⟩ := mem_vars_of_mem_quadratic (List.mem_map_of_mem hm)
    exact addPairLower_le ht (he.quadratic term hm) (hstore _ hf) (hstore _ hs) (hw _ hf) (hw _ hs) h
  exact ⟨ft, hle'.trans (by rw [value, Coefficients.weigh, Coefficients.weigh]; linarith)⟩

omit [IsStrictOrderedRing K] in
/-- An expression that is not constant has the infinity of the store of some variable. -/
theorem exists_infinity_eq (env : Environment (Extended K)) {e : Expression (Extended K)}
    (h : e.isConstant = false) : ∃ v ∈ e.vars, e.infinity env = env.infinity v.store := by
  obtain ⟨v, hv, hs⟩ : ∃ v ∈ e.vars, e.store? = some v.store := by
    unfold store?
    split
    · next v rest hk => exact ⟨v, mem_vars_of_mem_linear (by simp [hk]), rfl⟩
    · next hk =>
        cases hq : e.quadratic.keys with
        | nil =>
            have hl : e.linear.entries = [] := by simpa [Coefficients.keys] using hk
            have hn : e.quadratic.entries = [] := by simpa [Coefficients.keys] using hq
            simp [isConstant, Coefficients.isEmpty, hl, hn] at h
        | cons p rest => exact ⟨p.first, (mem_vars_of_mem_quadratic (by simp [hq])).1, rfl⟩
  refine ⟨v, hv, ?_⟩
  rw [infinity, h, hs]
  rfl

omit [IsStrictOrderedRing K] in
/-- An expression over one store has the infinity of that store, unless it is constant. -/
theorem infinity_eq {n : Nat} {e : Expression (Extended K)} (hstore : ∀ v ∈ e.vars, v.store = n)
    (h : e.isConstant = false) : e.infinity env = env.infinity n := by
  obtain ⟨v, hv, hinfinity⟩ := exists_infinity_eq env h
  rw [hinfinity, hstore v hv]

omit [IsStrictOrderedRing K] in
/-- The infinity of an expression over one store is positive, since that of the store is. -/
theorem infinity_pos {n : Nat} {e : Expression (Extended K)} (hinf : 0 < env.infinity n)
    (hstore : ∀ v ∈ e.vars, v.store = n) : 0 < e.infinity env := by
  cases hc : e.isConstant with
  | true =>
      rw [infinity, if_pos hc]
      rfl
  | false =>
      rw [infinity_eq hstore hc]
      exact hinf

/-- **An expression takes no value below its lower bound**, unless that is minus infinity. -/
theorem lower_le_value {n : Nat} {e : Expression (Extended K)} (he : e.IsFinite)
    (hinf : 0 < env.infinity n) (hstore : ∀ v ∈ e.vars, v.store = n)
    (hw : ∀ v ∈ e.vars, env.Within s v) (h : ¬ e.lower env ≤ -e.infinity env) :
    (e.lower env).IsFinite ∧ (e.lower env).toNumber ≤ e.value s := by
  cases hc : e.isConstant with
  | true =>
      rw [lower, if_pos hc, value_of_isConstant hc]
      exact ⟨he.constant, le_rfl⟩
  | false =>
      have hl : e.lower env = (e.lower? env (env.infinity n)).getD (-env.infinity n) := by
        simp [lower, hc, infinity_eq hstore hc]
      rw [hl] at h ⊢
      cases ht : e.lower? env (env.infinity n) with
      | some t => exact lower?_le he hstore hw ht
      | none =>
          have hd : (env.infinity n).IsDefined := (IsDefined.of_le (Extended.le_of_lt hinf)).2
          rw [ht, infinity_eq hstore hc] at h
          exact absurd hd.neg.le_refl h

omit [IsStrictOrderedRing K] in
theorem neg_eq_map (e : Expression (Extended K)) : e.neg = e.map (· * (-1)) := by
  have h : ((-1 : Extended K) == 0) = false := by simp [one_eq, zero_eq]
  rw [neg, scale, h]
  rfl

omit [IsStrictOrderedRing K] in
theorem vars_neg (e : Expression (Extended K)) : e.neg.vars = e.vars := by
  rw [neg_eq_map]
  simp [vars, map]

omit [IsStrictOrderedRing K] in
theorem infinity_neg (e : Expression (Extended K)) : e.neg.infinity env = e.infinity env := by
  rw [neg_eq_map, infinity, infinity, isConstant_map]
  simp [store?, map]

/-- **An expression takes no value above its upper bound**, unless that is infinity. -/
theorem value_le_upper {n : Nat} {e : Expression (Extended K)} (he : e.IsFinite)
    (hinf : 0 < env.infinity n) (hstore : ∀ v ∈ e.vars, v.store = n)
    (hw : ∀ v ∈ e.vars, env.Within s v) (h : ¬ e.infinity env ≤ e.upper env) :
    (e.upper env).IsFinite ∧ e.value s ≤ (e.upper env).toNumber := by
  rw [← vars_neg] at hstore hw
  have hn : ¬ e.neg.lower env ≤ -e.neg.infinity env := by
    rwa [← Extended.neg_le_neg_iff, Extended.neg_neg, infinity_neg]
  obtain ⟨hf, hle⟩ := lower_le_value he.neg hinf hstore hw hn
  refine ⟨hf.neg, ?_⟩
  rw [value_neg he] at hle
  rw [upper, toNumber_neg]
  linarith

end Expression

end MixedInteger
