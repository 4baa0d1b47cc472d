/-
**Which implications can be replaced.**

An implication is replaced by inequalities that are made like any other, and an inequality is refused if
the bounds show that nothing can satisfy it.  Where the bounds of the variables are in order that never
happens: what is subtracted from the conclusion is not negative, and taking that away makes no lower
bound positive.  What remains to fail is capturing a premise that the bounds decide.

Main definitions:

* `MixedInteger.Implication.Captures` — what is known of an expression that captures a premise.

Main results:

* `MixedInteger.Implication.Captures.not_lower_pos` — what is compared stays satisfiable;
* `MixedInteger.Implication.exists_upperPart`, `MixedInteger.Implication.exists_lowerPart` — so the
  inequalities can be made;
* `MixedInteger.Implication.exists_reified` — a premise that is not decided is captured;
* `MixedInteger.Implication.replacement_exists_iff` — **which implications can be replaced**.
-/

import MixedInteger.Proofs.BigM
import MixedInteger.Proofs.Difference

set_option autoImplicit false

namespace MixedInteger

open Extended

variable {K : Type} [Field K] [LinearOrder K] [FloorRing K]

/-! ### The inequalities can be made -/

/-- A comparison that the bounds do not violate can be made, unless nothing is compared. -/
theorem Constraint.exists_compare {env : Environment (Extended K)} {e f : Expression (Extended K)}
    (hc : e.isConstant = false ∨ f.isConstant = false) (hl : ¬ 0 < (e.sub f).lower env) :
    ∃ c, Constraint.compare env .atMost e f = .ok c := by
  have hconstant : (e.isConstant && f.isConstant) = false := by
    rcases hc with h | h <;> simp [h]
  refine ⟨⟨.atMost, e.sub f, none⟩, ?_⟩
  rw [compare, hconstant]
  refine (make_eq_ok_iff env _ _ _ _).2 ⟨rfl, ?_⟩
  simp [mustBeViolated, hl]

namespace Implication

variable [IsStrictOrderedRing K] {env : Environment (Extended K)} {n : Nat}
  {e r : Expression (Extended K)}

/-- What captures a premise: a linear expression that is never negative, over one store whose variables
have their bounds in order. -/
structure Captures (env : Environment (Extended K)) (n : Nat) (r : Expression (Extended K)) :
    Prop where
  finite : r.IsFinite
  linear : r.isLinear = true
  nonneg : 0 ≤ r.lower env
  store : ∀ v ∈ r.vars, v.store = n
  ordered : ∀ v ∈ r.vars, env.lower v ≤ env.upper v

/-- The variables of both expressions leave room. -/
theorem Captures.consistent (hr : Captures env n r) (hinf : 0 < env.infinity n)
    (hstore : ∀ v ∈ e.vars, v.store = n) (hroom : ∀ v ∈ e.linear.keys, env.Consistent v) :
    ∀ v, v ∈ e.linear.keys ∨ v ∈ r.linear.keys → v.store = n ∧ env.Consistent v := by
  have hlower : -env.infinity n < r.lower env :=
    Extended.lt_of_lt_of_le ((Extended.neg_lt_zero_iff _).2 hinf) hr.nonneg
  rintro v (hv | hv)
  · exact ⟨hstore v (Expression.mem_vars_of_mem_linear hv), hroom v hv⟩
  · exact ⟨hr.store v (Expression.mem_vars_of_mem_linear hv),
      Expression.consistent_of_lower hinf hr.store hr.ordered hlower v hv⟩

/-- Within their bounds what captures a premise is not negative. -/
theorem Captures.value_nonneg (hr : Captures env n r) (hinf : 0 < env.infinity n)
    {s : Assignment K} (hs : ∀ v ∈ r.linear.keys, env.Within s v) : 0 ≤ r.value s := by
  refine Expression.value_nonneg hr.finite hinf hr.store hr.nonneg ?_
  intro v hv
  rcases (Expression.mem_vars_iff r v).1 hv with h | ⟨p, hp, -⟩
  · exact hs v h
  · rw [Coefficients.keys, Expression.entries_of_isLinear hr.linear] at hp
    cases hp

/-- **A side stays satisfiable** when a multiple of what captures the premise is taken away from it. -/
theorem Captures.not_lower_pos {f g : Expression (Extended K)} (hr : Captures env n r)
    (hf : f.IsFinite) (hended : f.Ended env (env.infinity n)) (hg : g.IsFinite)
    (hproducts : g.KeepsProducts f) (hinf : 0 < env.infinity n) (hstore : ∀ v ∈ f.vars, v.store = n)
    (hcompares : ∀ v ∈ f.vars, env.Compares v) (hroom : ∀ v ∈ f.linear.keys, env.Consistent v)
    (hkeys : ∀ v ∈ g.linear.keys, v ∈ f.linear.keys ∨ v ∈ r.linear.keys)
    (hle : ∀ s : Assignment K, 0 ≤ r.value s → g.value s ≤ f.value s) (hv : ¬ 0 < f.lower env) :
    ¬ 0 < g.lower env := by
  intro h
  have hP := hr.consistent hinf hstore hroom
  refine hv (Expression.lower_pos_of_lower_pos hf hended hg hproducts hinf hstore hcompares hP
    (fun v hk => Or.inl hk) hkeys ?_ h)
  intro s hs
  exact hle s (hr.value_nonneg hinf fun v hk => hs v (Or.inr hk))

/-- Taking `M` times what captures the premise away, where `M` is the upper bound, is such a case, -/
theorem Captures.not_upperSide_pos (hr : Captures env n r) (he : e.IsFinite) (hinf : 0 < env.infinity n)
    (hstore : ∀ v ∈ e.vars, v.store = n) (hordered : ∀ v ∈ e.vars, env.lower v ≤ env.upper v)
    (hu : e.upper env < env.infinity n) (hpos : 0 < e.upper env) (hv : ¬ 0 < e.lower env) :
    ¬ 0 < (e.sub (r.scale (e.upper env))).lower env := by
  have hcompares : ∀ v ∈ e.vars, env.Compares v := fun v hk =>
    Environment.compares_of_le (hordered v hk)
  have hfinite := Expression.isFinite_upper he hstore hcompares hu
  have hscaled := hr.finite.scale hfinite
  have hended := Expression.ended_of_upper he hstore hu
  have hproducts := Expression.keepsProducts_sub e (Expression.isLinear_scale r (e.upper env) hr.linear)
  have hroom := Expression.consistent_of_upper hinf hstore hordered hu
  refine hr.not_lower_pos he hended (he.sub hscaled) hproducts hinf hstore hcompares hroom ?_ ?_ hv
  · intro v hk
    rcases Expression.mem_or_mem_of_mem_sub hk with hk | hk
    · exact Or.inl hk
    · exact Or.inr (Expression.mem_keys_of_mem_scale hk)
  · intro s hnonneg
    rw [Expression.value_sub he hscaled, Expression.value_scale hr.finite hfinite]
    rw [hfinite.eq_finite] at hpos
    exact sub_le_self _ (mul_nonneg hnonneg (le_of_lt hpos))

/-- and so is taking the expression away from `m` times what captures the premise, where `m` is the lower
bound. -/
theorem Captures.not_lowerSide_pos (hr : Captures env n r) (he : e.IsFinite) (hinf : 0 < env.infinity n)
    (hstore : ∀ v ∈ e.vars, v.store = n) (hordered : ∀ v ∈ e.vars, env.lower v ≤ env.upper v)
    (hl : -env.infinity n < e.lower env) (hneg : e.lower env < 0) (hv : ¬ e.upper env < 0) :
    ¬ 0 < ((r.scale (e.lower env)).sub e).lower env := by
  have hcompares : ∀ v ∈ e.vars, env.Compares v := fun v hk =>
    Environment.compares_of_le (hordered v hk)
  have hfinite := Expression.isFinite_lower he hstore hcompares hl
  have hscaled := hr.finite.scale hfinite
  have hended := (Expression.ended_neg_iff he _).2 (Expression.ended_of_lower he hstore hl)
  have hproducts := Expression.keepsProducts_sub_of_isLinear he
    (Expression.isLinear_scale r (e.lower env) hr.linear)
  have hroom : ∀ v ∈ e.neg.linear.keys, env.Consistent v :=
    Expression.keys_neg e ▸ Expression.consistent_of_lower hinf hstore hordered hl
  have hv' : ¬ 0 < e.neg.lower env := by rwa [Expression.lower_neg, zero_lt_neg_iff]
  rw [← Expression.vars_neg] at hstore hcompares
  refine hr.not_lower_pos he.neg hended (hscaled.sub he) hproducts hinf hstore hcompares hroom ?_ ?_ hv'
  · intro v hk
    rcases Expression.mem_or_mem_of_mem_sub hk with hk | hk
    · exact Or.inr (Expression.mem_keys_of_mem_scale hk)
    · exact Or.inl (Expression.keys_neg e ▸ hk)
  · intro s hnonneg
    rw [Expression.value_sub hscaled he, Expression.value_scale hr.finite hfinite,
      Expression.value_neg he]
    rw [hfinite.eq_finite] at hneg
    linarith [mul_nonpos_of_nonneg_of_nonpos hnonneg (le_of_lt hneg)]

/-- A conclusion that has an upper bound, and is not violated, has its upper side. -/
theorem exists_upperPart (he : e.IsFinite) (hr : Captures env n r) (hinf : 0 < env.infinity n)
    (hstore : ∀ v ∈ e.vars, v.store = n) (hordered : ∀ v ∈ e.vars, env.lower v ≤ env.upper v)
    (hu : e.upper env < e.infinity env) (hv : ¬ 0 < e.lower env) :
    ∃ P, upperPart env e r = .ok P := by
  unfold upperPart
  by_cases hpos : 0 < e.upper env
  · have hconstant : e.isConstant = false := by
      rw [Bool.eq_false_iff]
      intro hc
      rw [Expression.upper_of_isConstant he.constant hc] at hpos
      rw [Expression.lower, if_pos hc] at hv
      exact hv hpos
    rw [Expression.infinity_eq hstore hconstant] at hu
    have hmake := hr.not_upperSide_pos he hinf hstore hordered hu hpos hv
    obtain ⟨c, hc⟩ := Constraint.exists_compare (Or.inl hconstant) hmake
    rw [if_pos hpos]
    exact ⟨[c], by rw [hc]; rfl⟩
  · rw [if_neg hpos]
    exact ⟨[], rfl⟩

/-- One that has a lower bound has its lower side. -/
theorem exists_lowerPart (he : e.IsFinite) (hr : Captures env n r) (hinf : 0 < env.infinity n)
    (hstore : ∀ v ∈ e.vars, v.store = n) (hordered : ∀ v ∈ e.vars, env.lower v ≤ env.upper v)
    (hl : -e.infinity env < e.lower env) (hv : ¬ e.upper env < 0) :
    ∃ P, lowerPart env e r = .ok P := by
  unfold lowerPart
  by_cases hneg : e.lower env < 0
  · have hconstant : e.isConstant = false := by
      rw [Bool.eq_false_iff]
      intro hc
      rw [Expression.lower, if_pos hc] at hneg
      rw [Expression.upper_of_isConstant he.constant hc] at hv
      exact hv hneg
    rw [Expression.infinity_eq hstore hconstant] at hl
    have hmake := hr.not_lowerSide_pos he hinf hstore hordered hl hneg hv
    obtain ⟨c, hc⟩ := Constraint.exists_compare (Or.inr hconstant) hmake
    rw [if_pos hneg]
    exact ⟨[c], by rw [hc]; rfl⟩
  · rw [if_neg hneg]
    exact ⟨[], rfl⟩

/-! ### Capturing a premise -/

/-- An equation that can be captured is, unless the bounds decide it. -/
theorem exists_reified {c : Constraint (Extended K)} (hc : c.expression.IsFinite)
    (hinf : 0 < env.infinity n) (hstore : ∀ v ∈ c.expression.vars, v.store = n)
    (hcompares : ∀ v ∈ c.expression.vars, env.Compares v)
    (hr : c.isReifiable env = true) (hs : c.mustBeSatisfied env = false)
    (hv : c.mustBeViolated env = false) : ∃ r, c.reified env = .ok r := by
  unfold Constraint.reified
  rw [hr, hs, hv]
  by_cases hpos : 0 < c.expression.upper env
  · exact ⟨c.expression, by simp [hpos]; rfl⟩
  · have hrelation : c.relation = .equal := by
      simp only [Constraint.isReifiable, Bool.and_eq_true, beq_iff_eq] at hr
      exact hr.1.1.1
    have hneg : ¬ c.expression.upper env < 0 := by
      simp only [Constraint.mustBeViolated, hrelation, Bool.or_eq_false_iff] at hv
      simpa using hv.2
    have hd := Expression.isDefined_upper hc hinf hstore hcompares
    have hzero : c.expression.upper env = 0 :=
      Extended.le_antisymm (le_of_not_lt hd isFinite_zero.isDefined hpos)
        (le_of_not_lt isFinite_zero.isDefined hd hneg)
    refine ⟨c.expression.neg, ?_⟩
    rw [hzero]
    simp [zero_eq]
    rfl

omit [IsStrictOrderedRing K] in
/-- What captures it is never negative. -/
theorem captures_of_reified {c : Constraint (Extended K)} (hc : c.expression.IsFinite)
    (hstore : ∀ v ∈ c.expression.vars, v.store = n)
    (hordered : ∀ v ∈ c.expression.vars, env.lower v ≤ env.upper v) (h : c.reified env = .ok r) :
    Captures env n r := by
  have hlinear := Constraint.isLinear_of_reified h
  obtain ⟨hr, -, -, hcase⟩ := Constraint.eq_of_reified h
  simp only [Constraint.isReifiable, Bool.and_eq_true, Bool.or_eq_true, decide_eq_true_eq] at hr
  obtain ⟨-, hsign⟩ := hr
  rcases hcase with ⟨hpos, rfl⟩ | ⟨hzero, rfl⟩
  · refine ⟨hc, hlinear, ?_, hstore, hordered⟩
    rcases hsign with h | h
    · exact h
    · exact (Extended.not_lt_of_le h hpos).elim
  · refine ⟨hc.neg, hlinear, ?_, ?_, ?_⟩
    · rw [Expression.lower_neg, eq_zero_of_beq hzero, zero_eq, neg_finite, neg_zero]
      exact (finite_le_finite 0 0).2 le_rfl
    · rwa [Expression.vars_neg]
    · rwa [Expression.vars_neg]

/-! ### Which implications can be replaced -/

variable {i : Implication (Extended K)}

/-- Where the bounds that are needed are there, and the premise is not decided, nothing fails. -/
theorem exists_replacement (hp : i.premise.expression.IsFinite)
    (hc : i.conclusion.expression.IsFinite) (hinf : 0 < env.infinity n)
    (hstore : ∀ v, i.Mentions v → v.store = n)
    (hordered : ∀ v, i.Mentions v → env.lower v ≤ env.upper v)
    (hv : i.conclusion.mustBeViolated env = false) (hhas : i.hasReplacement env = true)
    (hsatisfied : i.premise.mustBeSatisfied env = false)
    (hviolated : i.premise.mustBeViolated env = false) : ∃ P, i.replacement env = .ok P := by
  simp only [hasReplacement, Bool.and_eq_true, Bool.or_eq_true, Bool.not_eq_true',
    decide_eq_false_iff_not, beq_iff_eq, decide_eq_true_eq] at hhas
  obtain ⟨⟨hreifiable, hup⟩, hrelation⟩ := hhas
  simp only [Constraint.mustBeViolated, Bool.or_eq_false_iff, decide_eq_false_iff_not,
    Bool.and_eq_false_iff, beq_eq_false_iff_ne] at hv
  have hstorep : ∀ v ∈ i.premise.expression.vars, v.store = n := fun v h => hstore v (Or.inl h)
  have horderedp : ∀ v ∈ i.premise.expression.vars, env.lower v ≤ env.upper v := fun v h =>
    hordered v (Or.inl h)
  have hstorec : ∀ v ∈ i.conclusion.expression.vars, v.store = n := fun v h => hstore v (Or.inr h)
  have horderedc : ∀ v ∈ i.conclusion.expression.vars, env.lower v ≤ env.upper v := fun v h =>
    hordered v (Or.inr h)
  have hpos := Expression.infinity_pos hinf hstorec
  have hu : i.conclusion.expression.upper env < i.conclusion.expression.infinity env :=
    lt_of_not_le (Expression.isDefined_upper hc hinf hstorec fun v h =>
        Environment.compares_of_le (horderedc v h))
      (IsDefined.of_le (Extended.le_of_lt hpos)).2 hup
  obtain ⟨r, hr⟩ := exists_reified hp hinf hstorep
    (fun v h => Environment.compares_of_le (horderedp v h)) hreifiable hsatisfied hviolated
  have hcaptures := captures_of_reified hp hstorep horderedp hr
  obtain ⟨above, habove⟩ := exists_upperPart hc hcaptures hinf hstorec horderedc hu hv.1
  unfold replacement
  simp only [hreifiable, Bool.not_true, Bool.false_eq_true, ↓reduceIte, hup]
  cases hrel : i.conclusion.relation with
  | atMost => exact ⟨above, bind_eq_ok hr (bind_eq_ok habove rfl)⟩
  | equal =>
      have hl := hrelation.resolve_left (by rw [hrel]; decide)
      have hlow : ¬ i.conclusion.expression.lower env ≤ -i.conclusion.expression.infinity env :=
        fun h => Extended.not_lt_of_le h hl
      obtain ⟨below, hbelow⟩ := exists_lowerPart hc hcaptures hinf hstorec horderedc hl
        (hv.2.resolve_left (by simp [hrel]))
      refine ⟨above ++ below, bind_eq_ok hr (bind_eq_ok habove ?_)⟩
      simp only [hlow, ↓reduceIte]
      exact bind_eq_ok hbelow rfl

omit [IsStrictOrderedRing K] in
/-- Where the bounds that are needed are there, a premise that is not captured is why it fails. -/
theorem replacement_eq_error {fault : Fault (Extended K)} (hhas : i.hasReplacement env = true)
    (hr : i.premise.reified env = .error fault) : i.replacement env = .error fault := by
  simp only [hasReplacement, Bool.and_eq_true, Bool.not_eq_true', decide_eq_false_iff_not] at hhas
  unfold replacement
  simp only [hhas.1.1, Bool.not_true, Bool.false_eq_true, ↓reduceIte, hhas.1.2, hr]
  rfl

/-- What is replaced has the bounds that are needed, and they do not decide the premise. -/
theorem hasReplacement_of_replacement (hc : i.conclusion.expression.IsFinite)
    (hinf : 0 < env.infinity n) (hstore : ∀ v ∈ i.conclusion.expression.vars, v.store = n)
    (hcompares : ∀ v ∈ i.conclusion.expression.vars, env.Compares v)
    {P : List (Constraint (Extended K))} (h : i.replacement env = .ok P) :
    i.hasReplacement env = true ∧ i.premise.mustBeSatisfied env = false ∧
      i.premise.mustBeViolated env = false := by
  obtain ⟨hup, r, above, hr, -, hcase⟩ := eq_of_replacement h
  obtain ⟨hreifiable, hs, hviolated, -⟩ := Constraint.eq_of_reified hr
  refine ⟨?_, hs, hviolated⟩
  simp only [hasReplacement, hreifiable, hup, decide_false, Bool.not_false, Bool.and_self,
    Bool.true_and, Bool.or_eq_true, beq_iff_eq, decide_eq_true_eq]
  rcases hcase with ⟨hrelation, -⟩ | ⟨-, hlow, -⟩
  · exact Or.inl hrelation
  · have hinfinity := Expression.infinity_pos hinf hstore
    exact Or.inr (lt_of_not_le (IsDefined.of_le (Extended.le_of_lt hinfinity)).2.neg
      (Expression.isDefined_lower hc hinf hstore hcompares) hlow)

/-- **Which implications can be replaced.**  What is replaced has the bounds that are needed, and they
do not decide its premise.  Where the bounds are in order and do not violate the conclusion, that is all
it takes.  Where the bounds that are needed are there and decide the premise, that is what is refused. -/
theorem replacement_exists_iff (hp : i.premise.expression.IsFinite)
    (hc : i.conclusion.expression.IsFinite) (hinf : 0 < env.infinity n)
    (hstore : ∀ v, i.Mentions v → v.store = n) (hcompares : ∀ v, i.Mentions v → env.Compares v) :
    ((∃ P, i.replacement env = .ok P) →
      i.hasReplacement env = true ∧ i.premise.mustBeSatisfied env = false ∧
        i.premise.mustBeViolated env = false) ∧
    (i.conclusion.mustBeViolated env = false →
      (∀ v, i.Mentions v → env.lower v ≤ env.upper v) →
      ((∃ P, i.replacement env = .ok P) ↔
        i.hasReplacement env = true ∧ i.premise.mustBeSatisfied env = false ∧
          i.premise.mustBeViolated env = false)) ∧
    (i.hasReplacement env = true → i.premise.mustBeSatisfied env = true →
      i.replacement env = .error (.alwaysSatisfied i.premise)) ∧
    (i.hasReplacement env = true → i.premise.mustBeSatisfied env = false →
      i.premise.mustBeViolated env = true →
      i.replacement env = .error (.alwaysViolated i.premise)) := by
  have hneeded : (∃ P, i.replacement env = .ok P) →
      i.hasReplacement env = true ∧ i.premise.mustBeSatisfied env = false ∧
        i.premise.mustBeViolated env = false := by
    rintro ⟨P, hP⟩
    exact hasReplacement_of_replacement hc hinf (fun v h => hstore v (Or.inr h))
      (fun v h => hcompares v (Or.inr h)) hP
  have hreifiable : i.hasReplacement env = true → i.premise.isReifiable env = true := by
    intro hhas
    simp only [hasReplacement, Bool.and_eq_true] at hhas
    exact hhas.1.1
  refine ⟨hneeded, ?_, ?_, ?_⟩
  · intro hv hordered
    refine ⟨hneeded, ?_⟩
    rintro ⟨hhas, hs, hviolated⟩
    exact exists_replacement hp hc hinf hstore hordered hv hhas hs hviolated
  · intro hhas hs
    apply replacement_eq_error hhas
    rw [Constraint.reified, hreifiable hhas, hs]
    rfl
  · intro hhas hs hviolated
    apply replacement_eq_error hhas
    rw [Constraint.reified, hreifiable hhas, hs, hviolated]
    rfl

/-- With a binary variable `x` and a variable `y` from zero to ten, `y ≤ 3` where `x` is one can be
replaced. -/
theorem replacement_exists_for_switch :
    let x : Variable := ⟨0, 0⟩
    let y : Variable := ⟨0, 1⟩
    let env : Environment (Extended ℚ) :=
      { attributes := fun v =>
          if v.slot = 0 then ⟨.binary, finite 0, finite 1, none⟩
          else ⟨.continuous, finite 0, finite 10, none⟩
        infinity := fun _ => infinite false }
    let i : Implication (Extended ℚ) :=
      { premise := ⟨.equal, (Expression.ofVariable x).addConstant (finite (-1)), none⟩
        conclusion := ⟨.atMost, (Expression.ofVariable y).addConstant (finite (-3)), none⟩
        name := none }
    ∃ P, i.replacement env = .ok P := by
  intro x y env i
  have hp : i.premise.expression.Canonical :=
    (Expression.canonical_ofVariable x).addConstant (isFinite_finite _)
  have hc : i.conclusion.expression.Canonical :=
    (Expression.canonical_ofVariable y).addConstant (isFinite_finite _)
  have hinf : 0 < env.infinity 0 := by decide +kernel
  have hmentions : ∀ P : Variable → Prop, P x → P y → ∀ v, i.Mentions v → P v := by
    rintro P hx hy v (hv | hv)
    · exact (Expression.forall_mem_vars_iff _ P).2 (by simpa [i, Expression.terms,
        Expression.variableTerms, Expression.pairTerms, Expression.ofVariable,
        Expression.addConstant, Coefficients.single, Coefficients.empty, Term.vars] using hx) v hv
    · exact (Expression.forall_mem_vars_iff _ P).2 (by simpa [i, Expression.terms,
        Expression.variableTerms, Expression.pairTerms, Expression.ofVariable,
        Expression.addConstant, Coefficients.single, Coefficients.empty, Term.vars] using hy) v hv
  have hordered : ∀ v, i.Mentions v → env.lower v ≤ env.upper v :=
    hmentions _ (by decide +kernel) (by decide +kernel)
  obtain ⟨-, hiff, -⟩ := replacement_exists_iff hp.toIsFinite hc.toIsFinite hinf
    (hmentions _ rfl rfl) fun v hv => Environment.compares_of_le (hordered v hv)
  exact (hiff (by decide +kernel) hordered).2 (by decide +kernel)

/-- The predicate asks neither whether the bounds decide the premise nor whether they are in order.
With `x` fixed at one, `y ≤ 5` where `x` is one has the bounds that are needed, and is not replaced.
With `x` from 5 to 1, which is nowhere, and a whole `y` from 0 to 4.5, neither is `10 y ≤ 35.5` where
`x + y` is five, although the bounds decide nothing there. -/
theorem hasReplacement_does_not_suffice :
    let x : Variable := ⟨0, 0⟩
    let y : Variable := ⟨0, 1⟩
    let fixed : Environment (Extended ℚ) :=
      { attributes := fun v =>
          if v.slot = 0 then ⟨.binary, finite 1, finite 1, none⟩
          else ⟨.continuous, finite 0, finite 10, none⟩
        infinity := fun _ => infinite false }
    let i : Implication (Extended ℚ) :=
      { premise := ⟨.equal, (Expression.ofVariable x).addConstant (finite (-1)), none⟩
        conclusion := ⟨.atMost, (Expression.ofVariable y).addConstant (finite (-5)), none⟩
        name := none }
    let crossed : Environment (Extended ℚ) :=
      { attributes := fun v =>
          if v.slot = 0 then ⟨.integer, finite 5, finite 1, none⟩
          else ⟨.integer, finite 0, finite (9 / 2), none⟩
        infinity := fun _ => infinite false }
    let j : Implication (Extended ℚ) :=
      { premise :=
          ⟨.equal, ((Expression.ofVariable x).addConstant (finite (-5))).addVariable y 1, none⟩
        conclusion := ⟨.atMost, ((Expression.ofVariable y).scale (finite 10)).addConstant
          (finite (-71 / 2)), none⟩
        name := none }
    (i.conclusion.mustBeViolated fixed = false ∧
      ¬ (i.hasReplacement fixed = true ↔ ∃ P, i.replacement fixed = .ok P)) ∧
    j.conclusion.mustBeViolated crossed = false ∧
      j.premise.mustBeSatisfied crossed = false ∧ j.premise.mustBeViolated crossed = false ∧
      ¬ (j.hasReplacement crossed = true ↔ ∃ P, j.replacement crossed = .ok P) := by
  intro x y fixed i crossed j
  have hrefused : ∀ {k : Implication (Extended ℚ)} {env : Environment (Extended ℚ)},
      k.hasReplacement env = true → (k.replacement env).toBool = false →
      ¬ (k.hasReplacement env = true ↔ ∃ P, k.replacement env = .ok P) := by
    intro k env hhas hno h
    obtain ⟨P, hP⟩ := h.1 hhas
    rw [hP] at hno
    cases hno
  refine ⟨⟨?_, hrefused ?_ ?_⟩, ?_, ?_, ?_, hrefused ?_ ?_⟩ <;> decide +kernel

end Implication

end MixedInteger
