/-
**A function has one canonical form.**

The coefficients of a polynomial of degree two can be read off from its values: the constant from the
value at zero, the coefficient of a product of two variables from four values, and then the
coefficient of a variable from two.  So canonical forms that have the same values store the same
terms, and which variables a function depends on shows in what is stored.

Main definitions:

* `MixedInteger.Expression.SameTerms` — the same constant and the same coefficients, in some order;
* `MixedInteger.Expression.DependsOn` — a change of one variable may change the value.

Main results:

* `MixedInteger.Expression.value_zero`, `MixedInteger.Expression.value_single`,
  `MixedInteger.Expression.number_pair` — coefficients from values;
* `MixedInteger.Expression.sameTerms_iff`, `MixedInteger.Expression.sub_eq_zero_iff`,
  `MixedInteger.Expression.mem_vars_iff_dependsOn` — canonical forms of one function;
* `MixedInteger.programs_build_canonical_forms` — **whatever programs build their expressions**.
-/

import MixedInteger.Proofs.Canonical
import Mathlib.Algebra.Order.Ring.Rat
import Mathlib.Data.Rat.Floor

set_option autoImplicit false

namespace MixedInteger

variable {K : Type} [Field K]

/-! ### Weighted sums -/

namespace Coefficients

variable {κ : Type}

/-- Only the weights of the keys matter. -/
theorem weigh_congr {m : Coefficients κ (Extended K)} {weight other : κ → K}
    (h : ∀ k ∈ m.keys, weight k = other k) : m.weigh weight = m.weigh other := by
  have hmap : (m.entries.map fun t => t.2.toNumber * weight t.1) =
      m.entries.map fun t => t.2.toNumber * other t.1 := by
    apply List.map_congr_left
    intro t ht
    rw [h t.1 (List.mem_map_of_mem ht)]
  rw [weigh, weigh, hmap]

/-- Where no key has weight, there is no sum. -/
theorem weigh_eq_zero {m : Coefficients κ (Extended K)} {weight : κ → K}
    (h : ∀ k ∈ m.keys, weight k = 0) : m.weigh weight = 0 := by
  rw [weigh_congr h]
  simp [weigh]

/-- The sum is linear in the weights. -/
theorem weigh_sub (m : Coefficients κ (Extended K)) (weight other : κ → K) :
    m.weigh (fun k => weight k - other k) = m.weigh weight - m.weigh other := by
  simp only [weigh]
  induction m.entries with
  | nil => simp
  | cons t rest ih =>
      simp only [List.map_cons, List.sum_cons, ih]
      ring

/-- In which order the entries come does not matter. -/
theorem weigh_perm {m n : Coefficients κ (Extended K)} (h : m.entries.Perm n.entries)
    (weight : κ → K) : m.weigh weight = n.weigh weight :=
  (h.map _).sum_eq

variable [DecidableEq κ]

/-- If one key alone has weight, the sum is its number times that weight. -/
theorem weigh_of_only {m : Coefficients κ (Extended K)} {k : κ} {weight : κ → K}
    (h : ∀ j, j ≠ k → weight j = 0) : m.weigh weight = m.number k * weight k := by
  have hrest : (m.erase k).weigh weight = 0 := by
    apply weigh_eq_zero
    intro j hj
    obtain ⟨t, ht, rfl⟩ := List.mem_map.1 hj
    exact h t.1 (by simpa using (List.mem_filter.1 ht).2)
  rw [weigh_eq_number_mul_add m k, hrest, add_zero]

/-- Where no coefficient is zero, the keys are those that have a number other than zero. -/
theorem NoZero.mem_keys_iff {m : Coefficients κ (Extended K)} (h : m.NoZero) (k : κ) :
    k ∈ m.keys ↔ m.number k ≠ 0 := by
  constructor
  · intro hk
    obtain ⟨⟨j, a⟩, ht, rfl⟩ := List.mem_map.1 hk
    have hg : m.get? j = some a := (mem_entries_iff m j a).1 ht
    simpa [number, hg] using h _ ht
  · intro hn
    cases hg : m.get? k with
    | none => simp [number, hg] at hn
    | some a => exact List.mem_map_of_mem (f := Prod.fst) ((mem_entries_iff m k a).2 hg)

/-- Where no coefficient is zero, the numbers say everything. -/
theorem NoZero.get?_eq {m n : Coefficients κ (Extended K)} (hm : m.NoZero) (hn : n.NoZero)
    (fm : m.IsFinite) (fn : n.IsFinite) {k : κ} (h : m.number k = n.number k) :
    m.get? k = n.get? k := by
  have hkeys : k ∈ m.keys ↔ k ∈ n.keys := by rw [hm.mem_keys_iff, hn.mem_keys_iff, h]
  have hnone : ∀ {l : Coefficients κ (Extended K)}, l.get? k = none ↔ k ∉ l.keys := by
    intro l
    rw [Option.eq_none_iff_forall_ne_some]
    simp only [keys, List.mem_map, Prod.exists, exists_and_right, exists_eq_right, not_exists,
      ne_eq, mem_entries_iff]
  cases hg : m.get? k with
  | none => rw [eq_comm, hnone, ← hkeys, ← hnone, hg]
  | some a =>
      cases hg' : n.get? k with
      | none =>
          rw [hnone, ← hkeys, ← hnone, hg] at hg'
          cases hg'
      | some b =>
          simp only [number, hg, hg', Option.map_some, Option.getD_some] at h
          rw [(fm.get? hg).eq_finite, (fn.get? hg').eq_finite, h]

end Coefficients

/-! ### Coefficients from values -/

namespace Expression

/-- At zero the value is the constant. -/
theorem value_zero (e : Expression (Extended K)) : e.value 0 = e.constant.toNumber := by
  have hl : e.linear.weigh (0 : Assignment K) = 0 := Coefficients.weigh_eq_zero fun _ _ => rfl
  have hq : e.quadratic.weigh (pairValue (0 : Assignment K)) = 0 :=
    Coefficients.weigh_eq_zero fun _ _ => mul_zero _
  rw [value, hl, hq, add_zero, add_zero]

/-- Two assignments put together give the products of two variables mixed values. -/
theorem value_mixed (e : Expression (Extended K)) (s t : Assignment K) :
    e.quadratic.weigh (fun p => s p.first * t p.second + t p.first * s p.second) =
      e.value (s + t) - e.value s - e.value t + e.value 0 := by
  have hq : e.quadratic.weigh (fun p => s p.first * t p.second + t p.first * s p.second) =
      e.quadratic.weigh (pairValue (s + t)) - e.quadratic.weigh (pairValue s) -
        e.quadratic.weigh (pairValue t) := by
    rw [← Coefficients.weigh_sub, ← Coefficients.weigh_sub]
    congr 1
    funext p
    simp only [pairValue, Pi.add_apply]
    ring
  have hl : e.linear.weigh t = e.linear.weigh (s + t) - e.linear.weigh s := by
    rw [← Coefficients.weigh_sub]
    congr 1
    funext v
    simp
  rw [hq, value_zero]
  simp only [value, hl]
  ring

/-- Where one variable alone is one, the value is made of three coefficients. -/
theorem value_single (e : Expression (Extended K)) (v : Variable) :
    e.value (Pi.single v 1) =
      e.constant.toNumber + e.linear.number v + e.quadratic.number (.of v v) := by
  have hl : e.linear.weigh (Pi.single v (1 : K)) = e.linear.number v := by
    rw [Coefficients.weigh_of_only (k := v), Pi.single_eq_same, mul_one]
    intro w hw
    exact Pi.single_eq_of_ne hw 1
  have hq : e.quadratic.weigh (pairValue (Pi.single v (1 : K))) = e.quadratic.number (.of v v) := by
    rw [Coefficients.weigh_of_only (k := .of v v), pairValue_of, Pi.single_eq_same, mul_one, mul_one]
    intro p hp
    rw [pairValue, mul_eq_zero]
    by_contra hne
    simp only [Pi.single_apply, ite_eq_right_iff, one_ne_zero, imp_false, not_or, not_not] at hne
    exact hp (by rw [← VariablePair.of_first_second p, hne.1, hne.2])
  rw [value, hl, hq]

/-- The coefficient of a product of two variables shows in the mixed values of both; that of a square
shows twice. -/
theorem number_pair (e : Expression (Extended K)) (v w : Variable) :
    e.quadratic.number (.of v w) * (if v = w then 2 else 1) =
      e.value (Pi.single v 1 + Pi.single w 1) - e.value (Pi.single v 1) - e.value (Pi.single w 1) +
        e.value 0 := by
  let weight : VariablePair → K := fun p =>
    (Pi.single v 1 : Assignment K) p.first * (Pi.single w 1 : Assignment K) p.second +
      (Pi.single w 1 : Assignment K) p.first * (Pi.single v 1 : Assignment K) p.second
  have hother : ∀ p : VariablePair, p ≠ .of v w → weight p = 0 := by
    intro p hp
    have hvw : ¬ (p.first = v ∧ p.second = w) := by
      rintro ⟨rfl, rfl⟩
      exact hp (VariablePair.of_first_second p).symm
    have hwv : ¬ (p.first = w ∧ p.second = v) := by
      rintro ⟨rfl, rfl⟩
      exact hp ((VariablePair.of_first_second p).symm.trans (VariablePair.of_comm _ _))
    simp only [weight, Pi.single_apply, mul_ite, mul_one, mul_zero, ← ite_and]
    rw [if_neg fun h => hvw h.symm, if_neg fun h => hwv h.symm, add_zero]
  have hown : weight (.of v w) = if v = w then 2 else 1 := by
    unfold VariablePair.of
    by_cases h : v = w
    · subst h
      simp [weight, Variable.before_irrefl, one_add_one_eq_two]
    · split <;> simp [weight, h, Ne.symm h]
  rw [← hown, ← Coefficients.weigh_of_only hother, value_mixed]

/-! ### Canonical forms of one function -/

/-- The same constant, and the same coefficients up to their order. -/
structure SameTerms (e f : Expression (Extended K)) : Prop where
  constant : e.constant = f.constant
  linear : e.linear.entries.Perm f.linear.entries
  quadratic : e.quadratic.entries.Perm f.quadratic.entries

/-- Some change of the variable alone changes the value. -/
def DependsOn (e : Expression (Extended K)) (v : Variable) : Prop :=
  ∃ s t : Assignment K, (∀ w, w ≠ v → s w = t w) ∧ e.value s ≠ e.value t

theorem SameTerms.value_eq {e f : Expression (Extended K)} (h : e.SameTerms f) (s : Assignment K) :
    e.value s = f.value s := by
  rw [value, value, h.constant, Coefficients.weigh_perm h.linear,
    Coefficients.weigh_perm h.quadratic]

/-- What stores the terms of zero is zero. -/
theorem SameTerms.eq_zero [LinearOrder K] [FloorRing K] {e : Expression (Extended K)}
    (h : e.SameTerms (const 0)) : e = const 0 := by
  obtain ⟨c, ⟨l, hl⟩, ⟨q, hq⟩⟩ := e
  obtain ⟨hc, hpl, hpq⟩ := h
  obtain rfl : c = 0 := hc
  obtain rfl : l = [] := hpl.eq_nil
  obtain rfl : q = [] := hpq.eq_nil
  rfl

/-- Only the variables that occur matter for the value. -/
theorem value_congr {e : Expression (Extended K)} {s t : Assignment K}
    (h : ∀ v ∈ e.vars, s v = t v) : e.value s = e.value t := by
  have hl : e.linear.weigh s = e.linear.weigh t :=
    Coefficients.weigh_congr fun v hv => h v (mem_vars_of_mem_linear hv)
  have hq : e.quadratic.weigh (pairValue s) = e.quadratic.weigh (pairValue t) := by
    apply Coefficients.weigh_congr
    intro p hp
    obtain ⟨hf, hs⟩ := mem_vars_of_mem_quadratic hp
    rw [pairValue, pairValue, h _ hf, h _ hs]
  rw [value, value, hl, hq]

variable [LinearOrder K] [IsStrictOrderedRing K]

/-- The coefficients of a function, whatever its values were read from. -/
theorem numbers_eq {e f : Expression (Extended K)} (h : ∀ s : Assignment K, e.value s = f.value s) :
    (∀ v, e.linear.number v = f.linear.number v) ∧
      ∀ p, e.quadratic.number p = f.quadratic.number p := by
  have hpair : ∀ v w, e.quadratic.number (.of v w) = f.quadratic.number (.of v w) := by
    intro v w
    have hfactor : (if v = w then 2 else 1 : K) ≠ 0 := by split <;> norm_num
    apply mul_right_cancel₀ hfactor
    -- a square is counted twice on both sides
    rw [number_pair, number_pair, h, h, h, h]
  refine ⟨fun v => ?_, fun p => ?_⟩
  · have hv := h (Pi.single v 1)
    have hc := h 0
    rw [value_single, value_single, hpair] at hv
    rw [value_zero, value_zero] at hc
    linear_combination hv - hc
  · rw [← VariablePair.of_first_second p]
    exact hpair _ _

/-- **Canonical forms with the same values store the same terms.** -/
theorem sameTerms_iff {e f : Expression (Extended K)} (he : e.Canonical) (hf : f.Canonical) :
    e.SameTerms f ↔ ∀ s : Assignment K, e.value s = f.value s := by
  refine ⟨fun h s => h.value_eq s, fun h => ?_⟩
  obtain ⟨hl, hq⟩ := numbers_eq h
  have hc := h 0
  rw [value_zero, value_zero] at hc
  refine ⟨?_, ?_, ?_⟩
  · rw [he.constant.eq_finite, hf.constant.eq_finite, hc]
  · exact Coefficients.perm_of_get?_eq fun v =>
      he.noZeroLinear.get?_eq hf.noZeroLinear he.linear hf.linear (hl v)
  · exact Coefficients.perm_of_get?_eq fun p =>
      he.noZeroQuadratic.get?_eq hf.noZeroQuadratic he.quadratic hf.quadratic (hq p)

/-- The difference of two canonical forms is zero if and only if they have the same values. -/
theorem sub_eq_zero_iff [FloorRing K] {e f : Expression (Extended K)} (he : e.Canonical)
    (hf : f.Canonical) : e.sub f = const 0 ↔ ∀ s : Assignment K, e.value s = f.value s := by
  have hv : ∀ s : Assignment K, (e.sub f).value s = e.value s - f.value s :=
    value_sub he.toIsFinite hf.toIsFinite
  constructor
  · intro h s
    have hs := hv s
    rw [h, value_const] at hs
    exact (sub_eq_zero.1 hs.symm)
  · intro h
    apply SameTerms.eq_zero
    rw [sameTerms_iff (he.sub hf) (canonical_const Extended.isFinite_zero)]
    intro s
    rw [hv, h, sub_self, value_const]
    rfl

/-- The variables that occur in a canonical form are those that its value depends on. -/
theorem mem_vars_iff_dependsOn {e : Expression (Extended K)} (he : e.Canonical) (v : Variable) :
    v ∈ e.vars ↔ e.DependsOn v := by
  constructor
  · intro hv
    by_contra hd
    have hsame : ∀ s t : Assignment K, (∀ w, w ≠ v → s w = t w) → e.value s = e.value t := by
      intro s t h
      by_contra hne
      exact hd ⟨s, t, h, hne⟩
    have hsingle : e.value (Pi.single v 1) = e.value 0 :=
      hsame _ _ fun w hw => Pi.single_eq_of_ne hw 1
    -- what is mixed with the variable has no coefficient, and then the variable has none either
    have hpair : ∀ w, e.quadratic.number (.of v w) = 0 := by
      intro w
      have hboth : e.value (Pi.single v 1 + Pi.single w 1) = e.value (Pi.single w 1) := by
        apply hsame
        intro u hu
        rw [Pi.add_apply, Pi.single_eq_of_ne hu, zero_add]
      have hfactor : (if v = w then 2 else 1 : K) ≠ 0 := by split <;> norm_num
      have h := number_pair e v w
      rw [hboth, hsingle] at h
      refine (mul_eq_zero.1 (h.trans ?_)).resolve_right hfactor
      ring
    have hlinear : e.linear.number v = 0 := by
      have h := value_single e v
      rw [hsingle, hpair, value_zero] at h
      linear_combination -h
    rcases (mem_vars_iff e v).1 hv with hk | ⟨p, hp, h⟩
    · exact (he.noZeroLinear.mem_keys_iff v).1 hk hlinear
    · apply (he.noZeroQuadratic.mem_keys_iff p).1 hp
      rcases h with rfl | rfl
      · rw [← VariablePair.of_first_second p]
        exact hpair _
      · rw [← VariablePair.of_first_second p, VariablePair.of_comm]
        exact hpair _
  · rintro ⟨s, t, hst, hne⟩
    by_contra hv
    apply hne
    apply value_congr
    intro w hw
    exact hst w fun h => hv (h ▸ hw)

end Expression

/-! ### Programs -/

variable [LinearOrder K] [IsStrictOrderedRing K] [FloorRing K]

/-- **Two programs, whatever their steps, store the same terms for the same function**: their cells
have the same values everywhere if and only if they hold the same terms, which is when their
difference is zero; and the variables that occur in a cell are those that its value depends on. -/
theorem programs_build_canonical_forms (p q : List (Cells.Step (Extended K)))
    (hp : ∀ step ∈ p, step.IsFinite) (hq : ∀ step ∈ q, step.IsFinite) (i j : Nat) :
    let e := (Cells.run #[] p).fetch i
    let f := (Cells.run #[] q).fetch j
    (e.SameTerms f ↔ ∀ s : Assignment K, e.value s = f.value s) ∧
    (e.sub f = .const 0 ↔ ∀ s : Assignment K, e.value s = f.value s) ∧
    ∀ v, v ∈ e.vars ↔ e.DependsOn v := by
  intro e f
  have he : e.Canonical := Cells.canonical_empty.run hp i
  have hf : f.Canonical := Cells.canonical_empty.run hq j
  exact ⟨Expression.sameTerms_iff he hf, Expression.sub_eq_zero_iff he hf,
    Expression.mem_vars_iff_dependsOn he⟩

/-- `(x + y) * (x - y)`, and `x * x` from which `y * y` is taken away in place: two programs for one
function, which is kept as `x * x - y * y` and depends on `x` and `y`. -/
theorem programs_build_canonical_forms_of_squares :
    let x : Cells.Reference (Extended ℚ) := .variable ⟨0, 0⟩
    let y : Cells.Reference (Extended ℚ) := .variable ⟨0, 1⟩
    let p := [.compute .add x y, .compute .sub x y, .compute .mul (.cell 0) (.cell 1)]
    let q := [.compute .mul x x, .compute .mul y y, .change .sub 0 (.cell 1)]
    let e := (Cells.run #[] p).fetch 2
    let f := (Cells.run #[] q).fetch 0
    e.quadratic.entries = [(.of ⟨0, 0⟩ ⟨0, 0⟩, 1), (.of ⟨0, 1⟩ ⟨0, 1⟩, -1)] ∧
      (∀ s : Assignment ℚ, e.value s = f.value s) ∧ e.sub f = .const 0 ∧
      e.DependsOn ⟨0, 0⟩ ∧ e.DependsOn ⟨0, 1⟩ ∧ ¬ e.DependsOn ⟨0, 2⟩ := by
  intro x y p q e f
  have hp : ∀ step ∈ p, step.IsFinite := by
    simp [p, x, y, Cells.Step.IsFinite, Cells.Reference.IsFinite]
  have hq : ∀ step ∈ q, step.IsFinite := by
    simp [q, x, y, Cells.Step.IsFinite, Cells.Reference.IsFinite]
  obtain ⟨hterms, hzero, hdepends⟩ := programs_build_canonical_forms p q hp hq 2 0
  have hsame : e.SameTerms f :=
    ⟨by decide +kernel, by decide +kernel, by decide +kernel⟩
  have hoccurs : ∀ v, (v ∈ e.linear.keys ∨ ∃ p ∈ e.quadratic.keys, v = p.first ∨ v = p.second) ↔
      e.DependsOn v := fun v => (Expression.mem_vars_iff e v).symm.trans (hdepends v)
  refine ⟨by decide +kernel, hterms.1 hsame, hzero.2 (hterms.1 hsame), ?_⟩
  rw [← hoccurs, ← hoccurs, ← hoccurs]
  decide +kernel

end MixedInteger
