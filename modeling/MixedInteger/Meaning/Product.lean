/-
**The value of a product.**

Main results:

* `MixedInteger.Expression.value_mul` — **the value of a product is the product of the values**;
* `MixedInteger.Expression.value_div` — and that of a quotient is the quotient.
-/

import MixedInteger.Expression.Product
import MixedInteger.Meaning.Value

set_option autoImplicit false

namespace MixedInteger.Expression

variable {K : Type} [Field K]

/-- The value of a pair does not depend on the order in which its members were given. -/
theorem pairValue_of (s : Assignment K) (v w : Variable) :
    pairValue s (VariablePair.of v w) = s v * s w := by
  unfold VariablePair.of
  split
  · exact mul_comm _ _
  · rfl

/-- Without entries, a weighted sum is zero. -/
theorem weigh_of_isEmpty {κ : Type} {m : Coefficients κ (Extended K)} (h : m.isEmpty = true)
    (weight : κ → K) : m.weigh weight = 0 := by
  have : m.entries = [] := by simpa [Coefficients.isEmpty] using h
  simp [Coefficients.weigh, this]

/-- A constant has its own value everywhere. -/
theorem value_of_isConstant {e : Expression (Extended K)} (h : e.isConstant = true)
    (s : Assignment K) : e.value s = e.constant.toNumber := by
  simp only [isConstant, Bool.and_eq_true] at h
  simp [value, weigh_of_isEmpty h.1, weigh_of_isEmpty h.2]

variable [LinearOrder K] [FloorRing K]

/-- The coefficients of products of linear terms are numbers. -/
theorem isFinite_crossTerms {e f : Expression (Extended K)} (he : e.linear.IsFinite)
    (hf : f.linear.IsFinite) : ∀ t ∈ crossTerms e f, t.2.IsFinite := by
  intro t ht
  simp only [crossTerms, List.mem_flatMap, List.mem_map] at ht
  obtain ⟨x, hx, y, hy, rfl⟩ := ht
  exact (he x hx).mul (hf y hy)

/-- One linear term times all linear terms of another expression. -/
theorem sum_termProducts {a : Extended K} (ha : a.IsFinite) (v : Variable)
    {es : List (Variable × Extended K)} (hes : ∀ t ∈ es, t.2.IsFinite) (s : Assignment K) :
    ((es.map fun y => (VariablePair.of v y.1, a * y.2)).map
        fun t => t.2.toNumber * pairValue s t.1).sum =
      a.toNumber * s v * (es.map fun t => t.2.toNumber * s t.1).sum := by
  induction es with
  | nil => simp
  | cons y rest ih =>
      have hy : y.2.IsFinite := hes y (by simp)
      simp only [List.map_cons, List.sum_cons, pairValue_of, Extended.toNumber_mul ha hy,
        ih fun u hu => hes u (by simp [hu])]
      ring

/-- The products of linear terms add up to the product of the sums. -/
theorem sum_crossTerms {e f : Expression (Extended K)} (he : e.linear.IsFinite)
    (hf : f.linear.IsFinite) (s : Assignment K) :
    ((crossTerms e f).map fun t => t.2.toNumber * pairValue s t.1).sum =
      e.linear.weigh s * f.linear.weigh s := by
  simp only [crossTerms, Coefficients.weigh]
  unfold Coefficients.IsFinite at he
  generalize e.linear.entries = es at he
  induction es with
  | nil => simp
  | cons x rest ih =>
      have hx : x.2.IsFinite := he x (by simp)
      rw [List.flatMap_cons, List.map_append, List.sum_append, sum_termProducts hx x.1 hf s,
        ih fun u hu => he u (by simp [hu])]
      simp only [List.map_cons, List.sum_cons]
      ring

/-- Numbers times a number are numbers. -/
theorem isFinite_times {κ : Type} {a : Extended K} (ha : a.IsFinite) {es : List (κ × Extended K)}
    (hes : ∀ t ∈ es, t.2.IsFinite) : ∀ t ∈ es.map fun x => (x.1, a * x.2), t.2.IsFinite := by
  intro t ht
  obtain ⟨x, hx, rfl⟩ := List.mem_map.1 ht
  exact ha.mul (hes x hx)

/-- A factor of all coefficients comes out of their weighted sum. -/
theorem sum_times {κ : Type} {a : Extended K} (ha : a.IsFinite) {es : List (κ × Extended K)}
    (hes : ∀ t ∈ es, t.2.IsFinite) (weight : κ → K) :
    ((es.map fun x => (x.1, a * x.2)).map fun t => t.2.toNumber * weight t.1).sum =
      a.toNumber * (es.map fun t => t.2.toNumber * weight t.1).sum := by
  induction es with
  | nil => simp
  | cons x rest ih =>
      have hx : x.2.IsFinite := hes x (by simp)
      simp only [List.map_cons, List.sum_cons, Extended.toNumber_mul ha hx,
        ih fun u hu => hes u (by simp [hu])]
      ring

theorem IsFinite.product {e f : Expression (Extended K)} (he : e.IsFinite) (hf : f.IsFinite) :
    (e.product f).IsFinite where
  constant := (he.scale hf.constant).constant
  linear := (he.scale hf.constant).linear.accumulateAll (isFinite_times he.constant hf.linear)
  quadratic :=
    ((he.scale hf.constant).quadratic.accumulateAll
      (isFinite_times he.constant hf.quadratic)).accumulateAll
        (isFinite_crossTerms he.linear hf.linear)

/-- The value of a product, as far as its terms go: products of degree three and four are left
out. -/
theorem value_product {e f : Expression (Extended K)} (he : e.IsFinite) (hf : f.IsFinite)
    (s : Assignment K) :
    (e.product f).value s =
      e.value s * f.constant.toNumber +
        e.constant.toNumber * (f.linear.weigh s + f.quadratic.weigh (pairValue s)) +
        e.linear.weigh s * f.linear.weigh s := by
  have hs := he.scale hf.constant
  have h := value_scale he hf.constant s
  simp only [value] at h ⊢
  simp only [product,
    Coefficients.weigh_accumulateAll hs.linear (isFinite_times he.constant hf.linear),
    Coefficients.weigh_accumulateAll
      (hs.quadratic.accumulateAll (isFinite_times he.constant hf.quadratic))
      (isFinite_crossTerms he.linear hf.linear),
    Coefficients.weigh_accumulateAll hs.quadratic (isFinite_times he.constant hf.quadratic),
    sum_crossTerms he.linear hf.linear, sum_times he.constant hf.linear,
    sum_times he.constant hf.quadratic]
  simp only [Coefficients.weigh] at h ⊢
  linear_combination h

/-- The value of a product is the product of the values. -/
theorem value_mul {e f g : Expression (Extended K)} (he : e.IsFinite) (hf : f.IsFinite)
    (h : e.mul f = .ok g) (s : Assignment K) : g.value s = e.value s * f.value s := by
  unfold mul at h
  split at h
  · cases h
  · next hqq =>
      split at h
      · cases h
      · next hc =>
          cases h
          simp only [isQuadratic, Bool.and_eq_true, Bool.not_eq_true', Bool.or_eq_true,
            not_and, not_or, Bool.not_eq_false] at hqq hc
          rw [value_product he hf]
          simp only [value]
          by_cases hq : e.quadratic.isEmpty = true
          · by_cases hl : e.linear.isEmpty = true
            · rw [weigh_of_isEmpty hq, weigh_of_isEmpty hl]
              ring
            · have hfq : f.quadratic.isEmpty = true := by
                exact hc.2 (by simpa using hl)
              rw [weigh_of_isEmpty hq, weigh_of_isEmpty hfq]
              ring
          · have hfq : f.quadratic.isEmpty = true := hqq (by simpa using hq)
            have hfl : f.linear.isEmpty = true := hc.1 (by simpa using hq)
            rw [weigh_of_isEmpty hfq, weigh_of_isEmpty hfl]
            ring

/-- The value of a quotient by a number. -/
theorem value_divConstant {e g : Expression (Extended K)} (he : e.IsFinite) {c : Extended K}
    (hc : c.IsFinite) (h : e.divConstant c = .ok g) (s : Assignment K) :
    c.toNumber ≠ 0 ∧ g.value s = e.value s / c.toNumber := by
  unfold divConstant quotient at h
  by_cases hz : (c == 0) = true
  · simp only [hz, ↓reduceIte] at h
    cases h
  · simp only [hz] at h
    cases h
    have hn : c.toNumber ≠ 0 := fun h0 => hz ((Extended.beq_zero_iff hc).2 h0)
    have hd : (1 : Extended K) / c = .finite (1 / c.toNumber) := by
      rw [hc.eq_finite]
      exact Extended.finite_div 1 hn
    refine ⟨hn, ?_⟩
    rw [hd, value_scale he (Extended.isFinite_finite _)]
    simp [div_eq_mul_inv]

/-- The value of a quotient is the quotient of the values, and the divisor's value is not zero. -/
theorem value_div {e f g : Expression (Extended K)} (he : e.IsFinite) (hf : f.IsFinite)
    (h : e.div f = .ok g) (s : Assignment K) :
    f.value s ≠ 0 ∧ g.value s = e.value s / f.value s := by
  unfold div at h
  split at h
  · next hc =>
      rw [value_of_isConstant hc]
      exact value_divConstant he hf.constant h s
  · cases h

end MixedInteger.Expression
