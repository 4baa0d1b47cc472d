/-
**Products fail on their degree alone.**

A product is refused if terms of degree three or four would come up.  Which terms come up is decided by
looking at which kinds of terms the factors store, and in canonical forms that is their degree.  There
are no zero divisors among polynomials, so terms that meet may cancel, but the terms of the highest
degree never all do, and no variable is lost.

Main definitions:

* `MixedInteger.Expression.degree` — the degree, by the kinds of terms that are stored.

Main results:

* `MixedInteger.Expression.mul_eq` — a product is refused if the degrees add up to more than two;
* `MixedInteger.Expression.Canonical.totalDegree_polynomial`,
  `MixedInteger.Expression.Canonical.mem_vars_polynomial` — degree and variables of canonical forms are
  those of their polynomials;
* `MixedInteger.products_fail_on_their_degree` — **products of whatever programs build**.
-/

import MixedInteger.Expression.InPlace
import MixedInteger.Meaning.Polynomial
import Mathlib.Algebra.MvPolynomial.NoZeroDivisors

set_option autoImplicit false

namespace MixedInteger

/-! ### Degrees by kinds of terms -/

/-- There are coefficients if there is a key. -/
theorem Coefficients.isEmpty_eq_false_iff {κ α : Type} (m : Coefficients κ α) :
    m.isEmpty = false ↔ ∃ k, k ∈ m.keys := by
  rw [isEmpty, List.isEmpty_eq_false_iff_exists_mem]
  constructor
  · rintro ⟨t, ht⟩
    exact ⟨t.1, List.mem_map_of_mem ht⟩
  · rintro ⟨k, hk⟩
    obtain ⟨t, ht, -⟩ := List.mem_map.1 hk
    exact ⟨t, ht⟩

namespace Expression

variable {α : Type}

/-- Two with a product of variables, one with a variable, zero without. -/
def degree (e : Expression α) : Nat :=
  if e.isQuadratic then 2 else if e.linear.isEmpty then 0 else 1

theorem degree_of_isQuadratic {e : Expression α} (h : e.isQuadratic = true) : e.degree = 2 :=
  if_pos h

theorem isQuadratic_of_degree {e : Expression α} (h : e.degree = 2) : e.isQuadratic = true := by
  unfold degree at h
  split at h
  · assumption
  · split at h <;> cases h

theorem degree_of_mem_quadratic {e : Expression α} {p : VariablePair} (h : p ∈ e.quadratic.keys) :
    e.degree = 2 := by
  apply degree_of_isQuadratic
  rw [isQuadratic, (Coefficients.isEmpty_eq_false_iff _).2 ⟨p, h⟩]
  rfl

theorem one_le_degree_of_mem_linear {e : Expression α} {v : Variable} (h : v ∈ e.linear.keys) :
    1 ≤ e.degree := by
  unfold degree
  rw [(Coefficients.isEmpty_eq_false_iff _).2 ⟨v, h⟩]
  split <;> decide

/-- A degree that is not zero is that of a term. -/
theorem degree_cases (e : Expression α) :
    (e.degree = 2 ∧ ∃ p, p ∈ e.quadratic.keys) ∨ (e.degree = 1 ∧ ∃ v, v ∈ e.linear.keys) ∨
      e.degree = 0 := by
  unfold degree
  split
  · next hq =>
      rw [isQuadratic, Bool.not_eq_true', Coefficients.isEmpty_eq_false_iff] at hq
      exact Or.inl ⟨rfl, hq⟩
  · split
    · exact Or.inr (Or.inr rfl)
    · next hl =>
        rw [Bool.not_eq_true, Coefficients.isEmpty_eq_false_iff] at hl
        exact Or.inr (Or.inl ⟨rfl, hl⟩)

theorem degree_le_two (e : Expression α) : e.degree ≤ 2 := by
  rcases degree_cases e with ⟨h, -⟩ | ⟨h, -⟩ | h <;> omega

/-- The degree is one if variables occur, and none of them in a product. -/
theorem degree_of_isLinear {e : Expression α} (hl : e.isLinear = true)
    (hc : e.isConstant = false) : e.degree = 1 := by
  have hlinear : e.linear.isEmpty = false := by
    rw [isLinear] at hl
    rwa [isConstant, hl, Bool.and_true] at hc
  have hquadratic : e.isQuadratic = false := by
    rw [isQuadratic_eq_not_isLinear, hl]
    rfl
  rw [degree, hquadratic, hlinear]
  rfl

variable [Scalar α]

/-- A product is refused if the degrees of its factors add up to three or four. -/
theorem mul_eq (e f : Expression α) :
    e.mul f =
      if e.degree + f.degree = 4 then .error (.quarticProduct e f)
      else if e.degree + f.degree = 3 then .error (.cubicProduct e f)
      else .ok (e.product f) := by
  unfold mul degree
  cases e.isQuadratic <;> cases f.isQuadratic <;> cases e.linear.isEmpty <;>
    cases f.linear.isEmpty <;> rfl

theorem mul_eq_quarticProduct_iff (e f : Expression α) :
    e.mul f = .error (.quarticProduct e f) ↔ e.degree + f.degree = 4 := by
  rw [mul_eq]
  split
  · next h => simp [h]
  · next h => split <;> simp [h]

theorem mul_eq_cubicProduct_iff (e f : Expression α) :
    e.mul f = .error (.cubicProduct e f) ↔ e.degree + f.degree = 3 := by
  rw [mul_eq]
  split
  · next h => simp [h]
  · split
    · next h => simp [h]
    · next h => simp [h]

/-- Any other product is there. -/
theorem mul_eq_ok {e f : Expression α} (h3 : e.degree + f.degree ≠ 3)
    (h4 : e.degree + f.degree ≠ 4) : e.mul f = .ok (e.product f) := by
  rw [mul_eq, if_neg h4, if_neg h3]

end Expression

/-! ### Degrees and variables of polynomials -/

theorem VariablePair.sum_exponents (p : VariablePair) : (p.exponents.sum fun _ n => n) = 2 := by
  rw [exponents, Finsupp.sum_add_index' (fun _ => rfl) (fun _ _ _ => rfl),
    Finsupp.sum_single_index rfl, Finsupp.sum_single_index rfl]

theorem VariablePair.mem_support_exponents (p : VariablePair) (v : Variable) :
    v ∈ p.exponents.support ↔ v = p.first ∨ v = p.second := by
  simp only [exponents, Finsupp.mem_support_iff, Finsupp.add_apply, Finsupp.single_apply]
  grind

namespace Expression

variable {K : Type} [Field K]

/-- A term of a canonical form is one of its polynomial. -/
theorem Canonical.mem_support_of_mem_linear {e : Expression (Extended K)} (he : e.Canonical)
    {v : Variable} (hv : v ∈ e.linear.keys) :
    Finsupp.single v 1 ∈ e.polynomial.support := by
  rw [MvPolynomial.mem_support_iff, coeff_variable]
  exact (he.noZeroLinear.mem_keys_iff v).1 hv

theorem Canonical.mem_support_of_mem_quadratic {e : Expression (Extended K)} (he : e.Canonical)
    {p : VariablePair} (hp : p ∈ e.quadratic.keys) : p.exponents ∈ e.polynomial.support := by
  rw [MvPolynomial.mem_support_iff, coeff_pair]
  exact (he.noZeroQuadratic.mem_keys_iff p).1 hp

/-- The terms that are stored bound the degree of the polynomial. -/
theorem totalDegree_polynomial_le (e : Expression (Extended K)) :
    e.polynomial.totalDegree ≤ e.degree := by
  apply Finset.sup_le
  intro m hm
  rcases cases_of_mem_support hm with rfl | ⟨v, hv, rfl⟩ | ⟨p, hp, rfl⟩
  · exact Nat.zero_le _
  · rw [Finsupp.sum_single_index rfl]
    exact one_le_degree_of_mem_linear hv
  · rw [VariablePair.sum_exponents, degree_of_mem_quadratic hp]

/-- Degrees of canonical forms are those of their polynomials. -/
theorem Canonical.totalDegree_polynomial {e : Expression (Extended K)} (he : e.Canonical) :
    e.polynomial.totalDegree = e.degree := by
  apply le_antisymm (totalDegree_polynomial_le e)
  rcases degree_cases e with ⟨hd, p, hp⟩ | ⟨hd, v, hv⟩ | hd
  · have h := MvPolynomial.le_totalDegree (he.mem_support_of_mem_quadratic hp)
    rwa [VariablePair.sum_exponents, ← hd] at h
  · have h := MvPolynomial.le_totalDegree (he.mem_support_of_mem_linear hv)
    rwa [Finsupp.sum_single_index rfl, ← hd] at h
  · rw [hd]
    exact Nat.zero_le _

/-- The variables of a canonical form are those of its polynomial. -/
theorem Canonical.mem_vars_polynomial {e : Expression (Extended K)} (he : e.Canonical)
    (v : Variable) : v ∈ e.polynomial.vars ↔ v ∈ e.vars := by
  rw [MvPolynomial.mem_vars_iff_mem_support, mem_vars_iff]
  constructor
  · rintro ⟨m, hm, hv⟩
    rcases cases_of_mem_support hm with rfl | ⟨w, hw, rfl⟩ | ⟨p, hp, rfl⟩
    · simp at hv
    · rw [Finsupp.support_single w one_ne_zero, Finset.mem_singleton] at hv
      exact Or.inl (hv ▸ hw)
    · exact Or.inr ⟨p, hp, (p.mem_support_exponents v).1 hv⟩
  · rintro (hv | ⟨p, hp, hv⟩)
    · refine ⟨_, he.mem_support_of_mem_linear hv, ?_⟩
      rw [Finsupp.support_single v one_ne_zero, Finset.mem_singleton]
    · exact ⟨_, he.mem_support_of_mem_quadratic hp, (p.mem_support_exponents v).2 hv⟩

/-! ### Products -/

/-- A degree of three or more is that of a product of canonical forms if theirs add up to it. -/
theorem Canonical.totalDegree_mul_eq_iff {e f : Expression (Extended K)} (he : e.Canonical)
    (hf : f.Canonical) {n : ℕ} (hn : 2 < n) :
    (e.polynomial * f.polynomial).totalDegree = n ↔ e.degree + f.degree = n := by
  have hle := he.totalDegree_polynomial
  have hlf := hf.totalDegree_polynomial
  have h2e := degree_le_two e
  have h2f := degree_le_two f
  -- a factor of zero has no degree to lose, and the other one stays below three
  by_cases h0 : e.polynomial = 0 ∨ f.polynomial = 0
  · have hmul : (e.polynomial * f.polynomial).totalDegree = 0 := by
      rw [mul_eq_zero.2 h0, MvPolynomial.totalDegree_zero]
    have hzero : e.degree = 0 ∨ f.degree = 0 := by
      rcases h0 with h | h
      · exact Or.inl (by rw [← hle, h, MvPolynomial.totalDegree_zero])
      · exact Or.inr (by rw [← hlf, h, MvPolynomial.totalDegree_zero])
    omega
  · rw [not_or] at h0
    rw [MvPolynomial.totalDegree_mul_of_isDomain h0.1 h0.2, hle, hlf]

theorem Canonical.polynomial_ne_zero {e : Expression (Extended K)} (he : e.Canonical)
    (h : e.degree ≠ 0) : e.polynomial ≠ 0 := by
  intro h0
  rw [← he.totalDegree_polynomial, h0, MvPolynomial.totalDegree_zero] at h
  exact h rfl

variable [LinearOrder K] [IsStrictOrderedRing K] [FloorRing K]

/-- The polynomial of a product is the product of the polynomials. -/
theorem polynomial_mul {e f g : Expression (Extended K)} (he : e.IsFinite) (hf : f.IsFinite)
    (h : e.mul f = .ok g) : g.polynomial = e.polynomial * f.polynomial := by
  apply polynomial_eq_of_value
  intro s
  rw [value_mul he hf h, map_mul, eval_polynomial, eval_polynomial]

/-- A product of canonical forms other than zero has the degree of both together. -/
theorem Canonical.degree_mul {e f g : Expression (Extended K)} (he : e.Canonical)
    (hf : f.Canonical) (h : e.mul f = .ok g) (he0 : e.polynomial ≠ 0) (hf0 : f.polynomial ≠ 0) :
    g.degree = e.degree + f.degree := by
  rw [← (he.mul hf h).totalDegree_polynomial, polynomial_mul he.toIsFinite hf.toIsFinite h,
    MvPolynomial.totalDegree_mul_of_isDomain he0 hf0, he.totalDegree_polynomial,
    hf.totalDegree_polynomial]

/-- It keeps all variables. -/
theorem Canonical.mem_vars_mul {e f g : Expression (Extended K)} (he : e.Canonical)
    (hf : f.Canonical) (h : e.mul f = .ok g) (he0 : e.polynomial ≠ 0) (hf0 : f.polynomial ≠ 0)
    (v : Variable) : v ∈ g.vars ↔ v ∈ e.vars ∨ v ∈ f.vars := by
  have hvars : ∀ p : MvPolynomial Variable K, v ∈ p.vars ↔ v ∈ p.degrees := by
    intro p
    rw [MvPolynomial.vars_def, Multiset.mem_toFinset]
  rw [← (he.mul hf h).mem_vars_polynomial, ← he.mem_vars_polynomial, ← hf.mem_vars_polynomial,
    polynomial_mul he.toIsFinite hf.toIsFinite h, hvars, hvars, hvars,
    MvPolynomial.degrees_mul_eq he0 hf0, Multiset.mem_add]

end Expression

/-! ### Products of programs -/

variable {K : Type} [Field K] [LinearOrder K] [IsStrictOrderedRing K] [FloorRing K]

/-- **Products fail on their degree alone.**  Of whatever two cells a program leaves, the product is
refused as cubic if and only if it has degree three, and as quartic if and only if it has degree four;
in place, no cell has changed then.  Otherwise there is a product, also in place, and if neither factor
is zero its degree is the sum of theirs and its variables are those of both.  The product of two linear
expressions in which variables occur is quadratic. -/
theorem products_fail_on_their_degree (program : List (Cells.Step (Extended K)))
    (hp : ∀ step ∈ program, step.IsFinite) (i j : Nat) (hi : i < (Cells.run #[] program).size) :
    let cs := Cells.run #[] program
    let e := cs.fetch i
    let f := cs.fetch j
    let written := (Operand.expression e).operate .mul (.expression f)
    let inPlace := (Cells.multiply i j).execute cs
    let degree := (e.polynomial * f.polynomial).totalDegree
    (written = .error (.cubicProduct e f) ↔ degree = 3) ∧
    (written = .error (.quarticProduct e f) ↔ degree = 4) ∧
    (inPlace = (.error (.cubicProduct e f), cs) ↔ degree = 3) ∧
    (inPlace = (.error (.quarticProduct e f), cs) ↔ degree = 4) ∧
    (degree ≠ 3 → degree ≠ 4 →
      ∃ g, written = .ok g ∧ inPlace = (.ok (), cs.put i g) ∧
        g.polynomial = e.polynomial * f.polynomial ∧
        (e.polynomial ≠ 0 → f.polynomial ≠ 0 →
          g.polynomial.totalDegree = e.polynomial.totalDegree + f.polynomial.totalDegree ∧
            ∀ v, v ∈ g.vars ↔ v ∈ e.vars ∨ v ∈ f.vars)) ∧
    (e.isLinear = true → e.isConstant = false → f.isLinear = true → f.isConstant = false →
      ∃ g, written = .ok g ∧ inPlace = (.ok (), cs.put i g) ∧ g.isQuadratic = true) := by
  intro cs e f written inPlace degree
  have he : e.Canonical := Cells.canonical_empty.run hp i
  have hf : f.Canonical := Cells.canonical_empty.run hp j
  have h3 : degree = 3 ↔ e.degree + f.degree = 3 := he.totalDegree_mul_eq_iff hf (by decide)
  have h4 : degree = 4 ↔ e.degree + f.degree = 4 := he.totalDegree_mul_eq_iff hf (by decide)
  have hwritten : written = e.mul f := rfl
  have hinPlace : ∀ fault, inPlace = (.error fault, cs) ↔ e.mul f = .error fault :=
    Cells.execute_multiply_eq_error_iff hi j
  rw [hwritten, hinPlace, hinPlace, h3, h4]
  refine ⟨Expression.mul_eq_cubicProduct_iff e f, Expression.mul_eq_quarticProduct_iff e f,
    Expression.mul_eq_cubicProduct_iff e f, Expression.mul_eq_quarticProduct_iff e f, ?_, ?_⟩
  · intro hn3 hn4
    have hg : e.mul f = .ok (e.product f) :=
      Expression.mul_eq_ok (fun h => hn3 (h3.2 h)) fun h => hn4 (h4.2 h)
    have hpolynomial := Expression.polynomial_mul he.toIsFinite hf.toIsFinite hg
    refine ⟨_, hg, Cells.execute_multiply_of_ok hi hg, hpolynomial, ?_⟩
    intro he0 hf0
    refine ⟨?_, he.mem_vars_mul hf hg he0 hf0⟩
    rw [hpolynomial, MvPolynomial.totalDegree_mul_of_isDomain he0 hf0]
  · intro hel hec hfl hfc
    have hde := Expression.degree_of_isLinear hel hec
    have hdf := Expression.degree_of_isLinear hfl hfc
    have hg : e.mul f = .ok (e.product f) := Expression.mul_eq_ok (by omega) (by omega)
    refine ⟨_, hg, Cells.execute_multiply_of_ok hi hg, Expression.isQuadratic_of_degree ?_⟩
    have he0 : e.polynomial ≠ 0 := he.polynomial_ne_zero (by omega)
    have hf0 : f.polynomial ≠ 0 := hf.polynomial_ne_zero (by omega)
    rw [he.degree_mul hf hg he0 hf0, hde, hdf]

/-- `x + y` times `x - y`, in which the mixed terms cancel, is quadratic, and what the product holds
times `x + y` is refused as cubic and leaves the cells as they are. -/
theorem products_fail_on_their_degree_of_squares :
    let x : Cells.Reference (Extended ℚ) := .variable ⟨0, 0⟩
    let y : Cells.Reference (Extended ℚ) := .variable ⟨0, 1⟩
    let p := [.compute .add x y, .compute .sub x y, .compute .mul (.cell 0) (.cell 1)]
    let cs := Cells.run #[] p
    (∃ g, (Cells.multiply 0 1).execute cs = (.ok (), cs.put 0 g) ∧ g.isQuadratic = true) ∧
    ((cs.fetch 2).polynomial * (cs.fetch 0).polynomial).totalDegree = 3 ∧
    (Cells.multiply 2 0).execute cs = (.error (.cubicProduct (cs.fetch 2) (cs.fetch 0)), cs) := by
  intro x y p cs
  have hp : ∀ step ∈ p, step.IsFinite := by
    simp [p, x, y, Cells.Step.IsFinite, Cells.Reference.IsFinite]
  obtain ⟨-, -, -, -, -, hlinear⟩ := products_fail_on_their_degree p hp 0 1 (by decide +kernel)
  obtain ⟨hwritten, -, hinPlace, -⟩ := products_fail_on_their_degree p hp 2 0 (by decide +kernel)
  obtain ⟨g, -, hg, hq⟩ := hlinear (by decide +kernel) (by decide +kernel) (by decide +kernel)
    (by decide +kernel)
  have hdegree := hwritten.1 ((Expression.mul_eq_cubicProduct_iff _ _).2 (by decide +kernel))
  exact ⟨⟨g, hg, hq⟩, hdegree, hinPlace.2 hdegree⟩

end MixedInteger
