/-
**The polynomial of an expression.**

An expression with exact coefficients is written as a polynomial in its variables.  Its values are the
values of the polynomial, and as there are infinitely many numbers they determine it, so that a
polynomial is known as soon as its values are.  The coefficients of the polynomial are those that the
expression stores.

Main definitions:

* `MixedInteger.Expression.polynomial` — the polynomial;
* `MixedInteger.VariablePair.exponents` — the exponents of a product of two variables.

Main results:

* `MixedInteger.Expression.eval_polynomial`, `MixedInteger.Expression.polynomial_eq_of_value` — **the
  polynomial and the values determine each other**;
* `MixedInteger.Expression.coeff_variable`, `MixedInteger.Expression.coeff_pair`,
  `MixedInteger.Expression.cases_of_mem_support` — its coefficients.
-/

import MixedInteger.Proofs.Uniqueness
import Mathlib.Algebra.CharZero.Infinite
import Mathlib.Algebra.MvPolynomial.Funext

set_option autoImplicit false

namespace MixedInteger

open MvPolynomial (C X)

/-! ### Exponents -/

namespace VariablePair

/-- The exponents of a product of two variables: one each, or two for a square. -/
noncomputable def exponents (p : VariablePair) : Variable →₀ ℕ :=
  Finsupp.single p.first 1 + Finsupp.single p.second 1

/-- Two pairs with the same exponents are one. -/
theorem exponents_injective : Function.Injective exponents := by
  intro p q h
  have hfirst := DFunLike.congr_fun h q.first
  have hsecond := DFunLike.congr_fun h q.second
  simp only [exponents, Finsupp.add_apply, Finsupp.single_apply] at hfirst hsecond
  have hcases : p.first = q.first ∧ p.second = q.second ∨
      p.first = q.second ∧ p.second = q.first := by
    grind
  rw [← of_first_second p, ← of_first_second q]
  rcases hcases with ⟨h1, h2⟩ | ⟨h1, h2⟩
  · rw [h1, h2]
  · rw [h1, h2, of_comm]

theorem exponents_ne_zero (p : VariablePair) : p.exponents ≠ 0 := by
  intro h
  have hfirst := DFunLike.congr_fun h p.first
  simp [exponents] at hfirst

/-- The exponents of a product are not those of a variable: they add up to two. -/
theorem exponents_ne_single (p : VariablePair) (v : Variable) :
    p.exponents ≠ Finsupp.single v 1 := by
  intro h
  have hdegree := congrArg Finsupp.degree h
  simp [exponents] at hdegree

end VariablePair

/-! ### The polynomial and its values -/

namespace Expression

variable {K : Type} [Field K]

/-- The polynomial that an expression is. -/
noncomputable def polynomial (e : Expression (Extended K)) : MvPolynomial Variable K :=
  C e.constant.toNumber +
    (e.linear.entries.map fun t => C t.2.toNumber * X t.1).sum +
    (e.quadratic.entries.map fun t => C t.2.toNumber * (X t.1.first * X t.1.second)).sum

/-- The polynomial has the values of the expression. -/
theorem eval_polynomial (e : Expression (Extended K)) (s : Assignment K) :
    MvPolynomial.eval s e.polynomial = e.value s := by
  simp [polynomial, value, Coefficients.weigh, map_list_sum, Function.comp_def, pairValue]

/-- The values determine the polynomial. -/
theorem polynomial_eq_of_value [LinearOrder K] [IsStrictOrderedRing K]
    {e : Expression (Extended K)} {p : MvPolynomial Variable K}
    (h : ∀ s : Assignment K, e.value s = MvPolynomial.eval s p) : e.polynomial = p := by
  apply MvPolynomial.funext
  intro s
  rw [eval_polynomial, h]

/-! ### Its coefficients -/

/-- A coefficient of the polynomial, read off the terms that have its exponents. -/
theorem coeff_polynomial (e : Expression (Extended K)) (m : Variable →₀ ℕ) :
    e.polynomial.coeff m =
      (if 0 = m then e.constant.toNumber else 0) +
        e.linear.weigh (fun v => if Finsupp.single v 1 = m then 1 else 0) +
        e.quadratic.weigh (fun p => if p.exponents = m then 1 else 0) := by
  have hsum : ∀ ps : List (MvPolynomial Variable K),
      ps.sum.coeff m = (ps.map (·.coeff m)).sum := fun ps =>
    map_list_sum (MvPolynomial.coeffAddMonoidHom m) ps
  have hpair : ∀ (a : K) (p : VariablePair),
      C a * (X p.first * X p.second) = MvPolynomial.monomial p.exponents a := by
    intro a p
    rw [X, X, MvPolynomial.monomial_mul, MvPolynomial.C_mul_monomial, VariablePair.exponents]
    simp
  simp only [polynomial, MvPolynomial.coeff_add, MvPolynomial.coeff_C, hsum, List.map_map,
    Function.comp_def, hpair, MvPolynomial.C_mul_X_eq_monomial, MvPolynomial.coeff_monomial,
    Coefficients.weigh, mul_ite, mul_one, mul_zero]

/-- The coefficient of a variable. -/
theorem coeff_variable (e : Expression (Extended K)) (v : Variable) :
    e.polynomial.coeff (Finsupp.single v 1) = e.linear.number v := by
  have hzero : (0 : Variable →₀ ℕ) ≠ Finsupp.single v 1 :=
    (Finsupp.single_ne_zero.2 one_ne_zero).symm
  have hquadratic : e.quadratic.weigh
      (fun p => if p.exponents = Finsupp.single v 1 then (1 : K) else 0) = 0 :=
    Coefficients.weigh_eq_zero fun p _ => if_neg (p.exponents_ne_single v)
  rw [coeff_polynomial, if_neg hzero, hquadratic, Coefficients.weigh_of_only (k := v), if_pos rfl]
  · ring
  · intro w hw
    exact if_neg fun h => hw (Finsupp.single_left_injective one_ne_zero h)

/-- The coefficient of a product of two variables. -/
theorem coeff_pair (e : Expression (Extended K)) (p : VariablePair) :
    e.polynomial.coeff p.exponents = e.quadratic.number p := by
  have hlinear : e.linear.weigh
      (fun v => if Finsupp.single v 1 = p.exponents then (1 : K) else 0) = 0 :=
    Coefficients.weigh_eq_zero fun v _ => if_neg (p.exponents_ne_single v).symm
  rw [coeff_polynomial, if_neg p.exponents_ne_zero.symm, hlinear,
    Coefficients.weigh_of_only (k := p), if_pos rfl]
  · ring
  · intro q hq
    exact if_neg fun h => hq (VariablePair.exponents_injective h)

/-- The exponents that have a coefficient are none at all, or those of a term. -/
theorem cases_of_mem_support {e : Expression (Extended K)} {m : Variable →₀ ℕ}
    (h : m ∈ e.polynomial.support) :
    m = 0 ∨ (∃ v ∈ e.linear.keys, m = Finsupp.single v 1) ∨
      ∃ p ∈ e.quadratic.keys, m = p.exponents := by
  by_contra hn
  simp only [not_or, not_exists, not_and] at hn
  obtain ⟨hzero, hlinear, hquadratic⟩ := hn
  have hl : e.linear.weigh (fun v => if Finsupp.single v 1 = m then (1 : K) else 0) = 0 :=
    Coefficients.weigh_eq_zero fun v hv => if_neg fun hm => hlinear v hv hm.symm
  have hq : e.quadratic.weigh (fun p => if p.exponents = m then (1 : K) else 0) = 0 :=
    Coefficients.weigh_eq_zero fun p hp => if_neg fun hm => hquadratic p hp hm.symm
  apply MvPolynomial.mem_support_iff.1 h
  rw [coeff_polynomial, hl, hq, if_neg fun hm => hzero hm.symm]
  ring

end Expression

end MixedInteger
