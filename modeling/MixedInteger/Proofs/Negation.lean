/-
**Truth values and their negation.**

Whether an expression is a truth value is read off its terms: it is zero or one, a binary variable, a
product of two of them, or one minus either of the latter two.  Nothing is known of its variables but that
the binary ones take the values zero and one.  That is enough: such an expression takes no value but these
two, so its negation, which compares it with zero, holds where it is zero and fails where it is one.

Main definitions:

* `MixedInteger.Expression.TwoValued` — the binary variables of an expression take two values only.

Main results:

* `MixedInteger.Expression.isTruthForm_iff` — the two forms of a truth value;
* `MixedInteger.Expression.value_of_isBinary` — **a truth value is zero or one**;
* `MixedInteger.Constraint.negation_eq_ok_iff` — when there is a negation;
* `MixedInteger.Constraint.negation_tells_falsehood` — **a negation holds exactly where the truth value is
  zero**.
-/

import MixedInteger.Meaning.Feasibility
import Mathlib.Data.Rat.Floor

set_option autoImplicit false

namespace MixedInteger

open Extended

variable {K : Type} [Field K]

/-! ### Values -/

/-- The product of two truth values is one. -/
theorem mul_eq_zero_or_one {x y : K} (hx : x = 0 ∨ x = 1) (hy : y = 0 ∨ y = 1) :
    x * y = 0 ∨ x * y = 1 := by
  rcases hx with rfl | rfl
  · exact .inl (zero_mul y)
  · rwa [one_mul]

variable [LinearOrder K]

/-- Only a number equals a number. -/
theorem Extended.beq_finite_iff [FloorRing K] (a : Extended K) (x : K) :
    (a == finite x) = true ↔ a = finite x := by
  cases a with
  | finite y => simp
  | infinite n => exact iff_of_false (fun h => nomatch h) (fun h => nomatch h)
  | undefined => exact iff_of_false (fun h => nomatch h) (fun h => nomatch h)

namespace Expression

/-- The binary variables of an expression take the values zero and one only. -/
def TwoValued (env : Environment (Extended K)) (s : Assignment K) (e : Expression (Extended K)) : Prop :=
  ∀ v ∈ e.vars, env.kind v = .binary → s v = 0 ∨ s v = 1

variable [FloorRing K]

/-- A truth value is one minus its term, or the term alone. -/
theorem isTruthForm_iff (a c : Extended K) : isTruthForm a c = true ↔
    (a = finite 1 ∧ c = finite (-1)) ∨ (a = finite 0 ∧ c = finite 1) := by
  simp only [isTruthForm, one_eq, zero_eq, neg_finite, Bool.or_eq_true, Bool.and_eq_true,
    beq_finite_iff]

theorem isFinite_of_isTruthForm {a c : Extended K} (h : isTruthForm a c = true) :
    a.IsFinite ∧ c.IsFinite := by
  rcases (isTruthForm_iff a c).1 h with ⟨rfl, rfl⟩ | ⟨rfl, rfl⟩
  · exact ⟨trivial, trivial⟩
  · exact ⟨trivial, trivial⟩

/-- Both forms take zero and one to zero and one. -/
theorem value_of_isTruthForm {a c : Extended K} (h : isTruthForm a c = true) {x : K}
    (hx : x = 0 ∨ x = 1) :
    a.toNumber + c.toNumber * x = 0 ∨ a.toNumber + c.toNumber * x = 1 := by
  rcases (isTruthForm_iff a c).1 h with ⟨rfl, rfl⟩ | ⟨rfl, rfl⟩
  · rcases hx with rfl | rfl
    · right; simp
    · left; simp
  · rcases hx with rfl | rfl
    · left; simp
    · right; simp

variable {env : Environment (Extended K)} {e : Expression (Extended K)}

/-- A truth value has no term, a binary variable, or a product of two of them. -/
theorem terms_of_isBinary (h : e.isBinary env = true) :
    (e.linear.entries = [] ∧ e.quadratic.entries = [] ∧
      (e.constant = finite 0 ∨ e.constant = finite 1)) ∨
    (∃ v c, e.linear.entries = [(v, c)] ∧ e.quadratic.entries = [] ∧ env.kind v = .binary ∧
      isTruthForm e.constant c = true) ∨
    ∃ p c, e.linear.entries = [] ∧ e.quadratic.entries = [(p, c)] ∧ env.kind p.first = .binary ∧
      env.kind p.second = .binary ∧ isTruthForm e.constant c = true := by
  unfold isBinary at h
  split at h
  · next hl hq =>
      rw [zero_eq, one_eq, Bool.or_eq_true, beq_finite_iff, beq_finite_iff] at h
      exact .inl ⟨hl, hq, h⟩
  · next v c hl hq =>
      simp only [Bool.and_eq_true, beq_iff_eq] at h
      exact .inr (.inl ⟨v, c, hl, hq, h⟩)
  · next p c hl hq =>
      simp only [Bool.and_eq_true, beq_iff_eq] at h
      exact .inr (.inr ⟨p, c, hl, hq, h.1.1, h.1.2, h.2⟩)
  · cases h

/-- The numbers of a truth value are numbers. -/
theorem isFinite_of_isBinary (h : e.isBinary env = true) : e.IsFinite := by
  have hsingle : ∀ {κ : Type} {m : Coefficients κ (Extended K)} {k : κ} {c : Extended K},
      m.entries = [(k, c)] → c.IsFinite → m.IsFinite := by
    intro κ m k c hm hc t ht
    rw [hm, List.mem_singleton] at ht
    exact ht ▸ hc
  have hnone : ∀ {κ : Type} {m : Coefficients κ (Extended K)}, m.entries = [] → m.IsFinite := by
    intro κ m hm t ht
    rw [hm] at ht
    cases ht
  rcases terms_of_isBinary h with ⟨hl, hq, hc⟩ | ⟨v, c, hl, hq, -, hc⟩ | ⟨p, c, hl, hq, -, -, hc⟩
  · refine ⟨?_, hnone hl, hnone hq⟩
    rcases hc with hc | hc <;> rw [hc] <;> trivial
  · obtain ⟨hconstant, hcoefficient⟩ := isFinite_of_isTruthForm hc
    exact ⟨hconstant, hsingle hl hcoefficient, hnone hq⟩
  · obtain ⟨hconstant, hcoefficient⟩ := isFinite_of_isTruthForm hc
    exact ⟨hconstant, hnone hl, hsingle hq hcoefficient⟩

/-- **A truth value is zero or one**, whatever the variables are that are not binary. -/
theorem value_of_isBinary (h : e.isBinary env = true) {s : Assignment K} (hs : e.TwoValued env s) :
    e.value s = 0 ∨ e.value s = 1 := by
  rcases terms_of_isBinary h with ⟨hl, hq, hc⟩ | ⟨v, c, hl, hq, hv, hc⟩ |
    ⟨p, c, hl, hq, hfirst, hsecond, hc⟩
  · have hvalue : e.value s = e.constant.toNumber := by
      simp [value, Coefficients.weigh, hl, hq]
    rw [hvalue]
    rcases hc with hc | hc <;> simp [hc]
  · have hvalue : e.value s = e.constant.toNumber + c.toNumber * s v := by
      simp [value, Coefficients.weigh, hl, hq]
    have hvar : v ∈ e.vars := mem_vars_of_mem_linear (by simp [Coefficients.keys, hl])
    rw [hvalue]
    exact value_of_isTruthForm hc (hs v hvar hv)
  · have hvalue : e.value s = e.constant.toNumber + c.toNumber * (s p.first * s p.second) := by
      simp [value, Coefficients.weigh, hl, hq, pairValue]
    obtain ⟨hleft, hright⟩ := mem_vars_of_mem_quadratic (e := e) (p := p)
      (by simp [Coefficients.keys, hq])
    rw [hvalue]
    exact value_of_isTruthForm hc (mul_eq_zero_or_one (hs _ hleft hfirst) (hs _ hright hsecond))

end Expression

/-! ### Negation -/

namespace Constraint

variable [FloorRing K]

/-- There is a negation of what is a truth value, mentions a variable, and may be zero as far as the bounds
tell. -/
theorem negation_eq_ok_iff (env : Environment (Extended K)) (e : Expression (Extended K))
    (c : Constraint (Extended K)) :
    negation env e = .ok c ↔ e.isBinary env = true ∧ e.isConstant = false ∧
      c = ⟨.equal, e.sub (.const 0), none⟩ ∧ c.mustBeViolated env = false := by
  unfold negation compare
  cases e.isBinary env with
  | false => exact iff_of_false (fun h => nomatch h) (fun h => nomatch h.1)
  | true =>
      cases he : e.isConstant with
      | true => exact iff_of_false (fun h => nomatch h) (fun h => nomatch h.2.1)
      | false => simpa using make_eq_ok_iff env .equal (e.sub (.const 0)) none c

theorem negation_of_not_isBinary {env : Environment (Extended K)} {e : Expression (Extended K)}
    (h : e.isBinary env = false) : negation env e = .error (.notBinary e) := by
  unfold negation
  rw [h]
  rfl

/-- **A negation holds exactly where its truth value is zero.**  What is recognised as a truth value is zero
or one wherever its binary variables are; only such an expression has a negation, which then holds where it
is zero and fails where it is one; anything else is refused for not being a truth value. -/
theorem negation_tells_falsehood [IsStrictOrderedRing K] (env : Environment (Extended K))
    (e : Expression (Extended K)) :
    (e.isBinary env = true → ∀ s : Assignment K, e.TwoValued env s → e.value s = 0 ∨ e.value s = 1) ∧
    (∀ c, negation env e = .ok c → e.isBinary env = true ∧
      ∀ s : Assignment K, e.TwoValued env s →
        (c.Holds s ↔ e.value s = 0) ∧ (¬ c.Holds s ↔ e.value s = 1)) ∧
    (e.isBinary env = false → negation env e = .error (.notBinary e)) := by
  refine ⟨fun h s => Expression.value_of_isBinary h, fun c hc => ?_, negation_of_not_isBinary⟩
  obtain ⟨hbinary, -, rfl, -⟩ := (negation_eq_ok_iff env e c).1 hc
  refine ⟨hbinary, fun s hs => ?_⟩
  have hholds : Holds s ⟨.equal, e.sub (.const 0), none⟩ ↔ e.value s = 0 := by
    unfold Holds
    rw [Expression.value_sub (Expression.isFinite_of_isBinary hbinary)
      (Expression.isFinite_const isFinite_zero), Expression.value_const, toNumber_zero, sub_zero]
  refine ⟨hholds, ?_⟩
  rw [hholds]
  rcases Expression.value_of_isBinary hbinary hs with hzero | hone
  · simp [hzero]
  · simp [hone]

/-- One minus the product of two binary variables, both of which are one. -/
theorem negation_tells_falsehood_of_product :
    let env := Environment.alike .binary (.finite 0) (.finite 1) (.infinite false)
    let e : Expression (Extended ℚ) := ⟨1, .empty, .single (.of ⟨0, 0⟩ ⟨0, 1⟩) (-1)⟩
    let s : Assignment ℚ := fun _ => 1
    e.isBinary env = true ∧ e.TwoValued env s ∧
      ∃ c, negation env e = .ok c ∧ c.Holds s ∧ e.value s = 0 := by
  intro env e s
  have hbinary : e.isBinary env = true := by decide +kernel
  have hs : e.TwoValued env s := fun _ _ _ => .inr rfl
  have hc : negation env e = .ok ⟨.equal, e.sub (.const 0), none⟩ :=
    (negation_eq_ok_iff env e _).2 ⟨hbinary, rfl, rfl, by decide +kernel⟩
  have hzero : e.value s = 0 := by decide +kernel
  exact ⟨hbinary, hs, _, hc, (((negation_tells_falsehood env e).2.1 _ hc).2 s hs).1.2 hzero, hzero⟩

end Constraint

end MixedInteger
