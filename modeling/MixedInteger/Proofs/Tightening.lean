/-
**Bounds follow the bounds of the variables one way.**

Bounds of variables are tightened if each interval lies within the one that was there, and is not empty.
A term comes close to both ends of its range in the new environment, at values that the old one allows;
so its range has not grown.  The least value of a term does not fall then, and where it was a number it
still is, so that the lower bound of an expression does not fall either.  What the bounds have decided
about a constraint stays decided.

Nothing is asked of the infinity of the store.  If it is not positive, intervals that are not empty are
unbounded on both sides, and tightening changes nothing.

Main definitions:

* `MixedInteger.Environment.TightensTo` — the interval of a variable lies within another one;
* `MixedInteger.Environment.Tightened` — tightened any number of times.

Main results:

* `MixedInteger.Extended.extend_mono` — what counts as infinite respects the order;
* `MixedInteger.Term.range_mono` — the range of a term does not grow;
* `MixedInteger.Expression.lower_mono_cases` — the lower bound of an expression does not fall;
* `MixedInteger.Expression.monotone_under_tightening` — **bounds are monotone, and decisions stay**.
-/

import MixedInteger.Proofs.Capturing
import Mathlib.Logic.Relation

set_option autoImplicit false

namespace MixedInteger

open Extended

variable {K : Type} [Field K] [LinearOrder K] [FloorRing K]

/-! ### Bounds beyond the infinity -/

/-- Bounds keep their order when those at or beyond the infinity are taken for infinite. -/
theorem Extended.extend_mono {inf a b : Extended K} (h : a ≤ b) :
    Expression.extend inf a ≤ Expression.extend inf b := by
  obtain ⟨ha, hb⟩ := IsDefined.of_le h
  by_cases hia : inf ≤ a
  · have hib : inf ≤ b := Extended.le_trans hia h
    rw [Expression.extend, if_pos hia, Expression.extend, if_pos hib]
    exact Or.inr rfl
  · by_cases han : a ≤ -inf
    · rw [Expression.extend, if_neg hia, if_pos han]
      exact infinite_true_le hb.extend
    · rw [Expression.extend, if_neg hia, if_neg han]
      unfold Expression.extend
      split
      · exact le_infinite_false ha
      · rw [if_neg fun hbn => han (Extended.le_trans h hbn)]
        exact h

/-- What is not above a value, nor above numbers close to another one, is not above that. -/
theorem Extended.le_of_close [IsStrictOrderedRing K] {a b : Extended K}
    (h : ∀ limit, ∃ x, Close b limit x ∧ a ≤ finite x) : a ≤ b := by
  obtain ⟨x, hx, hax⟩ := h 0
  cases b with
  | undefined => exact hx.elim
  | finite y =>
      rw [close_finite] at hx
      exact hx ▸ hax
  | infinite n =>
      cases n with
      | false => exact le_infinite_false (IsDefined.of_le hax).1
      | true =>
          -- numbers below any limit leave room for minus infinity only
          cases a with
          | undefined => exact hax.elim
          | infinite m => exact Or.inl hax
          | finite z =>
              obtain ⟨y, hy, hzy⟩ := h (-z)
              rw [close_infinite, signed, if_pos rfl, neg_lt_neg_iff] at hy
              exact absurd hy (not_lt.2 hzy)

/-- Nor is what is close to numbers that are not above a value. -/
theorem Extended.close_le [IsStrictOrderedRing K] {a b : Extended K}
    (h : ∀ limit, ∃ x, Close b limit x ∧ finite x ≤ a) : b ≤ a := by
  rw [← Extended.neg_le_neg_iff]
  refine le_of_close fun limit => ?_
  obtain ⟨x, hx, hxa⟩ := h limit
  refine ⟨-x, ?_, ?_⟩
  · rwa [close_neg_iff, neg_neg]
  · rwa [← neg_finite, Extended.neg_le_neg_iff]

/-- What lies between two numbers is a number. -/
theorem Extended.isFinite_of_between {a : Extended K} {x y : K} (hx : finite x ≤ a)
    (hy : a ≤ finite y) : a.IsFinite := by
  cases a with
  | undefined => exact hx.elim
  | finite z => trivial
  | infinite n =>
      cases n with
      | false => exact Bool.false_ne_true hy
      | true => exact Bool.false_ne_true hx.symm

/-! ### Tighter bounds -/

namespace Environment

/-- The interval of a variable is not empty in the second environment, and lies within the one in the
first. -/
structure TightensTo (env env' : Environment (Extended K)) (v : Variable) : Prop where
  infinity : env'.infinity v.store = env.infinity v.store
  consistent : env'.Consistent v
  lower : env.trueLower v ≤ env'.trueLower v
  upper : env'.trueUpper v ≤ env.trueUpper v

/-- The intervals of some variables have been tightened any number of times. -/
def Tightened (vs : List Variable) : Environment (Extended K) → Environment (Extended K) → Prop :=
  Relation.ReflTransGen fun env env' => ∀ v ∈ vs, env.TightensTo env' v

variable {env env' : Environment (Extended K)} {v : Variable}

/-- Raising a lower bound and lowering an upper one tightens, unless nothing is left. -/
theorem TightensTo.of_le (hinfinity : env'.infinity v.store = env.infinity v.store)
    (hv : env'.Consistent v) (hl : env.lower v ≤ env'.lower v) (hu : env'.upper v ≤ env.upper v) :
    env.TightensTo env' v := by
  refine ⟨hinfinity, hv, ?_, ?_⟩
  · rw [trueLower, trueLower, hinfinity]
    exact extend_mono hl
  · rw [trueUpper, trueUpper, hinfinity]
    exact extend_mono hu

namespace TightensTo

/-- What lies within the tighter bounds lies within the others. -/
theorem within (h : env.TightensTo env' v) {s : Assignment K} (hs : env'.Within s v) :
    env.Within s v :=
  ⟨Extended.le_trans h.lower hs.lower, Extended.le_trans hs.upper h.upper⟩

theorem compares (h : env.TightensTo env' v) : env'.Compares v :=
  compares_of_le h.consistent.ordered

variable [IsStrictOrderedRing K]

/-- Tightening changes nothing where the infinity is not positive. -/
theorem eq_of_infinity_not_pos (h : env.TightensTo env' v) (hinf : ¬ 0 < env.infinity v.store) :
    env.trueLower v = env'.trueLower v ∧ env.trueUpper v = env'.trueUpper v := by
  have hl := h.lower
  have hu := h.upper
  obtain ⟨hil, hiu⟩ := h.consistent.isInfinite_bounds (h.infinity ▸ hinf)
  have hl' : env'.trueLower v = infinite true := by
    rcases h.consistent.trueLower_cases with ⟨-, hb⟩ | ⟨-, x, hb⟩
    · exact hb
    · rw [hb] at hil
      cases hil
  have hu' : env'.trueUpper v = infinite false := by
    rcases h.consistent.trueUpper_cases with ⟨-, hb⟩ | ⟨-, x, hb⟩
    · exact hb
    · rw [hb] at hiu
      cases hiu
  rw [hl'] at hl ⊢
  rw [hu'] at hu ⊢
  exact ⟨Extended.le_antisymm hl (infinite_true_le (IsDefined.of_le hl).1),
    Extended.le_antisymm (le_infinite_false (IsDefined.of_le hu).2) hu⟩

end TightensTo

end Environment

/-! ### Terms -/

namespace Term

variable {env env' : Environment (Extended K)} {n : Nat} {t : Term}

/-- All variables of a term have one infinity, which stays. -/
theorem infinity_of_tightensTo (hstore : ∀ v ∈ t.vars, v.store = n)
    (h : ∀ v ∈ t.vars, env.TightensTo env' v) : env'.infinity n = env.infinity n := by
  obtain ⟨v, hv⟩ := t.exists_mem_vars
  exact hstore v hv ▸ (h v hv).infinity

/-- The range of a term depends on the intervals of its variables. -/
theorem range_congr (hstore : ∀ v ∈ t.vars, v.store = n)
    (h : ∀ v ∈ t.vars, env.trueLower v = env'.trueLower v ∧ env.trueUpper v = env'.trueUpper v) :
    t.range env' (env'.infinity n) = t.range env (env.infinity n) := by
  cases t with
  | «variable» v =>
      obtain rfl := hstore v List.mem_cons_self
      obtain ⟨hl, hu⟩ := h v List.mem_cons_self
      exact Prod.ext hl.symm hu.symm
  | pair p =>
      have hf : p.first ∈ (pair p).vars := by simp [vars, VariablePair.toList]
      have hs : p.second ∈ (pair p).vars := by simp [vars, VariablePair.toList]
      rw [range, range,
        Expression.pairRange_eq (congrArg env'.infinity (hstore _ hf))
          (congrArg env'.infinity (hstore _ hs)),
        Expression.pairRange_eq (congrArg env.infinity (hstore _ hf))
          (congrArg env.infinity (hstore _ hs))]
      simp only [Expression.corner, Expression.otherCorners, (h _ hf).1, (h _ hf).2, (h _ hs).1,
        (h _ hs).2]

variable [IsStrictOrderedRing K]

/-- **The range of a term does not grow**: both ends are close to values that were allowed before. -/
theorem range_mono (hstore : ∀ v ∈ t.vars, v.store = n)
    (h : ∀ v ∈ t.vars, env.TightensTo env' v) :
    (t.range env (env.infinity n)).1 ≤ (t.range env' (env'.infinity n)).1 ∧
      (t.range env' (env'.infinity n)).2 ≤ (t.range env (env.infinity n)).2 := by
  have hroom : t.Admissible env' n := fun v hv => ⟨hstore v hv, (h v hv).consistent⟩
  have hvalue : ∀ {s : Assignment K}, (∀ v ∈ t.vars, env'.Within s v) →
      (t.range env (env.infinity n)).1 ≤ finite (t.weight s) ∧
        finite (t.weight s) ≤ (t.range env (env.infinity n)).2 := fun hs =>
    range_contains (fun v hv => congrArg env.infinity (hstore v hv)) fun v hv =>
      (h v hv).within (hs v hv)
  constructor
  · refine le_of_close fun limit => ?_
    obtain ⟨s, hs, hclose⟩ := exists_close_range hroom.measured (Or.inl rfl) limit
    exact ⟨_, hclose, (hvalue hs).1⟩
  · refine close_le fun limit => ?_
    obtain ⟨s, hs, hclose⟩ := exists_close_range hroom.measured (Or.inr rfl) limit
    exact ⟨_, hclose, (hvalue hs).2⟩

/-- So the least value of a multiple of it does not fall. -/
theorem noLess_of_tightensTo {c : Extended K} (hc : c.IsFinite) (hstore : ∀ v ∈ t.vars, v.store = n)
    (h : ∀ v ∈ t.vars, env.TightensTo env' v) : NoLess env env' (env.infinity n) (t, c) := by
  intro hi
  have hroom : t.Admissible env' n := fun v hv => ⟨hstore v hv, (h v hv).consistent⟩
  obtain ⟨s, hs, -⟩ := exists_close_range hroom.measured (Or.inl rfl) 0
  obtain ⟨hlow, hhigh⟩ := range_contains (fun v hv => (hroom.measured v hv).1) hs
  obtain ⟨hl, hu⟩ := range_mono hstore h
  rw [infinity_of_tightensTo hstore h] at hl hu hlow hhigh
  -- a number and a value of the term enclose the new end of the range
  rcases lt_or_ge 0 c.toNumber with hpos | hneg
  · have hsign : 0 < c := by rwa [hc.eq_finite]
    simp only [bound, if_pos hsign] at hi ⊢
    have hx := ((IsDefined.of_le hl).1.isFinite hi).eq_finite
    rw [hx] at hl ⊢
    have hy := (isFinite_of_between hl hlow).eq_finite
    rw [hy] at hl ⊢
    rw [hc.eq_finite]
    exact ⟨_, _, mul_le_mul_of_nonneg_left hl hpos.le, rfl, rfl, rfl⟩
  · have hsign : ¬ 0 < c := by rw [hc.eq_finite]; exact not_lt.2 hneg
    simp only [bound, if_neg hsign] at hi ⊢
    have hx := ((IsDefined.of_le hu).2.isFinite hi).eq_finite
    rw [hx] at hu ⊢
    have hy := (isFinite_of_between hhigh hu).eq_finite
    rw [hy] at hu ⊢
    rw [hc.eq_finite]
    exact ⟨_, _, mul_le_mul_of_nonpos_left hu hneg, rfl, rfl, rfl⟩

end Term

/-! ### Expressions -/

namespace Expression

variable {env env' : Environment (Extended K)} {n : Nat} {e : Expression (Extended K)}

theorem infinity_of_tightensTo (h : ∀ v ∈ e.vars, env.TightensTo env' v)
    (hstore : ∀ v ∈ e.vars, v.store = n) : e.infinity env' = e.infinity env := by
  cases hc : e.isConstant with
  | true => rw [infinity, infinity, if_pos hc, if_pos hc]
  | false =>
      obtain ⟨v, hv⟩ := exists_mem_vars hc
      rw [infinity_eq hstore hc, infinity_eq hstore hc, ← hstore v hv, (h v hv).infinity]

variable [IsStrictOrderedRing K]

/-- Where the infinity is not positive, tightening does not change the least value of any term. -/
theorem lower?_eq_of_infinity_not_pos (hstore : ∀ v ∈ e.vars, v.store = n)
    (h : ∀ v ∈ e.vars, env.TightensTo env' v) (hinf : ¬ 0 < env.infinity n) :
    e.lower? env' (env'.infinity n) = e.lower? env (env.infinity n) := by
  have hsame : ∀ t ∈ e.terms, ∀ total : Extended K,
      Term.addLower env' (env'.infinity n) total t = Term.addLower env (env.infinity n) total t := by
    intro t ht total
    have hterm := (forall_mem_vars_iff e _).1 hstore t ht
    have hrange := Term.range_congr hterm fun v hv =>
      ((forall_mem_vars_iff e _).1 h t ht v hv).eq_of_infinity_not_pos ((hterm v hv).symm ▸ hinf)
    rw [Term.addLower, Term.addLower, Term.bound, Term.bound, hrange]
  rw [lower?_eq_foldlM, lower?_eq_foldlM]
  generalize e.constant = total
  generalize e.terms = ts at hsame
  induction ts generalizing total with
  | nil => rfl
  | cons t rest ih =>
      rw [List.foldlM_cons, List.foldlM_cons, hsame t List.mem_cons_self]
      exact congrArg _ (funext fun u => ih u fun w hw => hsame w (List.mem_cons_of_mem _ hw))

/-- **The lower bound of an expression does not fall**, unless it was minus the infinity. -/
theorem lower_mono_cases (he : e.IsFinite) (hstore : ∀ v ∈ e.vars, v.store = n)
    (h : ∀ v ∈ e.vars, env.TightensTo env' v) :
    e.lower env ≤ e.lower env' ∨
      0 < e.infinity env ∧ e.lower env = -e.infinity env ∧ (e.lower env').IsDefined := by
  cases hc : e.isConstant with
  | true =>
      rw [lower, lower, if_pos hc, if_pos hc]
      exact Or.inl he.constant.isDefined.le_refl
  | false =>
      obtain ⟨v, hv⟩ := exists_mem_vars hc
      have hinf : env'.infinity n = env.infinity n := hstore v hv ▸ (h v hv).infinity
      have hnoLess : ∀ t ∈ e.terms, Term.NoLess env env' (env.infinity n) t := fun t ht =>
        Term.noLess_of_tightensTo (he.of_mem_terms t ht) ((forall_mem_vars_iff e _).1 hstore t ht)
          ((forall_mem_vars_iff e _).1 h t ht)
      have hcompares : ∀ v ∈ e.vars, env'.Compares v := fun v hv => (h v hv).compares
      rw [infinity_eq hstore hc, lower_eq_getD hstore]
      cases hl : e.lower? env (env.infinity n) with
      | some u =>
          rw [lower?_eq_foldlM] at hl
          obtain ⟨hu, w, hw, hfw, huw⟩ :=
            Term.foldlM_addLower_mono hnoLess he.constant he.constant le_rfl hl
          rw [lower_eq_getD hstore, hinf, lower?_eq_foldlM, hw, Option.getD_some, Option.getD_some,
            hu.eq_finite, hfw.eq_finite]
          exact Or.inl huw
      | none =>
          by_cases hpos : 0 < env.infinity n
          · exact Or.inr ⟨hpos, rfl, isDefined_lower he (hinf ▸ hpos) hstore hcompares⟩
          · have hd : (env.infinity n).IsDefined := by
              rw [← hinf, ← hstore v hv]
              exact (IsDefined.of_le (Extended.le_of_lt (h v hv).consistent.lower_lt)).2
            rw [lower_eq_getD hstore, lower?_eq_of_infinity_not_pos hstore h hpos, hl, hinf]
            exact Or.inl hd.neg.le_refl

/-- Nor does the upper bound rise, unless it was the infinity. -/
theorem upper_mono_cases (he : e.IsFinite) (hstore : ∀ v ∈ e.vars, v.store = n)
    (h : ∀ v ∈ e.vars, env.TightensTo env' v) :
    e.upper env' ≤ e.upper env ∨
      0 < e.infinity env ∧ e.upper env = e.infinity env ∧ (e.upper env').IsDefined := by
  rw [← vars_neg] at hstore h
  rcases lower_mono_cases he.neg hstore h with hle | ⟨hpos, hlower, hd⟩
  · exact Or.inl ((Extended.neg_le_neg_iff _ _).2 hle)
  · rw [infinity_neg] at hpos hlower
    have hupper : e.upper env = e.infinity env := by rw [upper, hlower, Extended.neg_neg]
    exact Or.inr ⟨hpos, hupper, hd.neg⟩

/-- Taken for infinite at or beyond the infinity, bounds move one way. -/
theorem extend_lower_mono (he : e.IsFinite) (hstore : ∀ v ∈ e.vars, v.store = n)
    (h : ∀ v ∈ e.vars, env.TightensTo env' v) :
    extend (e.infinity env) (e.lower env) ≤ extend (e.infinity env') (e.lower env') := by
  rw [infinity_of_tightensTo h hstore]
  rcases lower_mono_cases he hstore h with hle | ⟨hpos, hlower, hd⟩
  · exact extend_mono hle
  · have hbeyond : extend (e.infinity env) (-e.infinity env) = infinite true := by
      rw [extend, if_neg (not_le_neg hpos), if_pos (IsDefined.of_le (Extended.le_of_lt hpos)).2.neg.le_refl]
      rfl
    rw [hlower, hbeyond]
    exact infinite_true_le hd.extend

theorem extend_upper_mono (he : e.IsFinite) (hstore : ∀ v ∈ e.vars, v.store = n)
    (h : ∀ v ∈ e.vars, env.TightensTo env' v) :
    extend (e.infinity env') (e.upper env') ≤ extend (e.infinity env) (e.upper env) := by
  rw [infinity_of_tightensTo h hstore]
  rcases upper_mono_cases he hstore h with hle | ⟨hpos, hupper, hd⟩
  · exact extend_mono hle
  · have hbeyond : extend (e.infinity env) (e.infinity env) = infinite false := by
      rw [extend, if_pos (IsDefined.of_le (Extended.le_of_lt hpos)).2.le_refl]
      rfl
    rw [hupper, hbeyond]
    exact le_infinite_false hd.extend

end Expression

/-! ### Decisions -/

namespace Constraint

variable [IsStrictOrderedRing K] {env env' : Environment (Extended K)} {n : Nat}
  {c : Constraint (Extended K)}

/-- What is violated stays so when bounds are tightened. -/
theorem violated_of_tightensTo (hc : c.IsFinite) (hstore : ∀ v ∈ c.expression.vars, v.store = n)
    (h : ∀ v ∈ c.expression.vars, env.TightensTo env' v) (hv : c.mustBeViolated env = true) :
    c.mustBeViolated env' = true := by
  rw [mustBeViolated_eq_true_iff] at hv ⊢
  rcases hv with hlower | ⟨hrelation, hupper⟩
  · rcases Expression.lower_mono_cases hc hstore h with hle | ⟨hpos, hinf, -⟩
    · exact Or.inl (Extended.lt_of_lt_of_le hlower hle)
    · rw [hinf, zero_lt_neg_iff] at hlower
      exact (Extended.not_lt_of_le (Extended.le_of_lt hpos) hlower).elim
  · rcases Expression.upper_mono_cases hc hstore h with hle | ⟨hpos, hinf, -⟩
    · exact Or.inr ⟨hrelation, Extended.lt_of_le_of_lt hle hupper⟩
    · rw [hinf] at hupper
      exact (Extended.not_lt_of_le (Extended.le_of_lt hpos) hupper).elim

/-- What is satisfied stays so, too. -/
theorem satisfied_of_tightensTo (hc : c.IsFinite) (hstore : ∀ v ∈ c.expression.vars, v.store = n)
    (h : ∀ v ∈ c.expression.vars, env.TightensTo env' v) (hs : c.mustBeSatisfied env = true) :
    c.mustBeSatisfied env' = true := by
  rw [mustBeSatisfied_eq_true_iff] at hs ⊢
  obtain ⟨hupper, hlower⟩ := hs
  constructor
  · rcases Expression.upper_mono_cases hc hstore h with hle | ⟨hpos, hinf, -⟩
    · exact fun hlt => hupper (Extended.lt_of_lt_of_le hlt hle)
    · exact absurd (hinf ▸ hpos) hupper
  · rcases hlower with hrelation | hlower
    · exact Or.inl hrelation
    · rcases Expression.lower_mono_cases hc hstore h with hle | ⟨hpos, hinf, -⟩
      · exact Or.inr (Extended.le_trans hlower hle)
      · rw [hinf, zero_le_neg_iff] at hlower
        exact (Extended.not_lt_of_le hlower hpos).elim

/-- **What the bounds have decided stays decided**, however often they are tightened. -/
theorem decided_of_tightened (hc : c.IsFinite) (hstore : ∀ v ∈ c.expression.vars, v.store = n)
    (h : Environment.Tightened c.expression.vars env env') :
    (c.mustBeSatisfied env = true → c.mustBeSatisfied env' = true) ∧
      (c.mustBeViolated env = true → c.mustBeViolated env' = true) := by
  induction h with
  | refl => exact ⟨id, id⟩
  | tail _ hstep ih =>
      exact ⟨fun hs => satisfied_of_tightensTo hc hstore hstep (ih.1 hs),
        fun hv => violated_of_tightensTo hc hstore hstep (ih.2 hv)⟩

end Constraint

namespace Expression

variable [IsStrictOrderedRing K] {n : Nat} {e : Expression (Extended K)}

/-- **Bounds are monotone under tightening.**  If the interval of each variable of an expression over one
store is not empty after a change of bounds, and lies within the one before, then the lower bound of the
expression does not fall and the upper bound does not rise, where a bound at or beyond the infinity
counts as infinite.  Whatever constraint is put on the expression, it stays satisfied, or violated, under
any number of such changes once the bounds say so. -/
theorem monotone_under_tightening (he : e.IsFinite) (hstore : ∀ v ∈ e.vars, v.store = n) :
    (∀ env env' : Environment (Extended K), (∀ v ∈ e.vars, env.TightensTo env' v) →
      extend (e.infinity env) (e.lower env) ≤ extend (e.infinity env') (e.lower env') ∧
      extend (e.infinity env') (e.upper env') ≤ extend (e.infinity env) (e.upper env)) ∧
    ∀ (relation : Relation) (name : Option String) (env env' : Environment (Extended K)),
      Environment.Tightened e.vars env env' →
      let c : Constraint (Extended K) := ⟨relation, e, name⟩
      (c.mustBeSatisfied env = true → c.mustBeSatisfied env' = true) ∧
      (c.mustBeViolated env = true → c.mustBeViolated env' = true) := by
  refine ⟨fun env env' h => ?_, fun relation name env env' h => ?_⟩
  · exact ⟨extend_lower_mono he hstore h, extend_upper_mono he hstore h⟩
  · exact Constraint.decided_of_tightened (c := ⟨relation, e, name⟩) he hstore h

/-- `x * x - y ≤ 20` with `x` from -3 to 4 and `y` from zero on, over a store whose infinity is 1000.  First
`x` is kept positive, so that its square no longer begins with zero, and then `y` gets an upper bound. -/
theorem monotone_under_tightening_of_square :
    let x : Variable := ⟨0, 0⟩
    let y : Variable := ⟨0, 1⟩
    let env : ℚ → ℚ → Environment (Extended ℚ) := fun a b =>
      { attributes := fun v =>
          if v.slot = 0 then ⟨.continuous, finite a, finite 4, none⟩
          else ⟨.continuous, finite 0, finite b, none⟩
        infinity := fun _ => finite 1000 }
    let e := (((ofVariable x).product (ofVariable x)).addVariable y (finite (-1))).addConstant
      (finite (-20))
    let c : Constraint (Extended ℚ) := ⟨.atMost, e, none⟩
    extend (finite 1000) (e.upper (env 1 1000)) ≤ extend (finite 1000) (e.upper (env (-3) 1000)) ∧
      c.mustBeSatisfied (env 1 5) = true := by
  intro x y env e c
  have he : e.IsFinite := (((canonical_ofVariable x).product (canonical_ofVariable x)).addVariable y
    (isFinite_finite _)).addConstant (isFinite_finite _) |>.toIsFinite
  have hstore : ∀ v ∈ e.vars, v.store = 0 := (forall_mem_vars_iff e _).2 (by decide +kernel)
  have htightens : ∀ a a' b b' : ℚ, (∀ t ∈ e.terms, ∀ v ∈ t.1.vars, (env a' b').Consistent v ∧
      (env a b).lower v ≤ (env a' b').lower v ∧ (env a' b').upper v ≤ (env a b).upper v) →
      ∀ v ∈ e.vars, (env a b).TightensTo (env a' b') v := by
    intro a a' b b' h
    refine (forall_mem_vars_iff e _).2 fun t ht v hv => ?_
    obtain ⟨hv', hl, hu⟩ := h t ht v hv
    exact .of_le rfl hv' hl hu
  have hfirst := htightens (-3) 1 1000 1000 (by decide +kernel)
  have hsecond := htightens 1 1 1000 5 (by decide +kernel)
  obtain ⟨hbounds, hdecisions⟩ := monotone_under_tightening he hstore
  have hrun : Environment.Tightened e.vars (env (-3) 1000) (env 1 5) :=
    (Relation.ReflTransGen.single hfirst).tail hsecond
  have hinf : ∀ a b, e.infinity (env a b) = finite 1000 := fun a b =>
    infinity_eq hstore (by decide +kernel)
  have hupper := (hbounds _ _ hfirst).2
  rw [hinf, hinf] at hupper
  exact ⟨hupper, (hdecisions .atMost none _ _ hrun).1 (by decide +kernel)⟩

end Expression

end MixedInteger
