/-
**Replacing an implication is exact.**

The premise of an implication that can be replaced is captured by an expression which is zero where
the premise holds and at least one elsewhere, since it takes whole values only and never changes
sign.  A bound of the conclusion, times that expression, then asks for nothing where the premise does
not hold and for the conclusion where it does.

Main definitions:

* `MixedInteger.Tells` — a number that tells whether a statement holds.

Main results:

* `MixedInteger.Expression.value_whole` — whole coefficients and whole variables give whole values;
* `MixedInteger.Constraint.tells_reified` — the expression that captures a premise;
* `MixedInteger.Implication.holds_upperPart`, `MixedInteger.Implication.holds_lowerPart` — both sides;
* `MixedInteger.Implication.holds_replacement` — **all of them together**.
-/

import MixedInteger.Implication.BigM
import MixedInteger.Proofs.Bounds
import Mathlib.Algebra.Ring.Subring.Basic
import Mathlib.Data.Rat.Floor

set_option autoImplicit false

namespace MixedInteger

variable {K : Type} [Field K] [LinearOrder K] [IsStrictOrderedRing K] [FloorRing K]

open Extended

/-! ### Whole numbers -/

/-- The whole numbers among the numbers. -/
def wholes (K : Type) [Field K] : Subring K := (Int.castRingHom K).range

theorem mem_wholes_iff (x : K) : x ∈ wholes K ↔ Int.fract x = 0 := by
  rw [Int.fract_eq_zero_iff]
  rfl

theorem toNumber_mem_wholes {a : Extended K} (h : Scalar.isIntegral a = true) :
    a.toNumber ∈ wholes K := by
  cases a with
  | finite x => exact (mem_wholes_iff x).2 ((isIntegral_finite x).1 h)
  | infinite n => cases h
  | undefined => cases h

namespace Expression

variable {env : Environment (Extended K)} {s : Assignment K}

/-- Where its variables are whole, so is the value of an expression with whole coefficients. -/
theorem value_whole {e : Expression (Extended K)} (h : e.isIntegral env = true)
    (hw : ∀ v ∈ e.vars, env.kind v ≠ .continuous → Int.fract (s v) = 0) :
    e.value s ∈ wholes K := by
  simp only [isIntegral, Bool.and_eq_true, List.all_eq_true, bne_iff_ne] at h
  obtain ⟨⟨hconst, hlinear⟩, hquadratic⟩ := h
  have hvar : ∀ v ∈ e.vars, env.kind v ≠ .continuous → s v ∈ wholes K := fun v hv hk =>
    (mem_wholes_iff _).2 (hw v hv hk)
  refine add_mem (add_mem (toNumber_mem_wholes hconst) ?_) ?_
  · apply list_sum_mem
    intro x hx
    obtain ⟨t, ht, rfl⟩ := List.mem_map.1 hx
    have hv : t.1 ∈ e.vars := mem_vars_of_mem_linear (List.mem_map_of_mem ht)
    exact mul_mem (toNumber_mem_wholes (hlinear t ht).2) (hvar _ hv (hlinear t ht).1)
  · apply list_sum_mem
    intro x hx
    obtain ⟨t, ht, rfl⟩ := List.mem_map.1 hx
    obtain ⟨hf, hs⟩ := mem_vars_of_mem_quadratic (List.mem_map_of_mem ht)
    obtain ⟨⟨hc, hkf⟩, hks⟩ := hquadratic t ht
    exact mul_mem (toNumber_mem_wholes hc) (mul_mem (hvar _ hf hkf) (hvar _ hs hks))

end Expression

/-! ### The captured premise -/

/-- A number that is zero where a statement holds and at least one elsewhere. -/
def Tells (x : K) (p : Prop) : Prop := (p ∧ x = 0) ∨ (¬ p ∧ 1 ≤ x)

/-- A whole number that is not negative tells whether it is zero. -/
theorem tells_of_mem_wholes {x : K} (h : x ∈ wholes K) (hx : 0 ≤ x) : Tells x (x = 0) := by
  obtain ⟨z, rfl⟩ := h
  by_cases hz : z = 0
  · left
    simp [hz]
  · right
    have hpos : 0 ≤ z := by simpa using hx
    have hone : 1 ≤ z := by omega
    refine ⟨by simpa using hz, ?_⟩
    simpa using (Int.cast_le (R := K)).2 hone

namespace Constraint

variable {env : Environment (Extended K)} {s : Assignment K}

/-- What captures a constraint tells whether it holds. -/
theorem tells_reified {n : Nat} {c : Constraint (Extended K)} {r : Expression (Extended K)}
    (hc : c.expression.IsFinite) (hinf : 0 < env.infinity n)
    (hstore : ∀ v ∈ c.expression.vars, v.store = n)
    (hs : ∀ v ∈ c.expression.vars, env.Allows s v) (h : c.reified env = .ok r) :
    r.IsFinite ∧ Tells (r.value s) (c.Holds s) := by
  have hw : ∀ v ∈ c.expression.vars, env.Within s v := fun v hv => (hs v hv).toWithin
  have hpos := Expression.infinity_pos hinf hstore
  obtain ⟨hr, -, -, hcase⟩ := eq_of_reified h
  simp only [isReifiable, Bool.and_eq_true, beq_iff_eq, Bool.or_eq_true, decide_eq_true_eq] at hr
  obtain ⟨⟨⟨hrel, -⟩, hint⟩, hsign⟩ := hr
  have hwhole : c.expression.value s ∈ wholes K :=
    Expression.value_whole hint fun v hv => (hs v hv).whole
  have hholds : c.Holds s ↔ c.expression.value s = 0 := by rw [Holds, hrel]
  rcases hcase with ⟨hu, rfl⟩ | ⟨hu, rfl⟩
  · -- the expression may be positive, so what keeps its sign is its lower bound
    have hlower : 0 ≤ c.expression.lower env := by
      rcases hsign with h | h
      · exact h
      · exact absurd hu (Extended.not_lt_of_le h)
    have hl : ¬ c.expression.lower env ≤ -c.expression.infinity env := by
      intro hle
      exact Extended.not_lt_of_le ((zero_le_neg_iff _).1 (Extended.le_trans hlower hle)) hpos
    obtain ⟨hf, hle⟩ := Expression.lower_le_value hc hinf hstore hw hl
    have hvalue : 0 ≤ c.expression.value s := by
      rw [hf.eq_finite] at hlower
      exact le_trans hlower hle
    refine ⟨hc, ?_⟩
    rw [hholds]
    exact tells_of_mem_wholes hwhole hvalue
  · -- the expression is never positive
    have hz := eq_zero_of_beq hu
    have hup : ¬ c.expression.infinity env ≤ c.expression.upper env := by
      rw [hz]
      exact fun hle => Extended.not_lt_of_le hle hpos
    obtain ⟨-, hle⟩ := Expression.value_le_upper hc hinf hstore hw hup
    rw [hz, toNumber_zero] at hle
    have hvalue : 0 ≤ c.expression.neg.value s := by
      rw [Expression.value_neg hc]
      exact neg_nonneg.2 hle
    have hneg : c.expression.neg.value s ∈ wholes K := by
      rw [Expression.value_neg hc]
      exact neg_mem hwhole
    refine ⟨hc.neg, ?_⟩
    rw [hholds, ← neg_eq_zero, ← Expression.value_neg hc]
    exact tells_of_mem_wholes hneg hvalue

end Constraint

/-! ### Both sides of the conclusion -/

omit [FloorRing K] in
/-- Below a multiple of what tells, a value has to be below zero where the statement holds, and need
not be anything elsewhere. -/
theorem Tells.le_mul_iff {x r M : K} {p : Prop} (hr : Tells r p) (hx : x ≤ M) (hM : 0 < M) :
    x ≤ r * M ↔ (p → x ≤ 0) := by
  rcases hr with ⟨hp, rfl⟩ | ⟨hp, hr⟩
  · simp [hp]
  · have hle : x ≤ r * M := hx.trans (le_mul_of_one_le_left hM.le hr)
    simp [hp, hle]

omit [FloorRing K] in
/-- The same for a value above a multiple. -/
theorem Tells.mul_le_iff {x r m : K} {p : Prop} (hr : Tells r p) (hx : m ≤ x) (hm : m < 0) :
    r * m ≤ x ↔ (p → 0 ≤ x) := by
  rcases hr with ⟨hp, rfl⟩ | ⟨hp, hr⟩
  · simp [hp]
  · have hle : r * m ≤ x := (mul_le_of_one_le_left hm.le hr).trans hx
    simp [hp, hle]

namespace Implication

variable {env : Environment (Extended K)} {s : Assignment K} {e r : Expression (Extended K)}
  {p : Prop}

/-- The constraints for the upper side say that the value is not positive where the statement
holds. -/
theorem holds_upperPart {P : List (Constraint (Extended K))} (he : e.IsFinite) (hr : r.IsFinite)
    (hp : Tells (r.value s) p) (hu : (e.upper env).IsFinite)
    (hle : e.value s ≤ (e.upper env).toNumber) (h : upperPart env e r = .ok P) :
    (∀ c ∈ P, c.Holds s) ↔ (p → e.value s ≤ 0) := by
  unfold upperPart at h
  rw [hu.eq_finite] at h
  split at h
  · next hpos =>
      obtain ⟨c, hc, h⟩ := exists_of_bind_eq_ok h
      cases h
      have hholds := Constraint.holds_of_compare he (hr.scale (isFinite_finite _)) hc s
      rw [Relation.Compares, Expression.value_scale hr (isFinite_finite _), toNumber_finite] at hholds
      simp only [List.forall_mem_singleton, hholds]
      exact hp.le_mul_iff hle hpos
  · next hpos =>
      -- no constraint is needed, since the upper bound already says so
      cases h
      have hn : e.value s ≤ 0 := hle.trans (not_lt.1 hpos)
      simp [hn]

/-- The constraints for the lower side say that the value is not negative where the statement
holds. -/
theorem holds_lowerPart {P : List (Constraint (Extended K))} (he : e.IsFinite) (hr : r.IsFinite)
    (hp : Tells (r.value s) p) (hl : (e.lower env).IsFinite)
    (hle : (e.lower env).toNumber ≤ e.value s) (h : lowerPart env e r = .ok P) :
    (∀ c ∈ P, c.Holds s) ↔ (p → 0 ≤ e.value s) := by
  unfold lowerPart at h
  rw [hl.eq_finite] at h
  split at h
  · next hneg =>
      obtain ⟨c, hc, h⟩ := exists_of_bind_eq_ok h
      cases h
      have hholds := Constraint.holds_of_compare (hr.scale (isFinite_finite _)) he hc s
      rw [Relation.Compares, Expression.value_scale hr (isFinite_finite _), toNumber_finite] at hholds
      simp only [List.forall_mem_singleton, hholds]
      exact hp.mul_le_iff hle hneg
  · next hneg =>
      cases h
      have hn : 0 ≤ e.value s := (not_lt.1 hneg).trans hle
      simp [hn]

omit [IsStrictOrderedRing K] [FloorRing K] in
/-- Whatever its relation, a conclusion asks for both sides of it or for one. -/
theorem holds_iff_sides (i : Implication (Extended K)) (s : Assignment K) :
    i.Holds s ↔ (i.premise.Holds s → i.conclusion.expression.value s ≤ 0) ∧
      (i.conclusion.relation = .equal → i.premise.Holds s → 0 ≤ i.conclusion.expression.value s) := by
  unfold Holds
  rw [Constraint.Holds.eq_def s i.conclusion]
  cases i.conclusion.relation with
  | atMost => simp
  | equal =>
      dsimp only
      rw [le_antisymm_iff, imp_and]
      simp

/-- What takes the place of an implication holds exactly where the implication does, and all of its
coefficients are numbers. -/
theorem holds_replacement {n : Nat} {i : Implication (Extended K)}
    {P : List (Constraint (Extended K))} (hi : i.IsFinite) (hinf : 0 < env.infinity n)
    (hstore : ∀ v, i.Mentions v → v.store = n) (hs : ∀ v, i.Mentions v → env.Allows s v)
    (h : i.replacement env = .ok P) :
    (∀ c ∈ P, c.IsFinite) ∧ (i.Holds s ↔ ∀ c ∈ P, c.Holds s) := by
  have hc := hi.conclusion
  have hstorec : ∀ v ∈ i.conclusion.expression.vars, v.store = n := fun v hv => hstore v (Or.inr hv)
  have hwithin : ∀ v ∈ i.conclusion.expression.vars, env.Within s v := fun v hv =>
    (hs v (Or.inr hv)).toWithin
  obtain ⟨hup, r, above, hr, ha, hcase⟩ := eq_of_replacement h
  obtain ⟨fr, htells⟩ := Constraint.tells_reified hi.premise hinf (fun v hv => hstore v (Or.inl hv))
    (fun v hv => hs v (Or.inl hv)) hr
  obtain ⟨fu, hupper⟩ := Expression.value_le_upper hc hinf hstorec hwithin hup
  have habove := holds_upperPart hc fr htells fu hupper ha
  have fabove : ∀ c ∈ above, c.IsFinite := by
    rcases eq_of_upperPart ha with rfl | rfl
    · simp
    · exact List.forall_mem_singleton.2 (Expression.IsFinite.sub hc (fr.scale fu))
  rw [holds_iff_sides]
  -- only an equation asks for the lower side
  rcases hcase with ⟨hrel, rfl⟩ | ⟨hrel, hlow, below, hb, rfl⟩
  · refine ⟨fabove, ?_⟩
    rw [habove]
    simp [hrel]
  · obtain ⟨fl, hlower⟩ := Expression.lower_le_value hc hinf hstorec hwithin hlow
    have hbelow := holds_lowerPart hc fr htells fl hlower hb
    have fbelow : ∀ c ∈ below, c.IsFinite := by
      rcases eq_of_lowerPart hb with rfl | rfl
      · simp
      · exact List.forall_mem_singleton.2 (Expression.IsFinite.sub (fr.scale fl) hc)
    rw [List.forall_mem_append, List.forall_mem_append, habove, hbelow]
    refine ⟨⟨fabove, fbelow⟩, ?_⟩
    simp [hrel]

omit [IsStrictOrderedRing K] in
/-- At most two inequalities take the place of an implication. -/
theorem replacement_shape {i : Implication (Extended K)} {P : List (Constraint (Extended K))}
    (h : i.replacement env = .ok P) : P.length ≤ 2 ∧ ∀ c ∈ P, c.relation = .atMost := by
  obtain ⟨-, r, above, -, ha, hcase⟩ := eq_of_replacement h
  rcases hcase with ⟨-, rfl⟩ | ⟨-, -, below, hb, rfl⟩
  · rcases eq_of_upperPart ha with rfl | rfl <;> simp
  · rcases eq_of_upperPart ha with rfl | rfl <;> rcases eq_of_lowerPart hb with rfl | rfl <;> simp

/-- **Replacing an implication is exact**: what takes its place are at most two inequalities, and
wherever the bounds and the kinds of its variables allow, they hold if and only if it does. -/
theorem replacement_is_exact {n : Nat} {i : Implication (Extended K)}
    {P : List (Constraint (Extended K))} (hi : i.IsFinite) (hinf : 0 < env.infinity n)
    (hstore : ∀ v, i.Mentions v → v.store = n) (h : i.replacement env = .ok P) :
    P.length ≤ 2 ∧ (∀ c ∈ P, c.relation = .atMost) ∧
    ∀ s : Assignment K, (∀ v, i.Mentions v → env.Allows s v) →
      (i.Holds s ↔ ∀ c ∈ P, c.Holds s) := by
  obtain ⟨hlength, hrelation⟩ := replacement_shape h
  refine ⟨hlength, hrelation, ?_⟩
  intro s hs
  exact (holds_replacement hi hinf hstore hs h).2

/-- With a binary variable `x` and a variable `y` from zero to ten, `y ≤ 3` where `x` is one: replaced
by constraints that hold where `x` is zero and `y` is nine. -/
theorem replacement_is_exact_for_switch :
    let x : Variable := ⟨0, 0⟩
    let y : Variable := ⟨0, 1⟩
    let env : Environment (Extended ℚ) :=
      { attributes := fun v =>
          if v.slot = 0 then ⟨.binary, .finite 0, .finite 1, none⟩
          else ⟨.continuous, .finite 0, .finite 10, none⟩
        infinity := fun _ => .infinite false }
    let i : Implication (Extended ℚ) :=
      { premise := ⟨.equal, .affine (.finite (-1)) (.finite 1) x, none⟩
        conclusion := ⟨.atMost, .affine (.finite (-3)) (.finite 1) y, none⟩
        name := none }
    let s : Assignment ℚ := fun v => if v.slot = 0 then 0 else 9
    ∃ P, i.replacement env = .ok P ∧ P.length ≤ 2 ∧ ∀ c ∈ P, c.Holds s := by
  intro x y env i s
  have hmentions : ∀ v, i.Mentions v → v = x ∨ v = y := by
    intro v hv
    simpa [Mentions, i, Expression.mem_vars_affine] using hv
  have hok : (i.replacement env).toBool = true := by decide +kernel
  cases hP : i.replacement env with
  | error f =>
      rw [hP] at hok
      cases hok
  | ok P =>
      have hstore : ∀ v, i.Mentions v → v.store = 0 := by
        intro v hv
        rcases hmentions v hv with rfl | rfl <;> rfl
      have hfinite : i.IsFinite :=
        ⟨Expression.isFinite_affine _ _ x, Expression.isFinite_affine _ _ y⟩
      have hinf : 0 < env.infinity 0 := by decide +kernel
      obtain ⟨hlength, -, hexact⟩ := replacement_is_exact hfinite hinf hstore hP
      have hs : ∀ v, i.Mentions v → env.Allows s v := by
        intro v hv
        rcases hmentions v hv with rfl | rfl <;> decide +kernel
      have hholds : i.Holds s := by decide +kernel
      exact ⟨P, rfl, hlength, (hexact s hs).1 hholds⟩

end Implication

end MixedInteger
