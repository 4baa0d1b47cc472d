/-
**Expressions are kept in canonical form.**

An expression stores no coefficient that is zero: a total that cancels takes its key along, and a
factor of zero leaves nothing.  Every operator keeps to this, so every cell of a program that starts
without cells does, whatever its steps are and whichever of them are refused.

Main definitions:

* `MixedInteger.Coefficients.NoZero`, `MixedInteger.Expression.Canonical` — canonical forms;
* `MixedInteger.Operand.Canonical`, `MixedInteger.Cells.Canonical` — of operands and of cells;
* `MixedInteger.Cells.Step.IsFinite` — steps that mention numbers only.

Main results:

* `MixedInteger.Expression.Canonical.combine`, `MixedInteger.Operand.Canonical.operate` — **operators
  give canonical forms**;
* `MixedInteger.Cells.Canonical.run` — programs keep to them.
-/

import MixedInteger.Expression.Cells
import MixedInteger.Meaning.Product

set_option autoImplicit false

namespace MixedInteger

variable {K : Type} [Field K]

/-! ### Coefficients -/

namespace Coefficients

variable {κ : Type}

/-- No coefficient is zero. -/
def NoZero (m : Coefficients κ (Extended K)) : Prop := ∀ t ∈ m.entries, t.2.toNumber ≠ 0

theorem noZero_empty : (empty : Coefficients κ (Extended K)).NoZero := by
  simp [NoZero, empty]

variable [LinearOrder K] [FloorRing K]

/-- A number but zero, times every coefficient, leaves none of them zero. -/
theorem NoZero.scaled {m : Coefficients κ (Extended K)} (h : m.NoZero) (hm : m.IsFinite)
    {c : Extended K} (hc : c.IsFinite) (hz : c.toNumber ≠ 0) : (m.map (· * c)).NoZero := by
  intro t ht
  simp only [map, List.mem_map] at ht
  obtain ⟨e, he, rfl⟩ := ht
  rw [Extended.toNumber_mul (hm e he) hc]
  exact mul_ne_zero (h e he) hz

variable [DecidableEq κ]

/-- A total of zero is not stored. -/
theorem NoZero.accumulate {m : Coefficients κ (Extended K)} (h : m.NoZero) (hm : m.IsFinite) (k : κ)
    {c : Extended K} (hc : c.IsFinite) : (m.accumulate k c).NoZero := by
  unfold Coefficients.accumulate
  dsimp only
  split
  · intro t ht
    exact h t (List.mem_of_mem_filter ht)
  · next hz =>
      intro t ht
      rcases eq_or_mem_of_mem_insert ht with rfl | ht
      · rwa [Extended.beq_zero_iff (hm.total k hc)] at hz
      · exact h t ht

theorem NoZero.accumulateAll {m : Coefficients κ (Extended K)} (h : m.NoZero) (hm : m.IsFinite)
    {es : List (κ × Extended K)} (hes : ∀ t ∈ es, t.2.IsFinite) : (m.accumulateAll es).NoZero := by
  induction es generalizing m with
  | nil => exact h
  | cons t rest ih =>
      have ht : t.2.IsFinite := hes t List.mem_cons_self
      exact ih (h.accumulate hm t.1 ht) (hm.accumulate t.1 ht) fun u hu =>
        hes u (List.mem_cons_of_mem _ hu)

end Coefficients

/-! ### Expressions -/

namespace Expression

/-- Every coefficient is a number, and none is zero; the constant may be. -/
structure Canonical (e : Expression (Extended K)) : Prop extends e.IsFinite where
  noZeroLinear : e.linear.NoZero
  noZeroQuadratic : e.quadratic.NoZero

theorem canonical_const {a : Extended K} (ha : a.IsFinite) : (const a).Canonical :=
  ⟨isFinite_const ha, Coefficients.noZero_empty, Coefficients.noZero_empty⟩

variable [LinearOrder K] [FloorRing K]

theorem canonical_ofVariable (v : Variable) : (ofVariable v : Expression (Extended K)).Canonical where
  toIsFinite := isFinite_ofVariable v
  noZeroLinear := by
    intro t ht
    simp only [ofVariable, Coefficients.single, List.mem_singleton] at ht
    subst ht
    exact one_ne_zero
  noZeroQuadratic := Coefficients.noZero_empty

theorem Canonical.addConstant {e : Expression (Extended K)} (he : e.Canonical) {a : Extended K}
    (ha : a.IsFinite) : (e.addConstant a).Canonical :=
  ⟨⟨he.constant.add ha, he.linear, he.quadratic⟩, he.noZeroLinear, he.noZeroQuadratic⟩

theorem Canonical.addVariable {e : Expression (Extended K)} (he : e.Canonical) (v : Variable)
    {c : Extended K} (hc : c.IsFinite) : (e.addVariable v c).Canonical :=
  ⟨he.toIsFinite.addVariable v hc, he.noZeroLinear.accumulate he.linear v hc, he.noZeroQuadratic⟩

theorem Canonical.add {e f : Expression (Extended K)} (he : e.Canonical) (hf : f.Canonical) :
    (e.add f).Canonical :=
  ⟨he.toIsFinite.add hf.toIsFinite, he.noZeroLinear.accumulateAll he.linear hf.linear,
    he.noZeroQuadratic.accumulateAll he.quadratic hf.quadratic⟩

theorem Canonical.scale {e : Expression (Extended K)} (he : e.Canonical) {c : Extended K}
    (hc : c.IsFinite) : (e.scale c).Canonical := by
  by_cases hz : (c == 0) = true
  · rw [scale_of_eq_zero e hz]
    exact canonical_const Extended.isFinite_zero
  · have hn : c.toNumber ≠ 0 := fun h => hz ((Extended.beq_zero_iff hc).2 h)
    have hs : e.scale c = ⟨e.constant * c, e.linear.map (· * c), e.quadratic.map (· * c)⟩ := by
      simp [Expression.scale, hz]
    rw [hs]
    exact ⟨⟨he.constant.mul hc, he.linear.scaled hc, he.quadratic.scaled hc⟩,
      he.noZeroLinear.scaled he.linear hc hn, he.noZeroQuadratic.scaled he.quadratic hc hn⟩

theorem Canonical.neg {e : Expression (Extended K)} (he : e.Canonical) : e.neg.Canonical :=
  he.scale Extended.isFinite_one.neg

theorem Canonical.sub {e f : Expression (Extended K)} (he : e.Canonical) (hf : f.Canonical) :
    (e.sub f).Canonical := he.add hf.neg

theorem Canonical.product {e f : Expression (Extended K)} (he : e.Canonical) (hf : f.Canonical) :
    (e.product f).Canonical where
  toIsFinite := he.toIsFinite.product hf.toIsFinite
  noZeroLinear :=
    (he.scale hf.constant).noZeroLinear.accumulateAll (he.scale hf.constant).linear
      (isFinite_times he.constant hf.linear)
  noZeroQuadratic :=
    ((he.scale hf.constant).noZeroQuadratic.accumulateAll (he.scale hf.constant).quadratic
      (isFinite_times he.constant hf.quadratic)).accumulateAll
        ((he.scale hf.constant).quadratic.accumulateAll (isFinite_times he.constant hf.quadratic))
        (isFinite_crossTerms he.linear hf.linear)

theorem Canonical.mul {e f g : Expression (Extended K)} (he : e.Canonical) (hf : f.Canonical)
    (h : e.mul f = .ok g) : g.Canonical := by
  rw [eq_product_of_mul h]
  exact he.product hf

theorem Canonical.divConstant {e g : Expression (Extended K)} (he : e.Canonical) {c : Extended K}
    (hc : c.IsFinite) (h : e.divConstant c = .ok g) : g.Canonical := by
  unfold Expression.divConstant quotient at h
  by_cases hz : (c == 0) = true
  · simp only [hz, ↓reduceIte] at h
    cases h
  · simp only [hz] at h
    cases h
    have hn : c.toNumber ≠ 0 := fun h0 => hz ((Extended.beq_zero_iff hc).2 h0)
    have hd : (1 : Extended K) / c = .finite (1 / c.toNumber) := by
      rw [hc.eq_finite]
      exact Extended.finite_div 1 hn
    exact he.scale (hd ▸ Extended.isFinite_finite _)

theorem Canonical.div {e f g : Expression (Extended K)} (he : e.Canonical) (hf : f.Canonical)
    (h : e.div f = .ok g) : g.Canonical := by
  unfold Expression.div at h
  split at h
  · exact he.divConstant hf.constant h
  · cases h

end Expression

/-! ### Operators -/

/-- An operand that is an expression is in canonical form, one that is a number is one. -/
def Operand.Canonical : Operand (Extended K) → Prop
  | .variable _ => True
  | .expression e => e.Canonical
  | .number a => a.IsFinite

variable [LinearOrder K] [FloorRing K]

theorem Operand.Canonical.asExpression {o : Operand (Extended K)} (h : o.Canonical) :
    o.asExpression.Canonical := by
  cases o with
  | «variable» v => exact Expression.canonical_ofVariable v
  | expression e => exact h
  | number a => exact Expression.canonical_const h

/-- An operator with an expression on its left gives a canonical form. -/
theorem Expression.Canonical.combine (op : Arithmetic) {e g : Expression (Extended K)}
    {o : Operand (Extended K)} (he : e.Canonical) (ho : o.Canonical) (h : e.combine op o = .ok g) :
    g.Canonical := by
  have hone : (1 : Extended K).IsFinite := Extended.isFinite_one
  cases op with
  | add =>
      cases o with
      | «variable» v =>
          cases h
          exact he.addVariable v hone
      | expression f =>
          cases h
          exact he.add ho
      | number a =>
          cases h
          exact he.addConstant ho
  | sub =>
      cases o with
      | «variable» v =>
          cases h
          exact he.addVariable v hone.neg
      | expression f =>
          cases h
          exact he.sub ho
      | number a =>
          cases h
          exact he.addConstant (Extended.IsFinite.neg ho)
  | mul =>
      cases o with
      | «variable» v => exact he.mul ho.asExpression h
      | expression f => exact he.mul ho.asExpression h
      | number a =>
          cases h
          exact he.scale ho
  | div =>
      cases o with
      | «variable» v => exact he.div ho.asExpression h
      | expression f => exact he.div ho.asExpression h
      | number a => exact he.divConstant ho h

/-- So does one with a number on its left. -/
theorem Expression.Canonical.combineAfter {op : Arithmetic} {a : Extended K}
    {e g : Expression (Extended K)} (ha : a.IsFinite) (he : e.Canonical)
    (h : e.combineAfter op a = .ok g) : g.Canonical := by
  have ho : (Operand.number a).Canonical := ha
  have hx : (Operand.expression e).Canonical := he
  cases op with
  | add => exact Canonical.combine .add he ho h
  | sub => exact Canonical.combine .add he.neg ho h
  | mul => exact Canonical.combine .mul he ho h
  | div => exact Canonical.combine .div (canonical_const ha) hx h

theorem Operand.Canonical.operate {op : Arithmetic} {a b : Operand (Extended K)}
    {g : Expression (Extended K)} (ha : a.Canonical) (hb : b.Canonical)
    (h : a.operate op b = .ok g) : g.Canonical := by
  cases a with
  | «variable» v => exact ha.asExpression.combine op hb h
  | expression e => exact ha.asExpression.combine op hb h
  | number x => exact hb.asExpression.combineAfter ha h

/-! ### Programs -/

namespace Cells

/-- A name that stands for a number stands for a number, not for an infinity. -/
def Reference.IsFinite : Reference (Extended K) → Prop
  | .number a => a.IsFinite
  | _ => True

/-- A step mentions numbers only. -/
def Step.IsFinite : Step (Extended K) → Prop
  | .make r => r.IsFinite
  | .compute _ a b => a.IsFinite ∧ b.IsFinite
  | .negate a => a.IsFinite
  | .change _ _ r => r.IsFinite

/-- Every cell holds a canonical form. -/
def Canonical (cs : Cells (Extended K)) : Prop := ∀ n, (cs.fetch n).Canonical

theorem canonical_empty : Canonical (#[] : Cells (Extended K)) := by
  intro n
  exact Expression.canonical_const Extended.isFinite_zero

theorem Canonical.operand {cs : Cells (Extended K)} (hcs : cs.Canonical)
    {r : Reference (Extended K)} (hr : r.IsFinite) : (r.operand cs).Canonical := by
  cases r with
  | «variable» v => trivial
  | cell n => exact hcs n
  | number a => exact hr

theorem Canonical.push {cs : Cells (Extended K)} (hcs : cs.Canonical) {e : Expression (Extended K)}
    (he : e.Canonical) : Canonical (cs.push e) := by
  intro n
  by_cases hn : n = cs.size
  · rw [hn, fetch_push_self]
    exact he
  · rw [fetch_push_of_ne hn]
    exact hcs n

theorem Canonical.put {cs : Cells (Extended K)} (hcs : cs.Canonical) {m : Nat} (hm : m < cs.size)
    {e : Expression (Extended K)} (he : e.Canonical) : (cs.put m e).Canonical := by
  intro n
  by_cases hn : m = n
  · rw [← hn, fetch_put_self hm]
    exact he
  · rw [fetch_put_of_ne hn]
    exact hcs n

theorem Canonical.change {op : Arithmetic} {cs cs' : Cells (Extended K)} {target : Nat}
    {r : Reference (Extended K)} (hcs : cs.Canonical) (hr : r.IsFinite)
    (h : cs.change op target r = .ok cs') : cs'.Canonical := by
  by_cases ht : target < cs.size
  · rw [change_eq ht] at h
    cases hc : (cs.fetch target).combine op (r.operand cs) with
    | error f =>
        rw [hc] at h
        cases h
    | ok g =>
        rw [hc] at h
        cases h
        exact hcs.put ht ((hcs target).combine _ (hcs.operand hr) hc)
  · rw [eq_of_change (Nat.not_lt.1 ht) h]
    exact hcs

/-- A step that mentions numbers only keeps the cells in canonical form. -/
theorem Canonical.perform {cs cs' : Cells (Extended K)} {step : Step (Extended K)}
    (hcs : cs.Canonical) (hs : step.IsFinite) (h : cs.perform step = .ok cs') : cs'.Canonical := by
  cases step with
  | make r =>
      cases h
      exact hcs.push (hcs.operand hs).asExpression
  | compute op a b =>
      cases ho : (a.operand cs).operate op (b.operand cs) with
      | error f =>
          simp only [Cells.perform, ho] at h
          cases h
      | ok g =>
          simp only [Cells.perform, ho] at h
          cases h
          exact hcs.push ((hcs.operand hs.1).operate (hcs.operand hs.2) ho)
  | negate a =>
      cases h
      exact hcs.push (hcs.operand hs).asExpression.neg
  | change op target r => exact hcs.change hs h

theorem Canonical.attempt {cs : Cells (Extended K)} {step : Step (Extended K)} (hcs : cs.Canonical)
    (hs : step.IsFinite) : (cs.attempt step).Canonical := by
  unfold Cells.attempt
  split
  · next cs' h => exact hcs.perform hs h
  · exact hcs

/-- **A program keeps its cells in canonical form.** -/
theorem Canonical.run {cs : Cells (Extended K)} {program : List (Step (Extended K))}
    (hcs : cs.Canonical) (hp : ∀ step ∈ program, step.IsFinite) : (cs.run program).Canonical := by
  induction program generalizing cs with
  | nil => exact hcs
  | cons step rest ih =>
      exact ih (hcs.attempt (hp step List.mem_cons_self)) fun t ht =>
        hp t (List.mem_cons_of_mem _ ht)

end Cells

end MixedInteger
