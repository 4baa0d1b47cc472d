/-
**Changes among doubles are all or nothing.**

A change of an expression goes on until it needs the double of a whole number that has none.  Where the
coefficients of all terms are doubles that does not happen: a change is refused for the degrees or for the
divisor, both of which are looked at in front of the first change, or else it is complete.

Main definitions:

* `MixedInteger.Expression.isReal` — the coefficients of all terms are doubles.

Main results:

* `MixedInteger.Expression.fault_increase`, `MixedInteger.Expression.fault_multiplyAll`,
  `MixedInteger.Expression.fault_multiply` — sums, multiples and products that are complete;
* `MixedInteger.Script.reached_of_fault` — **among doubles, a change that is refused changes nothing**.
-/

import MixedInteger.Script.Operation

set_option autoImplicit false

namespace MixedInteger

/-! ### Changes among doubles -/

/-- Whether a number is a double. -/
def Number.isReal : Number → Bool
  | whole _ => false
  | real _ => true

theorem Number.exists_of_isReal {a : Number} (h : a.isReal = true) : ∃ x, a = real x := by
  cases a with
  | whole n => cases h
  | real x => exact ⟨x, rfl⟩

theorem Number.hasDouble_of_isReal {a : Number} (h : a.isReal = true) : a.hasDouble = true := by
  obtain ⟨x, rfl⟩ := exists_of_isReal h
  rfl

namespace Expression

/-- Whether the coefficients of all terms are doubles. -/
def isReal (e : Expression Number) : Bool :=
  e.linear.all Number.isReal && e.quadratic.all Number.isReal

theorem isReal_iff (e : Expression Number) :
    e.isReal = true ↔ (∀ t ∈ e.linear.entries, t.2.isReal = true) ∧
      ∀ t ∈ e.quadratic.entries, t.2.isReal = true := by
  simp [isReal, Coefficients.all]

theorem all_hasDouble_of_isReal {κ : Type} {m : Coefficients κ Number}
    (h : ∀ t ∈ m.entries, t.2.isReal = true) : m.all Number.hasDouble = true := by
  simp only [Coefficients.all, List.all_eq_true]
  exact fun t ht => Number.hasDouble_of_isReal (h t ht)

/-- Multiples of doubles are complete. -/
theorem fault_multiplyAll {e : Expression Number} (he : e.isReal = true) (c : Float) :
    (e.multiplyAll c).fault = none := by
  obtain ⟨hl, hq⟩ := (isReal_iff e).1 he
  unfold multiplyAll
  dsimp only
  split
  · rfl
  · simp [Change.completeIf, all_hasDouble_of_isReal hl, all_hasDouble_of_isReal hq]

/-- Multiples of doubles are doubles. -/
theorem isReal_multiplyAll {e : Expression Number} (he : e.isReal = true) (c : Float) :
    (e.multiplyAll c).reached.isReal = true := by
  obtain ⟨hl, hq⟩ := (isReal_iff e).1 he
  have htimes : ∀ a : Number, a.isReal = true → (a * .real c).isReal = true := by
    intro a ha
    obtain ⟨x, rfl⟩ := Number.exists_of_isReal ha
    rfl
  rw [multiplyAll_eq_scale (fault_multiplyAll he c), isReal_iff]
  unfold scale
  split
  · constructor <;> intro t ht <;> cases ht
  · constructor
    · intro t ht
      obtain ⟨u, hu, rfl⟩ := List.mem_map.1 ht
      exact htimes u.2 (hl u hu)
    · intro t ht
      obtain ⟨u, hu, rfl⟩ := List.mem_map.1 ht
      exact htimes u.2 (hq u hu)

theorem isAddable_of_isReal {κ : Type} [DecidableEq κ] {m : Coefficients κ Number}
    (hm : ∀ t ∈ m.entries, t.2.isReal = true) {t : κ × Number} (ht : t.2.isReal = true) :
    isAddable m t = true := by
  have hget : ((m.get? t.1).getD 0).isReal = true := by
    cases hg : m.get? t.1 with
    | none => rfl
    | some a =>
        obtain ⟨u, hu, rfl⟩ := Option.map_eq_some_iff.1 hg
        exact hm u (List.mem_of_find?_eq_some hu)
  obtain ⟨x, hx⟩ := Number.exists_of_isReal hget
  obtain ⟨y, hy⟩ := Number.exists_of_isReal ht
  rw [isAddable, hx, hy, Number.addsTo_real]

/-- Sums of doubles are complete. -/
theorem fault_increase {e f : Expression Number} (he : e.isReal = true) (hf : f.isReal = true) :
    (e.increase f).fault = none := by
  obtain ⟨hel, heq⟩ := (isReal_iff e).1 he
  obtain ⟨hfl, hfq⟩ := (isReal_iff f).1 hf
  have hl : f.linear.entries.all (isAddable e.linear) = true :=
    List.all_eq_true.2 fun t ht => isAddable_of_isReal hel (hfl t ht)
  have hq : f.quadratic.entries.all (isAddable e.quadratic) = true :=
    List.all_eq_true.2 fun t ht => isAddable_of_isReal heq (hfq t ht)
  simp [increase, Change.completeIf, hl, hq]

theorem fault_decrease {e f : Expression Number} (he : e.isReal = true) (hf : f.isReal = true) :
    (e.decrease f).fault = none := by
  have ho : (oppose f).fault = none := fault_multiplyAll hf _
  simp only [decrease, ho]
  exact fault_increase he (isReal_multiplyAll hf _)

theorem increaseProducts_of_isReal {m : Coefficients VariablePair Number}
    {ts : List ((Variable × Number) × (Variable × Number))}
    (h : ∀ t ∈ ts, t.1.2.isReal = true ∧ t.2.2.isReal = true) :
    (increaseProducts m ts).2 = true := by
  induction ts generalizing m with
  | nil => rfl
  | cons t rest ih =>
      obtain ⟨x, y⟩ := t
      obtain ⟨hx, hy⟩ := h (x, y) List.mem_cons_self
      obtain ⟨a, ha⟩ := Number.exists_of_isReal hx
      obtain ⟨b, hb⟩ := Number.exists_of_isReal hy
      have hfits : x.2.timesFits y.2 = true := by
        rw [ha, hb]
        rfl
      rw [increaseProducts, if_pos hfits]
      exact ih fun t ht => h t (List.mem_cons_of_mem (x, y) ht)

/-- Products of doubles are complete once their degrees allow them. -/
theorem fault_multiply {e f : Expression Number} (he : e.isReal = true) (hf : f.isReal = true) :
    (e.multiply f).fault = none := by
  obtain ⟨hel, -⟩ := (isReal_iff e).1 he
  obtain ⟨hfl, hfq⟩ := (isReal_iff f).1 hf
  have hl : f.linear.entries.all isDoubled = true :=
    List.all_eq_true.2 fun t ht => Number.hasDouble_of_isReal (hfl t ht)
  have hq : f.quadratic.entries.all isDoubled = true :=
    List.all_eq_true.2 fun t ht => Number.hasDouble_of_isReal (hfq t ht)
  have hpairs : ∀ t ∈ linearPairs e f, t.1.2.isReal = true ∧ t.2.2.isReal = true := by
    intro t ht
    obtain ⟨x, hx, ht⟩ := List.mem_flatMap.1 ht
    obtain ⟨y, hy, rfl⟩ := List.mem_map.1 ht
    exact ⟨hel x hx, hfl y hy⟩
  have hs := fault_multiplyAll he f.constant.toFloat
  simp [multiply, hs, hl, hq, Change.completeIf, increaseProducts_of_isReal hpairs]

end Expression

namespace Script

open Expression

/-- **Among doubles, a change that is refused changes nothing.** -/
theorem reached_of_fault {op : Arithmetic} {e : Expression Number} {o : Operand Number}
    (he : e.isReal = true) (ho : o.asExpression.isReal = true)
    (h : (change op e o).fault ≠ none) : (change op e o).reached = e := by
  -- products are refused for their degrees, in front of the first change
  have hmultiply : ∀ f : Expression Number, f.isReal = true → (e.multiplyBy f).fault ≠ none →
      (e.multiplyBy f).reached = e := by
    intro f hf h
    unfold multiplyBy at h ⊢
    cases hm : e.mul f with
    | error fault => rfl
    | ok g => exact absurd (by simp [hm, fault_multiply he hf]) h
  -- quotients are refused for their divisors, likewise
  have hdivide : ∀ c : Float, (e.divide c).fault ≠ none → (e.divide c).reached = e := by
    intro c h
    unfold divide at h ⊢
    cases hq : quotient 1 c with
    | error fault => rfl
    | ok x => exact absurd (by simp [hq, fault_multiplyAll he]) h
  have hdivideBy : ∀ f : Expression Number, (e.divideBy f).fault ≠ none →
      (e.divideBy f).reached = e := by
    intro f h
    unfold divideBy at h ⊢
    split
    · next hf =>
        rw [if_pos hf] at h
        exact hdivide _ h
    · rfl
  -- a single term is looked at before it is changed
  have hincreaseBy : ∀ v c, (e.increaseBy v c).fault ≠ none → (e.increaseBy v c).reached = e := by
    intro v c h
    unfold increaseBy at h ⊢
    split
    · next hc =>
        rw [if_pos hc] at h
        exact absurd rfl h
    · rfl
  cases op with
  | add =>
      cases o with
      | «variable» v => exact hincreaseBy v 1 h
      | expression f => exact absurd (fault_increase he ho) h
      | number a => exact absurd rfl h
  | sub =>
      cases o with
      | «variable» v => exact hincreaseBy v (-1) h
      | expression f => exact absurd (fault_decrease he ho) h
      | number a => exact absurd rfl h
  | mul =>
      cases o with
      | «variable» v => exact hmultiply _ ho h
      | expression f => exact hmultiply _ ho h
      | number a => exact absurd (fault_multiplyAll he _) h
  | div =>
      cases o with
      | «variable» v => exact hdivideBy _ h
      | expression f => exact hdivideBy _ h
      | number a => exact hdivide _ h

/-- An operator that does not compute changes nothing at all. -/
theorem reached_changeBy_of_fault {op : Operator} {e : Expression Number} {o : Operand Number}
    (he : e.isReal = true) (ho : o.asExpression.isReal = true)
    (h : (changeBy op e o).fault ≠ none) : (changeBy op e o).reached = e := by
  unfold changeBy at h ⊢
  cases ha : op.computing? with
  | none => rfl
  | some a =>
      rw [ha] at h
      exact reached_of_fault he ho h

end Script

end MixedInteger
