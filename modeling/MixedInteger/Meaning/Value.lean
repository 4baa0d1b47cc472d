/-
**The value of an expression at an assignment.**

An expression with exact coefficients is a polynomial function of the numbers that are assigned to its
variables.  How its terms are ordered and merged does not show in its value, and arithmetic on
expressions is arithmetic on values.

Main definitions:

* `MixedInteger.Assignment` — a number for each variable;
* `MixedInteger.Coefficients.weigh` — the sum of the coefficients, each times the weight of its key;
* `MixedInteger.Expression.value` — the value of an expression;
* `MixedInteger.Expression.IsFinite` — every coefficient is a number.

Main results:

* `MixedInteger.Coefficients.weigh_accumulate` — adding to a coefficient adds to the sum;
* `MixedInteger.Expression.value_add`, `MixedInteger.Expression.value_scale` — **the value of a sum,
  and of a multiple**.
-/

import MixedInteger.Expression.Basic
import MixedInteger.Scalar.Extended
import Mathlib.Algebra.BigOperators.Group.List.Basic
import Mathlib.Tactic.LinearCombination
import Mathlib.Tactic.Ring

set_option autoImplicit false

namespace MixedInteger

/-- A number for each variable. -/
abbrev Assignment (K : Type) := Variable → K

/-! ### Weighted sums -/

namespace Coefficients

variable {κ K : Type}

/-- Whether every coefficient is a number. -/
def IsFinite (m : Coefficients κ (Extended K)) : Prop := ∀ t ∈ m.entries, t.2.IsFinite

/-- The sum of the coefficients, each times the weight of its key. -/
def weigh [Zero K] [Add K] [Mul K] (m : Coefficients κ (Extended K)) (weight : κ → K) : K :=
  (m.entries.map fun t => t.2.toNumber * weight t.1).sum

@[simp] theorem weigh_empty [Field K] (weight : κ → K) :
    (empty : Coefficients κ (Extended K)).weigh weight = 0 := rfl

@[simp] theorem weigh_single [Field K] (k : κ) (a : Extended K) (weight : κ → K) :
    (single k a).weigh weight = a.toNumber * weight k := by
  simp [weigh, single]

variable [DecidableEq κ]

/-- The number of a key; zero if it has none. -/
def number [Zero K] (m : Coefficients κ (Extended K)) (k : κ) : K :=
  ((m.get? k).map Extended.toNumber).getD 0

variable [Field K]

/-- One key apart, the sum is that of the others. -/
theorem weigh_eq_number_mul_add (m : Coefficients κ (Extended K)) (k : κ) (weight : κ → K) :
    m.weigh weight = m.number k * weight k + (m.erase k).weigh weight := by
  obtain ⟨es, hes⟩ := m
  simp only [weigh, number, erase, get?]
  induction es with
  | nil => simp
  | cons t rest ih =>
      simp only [List.map_cons, List.nodup_cons] at hes
      by_cases hk : t.1 = k
      · have hr : rest.filter (fun e => decide (e.1 ≠ k)) = rest := by
          rw [List.filter_eq_self]
          intro e he
          simp only [ne_eq, decide_not, Bool.not_eq_eq_eq_not, Bool.not_true, decide_eq_false_iff_not]
          rintro rfl
          exact hes.1 (hk ▸ List.mem_map_of_mem he)
        have hr' : rest.filter (fun e => !decide (e.1 = k)) = rest := by simpa using hr
        simp [hk, hr']
      · have h := ih hes.2
        simp only [List.map_cons, List.sum_cons, List.find?_cons, hk, decide_false,
          ne_eq, not_false_eq_true, decide_true, List.filter_cons_of_pos, h]
        ring

omit [Field K] in
theorem erase_insert (m : Coefficients κ (Extended K)) (k : κ) (a : Extended K) :
    ((m.insert k a).erase k).entries = (m.erase k).entries := by
  by_cases hk : k ∈ m.entries.map Prod.fst
  · have hi : (m.insert k a).entries = replaced k a m.entries := by simp [insert, hk]
    simp only [erase, hi, replaced, List.filter_map]
    have hf : (fun e : κ × Extended K => decide (e.1 ≠ k)) ∘
        (fun e => if e.1 = k then (e.1, a) else e) = fun e => decide (e.1 ≠ k) := by
      funext e
      by_cases he : e.1 = k <;> simp [he]
    rw [hf]
    conv => rhs; rw [← List.map_id (m.entries.filter _)]
    apply List.map_congr_left
    intro e he
    have : e.1 ≠ k := by simpa using (List.mem_filter.1 he).2
    simp [this]
  · have hi : (m.insert k a).entries = m.entries ++ [(k, a)] := by simp [insert, hk]
    simp [erase, hi]

theorem weigh_insert (m : Coefficients κ (Extended K)) (k : κ) (a : Extended K)
    (weight : κ → K) :
    (m.insert k a).weigh weight = a.toNumber * weight k + (m.erase k).weigh weight := by
  rw [weigh_eq_number_mul_add _ k]
  have hn : (m.insert k a).number k = a.toNumber := by simp [number, get?_insert]
  rw [hn, weigh, erase_insert]
  rfl

/-! ### Finite coefficients -/

omit [DecidableEq κ] [Field K] in
theorem isFinite_empty : (empty : Coefficients κ (Extended K)).IsFinite := by
  simp [IsFinite, empty]

omit [Field K] in
theorem IsFinite.get? {m : Coefficients κ (Extended K)} (hm : m.IsFinite) {k : κ}
    {a : Extended K} (h : m.get? k = some a) : a.IsFinite := by
  simp only [Coefficients.get?, Option.map_eq_some_iff] at h
  obtain ⟨t, ht, rfl⟩ := h
  exact hm t (List.mem_of_find?_eq_some ht)

omit [Field K] in
theorem IsFinite.erase {m : Coefficients κ (Extended K)} (hm : m.IsFinite) (k : κ) :
    (m.erase k).IsFinite := by
  intro t ht
  exact hm t (List.mem_of_mem_filter ht)

omit [Field K] in
theorem IsFinite.insert {m : Coefficients κ (Extended K)} (hm : m.IsFinite) (k : κ)
    {a : Extended K} (ha : a.IsFinite) : (m.insert k a).IsFinite := by
  by_cases hk : k ∈ m.entries.map Prod.fst
  · have hi : (m.insert k a).entries = replaced k a m.entries := by simp [Coefficients.insert, hk]
    intro t ht
    rw [hi, replaced, List.mem_map] at ht
    obtain ⟨e, he, rfl⟩ := ht
    by_cases h : e.1 = k
    · simpa [h] using ha
    · simpa [h] using hm e he
  · have hi : (m.insert k a).entries = m.entries ++ [(k, a)] := by simp [Coefficients.insert, hk]
    intro t ht
    rw [hi, List.mem_append, List.mem_singleton] at ht
    rcases ht with ht | rfl
    · exact hm t ht
    · exact ha

variable [LinearOrder K] [FloorRing K]

/-- The total that an accumulation stores is finite. -/
theorem IsFinite.total {m : Coefficients κ (Extended K)} (hm : m.IsFinite) (k : κ)
    {c : Extended K} (hc : c.IsFinite) : ((m.get? k).getD 0 + c).IsFinite := by
  cases h : m.get? k with
  | none => exact Extended.isFinite_zero.add hc
  | some a => exact (hm.get? h).add hc

theorem IsFinite.accumulate {m : Coefficients κ (Extended K)} (hm : m.IsFinite) (k : κ)
    {c : Extended K} (hc : c.IsFinite) : (m.accumulate k c).IsFinite := by
  unfold Coefficients.accumulate
  dsimp only
  split
  · exact hm.erase k
  · exact hm.insert k (hm.total k hc)

/-- Adding to a coefficient adds to the sum. -/
theorem weigh_accumulate {m : Coefficients κ (Extended K)} (hm : m.IsFinite) (k : κ)
    {c : Extended K} (hc : c.IsFinite) (weight : κ → K) :
    (m.accumulate k c).weigh weight = m.weigh weight + c.toNumber * weight k := by
  have hn : ((m.get? k).getD 0 + c).toNumber = m.number k + c.toNumber := by
    cases h : m.get? k with
    | none => simp [number, h, Extended.toNumber_add Extended.isFinite_zero hc]
    | some a => simp [number, h, Extended.toNumber_add (hm.get? h) hc]
  rw [weigh_eq_number_mul_add m k weight]
  unfold accumulate
  dsimp only
  split
  · next hz =>
      rw [Extended.beq_zero_iff (hm.total k hc), hn] at hz
      linear_combination (-weight k) * hz
  · rw [weigh_insert, hn]
    ring

theorem IsFinite.accumulateAll {m : Coefficients κ (Extended K)} (hm : m.IsFinite)
    {es : List (κ × Extended K)} (hes : ∀ t ∈ es, t.2.IsFinite) : (m.accumulateAll es).IsFinite := by
  induction es generalizing m with
  | nil => exact hm
  | cons t rest ih =>
      exact ih (hm.accumulate t.1 (hes t (by simp))) fun u hu => hes u (by simp [hu])

/-- Adding a list of coefficients adds their weighted sum. -/
theorem weigh_accumulateAll {m : Coefficients κ (Extended K)} (hm : m.IsFinite)
    {es : List (κ × Extended K)} (hes : ∀ t ∈ es, t.2.IsFinite) (weight : κ → K) :
    (m.accumulateAll es).weigh weight =
      m.weigh weight + (es.map fun t => t.2.toNumber * weight t.1).sum := by
  induction es generalizing m with
  | nil => simp [accumulateAll]
  | cons t rest ih =>
      have ht : t.2.IsFinite := hes t (by simp)
      have hr : ∀ u ∈ rest, u.2.IsFinite := fun u hu => hes u (by simp [hu])
      have h := ih (hm.accumulate t.1 ht) hr
      simp only [accumulateAll, List.foldl_cons, List.map_cons, List.sum_cons] at h ⊢
      rw [h, weigh_accumulate hm t.1 ht]
      ring

omit [DecidableEq κ] in
theorem IsFinite.scaled {m : Coefficients κ (Extended K)} (hm : m.IsFinite) {c : Extended K}
    (hc : c.IsFinite) : (m.map (· * c)).IsFinite := by
  intro t ht
  simp only [map, List.mem_map] at ht
  obtain ⟨e, he, rfl⟩ := ht
  exact (hm e he).mul hc

omit [DecidableEq κ] in
/-- A common factor comes out of the sum. -/
theorem weigh_scaled {m : Coefficients κ (Extended K)} (hm : m.IsFinite) {c : Extended K}
    (hc : c.IsFinite) (weight : κ → K) :
    (m.map (· * c)).weigh weight = m.weigh weight * c.toNumber := by
  obtain ⟨es, hes⟩ := m
  simp only [weigh, map, List.map_map]
  simp only [IsFinite] at hm
  clear hes
  induction es with
  | nil => simp
  | cons t rest ih =>
      have ht : t.2.IsFinite := hm t (by simp)
      simp only [List.map_cons, List.sum_cons, Function.comp,
        Extended.toNumber_mul ht hc] at ih ⊢
      rw [ih fun u hu => hm u (by simp [hu])]
      ring

end Coefficients

/-! ### Values -/

namespace Expression

variable {K : Type} [Field K]

/-- The value of a product of two variables. -/
def pairValue (s : Assignment K) (p : VariablePair) : K := s p.first * s p.second

/-- The value of an expression at an assignment. -/
def value (s : Assignment K) (e : Expression (Extended K)) : K :=
  e.constant.toNumber + e.linear.weigh s + e.quadratic.weigh (pairValue s)

/-- Every coefficient is a number. -/
structure IsFinite (e : Expression (Extended K)) : Prop where
  constant : e.constant.IsFinite
  linear : e.linear.IsFinite
  quadratic : e.quadratic.IsFinite

@[simp] theorem value_const (s : Assignment K) (a : Extended K) :
    (const a).value s = a.toNumber := by
  simp [value, const]

omit [Field K] in
theorem isFinite_const {a : Extended K} (ha : a.IsFinite) : (const a).IsFinite :=
  ⟨ha, Coefficients.isFinite_empty, Coefficients.isFinite_empty⟩

omit [Field K] in
theorem isFinite_affine (a b : K) (v : Variable) :
    (affine (.finite a) (.finite b) v).IsFinite where
  constant := trivial
  linear := by
    intro t ht
    obtain rfl := List.mem_singleton.1 ht
    trivial
  quadratic := Coefficients.isFinite_empty

variable [LinearOrder K] [FloorRing K]

@[simp] theorem value_ofVariable (s : Assignment K) (v : Variable) :
    (ofVariable v : Expression (Extended K)).value s = s v := by
  simp [value, ofVariable]

theorem isFinite_ofVariable (v : Variable) : (ofVariable v : Expression (Extended K)).IsFinite :=
  isFinite_affine 0 1 v

theorem IsFinite.addVariable {e : Expression (Extended K)} (he : e.IsFinite) (v : Variable)
    {c : Extended K} (hc : c.IsFinite) : (e.addVariable v c).IsFinite :=
  ⟨he.constant, he.linear.accumulate v hc, he.quadratic⟩

theorem value_addVariable {e : Expression (Extended K)} (he : e.IsFinite) (v : Variable)
    {c : Extended K} (hc : c.IsFinite) (s : Assignment K) :
    (e.addVariable v c).value s = e.value s + c.toNumber * s v := by
  simp only [value, addVariable, Coefficients.weigh_accumulate he.linear v hc]
  ring

theorem IsFinite.add {e f : Expression (Extended K)} (he : e.IsFinite) (hf : f.IsFinite) :
    (e.add f).IsFinite :=
  ⟨he.constant.add hf.constant, he.linear.accumulateAll hf.linear,
    he.quadratic.accumulateAll hf.quadratic⟩

/-- The value of a sum is the sum of the values. -/
theorem value_add {e f : Expression (Extended K)} (he : e.IsFinite) (hf : f.IsFinite)
    (s : Assignment K) : (e.add f).value s = e.value s + f.value s := by
  simp only [value, add, Extended.toNumber_add he.constant hf.constant,
    Coefficients.weigh_accumulateAll he.linear hf.linear,
    Coefficients.weigh_accumulateAll he.quadratic hf.quadratic]
  simp only [Coefficients.weigh]
  ring

theorem IsFinite.scale {e : Expression (Extended K)} (he : e.IsFinite) {c : Extended K}
    (hc : c.IsFinite) : (e.scale c).IsFinite := by
  unfold Expression.scale
  split
  · exact isFinite_const Extended.isFinite_zero
  · exact ⟨he.constant.mul hc, he.linear.scaled hc, he.quadratic.scaled hc⟩

/-- The value of a multiple is the multiple of the value. -/
theorem value_scale {e : Expression (Extended K)} (he : e.IsFinite) {c : Extended K}
    (hc : c.IsFinite) (s : Assignment K) : (e.scale c).value s = e.value s * c.toNumber := by
  unfold scale
  split
  · next hz =>
      rw [Extended.beq_zero_iff hc] at hz
      simp [hz]
  · simp only [value, Extended.toNumber_mul he.constant hc, Coefficients.weigh_scaled he.linear hc,
      Coefficients.weigh_scaled he.quadratic hc]
    ring

theorem IsFinite.neg {e : Expression (Extended K)} (he : e.IsFinite) : e.neg.IsFinite :=
  he.scale Extended.isFinite_one.neg

theorem value_neg {e : Expression (Extended K)} (he : e.IsFinite) (s : Assignment K) :
    e.neg.value s = -e.value s := by
  rw [neg, value_scale he Extended.isFinite_one.neg, Extended.toNumber_neg]
  simp

theorem IsFinite.sub {e f : Expression (Extended K)} (he : e.IsFinite) (hf : f.IsFinite) :
    (e.sub f).IsFinite := he.add hf.neg

theorem value_sub {e f : Expression (Extended K)} (he : e.IsFinite) (hf : f.IsFinite)
    (s : Assignment K) : (e.sub f).value s = e.value s - f.value s := by
  rw [sub, value_add he hf.neg, value_neg hf]
  ring

end Expression

end MixedInteger
