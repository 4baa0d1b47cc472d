/-
**The order of exact numbers with infinities.**

Apart from the undefined value, which compares with nothing, exact numbers with infinities are
linearly ordered.  A product in which zero takes precedence over an infinity respects this order in
each factor, in the direction that the sign of the other factor gives.

Main definitions:

* `MixedInteger.Extended.IsDefined` — a value that compares.

Main results:

* `MixedInteger.Extended.le_trans`, `MixedInteger.Extended.le_of_not_lt`,
  `MixedInteger.Extended.neg_le_neg_iff` — the order;
* `MixedInteger.Extended.least_le`, `MixedInteger.Extended.le_greatest` — extremes of a list;
* `MixedInteger.Extended.times_le_times`, `MixedInteger.Extended.exists_corner_le` — **products of
  bounds**.
-/

import MixedInteger.Expression.Interval
import MixedInteger.Scalar.Extended

set_option autoImplicit false

namespace MixedInteger

namespace Extended

variable {K : Type} [Field K] [LinearOrder K] [FloorRing K]

/-! ### The order -/

omit [Field K] [LinearOrder K] [FloorRing K] in
/-- A value that compares: a number or an infinity. -/
def IsDefined (a : Extended K) : Prop := a ≠ undefined

@[simp] theorem finite_le_infinite (x : K) (n : Bool) : finite x ≤ infinite n ↔ n = false := Iff.rfl

@[simp] theorem infinite_le_finite (n : Bool) (x : K) : infinite n ≤ finite x ↔ n = true := Iff.rfl

@[simp] theorem infinite_le_infinite (m n : Bool) :
    (infinite m : Extended K) ≤ infinite n ↔ m = true ∨ n = false := Iff.rfl

@[simp] theorem not_le_undefined (a : Extended K) : ¬ a ≤ undefined := by
  cases a <;> exact id

@[simp] theorem not_undefined_le (a : Extended K) : ¬ undefined ≤ a := by
  cases a <;> exact id

@[simp] theorem finite_lt_infinite (x : K) (n : Bool) : finite x < infinite n ↔ n = false := Iff.rfl

@[simp] theorem infinite_lt_finite (n : Bool) (x : K) : infinite n < finite x ↔ n = true := Iff.rfl

@[simp] theorem infinite_lt_infinite (m n : Bool) :
    (infinite m : Extended K) < infinite n ↔ m = true ∧ n = false := Iff.rfl

@[simp] theorem not_lt_undefined (a : Extended K) : ¬ a < undefined := by
  cases a <;> exact id

@[simp] theorem not_undefined_lt (a : Extended K) : ¬ undefined < a := by
  cases a <;> exact id

@[simp] theorem neg_infinite (n : Bool) : -(infinite n : Extended K) = infinite (!n) := rfl

@[simp] theorem neg_undefined : -(undefined : Extended K) = undefined := rfl

theorem IsDefined.of_le {a b : Extended K} (h : a ≤ b) : a.IsDefined ∧ b.IsDefined := by
  constructor <;> rintro rfl
  · exact not_undefined_le b h
  · exact not_le_undefined a h

omit [Field K] [LinearOrder K] [FloorRing K] in
theorem IsFinite.isDefined {a : Extended K} (h : a.IsFinite) : a.IsDefined := by
  rintro rfl
  exact h

theorem IsDefined.neg {a : Extended K} (h : a.IsDefined) : (-a).IsDefined := by
  cases a with
  | finite x => exact nofun
  | infinite n => exact nofun
  | undefined => exact (h rfl).elim

theorem IsDefined.le_refl {a : Extended K} (h : a.IsDefined) : a ≤ a := by
  cases a with
  | finite x => exact (finite_le_finite x x).2 le_rfl
  | infinite n => cases n <;> simp
  | undefined => exact (h rfl).elim

/-- Minus infinity is below everything that compares. -/
theorem infinite_true_le {a : Extended K} (h : a.IsDefined) : infinite true ≤ a := by
  cases a with
  | finite x => rfl
  | infinite n => simp
  | undefined => exact (h rfl).elim

/-- Everything that compares is below infinity. -/
theorem le_infinite_false {a : Extended K} (h : a.IsDefined) : a ≤ infinite false := by
  cases a with
  | finite x => rfl
  | infinite n => simp
  | undefined => exact (h rfl).elim

protected theorem le_trans {a b c : Extended K} (h : a ≤ b) (h' : b ≤ c) : a ≤ c := by
  cases a <;> cases b <;> cases c <;> simp_all
  next x y z => exact h.trans h'
  next m n o => rcases h with h | h <;> simp_all

protected theorem le_of_lt {a b : Extended K} (h : a < b) : a ≤ b := by
  cases a <;> cases b <;> simp_all
  next x y => exact h.le

/-- Values that compare do so in one direction or the other. -/
theorem le_of_not_lt {a b : Extended K} (ha : a.IsDefined) (hb : b.IsDefined) (h : ¬ b < a) :
    a ≤ b := by
  cases a <;> cases b <;> simp_all [IsDefined]
  next m n => cases m <;> simp_all

protected theorem not_lt_of_le {a b : Extended K} (h : a ≤ b) : ¬ b < a := by
  cases a <;> cases b <;> simp_all
  next m n => cases m <;> simp_all

protected theorem lt_of_lt_of_le {a b c : Extended K} (h : a < b) (h' : b ≤ c) : a < c := by
  cases a <;> cases b <;> cases c <;> simp_all
  next x y z => exact h.trans_le h'

theorem lt_of_not_le {a b : Extended K} (ha : a.IsDefined) (hb : b.IsDefined) (h : ¬ b ≤ a) :
    a < b := by
  by_contra hn
  exact h (le_of_not_lt hb ha hn)

protected theorem neg_neg (a : Extended K) : - -a = a := by
  cases a <;> simp

variable [IsStrictOrderedRing K]

/-- Opposites compare the other way round. -/
protected theorem neg_le_neg_iff (a b : Extended K) : -a ≤ -b ↔ b ≤ a := by
  cases a <;> cases b <;> simp [or_comm]

/-- What is not positive has an opposite that is not negative. -/
theorem zero_le_neg_iff (a : Extended K) : 0 ≤ -a ↔ a ≤ 0 := by
  have h : (0 : Extended K) = -0 := by simp [zero_eq]
  rw [← Extended.neg_le_neg_iff 0 a, ← h]

/-- What is positive is not below its opposite. -/
theorem not_le_neg {a : Extended K} (h : 0 < a) : ¬ a ≤ -a := by
  intro hle
  have hn : 0 ≤ -a := Extended.le_trans (Extended.le_of_lt h) hle
  exact Extended.not_lt_of_le ((zero_le_neg_iff a).1 hn) h

omit [IsStrictOrderedRing K] in
theorem eq_zero_of_beq {a : Extended K} (h : (a == 0) = true) : a = 0 := by
  cases a with
  | finite x => exact congrArg finite (of_decide_eq_true h)
  | infinite n => cases h
  | undefined => cases h

/-! ### Extremes -/

omit [IsStrictOrderedRing K] in
theorem IsDefined.smaller {a b : Extended K} (ha : a.IsDefined) (hb : b.IsDefined) :
    (Scalar.smaller a b).IsDefined := by
  unfold Scalar.smaller
  split
  · exact hb
  · exact ha

omit [IsStrictOrderedRing K] in
theorem smaller_le {a b : Extended K} (ha : a.IsDefined) (hb : b.IsDefined) :
    Scalar.smaller a b ≤ a ∧ Scalar.smaller a b ≤ b := by
  unfold Scalar.smaller
  split
  · next h => exact ⟨Extended.le_of_lt h, hb.le_refl⟩
  · next h => exact ⟨ha.le_refl, le_of_not_lt ha hb h⟩

omit [IsStrictOrderedRing K] in
/-- The least value of a list is below all of its values, if they compare. -/
theorem least_le {a : Extended K} {rest : List (Extended K)} (h : ∀ b ∈ a :: rest, b.IsDefined)
    {b : Extended K} (hb : b ∈ a :: rest) : Scalar.least a rest ≤ b := by
  induction rest generalizing a b with
  | nil =>
      obtain rfl := List.mem_singleton.1 hb
      exact (h b hb).le_refl
  | cons c rest ih =>
      have ha : a.IsDefined := h a (by simp)
      have hc : c.IsDefined := h c (by simp)
      have hrest : ∀ d ∈ Scalar.smaller a c :: rest, d.IsDefined := by
        intro d hd
        rcases List.mem_cons.1 hd with rfl | hd
        · exact ha.smaller hc
        · exact h d (by simp [hd])
      rw [Scalar.least_cons]
      rcases List.mem_cons.1 hb with rfl | hb
      · exact Extended.le_trans (ih hrest List.mem_cons_self) (smaller_le ha hc).1
      · rcases List.mem_cons.1 hb with rfl | hb
        · exact Extended.le_trans (ih hrest List.mem_cons_self) (smaller_le ha hc).2
        · exact ih hrest (List.mem_cons_of_mem _ hb)

/-- The larger of two values, seen from the other side. -/
theorem neg_larger (a b : Extended K) : -Scalar.larger a b = Scalar.smaller (-a) (-b) := by
  have h : -b < -a ↔ a < b := by
    cases a <;> cases b <;> simp [and_comm]
  simp only [Scalar.larger, Scalar.smaller, h]
  split <;> rfl

/-- The greatest value of a list, seen from the other side. -/
theorem neg_greatest (a : Extended K) (rest : List (Extended K)) :
    -Scalar.greatest a rest = Scalar.least (-a) (rest.map (- ·)) := by
  induction rest generalizing a with
  | nil => rfl
  | cons c rest ih => rw [Scalar.greatest_cons, ih, neg_larger, List.map_cons, Scalar.least_cons]

/-- The greatest value of a list is above all of its values, if they compare. -/
theorem le_greatest {a : Extended K} {rest : List (Extended K)} (h : ∀ b ∈ a :: rest, b.IsDefined)
    {b : Extended K} (hb : b ∈ a :: rest) : b ≤ Scalar.greatest a rest := by
  rw [← Extended.neg_le_neg_iff, neg_greatest]
  apply least_le
  · intro c hc
    obtain ⟨d, hd, rfl⟩ := List.mem_map.1 (by simpa using hc : c ∈ (a :: rest).map (- ·))
    exact (h d hd).neg
  · simpa using List.mem_map_of_mem (f := fun c : Extended K => -c) hb

end Extended

/-! ### Products of bounds -/

namespace Expression

open Extended

variable {K : Type} [Field K] [LinearOrder K] [FloorRing K]

theorem times_finite (x y : K) : times (finite x) (finite y) = finite (x * y) := by
  by_cases hx : x = 0
  · simp [times, zero_eq, hx]
  · by_cases hy : y = 0
    · simp [times, zero_eq, hy]
    · simp [times, zero_eq, hx, hy]

theorem times_finite_infinite (x : K) (n : Bool) :
    times (finite x) (infinite n) = if x = 0 then 0 else infinite (n != decide (x < 0)) := by
  have hn : (infinite n == (0 : Extended K)) = false := rfl
  have hm : finite x * infinite n = if x = 0 then undefined else infinite (n != decide (x < 0)) := rfl
  by_cases hx : x = 0
  · simp [times, zero_eq, hx]
  · have hz : (finite x == (0 : Extended K)) = false := by simp [zero_eq, hx]
    rw [times, hn, hz, hm, if_neg hx, if_neg hx]
    rfl

theorem times_infinite_infinite (m n : Bool) :
    times (infinite m : Extended K) (infinite n) = infinite (m != n) := rfl

theorem times_comm (a b : Extended K) : times a b = times b a := by
  have hm : a * b = b * a := by
    change Extended.times a b = Extended.times b a
    cases a <;> cases b <;> simp [Extended.times, mul_comm, bne_comm]
  rw [times, times, hm, Bool.or_comm]

theorem times_infinite_finite (n : Bool) (x : K) :
    times (infinite n) (finite x) = if x = 0 then 0 else infinite (n != decide (x < 0)) := by
  rw [times_comm, times_finite_infinite]

theorem isDefined_times {a b : Extended K} (ha : a.IsDefined) (hb : b.IsDefined) :
    (times a b).IsDefined := by
  have hif : ∀ (x : K) (n : Bool), (if x = 0 then (0 : Extended K) else infinite n).IsDefined := by
    intro x n
    split <;> exact nofun
  cases a with
  | finite x =>
      cases b with
      | finite y => exact times_finite x y ▸ nofun
      | infinite n => exact times_finite_infinite x n ▸ hif x _
      | undefined => exact (hb rfl).elim
  | infinite m =>
      cases b with
      | finite y => exact times_infinite_finite m y ▸ hif y _
      | infinite n => exact nofun
      | undefined => exact (hb rfl).elim
  | undefined => exact (ha rfl).elim

theorem times_zero {a : Extended K} (h : a.IsDefined) : times (finite 0) a = finite 0 := by
  cases a with
  | finite x => rw [times_finite, zero_mul]
  | infinite n => rw [times_finite_infinite, if_pos rfl, zero_eq]
  | undefined => exact (h rfl).elim

variable [IsStrictOrderedRing K]

/-- The opposite of a factor gives the opposite product. -/
theorem times_neg {a b : Extended K} (ha : a.IsDefined) (hb : b.IsDefined) :
    times a (-b) = -times a b := by
  cases a with
  | finite x =>
      cases b with
      | finite y => simp [times_finite]
      | infinite n =>
          by_cases hx : x = 0
          · simp [times_finite_infinite, hx, zero_eq]
          · simp [times_finite_infinite, hx, Bool.not_bne]
      | undefined => exact (hb rfl).elim
  | infinite m =>
      cases b with
      | finite y =>
          rcases lt_trichotomy y 0 with hy | rfl | hy
          · simp [times_infinite_finite, hy.ne, hy, hy.not_gt]
          · simp [times_infinite_finite, zero_eq]
          · simp [times_infinite_finite, hy.ne', hy, hy.not_gt]
      | infinite n => simp [times_infinite_infinite, Bool.bne_not]
      | undefined => exact (hb rfl).elim
  | undefined => exact (ha rfl).elim

/-- A factor that is not negative keeps the order. -/
theorem times_le_times {a b c : Extended K} (h : a ≤ b) (hc : 0 ≤ c) : times c a ≤ times c b := by
  obtain ⟨ha, hb⟩ := IsDefined.of_le h
  cases c with
  | undefined => exact (not_le_undefined _ hc).elim
  | finite z =>
      have hz : 0 ≤ z := hc
      rcases hz.eq_or_lt with rfl | hz
      · rw [times_zero ha, times_zero hb]
        exact (finite_le_finite 0 0).2 le_rfl
      · -- a positive number leaves every infinity as it is
        cases a <;> cases b <;>
          simp_all [times_finite, times_finite_infinite, hz.ne', hz.not_gt]
  | infinite n =>
      obtain rfl : n = false := hc
      -- an infinity leaves of the other factor its sign
      have hneg : ∀ x : K, x < 0 → times (infinite false) (finite x) = infinite true := by
        intro x hx
        simp [times_infinite_finite, hx, hx.ne]
      have hpos : ∀ x : K, 0 < x → times (infinite false) (finite x) = infinite false := by
        intro x hx
        simp [times_infinite_finite, hx.not_gt, hx.ne']
      have hdefined : ∀ d : Extended K, d.IsDefined → (times (infinite false) d).IsDefined :=
        fun d hd => isDefined_times nofun hd
      cases a with
      | undefined => exact (ha rfl).elim
      | infinite m =>
          cases m with
          | true => exact infinite_true_le (hdefined b hb)
          | false =>
              obtain rfl : b = infinite false := by cases b <;> simp_all [IsDefined]
              exact h
      | finite x =>
          cases b with
          | undefined => exact (hb rfl).elim
          | infinite m =>
              obtain rfl : m = false := h
              exact le_infinite_false (hdefined _ ha)
          | finite y =>
              have hxy : x ≤ y := h
              rcases lt_trichotomy x 0 with hx | rfl | hx
              · rw [hneg x hx]
                exact infinite_true_le (hdefined _ hb)
              · rcases hxy.eq_or_lt with rfl | hy
                · exact (hdefined _ ha).le_refl
                · rw [hpos y hy]
                  exact le_infinite_false (hdefined _ ha)
              · rw [hpos x hx, hpos y (hx.trans_le hxy)]
                exact le_infinite_false nofun

/-- A factor that is not positive turns the order round. -/
theorem times_le_times_of_nonpos {a b c : Extended K} (h : a ≤ b) (hc : c ≤ 0) :
    times c b ≤ times c a := by
  obtain ⟨ha, hb⟩ := IsDefined.of_le h
  obtain ⟨hd, -⟩ := IsDefined.of_le hc
  have hle := times_le_times h ((zero_le_neg_iff c).2 hc)
  rwa [times_comm, times_neg ha hd, times_comm (-c), times_neg hb hd, Extended.neg_le_neg_iff,
    times_comm b, times_comm a] at hle

/-- A product of two numbers is not below all four products of bounds for them. -/
theorem exists_corner_le {a b c d : Extended K} {x y : K} (ha : a ≤ finite x) (hb : finite x ≤ b)
    (hc : c ≤ finite y) (hd : finite y ≤ d) :
    ∃ corner ∈ [times a c, times a d, times b c, times b d], corner ≤ finite (x * y) := by
  -- first one factor moves to a bound, as the sign of the other one says; then so does the other
  have hmove : ∀ e : Extended K, e.IsDefined → times e (finite y) ≤ finite (x * y) →
      times e c ≤ finite (x * y) ∨ times e d ≤ finite (x * y) := by
    intro e he hle
    by_cases hz : (0 : Extended K) ≤ e
    · exact Or.inl (Extended.le_trans (times_le_times hc hz) hle)
    · have hn : e ≤ 0 := le_of_not_lt he isFinite_zero.isDefined fun h => hz (Extended.le_of_lt h)
      exact Or.inr (Extended.le_trans (times_le_times_of_nonpos hd hn) hle)
  rw [← times_finite x y] at hmove ⊢
  rcases le_total 0 y with hy | hy
  · have hle : times a (finite y) ≤ times (finite x) (finite y) := by
      rw [times_comm a, times_comm (finite x)]
      exact times_le_times ha hy
    rcases hmove a (IsDefined.of_le ha).1 hle with h | h
    · exact ⟨_, by simp, h⟩
    · exact ⟨_, by simp, h⟩
  · have hle : times b (finite y) ≤ times (finite x) (finite y) := by
      rw [times_comm b, times_comm (finite x)]
      exact times_le_times_of_nonpos hb hy
    rcases hmove b (IsDefined.of_le hb).2 hle with h | h
    · exact ⟨_, by simp, h⟩
    · exact ⟨_, by simp, h⟩

/-- Nor is it above all of them. -/
theorem exists_le_corner {a b c d : Extended K} {x y : K} (ha : a ≤ finite x) (hb : finite x ≤ b)
    (hc : c ≤ finite y) (hd : finite y ≤ d) :
    ∃ corner ∈ [times a c, times a d, times b c, times b d], finite (x * y) ≤ corner := by
  have hc' : finite (-y) ≤ -c := by rwa [← neg_finite, Extended.neg_le_neg_iff]
  have hd' : -d ≤ finite (-y) := by rwa [← neg_finite, Extended.neg_le_neg_iff]
  have da := (IsDefined.of_le ha).1
  have db := (IsDefined.of_le hb).2
  have dc := (IsDefined.of_le hc).1
  have dd := (IsDefined.of_le hd).2
  obtain ⟨corner, hm, hle⟩ := exists_corner_le ha hb hd' hc'
  have hle' : finite (x * y) ≤ -corner := by
    rwa [← Extended.neg_le_neg_iff, Extended.neg_neg, neg_finite, ← mul_neg]
  refine ⟨-corner, ?_, hle'⟩
  simp only [List.mem_cons, List.not_mem_nil, or_false, times_neg da dd, times_neg da dc,
    times_neg db dd, times_neg db dc] at hm
  rcases hm with rfl | rfl | rfl | rfl <;> simp [Extended.neg_neg]

end Expression

end MixedInteger
