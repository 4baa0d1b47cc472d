/-
**Numbers that come close to a bound.**

A bound that is a number is exact if it is attained, and one that is an infinity if there are numbers
beyond any limit on its side.  Both are said alike: numbers come close to the bound, however close one
asks for.  Sums and products of numbers come close to sums and products of bounds, zero taking
precedence over an infinity.

Main definitions:

* `MixedInteger.Extended.Close` — a number that comes close to a bound.

Main results:

* `MixedInteger.Extended.exists_close_lower`, `MixedInteger.Extended.exists_close_upper` — between two
  bounds there are numbers close to either;
* `MixedInteger.Extended.close_times`, `MixedInteger.Extended.close_add` — **products and sums come
  close to products and sums**.
-/

import MixedInteger.Proofs.Order

set_option autoImplicit false

namespace MixedInteger

namespace Extended

variable {K : Type} [Field K] [LinearOrder K]

/-! ### Closeness -/

/-- A number, or its opposite. -/
def signed (negative : Bool) (x : K) : K := if negative then -x else x

/-- A number is close to a number if it is that number, and close to an infinity if it is beyond a
limit on that side. -/
def Close (a : Extended K) (limit x : K) : Prop :=
  match a with
  | finite y => x = y
  | infinite n => limit < signed n x
  | undefined => False

@[simp] theorem close_finite (y limit x : K) : Close (finite y) limit x ↔ x = y := Iff.rfl

@[simp] theorem close_infinite (n : Bool) (limit x : K) :
    Close (infinite n) limit x ↔ limit < signed n x := Iff.rfl

omit [LinearOrder K] in
theorem signed_mul_signed (m n : Bool) (x y : K) :
    signed m x * signed n y = signed (m != n) (x * y) := by
  cases m <;> cases n <;> simp [signed]

/-- A number close to an infinity is as far from zero. -/
theorem lt_abs_of_close {n : Bool} {limit x : K} (h : Close (infinite n) limit x) : limit < |x| := by
  cases n with
  | false => exact lt_of_lt_of_le h (le_abs_self x)
  | true => exact lt_of_lt_of_le h (neg_le_abs x)

variable [FloorRing K]

/-- Opposites are close to opposites. -/
theorem close_neg_iff (a : Extended K) (limit x : K) : Close (-a) limit x ↔ Close a limit (-x) := by
  cases a with
  | undefined => exact Iff.rfl
  | finite y => rw [neg_finite, close_finite, close_finite, neg_eq_iff_eq_neg]
  | infinite n => cases n <;> simp [signed]

variable [IsStrictOrderedRing K]

/-- Between two bounds there are numbers close to the lower one. -/
theorem exists_close_lower {a b : Extended K} (h : a ≤ b) (ha : a ≠ infinite false)
    (hb : b ≠ infinite true) (limit : K) :
    ∃ x, a ≤ finite x ∧ finite x ≤ b ∧ Close a limit x := by
  obtain ⟨hda, hdb⟩ := IsDefined.of_le h
  cases a with
  | undefined => exact (hda rfl).elim
  | finite x => exact ⟨x, (finite_le_finite x x).2 le_rfl, h, rfl⟩
  | infinite n =>
      cases n with
      | false => exact (ha rfl).elim
      | true =>
          cases b with
          | undefined => exact (hdb rfl).elim
          | finite y =>
              refine ⟨min y (-limit - 1), rfl, (finite_le_finite _ y).2 (min_le_left _ _), ?_⟩
              have hle : min y (-limit - 1) ≤ -limit - 1 := min_le_right _ _
              rw [close_infinite, signed, if_pos rfl]
              linarith
          | infinite m =>
              cases m with
              | true => exact (hb rfl).elim
              | false =>
                  refine ⟨-limit - 1, rfl, rfl, ?_⟩
                  rw [close_infinite, signed, if_pos rfl]
                  linarith

/-- And there are numbers close to the upper one. -/
theorem exists_close_upper {a b : Extended K} (h : a ≤ b) (ha : a ≠ infinite false)
    (hb : b ≠ infinite true) (limit : K) :
    ∃ x, a ≤ finite x ∧ finite x ≤ b ∧ Close b limit x := by
  have hneg : ∀ {c : Extended K} {n : Bool}, c ≠ infinite n → -c ≠ infinite (!n) := by
    intro c n hc h'
    apply hc
    rw [← Extended.neg_neg c, h', neg_infinite, Bool.not_not]
  obtain ⟨x, hl, hu, hclose⟩ :=
    exists_close_lower ((Extended.neg_le_neg_iff b a).2 h) (hneg hb) (hneg ha) limit
  refine ⟨-x, ?_, ?_, (close_neg_iff b limit x).1 hclose⟩
  · rwa [← Extended.neg_le_neg_iff, neg_finite, neg_neg]
  · rwa [← Extended.neg_le_neg_iff, neg_finite, neg_neg]

/-! ### Products and sums -/

/-- A product of numbers close to two bounds is close to the product of the bounds. -/
theorem close_times {a b : Extended K} (ha : a.IsDefined) (hb : b.IsDefined) (limit : K) :
    ∃ m, ∀ x y, Close a m x → Close b m y → Close (Expression.times a b) limit (x * y) := by
  -- a number other than zero scales the limit, and two infinities need numbers beyond one as well
  have hmixed : ∀ (c : K) (n : Bool), ∃ m, ∀ y, Close (infinite n) m y →
      Close (Expression.times (finite c) (infinite n)) limit (c * y) := by
    intro c n
    rw [Expression.times_finite_infinite]
    by_cases hc : c = 0
    · exact ⟨0, fun y _ => by rw [if_pos hc, hc, zero_mul]; rfl⟩
    · refine ⟨limit / |c|, fun y hy => ?_⟩
      have habs : |c| = signed (decide (c < 0)) c := by
        rcases lt_or_gt_of_ne hc with h | h
        · simp [signed, h, abs_of_neg h]
        · simp [signed, h.not_gt, abs_of_pos h]
      rw [close_infinite, div_lt_iff₀ (abs_pos.2 hc), mul_comm, habs, signed_mul_signed,
        bne_comm] at hy
      rwa [if_neg hc, close_infinite]
  cases a with
  | undefined => exact (ha rfl).elim
  | finite c =>
      cases b with
      | undefined => exact (hb rfl).elim
      | finite d =>
          refine ⟨0, fun x y hx hy => ?_⟩
          rw [close_finite] at hx hy
          rw [Expression.times_finite, hx, hy]
          rfl
      | infinite n =>
          obtain ⟨m, hm⟩ := hmixed c n
          refine ⟨m, fun x y hx hy => ?_⟩
          rw [close_finite] at hx
          rw [hx]
          exact hm y hy
  | infinite m =>
      cases b with
      | undefined => exact (hb rfl).elim
      | finite d =>
          obtain ⟨limit', hm⟩ := hmixed d m
          refine ⟨limit', fun x y hx hy => ?_⟩
          rw [close_finite] at hy
          rw [hy, mul_comm, Expression.times_comm]
          exact hm x hx
      | infinite n =>
          refine ⟨max 1 limit, fun x y hx hy => ?_⟩
          rw [close_infinite, max_lt_iff] at hx hy
          rw [Expression.times_infinite_infinite, close_infinite, ← signed_mul_signed]
          nlinarith only [hx.1, hx.2, hy.1, hy.2]

/-- A sum of numbers close to two bounds, neither of them infinity, is close to their sum. -/
theorem close_add {a b : Extended K} (ha : a < infinite false) (hb : b < infinite false)
    (limit : K) : ∃ m, ∀ x y, Close a m x → Close b m y → Close (a + b) limit (x + y) := by
  cases a with
  | undefined => exact (not_undefined_lt _ ha).elim
  | finite c =>
      cases b with
      | undefined => exact (not_undefined_lt _ hb).elim
      | finite d =>
          refine ⟨0, fun x y hx hy => ?_⟩
          rw [close_finite] at hx hy
          rw [hx, hy]
          rfl
      | infinite n =>
          obtain rfl : n = true := hb.1
          refine ⟨limit + c, fun x y hx hy => ?_⟩
          rw [close_finite] at hx
          simp only [close_infinite, signed, ↓reduceIte] at hy
          change limit < -(x + y)
          linarith
  | infinite m =>
      obtain rfl : m = true := ha.1
      cases b with
      | undefined => exact (not_undefined_lt _ hb).elim
      | finite d =>
          refine ⟨limit + d, fun x y hx hy => ?_⟩
          rw [close_finite] at hy
          simp only [close_infinite, signed, ↓reduceIte] at hx
          change limit < -(x + y)
          linarith
      | infinite n =>
          obtain rfl : n = true := hb.1
          refine ⟨limit / 2, fun x y hx hy => ?_⟩
          simp only [close_infinite, signed, ↓reduceIte] at hx hy
          change limit < -(x + y)
          linarith

end Extended

end MixedInteger
