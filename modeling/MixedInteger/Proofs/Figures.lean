/-
**Whole numbers and their figures.**

A number may be whole though it is a double.  Among numbers, whole ones compare as the whole numbers that
they are, and in messages those of at most six digits are written with these digits and nothing else.

Main definitions:

* `MixedInteger.Number.integer?` — the whole number that a number is.

Main results:

* `MixedInteger.Binary64.compare_of_toInt?` — whole values compare as whole numbers;
* `MixedInteger.Binary64.toInt?_ofInt` — a whole number that is small enough is a double;
* `MixedInteger.Notation.layout_rounded` — six digits are enough for a whole number that has no more;
* `MixedInteger.Number.lt_iff`, `MixedInteger.Number.beq_iff` — **numbers that are whole compare as whole
  numbers**;
* `MixedInteger.Number.text_magnitude` — **a whole number of at most six digits is written with them**.
-/

import MixedInteger.Proofs.Comparison
import MixedInteger.Proofs.Shortest
import MixedInteger.Scalar.Number

set_option autoImplicit false

namespace MixedInteger

/-! ### Whole values -/

namespace Binary64

theorem cast_signed_mul (s : Bool) (a b : Nat) : signed s (a * b) = signed s a * b := by
  cases s <;> simp

/-- What has a whole value is finite and has that value. -/
theorem finite_of_toInt? {x : Binary64} {n : Int} (h : x.toInt? = some n) :
    ∃ s m q, x = finite s m q ∧ (signed s m : ℚ) * 2 ^ q = n := by
  cases x with
  | nan => cases h
  | infinite s => cases h
  | finite s m q =>
      refine ⟨s, m, q, rfl, ?_⟩
      rw [toInt?] at h
      split at h
      · next hq =>
          obtain ⟨k, rfl⟩ := Int.eq_ofNat_of_zero_le hq
          cases h
          rw [cast_signed_mul, Int.cast_mul, Int.cast_natCast, cast_twoPow, Int.toNat_natCast,
            zpow_natCast]
      · next hq =>
          obtain ⟨k, hk⟩ := Int.eq_ofNat_of_zero_le (show 0 ≤ -q by omega)
          obtain rfl : q = -(k : Int) := by omega
          rw [hk, Int.toNat_natCast] at h
          split at h
          · next hmod =>
              cases h
              have hm : m = m / twoPow k * twoPow k := (Nat.div_mul_cancel (Nat.dvd_of_mod_eq_zero hmod)).symm
              have hpow : (2 : ℚ) ^ k ≠ 0 := by positivity
              conv_lhs => rw [hm]
              rw [cast_signed_mul, Int.cast_mul, Int.cast_natCast, cast_twoPow, zpow_neg, zpow_natCast,
                mul_assoc, mul_inv_cancel₀ hpow, mul_one]
          · cases h

theorem scaled_value {s : Bool} {m : Nat} {p low n : Int} (h : (signed s m : ℚ) * 2 ^ p = n) (hlow : low ≤ p) :
    (signed s (m * twoPow (p - low).toNat) : ℚ) = n * 2 ^ (-low) := by
  obtain ⟨k, hk⟩ := Int.eq_ofNat_of_zero_le (show 0 ≤ p - low by omega)
  have hp : p = k + low := by omega
  rw [hk, Int.toNat_natCast, cast_signed_mul, Int.cast_mul, Int.cast_natCast, cast_twoPow, ← h, hp,
    zpow_add₀ two_ne_zero, zpow_neg, zpow_natCast, mul_assoc, mul_assoc, mul_inv_cancel₀ (by positivity),
    mul_one]

/-- Whole values compare as whole numbers. -/
theorem compare_of_toInt? {x y : Binary64} {n k : Int} (hx : x.toInt? = some n) (hy : y.toInt? = some k) :
    (x.lt y = true ↔ n < k) ∧ (x.eq y = true ↔ n = k) := by
  obtain ⟨s, m, p, rfl, hn⟩ := finite_of_toInt? hx
  obtain ⟨t, l, q, rfl, hk⟩ := finite_of_toInt? hy
  have hlow : (0 : ℚ) < 2 ^ (-min p q) := by positivity
  have hn' := scaled_value hn (min_le_left p q)
  have hk' := scaled_value hk (min_le_right p q)
  constructor
  · rw [Binary64.lt, decide_eq_true_iff, ← Int.cast_lt (R := ℚ), hn', hk',
      mul_lt_mul_iff_left₀ hlow, Int.cast_lt]
  · rw [Binary64.eq, beq_iff_eq, ← Int.cast_inj (α := ℚ), hn', hk', mul_left_inj' hlow.ne', Int.cast_inj]

theorem signed_natAbs (n : Int) : signed (decide (n < 0)) n.natAbs = n := by
  by_cases hn : n < 0
  · rw [decide_eq_true hn, signed_true]
    omega
  · rw [decide_eq_false hn, signed_false]
    omega

theorem toInt?_exact (n : Int) : (exact n).toInt? = some n := by
  rw [exact, toInt?, if_pos le_rfl, Int.toNat_zero, twoPow_zero, Nat.mul_one, signed_natAbs]

theorem toInt?_not (s : Bool) (m : Nat) (q : Int) :
    (finite (!s) m q).toInt? = (finite s m q).toInt?.map (-·) := by
  have hneg : ∀ k, signed (!s) k = -signed s k := by
    cases s <;> simp
  rw [toInt?, toInt?]
  split
  · simp [hneg]
  · split
    · simp [hneg]
    · rfl

/-- A full significand for a natural number. -/
theorem exists_normal {k : Nat} (hk : k ≠ 0) (hlt : k < twoPow 53) :
    ∃ m q, Normal m q ∧ 0 < m ∧ q ≤ 0 ∧ k * twoPow (-q).toNat = m := by
  have hlog : k.log2 < 53 := (Nat.log2_lt hk).2 hlt
  obtain ⟨e, he⟩ : ∃ e, k.log2 + e = 52 := ⟨52 - k.log2, by omega⟩
  have hlower : 2 ^ 52 ≤ k * 2 ^ e := by
    rw [← he, Nat.pow_add]
    exact Nat.mul_le_mul_right _ (Nat.log2_self_le hk)
  have hupper : k * 2 ^ e < 2 ^ 53 := by
    have : 2 ^ 53 = 2 ^ (k.log2 + 1) * 2 ^ e := by rw [← Nat.pow_add]; congr 1; omega
    rw [this]
    exact Nat.mul_lt_mul_of_pos_right Nat.lt_log2_self (Nat.pow_pos (by decide))
  refine ⟨k * 2 ^ e, -e, ⟨hupper, by omega, by omega, .inr hlower⟩, by omega, by omega, ?_⟩
  rw [Int.neg_neg, Int.toNat_natCast]
  rfl

/-- A whole number that is small enough is a double. -/
theorem toInt?_ofInt {n : Int} (h : n.natAbs < twoPow 53) : (ofFloat (ofInt n)).toInt? = some n := by
  by_cases hn : n = 0
  · subst hn
    decide +kernel
  · obtain ⟨m, q, hnormal, hpos, hq, hm⟩ := exists_normal (Int.natAbs_ne_zero.2 hn) h
    have hvalue : (n.natAbs : ℚ) / (1 : Nat) = m * 2 ^ q := by
      obtain ⟨k, hk⟩ := Int.eq_ofNat_of_zero_le (show 0 ≤ -q by omega)
      obtain rfl : q = -(k : Int) := by omega
      rw [← hm, hk, Int.toNat_natCast, Nat.cast_mul, cast_twoPow, zpow_neg, zpow_natCast,
        mul_assoc, mul_inv_cancel₀ (by positivity), mul_one, Nat.cast_one, div_one]
    have hnear : Near m q ((n.natAbs : ℚ) / (1 : Nat)) := by
      refine Decimal.near_of_abs_sub_lt ?_
      rw [hvalue, sub_self, abs_zero]
      unfold reachBelow
      split <;> positivity
    rw [ofInt, ofFraction_of_near hnormal hpos Nat.one_pos hnear, ofFloat_assemble hnormal, toInt?,
      ← hm]
    split
    · obtain rfl : q = 0 := by omega
      rw [Int.neg_zero, Int.toNat_zero, twoPow_zero, Nat.mul_one, Nat.mul_one, signed_natAbs]
    · rw [if_pos (Nat.mul_mod_left _ _), Nat.mul_div_cancel _ (twoPow_pos _), signed_natAbs]

end Binary64

/-! ### Digits -/

namespace Decimal

theorem digits_mul_ten {n : Nat} (hn : n ≠ 0) : digits (n * 10) = digits n ++ ['0'] := by
  rw [digits, Nat.toDigits_of_base_le (by decide) (by omega), Nat.mul_div_cancel _ (by decide),
    Nat.mul_mod_left]
  rfl

theorem digits_mul_pow {n : Nat} (hn : n ≠ 0) (j : Nat) :
    digits (n * 10 ^ j) = digits n ++ List.replicate j '0' := by
  induction j with
  | zero => simp
  | succ j ih =>
      have hne : n * 10 ^ j ≠ 0 := Nat.mul_ne_zero hn (Nat.pow_pos (by decide)).ne'
      rw [Nat.pow_succ, ← Nat.mul_assoc, digits_mul_ten hne, ih, List.append_assoc,
        List.replicate_succ']

theorem width_mul_pow {n : Nat} (hn : n ≠ 0) (j : Nat) : width (n * 10 ^ j) = width n + j := by
  rw [width, digits_mul_pow hn, List.length_append, List.length_replicate, width]

/-- No trailing zero is left. -/
theorem stripZeros_mod_ten {fuel n : Nat} (hn : n ≠ 0) (hfuel : n < 10 ^ fuel) :
    stripZeros fuel n % 10 ≠ 0 := by
  induction fuel generalizing n with
  | zero => omega
  | succ fuel ih =>
      rw [stripZeros]
      split
      · next h => exact ih (by omega) (by rw [Nat.pow_succ] at hfuel; omega)
      · next h => omega

theorem eq_mul_pow_of_mul_pow_eq {a b i j : Nat} (h : a * 10 ^ i = b * 10 ^ j) (hb : b % 10 ≠ 0) :
    a = b * 10 ^ (j - i) ∧ i ≤ j := by
  have hle : i ≤ j := by
    by_contra hlt
    obtain ⟨d, rfl⟩ : ∃ d, i = j + 1 + d := ⟨i - j - 1, by omega⟩
    rw [Nat.pow_add, Nat.pow_succ] at h
    have hcancel : b = 10 * (a * 10 ^ d) := by
      have hpos : 0 < 10 ^ j := Nat.pow_pos (by decide)
      refine Nat.eq_of_mul_eq_mul_right hpos (h.symm.trans ?_)
      ring
    omega
  refine ⟨?_, hle⟩
  obtain ⟨d, rfl⟩ := Nat.exists_eq_add_of_le hle
  have hpos : 0 < 10 ^ i := Nat.pow_pos (by decide)
  rw [Nat.add_sub_cancel_left]
  refine Nat.eq_of_mul_eq_mul_right hpos (h.trans ?_)
  rw [Nat.pow_add]
  ring

end Decimal

namespace Notation

open Decimal

/-- Digits that are written out are followed by the zeros that are missing. -/
theorem writtenOut_general {ds : List Char} {k : Nat} (hlength : ds.length ≤ k + 1) :
    writtenOut generalStyle ds k = ds ++ List.replicate (k + 1 - ds.length) '0' := by
  have hneg : ¬ (k : Int) < 0 := by omega
  simp [writtenOut, hneg, List.take_of_length_le hlength, List.drop_of_length_le hlength, generalStyle]

/-- A number that is written out with its trailing zeros. -/
theorem layout_ofUnit {k i : Nat} (hk : k ≠ 0) (hlt : k < 10 ^ 6) :
    layout generalStyle (ofUnit (k * 10 ^ i) (-i)) = digits k := by
  have hne : k * 10 ^ i ≠ 0 := Nat.mul_ne_zero hk (Nat.pow_pos (by decide)).ne'
  obtain ⟨j, hstrip, hwidth⟩ := exists_stripZeros (width (k * 10 ^ i)) hne
  obtain ⟨s, hs⟩ : ∃ s, stripZeros (width (k * 10 ^ i)) (k * 10 ^ i) = s := ⟨_, rfl⟩
  have hmod : s % 10 ≠ 0 := hs ▸ stripZeros_mod_ten hne (lt_pow_width _)
  rw [hs] at hstrip hwidth
  -- all zeros are gone, so that those which had been put behind the number are
  obtain ⟨rfl, hij⟩ := eq_mul_pow_of_mul_pow_eq hstrip hmod
  have hs0 : s ≠ 0 := by
    rintro rfl
    exact hmod rfl
  have hsix : width s + (j - i) ≤ 6 := by
    rw [← width_mul_pow hs0]
    exact (Nat.length_toDigits_le_iff (by decide) (by decide)).2 hlt
  have hpos : 0 < width s := Nat.length_toDigits_pos
  have hdecimal : ofUnit (s * 10 ^ (j - i) * 10 ^ i) (-i) = ⟨s, (width s + (j - i) - 1 : Nat)⟩ := by
    rw [ofUnit, hs]
    congr 1
    omega
  rw [layout, hdecimal]
  dsimp only
  rw [if_pos (by simp only [generalStyle]; omega), writtenOut_general (by rw [← width]; omega),
    digits_mul_pow hs0, ← width]
  congr 2
  omega

/-- **Six digits are enough for a whole number that has no more.** -/
theorem layout_rounded {m k : Nat} {q : Int} (hk : k ≠ 0) (hlt : k < 10 ^ 6)
    (hvalue : (m : ℚ) * 2 ^ q = k) : layout generalStyle (rounded 6 m q) = digits k := by
  obtain ⟨hd, hfraction⟩ := binaryFraction_value m q
  obtain ⟨n, d, hnd⟩ : ∃ n d, binaryFraction m q = (n, d) := ⟨_, _, rfl⟩
  rw [hnd] at hd hfraction
  have hn : n = k * d := by
    rw [hvalue, div_eq_iff (by positivity)] at hfraction
    exact_mod_cast hfraction
  obtain ⟨i, hi⟩ : ∃ i, width k + i = 6 := by
    have hwidth : width k ≤ 6 := (Nat.length_toDigits_le_iff (by decide) (by decide)).2 hlt
    exact ⟨6 - width k, by omega⟩
  have hleading : leadingExponent n d = (width k : Int) - 1 := by
    have hpos : 0 < width k := Nat.length_toDigits_pos
    rw [leadingExponent, hn, if_pos (Nat.le_mul_of_pos_left d (by omega)), Nat.mul_div_cancel _ hd]
  have hunits : Binary64.divNearest (inUnits n d (-i)).1 (inUnits n d (-i)).2 = k * 10 ^ i := by
    obtain ⟨hd', hunit⟩ := inUnits_value n hd (-i)
    have hexact : (inUnits n d (-i)).1 = k * 10 ^ i * (inUnits n d (-i)).2 := by
      rw [hfraction, hvalue, zpow_neg, zpow_natCast, div_inv_eq_mul, div_eq_iff (by positivity)] at hunit
      exact_mod_cast hunit
    rw [hexact, Binary64.divNearest_eq_div (by rw [Nat.mul_mod_left]; omega), Nat.mul_div_cancel _ hd']
  have hunit : (width k : Int) - 1 - (6 : Nat) + 1 = -i := by omega
  rw [rounded, hnd]
  dsimp only
  rw [hleading, hunit, hunits]
  exact layout_ofUnit hk hlt

theorem general_of_whole {x : Float} {k : Nat} (h : (Binary64.ofFloat x).toInt? = some (k : Int))
    (hk : k ≠ 0) (hlt : k < 10 ^ 6) : general x = String.ofList (digits k) := by
  obtain ⟨s, m, q, hx, hvalue⟩ := Binary64.finite_of_toInt? h
  have hpos : (0 : ℚ) < k := by exact_mod_cast Nat.pos_of_ne_zero hk
  have hpow : (0 : ℚ) < 2 ^ q := by positivity
  cases s with
  | true =>
      have hnonpos : (Binary64.signed true m : ℚ) * 2 ^ q ≤ 0 := by
        rw [Binary64.signed_true, Int.cast_neg, Int.cast_natCast, neg_mul]
        exact neg_nonpos.2 (by positivity)
      rw [hvalue, Int.cast_natCast] at hnonpos
      exact absurd hpos (not_lt.2 hnonpos)
  | false =>
      rw [Binary64.signed_false, Int.cast_natCast, Int.cast_natCast] at hvalue
      have hm : m ≠ 0 := by
        rintro rfl
        rw [Nat.cast_zero, zero_mul] at hvalue
        exact hpos.ne hvalue
      rw [general, hx, write]
      change String.ofList (if m = 0 then _ else layout generalStyle (rounded 6 m q)) = _
      rw [if_neg hm, layout_rounded hk hlt hvalue]

end Notation

/-! ### Numbers -/

namespace Number

/-- The whole number that a number is, if it is one. -/
def integer? (a : Number) : Option Int := a.exact.toInt?

/-- Numbers are below one another if their exact values are. -/
theorem isBelow_eq (a b : Number) : a.isBelow b = a.exact.lt b.exact := by
  cases a with
  | whole n => rfl
  | real x =>
      cases b with
      | whole m => rfl
      | real y =>
          rw [isBelow, Bool.eq_iff_iff, decide_eq_true_iff]
          exact Binary64.lt_iff_exact x y

theorem isEqual_eq (a b : Number) : a.isEqual b = a.exact.eq b.exact := by
  cases a with
  | whole n => rfl
  | real x =>
      cases b with
      | whole m => rfl
      | real y => exact Binary64.beq_eq_exact x y

variable {a b : Number} {n m : Int}

theorem lt_iff (ha : a.integer? = some n) (hb : b.integer? = some m) : a < b ↔ n < m := by
  change a.isBelow b = true ↔ _
  rw [isBelow_eq]
  exact (Binary64.compare_of_toInt? ha hb).1

theorem beq_iff (ha : a.integer? = some n) (hb : b.integer? = some m) : (a == b) = true ↔ n = m := by
  change a.isEqual b = true ↔ _
  rw [isEqual_eq]
  exact (Binary64.compare_of_toInt? ha hb).2

theorem integer?_zero : integer? 0 = some 0 := by decide +kernel

theorem integer?_one : integer? 1 = some 1 := by decide +kernel

theorem integer?_neg (ha : a.integer? = some n) : (-a).integer? = some (-n) := by
  cases a with
  | whole k =>
      change (Binary64.exact k).toInt? = some n at ha
      rw [Binary64.toInt?_exact, Option.some_inj] at ha
      subst ha
      exact Binary64.toInt?_exact (-k)
  | real x =>
      change (Binary64.ofFloat x).toInt? = some n at ha
      obtain ⟨s, m, q, hx, -⟩ := Binary64.finite_of_toInt? ha
      change (Binary64.ofFloat (-x)).toInt? = some (-n)
      rw [Binary64.ofFloat_neg hx, Binary64.toInt?_not, ← hx, ha]
      rfl

/-- Whole numbers that are small enough have a double of their value. -/
theorem toInt?_toFloat (ha : a.integer? = some n) (hlt : n.natAbs < 10 ^ 6) :
    (Binary64.ofFloat a.toFloat).toInt? = some n := by
  cases a with
  | whole k =>
      change (Binary64.exact k).toInt? = some n at ha
      rw [Binary64.toInt?_exact, Option.some_inj] at ha
      subst ha
      exact Binary64.toInt?_ofInt (hlt.trans (by decide))
  | real x => exact ha

theorem text_of_pos (ha : a.integer? = some n) (hpos : 0 < n) (hlt : n.natAbs < 10 ^ 6) :
    Display.text a = String.ofList (Decimal.digits n.natAbs) := by
  have h := toInt?_toFloat ha hlt
  rw [← Int.natAbs_of_nonneg hpos.le] at h
  exact Notation.general_of_whole h (by omega) hlt

/-- **A whole number of at most six digits is written with them**, without its sign. -/
theorem text_magnitude (ha : a.integer? = some n) (hlt : n.natAbs < 10 ^ 6) :
    Display.text (Scalar.magnitude a) = String.ofList (Decimal.digits n.natAbs) := by
  have hsign := lt_iff ha integer?_zero
  have hzero := beq_iff ha integer?_zero
  rw [Scalar.magnitude]
  split
  · next hneg =>
      rw [← Int.natAbs_neg]
      exact text_of_pos (integer?_neg ha) (by have := hsign.1 hneg; omega) (by omega)
  · next hneg =>
      split
      · next heq =>
          rw [hzero.1 heq]
          decide +kernel
      · next hne =>
          have hn : ¬ n = 0 := fun h => hne (hzero.2 h)
          exact text_of_pos ha (by have := mt hsign.2 hneg; omega) hlt

end Number

end MixedInteger
