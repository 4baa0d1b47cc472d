/-
**The fewest digits that read back.**

The decimal that is written for a double is the first one on ever finer grids that lies near it.  Seventeen
digits are always enough, since a decimal of so many digits lies within half a step of the grid, and that
is less than a quarter of a unit of the last binary digit.  Either way the decimal is near the double.

Main definitions:

* `MixedInteger.Decimal.value` — the number that a decimal stands for.

Main results:

* `MixedInteger.Decimal.near_of_readsBack` — a grid point that reads back is near;
* `MixedInteger.Decimal.near_rounded` — so are seventeen digits;
* `MixedInteger.Decimal.near_shortest` — **so are the fewest digits**.
-/

import MixedInteger.Numeric.Decimal
import MixedInteger.Proofs.Nearest

set_option autoImplicit false

namespace MixedInteger.Decimal

open Binary64 (Near Normal reachBelow)

/-! ### Digits -/

theorem lt_pow_width (n : Nat) : n < 10 ^ width n :=
  (Nat.length_toDigits_le_iff (by decide) Nat.length_toDigits_pos).1 (Nat.le_refl _)

theorem pow_width_le {n : Nat} (hn : 0 < n) : 10 ^ (width n - 1) ≤ n := by
  by_cases hone : width n = 1
  · rw [hone]
    exact hn
  · have hpos : 0 < width n := Nat.length_toDigits_pos
    have hlong : ¬ width n ≤ width n - 1 := by omega
    rw [width, digits, Nat.length_toDigits_le_iff (by decide) (by rw [width, digits] at *; omega)] at hlong
    exact Nat.not_lt.1 hlong

theorem width_mul_ten {n : Nat} (hn : n ≠ 0) : width (n * 10) = width n + 1 := by
  rw [width, digits, Nat.toDigits_of_base_le (by decide) (by omega), List.length_append,
    List.length_singleton, Nat.mul_div_cancel _ (by decide), width, digits]

/-- Trailing zeros are a power of ten. -/
theorem exists_stripZeros (fuel : Nat) {n : Nat} (hn : n ≠ 0) :
    ∃ j, n = stripZeros fuel n * 10 ^ j ∧ width n = width (stripZeros fuel n) + j := by
  induction fuel generalizing n with
  | zero => exact ⟨0, (Nat.mul_one n).symm, rfl⟩
  | succ fuel ih =>
      rw [stripZeros]
      split
      · next hzero =>
          have hten : n = n / 10 * 10 := by omega
          have hrest : n / 10 ≠ 0 := by omega
          obtain ⟨j, hvalue, hwidth⟩ := ih hrest
          refine ⟨j + 1, ?_, ?_⟩
          · rw [Nat.pow_succ, ← Nat.mul_assoc, ← hvalue]
            exact hten
          · rw [hten, width_mul_ten hrest, Nat.mul_div_cancel _ (by decide), hwidth, Nat.add_assoc]
      · exact ⟨0, (Nat.mul_one n).symm, rfl⟩

/-! ### The value of a decimal -/

/-- The number that a decimal stands for: the point is moved behind its first digit, and from there by the
power of ten. -/
def value (x : Decimal) : ℚ := x.significand * 10 ^ (x.leading + 1 - width x.significand)

/-- Trailing zeros do not count. -/
theorem value_ofUnit {n : Nat} (hn : n ≠ 0) (unit : Int) : (ofUnit n unit).value = n * 10 ^ unit := by
  obtain ⟨j, hvalue, hwidth⟩ := exists_stripZeros (width n) hn
  have hexponent : unit + (width n : Int) - 1 + 1 - (width (stripZeros (width n) n) : Int) =
      j + unit := by omega
  rw [value, ofUnit, hexponent, zpow_add₀ (by norm_num), zpow_natCast, ← mul_assoc]
  congr 1
  exact_mod_cast hvalue.symm

/-! ### Fractions -/

theorem binaryFraction_value (m : Nat) (q : Int) :
    0 < (binaryFraction m q).2 ∧
      ((binaryFraction m q).1 : ℚ) / (binaryFraction m q).2 = m * 2 ^ q := by
  unfold binaryFraction
  split
  · next hq =>
      obtain ⟨k, rfl⟩ := Int.eq_ofNat_of_zero_le hq
      exact ⟨Nat.one_pos, by rw [Nat.cast_one, div_one, Nat.cast_mul, cast_twoPow,
        Int.toNat_natCast, zpow_natCast]⟩
  · next hq =>
      obtain ⟨k, hk⟩ := Int.eq_ofNat_of_zero_le (show 0 ≤ -q by omega)
      obtain rfl : q = -(k : Int) := by omega
      exact ⟨twoPow_pos _, by rw [cast_twoPow, Int.neg_neg, Int.toNat_natCast, zpow_neg,
        zpow_natCast, div_eq_mul_inv]⟩

/-- A fraction is measured in units of a power of ten. -/
theorem inUnits_value (n : Nat) {d : Nat} (hd : 0 < d) (e : Int) :
    0 < (inUnits n d e).2 ∧
      ((inUnits n d e).1 : ℚ) / (inUnits n d e).2 = (n : ℚ) / d / 10 ^ e :=
  fraction_div_zpow cast_tenPow tenPow_pos n hd e

/-- The first digit of a fraction is not beyond it. -/
theorem zpow_leadingExponent_le {n d : Nat} (hn : 0 < n) (hd : 0 < d) :
    (10 : ℚ) ^ leadingExponent n d ≤ (n : ℚ) / d := by
  have hdq : (0 : ℚ) < d := Nat.cast_pos.2 hd
  have hnq : (0 : ℚ) < n := Nat.cast_pos.2 hn
  unfold leadingExponent
  split
  · next hle =>
      have hwidth : 0 < width (n / d) := Nat.length_toDigits_pos
      obtain ⟨k, hk⟩ : ∃ k, width (n / d) = k + 1 := ⟨width (n / d) - 1, by omega⟩
      have hpow := pow_width_le (Nat.div_pos hle hd)
      rw [hk, Nat.add_sub_cancel, Nat.le_div_iff_mul_le hd] at hpow
      rw [hk, Nat.cast_succ, add_sub_cancel_right, zpow_natCast, le_div_iff₀ hdq]
      exact_mod_cast hpow
  · next hlt =>
      dsimp only
      split
      · next hexact =>
          obtain ⟨k, hk⟩ : ∃ k, width (d / n) = k + 1 :=
            ⟨width (d / n) - 1, by have : 0 < width (d / n) := Nat.length_toDigits_pos; omega⟩
          rw [hk, Nat.add_sub_cancel] at hexact
          rw [hk, Nat.cast_succ, add_sub_cancel_right, zpow_neg, zpow_natCast, le_div_iff₀ hdq,
            ← hexact, Nat.cast_mul, cast_tenPow]
          rw [mul_comm, mul_assoc, mul_inv_cancel₀ (by positivity), mul_one]
      · have hpow := lt_pow_width (d / n)
        rw [Nat.div_lt_iff_lt_mul hn] at hpow
        rw [zpow_neg, zpow_natCast, le_div_iff₀ hdq, inv_mul_le_iff₀ (by positivity)]
        exact_mod_cast hpow.le

/-! ### Points of a grid -/

/-- The lower end of the interval around a double, in quarters of a unit. -/
def lowerQuarters (m : Nat) (q : Int) : Nat := 4 * m - if m = twoPow 52 ∧ -1074 < q then 1 else 2

theorem quarter_zpow (q : Int) : (2 : ℚ) ^ q = 4 * 2 ^ (q - 2) := by
  have hsplit : q = 2 + (q - 2) := by omega
  rw [hsplit, zpow_add₀ two_ne_zero, ← hsplit]
  norm_num

theorem lowerQuarters_value {m : Nat} (hpos : 0 < m) (q : Int) :
    (lowerQuarters m q : ℚ) * 2 ^ (q - 2) = ((m : ℚ) - reachBelow m q) * 2 ^ q := by
  rw [quarter_zpow q, lowerQuarters, reachBelow]
  split
  · rw [Nat.cast_sub (by omega)]
    push_cast
    ring
  · rw [Nat.cast_sub (by omega)]
    push_cast
    ring

theorem upperQuarters_value (m : Nat) (q : Int) :
    ((4 * m + 2 : Nat) : ℚ) * 2 ^ (q - 2) = ((m : ℚ) + 1 / 2) * 2 ^ q := by
  rw [quarter_zpow q]
  push_cast
  ring

/-- Quarters of a unit and points of a grid are compared as whole numbers, both being multiples of one
number. -/
theorem exists_scale {q unit : Int} {s d grow step : Nat} (hfraction : binaryFraction 1 (q - 2) = (s, d))
    (hunits : inUnits 1 1 unit = (grow, step)) : ∃ scale : ℚ, 0 < scale ∧
      (∀ c : Nat, ((c * s * grow : Nat) : ℚ) = c * 2 ^ (q - 2) * scale) ∧
        ∀ j : Nat, ((j * d * step : Nat) : ℚ) = j * 10 ^ unit * scale := by
  obtain ⟨hd, hs⟩ := binaryFraction_value 1 (q - 2)
  obtain ⟨hstep, hgrow⟩ := inUnits_value 1 Nat.one_pos unit
  rw [hfraction] at hd hs
  rw [hunits] at hstep hgrow
  have hdq : (0 : ℚ) < d := Nat.cast_pos.2 hd
  have hstepq : (0 : ℚ) < step := Nat.cast_pos.2 hstep
  have hten : (0 : ℚ) < 10 ^ unit := by positivity
  rw [div_eq_iff hdq.ne', Nat.cast_one, one_mul] at hs
  rw [div_eq_iff hstepq.ne', Nat.cast_one, div_one] at hgrow
  refine ⟨d * grow, ?_, fun c => ?_, fun j => ?_⟩
  · rw [hgrow]
    positivity
  · push_cast
    rw [hs]
    ring
  · push_cast
    rw [hgrow]
    field_simp

/-- A point of a grid that reads back as a double is near it. -/
theorem near_of_readsBack {m : Nat} {q unit : Int} {j : Nat} (hpos : 0 < m)
    (h : readsBack m q unit j = true) : Near m q ((j : ℚ) * 10 ^ unit) := by
  obtain ⟨s, d, hfraction⟩ : ∃ s d, binaryFraction 1 (q - 2) = (s, d) := ⟨_, _, rfl⟩
  obtain ⟨grow, step, hunits⟩ : ∃ grow step, inUnits 1 1 unit = (grow, step) := ⟨_, _, rfl⟩
  obtain ⟨scale, hscale, hend, hpoint⟩ := exists_scale hfraction hunits
  have hle : ∀ c : Nat, c * s * grow ≤ j * d * step ↔ (c : ℚ) * 2 ^ (q - 2) ≤ j * 10 ^ unit := by
    intro c
    rw [← Nat.cast_le (α := ℚ), hend, hpoint, mul_le_mul_iff_of_pos_right hscale]
  have hge : ∀ c : Nat, j * d * step ≤ c * s * grow ↔ (j : ℚ) * 10 ^ unit ≤ c * 2 ^ (q - 2) := by
    intro c
    rw [← Nat.cast_le (α := ℚ), hend, hpoint, mul_le_mul_iff_of_pos_right hscale]
  have hread : (if m % 2 = 0 then
      decide (lowerQuarters m q * s * grow ≤ j * d * step) &&
        decide (j * d * step ≤ (4 * m + 2) * s * grow)
      else decide (lowerQuarters m q * s * grow < j * d * step) &&
        decide (j * d * step < (4 * m + 2) * s * grow)) = true := by
    rw [← h, readsBack, interval, hfraction, hunits]
    rfl
  split at hread
  · next heven =>
      rw [Bool.and_eq_true, decide_eq_true_iff, decide_eq_true_iff, hle, hge,
        lowerQuarters_value hpos, upperQuarters_value] at hread
      exact ⟨hread.1, hread.2, fun hodd => absurd hodd (by omega)⟩
  · rw [Bool.and_eq_true, decide_eq_true_iff, decide_eq_true_iff, ← not_le, ← not_le, hle, hge,
      lowerQuarters_value hpos, upperQuarters_value, not_le, not_le] at hread
    exact ⟨hread.1.le, hread.2.le, fun _ => hread⟩

theorem near_of_gridPoint {m : Nat} {q unit : Int} {k : Nat} (hpos : 0 < m)
    (h : gridPoint? m q unit = some k) : Near m q ((k : ℚ) * 10 ^ unit) := by
  apply near_of_readsBack hpos
  unfold gridPoint? at h
  dsimp only at h
  split at h
  · next hlow hhigh =>
      split at h
      · cases h
        exact hlow
      · cases h
        exact hhigh
  · next hlow hhigh =>
      cases h
      exact hlow
  · next hlow hhigh =>
      cases h
      exact hhigh
  · cases h

theorem near_of_searchGrid {m : Nat} {q first : Int} {fuel count : Nat} {x : Decimal} (hpos : 0 < m)
    (h : searchGrid m q first fuel count = some x) : Near m q x.value := by
  induction fuel generalizing count with
  | zero => cases h
  | succ fuel ih =>
      rw [searchGrid] at h
      split at h
      · next k hk =>
          split at h
          · exact ih h
          · next hne =>
              cases h
              rw [value_ofUnit hne]
              exact near_of_gridPoint hpos hk
      · exact ih h

/-! ### Seventeen digits -/

/-- Half a unit of the seventeenth digit is less than what lies between a double and the ends of its
interval. -/
theorem half_unit_lt_reach {m : Nat} {q unit : Int} (hm : Normal m q)
    (hunit : (10 : ℚ) ^ (unit + 16) ≤ m * 2 ^ q) : (10 : ℚ) ^ unit / 2 < reachBelow m q * 2 ^ q := by
  have hbinary : (0 : ℚ) < 2 ^ q := by positivity
  rw [zpow_add₀ (by norm_num)] at hunit
  have hsixteen : (10 : ℚ) ^ (16 : Int) = 10 ^ 16 := zpow_ofNat 10 16
  rw [hsixteen] at hunit
  have hsmall : (m : ℚ) < 2 * 10 ^ 16 * reachBelow m q := by
    unfold reachBelow
    split
    · next hpower =>
        rw [hpower.1, cast_twoPow]
        norm_num
    · have hlt : (m : ℚ) < twoPow 53 := Nat.cast_lt.2 hm.lt
      rw [cast_twoPow] at hlt
      refine hlt.trans ?_
      norm_num
  have hproduct := mul_lt_mul_of_pos_right hsmall hbinary
  linarith

/-- What lies within less than its reach of a double is near it. -/
theorem near_of_abs_sub_lt {m : Nat} {q : Int} {v : ℚ}
    (h : |v - m * 2 ^ q| < reachBelow m q * 2 ^ q) : Near m q v := by
  have hreach : reachBelow m q * 2 ^ q ≤ 1 / 2 * 2 ^ q := by
    gcongr
    exact Binary64.reachBelow_le m q
  obtain ⟨hlower, hupper⟩ := abs_lt.1 h
  have hlow : ((m : ℚ) - reachBelow m q) * 2 ^ q < v := by
    rw [sub_mul]
    linarith
  have hhigh : v < ((m : ℚ) + 1 / 2) * 2 ^ q := by
    rw [add_mul]
    linarith
  exact ⟨hlow.le, hhigh.le, fun _ => ⟨hlow, hhigh⟩⟩

/-- A fraction that is rounded to units of a power of ten is off by half a unit at most. -/
theorem abs_round_inUnits_sub_le (n : Nat) {d : Nat} (hd : 0 < d) (unit : Int) :
    |(Binary64.divNearest (inUnits n d unit).1 (inUnits n d unit).2 : ℚ) * 10 ^ unit - (n : ℚ) / d| ≤
      10 ^ unit / 2 := by
  obtain ⟨hpos, hvalue⟩ := inUnits_value n hd unit
  have hten : (0 : ℚ) < 10 ^ unit := by positivity
  have hnearest := Binary64.abs_divNearest_sub_le (inUnits n d unit).1 hpos
  rw [hvalue] at hnearest
  calc |(Binary64.divNearest (inUnits n d unit).1 (inUnits n d unit).2 : ℚ) * 10 ^ unit - (n : ℚ) / d|
      = |(Binary64.divNearest (inUnits n d unit).1 (inUnits n d unit).2 : ℚ) -
          (n : ℚ) / d / 10 ^ unit| * 10 ^ unit := by
        rw [← abs_of_pos hten, ← abs_mul, sub_mul, abs_of_pos hten, div_mul_cancel₀ _ hten.ne']
    _ ≤ 1 / 2 * 10 ^ unit := by gcongr
    _ = 10 ^ unit / 2 := by ring

/-- Seventeen digits of a double are near it. -/
theorem near_rounded {m : Nat} {q : Int} (hm : Normal m q) (hpos : 0 < m) :
    Near m q (rounded 17 m q).value := by
  obtain ⟨n, d, hfraction⟩ : ∃ n d, binaryFraction m q = (n, d) := ⟨_, _, rfl⟩
  obtain ⟨hd, hvalue⟩ := binaryFraction_value m q
  rw [hfraction] at hd hvalue
  dsimp only at hd hvalue
  have hbinary : (0 : ℚ) < 2 ^ q := by positivity
  have hmq : (1 : ℚ) ≤ m := Nat.one_le_cast.2 hpos
  have hn : 0 < n := by
    have hquotient : 0 < (n : ℚ) / d := by
      rw [hvalue]
      positivity
    rw [div_pos_iff_of_pos_right (Nat.cast_pos.2 hd)] at hquotient
    exact Nat.cast_pos.1 hquotient
  obtain ⟨unit, hunit⟩ : ∃ unit, leadingExponent n d - 17 + 1 = unit := ⟨_, rfl⟩
  have hfirst : (10 : ℚ) ^ (unit + 16) ≤ m * 2 ^ q := by
    have hle := zpow_leadingExponent_le hn hd
    rwa [hvalue, show leadingExponent n d = unit + 16 by omega] at hle
  have hclose := lt_of_le_of_lt (abs_round_inUnits_sub_le n hd unit) (half_unit_lt_reach hm hfirst)
  rw [hvalue] at hclose
  obtain ⟨k, hk⟩ : ∃ k, Binary64.divNearest (inUnits n d unit).1 (inUnits n d unit).2 = k := ⟨_, rfl⟩
  rw [hk] at hclose
  have hnear := near_of_abs_sub_lt hclose
  -- the digits are not all zero, since no double but zero is near zero
  have hne : k ≠ 0 := by
    rintro rfl
    have hhalf := hnear.half_le
    rw [Nat.cast_zero, zero_mul] at hhalf
    nlinarith
  have hrounded : rounded 17 m q = ofUnit k unit := by
    rw [← hk, ← hunit, rounded, hfraction]
    rfl
  rw [hrounded, value_ofUnit hne]
  exact hnear

/-- **The decimal that is written for a double is near it.** -/
theorem near_shortest {m : Nat} {q : Int} (hm : Normal m q) (hpos : 0 < m) :
    Near m q (shortest m q).value := by
  unfold shortest
  dsimp only
  cases h : searchGrid m q (leadingExponent (binaryFraction m q).1 (binaryFraction m q).2) 17 1 with
  | none => exact near_rounded hm hpos
  | some x => exact near_of_searchGrid hpos h

end MixedInteger.Decimal
