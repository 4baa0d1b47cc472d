/-
**Doubles and the numbers near them.**

A double has a significand and an exponent.  Around it lie the numbers that are read as it: half a unit of
its last binary digit to either side, but a quarter only below a power of two.  Rounding a fraction finds
the double that it is near to.

Main definitions:

* `MixedInteger.Binary64.Normal` — a significand and an exponent as they are decoded;
* `MixedInteger.Binary64.Near` — the numbers that are read as a double.

Main results:

* `MixedInteger.Binary64.ofFraction_of_near` — **a fraction near a double is rounded to it**;
* `MixedInteger.Literal.scaledByTen_of_near` — so is a decimal numeral.
-/

import Mathlib.Algebra.Order.Field.Power
import Mathlib.Data.Rat.Floor
import Mathlib.Tactic.Linarith
import Mathlib.Tactic.NormNum
import Mathlib.Tactic.Positivity
import MixedInteger.Numeric.Literal

set_option autoImplicit false

namespace MixedInteger

/-! ### Powers and fractions -/

theorem cast_twoPow (n : Nat) : (twoPow n : ℚ) = 2 ^ n := by
  simp [twoPow]

theorem cast_tenPow (n : Nat) : (tenPow n : ℚ) = 10 ^ n := by
  simp [tenPow]

/-- A fraction is divided by a power in whichever of its two parts leaves whole numbers. -/
theorem fraction_div_zpow {pow : Nat → Nat} {b : ℚ} (hpow : ∀ k, (pow k : ℚ) = b ^ k)
    (hpos : ∀ k, 0 < pow k) (n : Nat) {d : Nat} (hd : 0 < d) (e : Int) :
    let f := if 0 ≤ e then (n, d * pow e.toNat) else (n * pow (-e).toNat, d)
    0 < f.2 ∧ (f.1 : ℚ) / f.2 = (n : ℚ) / d / b ^ e := by
  dsimp only
  split
  · next he =>
      refine ⟨Nat.mul_pos hd (hpos _), ?_⟩
      obtain ⟨k, rfl⟩ := Int.eq_ofNat_of_zero_le he
      rw [Nat.cast_mul, Int.toNat_natCast, hpow, zpow_natCast, div_div]
  · next he =>
      refine ⟨hd, ?_⟩
      obtain ⟨k, hk⟩ := Int.eq_ofNat_of_zero_le (show 0 ≤ -e by omega)
      obtain rfl : e = -(k : Int) := by omega
      rw [Nat.cast_mul, Int.neg_neg, Int.toNat_natCast, hpow, zpow_neg, zpow_natCast,
        div_inv_eq_mul, mul_div_right_comm]

namespace Binary64

/-! ### Significands and their bits -/

/-- A significand and an exponent of a double: the significand is full unless the exponent is the
least. -/
structure Normal (m : Nat) (q : Int) : Prop where
  lt : m < twoPow 53
  least : -1074 ≤ q
  greatest : q ≤ 971
  full : q = -1074 ∨ twoPow 52 ≤ m

theorem encodeMagnitude_of_lt {m : Nat} (q : Int) (h : m < twoPow 52) : encodeMagnitude m q = m :=
  if_pos h

/-- The bits of a full significand, which has one digit more than is stored. -/
theorem encodeMagnitude_of_full {m : Nat} {q : Int} (h : twoPow 52 ≤ m) (hlt : m < twoPow 53)
    (hq : q ≤ 971) :
    encodeMagnitude m q = (q + 1075).toNat * twoPow 52 + (m - twoPow 52) := by
  unfold encodeMagnitude
  rw [if_neg (Nat.not_lt.2 h)]
  simp only [Nat.ne_of_lt hlt, if_false, Int.add_zero]
  rw [if_neg (by omega)]

/-- What the carry of a rounding makes: the next power of two has the same bits as a significand that
takes one digit too many. -/
theorem encodeMagnitude_carry {q : Int} (hq : q ≤ 971) :
    encodeMagnitude (twoPow 53) (q - 1) = encodeMagnitude (twoPow 52) q := by
  have h52 : ¬ twoPow 53 < twoPow 52 := by decide
  rw [encodeMagnitude_of_full (Nat.le_refl _) (by decide) hq, Nat.sub_self]
  unfold encodeMagnitude
  rw [if_neg h52]
  simp only [if_true]
  rw [if_neg (by omega)]
  have hexponent : q - 1 + 1075 + 1 = q + 1075 := by omega
  rw [hexponent]

/-! ### Numbers near a double -/

/-- How far below `m * 2 ^ q`, in units of `2 ^ q`, the numbers lie that are read as it: half a unit, but
a quarter above a power of two, since the next double below is nearer there. -/
def reachBelow (m : Nat) (q : Int) : ℚ := if m = twoPow 52 ∧ -1074 < q then 1 / 4 else 1 / 2

/-- The numbers that are read as the double `m * 2 ^ q`; those at either end are if `m` is even. -/
structure Near (m : Nat) (q : Int) (v : ℚ) : Prop where
  lower : ((m : ℚ) - reachBelow m q) * 2 ^ q ≤ v
  upper : v ≤ ((m : ℚ) + 1 / 2) * 2 ^ q
  ends : m % 2 = 1 → ((m : ℚ) - reachBelow m q) * 2 ^ q < v ∧ v < ((m : ℚ) + 1 / 2) * 2 ^ q

theorem reachBelow_le (m : Nat) (q : Int) : reachBelow m q ≤ 1 / 2 := by
  unfold reachBelow
  split <;> norm_num

/-! ### Rounding a fraction -/

/-- A fraction is divided by a power of two. -/
theorem scaleFraction_value (n : Nat) {d : Nat} (hd : 0 < d) (q : Int) :
    0 < (scaleFraction n d q).2 ∧
      ((scaleFraction n d q).1 : ℚ) / (scaleFraction n d q).2 = (n : ℚ) / d / 2 ^ q :=
  fraction_div_zpow cast_twoPow twoPow_pos n hd q

/-- Rounding a quotient is off by a half at most. -/
theorem abs_divNearest_sub_le (n : Nat) {d : Nat} (hd : 0 < d) :
    |(divNearest n d : ℚ) - (n : ℚ) / d| ≤ 1 / 2 := by
  have hdq : (0 : ℚ) < d := Nat.cast_pos.2 hd
  have hn : n = d * (n / d) + n % d := (Nat.div_add_mod n d).symm
  have hrest : n % d < d := Nat.mod_lt n hd
  have hsame : d * (2 * (n / d)) = 2 * (d * (n / d)) := Nat.mul_left_comm d 2 (n / d)
  have hnext : d * (2 * (n / d + 1)) = 2 * (d * (n / d)) + 2 * d := by ring
  have hwhole : 2 * n ≤ d * (2 * divNearest n d) + d ∧ d * (2 * divNearest n d) ≤ 2 * n + d := by
    unfold divNearest
    dsimp only
    split
    · rw [hsame]
      omega
    · split
      · rw [hnext]
        omega
      · split
        · rw [hsame]
          omega
        · rw [hnext]
          omega
  have hlower : ((2 * n : Nat) : ℚ) ≤ (d * (2 * divNearest n d) + d : Nat) := Nat.cast_le.2 hwhole.1
  have hupper : ((d * (2 * divNearest n d) : Nat) : ℚ) ≤ (2 * n + d : Nat) := Nat.cast_le.2 hwhole.2
  push_cast at hlower hupper
  have hscaled : (n : ℚ) = n / d * d := (div_mul_cancel₀ _ hdq.ne').symm
  rw [abs_le]
  constructor <;> nlinarith

/-- A quotient half-way between two whole numbers is rounded to the even one. -/
theorem even_divNearest_of_tie {n d c : Nat} (hd : 0 < d) (h : (n : ℚ) / d = c + 1 / 2) :
    divNearest n d % 2 = 0 := by
  have htie : 2 * n = d * (2 * c + 1) := by
    rw [div_eq_iff (by positivity)] at h
    have hcast : ((2 * n : Nat) : ℚ) = (d * (2 * c + 1) : Nat) := by
      push_cast
      linarith
    exact_mod_cast hcast
  have hdouble : d * (2 * c + 1) = 2 * (c * d) + d := by ring
  have hquotient : n / d = c := by
    apply Nat.div_eq_of_lt_le
    · omega
    · rw [Nat.succ_mul]
      omega
  have hrest : 2 * (n % d) = d := by
    have hn := Nat.div_add_mod n d
    rw [hquotient, Nat.mul_comm d c] at hn
    omega
  unfold divNearest
  rw [hrest, hquotient]
  simp only [Nat.lt_irrefl, if_false]
  split <;> omega

/-- A number that is within a half of two whole numbers is half-way between them. -/
theorem half_way_of_lt {a b : Nat} {v : ℚ} (h : a < b) (ha : v ≤ a + 1 / 2) (hb : b - 1 / 2 ≤ v) :
    b = a + 1 ∧ v = a + 1 / 2 := by
  have hnext : ((a + 1 : Nat) : ℚ) ≤ b := Nat.cast_le.2 h
  rw [Nat.cast_add_one] at hnext
  have hb' : (b : ℚ) = ((a + 1 : Nat) : ℚ) := by
    rw [Nat.cast_add_one]
    linarith
  exact ⟨Nat.cast_injective hb', by linarith⟩

/-- A quotient within a half of a whole number is rounded to it; at the ends, if it is even. -/
theorem divNearest_eq {n d m : Nat} (hd : 0 < d) (hlower : (m : ℚ) - 1 / 2 ≤ (n : ℚ) / d)
    (hupper : (n : ℚ) / d ≤ (m : ℚ) + 1 / 2)
    (hends : m % 2 = 1 → (m : ℚ) - 1 / 2 < (n : ℚ) / d ∧ (n : ℚ) / d < (m : ℚ) + 1 / 2) :
    divNearest n d = m := by
  obtain ⟨hbelow, habove⟩ := abs_le.1 (abs_divNearest_sub_le n hd)
  -- two whole numbers within a half are neighbours, and the even one of them is taken
  rcases Nat.lt_trichotomy (divNearest n d) m with hless | hsame | hmore
  · obtain ⟨hnext, htie⟩ := half_way_of_lt hless (by linarith) hlower
    have heven := even_divNearest_of_tie hd htie
    have hstrict := (hends (by omega)).1
    rw [hnext, Nat.cast_add_one] at hstrict
    linarith
  · exact hsame
  · obtain ⟨hnext, htie⟩ := half_way_of_lt hmore hupper (by linarith)
    have heven := even_divNearest_of_tie hd htie
    linarith [(hends (by omega)).2]

/-! ### The exponent of a fraction -/

/-- The logarithms of the two parts of a fraction tell its size, up to a factor of two either way. -/
theorem between_log2 {n d : Nat} (hn : 0 < n) (hd : 0 < d) {q : Int}
    (hq : q = (Nat.log2 n : Int) - Nat.log2 d) :
    (2 : ℚ) ^ (q - 1) < (n : ℚ) / d ∧ (n : ℚ) / d < 2 ^ (q + 1) := by
  have hdq : (0 : ℚ) < d := Nat.cast_pos.2 hd
  have hlog : ∀ {k : Nat}, 0 < k → (2 : ℚ) ^ Nat.log2 k ≤ k ∧ (k : ℚ) < 2 ^ (Nat.log2 k + 1) := by
    intro k hk
    exact ⟨by exact_mod_cast Nat.log2_self_le (Nat.pos_iff_ne_zero.1 hk),
      by exact_mod_cast Nat.lt_log2_self⟩
  obtain ⟨hnle, hnlt⟩ := hlog hn
  obtain ⟨hdle, hdlt⟩ := hlog hd
  rw [lt_div_iff₀ hdq, div_lt_iff₀ hdq]
  constructor
  · calc (2 : ℚ) ^ (q - 1) * d < 2 ^ (q - 1) * 2 ^ (Nat.log2 d + 1) := by gcongr
      _ = 2 ^ Nat.log2 n := by
        rw [← zpow_natCast, ← zpow_natCast, ← zpow_add₀ two_ne_zero]
        congr 1
        push_cast
        omega
      _ ≤ n := hnle
  · calc (n : ℚ) < 2 ^ (Nat.log2 n + 1) := hnlt
      _ = 2 ^ (q + 1) * 2 ^ Nat.log2 d := by
        rw [← zpow_natCast, ← zpow_natCast, ← zpow_add₀ two_ne_zero]
        congr 1
        push_cast
        omega
      _ ≤ 2 ^ (q + 1) * d := by gcongr

/-- Whether a quotient that is measured in units of a power of two has fewer than fifty-three digits. -/
theorem scaleFraction_lt_iff (n : Nat) {d : Nat} (hd : 0 < d) (q : Int) :
    (scaleFraction n d q).1 / (scaleFraction n d q).2 < twoPow 52 ↔ (n : ℚ) / d < 2 ^ (52 + q) := by
  obtain ⟨hpos, hvalue⟩ := scaleFraction_value n hd q
  rw [Nat.div_lt_iff_lt_mul hpos, zpow_add₀ two_ne_zero, ← div_lt_iff₀ (by positivity), ← hvalue,
    div_lt_iff₀ (Nat.cast_pos.2 hpos), ← Nat.cast_lt (α := ℚ), Nat.cast_mul, cast_twoPow]
  norm_cast

/-- The exponent that a fraction is measured with: it leaves fifty-three digits before the point, unless
the fraction is too small for that. -/
theorem exists_ofFraction (s : Bool) {n d : Nat} (hn : 0 < n) (hd : 0 < d) : ∃ q : Int,
    2 ^ (52 + q) ≤ (n : ℚ) / d ∧ (n : ℚ) / d < 2 ^ (53 + q) ∧
      ofFraction s n d = assemble s (encodeMagnitude
        (divNearest (scaleFraction n d (max q (-1074))).1 (scaleFraction n d (max q (-1074))).2)
        (max q (-1074))) := by
  obtain ⟨guess, hguess⟩ : ∃ guess : Int, guess = (Nat.log2 n : Int) - Nat.log2 d - 52 := ⟨_, rfl⟩
  obtain ⟨hlower, hupper⟩ := between_log2 hn hd (q := guess + 52) (by omega)
  have hfirst := scaleFraction_lt_iff n hd guess
  have hclamp : ∀ q : Int, (if q < -1074 then -1074 else q) = max q (-1074) := by
    intro q
    split <;> omega
  unfold ofFraction
  rw [if_neg (show ¬ (n = 0 ∨ d = 0) by omega)]
  dsimp only
  rw [← hguess]
  by_cases hsmall : (scaleFraction n d guess).1 / (scaleFraction n d guess).2 < twoPow 52
  · refine ⟨guess - 1, ?_, ?_, by rw [if_pos hsmall, hclamp]⟩
    · rw [show 52 + (guess - 1) = guess + 52 - 1 by omega]
      exact hlower.le
    · rw [show 53 + (guess - 1) = 52 + guess by omega]
      exact hfirst.1 hsmall
  · refine ⟨guess, not_lt.1 fun h => hsmall (hfirst.2 h), ?_, by rw [if_neg hsmall, hclamp]⟩
    rw [show 53 + guess = guess + 52 + 1 by omega]
    exact hupper

/-- A fraction near a significand, in units of a power of two, is rounded to that significand. -/
theorem divNearest_scaleFraction {n d m : Nat} {q : Int} (hd : 0 < d)
    (hlower : ((m : ℚ) - 1 / 2) * 2 ^ q ≤ (n : ℚ) / d)
    (hupper : (n : ℚ) / d ≤ ((m : ℚ) + 1 / 2) * 2 ^ q)
    (hends : m % 2 = 1 → ((m : ℚ) - 1 / 2) * 2 ^ q < (n : ℚ) / d ∧
      (n : ℚ) / d < ((m : ℚ) + 1 / 2) * 2 ^ q) :
    divNearest (scaleFraction n d q).1 (scaleFraction n d q).2 = m := by
  obtain ⟨hpos, hvalue⟩ := scaleFraction_value n hd q
  have hunit : (0 : ℚ) < 2 ^ q := by positivity
  apply divNearest_eq hpos <;> rw [hvalue]
  · rwa [le_div_iff₀ hunit]
  · rwa [div_le_iff₀ hunit]
  · rwa [lt_div_iff₀ hunit, div_lt_iff₀ hunit]

/-- Powers of two around a number tell the order of their exponents. -/
theorem exponent_lt {a b : Int} {v : ℚ} (hlower : 2 ^ a ≤ v) (hupper : v < 2 ^ b) : a < b :=
  (zpow_lt_zpow_iff_right₀ one_lt_two).1 (lt_of_le_of_lt hlower hupper)

/-- Numbers near a double are at most half a unit below it. -/
theorem Near.half_le {m : Nat} {q : Int} {v : ℚ} (h : Near m q v) :
    ((m : ℚ) - 1 / 2) * 2 ^ q ≤ v := by
  refine le_trans ?_ h.lower
  gcongr
  exact reachBelow_le m q

/-- Numbers near a double are measured with its exponent, except that those just below a power of two are
measured with the exponent below. -/
theorem exponent_of_near {m : Nat} {p q : Int} {v : ℚ} (hm : Normal m q) (h : Near m q v)
    (hfull : 2 ^ (52 + p) ≤ v) (hbelow : v < 2 ^ (53 + p)) :
    max p (-1074) = q ∨ m = twoPow 52 ∧ -1074 < q ∧ p = q - 1 := by
  have hq := hm.least
  have hpq : p ≤ q := by
    have hmq : ((m + 1 : Nat) : ℚ) ≤ (twoPow 53 : Nat) := Nat.cast_le.2 hm.lt
    have hlt : v < 2 ^ (53 + q) := by
      refine lt_of_le_of_lt h.upper ?_
      rw [zpow_add₀ two_ne_zero, zpow_ofNat, ← cast_twoPow]
      gcongr
      rw [Nat.cast_add_one] at hmq
      linarith
    have := exponent_lt hfull hlt
    omega
  by_cases hsame : max p (-1074) = q
  · exact Or.inl hsame
  · have hfullm : twoPow 52 ≤ m := hm.full.resolve_left (by omega)
    have hleast : -1074 < q := by omega
    have hpower : m = twoPow 52 := by
      by_contra hne
      have hgt : twoPow 52 + 1 ≤ m := by omega
      have hmq : ((twoPow 52 + 1 : Nat) : ℚ) ≤ m := Nat.cast_le.2 hgt
      have hle : 2 ^ (52 + q) ≤ v := by
        refine le_trans ?_ h.half_le
        rw [zpow_add₀ two_ne_zero, zpow_ofNat, ← cast_twoPow]
        gcongr
        rw [Nat.cast_add_one] at hmq
        linarith
      have := exponent_lt hle hbelow
      omega
    refine Or.inr ⟨hpower, hleast, ?_⟩
    have hle : 2 ^ (51 + q) ≤ v := by
      refine le_trans ?_ h.half_le
      rw [zpow_add₀ two_ne_zero, hpower, cast_twoPow]
      gcongr
      norm_num
    have := exponent_lt hle hbelow
    omega

/-- **A fraction near a double is rounded to it.** -/
theorem ofFraction_of_near {n d m : Nat} {q : Int} (hm : Normal m q) (hpos : 0 < m) (hd : 0 < d)
    (h : Near m q ((n : ℚ) / d)) (s : Bool) :
    ofFraction s n d = assemble s (encodeMagnitude m q) := by
  have hone : (1 : ℚ) ≤ m := by exact_mod_cast hpos
  have hn : 0 < n := by
    have hvalue : 0 < (n : ℚ) / d := lt_of_lt_of_le (by
      have : (0 : ℚ) < 2 ^ q := by positivity
      nlinarith) h.half_le
    rw [div_pos_iff_of_pos_right (by exact_mod_cast hd)] at hvalue
    exact_mod_cast hvalue
  obtain ⟨p, hfull, hbelow, hround⟩ := exists_ofFraction s hn hd
  rw [hround]
  rcases exponent_of_near hm h hfull hbelow with hsame | ⟨rfl, hleast, rfl⟩
  · rw [hsame, divNearest_scaleFraction hd h.half_le h.upper]
    intro hodd
    refine ⟨lt_of_le_of_lt ?_ (h.ends hodd).1, (h.ends hodd).2⟩
    gcongr
    exact reachBelow_le m q
  · -- the unit is half of that of the power of two, and the significand is carried over
    have hreach : reachBelow (twoPow 52) q = 1 / 4 := if_pos ⟨rfl, hleast⟩
    have hhalf : (2 : ℚ) ^ q = 2 * 2 ^ (q - 1) := by
      rw [← zpow_one_add₀ two_ne_zero]
      congr 1
      omega
    have hlower := h.lower
    rw [hreach, hhalf, cast_twoPow] at hlower
    rw [zpow_add₀ two_ne_zero] at hbelow
    rw [max_eq_left (by omega), divNearest_scaleFraction (m := twoPow 53) hd,
      encodeMagnitude_carry hm.greatest]
    · rw [cast_twoPow]
      linarith
    · rw [cast_twoPow]
      have hunit : (0 : ℚ) < 2 ^ (q - 1) := by positivity
      norm_cast at hbelow ⊢
      linarith
    · exact fun hodd => absurd hodd (by decide)

end Binary64

/-! ### Decimal numerals -/

namespace Literal

open Binary64

/-- Three binary digits are less than a decimal one. -/
theorem two_zpow_le_ten_zpow {a k : Int} (hk : 0 ≤ k) (h : a ≤ 3 * k) : (2 : ℚ) ^ a ≤ 10 ^ k := by
  obtain ⟨n, rfl⟩ := Int.eq_ofNat_of_zero_le hk
  calc (2 : ℚ) ^ a ≤ 2 ^ (3 * (n : Int)) := zpow_le_zpow_right₀ one_le_two h
    _ = 8 ^ n := by rw [zpow_mul, zpow_natCast]; norm_num
    _ ≤ 10 ^ n := by gcongr; norm_num
    _ = 10 ^ (n : Int) := (zpow_natCast 10 n).symm

theorem ten_zpow_le_two_zpow {a k : Int} (hk : k ≤ 0) (h : 3 * k ≤ a) : (10 : ℚ) ^ k ≤ 2 ^ a := by
  have hle := two_zpow_le_ten_zpow (a := -a) (k := -k) (by omega) (by omega)
  rw [zpow_neg, zpow_neg] at hle
  exact (inv_le_inv₀ (by positivity) (by positivity)).1 hle

/-- Numbers near a double lie within the range of doubles. -/
theorem bounds_of_near {m : Nat} {q : Int} {v : ℚ} (hm : Normal m q) (hpos : 0 < m)
    (h : Near m q v) : 2 ^ (-1075 : Int) ≤ v ∧ v < 2 ^ (1024 : Int) := by
  have hone : (1 : ℚ) ≤ m := by exact_mod_cast hpos
  constructor
  · have hsplit : (2 : ℚ) ^ (-1075 : Int) = 2 ^ (-1 : Int) * 2 ^ (-1074 : Int) := by
      rw [← zpow_add₀ two_ne_zero]
      rfl
    calc (2 : ℚ) ^ (-1075 : Int) = 2 ^ (-1 : Int) * 2 ^ (-1074 : Int) := hsplit
      _ ≤ ((m : ℚ) - 1 / 2) * 2 ^ q := by
        have hq : (2 : ℚ) ^ (-1074 : Int) ≤ 2 ^ q := zpow_le_zpow_right₀ one_le_two hm.least
        have hhalf : (2 : ℚ) ^ (-1 : Int) ≤ (m : ℚ) - 1 / 2 := by
          rw [zpow_neg_one]
          linarith
        gcongr
      _ ≤ v := h.half_le
  · have hmq : ((m + 1 : Nat) : ℚ) ≤ (twoPow 53 : Nat) := Nat.cast_le.2 hm.lt
    rw [Nat.cast_add_one, cast_twoPow] at hmq
    calc v ≤ ((m : ℚ) + 1 / 2) * 2 ^ q := h.upper
      _ < 2 ^ 53 * 2 ^ q := by
        gcongr
        linarith
      _ ≤ 2 ^ (53 : Int) * 2 ^ (971 : Int) := by
        have hq : (2 : ℚ) ^ q ≤ 2 ^ (971 : Int) := zpow_le_zpow_right₀ one_le_two hm.greatest
        gcongr
        exact le_rfl
      _ = 2 ^ (1024 : Int) := (zpow_add₀ two_ne_zero _ _).symm

/-- A decimal numeral near a double is neither so small nor so large that its power is not formed. -/
theorem moderate_of_near {n m : Nat} {e q : Int} (hm : Normal m q) (hpos : 0 < m)
    (h : Near m q ((n : ℚ) * 10 ^ e)) :
    n ≠ 0 ∧ -800 ≤ (Nat.log2 n : Int) / 3 + e ∧ e ≤ 800 := by
  obtain ⟨hlower, hupper⟩ := bounds_of_near hm hpos h
  have hten : (0 : ℚ) < 10 ^ e := by positivity
  have hn : n ≠ 0 := by
    rintro rfl
    rw [Nat.cast_zero, zero_mul] at hlower
    exact absurd hlower (not_le.2 (by positivity))
  have hone : (1 : ℚ) ≤ n := by exact_mod_cast Nat.one_le_iff_ne_zero.2 hn
  refine ⟨hn, not_lt.1 fun hsmall => ?_, not_lt.1 fun hlarge => ?_⟩
  · have hdigits : (n : ℚ) < 10 ^ ((Nat.log2 n : Int) / 3 + 1) := by
      have hlog : (n : ℚ) < 2 ^ (Nat.log2 n + 1) := by exact_mod_cast Nat.lt_log2_self
      refine lt_of_lt_of_le hlog ?_
      rw [← zpow_natCast]
      exact two_zpow_le_ten_zpow (by omega) (by omega)
    have hless : (n : ℚ) * 10 ^ e < 2 ^ (-1075 : Int) := by
      calc (n : ℚ) * 10 ^ e < 10 ^ ((Nat.log2 n : Int) / 3 + 1) * 10 ^ e := by gcongr
        _ = 10 ^ ((Nat.log2 n : Int) / 3 + 1 + e) := (zpow_add₀ (by norm_num) _ _).symm
        _ ≤ 10 ^ (-800 : Int) := zpow_le_zpow_right₀ (by norm_num) (by omega)
        _ ≤ 2 ^ (-1075 : Int) := ten_zpow_le_two_zpow (by omega) (by omega)
    exact absurd hlower (not_le.2 hless)
  · have hmore : (2 : ℚ) ^ (1024 : Int) ≤ n * 10 ^ e := by
      calc (2 : ℚ) ^ (1024 : Int) ≤ 10 ^ e := two_zpow_le_ten_zpow (by omega) (by omega)
        _ ≤ n * 10 ^ e := le_mul_of_one_le_left hten.le hone
    exact absurd hupper (not_lt.2 hmore)

/-- **A decimal numeral near a double is read as it.** -/
theorem scaledByTen_of_near {n m : Nat} {e q : Int} (hm : Normal m q) (hpos : 0 < m)
    (h : Near m q ((n : ℚ) * 10 ^ e)) (s : Bool) :
    scaledByTen s n e = assemble s (encodeMagnitude m q) := by
  obtain ⟨hn, hsmall, hlarge⟩ := moderate_of_near hm hpos h
  unfold scaledByTen
  dsimp only
  rw [if_neg (not_or.2 ⟨hn, by omega⟩), if_neg (by omega)]
  split
  · next he =>
      obtain ⟨k, rfl⟩ := Int.eq_ofNat_of_zero_le he
      apply ofFraction_of_near hm hpos Nat.one_pos
      rwa [Nat.cast_one, div_one, Nat.cast_mul, cast_tenPow, Int.toNat_natCast, ← zpow_natCast]
  · next he =>
      obtain ⟨k, hk⟩ := Int.eq_ofNat_of_zero_le (show 0 ≤ -e by omega)
      obtain rfl : e = -(k : Int) := by omega
      apply ofFraction_of_near hm hpos (tenPow_pos _)
      rwa [cast_tenPow, Int.neg_neg, Int.toNat_natCast, div_eq_mul_inv, ← zpow_natCast, ← zpow_neg]

end Literal

end MixedInteger
