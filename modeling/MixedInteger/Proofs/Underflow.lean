/-
**Products of doubles that become zero.**

The product of two doubles is rounded, and so it may be zero although neither factor is.  Then the factors
are tiny: the exact product is at most half the least positive double.

Main definitions:

* `MixedInteger.Binary64.Shifted` — what is kept of a whole number when its last digits are dropped;
* `MixedInteger.Binary64.HasSize` — the exact absolute value of a double;
* `MixedInteger.Binary64.Underflows` — two factors, and that their product is rounded to zero.

Main results:

* `MixedInteger.Binary64.le_of_roundWithAccuracy_eq_zero` — what is rounded to zero;
* `MixedInteger.Binary64.underflows_of_mul` — **the factors of a product that becomes zero are tiny**;
* `MixedInteger.Binary64.mul_neg_one_ne_zero` — an opposite does not become zero.
-/

import MixedInteger.Proofs.Bits

set_option autoImplicit false

namespace MixedInteger.Binary64

open Float.Model (Format UnpackedFloat totalExponent)
open Float.Model.UnpackedFloat

/-! ### Dropping digits -/

/-- What is kept of `n` when its last `k` binary digits are dropped: the others, the first one that is
dropped, and whether there is a one behind it. -/
structure Shifted (n k : ℕ) (em : ExtendedMantissa) : Prop where
  mantissa : em.mantissa = n / 2 ^ k
  roundBit : em.roundBit = true ↔ 2 ^ k ≤ 2 * (n % 2 ^ k)
  stickyBit : em.stickyBit = false ↔ n % 2 ^ k = 0 ∨ 2 * (n % 2 ^ k) = 2 ^ k

theorem Shifted.shiftRightOne {n k : ℕ} {em : ExtendedMantissa} (h : Shifted n k em) :
    Shifted n (k + 1) em.shiftRightOne := by
  have hlt : n % 2 ^ k < 2 ^ k := Nat.mod_lt _ (Nat.two_pow_pos k)
  have hmod : n % 2 ^ (k + 1) = n % 2 ^ k + 2 ^ k * (em.mantissa % 2) := by
    rw [h.mantissa, Nat.pow_succ, Nat.mod_mul]
  have hpow : 2 ^ (k + 1) = 2 * 2 ^ k := by rw [Nat.pow_succ, Nat.mul_comm]
  have hbit : em.mantissa % 2 = 0 ∨ em.mantissa % 2 = 1 := Nat.mod_two_eq_zero_or_one _
  refine ⟨?_, ?_, ?_⟩
  · change em.mantissa / 2 = _
    rw [h.mantissa, Nat.div_div_eq_div_mul, Nat.pow_succ]
  · change (em.mantissa % 2 != 0) = true ↔ _
    rw [hmod, hpow]
    rcases hbit with hbit | hbit
    all_goals simp [hbit]
    all_goals omega
  · change (em.roundBit || em.stickyBit) = false ↔ _
    rw [Bool.or_eq_false_iff, h.stickyBit, Bool.eq_false_iff, Ne, h.roundBit, hmod, hpow]
    rcases hbit with hbit | hbit
    all_goals simp only [hbit, Nat.mul_zero, Nat.mul_one]
    all_goals omega

/-- Dropping digits one by one. -/
theorem shifted_shiftRight (n k : ℕ) :
    Shifted n k (ExtendedMantissa.ofMantissaAndAccuracy n .exact >>> k) := by
  induction k with
  | zero =>
      change Shifted n 0 ⟨n, false, false⟩
      constructor <;> simp [Nat.mod_one]
  | succ k ih => exact ih.shiftRightOne

/-- If what is left is rounded to zero, at most a half was dropped. -/
theorem Shifted.two_mul_le {n k : ℕ} {em : ExtendedMantissa} (h : Shifted n k em)
    (hzero : em.roundedMantissa = 0) : 2 * n ≤ 2 ^ k := by
  obtain ⟨m, r, s⟩ := em
  obtain ⟨rfl, hbits⟩ : m = 0 ∧ (r = true → s = false) := by
    cases r <;> cases s <;>
      simp_all [ExtendedMantissa.roundedMantissa, ExtendedMantissa.accuracy,
        Accuracy.roundToNearestEven]
  have hlt : n < 2 ^ k := (Nat.div_eq_zero_iff_lt (Nat.two_pow_pos k)).1 h.mantissa.symm
  have hround := h.roundBit
  have hsticky := h.stickyBit
  rw [Nat.mod_eq_of_lt hlt] at hround hsticky
  by_contra hgt
  rcases hsticky.1 (hbits (hround.2 (by omega))) with hn | hn <;> omega

/-! ### Rounding to zero -/

/-- By how many digits a significand is shortened: it keeps 53 at most, and its exponent becomes at least
the least one. -/
theorem shiftToTargetExponent_eq (n : ℕ) (e : ℤ) : ∃ k : ℕ,
    shiftToTargetExponent Format.binary64 n e .exact =
        (ExtendedMantissa.ofMantissaAndAccuracy n .exact >>> k, e + k) ∧
      (k : ℤ) = max (max ((n.log2 : ℤ) - 52) (-1074 - e)) 0 := by
  refine ⟨_, rfl, ?_⟩
  simp only [Format.targetExponent, totalExponent, Format.mantissaBits, Format.minExponent]
  omega

/-- The two steps of a rounding: the significand is shortened and rounded, and if this makes it too long,
it is shortened again. -/
theorem roundWithAccuracy_eq (s : Sign) (n : ℕ) (e : ℤ) : ∃ (k j : ℕ) (em : ExtendedMantissa),
    Shifted n k em ∧ (k : ℤ) = max (max ((n.log2 : ℤ) - 52) (-1074 - e)) 0 ∧
      (j : ℤ) = max (max ((em.roundedMantissa.log2 : ℤ) - 52) (-1074 - (e + k))) 0 ∧
      roundWithAccuracy Format.binary64 s n e .exact =
        if h : em.roundedMantissa / 2 ^ j = 0 then .zero s
        else .finite s (em.roundedMantissa / 2 ^ j) (e + k + j) (Nat.pos_of_ne_zero h) := by
  obtain ⟨k, hfirst, hk⟩ := shiftToTargetExponent_eq n e
  obtain ⟨j, hsecond, hj⟩ := shiftToTargetExponent_eq
    (ExtendedMantissa.ofMantissaAndAccuracy n .exact >>> k).roundedMantissa (e + k)
  refine ⟨k, j, _, shifted_shiftRight n k, hk, hj, ?_⟩
  simp only [roundWithAccuracy, hfirst, hsecond, (shifted_shiftRight _ j).mantissa]

/-- What is rounded to zero is at most half the least positive double. -/
theorem le_of_roundWithAccuracy_eq_zero {s t : Sign} {n : ℕ} {e : ℤ} (hn : 0 < n)
    (h : roundWithAccuracy Format.binary64 s n e .exact = .zero t) :
    (n : ℚ) * 2 ^ e ≤ 2 ^ (-1075 : ℤ) := by
  obtain ⟨k, j, em, hshifted, hk, hj, hround⟩ := roundWithAccuracy_eq s n e
  rw [hround] at h
  split at h
  · next hzero =>
      -- a significand that is not zero is not shortened to nothing
      have hrounded : em.roundedMantissa = 0 := by
        by_contra hne
        have hlt := (Nat.div_eq_zero_iff_lt (Nat.two_pow_pos j)).1 hzero
        have hlog := (Nat.log2_lt hne).2 hlt
        omega
      have htwice := hshifted.two_mul_le hrounded
      have hlog : n.log2 < k := (Nat.log2_lt hn.ne').2 (by omega)
      have hexponent : e + k = -1074 := by omega
      have hcast : 2 * (n : ℚ) ≤ 2 ^ (k : ℤ) := by exact_mod_cast htwice
      calc (n : ℚ) * 2 ^ e = 2 * n * 2 ^ (e - 1) := by
            rw [zpow_sub_one₀ (by norm_num)]
            ring
        _ ≤ 2 ^ (k : ℤ) * 2 ^ (e - 1) := by gcongr
        _ = 2 ^ (-1075 : ℤ) := by
            rw [← zpow_add₀ (by norm_num)]
            congr 1
            omega
  · cases h

/-- What is rounded otherwise has a significand and an exponent as doubles have, but for the greatest
exponent. -/
theorem bounds_of_roundWithAccuracy_eq_finite {s t : Sign} {n m : ℕ} {e q : ℤ} {hm : 0 < m}
    (h : roundWithAccuracy Format.binary64 s n e .exact = .finite t m q hm) :
    m < 2 ^ 53 ∧ -1074 ≤ q := by
  obtain ⟨k, j, em, hshifted, hk, hj, hround⟩ := roundWithAccuracy_eq s n e
  rw [hround] at h
  split at h
  · cases h
  · cases h
    refine ⟨?_, by omega⟩
    rw [Nat.div_lt_iff_lt_mul (Nat.two_pow_pos j), ← Nat.pow_add]
    exact Nat.lt_log2_self.trans_le (Nat.pow_le_pow_right (by norm_num) (by omega))

/-! ### Zero among the doubles -/

/-- A double equals zero if it is a zero of either sign. -/
theorem beq_zero_iff (x : Float) : (x == 0) = true ↔ ∃ s, x.toModel.unpack = .zero s := by
  have hzero : (0 : Float).toModel.unpack = .zero .positive := rfl
  change (x.toModel.unpack.compare (0 : Float).toModel.unpack == some .eq) = true ↔ _
  rw [hzero]
  cases x.toModel.unpack with
  | notANumber => simp [UnpackedFloat.compare]
  | infinity s => cases s <;> simp [UnpackedFloat.compare]
  | zero s => simp [UnpackedFloat.compare]
  | finite s m e h => cases s <;> simp [UnpackedFloat.compare]

/-- The exact absolute value of a double is `v`. -/
def HasSize (x : Float) (v : ℚ) : Prop :=
  ∃ s m q, ofFloat x = finite s m q ∧ v = m * 2 ^ q

/-- What is unpacked as finite is decoded as finite. -/
theorem ofFloat_of_unpack {x : Float} {s : Sign} {m : ℕ} {q : ℤ} {hm : 0 < m}
    (h : x.toModel.unpack = .finite s m q hm) : ∃ t, ofFloat x = finite t m q :=
  ⟨_, by rw [ofFloat_eq_decode, h, decode]⟩

/-- A finite value with the significand and exponent of a double is not packed into a zero. -/
theorem unpack_pack_finite_ne_zero {s t : Sign} {m : ℕ} {q : ℤ} {hm : 0 < m} (hlt : m < 2 ^ 53)
    (hq : -1074 ≤ q) :
    unpack Format.binary64 (pack Format.binary64 (.finite s m q hm)) ≠ .zero t := by
  -- a normal significand has a biased exponent, and a short one is the fraction itself
  have hcomponents : ∀ (e : BitVec 11) (f : BitVec 52), e ≠ 0#11 ∨ f ≠ 0#52 →
      unpack Format.binary64 (packComponents Format.binary64 s e f) ≠ .zero t := by
    intro e f hne h
    unfold unpack at h
    simp only [unpackMantissa_packComponents, unpackExponent_packComponents] at h
    split at h
    · split at h <;> cases h
    · split at h
      · next he =>
          split at h
          · next hf => exact hne.elim (fun hne => hne he) (fun hne => hne hf)
          · cases h
      · cases h
  unfold pack
  dsimp only
  split
  · exact hcomponents _ _ (Or.inl (by decide))
  · next hsmall =>
      split
      · refine hcomponents _ _ (Or.inl fun hzero => ?_)
        have hbiased := congrArg BitVec.toNat hzero
        rw [BitVec.toNat_ofNat] at hbiased
        change (q + 1023 + 52).toNat % 2048 = 0 at hbiased
        change ¬ 2048 ≤ (q + 1023 + 52).toNat + 1 at hsmall
        omega
      · next hlength =>
          refine hcomponents _ _ (Or.inr fun hzero => ?_)
          have hm' := congrArg BitVec.toNat hzero
          rw [BitVec.toNat_ofNat] at hm'
          change m % 2 ^ 52 = 0 at hm'
          change ¬ m.log2 + 1 = 53 at hlength
          have hlog : m.log2 < 53 := (Nat.log2_lt hm.ne').2 hlt
          have hshort : m < 2 ^ 52 := (Nat.log2_lt hm.ne').1 (by omega)
          rw [Nat.mod_eq_of_lt hshort] at hm'
          omega

/-- What is rounded and packed into a zero was rounded to zero. -/
theorem eq_zero_of_pack_roundWithAccuracy {s t : Sign} {n : ℕ} {e : ℤ}
    (h : unpack Format.binary64 (pack Format.binary64
      (roundWithAccuracy Format.binary64 s n e .exact)) = .zero t) :
    roundWithAccuracy Format.binary64 s n e .exact = .zero s := by
  obtain ⟨k, j, em, -, -, -, hround⟩ := roundWithAccuracy_eq s n e
  split at hround
  · exact hround
  · next hpos =>
      obtain ⟨hlt, hleast⟩ := bounds_of_roundWithAccuracy_eq_finite hround
      rw [hround] at h
      exact absurd h (unpack_pack_finite_ne_zero hlt hleast)

/-- If the product of two factors that are not zero is packed into a zero, both are finite. -/
theorem finite_of_mul {u v : UnpackedFloat} {s : Sign} (hu : ∀ t, u ≠ .zero t)
    (hv : ∀ t, v ≠ .zero t)
    (h : unpack Format.binary64 (pack Format.binary64 (mul Format.binary64 u v)) = .zero s) :
    (∃ t m q hm, u = .finite t m q hm) ∧ ∃ t n p hn, v = .finite t n p hn := by
  have hinfinity : ∀ t, unpack Format.binary64 (pack Format.binary64 (.infinity t)) ≠ .zero s := by
    intro t ht
    cases t <;> cases ht
  have hnotANumber : unpack Format.binary64 (pack Format.binary64 .notANumber) ≠ .zero s := by
    intro ht
    cases ht
  cases u with
  | zero t => exact absurd rfl (hu t)
  | notANumber => exact absurd h hnotANumber
  | infinity t =>
      cases v with
      | zero t' => exact absurd rfl (hv t')
      | notANumber => exact absurd h hnotANumber
      | infinity t' => exact absurd h (hinfinity _)
      | finite t' n p hn => exact absurd h (hinfinity _)
  | finite t m q hm =>
      cases v with
      | zero t' => exact absurd rfl (hv t')
      | notANumber => exact absurd h hnotANumber
      | infinity t' => exact absurd h (hinfinity _)
      | finite t' n p hn => exact ⟨⟨t, m, q, hm, rfl⟩, t', n, p, hn, rfl⟩

/-- Two doubles, neither of them zero, have a product that is rounded to zero: it is at most half the least
positive double. -/
structure Underflows (x y : Float) : Prop where
  left : (x == 0) = false
  right : (y == 0) = false
  product : (x * y == 0) = true
  small : ∃ v w, HasSize x v ∧ HasSize y w ∧ v * w ≤ 2 ^ (-1075 : ℤ)

/-- **The factors of a product that becomes zero are tiny.** -/
theorem underflows_of_mul {x y : Float} (hx : (x == 0) = false) (hy : (y == 0) = false)
    (h : (x * y == 0) = true) : Underflows x y := by
  refine ⟨hx, hy, h, ?_⟩
  have hfactor : ∀ {z : Float}, (z == 0) = false → ∀ t, z.toModel.unpack ≠ .zero t := by
    intro z hz t hunpack
    rw [(beq_zero_iff z).2 ⟨t, hunpack⟩] at hz
    cases hz
  obtain ⟨s, hzero⟩ := (beq_zero_iff _).1 h
  change unpack Format.binary64 (pack Format.binary64
    (mul Format.binary64 x.toModel.unpack y.toModel.unpack)) = .zero s at hzero
  obtain ⟨⟨t, m, q, hm, hux⟩, t', n, p, hn, huy⟩ := finite_of_mul (hfactor hx) (hfactor hy) hzero
  obtain ⟨_, hx⟩ := ofFloat_of_unpack hux
  obtain ⟨_, hy⟩ := ofFloat_of_unpack huy
  refine ⟨_, _, ⟨_, m, q, hx, rfl⟩, ⟨_, n, p, hy, rfl⟩, ?_⟩
  rw [hux, huy] at hzero
  have hround := eq_zero_of_pack_roundWithAccuracy (n := m * n) (e := q + p) (s := t * t') hzero
  calc (m : ℚ) * 2 ^ q * (n * 2 ^ p) = ((m * n : ℕ) : ℚ) * 2 ^ (q + p) := by
        rw [zpow_add₀ (by norm_num), Nat.cast_mul]
        ring
    _ ≤ 2 ^ (-1075 : ℤ) := le_of_roundWithAccuracy_eq_zero (Nat.mul_pos hm hn) hround

/-- A double that is not zero is at least as large as the least positive one. -/
theorem HasSize.least_le {x : Float} {v : ℚ} (h : HasSize x v) (hx : (x == 0) = false) :
    2 ^ (-1074 : ℤ) ≤ v := by
  obtain ⟨s, m, q, hdecoded, rfl⟩ := h
  obtain ⟨hnormal, rfl⟩ := eq_assemble_of_ofFloat hdecoded
  have hm : m ≠ 0 := by
    rintro rfl
    rw [encodeMagnitude_of_lt q (twoPow_pos 52)] at hx
    cases s <;> exact absurd hx (by decide +kernel)
  have hone : (1 : ℚ) ≤ m := by exact_mod_cast Nat.one_le_iff_ne_zero.2 hm
  calc (2 : ℚ) ^ (-1074 : ℤ) ≤ 2 ^ q := zpow_le_zpow_right₀ (by norm_num) hnormal.least
    _ ≤ m * 2 ^ q := le_mul_of_one_le_left (by positivity) hone

/-- The opposite of a double that is not zero is not zero. -/
theorem mul_neg_one_ne_zero {x : Float} (hx : (x == 0) = false) : (x * -1 == 0) = false := by
  rw [Bool.eq_false_iff]
  intro h
  obtain ⟨v, w, hv, ⟨s, n, p, hone, rfl⟩, hle⟩ := (underflows_of_mul hx (by decide +kernel) h).small
  have hdecoded : ofFloat (-1) = finite true (twoPow 52) (-52) := by decide +kernel
  rw [hdecoded] at hone
  cases hone
  have hsize : (twoPow 52 : ℚ) * 2 ^ (-52 : ℤ) = 1 := by
    rw [cast_twoPow]
    norm_num
  rw [hsize, mul_one] at hle
  have hlt : (2 : ℚ) ^ (-1075 : ℤ) < 2 ^ (-1074 : ℤ) :=
    zpow_lt_zpow_right₀ (by norm_num) (by norm_num)
  exact absurd ((hv.least_le hx).trans hle) (not_le.2 hlt)

end MixedInteger.Binary64
