/-
**Doubles and their bits.**

A double is decoded into a sign, a significand and an exponent, or found to be infinite or no number at
all.  Nothing is lost by it: what is decoded can be put together again, and there is one value only that
is no number.

Main definitions:

* `MixedInteger.Binary64.decode` — what an unpacked double is decoded into.

Main results:

* `MixedInteger.Binary64.isNaN_of_ofFloat_eq_nan` — what is decoded as no number is none;
* `MixedInteger.Binary64.eq_of_ofFloat_infinite` — what is decoded as infinite is an infinity;
* `MixedInteger.Binary64.eq_assemble_of_ofFloat` — **a double is put together again from what it is decoded
  into**;
* `MixedInteger.Binary64.ofFloat_eq_decode` — to unpack a double and to decode it comes to the same;
* `MixedInteger.Binary64.ofFloat_assemble` — what is put together is decoded again.
-/

import Mathlib
import MixedInteger.Proofs.Nearest

set_option autoImplicit false

namespace MixedInteger.Binary64

open Float.Model in
/-- Bits that are decoded as not-a-number are those of a value that is not a number. -/
theorem isNaN_of_ofFloat_eq_nan {x : Float} (h : ofFloat x = nan) : x.isNaN = true := by
  have hbits : x.toBits.toNat / twoPow 52 % twoPow 11 = 2047 ∧ x.toBits.toNat % twoPow 52 ≠ 0 := by
    unfold ofFloat ofBits at h
    dsimp only at h
    split at h
    · next hbiased =>
        split at h
        · cases h
        · next hfraction => exact ⟨hbiased, hfraction⟩
    · split at h <;> cases h
  have hnan : x.toBits.toBitVec = UnpackedFloat.packedNaN Format.binary64 := by
    apply x.toModel.valid.eq_packedNaN
    · apply BitVec.eq_of_toNat_eq
      rw [UnpackedFloat.unpackExponent_def, BitVec.extractLsb'_toNat, Nat.shiftRight_eq_div_pow]
      exact hbits.1
    · intro hzero
      have hfraction := congrArg BitVec.toNat hzero
      rw [UnpackedFloat.unpackMantissa_def, BitVec.extractLsb'_toNat,
        Nat.shiftRight_eq_div_pow, Nat.pow_zero, Nat.div_one] at hfraction
      exact hbits.2 hfraction
  exact (UnpackedFloat.isNaN_unpack_iff_of_valid x.toModel.valid).2 hnan

/-- A double is put together from the bits that it has. -/
theorem eq_assemble {x : Float} {s : Bool} {magnitude : Nat}
    (h : x.toBits.toNat = (if s then twoPow 63 else 0) + magnitude) : x = assemble s magnitude := by
  rw [assemble, ← h, UInt64.ofNat_toNat, Float.ofBits_toBits]

/-- The three fields of a double, and what it is decoded into. -/
theorem fields_of_ofFloat (x : Float) : ∃ (s : Bool) (biased fraction : Nat),
    x.toBits.toNat = (if s then twoPow 63 else 0) + (biased * twoPow 52 + fraction) ∧
      biased < twoPow 11 ∧ fraction < twoPow 52 ∧
      ofFloat x = if biased = 2047 then (if fraction = 0 then infinite s else nan)
        else if biased = 0 then finite s fraction (-1074)
        else finite s (twoPow 52 + fraction) ((biased : Int) - 1075) := by
  have hlt : x.toBits.toNat < twoPow 64 := x.toBits.toNat_lt
  refine ⟨decide (x.toBits.toNat / twoPow 63 % 2 = 1), x.toBits.toNat / twoPow 52 % twoPow 11,
    x.toBits.toNat % twoPow 52, ?_, Nat.mod_lt _ (twoPow_pos 11), Nat.mod_lt _ (twoPow_pos 52), rfl⟩
  have hsplit : ∀ b < 18446744073709551616, b = b / 9223372036854775808 % 2 * 9223372036854775808 +
      (b / 4503599627370496 % 2048 * 4503599627370496 + b % 4503599627370496) := by omega
  refine (hsplit _ hlt).trans (congrArg (· + _) ?_)
  by_cases hsign : x.toBits.toNat / twoPow 63 % 2 = 1
  · rw [decide_eq_true hsign, if_pos rfl]
    exact (congrArg (· * 9223372036854775808) hsign).trans (Nat.one_mul _)
  · have hzero : x.toBits.toNat / twoPow 63 % 2 = 0 := (Nat.mod_two_eq_zero_or_one _).resolve_right hsign
    rw [decide_eq_false hsign, if_neg Bool.false_ne_true]
    exact (congrArg (· * 9223372036854775808) hzero).trans (Nat.zero_mul _)

/-- A double is put together again from what it is decoded into. -/
theorem eq_assemble_of_ofFloat {x : Float} {s : Bool} {m : Nat} {q : Int}
    (h : ofFloat x = finite s m q) : Normal m q ∧ x = assemble s (encodeMagnitude m q) := by
  obtain ⟨s', biased, fraction, hbits, hbiased, hfraction, hx⟩ := fields_of_ofFloat x
  have hbiased : biased < 2048 := hbiased
  rw [hx] at h
  split at h
  · split at h <;> cases h
  · next hfinite =>
      split at h
      · next hzero =>
          cases h
          refine ⟨⟨?_, by omega, by omega, Or.inl rfl⟩, eq_assemble ?_⟩
          · exact Nat.lt_trans hfraction (by decide)
          · rw [hbits, hzero, Nat.zero_mul, Nat.zero_add, encodeMagnitude_of_lt _ hfraction]
      · next hzero =>
          cases h
          have hlt : twoPow 52 + fraction < twoPow 53 := Nat.add_lt_add_left hfraction (twoPow 52)
          refine ⟨⟨hlt, by omega, by omega, Or.inr (Nat.le_add_right _ _)⟩, eq_assemble ?_⟩
          rw [hbits, encodeMagnitude_of_full (Nat.le_add_right _ _) hlt (by omega),
            Nat.add_sub_cancel_left]
          have hexponent : ((biased : Int) - 1075 + 1075).toNat = biased := by omega
          rw [hexponent]

/-- An infinite double. -/
theorem eq_of_ofFloat_infinite {x : Float} {s : Bool} (h : ofFloat x = infinite s) :
    x = if s then -1.0 / 0.0 else 1.0 / 0.0 := by
  obtain ⟨s', biased, fraction, hbits, -, -, hx⟩ := fields_of_ofFloat x
  rw [hx] at h
  split at h
  · next hinfinite =>
      split at h
      · next hzero =>
          cases h
          rw [hinfinite, hzero] at hbits
          rw [eq_assemble hbits]
          cases s <;> decide +kernel
      · cases h
  · split at h <;> cases h

/-! ### Unpacking -/

open Float.Model (Format UnpackedFloat)
open Float.Model.UnpackedFloat

/-- The three fields of a double as they are unpacked, and what it is decoded into. -/
theorem fields_of_unpack (x : Float) : ∃ (s : Bool) (biased fraction : Nat),
    (Sign.ofBitVec (@unpackSign Format.binary64 x.toModel.toBits.toBitVec) == .negative) = s ∧
      (@unpackExponent Format.binary64 x.toModel.toBits.toBitVec).toNat = biased ∧
      (@unpackMantissa Format.binary64 x.toModel.toBits.toBitVec).toNat = fraction ∧
      ofFloat x = if biased = 2047 then (if fraction = 0 then infinite s else nan)
        else if biased = 0 then finite s fraction (-1074)
        else finite s (twoPow 52 + fraction) ((biased : Int) - 1075) := by
  obtain ⟨s, biased, fraction, hbits, hbiased, hfraction, hx⟩ := fields_of_ofFloat x
  have hbiased : biased < 2048 := hbiased
  have hfraction : fraction < 4503599627370496 := hfraction
  have hbits : x.toBits.toNat = (if s then 1 else 0) * 9223372036854775808 +
      (biased * 4503599627370496 + fraction) := by
    rw [hbits]
    cases s <;> rfl
  refine ⟨s, biased, fraction, ?_, ?_, ?_, hx⟩
  · have hbit : (@unpackSign Format.binary64 x.toModel.toBits.toBitVec).toNat = if s then 1 else 0 := by
      rw [unpackSign_def, BitVec.extractLsb'_toNat, Nat.shiftRight_eq_div_pow]
      change x.toBits.toNat / 9223372036854775808 % 2 = _
      rw [hbits]
      split <;> omega
    rw [show unpackSign _ = if s then 1#1 else 0#1 from
      BitVec.eq_of_toNat_eq (hbit.trans (by cases s <;> rfl))]
    cases s <;> rfl
  · rw [unpackExponent_def, BitVec.extractLsb'_toNat, Nat.shiftRight_eq_div_pow]
    change x.toBits.toNat / 4503599627370496 % 2048 = biased
    rw [hbits]
    omega
  · rw [unpackMantissa_def, BitVec.extractLsb'_toNat, Nat.shiftRight_eq_div_pow]
    change x.toBits.toNat / 1 % 4503599627370496 = fraction
    rw [hbits]
    omega

/-- What an unpacked double is decoded into. -/
def decode : UnpackedFloat → Binary64
  | .notANumber => nan
  | .infinity s => infinite (s == .negative)
  | .zero s => finite (s == .negative) 0 (-1074)
  | .finite s m q _ => finite (s == .negative) m q

/-- To unpack a double and to decode it comes to the same. -/
theorem ofFloat_eq_decode (x : Float) : ofFloat x = decode x.toModel.unpack := by
  obtain ⟨s, biased, fraction, hsign, hexponent, hmantissa, hx⟩ := fields_of_unpack x
  have hexponent_iff : ∀ e : BitVec 11,
      @unpackExponent Format.binary64 x.toModel.toBits.toBitVec = e ↔ biased = e.toNat :=
    fun e => by rw [← hexponent]; exact BitVec.toNat_inj.symm
  have hmantissa_iff : @unpackMantissa Format.binary64 x.toModel.toBits.toBitVec = 0#52 ↔ fraction = 0 := by
    rw [← hmantissa]; exact BitVec.toNat_inj.symm
  rw [hx]
  unfold Float.Model.unpack unpack
  dsimp only
  by_cases hinfinite : biased = 2047
  · rw [if_pos hinfinite, if_pos ((hexponent_iff (-1#11)).2 hinfinite)]
    by_cases hzero : fraction = 0
    · rw [if_pos hzero, if_pos (hmantissa_iff.2 hzero), decode, hsign]
    · rw [if_neg hzero, if_neg fun h => hzero (hmantissa_iff.1 h), decode]
  · rw [if_neg hinfinite, if_neg fun h => hinfinite ((hexponent_iff (-1#11)).1 h)]
    by_cases hsubnormal : biased = 0
    · rw [if_pos hsubnormal, if_pos ((hexponent_iff 0#11).2 hsubnormal)]
      by_cases hzero : fraction = 0
      · rw [dif_pos (hmantissa_iff.2 hzero), decode, hsign, hzero]
      · rw [dif_neg fun h => hzero (hmantissa_iff.1 h), decode, hsign, hmantissa, hexponent, hsubnormal]
        rfl
    · have hfull : (1#1).toNat <<< 52 ||| fraction = twoPow 52 + fraction := by
        rw [← hmantissa]
        exact (Nat.two_pow_add_eq_or_of_lt (i := 52) (BitVec.isLt _) 1).symm
      rw [if_neg hsubnormal, if_neg fun h => hsubnormal ((hexponent_iff 0#11).1 h), decode, hsign,
        hexponent, BitVec.toNat_append, hmantissa, hfull]
      rfl

/-! ### Putting together -/

/-- Bits that are those of a number are kept. -/
theorem toBits_ofBits {b : UInt64} (h : b.toNat / twoPow 52 % twoPow 11 ≠ 2047) :
    (Float.ofBits b).toBits = b := by
  have hexponent : @unpackExponent Format.binary64 b.toBitVec ≠ -1#11 := by
    intro hinfinite
    refine h ?_
    have hnat := congrArg BitVec.toNat hinfinite
    rw [unpackExponent_def, BitVec.extractLsb'_toNat, Nat.shiftRight_eq_div_pow] at hnat
    exact hnat
  have hpack : pack Format.binary64 (unpack Format.binary64 b.toBitVec) = b.toBitVec := by
    rw [pack_unpack, if_neg]
    simp only [isNaNBits, decide_eq_true_eq, not_and]
    exact fun hinfinite => absurd hinfinite hexponent
  change (⟨pack Format.binary64 (unpack Format.binary64 b.toBitVec)⟩ : UInt64) = b
  rw [hpack]

/-- The fields of a finite double that is put together from them. -/
theorem ofFloat_assemble_fields {s : Bool} {biased fraction : Nat} (hbiased : biased < 2047)
    (hfraction : fraction < twoPow 52) :
    ofFloat (assemble s (biased * twoPow 52 + fraction)) =
      if biased = 0 then finite s fraction (-1074)
      else finite s (twoPow 52 + fraction) ((biased : Int) - 1075) := by
  have hfraction : fraction < 4503599627370496 := hfraction
  obtain ⟨b, hb⟩ : ∃ b, b = (if s then 1 else 0) * 9223372036854775808 +
      (biased * 4503599627370496 + fraction) := ⟨_, rfl⟩
  have hsign : (if s then 1 else 0) ≤ 1 := by split <;> omega
  have hlt : b < 18446744073709551616 := by omega
  have hword : (UInt64.ofNat b).toNat = b := UInt64.toNat_ofNat_of_lt' hlt
  have hassemble : assemble s (biased * twoPow 52 + fraction) = Float.ofBits (UInt64.ofNat b) := by
    rw [assemble, hb]
    cases s <;> rfl
  have h52 : b / 4503599627370496 % 2048 = biased := by omega
  have hmod : b % 4503599627370496 = fraction := by omega
  have h63 : decide (b / 9223372036854775808 % 2 = 1) = s := by
    cases s
    · exact decide_eq_false (by simp at hb; omega)
    · exact decide_eq_true (by simp at hb; omega)
  have hbits : (Float.ofBits (UInt64.ofNat b)).toBits.toNat = b := by
    rw [toBits_ofBits, hword]
    rw [hword]
    change b / 4503599627370496 % 2048 ≠ 2047
    omega
  rw [hassemble, ofFloat, hbits]
  unfold ofBits
  change (if b / 4503599627370496 % 2048 = 2047 then _
    else if b / 4503599627370496 % 2048 = 0 then
      finite (decide (b / 9223372036854775808 % 2 = 1)) (b % 4503599627370496) (-1074)
    else finite (decide (b / 9223372036854775808 % 2 = 1)) (twoPow 52 + b % 4503599627370496)
      (((b / 4503599627370496 % 2048 : Nat) : Int) - 1075)) = _
  rw [h52, hmod, h63, if_neg (by omega)]

/-- What a significand and an exponent are put together to is decoded into them again. -/
theorem ofFloat_assemble {s : Bool} {m : Nat} {q : Int} (h : Normal m q) :
    ofFloat (assemble s (encodeMagnitude m q)) = finite s m q := by
  have hleast := h.least
  have hgreatest := h.greatest
  by_cases hlt : m < twoPow 52
  · obtain rfl : q = -1074 := h.full.resolve_right (Nat.not_le.2 hlt)
    have hfields := @ofFloat_assemble_fields s 0 m (by decide) hlt
    rw [Nat.zero_mul, Nat.zero_add, if_pos rfl] at hfields
    rw [encodeMagnitude_of_lt _ hlt, hfields]
  · have hfull : twoPow 52 ≤ m := Nat.not_lt.1 hlt
    have hm : m - twoPow 52 < twoPow 52 := by
      have : m < twoPow 52 + twoPow 52 := h.lt
      omega
    rw [encodeMagnitude_of_full hfull h.lt h.greatest, ofFloat_assemble_fields (by omega) hm,
      if_neg (by omega), Nat.add_sub_cancel' hfull]
    congr 1
    omega

end MixedInteger.Binary64
