/-
**How doubles compare.**

Two doubles compare unless one of them is not a number, and they compare as their exact values do: of two
significands that are full, the one with the greater exponent is greater.  So what is not true of two
numbers says that the opposite is.  An opposite has the other sign, and nothing else changes.

Main definitions:

* `MixedInteger.Binary64.comparison` — how two doubles compare, if they do.

Main results:

* `MixedInteger.Binary64.not_le_iff`, `MixedInteger.Binary64.not_lt_iff` — what a comparison that is not
  true says;
* `MixedInteger.Binary64.lt_iff_exact`, `MixedInteger.Binary64.beq_eq_exact` — **doubles compare as their
  exact values**;
* `MixedInteger.Binary64.ofFloat_neg` — the opposite of a double.
-/

import MixedInteger.Proofs.Bits

set_option autoImplicit false

namespace MixedInteger.Binary64

open Float.Model (Format UnpackedFloat)
open Float.Model.UnpackedFloat

/-! ### Whether doubles compare -/

/-- What compares in one way compares in the opposite way from the other side. -/
theorem compare_swap (a b : UnpackedFloat) : b.compare a = (a.compare b).map Ordering.swap := by
  cases a with
  | notANumber => cases b <;> rfl
  | infinity s =>
      cases b with
      | infinity t => cases s <;> cases t <;> rfl
      | _ => cases s <;> rfl
  | zero s =>
      cases b with
      | finite t m e h => cases t <;> rfl
      | infinity t => cases t <;> rfl
      | _ => rfl
  | finite s m e h =>
      cases b with
      | notANumber => rfl
      | infinity t => cases s <;> cases t <;> rfl
      | zero t => cases s <;> rfl
      | finite t n f h' =>
          -- of two negative numbers the one with the smaller magnitude is greater
          cases s <;> cases t <;>
            simp [UnpackedFloat.compare, Ordering.swap_then, Int.compare_swap, Nat.compare_swap]

/-- Two values compare unless one of them is not a number. -/
theorem compare_eq_none_iff (a b : UnpackedFloat) :
    a.compare b = none ↔ a.isNaN = true ∨ b.isNaN = true := by
  fun_cases UnpackedFloat.compare a b <;> simp_all [UnpackedFloat.isNaN]

/-- How two doubles compare, if they do. -/
def comparison (x y : Float) : Option Ordering := x.toModel.unpack.compare y.toModel.unpack

theorem comparison_swap (x y : Float) : comparison y x = (comparison x y).map Ordering.swap :=
  compare_swap _ _

theorem comparison_eq_none_iff (x y : Float) :
    comparison x y = none ↔ x.isNaN = true ∨ y.isNaN = true := compare_eq_none_iff _ _

theorem lt_iff (x y : Float) : x < y ↔ comparison x y = some .lt := by
  have h : x < y ↔ (comparison x y == some .lt) = true := by
    change Float.lt x y = true ↔ _
    rw [Float.lt, decide_eq_true_iff]
    rfl
  rw [h, beq_iff_eq]

theorem le_iff (x y : Float) : x ≤ y ↔ comparison x y = some .lt ∨ comparison x y = some .eq := by
  have h : x ≤ y ↔ (comparison x y).any Ordering.isLE = true := by
    change Float.le x y = true ↔ _
    rw [Float.le, decide_eq_true_iff]
    rfl
  rw [h]
  cases comparison x y with
  | none => simp
  | some o => cases o <;> simp

theorem beq_iff (x y : Float) : x.beq y = true ↔ comparison x y = some .eq := by
  change (comparison x y == some .eq) = true ↔ _
  rw [beq_iff_eq]

/-- What is not at most another is greater, unless one of them is not a number. -/
theorem not_le_iff (x y : Float) : ¬ x ≤ y ↔ y < x ∨ x.isNaN = true ∨ y.isNaN = true := by
  rw [le_iff, lt_iff, comparison_swap x y, ← comparison_eq_none_iff]
  cases comparison x y with
  | none => simp
  | some o => cases o <;> simp

/-- What is not less than another is at least it, unless one of them is not a number. -/
theorem not_lt_iff (x y : Float) : ¬ x < y ↔ y ≤ x ∨ x.isNaN = true ∨ y.isNaN = true := by
  rw [le_iff, lt_iff, comparison_swap x y, ← comparison_eq_none_iff]
  cases comparison x y with
  | none => simp
  | some o => cases o <;> simp

/-- Only numbers are at most one another. -/
theorem isNaN_of_le {x y : Float} (h : x ≤ y) : x.isNaN = false ∧ y.isNaN = false := by
  have hsome : ¬ comparison x y = none := by
    rcases (le_iff x y).1 h with h | h <;> simp [h]
  simpa only [comparison_eq_none_iff, not_or, Bool.not_eq_true] using hsome

/-- Only numbers are less than one another. -/
theorem isNaN_of_lt {x y : Float} (h : x < y) : x.isNaN = false ∧ y.isNaN = false := by
  have hsome : ¬ comparison x y = none := by simp [(lt_iff x y).1 h]
  simpa only [comparison_eq_none_iff, not_or, Bool.not_eq_true] using hsome

/-! ### Exact values -/

/-- A greater exponent outweighs every significand, since its own is full. -/
theorem scaled_lt {m n : Nat} {p q : Int} (hm : Normal m p) (hn : Normal n q) (h : p < q) :
    m * twoPow (p - min p q).toNat < n * twoPow (q - min p q).toNat := by
  have hfull : twoPow 52 ≤ n := hn.full.resolve_left (by have := hm.least; omega)
  obtain ⟨k, hk⟩ : ∃ k, (q - min p q).toNat = k + 1 := ⟨(q - p - 1).toNat, by omega⟩
  have hzero : (p - min p q).toNat = 0 := by omega
  rw [hzero, hk]
  calc m * twoPow 0 = m := Nat.mul_one m
    _ < twoPow 53 := hm.lt
    _ = twoPow 52 * 2 := rfl
    _ ≤ n * twoPow (k + 1) := Nat.mul_le_mul hfull
        (Nat.pow_le_pow_right (by decide) (by omega) : 2 ^ 1 ≤ 2 ^ (k + 1))

/-- Magnitudes compare as their exponents do, and those with one exponent as their significands. -/
theorem compare_magnitudes {m n : Nat} {p q : Int} (hm : Normal m p) (hn : Normal n q) :
    (compare p q).then (compare m n) =
      compare (m * twoPow (p - min p q).toNat) (n * twoPow (q - min p q).toNat) := by
  rcases lt_trichotomy p q with h | rfl | h
  · rw [compare_lt_iff_lt.2 h, compare_lt_iff_lt.2 (scaled_lt hm hn h)]
    rfl
  · simp
  · have hswap := scaled_lt hn hm h
    rw [min_comm] at hswap
    rw [compare_gt_iff_gt.2 h, compare_gt_iff_gt.2 hswap]
    rfl

theorem compare_natCast (a b : Nat) : compare (a : Int) b = compare a b := by
  rcases lt_trichotomy a b with h | rfl | h
  · rw [compare_lt_iff_lt.2 h, compare_lt_iff_lt.2 (Int.ofNat_lt.2 h)]
  · simp
  · rw [compare_gt_iff_gt.2 h, compare_gt_iff_gt.2 (Int.ofNat_lt.2 h)]

/-- Signed magnitudes compare by their signs first, unless both are zero. -/
theorem compare_signed {s t : Bool} {a b : Nat} (h : s ≠ t → 0 < a ∨ 0 < b) :
    compare (signed s a) (signed t b) =
      if s = t then (if s then (compare a b).swap else compare a b) else if s then .lt else .gt := by
  cases s <;> cases t
  · exact compare_natCast a b
  · have hpos := h (by decide)
    exact compare_gt_iff_gt.2 (by simp only [signed_true, signed_false]; omega)
  · have hpos := h (by decide)
    exact compare_lt_iff_lt.2 (by simp only [signed_true, signed_false]; omega)
  · have hswap : compare (-(a : Int)) (-(b : Int)) = compare (b : Int) a := by
      rcases lt_trichotomy (a : Int) b with h | h | h
      · rw [compare_gt_iff_gt.2 h, compare_gt_iff_gt.2 (neg_lt_neg h)]
      · rw [h]
        simp
      · rw [compare_lt_iff_lt.2 h, compare_lt_iff_lt.2 (neg_lt_neg h)]
    rw [signed_true, signed_true, hswap, compare_natCast, if_pos rfl, if_pos rfl, Nat.compare_swap]

/-- Finite values that are unpacked compare as their exact values. -/
theorem compare_of_decode {u v : UnpackedFloat} {s t : Bool} {m n : Nat} {p q : Int}
    (hu : decode u = finite s m p) (hv : decode v = finite t n q) (hm : Normal m p) (hn : Normal n q) :
    u.compare v = some (compare (signed s (m * twoPow (p - min p q).toNat))
      (signed t (n * twoPow (q - min p q).toNat))) := by
  have horder := compare_magnitudes hm hn
  have hpos : ∀ {k : Nat} (e : Nat), 0 < k → 0 < k * twoPow e :=
    fun e hk => Nat.mul_pos hk (twoPow_pos e)
  cases u with
  | notANumber => cases hu
  | infinity σ => cases hu
  | zero σ =>
      cases hu
      cases v with
      | notANumber => cases hv
      | infinity τ => cases hv
      | zero τ =>
          cases hv
          cases σ <;> cases τ <;> rfl
      | finite τ n q hn =>
          cases hv
          rw [compare_signed fun _ => .inr (hpos _ hn), Nat.zero_mul,
            Nat.compare_eq_lt.2 (hpos (q - min (-1074) q).toNat hn)]
          cases σ <;> cases τ <;> rfl
  | finite σ m p hm =>
      cases hu
      rw [compare_signed fun _ => .inl (hpos _ hm)]
      cases v with
      | notANumber => cases hv
      | infinity τ => cases hv
      | zero τ =>
          cases hv
          rw [Nat.zero_mul, Nat.compare_eq_gt.2 (hpos (p - min p (-1074)).toNat hm)]
          cases σ <;> cases τ <;> rfl
      | finite τ n q hn =>
          cases hv
          rw [← horder]
          cases σ <;> cases τ <;> rfl

/-- The order of exact values, if they are finite. -/
theorem comparison_of_finite {x y : Float} {s t : Bool} {m n : Nat} {p q : Int}
    (hx : ofFloat x = finite s m p) (hy : ofFloat y = finite t n q) :
    comparison x y = some (compare (signed s (m * twoPow (p - min p q).toNat))
      (signed t (n * twoPow (q - min p q).toNat))) :=
  compare_of_decode ((ofFloat_eq_decode x).symm.trans hx) ((ofFloat_eq_decode y).symm.trans hy)
    (eq_assemble_of_ofFloat hx).1 (eq_assemble_of_ofFloat hy).1

/-- An infinity lies beyond all other numbers, and what is not a number does not compare. -/
theorem compare_of_no_finite {u v : UnpackedFloat}
    (h : ∀ s m p t n q, ¬ (decode u = finite s m p ∧ decode v = finite t n q)) :
    (u.compare v = some .lt ↔ (decode u).lt (decode v) = true) ∧
      (u.compare v = some .eq ↔ (decode u).eq (decode v) = true) := by
  cases u with
  | notANumber => cases v <;> simp [UnpackedFloat.compare, decode, Binary64.lt, Binary64.eq]
  | infinity s =>
      cases v with
      | infinity t => cases s <;> cases t <;> decide
      | _ => cases s <;> simp [UnpackedFloat.compare, decode, Binary64.lt, Binary64.eq]
  | zero s =>
      cases v with
      | notANumber => simp [UnpackedFloat.compare, decode, Binary64.lt, Binary64.eq]
      | infinity t => cases t <;> simp [UnpackedFloat.compare, decode, Binary64.lt, Binary64.eq]
      | _ => exact absurd ⟨rfl, rfl⟩ (h _ _ _ _ _ _)
  | finite s m p hm =>
      cases v with
      | notANumber => simp [UnpackedFloat.compare, decode, Binary64.lt, Binary64.eq]
      | infinity t =>
          cases s <;> cases t <;> simp [UnpackedFloat.compare, decode, Binary64.lt, Binary64.eq]
      | _ => exact absurd ⟨rfl, rfl⟩ (h _ _ _ _ _ _)

/-- **Doubles compare as their exact values.** -/
theorem comparison_exact (x y : Float) :
    (comparison x y = some .lt ↔ (ofFloat x).lt (ofFloat y) = true) ∧
      (comparison x y = some .eq ↔ (ofFloat x).eq (ofFloat y) = true) := by
  by_cases h : ∃ s m p t n q, ofFloat x = finite s m p ∧ ofFloat y = finite t n q
  · obtain ⟨s, m, p, t, n, q, hx, hy⟩ := h
    rw [comparison_of_finite hx hy, hx, hy, Option.some_inj, Option.some_inj, compare_lt_iff_lt,
      compare_eq_iff_eq]
    simp [Binary64.lt, Binary64.eq]
  · rw [ofFloat_eq_decode x, ofFloat_eq_decode y] at *
    exact compare_of_no_finite fun s m p t n q hxy => h ⟨s, m, p, t, n, q, hxy⟩

theorem lt_iff_exact (x y : Float) : x < y ↔ (ofFloat x).lt (ofFloat y) = true :=
  (lt_iff x y).trans (comparison_exact x y).1

theorem beq_eq_exact (x y : Float) : x.beq y = (ofFloat x).eq (ofFloat y) :=
  Bool.eq_iff_iff.2 ((beq_iff x y).trans (comparison_exact x y).2)

/-! ### Opposites -/

theorem unpack_packComponents_neg {s : Sign} {e : BitVec 11} {f : BitVec 52} {m : Nat} {q : Int}
    {hm : 0 < m} (h : unpack Format.binary64 (packComponents Format.binary64 s e f) = .finite s m q hm) :
    unpack Format.binary64 (packComponents Format.binary64 (-s) e f) = .finite (-s) m q hm := by
  unfold unpack at h ⊢
  simp only [unpackMantissa_packComponents, unpackExponent_packComponents, unpackSign_packComponents,
    Sign.ofBitVec_toBitVec] at h ⊢
  split at h
  · split at h <;> cases h
  · next hfinite =>
      rw [if_neg hfinite]
      split at h
      · next hsubnormal =>
          rw [if_pos hsubnormal]
          split at h
          · cases h
          · next hzero =>
              rw [dif_neg hzero]
              cases h
              rfl
      · next hnormal =>
          rw [if_neg hnormal]
          cases h
          rfl

/-- What a finite value is packed into has its sign in a field of its own. -/
theorem unpack_pack_neg {s : Sign} {m : Nat} {q : Int} {hm : 0 < m}
    (h : unpack Format.binary64 (pack Format.binary64 (.finite s m q hm)) = .finite s m q hm) :
    unpack Format.binary64 (pack Format.binary64 (.finite (-s) m q hm)) = .finite (-s) m q hm := by
  unfold pack at h ⊢
  dsimp only at h ⊢
  split at h
  · unfold packedInfinity unpack at h
    simp only [unpackMantissa_packComponents, unpackExponent_packComponents, if_true] at h
    cases h
  · next hlarge =>
      rw [if_neg hlarge]
      split at h
      · next hfull =>
          rw [if_pos hfull]
          exact unpack_packComponents_neg h
      · next hshort =>
          rw [if_neg hshort]
          exact unpack_packComponents_neg h

/-- **The opposite of a finite double has the other sign**, and nothing else changes. -/
theorem ofFloat_neg {x : Float} {s : Bool} {m : Nat} {q : Int} (h : ofFloat x = finite s m q) :
    ofFloat (-x) = finite (!s) m q := by
  have hneg : (-x).toModel.unpack =
      unpack Format.binary64 (pack Format.binary64 x.toModel.unpack.neg) := rfl
  have hpack : pack Format.binary64 x.toModel.unpack = x.toModel.toBits.toBitVec :=
    pack_unpack_of_valid x.toModel.valid
  rw [ofFloat_eq_decode] at h ⊢
  cases hunpack : x.toModel.unpack with
  | notANumber => simp [hunpack, decode] at h
  | infinity t => simp [hunpack, decode] at h
  | zero t =>
      rw [hunpack] at h hneg
      cases h
      rw [hneg, UnpackedFloat.neg, pack, unpack_packedZero]
      cases t <;> rfl
  | finite t n p hn =>
      rw [hunpack] at h hneg hpack
      cases h
      rw [hneg, UnpackedFloat.neg, unpack_pack_neg (by rw [hpack]; exact hunpack)]
      cases t <;> rfl

end MixedInteger.Binary64
