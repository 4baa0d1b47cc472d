/-
**Exact numbers with infinities.**

Computing with doubles approximates computing with exact numbers, among which there are two infinities
for missing bounds and an undefined value for what has no result.  This carrier says what is
approximated: nothing is rounded, and every operation on numbers gives the number that it should.

Main definitions:

* `MixedInteger.Extended` — numbers of a field, the infinities, and the undefined value;
* `MixedInteger.Extended.toNumber`, `MixedInteger.Extended.IsFinite` — back to the field.

Main results:

* `MixedInteger.Extended.toNumber_add`, `MixedInteger.Extended.toNumber_mul` — on numbers, the
  operations are those of the field;
* `MixedInteger.Extended.finite_lt_finite` — and so is the order.
-/

import Mathlib.Algebra.Order.Field.Basic
import Mathlib.Algebra.Order.Floor.Ring
import MixedInteger.Scalar.Basic

set_option autoImplicit false

namespace MixedInteger

/-- A number of a field, an infinity, or nothing of the kind. -/
inductive Extended (K : Type) where
  | finite (x : K)
  | infinite (negative : Bool)
  | undefined
  deriving DecidableEq

namespace Extended

variable {K : Type}

/-! ### Back to the field -/

/-- A number, and not one of the other values. -/
def IsFinite : Extended K → Prop
  | finite _ => True
  | _ => False

/-- The number that a value is; zero stands in where it is none. -/
def toNumber [Zero K] : Extended K → K
  | finite x => x
  | _ => 0

@[simp] theorem isFinite_finite (x : K) : (finite x).IsFinite := trivial

@[simp] theorem toNumber_finite [Zero K] (x : K) : (finite x).toNumber = x := rfl

theorem IsFinite.eq_finite [Zero K] {a : Extended K} (h : a.IsFinite) : a = finite a.toNumber := by
  cases a with
  | finite x => rfl
  | infinite s => exact h.elim
  | undefined => exact h.elim

/-! ### Operations -/

variable [Field K] [LinearOrder K]

/-- Infinities of one sign add up, those of both signs do not. -/
def plus : Extended K → Extended K → Extended K
  | finite x, finite y => finite (x + y)
  | finite _, infinite s => infinite s
  | infinite s, finite _ => infinite s
  | infinite s, infinite t => if s = t then infinite s else undefined
  | _, _ => undefined

/-- The opposite value. -/
def opposite : Extended K → Extended K
  | finite x => finite (-x)
  | infinite s => infinite (!s)
  | undefined => undefined

/-- Signs multiply; zero times an infinity is nothing. -/
def times : Extended K → Extended K → Extended K
  | finite x, finite y => finite (x * y)
  | finite x, infinite s => if x = 0 then undefined else infinite (s != decide (x < 0))
  | infinite s, finite x => if x = 0 then undefined else infinite (s != decide (x < 0))
  | infinite s, infinite t => infinite (s != t)
  | _, _ => undefined

/-- The inverse; zero has none. -/
def inverse : Extended K → Extended K
  | finite x => if x = 0 then undefined else finite x⁻¹
  | infinite _ => finite 0
  | undefined => undefined

/-- The strict order; nothing compares with the undefined value. -/
def Below : Extended K → Extended K → Prop
  | finite x, finite y => x < y
  | finite _, infinite s => s = false
  | infinite s, finite _ => s = true
  | infinite s, infinite t => s = true ∧ t = false
  | _, _ => False

/-- The weak order. -/
def AtMost : Extended K → Extended K → Prop
  | finite x, finite y => x ≤ y
  | finite _, infinite s => s = false
  | infinite s, finite _ => s = true
  | infinite s, infinite t => s = true ∨ t = false
  | _, _ => False

/-- Numeric equality, which the undefined value has with nothing. -/
def same : Extended K → Extended K → Bool
  | finite x, finite y => decide (x = y)
  | infinite s, infinite t => s == t
  | _, _ => false

instance (a b : Extended K) : Decidable (Below a b) := by
  cases a <;> cases b <;> unfold Below <;> infer_instance

instance (a b : Extended K) : Decidable (AtMost a b) := by
  cases a <;> cases b <;> unfold AtMost <;> infer_instance

/-- Whether a value is one of the infinities. -/
def infinite? : Extended K → Bool
  | infinite _ => true
  | _ => false

/-- Whether a value is a whole number. -/
def whole? [FloorRing K] : Extended K → Bool
  | finite x => decide (Int.fract x = 0)
  | _ => false

instance [FloorRing K] : Scalar (Extended K) where
  zero := finite 0
  one := finite 1
  add := plus
  neg := opposite
  sub a b := plus a (opposite b)
  mul := times
  div a b := times a (inverse b)
  lt := Below
  le := AtMost
  beq := same
  testLt := fun a b => inferInstanceAs (Decidable (Below a b))
  testLe := fun a b => inferInstanceAs (Decidable (AtMost a b))
  infinity := infinite false
  isInfinite := infinite?
  isIntegral := whole?

/-! ### Operations on numbers -/

variable [FloorRing K]

theorem zero_eq : (0 : Extended K) = finite 0 := rfl

theorem one_eq : (1 : Extended K) = finite 1 := rfl

@[simp] theorem finite_add (x y : K) : finite x + finite y = finite (x + y) := rfl

@[simp] theorem finite_sub (x y : K) : finite x - finite y = finite (x - y) := by
  rw [sub_eq_add_neg]
  rfl

@[simp] theorem finite_mul (x y : K) : finite x * finite y = finite (x * y) := rfl

@[simp] theorem neg_finite (x : K) : -finite x = finite (-x) := rfl

theorem finite_div {y : K} (x : K) (hy : y ≠ 0) : finite x / finite y = finite (x / y) := by
  change times (finite x) (inverse (finite y)) = _
  rw [inverse, if_neg hy, div_eq_mul_inv]
  rfl

@[simp] theorem finite_lt_finite (x y : K) : finite x < finite y ↔ x < y := Iff.rfl

@[simp] theorem finite_le_finite (x y : K) : finite x ≤ finite y ↔ x ≤ y := Iff.rfl

@[simp] theorem finite_beq (x y : K) : (finite x == finite y) = decide (x = y) := rfl

@[simp] theorem isInfinite_finite (x : K) : Scalar.isInfinite (finite x) = false := rfl

theorem isIntegral_finite (x : K) : Scalar.isIntegral (finite x) = true ↔ Int.fract x = 0 :=
  decide_eq_true_iff

@[simp] theorem toNumber_zero : (0 : Extended K).toNumber = 0 := rfl

@[simp] theorem toNumber_one : (1 : Extended K).toNumber = 1 := rfl

@[simp] theorem isFinite_zero : (0 : Extended K).IsFinite := trivial

@[simp] theorem isFinite_one : (1 : Extended K).IsFinite := trivial

theorem IsFinite.add {a b : Extended K} (ha : a.IsFinite) (hb : b.IsFinite) : (a + b).IsFinite := by
  rw [ha.eq_finite, hb.eq_finite]
  exact isFinite_finite _

theorem IsFinite.mul {a b : Extended K} (ha : a.IsFinite) (hb : b.IsFinite) : (a * b).IsFinite := by
  rw [ha.eq_finite, hb.eq_finite]
  exact isFinite_finite _

theorem IsFinite.neg {a : Extended K} (ha : a.IsFinite) : (-a).IsFinite := by
  rw [ha.eq_finite]
  exact isFinite_finite _

theorem toNumber_add {a b : Extended K} (ha : a.IsFinite) (hb : b.IsFinite) :
    (a + b).toNumber = a.toNumber + b.toNumber := by
  rw [ha.eq_finite, hb.eq_finite]
  rfl

theorem toNumber_mul {a b : Extended K} (ha : a.IsFinite) (hb : b.IsFinite) :
    (a * b).toNumber = a.toNumber * b.toNumber := by
  rw [ha.eq_finite, hb.eq_finite]
  rfl

theorem toNumber_neg (a : Extended K) : (-a).toNumber = -a.toNumber := by
  cases a with
  | finite x => rfl
  | infinite s => exact neg_zero.symm
  | undefined => exact neg_zero.symm

theorem beq_zero_iff {a : Extended K} (ha : a.IsFinite) :
    (a == 0) = true ↔ a.toNumber = 0 := by
  rw [ha.eq_finite]
  exact decide_eq_true_iff

end Extended

end MixedInteger
