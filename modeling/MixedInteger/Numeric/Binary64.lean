/-
**What a double stands for.**

A double is decoded from its bits into a sign, a whole significand and a power of two, so that
questions about its exact value — is it a whole number, what is its integer part, which double is
nearest to a given fraction — are answered in `Nat` and `Int` arithmetic.

Main definitions:

* `MixedInteger.Binary64` — a decoded double;
* `MixedInteger.Binary64.ofFloat` — decoding;
* `MixedInteger.Binary64.toInt?`, `MixedInteger.Binary64.ceil?`, `MixedInteger.Binary64.nearest?` —
  the exact integer value, the least integer above, and the nearest integer, a half going to the
  even neighbour;
* `MixedInteger.Binary64.ofFraction` — the double nearest to a fraction.
-/

import MixedInteger.Numeric.Power

set_option autoImplicit false

namespace MixedInteger

/-- A decoded double: `finite s m q` stands for `m * 2 ^ q`, negated when `s` is true. -/
inductive Binary64 where
  | nan
  | infinite (negative : Bool)
  | finite (negative : Bool) (significand : Nat) (exponent : Int)
  deriving Repr, DecidableEq

namespace Binary64

/-! ### Decoding -/

/-- Reads the three fields of a 64-bit pattern. -/
def ofBits (bits : Nat) : Binary64 :=
  let negative := decide (bits / twoPow 63 % 2 = 1)
  let biased : Nat := bits / twoPow 52 % twoPow 11
  let fraction := bits % twoPow 52
  if biased = 2047 then
    if fraction = 0 then infinite negative else nan
  else if biased = 0 then finite negative fraction (-1074)
  else finite negative (twoPow 52 + fraction) ((biased : Int) - 1075)

/-- The value of a double. -/
def ofFloat (x : Float) : Binary64 := ofBits x.toBits.toNat

/-! ### Whole numbers -/

/-- Puts a sign before a natural number. -/
def signed (negative : Bool) (n : Nat) : Int := if negative then -(n : Int) else n

@[simp] theorem signed_false (n : Nat) : signed false n = n := rfl

@[simp] theorem signed_true (n : Nat) : signed true n = -(n : Int) := rfl

/-- The exact value, when it is a whole number. -/
def toInt? : Binary64 → Option Int
  | nan => none
  | infinite _ => none
  | finite s m q =>
    if 0 ≤ q then some (signed s (m * twoPow q.toNat))
    else if m % twoPow (-q).toNat = 0 then some (signed s (m / twoPow (-q).toNat))
    else none

/-- Whether the value is a whole number; infinities are not. -/
def isIntegral (x : Binary64) : Bool := x.toInt?.isSome

/-- The quotient `n / d` rounded to the nearest whole number, a half to the even neighbour. -/
def divNearest (n d : Nat) : Nat :=
  let k := n / d
  let twice := 2 * (n % d)
  if twice < d then k
  else if d < twice then k + 1
  else if k % 2 = 0 then k else k + 1

theorem divNearest_eq_div {n d : Nat} (h : 2 * (n % d) < d) : divNearest n d = n / d := by
  simp [divNearest, h]

/-- The nearest whole number, a half to the even neighbour; nothing when there is no value. -/
def nearest? : Binary64 → Option Int
  | nan => none
  | infinite _ => none
  | finite s m q =>
    if 0 ≤ q then some (signed s (m * twoPow q.toNat))
    else some (signed s (divNearest m (twoPow (-q).toNat)))

/-- The least whole number that is not below the value; nothing when there is no value. -/
def ceil? : Binary64 → Option Int
  | nan => none
  | infinite _ => none
  | finite s m q =>
    if 0 ≤ q then some (signed s (m * twoPow q.toNat))
    else
      let d := twoPow (-q).toNat
      some (if s then -((m / d : Nat) : Int) else ((m + d - 1) / d : Nat))

/-! ### Rounding a fraction -/

/-- The bits of `m * 2 ^ q` for a significand that needs no rounding: at most `2 ^ 53`, and below
`2 ^ 52` only at the least exponent. -/
def encodeMagnitude (m : Nat) (q : Int) : Nat :=
  if m < twoPow 52 then m
  else
    let biased := q + 1075 + (if m = twoPow 53 then 1 else 0)
    let fraction := if m = twoPow 53 then 0 else m - twoPow 52
    if 2047 ≤ biased then 2047 * twoPow 52 else biased.toNat * twoPow 52 + fraction

/-- The double with the given sign and magnitude bits. -/
def assemble (negative : Bool) (magnitude : Nat) : Float :=
  Float.ofBits (UInt64.ofNat ((if negative then twoPow 63 else 0) + magnitude))

/-- Divides `n / d` by `2 ^ q`, as a fraction of whole numbers. -/
def scaleFraction (n d : Nat) (q : Int) : Nat × Nat :=
  if 0 ≤ q then (n, d * twoPow q.toNat) else (n * twoPow (-q).toNat, d)

/-- The double nearest to `n / d` with the given sign, a tie to the even significand; values
beyond the largest double become infinite. -/
def ofFraction (negative : Bool) (n d : Nat) : Float :=
  if n = 0 ∨ d = 0 then assemble negative 0
  else
    let guess : Int := (Nat.log2 n : Int) - Nat.log2 d - 52
    let first := scaleFraction n d guess
    let q := if first.1 / first.2 < twoPow 52 then guess - 1 else guess
    let q := if q < -1074 then -1074 else q
    let (n', d') := scaleFraction n d q
    assemble negative (encodeMagnitude (divNearest n' d') q)

/-- The double nearest to an integer; infinite when the integer is too large. -/
def ofInt (n : Int) : Float := ofFraction (decide (n < 0)) n.natAbs 1

/-- The double nearest to an integer, unless it is out of range. -/
def ofInt? (n : Int) : Option Float :=
  let x := ofInt n
  if x.isInf then none else some x

/-- The double `m * 2 ^ q`, rounded to nearest. -/
def ofScaled (negative : Bool) (m : Nat) (q : Int) : Float :=
  if 0 ≤ q then ofFraction negative (m * twoPow q.toNat) 1
  else ofFraction negative m (twoPow (-q).toNat)

/-! ### Exact comparison -/

/-- A whole number as an exact value. -/
def exact (n : Int) : Binary64 := finite (decide (n < 0)) n.natAbs 0

/-- The order of exact values; what is not a number is below nothing and above nothing. -/
def lt : Binary64 → Binary64 → Bool
  | nan, _ => false
  | _, nan => false
  | infinite s, infinite t => s && !t
  | infinite s, finite _ _ _ => s
  | finite _ _ _, infinite t => !t
  | finite s m p, finite t n q =>
    let low := min p q
    let a := signed s (m * twoPow (p - low).toNat)
    let b := signed t (n * twoPow (q - low).toNat)
    decide (a < b)

/-- Equality of exact values; both zeros are equal, and nothing equals a value that is not a
number. -/
def eq : Binary64 → Binary64 → Bool
  | infinite s, infinite t => s == t
  | finite s m p, finite t n q =>
    let low := min p q
    signed s (m * twoPow (p - low).toNat) == signed t (n * twoPow (q - low).toNat)
  | _, _ => false

end Binary64

end MixedInteger
