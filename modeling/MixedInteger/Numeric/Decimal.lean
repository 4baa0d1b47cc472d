/-
**Decimal digits of a double.**

A positive value `m * 2 ^ q` has two decimal forms that are of use in a text: the one with the fewest
digits that still reads back as the same double, and the one rounded to a given number of digits.
Both are found with whole numbers only, by comparing points of a decimal grid with the value.

Main definitions:

* `MixedInteger.Decimal` — a decimal significand and the power of ten of its first digit;
* `MixedInteger.Decimal.readsBack` — whether a point of a decimal grid reads back as a double;
* `MixedInteger.Decimal.shortest` — the fewest digits that read back, the nearest of those to the
  value, a tie to the even last digit;
* `MixedInteger.Decimal.rounded` — a given number of digits, a tie to the even last digit.
-/

import MixedInteger.Numeric.Binary64

set_option autoImplicit false

namespace MixedInteger

/-- The decimal `d.ddd × 10 ^ leading`: the digits of `significand` with the point after the first.
The significand has no trailing zeros. -/
structure Decimal where
  significand : Nat
  leading : Int
  deriving Repr, DecidableEq

namespace Decimal

/-! ### Digits of a natural number -/

/-- The decimal digits of a natural number, most significant first. -/
def digits (n : Nat) : List Char := Nat.toDigits 10 n

/-- How many decimal digits a natural number has. -/
def width (n : Nat) : Nat := (digits n).length

/-- Removes trailing zeros, at most `fuel` of them. -/
def stripZeros : Nat → Nat → Nat
  | 0, n => n
  | fuel + 1, n => if n ≠ 0 ∧ n % 10 = 0 then stripZeros fuel (n / 10) else n

/-- A significand of any length whose last digit stands for `10 ^ unit`. -/
def ofUnit (n : Nat) (unit : Int) : Decimal :=
  { significand := stripZeros (width n) n
    leading := unit + (width n : Int) - 1 }

/-! ### Values as fractions -/

/-- The fraction `m * 2 ^ q`. -/
def binaryFraction (m : Nat) (q : Int) : Nat × Nat :=
  if 0 ≤ q then (m * twoPow q.toNat, 1) else (m, twoPow (-q).toNat)

/-- The fraction `n / d` measured in units of `10 ^ e`. -/
def inUnits (n d : Nat) (e : Int) : Nat × Nat :=
  if 0 ≤ e then (n, d * tenPow e.toNat) else (n * tenPow (-e).toNat, d)

/-- The power of ten of the first digit of the positive fraction `n / d`. -/
def leadingExponent (n d : Nat) : Int :=
  if d ≤ n then (width (n / d) : Int) - 1
  else
    let w := width (d / n)
    if n * tenPow (w - 1) = d then -((w : Int) - 1) else -(w : Int)

/-! ### The two forms -/

/-- The value `m * 2 ^ q` rounded to `count` significant digits. -/
def rounded (count : Nat) (m : Nat) (q : Int) : Decimal :=
  let (n, d) := binaryFraction m q
  let unit := leadingExponent n d - (count : Int) + 1
  let (n', d') := inUnits n d unit
  ofUnit (Binary64.divNearest n' d') unit

/-- The reals that round to the double `m * 2 ^ q`, as numerators over one denominator: the lower
end, the value, the upper end, and the denominator.  Below a power of two the next double is
nearer. -/
def interval (m : Nat) (q : Int) : Nat × Nat × Nat × Nat :=
  let below := if m = twoPow 52 ∧ -1074 < q then 1 else 2
  let (s, d) := binaryFraction 1 (q - 2)
  ((4 * m - below) * s, 4 * m * s, (4 * m + 2) * s, d)

/-- Whether the point `j` of the grid of step `10 ^ unit` reads back as `m * 2 ^ q`; the ends of the
interval do when the significand is even. -/
def readsBack (m : Nat) (q : Int) (unit : Int) (j : Nat) : Bool :=
  let (lo, _, hi, d) := interval m q
  let (grow, step) := inUnits 1 1 unit
  let x := j * d * step
  if m % 2 = 0 then lo * grow ≤ x && x ≤ hi * grow else lo * grow < x && x < hi * grow

/-- The point of the grid of step `10 ^ unit` that reads back as `m * 2 ^ q` and is nearest to it,
as a number of steps. -/
def gridPoint? (m : Nat) (q : Int) (unit : Int) : Option Nat :=
  let (_, v, _, d) := interval m q
  let (v', d') := inUnits v d unit
  let k := v' / d'
  match readsBack m q unit k, readsBack m q unit (k + 1) with
  | true, true =>
    let r := v' % d'
    if 2 * r < d' ∨ (2 * r = d' ∧ k % 2 = 0) then some k else some (k + 1)
  | true, false => some k
  | false, true => some (k + 1)
  | false, false => none

/-- Tries grids of `count`, `count + 1`, … digits. -/
def searchGrid (m : Nat) (q : Int) (first : Int) : Nat → Nat → Option Decimal
  | 0, _ => none
  | fuel + 1, count =>
    let unit := first - (count : Int) + 1
    match gridPoint? m q unit with
    | some k => if k = 0 then searchGrid m q first fuel (count + 1) else some (ofUnit k unit)
    | none => searchGrid m q first fuel (count + 1)

/-- The fewest digits that read back as the double `m * 2 ^ q`; seventeen always do. -/
def shortest (m : Nat) (q : Int) : Decimal :=
  let (n, d) := binaryFraction m q
  (searchGrid m q (leadingExponent n d) 17 1).getD (rounded 17 m q)

end Decimal

end MixedInteger
