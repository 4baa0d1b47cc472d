/-
**Numerals as people type them.**

Blanks around a numeral do not count, its digits may be those of any script, and underscores may stand
between the digits of a real number.  A whole number may carry the mark of its base: `0b`, `0o` or
`0x`.

Main definitions:

* `MixedInteger.Typed.bare` — a numeral without the blanks around it, in plain digits;
* `MixedInteger.Typed.real?`, `MixedInteger.Typed.whole?` — the numbers;
* `MixedInteger.Typed.maxDigits` — how long a whole number may be.
-/

import MixedInteger.Numeric.Literal
import MixedInteger.Text.Digit

set_option autoImplicit false

namespace MixedInteger.Typed

/-- A numeral without the blanks around it, in plain digits. -/
def bare (s : List Char) : List Char := Text.trim (Text.plainNumeral s)

/-- A real number. -/
def real? (s : List Char) : Option Float := (Literal.groupedDigits? (bare s)).bind Literal.real?

/-- The letters that mark a base behind a zero. -/
def marks : Nat → List Char
  | 2 => ['b', 'B']
  | 8 => ['o', 'O']
  | 16 => ['x', 'X']
  | _ => []

/-- Digits behind the mark of their base, which may be missing. -/
def withoutMark (base : Nat) : List Char → List Char
  | '0' :: c :: rest => if (marks base).contains c then rest else '0' :: c :: rest
  | cs => cs

/-- The value of a digit to some base. -/
def digit? (base : Nat) (c : Char) : Option Nat := (Literal.hexDigit? c).filter (· < base)

/-- The greatest number of decimal digits of a whole number that is read from text. -/
def maxDigits : Nat := 4300

/-- Whether so many digits to a base are too many: only decimal ones are counted. -/
def isTooLong (base count : Nat) : Bool := base == 10 && decide (maxDigits < count)

/-- A whole number to some base. -/
def whole? (base : Nat) (s : List Char) : Option Int :=
  let (negative, marked) := Literal.splitSign (bare s)
  let ds := withoutMark base marked
  if ds.isEmpty || isTooLong base ds.length then none
  else
    (ds.foldlM (fun n c => (digit? base c).map (base * n + ·)) 0).map (Binary64.signed negative)

end MixedInteger.Typed
