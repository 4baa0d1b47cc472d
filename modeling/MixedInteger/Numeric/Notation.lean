/-
**Number texts.**

One layout function turns decimal digits into text; the texts that occur in this library differ only
in a record of choices: up to which powers of ten the number is written out, whether a whole number
keeps a point, and how an exponent is spelled.

Main definitions:

* `MixedInteger.Notation.Style` — the choices;
* `MixedInteger.Notation.general` — six significant digits, as in messages and tables;
* `MixedInteger.Notation.plain` — the fewest digits that read back, as for a number in a message;
* `MixedInteger.Notation.snapshot` — the same digits, as in the text of a snapshot;
* `MixedInteger.Notation.settings` — the same digits, as in a settings file.
-/

import MixedInteger.Numeric.Decimal

set_option autoImplicit false

namespace MixedInteger.Notation

/-- How the digits of a number are laid out. -/
structure Style where
  /-- The least power of ten of a first digit that is still written out. -/
  least : Int
  /-- The greatest power of ten of a first digit that is still written out. -/
  greatest : Int
  /-- A whole number that is written out keeps `.0`. -/
  keepsPoint : Bool
  /-- A lone digit before an exponent keeps `.0`. -/
  keepsPointBeforeExponent : Bool
  /-- An exponent that is not negative has a plus sign. -/
  signsExponent : Bool
  /-- The least number of digits of an exponent. -/
  exponentWidth : Nat
  /-- The text of positive infinity, before which a minus sign makes the negative one. -/
  infinity : String
  /-- The text of a value that is not a number. -/
  notANumber : String
  /-- How many significant digits are kept; none means the fewest that read back. -/
  significant : Option Nat

/-- Six significant digits without trailing zeros, written out from `0.0001` up to six digits. -/
def generalStyle : Style where
  least := -4
  greatest := 5
  keepsPoint := false
  keepsPointBeforeExponent := false
  signsExponent := true
  exponentWidth := 2
  infinity := "inf"
  notANumber := "nan"
  significant := some 6

/-- The fewest digits, written out from `0.0001` up to sixteen digits. -/
def plainStyle : Style where
  least := -4
  greatest := 15
  keepsPoint := true
  keepsPointBeforeExponent := false
  signsExponent := true
  exponentWidth := 2
  infinity := "inf"
  notANumber := "nan"
  significant := none

/-- The fewest digits, written out from `0.00001` up to sixteen digits, exponents unpadded. -/
def snapshotStyle : Style where
  least := -5
  greatest := 15
  keepsPoint := true
  keepsPointBeforeExponent := false
  signsExponent := true
  exponentWidth := 1
  infinity := "Infinity"
  notANumber := "NaN"
  significant := none

/-- The fewest digits, always with a point, so that the text reads back as a real number. -/
def settingsStyle : Style where
  least := -4
  greatest := 15
  keepsPoint := true
  keepsPointBeforeExponent := true
  signsExponent := true
  exponentWidth := 2
  infinity := ".inf"
  notANumber := ".nan"
  significant := none

/-! ### Layout -/

/-- Zeros in front of digits, up to a width. -/
def padLeft (width : Nat) (ds : List Char) : List Char :=
  List.replicate (width - ds.length) '0' ++ ds

/-- Digits with the point after the first one, and the exponent. -/
def withExponent (style : Style) (ds : List Char) (leading : Int) : List Char :=
  let tail := ds.drop 1
  let fraction :=
    if tail.isEmpty then (if style.keepsPointBeforeExponent then ['.', '0'] else [])
    else '.' :: tail
  let sign := if leading < 0 then ['-'] else if style.signsExponent then ['+'] else []
  ds.take 1 ++ fraction ++ ['e'] ++ sign ++
    padLeft style.exponentWidth (Decimal.digits leading.natAbs)

/-- Digits written out, the first of them standing for `10 ^ leading`. -/
def writtenOut (style : Style) (ds : List Char) (leading : Int) : List Char :=
  if leading < 0 then
    ['0', '.'] ++ List.replicate (leading.natAbs - 1) '0' ++ ds
  else
    let count := leading.toNat + 1
    let whole := ds.take count
    let tail := ds.drop count
    whole ++ List.replicate (count - whole.length) '0' ++
      (if tail.isEmpty then (if style.keepsPoint then ['.', '0'] else []) else '.' :: tail)

/-- The text of a decimal. -/
def layout (style : Style) (x : Decimal) : List Char :=
  let ds := Decimal.digits x.significand
  if style.least ≤ x.leading ∧ x.leading ≤ style.greatest then writtenOut style ds x.leading
  else withExponent style ds x.leading

/-- The text of a value. -/
def write (style : Style) (x : Binary64) : String :=
  match x with
  | .nan => style.notANumber
  | .infinite s => if s then "-" ++ style.infinity else style.infinity
  | .finite s m q =>
    let magnitude :=
      if m = 0 then layout style ⟨0, 0⟩
      else layout style (match style.significant with
        | some count => Decimal.rounded count m q
        | none => Decimal.shortest m q)
    String.ofList (if s then '-' :: magnitude else magnitude)

/-- The text of a double in messages and tables. -/
def general (x : Float) : String := write generalStyle (Binary64.ofFloat x)

/-- The text of a double that a message quotes exactly. -/
def plain (x : Float) : String := write plainStyle (Binary64.ofFloat x)

/-- The text of a double in a snapshot. -/
def snapshot (x : Float) : String := write snapshotStyle (Binary64.ofFloat x)

/-- The text of a double in a settings file. -/
def settings (x : Float) : String := write settingsStyle (Binary64.ofFloat x)

end MixedInteger.Notation
