/-
**Reading numbers from text.**

A decimal numeral is a significand with an optional point and an optional power of ten; it is read as
the nearest double.  Texts of other shapes are refused, and what surrounds or decorates a numeral
(blanks, digit separators) is up to the caller.

Main definitions:

* `MixedInteger.Literal.whole?` — an optional sign and decimal digits;
* `MixedInteger.Literal.real?` — an optional sign and a decimal numeral, an infinity or a
  not-a-number;
* `MixedInteger.Literal.withoutSeparators?` — removes single underscores between other characters;
* `MixedInteger.Literal.groupedDigits?` — removes underscores between digits.
-/

import MixedInteger.Numeric.Binary64

set_option autoImplicit false

namespace MixedInteger.Literal

/-- The value of decimal digits. -/
def natOfDigits (ds : List Char) : Nat := ds.foldl (fun n c => 10 * n + (c.toNat - '0'.toNat)) 0

/-- The value of a hexadecimal digit. -/
def hexDigit? (c : Char) : Option Nat :=
  if c.isDigit then some (c.toNat - '0'.toNat)
  else if 'a' ≤ c ∧ c ≤ 'f' then some (c.toNat - 'a'.toNat + 10)
  else if 'A' ≤ c ∧ c ≤ 'F' then some (c.toNat - 'A'.toNat + 10)
  else none

/-- The double nearest to `n * 10 ^ e`.  Far outside the range of doubles the power is not formed. -/
def scaledByTen (negative : Bool) (n : Nat) (e : Int) : Float :=
  let reach := (Nat.log2 n : Int) / 3 + e
  if n = 0 ∨ reach < -800 then Binary64.assemble negative 0
  else if 800 < e then Binary64.ofFraction negative (tenPow 800) 1
  else if 0 ≤ e then Binary64.ofFraction negative (n * tenPow e.toNat) 1
  else Binary64.ofFraction negative n (tenPow (-e).toNat)

/-- Splits an optional sign from the rest; true stands for a minus. -/
def splitSign : List Char → Bool × List Char
  | '-' :: rest => (true, rest)
  | '+' :: rest => (false, rest)
  | s => (false, s)

/-- A decimal integer with an optional sign. -/
def whole? (s : List Char) : Option Int :=
  let (negative, ds) := splitSign s
  if ds.isEmpty || !ds.all Char.isDigit then none
  else some (Binary64.signed negative (natOfDigits ds))

/-- An exponent part: nothing, or a mark, an optional sign and digits. -/
def exponent? : List Char → Option Int
  | [] => some 0
  | c :: rest => if c = 'e' ∨ c = 'E' then whole? rest else none

/-- A decimal numeral without sign: digits around an optional point, at least one of them, and an
optional exponent. -/
def unsigned? (negative : Bool) (s : List Char) : Option Float :=
  let whole := s.takeWhile Char.isDigit
  let afterWhole := s.dropWhile Char.isDigit
  let (fraction, rest) := match afterWhole with
    | '.' :: tail => (tail.takeWhile Char.isDigit, tail.dropWhile Char.isDigit)
    | _ => ([], afterWhole)
  if whole.isEmpty && fraction.isEmpty then none
  else
    (exponent? rest).map fun e =>
      scaledByTen negative (natOfDigits (whole ++ fraction)) (e - fraction.length)

/-- A real number: an optional sign before a decimal numeral, an infinity or a not-a-number, the
words in any case. -/
def real? (s : List Char) : Option Float :=
  let (negative, rest) := splitSign s
  let word := String.ofList (rest.map Char.toLower)
  if word == "inf" || word == "infinity" then
    some (if negative then -1.0 / 0.0 else 1.0 / 0.0)
  else if word == "nan" then some (0.0 / 0.0)
  else unsigned? negative rest

/-- Removes underscores, unless one stands at an end or next to another. -/
def withoutSeparators? (s : List Char) : Option (List Char) :=
  let doubled := (s.zip (s.drop 1)).any fun p => p.1 == '_' && p.2 == '_'
  if s.head? == some '_' || s.getLast? == some '_' || doubled then none
  else some (s.filter (· != '_'))

/-- Whether every underscore stands between two digits, `before` being the character in front. -/
def underscoresGroup (before : Char) : List Char → Bool
  | [] => true
  | '_' :: rest =>
    before.isDigit && (rest.head?.any Char.isDigit) && underscoresGroup '_' rest
  | c :: rest => underscoresGroup c rest

/-- Removes underscores, each of which has to stand between two digits. -/
def groupedDigits? (s : List Char) : Option (List Char) :=
  if underscoresGroup ' ' s then some (s.filter (· != '_')) else none

end MixedInteger.Literal
