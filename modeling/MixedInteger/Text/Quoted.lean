/-
**Quoted names.**

A name is quoted with single quotes, or with double quotes when it holds single quotes and no double
ones.  The quote in use, the backslash and everything that does not print are escaped, so that the
quoted form is one line of visible text.

Main definitions:

* `MixedInteger.Text.escape` — what stands for a character;
* `MixedInteger.Text.quote` — the quoted form.
-/

import MixedInteger.Text.Visible

set_option autoImplicit false

namespace MixedInteger.Text

/-- Hexadecimal digits of `n`, at least `width` of them. -/
def hexDigits (width n : Nat) : List Char :=
  let ds := Nat.toDigits 16 n
  List.replicate (width - ds.length) '0' ++ ds

/-- The escape of a character that does not print: two, four or eight hexadecimal digits. -/
def escapeInvisible (c : Char) : List Char :=
  let n := c.toNat
  if n < 0x100 then '\\' :: 'x' :: hexDigits 2 n
  else if n < 0x10000 then '\\' :: 'u' :: hexDigits 4 n
  else '\\' :: 'U' :: hexDigits 8 n

/-- What stands for a character between two marks `mark`. -/
def escape (mark : Char) (c : Char) : List Char :=
  if c = '\\' then ['\\', '\\']
  else if c = '\n' then ['\\', 'n']
  else if c = '\r' then ['\\', 'r']
  else if c = '\t' then ['\\', 't']
  else if c = mark then ['\\', mark]
  else if isVisible c then [c]
  else escapeInvisible c

/-- The mark around a name. -/
def quoteMark (s : List Char) : Char :=
  if s.contains '\'' && !s.contains '"' then '"' else '\''

/-- The quoted form of a name. -/
def quote (s : String) : String :=
  let cs := s.toList
  let mark := quoteMark cs
  String.ofList (mark :: cs.flatMap (escape mark) ++ [mark])

end MixedInteger.Text
