/-
**Positions in a text.**

A cursor stands before the characters that are still to be read and knows how many lines and columns
lie behind it.  A text may break off where no more of it could be loaded; whoever gets there learns
why.

Main definitions:

* `MixedInteger.Yaml.Stream` — a text as far as it could be loaded;
* `MixedInteger.Yaml.Cursor` — the cursor; `Cursor.peek`, `Cursor.advance` look ahead and move on;
* `MixedInteger.Yaml.Cursor.takeWhile` — reads characters of a class;
* `MixedInteger.Yaml.Cursor.lineBreak?` — reads a line break;
* `MixedInteger.Yaml.isPrintable` — the characters that a text may hold at all.
-/

import MixedInteger.Yaml.Refusal

set_option autoImplicit false

namespace MixedInteger.Yaml

/-! ### Classes of characters -/

/-- The characters that a text may hold at all. -/
def isPrintable (c : Char) : Bool :=
  let n := c.toNat
  n == 0x09 || n == 0x0a || n == 0x0d || (0x20 ≤ n && n ≤ 0x7e) || n == 0x85 ||
    (0xa0 ≤ n && n ≤ 0xfffd) || 0x10000 ≤ n

/-- What is seen behind the end of a text; no text holds it. -/
def endMark : Char := '\x00'

/-- The characters that break a line. -/
def isBreak (c : Char) : Bool :=
  c == '\n' || c == '\r' || c == '\u0085' || c == '\u2028' || c == '\u2029'

/-- The end of a line or of the text. -/
def isLineEnd (c : Char) : Bool := c == endMark || isBreak c

/-- What separates tokens: blanks, tabs and line ends. -/
def isGap (c : Char) : Bool := c == ' ' || c == '\t' || isLineEnd c

/-- The characters of the names of anchors, handles and directives. -/
def isNameChar (c : Char) : Bool := c.isAlphanum || c == '-' || c == '_'

/-! ### Cursors -/

/-- A text as far as it could be loaded, and why no more of it could be. -/
structure Stream where
  text : List Char
  trouble : Option Refusal

/-- A position in a text. -/
structure Cursor where
  rest : List Char
  index : Nat
  line : Nat
  column : Nat
  /-- Why the text breaks off behind `rest`. -/
  trouble : Option Refusal

namespace Cursor

/-- Before the first character. -/
def start (s : Stream) : Cursor := ⟨s.text, 0, 0, 0, s.trouble⟩

/-- Why the text breaks off, if this is where it does. -/
def trouble? (c : Cursor) : Option Refusal := if c.rest.isEmpty then c.trouble else none

/-- The character `n` places ahead. -/
def peek (c : Cursor) (n : Nat) : Char := c.rest.getD n endMark

/-- The character ahead. -/
def head (c : Cursor) : Char := c.peek 0

/-- Whether a carriage return and a line feed are ahead. -/
def atPair (c : Cursor) : Bool := c.peek 0 == '\r' && c.peek 1 == '\n'

/-- One character on.  A byte order mark takes no column. -/
def next (c : Cursor) : Cursor :=
  match c.rest with
  | [] => c
  | ch :: rest =>
    if isBreak ch && !c.atPair then
      { c with rest := rest, index := c.index + 1, line := c.line + 1, column := 0 }
    else
      { c with
        rest := rest
        index := c.index + 1
        column := if ch == '\ufeff' then c.column else c.column + 1 }

/-- Some characters on. -/
def advance : Nat → Cursor → Cursor
  | 0, c => c
  | n + 1, c => advance n c.next

/-- The characters of a class that are ahead, and the place behind them. -/
def takeWhile (p : Char → Bool) (c : Cursor) : List Char × Cursor :=
  let run := c.rest.takeWhile p
  (run, c.advance run.length)

/-- Behind the characters of a class that are ahead. -/
def skipWhile (p : Char → Bool) (c : Cursor) : Cursor := (c.takeWhile p).2

/-- Behind the blanks that are ahead. -/
def skipBlanks (c : Cursor) : Cursor := c.skipWhile (· == ' ')

/-- A line break that is ahead, as it is kept in values, and the place behind it. -/
def lineBreak? (c : Cursor) : Option (Char × Cursor) :=
  if c.atPair then some ('\n', c.advance 2)
  else if c.head == '\u2028' || c.head == '\u2029' then some (c.head, c.next)
  else if isBreak c.head then some ('\n', c.next)
  else none

/-- Behind a comment, if one is ahead. -/
def skipComment (c : Cursor) : Cursor :=
  if c.head == '#' then c.skipWhile fun ch => !isLineEnd ch else c

/-- Whether a mark of three characters followed by a gap is ahead. -/
def atMark (mark : Char) (c : Cursor) : Bool :=
  c.peek 0 == mark && c.peek 1 == mark && c.peek 2 == mark && isGap (c.peek 3)

/-- Whether the start or the end of a document is marked ahead. -/
def atDocumentMark (c : Cursor) : Bool := c.atMark '-' || c.atMark '.'

theorem rest_next (c : Cursor) : c.next.rest = c.rest.tail := by
  unfold next
  split
  · next h => simp [h]
  · next ch rest h =>
      rw [h]
      by_cases hb : (isBreak ch && !c.atPair) = true <;> simp [hb]

theorem rest_advance (n : Nat) (c : Cursor) : (c.advance n).rest = c.rest.drop n := by
  induction n generalizing c with
  | zero => rfl
  | succ n ih => rw [advance, ih, rest_next, ← List.drop_one, List.drop_drop, Nat.add_comm]

end Cursor

end MixedInteger.Yaml
