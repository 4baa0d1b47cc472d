/-
**Documents from their compact text.**

The compact text of a document is read from left to right, one value at a time.  How much is left of the
text bounds how deep values can lie within each other, so the length of the text is fuel enough.

What is read is the text that `Document.json` writes.  JSON at large is another language: it has white
space between its tokens and pairs of surrogates in its strings, which are not read here, and it has no
words such as `nan`, no leading zeros and no bare line breaks in a string, which are.

Main definitions:

* `MixedInteger.Document.Parse.string` — the rest of a string, up to the closing quote;
* `MixedInteger.Document.Parse.scalar?` — a word or a numeral;
* `MixedInteger.Document.Parse.value` — a value, and what follows it;
* `MixedInteger.Document.ofJson?` — the document of a text.
-/

import MixedInteger.Document.Basic
import MixedInteger.Numeric.Literal

set_option autoImplicit false

namespace MixedInteger.Document

namespace Parse

/-! ### Strings -/

/-- The value of hexadecimal digits. -/
def hexValue? (ds : List Char) : Option Nat :=
  ds.foldlM (fun n c => (Literal.hexDigit? c).map (16 * n + ·)) 0

/-- The character with a number, if there is one. -/
def character? (n : Nat) : Option Char := if n.isValidChar then some (Char.ofNat n) else none

/-- The character that a letter behind a backslash stands for. -/
def escaped? (c : Char) : Option Char :=
  if c = '"' ∨ c = '\\' ∨ c = '/' then some c
  else if c = 'n' then some '\n'
  else if c = 'r' then some '\r'
  else if c = 't' then some '\t'
  else if c = 'b' then some (Char.ofNat 8)
  else if c = 'f' then some (Char.ofNat 12)
  else none

/-- The characters of a string up to the closing quote, and what follows it. -/
def string : List Char → Option (List Char × List Char)
  | [] => none
  | '"' :: rest => some ([], rest)
  | '\\' :: 'u' :: a :: b :: c :: d :: rest => do
    let n ← hexValue? [a, b, c, d]
    let x ← character? n
    let (cs, rest) ← string rest
    return (x :: cs, rest)
  | '\\' :: c :: rest => do
    let x ← escaped? c
    let (cs, rest) ← string rest
    return (x :: cs, rest)
  | c :: rest => do
    let (cs, rest) ← string rest
    return (c :: cs, rest)

/-- The name of a field and the colon behind it, and what follows them. -/
def fieldName : List Char → Option (String × List Char)
  | '"' :: cs =>
    match string cs with
    | some (name, ':' :: rest) => some (String.ofList name, rest)
    | _ => none
  | _ => none

/-! ### Words and numerals -/

/-- Whether a character may stand in a word or a numeral. -/
def inScalar (c : Char) : Bool := c.isAlphanum || c == '+' || c == '-' || c == '.'

/-- A word, a whole number or a real number. -/
def scalar? (cs : List Char) : Option Document :=
  if cs = ['n', 'u', 'l', 'l'] then some .null
  else if cs = ['t', 'r', 'u', 'e'] then some (.bool true)
  else if cs = ['f', 'a', 'l', 's', 'e'] then some (.bool false)
  else ((Literal.whole? cs).map .whole).or ((Literal.real? cs).map .real)

/-! ### Values -/

mutual

/-- A value, and what follows it. -/
def value : Nat → List Char → Option (Document × List Char)
  | 0, _ => none
  | fuel + 1, cs =>
    match cs with
    | '"' :: rest => (string rest).map fun p => (.string (String.ofList p.1), p.2)
    | '[' :: ']' :: rest => some (.list [], rest)
    | '[' :: rest => (items fuel rest).map fun p => (.list p.1, p.2)
    | '\x7b' :: '\x7d' :: rest => some (.record [], rest)
    | '\x7b' :: rest => (fields fuel rest).map fun p => (.record p.1, p.2)
    | cs => (scalar? (cs.takeWhile inScalar)).map fun d => (d, cs.dropWhile inScalar)

/-- Values between commas up to the closing bracket, and what follows it. -/
def items : Nat → List Char → Option (List Document × List Char)
  | 0, _ => none
  | fuel + 1, cs => do
    let (d, rest) ← value fuel cs
    match rest with
    | ']' :: rest => return ([d], rest)
    | ',' :: rest => (items fuel rest).map fun p => (d :: p.1, p.2)
    | _ => none

/-- Fields between commas up to the closing brace, and what follows it. -/
def fields : Nat → List Char → Option (List (String × Document) × List Char)
  | 0, _ => none
  | fuel + 1, cs => do
    let (name, rest) ← fieldName cs
    let (d, rest) ← value fuel rest
    match rest with
    | '\x7d' :: rest => return ([(name, d)], rest)
    | ',' :: rest => (fields fuel rest).map fun p => ((name, d) :: p.1, p.2)
    | _ => none

end

end Parse

/-- The document of a text that `Document.json` writes.  The text holds one value and nothing else, no white
space beside it or within.  A text of another form is not checked for being JSON: `\uD83D\uDE00` and
`[1, 2]` are refused, `01`, `+1` and `nan` are taken. -/
def ofJson? (text : String) : Option Document :=
  match Parse.value (text.toList.length + 1) text.toList with
  | some (d, []) => some d
  | _ => none

end MixedInteger.Document
