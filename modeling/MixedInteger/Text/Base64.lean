/-
**Bytes written with sixty-four characters.**

Four characters stand for three bytes.  Other characters do not count; a mark that fills up an
unfinished group of four ends the text.

Main definitions:

* `MixedInteger.Text.sextet?` — the value of a character;
* `MixedInteger.Text.ofBase64?` — the bytes of a text, whose last group has to be finished.
-/

set_option autoImplicit false

namespace MixedInteger.Text

/-- The value of one of the sixty-four characters. -/
def sextet? (c : Char) : Option Nat :=
  if 'A' ≤ c && c ≤ 'Z' then some (c.toNat - 'A'.toNat)
  else if 'a' ≤ c && c ≤ 'z' then some (c.toNat - 'a'.toNat + 26)
  else if '0' ≤ c && c ≤ '9' then some (c.toNat - '0'.toNat + 52)
  else if c == '+' then some 62
  else if c == '/' then some 63
  else none

/-- A group of four characters under way. -/
structure Base64Group where
  /-- How many of its characters were read. -/
  place : Nat
  /-- The bits that do not make a byte yet. -/
  pending : Nat
  /-- How many marks followed the last character. -/
  marks : Nat

namespace Base64Group

/-- Before the first character. -/
def start : Base64Group := ⟨0, 0, 0⟩

/-- The group behind one more character, and the byte that the character completes. -/
def push (g : Base64Group) (n : Nat) : Option UInt8 × Base64Group :=
  match g.place with
  | 0 => (none, ⟨1, n, 0⟩)
  | 1 => (some (UInt8.ofNat (4 * g.pending + n / 16)), ⟨2, n % 16, 0⟩)
  | 2 => (some (UInt8.ofNat (16 * g.pending + n / 4)), ⟨3, n % 4, 0⟩)
  | _ => (some (UInt8.ofNat (64 * g.pending + n)), start)

/-- The group behind one more mark; a mark before the third character does not count. -/
def pushMark (g : Base64Group) : Base64Group :=
  if 2 ≤ g.place then { g with marks := g.marks + 1 } else g

/-- Whether marks fill the group up. -/
def isFilled (g : Base64Group) : Bool := 2 ≤ g.place && 4 ≤ g.place + g.marks

/-- The bytes of the characters that follow. -/
def decode? (g : Base64Group) : List Char → Option (List UInt8)
  | [] => if g.place = 0 then some [] else none
  | c :: rest =>
    if c == '=' then if g.pushMark.isFilled then some [] else g.pushMark.decode? rest
    else
      match sextet? c with
      | none => g.decode? rest
      | some n =>
        let (byte, next) := g.push n
        (next.decode? rest).map (byte.toList ++ ·)

end Base64Group

/-- The bytes of a text. -/
def ofBase64? (cs : List Char) : Option ByteArray :=
  (Base64Group.start.decode? cs).map fun bytes => ⟨bytes.toArray⟩

end MixedInteger.Text
