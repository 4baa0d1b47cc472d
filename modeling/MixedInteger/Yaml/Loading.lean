/-
**Texts that are loaded in pieces.**

A text is loaded when it is asked for, one piece of characters after the other, and the first two pieces
together.  Bytes are turned into characters in blocks.  A piece with a character that no text may hold,
or one that needs a block in which a byte is wrong, cannot be loaded; the text breaks off in front of it.

Main definitions:

* `MixedInteger.Yaml.unifyBreaks` — line breaks within a file;
* `MixedInteger.Yaml.Stream.ofChars`, `MixedInteger.Yaml.Stream.ofBytes` — what can be loaded.

Main results:

* `MixedInteger.Yaml.Stream.ofChars_of_printable` — a text of characters that it may hold is loaded.
-/

import MixedInteger.Text.Utf8
import MixedInteger.Yaml.Cursor

set_option autoImplicit false

namespace MixedInteger.Yaml

/-- How many characters make a piece. -/
def pieceSize : Nat := 4096

/-- How many bytes make a block. -/
def blockSize : Nat := 8192

/-- The beginning of the piece that holds a place; the first two pieces count as one. -/
def pieceStart (place : Nat) : Nat :=
  if place < 2 * pieceSize then 0 else place / pieceSize * pieceSize

/-- All line breaks as line feeds. -/
def unifyBreaks : List Char → List Char
  | '\r' :: '\n' :: rest => '\n' :: unifyBreaks rest
  | '\r' :: rest => '\n' :: unifyBreaks rest
  | c :: rest => c :: unifyBreaks rest
  | [] => []

namespace Stream

/-- The pieces of a text in front of the first character that no text may hold. -/
def ofChars (cs : List Char) : Stream :=
  match cs.findIdx? fun c => !isPrintable c with
  | some place => ⟨cs.take (pieceStart place), some .malformed⟩
  | none => ⟨cs, none⟩

theorem ofChars_of_printable {cs : List Char} (h : ∀ c ∈ cs, isPrintable c = true) :
    ofChars cs = ⟨cs, none⟩ := by
  have hn : (cs.findIdx? fun c => !isPrintable c) = none := by
    simpa [List.findIdx?_eq_none_iff] using h
  simp [ofChars, hn]

/-- The pieces of a text that is kept as bytes. -/
def ofBytes (bytes : ByteArray) : Stream :=
  let (cs, isWrong) := Text.ofUtf8Blocks blockSize bytes
  let cs := unifyBreaks cs
  if isWrong then
    let s := ofChars (cs.take (pieceStart cs.length))
    { s with trouble := s.trouble.or (some .undecodable) }
  else ofChars cs

end Stream

end MixedInteger.Yaml
