/-
**Characters from bytes.**

A character is written as one to four bytes.  The first of them tells how many follow, and the second
one is confined to a range that leaves out what could be written shorter, halves of characters and what
is no code point.

Main definitions:

* `MixedInteger.Text.Utf8` — the state between two bytes; `Utf8.push` takes a byte;
* `MixedInteger.Text.ofUtf8Blocks` — the characters in front of the first block of bytes in which
  something is wrong.
-/

set_option autoImplicit false

namespace MixedInteger.Text

/-- What is known of a character of which some bytes were read. -/
structure Utf8 where
  /-- The bits read so far. -/
  bits : Nat
  /-- How many bytes are still to come. -/
  missing : Nat
  /-- The least and the greatest value that the next byte may have. -/
  least : Nat
  most : Nat
  deriving Repr, DecidableEq

namespace Utf8

/-- Between two characters. -/
def start : Utf8 := ⟨0, 0, 0, 0⟩

/-- The state behind the first byte of a character. -/
def first? (n : Nat) : Option Utf8 :=
  if n < 0x80 then some ⟨n, 0, 0, 0⟩
  else if n < 0xc2 then none
  else if n < 0xe0 then some ⟨n - 0xc0, 1, 0x80, 0xbf⟩
  else if n < 0xf0 then
    some ⟨n - 0xe0, 2, if n == 0xe0 then 0xa0 else 0x80, if n == 0xed then 0x9f else 0xbf⟩
  else if n < 0xf5 then
    some ⟨n - 0xf0, 3, if n == 0xf0 then 0x90 else 0x80, if n == 0xf4 then 0x8f else 0xbf⟩
  else none

/-- The state behind one more byte; nothing if that byte is wrong. -/
def push (s : Utf8) (b : UInt8) : Option Utf8 :=
  let n := b.toNat
  if s.missing == 0 then first? n
  else if s.least ≤ n && n ≤ s.most then
    some ⟨64 * s.bits + (n - 0x80), s.missing - 1, 0x80, 0xbf⟩
  else none

theorem push_start (b : UInt8) : start.push b = first? b.toNat := rfl

end Utf8

/-- The characters of bytes.  Where a byte is wrong, those that end in earlier blocks than that byte are
kept, `kept` being the ones of the blocks behind and `block` the ones of the block that is read; both
stand with the last one first.  The end of the bytes counts as a block of its own.  Also says whether a
byte was wrong. -/
def utf8From (blockSize : Nat) (s : Utf8) (kept block : List Char) (place : Nat) :
    List UInt8 → List Char × Bool
  | [] => ((block ++ kept).reverse, s.missing != 0)
  | b :: rest =>
    let isFirst := place % blockSize == 0
    let kept := if isFirst then block ++ kept else kept
    let block := if isFirst then [] else block
    match s.push b with
    | none => (kept.reverse, true)
    | some t =>
      let block := if t.missing == 0 then Char.ofNat t.bits :: block else block
      utf8From blockSize t kept block (place + 1) rest

/-- The characters of bytes that are read in blocks, up to the first block in which something is wrong,
and whether there is such a block. -/
def ofUtf8Blocks (blockSize : Nat) (bytes : ByteArray) : List Char × Bool :=
  utf8From blockSize .start [] [] 0 bytes.data.toList

end MixedInteger.Text
