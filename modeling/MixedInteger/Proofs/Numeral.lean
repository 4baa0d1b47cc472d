/-
**Number texts are read back.**

Whatever the layout of a decimal, reading its digits around the point and its exponent gives the number
that the decimal stands for.  The decimal that is written for a double is near it, so the double is read
back from it; infinities and what is not a number have words of their own.

Main definitions:

* `MixedInteger.Literal.ExponentPart` — what stands behind the digits for a power of ten;
* `MixedInteger.Literal.Reads` — a text that is read as a decimal numeral of some value.

Main results:

* `MixedInteger.Literal.whole?_toString` — a whole number is read back;
* `MixedInteger.Notation.reads_layout` — a decimal is read with its value, in every layout;
* `MixedInteger.Notation.real?_snapshot` — **a double is read back from its text**.
-/

import MixedInteger.Numeric.Notation
import MixedInteger.Proofs.Bits
import MixedInteger.Proofs.Shortest

set_option autoImplicit false

namespace MixedInteger

namespace Literal

/-! ### Digits -/

/-- A run of characters of one kind ends where another one begins. -/
theorem takeWhile_append_of_stop {p : Char → Bool} {run rest : List Char} (hrun : ∀ c ∈ run, p c = true)
    (hrest : ∀ c ∈ rest.head?, p c = false) :
    (run ++ rest).takeWhile p = run ∧ (run ++ rest).dropWhile p = rest := by
  rw [List.takeWhile_append_of_pos hrun, List.dropWhile_append_of_pos hrun]
  cases rest with
  | nil => simp
  | cons c rest => simp [hrest c rfl]

theorem natOfDigits_digits (n : Nat) : natOfDigits (Decimal.digits n) = n :=
  Nat.ofDigitChars_ten_toDigits

/-- Zeros in front of digits do not count. -/
theorem natOfDigits_zeros_append (k : Nat) (ds : List Char) :
    natOfDigits (List.replicate k '0' ++ ds) = natOfDigits ds := by
  have hzeros : Nat.ofDigitChars 10 (List.replicate k '0') 0 = 0 := by
    rw [Nat.ofDigitChars_replicate_zero, Nat.mul_zero]
  change Nat.ofDigitChars 10 (List.replicate k '0' ++ ds) 0 = Nat.ofDigitChars 10 ds 0
  rw [Nat.ofDigitChars_append, hzeros]

/-- Zeros behind digits are a power of ten. -/
theorem natOfDigits_append_zeros (ds : List Char) (k : Nat) :
    natOfDigits (ds ++ List.replicate k '0') = 10 ^ k * natOfDigits ds := by
  change Nat.ofDigitChars 10 (ds ++ List.replicate k '0') 0 = 10 ^ k * Nat.ofDigitChars 10 ds 0
  rw [Nat.ofDigitChars_append, Nat.ofDigitChars_replicate_zero]

theorem isDigit_of_mem_digits {n : Nat} {c : Char} (h : c ∈ Decimal.digits n) : c.isDigit = true :=
  Nat.isDigit_of_mem_toDigits (by decide) (by decide) h

theorem isDigit_of_mem_zeros {k : Nat} {c : Char} (h : c ∈ List.replicate k '0') :
    c.isDigit = true := by
  rw [List.eq_of_mem_replicate h]
  rfl

/-! ### Whole numbers -/

/-- Digits have no sign in front. -/
theorem splitSign_of_isDigit {c : Char} (hc : c.isDigit = true) (cs : List Char) :
    splitSign (c :: cs) = (false, c :: cs) := by
  unfold splitSign
  split
  · next h =>
      cases h
      exact absurd hc (by decide)
  · next h =>
      cases h
      exact absurd hc (by decide)
  · rfl

/-- Digits behind a sign, or without one, are read as a whole number. -/
theorem whole?_of_splitSign {cs ds : List Char} {s : Bool} (hsign : splitSign cs = (s, ds))
    (hne : ds ≠ []) (hds : ∀ c ∈ ds, c.isDigit = true) :
    whole? cs = some (Binary64.signed s (natOfDigits ds)) := by
  rw [whole?, hsign]
  have hdigits : (ds.isEmpty || !ds.all Char.isDigit) = false := by
    simpa [List.isEmpty_iff, hne] using hds
  simp only [hdigits, Bool.false_eq_true, if_false]

/-- What is split off is a sign, if anything. -/
theorem exists_sign_append (cs : List Char) :
    ∃ sign, cs = sign ++ (splitSign cs).2 ∧ ∀ c ∈ sign, c = '+' ∨ c = '-' := by
  unfold splitSign
  split
  · exact ⟨['-'], rfl, by simp⟩
  · exact ⟨['+'], rfl, by simp⟩
  · exact ⟨[], rfl, by simp⟩

/-- A whole number is written with digits and a sign, and with nothing else. -/
theorem characters_of_whole? {cs : List Char} {n : Int} (h : whole? cs = some n) :
    cs ≠ [] ∧ ∀ c ∈ cs, c.isDigit = true ∨ c = '+' ∨ c = '-' := by
  have hdigits : (splitSign cs).2 ≠ [] ∧ ∀ c ∈ (splitSign cs).2, c.isDigit = true := by
    rw [whole?] at h
    dsimp only at h
    split at h
    · cases h
    · next hdigits => simpa [List.isEmpty_iff] using hdigits
  obtain ⟨sign, hcs, hsign⟩ := exists_sign_append cs
  rw [hcs]
  refine ⟨List.append_ne_nil_of_right_ne_nil _ hdigits.1, fun c hc => ?_⟩
  rcases List.mem_append.1 hc with hc | hc
  · exact Or.inr (hsign c hc)
  · exact Or.inl (hdigits.2 c hc)

theorem digits_ne_nil (k : Nat) : Decimal.digits k ≠ [] := Nat.toDigits_ne_nil

theorem splitSign_digits (k : Nat) : splitSign (Decimal.digits k) = (false, Decimal.digits k) := by
  obtain ⟨c, cs, hcs⟩ := List.exists_cons_of_ne_nil (digits_ne_nil k)
  have hc : c.isDigit = true := isDigit_of_mem_digits (hcs ▸ List.mem_cons_self)
  rw [hcs]
  exact splitSign_of_isDigit hc cs

/-- The digits of a number are read as that number, with whatever sign they have. -/
theorem whole?_of_splitSign_digits {cs : List Char} {s : Bool} {k : Nat}
    (hsign : splitSign cs = (s, Decimal.digits k)) : whole? cs = some (Binary64.signed s k) := by
  rw [whole?_of_splitSign hsign (digits_ne_nil k) fun c => isDigit_of_mem_digits, natOfDigits_digits]

/-- A whole number is read back from its text. -/
theorem whole?_toString (n : Int) : whole? (toString n).toList = some n := by
  rw [Int.toString_eq_repr, Int.repr_eq_if]
  split
  · next hn =>
      obtain ⟨k, rfl⟩ := Int.eq_ofNat_of_zero_le hn
      rw [Int.toNat_natCast, Nat.toList_repr]
      exact whole?_of_splitSign_digits (splitSign_digits k)
  · next hn =>
      obtain ⟨k, hk⟩ := Int.eq_ofNat_of_zero_le (show 0 ≤ -n by omega)
      obtain rfl : n = -(k : Int) := by omega
      rw [hk, Int.toNat_natCast, String.toList_append, Nat.toList_repr]
      have hsign : splitSign ("-".toList ++ Nat.toDigits 10 k) = (true, Decimal.digits k) := rfl
      exact whole?_of_splitSign_digits hsign

/-! ### Exponents -/

/-- Characters of decimal numerals. -/
def inNumeral (c : Char) : Bool := c.isDigit || c == '.' || c == 'e' || c == '+' || c == '-'

theorem inNumeral_of_isDigit {c : Char} (hc : c.isDigit = true) : inNumeral c = true := by
  simp [inNumeral, hc]

/-- What stands behind the digits of a numeral for a power of ten, or nothing for the power zero. -/
structure ExponentPart (rest : List Char) (e : Int) : Prop where
  read : exponent? rest = some e
  stop : ∀ c ∈ rest.head?, c.isDigit = false ∧ c ≠ '.'
  characters : ∀ c ∈ rest, inNumeral c = true

theorem exponentPart_nil : ExponentPart [] 0 :=
  ⟨rfl, fun _ hc => absurd hc (by simp), fun _ hc => absurd hc (by simp)⟩

/-- The sign of an exponent, which may be left out if it is a plus. -/
def exponentSign (signs : Bool) (e : Int) : List Char :=
  if e < 0 then ['-'] else if signs then ['+'] else []

theorem splitSign_exponentSign (signs : Bool) (e : Int) {ds : List Char} (hne : ds ≠ [])
    (hds : ∀ c ∈ ds, c.isDigit = true) :
    splitSign (exponentSign signs e ++ ds) = (decide (e < 0), ds) := by
  unfold exponentSign
  by_cases he : e < 0
  · simp [he, splitSign]
  · cases signs
    · obtain ⟨c, cs, rfl⟩ := List.exists_cons_of_ne_nil hne
      simp [he, splitSign_of_isDigit (hds c List.mem_cons_self)]
    · simp [he, splitSign]

theorem inNumeral_of_mem_exponentSign {signs : Bool} {e : Int} {c : Char}
    (hc : c ∈ exponentSign signs e) : inNumeral c = true := by
  unfold exponentSign at hc
  split at hc
  · rw [List.mem_singleton.1 hc]
    rfl
  · cases signs
    · cases hc
    · rw [List.mem_singleton.1 hc]
      rfl

/-- A mark, a sign and digits of some least width. -/
theorem exponentPart_cons (signs : Bool) (width : Nat) (e : Int) :
    ExponentPart ('e' :: (exponentSign signs e ++
      Notation.padLeft width (Decimal.digits e.natAbs))) e := by
  obtain ⟨ds, hpadded⟩ : ∃ ds, Notation.padLeft width (Decimal.digits e.natAbs) = ds := ⟨_, rfl⟩
  have hne : ds ≠ [] := by
    rw [← hpadded]
    exact List.append_ne_nil_of_right_ne_nil _ (digits_ne_nil _)
  have hds : ∀ c ∈ ds, c.isDigit = true := by
    rw [← hpadded]
    intro c hc
    exact (List.mem_append.1 hc).elim isDigit_of_mem_zeros isDigit_of_mem_digits
  have hvalue : natOfDigits ds = e.natAbs := by
    rw [← hpadded, Notation.padLeft, natOfDigits_zeros_append, natOfDigits_digits]
  have hsigned : Binary64.signed (decide (e < 0)) e.natAbs = e := by
    by_cases he : e < 0
    · rw [decide_eq_true he, Binary64.signed_true]
      omega
    · rw [decide_eq_false he, Binary64.signed_false]
      omega
  rw [hpadded]
  refine ⟨?_, ?_, ?_⟩
  · rw [exponent?, if_pos (Or.inl rfl),
      whole?_of_splitSign (splitSign_exponentSign signs e hne hds) hne hds, hvalue, hsigned]
  · intro c hc
    cases hc
    decide
  · intro c hc
    rcases List.mem_cons.1 hc with rfl | hc
    · rfl
    · exact (List.mem_append.1 hc).elim inNumeral_of_mem_exponentSign
        fun hc => inNumeral_of_isDigit (hds c hc)

/-! ### Decimal numerals -/

/-- A text without sign that is read as a decimal numeral with the given value. -/
structure Reads (cs : List Char) (v : ℚ) : Prop where
  starts : ∃ c rest, cs = c :: rest ∧ c.isDigit = true
  characters : ∀ c ∈ cs, inNumeral c = true
  value : ∃ (n : Nat) (e : Int), (n : ℚ) * 10 ^ e = v ∧ ∀ s, unsigned? s cs = some (scaledByTen s n e)

/-- Digits behind a point, which is left out with them or kept with a zero. -/
def fractionText (keep : Bool) (tail : List Char) : List Char :=
  if tail.isEmpty then (if keep then ['.', '0'] else []) else '.' :: tail

theorem unsigned?_of_digits {whole rest : List Char} {e : Int} (hne : whole ≠ [])
    (hwhole : ∀ c ∈ whole, c.isDigit = true) (hrest : ExponentPart rest e) (s : Bool) :
    unsigned? s (whole ++ rest) = some (scaledByTen s (natOfDigits whole) e) := by
  obtain ⟨htake, hdrop⟩ := takeWhile_append_of_stop hwhole fun c hc => (hrest.stop c hc).1
  rw [unsigned?, htake, hdrop]
  -- an exponent part does not begin with a point, so the digits have no fraction
  have hpoint : ∀ tail, rest ≠ '.' :: tail := by
    rintro tail rfl
    exact (hrest.stop '.' rfl).2 rfl
  split
  next fraction rest' hsplit =>
    have hparts : (([] : List Char), rest) = (fraction, rest') := by
      rw [← hsplit]
      split
      · next tail => exact absurd rfl (hpoint tail)
      · rfl
    cases hparts
    simp [hne, hrest.read]

theorem unsigned?_of_point {whole : List Char} (fraction : List Char) {rest : List Char} {e : Int}
    (hne : whole ≠ []) (hwhole : ∀ c ∈ whole, c.isDigit = true)
    (hfraction : ∀ c ∈ fraction, c.isDigit = true) (hrest : ExponentPart rest e) (s : Bool) :
    unsigned? s (whole ++ '.' :: (fraction ++ rest)) =
      some (scaledByTen s (natOfDigits (whole ++ fraction)) (e - fraction.length)) := by
  obtain ⟨htake, hdrop⟩ := takeWhile_append_of_stop hwhole
    fun c (hc : c ∈ ('.' :: (fraction ++ rest)).head?) => by cases hc; rfl
  obtain ⟨htake', hdrop'⟩ := takeWhile_append_of_stop hfraction fun c hc => (hrest.stop c hc).1
  rw [unsigned?, htake, hdrop]
  simp [htake', hdrop', hne, hrest.read]

theorem inNumeral_of_mem_fractionText {keep : Bool} {tail : List Char}
    (htail : ∀ c ∈ tail, c.isDigit = true) {c : Char} (hc : c ∈ fractionText keep tail) :
    inNumeral c = true := by
  unfold fractionText at hc
  split at hc
  · cases keep
    · cases hc
    · fin_cases hc <;> rfl
  · rcases List.mem_cons.1 hc with rfl | hc
    · rfl
    · exact inNumeral_of_isDigit (htail c hc)

/-- Digits with a point somewhere, and an exponent. -/
theorem reads_parts (whole tail : List Char) {rest : List Char} {e : Int} (keep : Bool)
    (hne : whole ≠ []) (hwhole : ∀ c ∈ whole, c.isDigit = true) (htail : ∀ c ∈ tail, c.isDigit = true)
    (hrest : ExponentPart rest e) :
    Reads (whole ++ (fractionText keep tail ++ rest))
      (natOfDigits (whole ++ tail) * 10 ^ (e - tail.length)) := by
  refine ⟨?_, ?_, ?_⟩
  · obtain ⟨c, cs, rfl⟩ := List.exists_cons_of_ne_nil hne
    exact ⟨c, _, rfl, hwhole c List.mem_cons_self⟩
  · intro c hc
    rcases List.mem_append.1 hc with hc | hc
    · exact inNumeral_of_isDigit (hwhole c hc)
    · exact (List.mem_append.1 hc).elim (inNumeral_of_mem_fractionText htail)
        (hrest.characters c)
  · by_cases hempty : tail = []
    · subst hempty
      cases keep
      · exact ⟨_, _, by simp, unsigned?_of_digits hne hwhole hrest⟩
      · -- the zero behind the point is one more digit, and one more power of ten
        refine ⟨_, _, ?_, unsigned?_of_point ['0'] hne hwhole (by simp) hrest⟩
        have hzero := natOfDigits_append_zeros whole 1
        rw [List.replicate_one] at hzero
        rw [hzero, List.append_nil]
        simp [zpow_sub₀]
        ring
    · refine ⟨_, _, rfl, ?_⟩
      simp only [fractionText, List.isEmpty_iff, hempty, if_false, List.cons_append]
      exact unsigned?_of_point tail hne hwhole htail hrest

end Literal

namespace Notation

open Literal

/-! ### Layouts -/

variable (style : Style)

section Parts

variable {ds : List Char} (hne : ds ≠ []) (hds : ∀ c ∈ ds, c.isDigit = true) (leading : Int)

include hne hds

theorem reads_withExponent :
    Reads (withExponent style ds leading) (natOfDigits ds * 10 ^ (leading + 1 - ds.length)) := by
  have hread := reads_parts (ds.take 1) (ds.drop 1) style.keepsPointBeforeExponent
    (fun h => hne ((List.take_eq_nil_iff.1 h).resolve_left one_ne_zero))
    (fun c hc => hds c (List.mem_of_mem_take hc)) (fun c hc => hds c (List.mem_of_mem_drop hc))
    (exponentPart_cons style.signsExponent style.exponentWidth leading)
  rw [List.take_append_drop, List.length_drop] at hread
  have hpos : 0 < ds.length := List.length_pos_of_ne_nil hne
  have hexponent : leading - ((ds.length - 1 : Nat) : Int) = leading + 1 - ds.length := by omega
  rw [hexponent] at hread
  simpa [withExponent, fractionText, exponentSign] using hread

/-- A number below one has a zero before the point, and zeros behind it in front of the digits. -/
theorem reads_writtenOut_of_neg (hneg : leading < 0) :
    Reads (writtenOut style ds leading) (natOfDigits ds * 10 ^ (leading + 1 - ds.length)) := by
  obtain ⟨k, hk⟩ : ∃ k, leading.natAbs - 1 = k := ⟨_, rfl⟩
  have hread := reads_parts ['0'] (List.replicate k '0' ++ ds) false (List.cons_ne_nil _ _) (by simp)
    (fun c hc => (List.mem_append.1 hc).elim isDigit_of_mem_zeros (hds c)) exponentPart_nil
  have hzeros : natOfDigits (['0'] ++ (List.replicate k '0' ++ ds)) = natOfDigits ds := by
    rw [← List.append_assoc, ← List.replicate_one, List.replicate_append_replicate,
      natOfDigits_zeros_append]
  have hexponent : 0 - ((List.replicate k '0' ++ ds).length : Int) = leading + 1 - ds.length := by
    rw [List.length_append, List.length_replicate]
    omega
  rw [hzeros, hexponent] at hread
  simpa [writtenOut, hneg, hk, fractionText, hne] using hread

/-- Any other number has its point among the digits, or behind zeros that fill up what is missing. -/
theorem reads_writtenOut_of_nonneg (hnonneg : 0 ≤ leading) :
    Reads (writtenOut style ds leading) (natOfDigits ds * 10 ^ (leading + 1 - ds.length)) := by
  obtain ⟨count, hcount⟩ : ∃ count, leading.toNat + 1 = count := ⟨_, rfl⟩
  have hleading : leading + 1 = count := by omega
  have hread := reads_parts
    (ds.take count ++ List.replicate (count - (ds.take count).length) '0') (ds.drop count)
    style.keepsPoint
    (List.append_ne_nil_of_left_ne_nil
      (fun h => hne ((List.take_eq_nil_iff.1 h).resolve_left (by omega))) _)
    (fun c hc => (List.mem_append.1 hc).elim (fun hc => hds c (List.mem_of_mem_take hc))
      isDigit_of_mem_zeros)
    (fun c hc => hds c (List.mem_of_mem_drop hc)) exponentPart_nil
  have hvalue : (natOfDigits (ds.take count ++ List.replicate (count - (ds.take count).length) '0' ++
      ds.drop count) : ℚ) * 10 ^ (0 - ((ds.drop count).length : Int)) =
        natOfDigits ds * 10 ^ (leading + 1 - ds.length) := by
    rcases Nat.lt_or_ge count ds.length with hlong | hshort
    · rw [List.length_take_of_le hlong.le, Nat.sub_self, List.replicate_zero, List.append_nil,
        List.take_append_drop, List.length_drop, hleading]
      congr 2
      omega
    · have hexponent : leading + 1 - ds.length = (count - ds.length : Nat) := by omega
      rw [List.take_of_length_le hshort, List.drop_of_length_le hshort, List.append_nil,
        natOfDigits_append_zeros, hexponent, zpow_natCast]
      simp [mul_comm]
  rw [hvalue] at hread
  simpa [writtenOut, not_lt.2 hnonneg, hcount, fractionText] using hread

end Parts

/-- **A decimal is read with its value, in every layout.** -/
theorem reads_layout (x : Decimal) : Reads (layout style x) x.value := by
  have hne := digits_ne_nil x.significand
  have hds : ∀ c ∈ Decimal.digits x.significand, c.isDigit = true := fun c => isDigit_of_mem_digits
  have hvalue : x.value = natOfDigits (Decimal.digits x.significand) *
      10 ^ (x.leading + 1 - (Decimal.digits x.significand).length) := by
    rw [natOfDigits_digits]
    rfl
  rw [hvalue]
  unfold layout
  dsimp only
  split
  · rcases lt_or_ge x.leading 0 with hneg | hnonneg
    · exact reads_writtenOut_of_neg style hne hds x.leading hneg
    · exact reads_writtenOut_of_nonneg style hne hds x.leading hnonneg
  · exact reads_withExponent style hne hds x.leading

/-- What keeps its point has a point or an exponent. -/
theorem exists_mark_layout {style : Style} (hpoint : style.keepsPoint = true) (x : Decimal) :
    ∃ c ∈ layout style x, c = '.' ∨ c = 'e' := by
  unfold layout
  dsimp only
  split
  · unfold writtenOut
    split
    · exact ⟨'.', by simp, Or.inl rfl⟩
    · refine ⟨'.', List.mem_append_right _ ?_, Or.inl rfl⟩
      split <;> exact List.mem_cons_self
  · exact ⟨'e', by simp [withExponent], Or.inr rfl⟩

/-! ### Signs and words -/

theorem isAlpha_eq_false_of_isDigit {c : Char} (hc : c.isDigit = true) : c.isAlpha = false := by
  grind [Char.isAlpha, Char.isDigit, Char.isUpper, Char.isLower]

/-- What begins with a digit is none of the words. -/
theorem map_toLower_ne_word {c : Char} (hc : c.isDigit = true) (rest : List Char) (word : String)
    {first : Char} {letters : List Char} (hword : word.toList = first :: letters)
    (hfirst : first.isAlpha = true) :
    (String.ofList ((c :: rest).map Char.toLower) == word) = false := by
  rw [beq_eq_false_iff_ne]
  rintro rfl
  rw [String.toList_ofList, List.map_cons] at hword
  rw [← (List.cons.inj hword).1, Char.isAlpha_toLower_eq_isAlpha,
    isAlpha_eq_false_of_isDigit hc] at hfirst
  cases hfirst

/-- A numeral is read behind a minus sign or without one. -/
theorem real?_of_reads {cs : List Char} {v : ℚ} (h : Reads cs v) : ∃ (n : Nat) (e : Int),
    (n : ℚ) * 10 ^ e = v ∧
      ∀ s : Bool, real? (if s then '-' :: cs else cs) = some (scaledByTen s n e) := by
  obtain ⟨c, rest, rfl, hc⟩ := h.starts
  obtain ⟨n, e, hvalue, hread⟩ := h.value
  refine ⟨n, e, hvalue, fun s => ?_⟩
  have hsplit : splitSign (if s then '-' :: c :: rest else c :: rest) = (s, c :: rest) := by
    cases s
    · exact splitSign_of_isDigit hc rest
    · rfl
  have hinf := map_toLower_ne_word hc rest "inf" rfl rfl
  have hinfinity := map_toLower_ne_word hc rest "infinity" rfl rfl
  have hnan := map_toLower_ne_word hc rest "nan" rfl rfl
  rw [real?, hsplit]
  dsimp only
  rw [hinf, hinfinity, hnan]
  exact hread s

/-! ### Doubles -/

/-- The decimal that is written for a magnitude. -/
def magnitude (m : Nat) (q : Int) : Decimal := if m = 0 then ⟨0, 0⟩ else Decimal.shortest m q

/-- Where the fewest digits are kept, a double is written as the decimal of its magnitude. -/
theorem toList_write_finite {style : Style} (hfewest : style.significant = none) (s : Bool) (m : Nat)
    (q : Int) : (write style (.finite s m q)).toList =
      if s then '-' :: layout style (magnitude m q) else layout style (magnitude m q) := by
  unfold write magnitude
  simp only [hfewest, String.toList_ofList]
  rw [apply_ite (layout style)]

/-- The decimal of a magnitude is read back, behind a minus sign or without one. -/
theorem real?_magnitude (style : Style) {m : Nat} {q : Int} (hm : Binary64.Normal m q) (s : Bool) :
    real? (if s then '-' :: layout style (magnitude m q) else layout style (magnitude m q)) =
      some (Binary64.assemble s (Binary64.encodeMagnitude m q)) := by
  unfold magnitude
  by_cases hzero : m = 0
  · -- nothing is near zero but zero itself, which has a layout of its own
    obtain ⟨n, e, hvalue, hread⟩ := real?_of_reads (reads_layout style ⟨0, 0⟩)
    have hn : n = 0 := by
      have hten : (10 : ℚ) ^ e ≠ 0 := by positivity
      simpa [Decimal.value, hten] using hvalue
    subst hzero hn
    rw [if_pos rfl, hread s, scaledByTen, if_pos (Or.inl rfl),
      Binary64.encodeMagnitude_of_lt q (twoPow_pos 52)]
  · have hpos : 0 < m := Nat.pos_of_ne_zero hzero
    obtain ⟨n, e, hvalue, hread⟩ := real?_of_reads (reads_layout style (Decimal.shortest m q))
    have hnear := Decimal.near_shortest hm hpos
    rw [← hvalue] at hnear
    rw [if_neg hzero, ← scaledByTen_of_near hm hpos hnear s]
    exact hread s

/-- The text of a double: a word, or the layout of a decimal, behind a minus sign or without one. -/
theorem snapshot_cases (x : Float) :
    snapshot x ∈ ["NaN", "-Infinity", "Infinity"] ∨ ∃ (s : Bool) (d : Decimal), (snapshot x).toList =
      if s then '-' :: layout snapshotStyle d else layout snapshotStyle d := by
  unfold snapshot
  cases Binary64.ofFloat x with
  | nan => exact Or.inl List.mem_cons_self
  | infinite s =>
      left
      cases s
      · exact List.mem_cons_of_mem _ (List.mem_cons_of_mem _ List.mem_cons_self)
      · exact List.mem_cons_of_mem _ List.mem_cons_self
  | finite s m q => exact Or.inr ⟨s, magnitude m q, toList_write_finite rfl s m q⟩

/-- What is not a number is one value. -/
theorem eq_of_ofFloat_nan {x : Float} (h : Binary64.ofFloat x = .nan) : x = 0.0 / 0.0 := by
  have hnan := Binary64.isNaN_of_ofFloat_eq_nan h
  rw [Float.isNaN_eq_decide_eq_nan, decide_eq_true_iff] at hnan
  rw [hnan]
  rfl

/-- **A double is read back from its text**; there is one value only that is not a number. -/
theorem real?_snapshot (x : Float) : real? (snapshot x).toList = some x := by
  unfold snapshot
  cases h : Binary64.ofFloat x with
  | nan =>
      rw [eq_of_ofFloat_nan h]
      rfl
  | infinite s =>
      rw [Binary64.eq_of_ofFloat_infinite h]
      cases s
      · rfl
      · rfl
  | finite s m q =>
      obtain ⟨hm, hassemble⟩ := Binary64.eq_assemble_of_ofFloat h
      rw [toList_write_finite rfl, real?_magnitude snapshotStyle hm, hassemble]

end Notation

end MixedInteger
