/-
**The texts of reals in settings.**

A number in a settings file is told from a word, and from a whole number, by its point.  The layout for
settings keeps a point in every decimal, also in front of an exponent, and writes the sign of every
exponent; so its texts are those of reals, and there is nothing in them that a reader would cut off or pass
over.  The sign is read apart and the opposite taken in the end, which is exact.

Main definitions:

* `MixedInteger.Yaml.IsPointed` — digits around a point, and possibly an exponent with its sign.

Main results:

* `MixedInteger.Notation.isPointed_layout` — every decimal has a point;
* `MixedInteger.Yaml.ofPlain_settings` — a double is seen to be a real number;
* `MixedInteger.Yaml.readReal_settings` — **every double is read back from its text**, be it infinite or
  not a number.
-/

import MixedInteger.Proofs.Comparison
import MixedInteger.Proofs.Numeral
import MixedInteger.Proofs.Records

set_option autoImplicit false

namespace MixedInteger

open Notation (isAlpha_eq_false_of_isDigit)
open Literal (digits_ne_nil inNumeral isDigit_of_mem_digits isDigit_of_mem_zeros splitSign
  takeWhile_append_of_stop)

namespace Yaml

/-! ### Texts with a point -/

/-- Digits around a point, and possibly an exponent with its sign. -/
def IsPointed (cs : List Char) : Prop :=
  ∃ whole fraction rest, cs = whole ++ '.' :: (fraction ++ rest) ∧ whole ≠ [] ∧
    (∀ c ∈ whole, c.isDigit = true) ∧ (∀ c ∈ fraction, c.isDigit = true) ∧ isSignedExponent rest = true

theorem isGrouped_of_isDigit {c : Char} (hc : c.isDigit = true) : isGrouped c = true := by
  simp [isGrouped, hc]

/-- An exponent begins with neither a digit nor an underscore. -/
theorem isGrouped_of_isSignedExponent {rest : List Char} (h : isSignedExponent rest = true) :
    ∀ c ∈ rest.head?, isGrouped c = false := by
  intro c hc
  match rest, h with
  | [], _ => cases hc
  | [_], h => cases h
  | e :: sign :: ds, h =>
      cases hc
      simp only [isSignedExponent, Bool.and_eq_true, Bool.or_eq_true, beq_iff_eq] at h
      rcases h.1.1.1 with rfl | rfl <;> decide

/-- Digits around a point are a real number, behind a sign or without one. -/
theorem isReal_of_isPointed {cs : List Char} (h : IsPointed (splitSign cs).2) : isReal cs = true := by
  obtain ⟨whole, fraction, rest, hcs, hne, hwhole, hfraction, hrest⟩ := h
  obtain ⟨c, whole, rfl⟩ := List.exists_cons_of_ne_nil hne
  have hafter : afterDigits? (splitSign cs).2 = some ('.' :: (fraction ++ rest)) := by
    have hdrop : (whole ++ '.' :: (fraction ++ rest)).dropWhile isGrouped = '.' :: (fraction ++ rest) :=
      (takeWhile_append_of_stop (fun d hd => isGrouped_of_isDigit (hwhole d (List.mem_cons_of_mem _ hd)))
        (by simp; decide)).2
    rw [hcs, List.cons_append, afterDigits?, if_pos (hwhole c List.mem_cons_self), hdrop]
  have hexponent : isSignedExponent ((fraction ++ rest).dropWhile isGrouped) = true := by
    rw [(takeWhile_append_of_stop (fun d hd => isGrouped_of_isDigit (hfraction d hd))
      (isGrouped_of_isSignedExponent hrest)).2, hrest]
  unfold isReal
  simp only [hafter, hexponent, Bool.true_or]

end Yaml

namespace Notation

open Yaml (IsPointed isSignedExponent)

/-- Behind a point there is a digit. -/
theorem exists_fraction {tail : List Char} (htail : ∀ c ∈ tail, c.isDigit = true) :
    ∃ fraction, (∀ c ∈ fraction, c.isDigit = true) ∧
      (if tail.isEmpty then ['.', '0'] else '.' :: tail) = '.' :: fraction := by
  cases tail with
  | nil => exact ⟨['0'], by simp, rfl⟩
  | cons c tail => exact ⟨c :: tail, htail, rfl⟩

variable {ds : List Char} (hne : ds ≠ []) (hds : ∀ c ∈ ds, c.isDigit = true) (leading : Int)

include hne hds

theorem isPointed_withExponent : IsPointed (withExponent settingsStyle ds leading) := by
  obtain ⟨c, tail, rfl⟩ := List.exists_cons_of_ne_nil hne
  obtain ⟨fraction, hfraction, htext⟩ := exists_fraction fun d hd => hds d (List.mem_cons_of_mem _ hd)
  refine ⟨[c], fraction,
    'e' :: (if leading < 0 then '-' else '+') :: padLeft 2 (Decimal.digits leading.natAbs), ?_, by simp,
    by simpa using hds c List.mem_cons_self, hfraction, ?_⟩
  · have hsign : (if leading < 0 then ['-'] else if settingsStyle.signsExponent then ['+'] else []) =
        [if leading < 0 then '-' else '+'] := by
      split <;> rfl
    have hpoint : (if tail.isEmpty then
        (if settingsStyle.keepsPointBeforeExponent then ['.', '0'] else []) else '.' :: tail) =
          '.' :: fraction := htext
    simp only [withExponent, List.drop_succ_cons, List.drop_zero, List.take_succ_cons, List.take_zero,
      hsign, hpoint]
    simp [settingsStyle]
  · have hpadded : ∀ d ∈ padLeft 2 (Decimal.digits leading.natAbs), d.isDigit = true :=
      fun d hd => (List.mem_append.1 hd).elim isDigit_of_mem_zeros isDigit_of_mem_digits
    have hempty : (padLeft 2 (Decimal.digits leading.natAbs)).isEmpty = false :=
      List.isEmpty_eq_false_iff.2 (List.append_ne_nil_of_right_ne_nil _ (digits_ne_nil _))
    by_cases hleading : leading < 0 <;>
      simp [isSignedExponent, hleading, hempty, List.all_eq_true.2 hpadded]

theorem isPointed_writtenOut : IsPointed (writtenOut settingsStyle ds leading) := by
  unfold writtenOut
  split
  · refine ⟨['0'], List.replicate (leading.natAbs - 1) '0' ++ ds, [], by simp, by simp, by simp, ?_, rfl⟩
    exact fun d hd => (List.mem_append.1 hd).elim isDigit_of_mem_zeros (hds d)
  · obtain ⟨fraction, hfraction, htext⟩ :=
      exists_fraction fun d hd => hds d (List.mem_of_mem_drop (i := leading.toNat + 1) hd)
    refine ⟨ds.take (leading.toNat + 1) ++
      List.replicate (leading.toNat + 1 - (ds.take (leading.toNat + 1)).length) '0', fraction, [],
      ?_, ?_, ?_, hfraction, rfl⟩
    · have hpoint : (if (ds.drop (leading.toNat + 1)).isEmpty then
          (if settingsStyle.keepsPoint then ['.', '0'] else []) else '.' :: ds.drop (leading.toNat + 1)) =
            '.' :: fraction := htext
      simp only [hpoint, List.append_nil]
    · exact List.append_ne_nil_of_left_ne_nil (by simpa using hne) _
    · exact fun d hd => (List.mem_append.1 hd).elim (fun h => hds d (List.mem_of_mem_take h))
        isDigit_of_mem_zeros

omit hne hds

/-- Every decimal has a point. -/
theorem isPointed_layout (d : Decimal) : IsPointed (layout settingsStyle d) := by
  have hds : ∀ c ∈ Decimal.digits d.significand, c.isDigit = true := fun c => isDigit_of_mem_digits
  unfold layout
  dsimp only
  split
  · exact isPointed_writtenOut (digits_ne_nil _) hds _
  · exact isPointed_withExponent (digits_ne_nil _) hds _

end Notation

namespace Yaml

/-! ### Kinds -/

/-- Ordinary characters break no line. -/
theorem withoutLastBreak_of_ordinary {w : String} (h : ∀ c ∈ w.toList, isOrdinary c = true) :
    Tag.withoutLastBreak w = w := by
  have hlast : (w.toList.getLast? == some '\n') = false := by
    rw [beq_eq_false_iff_ne]
    intro heq
    exact absurd (h '\n' (List.mem_of_getLast? heq)) (by decide)
  simp only [Tag.withoutLastBreak, hlast, Bool.false_and, Bool.false_eq_true, if_false]

/-- Truth values begin with a letter. -/
theorem not_truthWord {w : String} {c : Char} {rest : List Char} (hw : w.toList = c :: rest)
    (hc : c.isAlpha = false) : (Tag.truthWords.flatMap fun w => Tag.spellings w.1).contains w = false := by
  have hletters : ∀ w ∈ Tag.truthWords.flatMap fun w => Tag.spellings w.1,
      w.toList.head?.any Char.isAlpha = true := by
    decide +kernel
  rw [List.contains_eq_mem, decide_eq_false_iff_not]
  intro hmem
  have hletter := hletters w hmem
  rw [hw] at hletter
  simp [hc] at hletter

/-- Digits around a point are seen to be a real number, and not a truth value. -/
theorem ofPlain_of_isPointed {w : String} (h : ∀ c ∈ w.toList, isOrdinary c = true)
    (hpointed : IsPointed (splitSign w.toList).2) : Tag.ofPlain w = .real := by
  obtain ⟨c, rest, hw, hc⟩ : ∃ c rest, w.toList = c :: rest ∧ c.isAlpha = false := by
    obtain ⟨whole, fraction, rest, hbody, hne, hwhole, -, -⟩ := hpointed
    obtain ⟨d, whole, rfl⟩ := List.exists_cons_of_ne_nil hne
    obtain ⟨sign, hw, hsign⟩ := Literal.exists_sign_append w.toList
    cases sign with
    | nil => exact ⟨d, _, hw.trans hbody, isAlpha_eq_false_of_isDigit (hwhole d List.mem_cons_self)⟩
    | cons c sign => exact ⟨c, _, hw, by rcases hsign c List.mem_cons_self with rfl | rfl <;> rfl⟩
  simp only [Tag.ofPlain, withoutLastBreak_of_ordinary h, Tag.ofLine, not_truthWord hw hc,
    Bool.false_eq_true, if_false, isReal_of_isPointed hpointed, if_true]

/-! ### Values -/

theorem isOrdinary_of_inNumeral {c : Char} (hc : inNumeral c = true) : isOrdinary c = true := by
  simp only [inNumeral, Bool.or_eq_true, beq_iff_eq] at hc
  rcases hc with (((h | rfl) | rfl) | rfl) | rfl
  · simp [isOrdinary, Char.isAlphanum, h]
  all_goals decide

theorem toLower_of_inNumeral {c : Char} (hc : inNumeral c = true) : c.toLower = c := by
  simp only [inNumeral, Bool.or_eq_true, beq_iff_eq] at hc
  rcases hc with (((h | rfl) | rfl) | rfl) | rfl
  · simp only [Char.isDigit, Bool.and_eq_true, decide_eq_true_eq] at h
    rw [Char.toLower, dif_neg (by grind)]
  all_goals rfl

section Numerals

variable {cs : List Char} (hcs : ∀ c ∈ cs, inNumeral c = true)

include hcs

/-- There is nothing to be cut off from a numeral. -/
theorem bare_of_inNumeral : Typed.bare cs = cs := by
  have hrange : ∀ c ∈ cs, 0x2b ≤ c.toNat ∧ c.toNat ≤ 0x7a :=
    fun c hc => toNat_of_isOrdinary (isOrdinary_of_inNumeral (hcs c hc))
  have hblank : ∀ c ∈ cs, Text.isBlank c = false := by
    intro c hc
    have := hrange c hc
    simp [Text.isBlank]
    omega
  have hkeep : ∀ ds : List Char, (∀ c ∈ ds, Text.isBlank c = false) → ds.dropWhile Text.isBlank = ds := by
    intro ds hds
    cases ds with
    | nil => rfl
    | cons d ds => rw [List.dropWhile_cons, hds d List.mem_cons_self, if_neg Bool.false_ne_true]
  have hplain : ∀ c ∈ cs, c.toNat < 127 := fun c hc => (hrange c hc).2.trans_lt (by decide)
  rw [Typed.bare, Text.plainNumeral_of_plain hplain, Text.trim, hkeep cs hblank,
    hkeep _ fun c hc => hblank c (List.mem_reverse.1 hc), List.reverse_reverse]

/-- Nor are there underscores in it. -/
theorem filter_of_inNumeral : cs.filter (· != '_') = cs := by
  refine List.filter_eq_self.2 fun c hc => ?_
  rw [bne_iff_ne]
  rintro rfl
  exact absurd (hcs '_' hc) (by decide)

theorem groupedDigits?_of_inNumeral : Literal.groupedDigits? cs = some cs := by
  have hgroup : ∀ before, Literal.underscoresGroup before cs = true := by
    have hplain : '_' ∉ cs := fun h => absurd (hcs '_' h) (by decide)
    clear hcs
    induction cs with
    | nil => exact fun _ => rfl
    | cons c cs ih =>
        intro before
        simp only [List.mem_cons, not_or] at hplain
        rw [Literal.underscoresGroup]
        · exact ih hplain.2 c
        · exact fun h => hplain.1 h.symm
  rw [Literal.groupedDigits?, if_pos (hgroup ' '), filter_of_inNumeral hcs]

theorem readDecimal_of_inNumeral {x : Float} (h : Literal.real? cs = some x) : readDecimal cs = .ok x := by
  rw [readDecimal, Typed.real?, bare_of_inNumeral hcs, groupedDigits?_of_inNumeral hcs, Option.bind_some, h]
  rfl

end Numerals

end Yaml

/-- The opposite of a double that is put together has the other sign. -/
theorem Binary64.neg_assemble {m : Nat} {q : Int} (h : Normal m q) :
    -assemble false (encodeMagnitude m q) = assemble true (encodeMagnitude m q) :=
  (eq_assemble_of_ofFloat (ofFloat_neg (ofFloat_assemble h))).2

namespace Yaml

open Notation (settingsStyle layout magnitude)

/-- A decimal behind a minus sign or without one is read as a real number. -/
theorem readReal_magnitude {m : Nat} {q : Int} (hm : Binary64.Normal m q) (s : Bool) :
    readReal (if s then '-' :: layout settingsStyle (magnitude m q)
      else layout settingsStyle (magnitude m q)) =
        .ok (Binary64.assemble s (Binary64.encodeMagnitude m q)) := by
  have hreads := Notation.reads_layout settingsStyle (magnitude m q)
  have hreal := Notation.real?_magnitude settingsStyle hm false
  rw [if_neg Bool.false_ne_true] at hreal
  obtain ⟨body, hbody⟩ : ∃ body, layout settingsStyle (magnitude m q) = body := ⟨_, rfl⟩
  rw [hbody] at hreads hreal ⊢
  have hdecimal := readDecimal_of_inNumeral hreads.characters hreal
  obtain ⟨c, rest, rfl, hc⟩ := hreads.starts
  have hcs : ∀ d ∈ (if s then '-' :: c :: rest else c :: rest), inNumeral d = true := by
    intro d hd
    cases s
    · exact hreads.characters d hd
    · rcases List.mem_cons.1 hd with rfl | hd
      · rfl
      · exact hreads.characters d hd
  have hlower : (if s then '-' :: c :: rest else c :: rest).map Char.toLower =
      if s then '-' :: c :: rest else c :: rest :=
    (List.map_congr_left fun d hd => toLower_of_inNumeral (hcs d hd)).trans (List.map_id' _)
  have hsplit : splitSign (if s then '-' :: c :: rest else c :: rest) = (s, c :: rest) := by
    cases s
    · exact Literal.splitSign_of_isDigit hc rest
    · rfl
  -- neither of the words begins with a digit
  have hword : ∀ word : String, word.toList.head? = some '.' → (c :: rest == word.toList) = false := by
    intro word hword
    rw [beq_eq_false_iff_ne]
    intro heq
    rw [← heq] at hword
    cases hword
    exact absurd hc (by decide)
  have hcolon : (c :: rest).contains ':' = false := by
    rw [List.contains_eq_mem, decide_eq_false_iff_not]
    exact fun hmem => absurd (hreads.characters ':' hmem) (by decide)
  have hempty : (if s then '-' :: c :: rest else c :: rest).isEmpty = false := by cases s <;> rfl
  rw [readReal, filter_of_inNumeral hcs, hlower]
  simp only [hempty, hsplit, hword ".inf" rfl, hword ".nan" rfl, hcolon, hdecimal, Bool.false_eq_true,
    if_false]
  cases s with
  | false => rfl
  | true => exact congrArg Except.ok (Binary64.neg_assemble hm)

/-- The characters of a number in settings. -/
theorem isOrdinary_of_mem_settings (x : Float) :
    ∀ c ∈ (Notation.settings x).toList, isOrdinary c = true := by
  unfold Notation.settings
  cases Binary64.ofFloat x with
  | nan => exact List.all_eq_true.1 rfl
  | infinite s => cases s <;> exact List.all_eq_true.1 rfl
  | finite s m q =>
      rw [Notation.toList_write_finite rfl]
      have hreads := Notation.reads_layout settingsStyle (magnitude m q)
      intro c hc
      cases s
      · exact isOrdinary_of_inNumeral (hreads.characters c hc)
      · rcases List.mem_cons.1 hc with rfl | hc
        · rfl
        · exact isOrdinary_of_inNumeral (hreads.characters c hc)

/-- A number in settings is seen to be a real one. -/
theorem ofPlain_settings (x : Float) : Tag.ofPlain (Notation.settings x) = .real := by
  have hordinary := isOrdinary_of_mem_settings x
  unfold Notation.settings at hordinary ⊢
  cases h : Binary64.ofFloat x with
  | nan => decide +kernel
  | infinite s => cases s <;> decide +kernel
  | finite s m q =>
      rw [h] at hordinary
      refine ofPlain_of_isPointed hordinary ?_
      have hbody : (splitSign (Notation.write settingsStyle (.finite s m q)).toList).2 =
          layout settingsStyle (magnitude m q) := by
        rw [Notation.toList_write_finite rfl]
        cases s
        · obtain ⟨c, rest, hstart, hc⟩ := (Notation.reads_layout settingsStyle (magnitude m q)).starts
          rw [if_neg Bool.false_ne_true, hstart, Literal.splitSign_of_isDigit hc]
        · rfl
      rw [hbody]
      exact Notation.isPointed_layout _

/-- **Every double is read back from its text in settings.** -/
theorem readReal_settings (x : Float) : readReal (Notation.settings x).toList = .ok x := by
  unfold Notation.settings
  cases h : Binary64.ofFloat x with
  | nan =>
      rw [Notation.eq_of_ofFloat_nan h]
      rfl
  | infinite s =>
      rw [Binary64.eq_of_ofFloat_infinite h]
      cases s
      · rfl
      · rfl
  | finite s m q =>
      obtain ⟨hm, hassemble⟩ := Binary64.eq_assemble_of_ofFloat h
      rw [Notation.toList_write_finite rfl, readReal_magnitude hm, hassemble]

theorem means_settings (x : Float) : Means (Notation.settings x) (.real x) :=
  ⟨by rw [ofPlain_settings]; rfl, by rw [ofPlain_settings, readScalar]; simp only [readReal_settings]; rfl⟩

/-- A number in settings is a word. -/
theorem isWord_settings (x : Float) : IsWord (Notation.settings x).toList := by
  have htag : ∀ w, Notation.settings x = w → Tag.ofPlain w = .real := fun w h => h ▸ ofPlain_settings x
  refine ⟨fun h => ?_, isOrdinary_of_mem_settings x, fun h => ?_⟩
  · exact absurd (htag "" (String.toList_inj.1 h)) (by decide +kernel)
  · exact absurd (htag "-" (String.toList_inj.1 h)) (by decide +kernel)

end Yaml

end MixedInteger
