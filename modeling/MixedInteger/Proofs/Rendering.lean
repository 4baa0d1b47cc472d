/-
**The text of an expression and the terms it tells.**

An expression is written with the words of its terms: those that its text tells, in the order of their
labels, the constant last if it is told at all.  This needs numbers that are written with their digits, which
are the whole ones of at most six, and coefficients that are not zero, since such a term has no sign.

Main definitions:

* `MixedInteger.Number.IsSmallWhole` — the numbers that are written with their digits;
* `MixedInteger.Expression.HasSmallWholes` — the expressions that hold no others;
* `MixedInteger.Expression.told` — the terms that a text tells.

Main results:

* `MixedInteger.Expression.toList_termText_later` — a term is written with its words;
* `MixedInteger.Expression.toList_text` — **the text of an expression is that of the terms it tells**.
-/

import MixedInteger.Proofs.Figures
import MixedInteger.Proofs.Words

set_option autoImplicit false

namespace MixedInteger

/-! ### Numbers that are written with their digits -/

namespace Number

/-- The number is whole and has at most six digits. -/
def IsSmallWhole (a : Number) : Prop := ∃ n, a.integer? = some n ∧ n.natAbs < 10 ^ 6

/-- The whole number that a number is; anything else counts as zero. -/
def toInteger (a : Number) : Int := a.integer?.getD 0

theorem IsSmallWhole.integer?_eq {a : Number} (h : a.IsSmallWhole) : a.integer? = some a.toInteger := by
  obtain ⟨n, hn, -⟩ := h
  rw [toInteger, hn, Option.getD_some]

theorem IsSmallWhole.lt {a : Number} (h : a.IsSmallWhole) : a.toInteger.natAbs < 10 ^ 6 := by
  obtain ⟨n, hn, hlt⟩ := h
  rwa [toInteger, hn, Option.getD_some]

theorem IsSmallWhole.beq_iff {a b : Number} (ha : a.IsSmallWhole) (hb : b.IsSmallWhole) :
    (a == b) = true ↔ a.toInteger = b.toInteger :=
  Number.beq_iff ha.integer?_eq hb.integer?_eq

theorem IsSmallWhole.beq_zero_iff {a : Number} (ha : a.IsSmallWhole) :
    (a == 0) = true ↔ a.toInteger = 0 :=
  Number.beq_iff ha.integer?_eq integer?_zero

end Number

namespace Expression

/-! ### Signs and coefficients -/

section Numbers

variable {c : Number} (hc : c.IsSmallWhole)

include hc

theorem toList_signText_first :
    (signText true c).toList = if c.toInteger < 0 then ['-'] else [] := by
  have hneg := Number.lt_iff hc.integer?_eq Number.integer?_zero
  rw [signText, if_pos rfl]
  by_cases h : c.toInteger < 0
  · rw [if_pos (hneg.2 h), if_pos h]
    rfl
  · rw [if_neg (mt hneg.1 h), if_neg h]
    rfl

theorem toList_signText_later (hne : c.toInteger ≠ 0) :
    (signText false c).toList = ' ' :: (signWord c.toInteger ++ [' ']) := by
  have hneg := Number.lt_iff hc.integer?_eq Number.integer?_zero
  have hpos := Number.lt_iff Number.integer?_zero hc.integer?_eq
  rw [signText, if_neg Bool.false_ne_true, signWord]
  by_cases h : c.toInteger < 0
  · rw [if_pos (hneg.2 h), if_pos h]
    rfl
  · rw [if_neg (mt hneg.1 h), if_pos (hpos.2 (by omega)), if_neg h]
    rfl

theorem toList_magnitude :
    (Display.text (Scalar.magnitude c)).toList = Decimal.digits c.toInteger.natAbs := by
  rw [Number.text_magnitude hc.integer?_eq hc.lt, String.toList_ofList]

theorem toList_coefficientText : (coefficientText c).toList =
    if c.toInteger.natAbs = 1 then [] else Decimal.digits c.toInteger.natAbs ++ [' '] := by
  have hone := Number.beq_iff hc.integer?_eq Number.integer?_one
  have hminus := Number.beq_iff hc.integer?_eq (Number.integer?_neg Number.integer?_one)
  have hunit : (c == 1 || c == -1) = true ↔ c.toInteger.natAbs = 1 := by
    rw [Bool.or_eq_true, hone, hminus]
    omega
  rw [coefficientText]
  by_cases h : c.toInteger.natAbs = 1
  · rw [if_pos (hunit.2 h), if_pos h]
    rfl
  · rw [if_neg (mt hunit.1 h), if_neg h, String.toList_append, toList_magnitude hc]
    rfl

end Numbers

/-! ### Terms -/

/-- A term of a whole coefficient, as it is told. -/
def tell (t : LabelledTerm Number) : ToldTerm := ⟨t.labels, t.coefficient.toInteger⟩

/-- A term that is written as it is told. -/
structure Tellable (t : LabelledTerm Number) : Prop where
  labels : t.labels ≠ []
  coefficient : t.coefficient.IsSmallWhole
  nonzero : t.coefficient.toInteger ≠ 0

/-- Labels with blanks between them are words with a blank in front of each but the first. -/
theorem cons_intercalate {ls : List String} (h : ls ≠ []) :
    ' ' :: (" ".intercalate ls).toList = spaced (ls.map String.toList) := by
  induction ls with
  | nil => exact absurd rfl h
  | cons l ls ih =>
      cases ls with
      | nil => simp
      | cons m ms =>
          rw [String.intercalate_cons_of_ne_nil (List.cons_ne_nil m ms), String.toList_append,
            String.toList_append, List.map_cons, spaced_cons, ← ih (List.cons_ne_nil m ms)]
          simp

/-- What stands behind the sign of a term. -/
theorem cons_unsigned {t : LabelledTerm Number} (ht : Tellable t) :
    ' ' :: (coefficientText t.coefficient ++ " ".intercalate t.labels).toList =
      spaced (body (tell t)) := by
  rw [String.toList_append, toList_coefficientText ht.coefficient, body, figures, spaced_append]
  simp only [tell, ne_eq, ht.labels, not_false_eq_true, true_and]
  rw [← cons_intercalate ht.labels]
  split <;> simp

theorem toList_termText_later {t : LabelledTerm Number} (ht : Tellable t) :
    (termText false t).toList = spaced (words (tell t)) := by
  rw [termText, String.append_assoc, String.toList_append,
    toList_signText_later ht.coefficient ht.nonzero, words, spaced_cons, ← cons_unsigned ht]
  simp [tell]

theorem toList_termsText_later {ts : List (LabelledTerm Number)} (hts : ∀ t ∈ ts, Tellable t) :
    (termsText false ts).toList = spaced ((ts.map tell).flatMap words) := by
  induction ts with
  | nil => rfl
  | cons t ts ih =>
      rw [termsText, String.toList_append, toList_termText_later (hts t List.mem_cons_self),
        ih fun u hu => hts u (List.mem_cons_of_mem _ hu), List.map_cons, List.flatMap_cons,
        spaced_append]

/-- The text of terms begins with that of the first one, whose sign has no blanks around it. -/
theorem lead_cons {t : LabelledTerm Number} (ht : Tellable t) (us : List ToldTerm) :
    lead (tell t :: us) = (termText true t).toList ++ spaced (us.flatMap words) := by
  rw [lead, termText, String.append_assoc, String.toList_append, toList_signText_first ht.coefficient,
    spaced_append, ← cons_unsigned ht, List.cons_append, List.tail_cons, List.append_assoc]
  rfl

/-! ### The terms of an expression -/

/-- The terms of an expression in the order of their labels. -/
def sortedTerms (env : Environment Number) (e : Expression Number) : List (LabelledTerm Number) :=
  sortTerms (e.quadraticTerms env) ++ sortTerms (e.linearTerms env)

/-- The terms that the text of an expression tells: the constant is one without labels, which is told
unless it is zero and there are others. -/
def told (env : Environment Number) (e : Expression Number) : List ToldTerm :=
  (e.sortedTerms env).map tell ++
    if e.constant.toInteger = 0 ∧ e.sortedTerms env ≠ [] then [] else [⟨[], e.constant.toInteger⟩]

/-- All numbers are whole and have at most six digits, and no coefficient is zero. -/
structure HasSmallWholes (e : Expression Number) : Prop where
  constant : e.constant.IsSmallWhole
  linear : ∀ t ∈ e.linear.entries, t.2.IsSmallWhole ∧ (t.2 == 0) = false
  quadratic : ∀ t ∈ e.quadratic.entries, t.2.IsSmallWhole ∧ (t.2 == 0) = false

theorem HasSmallWholes.tellable {e : Expression Number} (he : e.HasSmallWholes)
    (env : Environment Number) : ∀ t ∈ e.sortedTerms env, Tellable t := by
  intro t ht
  have hnonzero : ∀ {a : Number}, a.IsSmallWhole ∧ (a == 0) = false → a.toInteger ≠ 0 := by
    intro a ha h
    rw [ha.1.beq_zero_iff.2 h] at ha
    cases ha.2
  rcases List.mem_append.1 ht with ht | ht
  · obtain ⟨u, hu, rfl⟩ := List.mem_map.1 (List.mem_mergeSort.1 ht)
    exact ⟨List.cons_ne_nil _ _, (he.quadratic u hu).1, hnonzero (he.quadratic u hu)⟩
  · obtain ⟨u, hu, rfl⟩ := List.mem_map.1 (List.mem_mergeSort.1 ht)
    exact ⟨List.cons_ne_nil _ _, (he.linear u hu).1, hnonzero (he.linear u hu)⟩

/-- **The text of an expression is that of the terms it tells.** -/
theorem toList_text {env : Environment Number} {e : Expression Number} (he : e.HasSmallWholes) :
    (e.text env).toList = lead (e.told env) := by
  have htellable := he.tellable env
  have hzero := he.constant.beq_zero_iff
  have htext : e.text env =
      if e.constant == 0 && !(e.sortedTerms env).isEmpty then termsText true (e.sortedTerms env)
      else termsText true (e.sortedTerms env) ++ signText (e.sortedTerms env).isEmpty e.constant ++
        Display.text (Scalar.magnitude e.constant) := rfl
  rw [htext, told]
  cases hterms : e.sortedTerms env with
  | nil =>
      simp only [List.isEmpty_nil, Bool.not_true, Bool.and_false, Bool.false_eq_true, if_false,
        ne_eq, not_true_eq_false, and_false, List.map_nil, List.nil_append]
      rw [String.toList_append, String.toList_append, toList_signText_first he.constant,
        toList_magnitude he.constant]
      simp [termsText, lead, body, figures]
  | cons t ts =>
      rw [hterms] at htellable
      have ht := htellable t List.mem_cons_self
      have hts := toList_termsText_later fun u hu => htellable u (List.mem_cons_of_mem _ hu)
      rw [List.map_cons, List.cons_append, lead_cons ht, List.flatMap_append, spaced_append, ← hts]
      by_cases h : e.constant.toInteger = 0
      · simp [hzero.2 h, h, termsText]
      · simp only [h, false_and, if_false, Bool.eq_false_iff.2 (mt hzero.1 h), Bool.false_and,
          Bool.false_eq_true, List.isEmpty_cons, termsText, String.toList_append,
          toList_signText_later he.constant h, toList_magnitude he.constant]
        simp [words, body, figures]

end Expression

end MixedInteger
