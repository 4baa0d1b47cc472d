/-
**Terms told in words.**

A term is told by a sign, its coefficient unless that is one, and the labels of its variables.  Each of them
is a word, and blanks stand between words.  A word that is a sign begins a term; one that begins with a digit
is a coefficient, since no label does.  So the words tell the terms, and the text tells the words, although
the first sign is joined to the next word or left out.

Main definitions:

* `MixedInteger.Expression.isIdentifier` — what a label has to look like;
* `MixedInteger.Expression.ToldTerm` — a term with its labels and a whole coefficient;
* `MixedInteger.Expression.words`, `MixedInteger.Expression.lead` — the words of a term, and the text of
  terms.

Main results:

* `MixedInteger.Expression.spaced_injective` — a text tells its words;
* `MixedInteger.Expression.words_injective` — words tell their terms;
* `MixedInteger.Expression.lead_injective` — **a text tells its terms**.
-/

import MixedInteger.Expression.Rendering
import MixedInteger.Proofs.Numeral

set_option autoImplicit false

namespace MixedInteger.Expression

/-! ### Words between blanks -/

/-- Words with a blank in front of each. -/
def spaced (ws : List (List Char)) : List Char := ws.flatMap (' ' :: ·)

@[simp] theorem spaced_nil : spaced [] = [] := rfl

@[simp] theorem spaced_cons (w : List Char) (ws : List (List Char)) :
    spaced (w :: ws) = ' ' :: (w ++ spaced ws) := rfl

@[simp] theorem spaced_append (ws vs : List (List Char)) :
    spaced (ws ++ vs) = spaced ws ++ spaced vs := List.flatMap_append

/-- What stands behind a word begins with a blank. -/
theorem head?_spaced (ws : List (List Char)) : ∀ c ∈ (spaced ws).head?, (c != ' ') = false := by
  cases ws with
  | nil => simp
  | cons w ws => simp

/-- **A text tells its words**, since no word holds a blank. -/
theorem spaced_injective {ws vs : List (List Char)} (hws : ∀ w ∈ ws, ' ' ∉ w) (hvs : ∀ v ∈ vs, ' ' ∉ v)
    (h : spaced ws = spaced vs) : ws = vs := by
  induction ws generalizing vs with
  | nil =>
      cases vs with
      | nil => rfl
      | cons v vs => cases h
  | cons w ws ih =>
      cases vs with
      | nil => cases h
      | cons v vs =>
          have hword : ∀ {u : List Char}, ' ' ∉ u → ∀ c ∈ u, (c != ' ') = true := by
            intro u hu c hc
            simpa using fun heq : c = ' ' => hu (heq ▸ hc)
          obtain ⟨hw, hrest⟩ := Literal.takeWhile_append_of_stop (hword (hws w List.mem_cons_self))
            (head?_spaced ws)
          obtain ⟨hv, hrest'⟩ := Literal.takeWhile_append_of_stop (hword (hvs v List.mem_cons_self))
            (head?_spaced vs)
          rw [spaced_cons, spaced_cons, List.cons_inj_right] at h
          rw [← hw, ← hv, h, ih (fun u hu => hws u (List.mem_cons_of_mem _ hu))
            (fun u hu => hvs u (List.mem_cons_of_mem _ hu)) (by rw [← hrest, ← hrest', h])]

/-! ### Terms -/

/-- A term with its labels and a whole coefficient. -/
abbrev ToldTerm := LabelledTerm Int

/-- The characters of labels: letters of any script, digits and underscores. -/
def isWordCharacter (c : Char) : Bool := c.isAlphanum || c == '_' || decide (128 ≤ c.toNat)

/-- What a label has to look like: characters of words, and no digit in front. -/
def isIdentifier (s : String) : Bool :=
  match s.toList with
  | [] => false
  | c :: cs => !c.isDigit && (c :: cs).all isWordCharacter

/-- The word for a sign. -/
def signWord (n : Int) : List Char := if n < 0 then ['-'] else ['+']

/-- The word for a coefficient, which is left out in front of labels if it is one. -/
def figures (t : ToldTerm) : List (List Char) :=
  if t.labels ≠ [] ∧ t.coefficient.natAbs = 1 then [] else [Decimal.digits t.coefficient.natAbs]

/-- The words of a term behind its sign. -/
def body (t : ToldTerm) : List (List Char) := figures t ++ t.labels.map String.toList

/-- The words of a term. -/
def words (t : ToldTerm) : List (List Char) := signWord t.coefficient :: body t

/-- The text of terms: of the first sign only a minus is left, and no blank stands behind it. -/
def lead : List ToldTerm → List Char
  | [] => []
  | t :: rest =>
    (if t.coefficient < 0 then ['-'] else []) ++ (spaced (body t ++ rest.flatMap words)).tail

/-- A term with labels that are told from everything else. -/
def Legible (t : ToldTerm) : Prop := ∀ l ∈ t.labels, isIdentifier l = true

theorem exists_of_isIdentifier {s : String} (h : isIdentifier s = true) :
    ∃ c cs, s.toList = c :: cs ∧ c.isDigit = false ∧ ∀ d ∈ c :: cs, isWordCharacter d = true := by
  unfold isIdentifier at h
  split at h
  · cases h
  · next c cs hs =>
      simp only [Bool.and_eq_true, Bool.not_eq_true', List.all_eq_true] at h
      exact ⟨c, cs, hs, h.1, h.2⟩

/-- Words that are no sign: they begin with a character of words, and hold no other characters. -/
theorem isWordCharacter_of_mem_body {t : ToldTerm} (ht : Legible t) {w : List Char} (hw : w ∈ body t) :
    w ≠ [] ∧ ∀ c ∈ w, isWordCharacter c = true := by
  rcases List.mem_append.1 hw with hw | hw
  · unfold figures at hw
    split at hw
    · cases hw
    · rw [List.mem_singleton.1 hw]
      refine ⟨Literal.digits_ne_nil _, fun c hc => ?_⟩
      have hdigit := Literal.isDigit_of_mem_digits hc
      simp [isWordCharacter, Char.isAlphanum, hdigit]
  · obtain ⟨l, hl, rfl⟩ := List.mem_map.1 hw
    obtain ⟨c, cs, hs, -, hall⟩ := exists_of_isIdentifier (ht l hl)
    rw [hs]
    exact ⟨List.cons_ne_nil _ _, hall⟩

theorem body_ne_nil (t : ToldTerm) : body t ≠ [] := by
  unfold body figures
  split
  · next h => simpa using h.1
  · simp

theorem digits_injective {k l : Nat} (h : Decimal.digits k = Decimal.digits l) : k = l := by
  rw [← Literal.natOfDigits_digits k, h, Literal.natOfDigits_digits]

/-- No label is a coefficient. -/
theorem toList_ne_digits {s : String} (h : isIdentifier s = true) (k : Nat) :
    s.toList ≠ Decimal.digits k := by
  obtain ⟨c, cs, hs, hc, -⟩ := exists_of_isIdentifier h
  intro heq
  have hdigit : c.isDigit = true := Literal.isDigit_of_mem_digits (heq ▸ hs ▸ List.mem_cons_self)
  rw [hc] at hdigit
  cases hdigit

theorem labels_eq_of_map_eq {ls ms : List String} (h : ls.map String.toList = ms.map String.toList) :
    ls = ms :=
  List.map_injective_iff.2 (fun _ _ => String.toList_inj.1) h

/-- A coefficient that is told is not that of a term whose coefficient is left out. -/
theorem labels_ne_digits_cons {ls ms : List String} (hls : ∀ l ∈ ls, isIdentifier l = true) (k : Nat) :
    ls.map String.toList ≠ Decimal.digits k :: ms.map String.toList := by
  intro h
  cases ls with
  | nil => cases h
  | cons l ls => exact toList_ne_digits (hls l List.mem_cons_self) k (List.cons.inj h).1

/-- The words behind a sign tell the labels and the size of the coefficient. -/
theorem eq_of_body_eq {t u : ToldTerm} (ht : Legible t) (hu : Legible u) (h : body t = body u) :
    t.labels = u.labels ∧ t.coefficient.natAbs = u.coefficient.natAbs := by
  unfold body figures at h
  split at h
  · next hone =>
      split at h
      · next hone' => exact ⟨labels_eq_of_map_eq h, hone.2.trans hone'.2.symm⟩
      · exact absurd h (labels_ne_digits_cons ht _)
  · split at h
    · exact absurd h.symm (labels_ne_digits_cons hu _)
    · obtain ⟨hdigits, hlabels⟩ := List.cons.inj h
      exact ⟨labels_eq_of_map_eq hlabels, digits_injective hdigits⟩

/-! ### Texts -/

theorem signWord_eq_iff (n m : Int) : signWord n = signWord m ↔ (n < 0 ↔ m < 0) := by
  unfold signWord
  by_cases hn : n < 0 <;> by_cases hm : m < 0 <;> simp [hn, hm]

/-- No word behind a sign is one. -/
theorem ne_signWord_of_mem_body {t : ToldTerm} (ht : Legible t) {w : List Char} (hw : w ∈ body t)
    (n : Int) : w ≠ signWord n := by
  obtain ⟨-, hall⟩ := isWordCharacter_of_mem_body ht hw
  rintro rfl
  unfold signWord at hall
  split at hall
  · exact absurd (hall '-' List.mem_cons_self) (by decide)
  · exact absurd (hall '+' List.mem_cons_self) (by decide)

/-- Terms of one sign and the same words behind it are the same. -/
theorem eq_of_words_eq {t u : ToldTerm} (ht : Legible t) (hu : Legible u)
    (hsign : t.coefficient < 0 ↔ u.coefficient < 0) (h : body t = body u) : t = u := by
  obtain ⟨hlabels, habs⟩ := eq_of_body_eq ht hu h
  obtain ⟨ls, n⟩ := t
  obtain ⟨ms, m⟩ := u
  simp only at hlabels habs hsign
  obtain rfl : n = m := by omega
  rw [hlabels]

/-- Where the words of a term end, there is nothing or a sign. -/
theorem body_append_inj {t u : ToldTerm} {ts us : List ToldTerm} (ht : Legible t) (hu : Legible u)
    (h : body t ++ ts.flatMap words = body u ++ us.flatMap words) :
    body t = body u ∧ ts.flatMap words = us.flatMap words := by
  have hsplit : ∀ {t : ToldTerm} {ts : List ToldTerm}, Legible t →
      (body t ++ ts.flatMap words).takeWhile (fun w => w != ['-'] && w != ['+']) = body t := by
    intro t ts ht
    rw [List.takeWhile_append_of_pos]
    · cases ts with
      | nil => simp
      | cons u us =>
          have hsign : signWord u.coefficient = ['-'] ∨ signWord u.coefficient = ['+'] := by
            unfold signWord
            split <;> simp
          rcases hsign with hsign | hsign <;> simp [words, hsign]
    · intro w hw
      have hminus := ne_signWord_of_mem_body ht hw (-1)
      have hplus := ne_signWord_of_mem_body ht hw 1
      simpa [signWord] using ⟨hminus, hplus⟩
  have hbody : body t = body u := by rw [← hsplit ht, h, hsplit hu]
  exact ⟨hbody, List.append_cancel_left (hbody ▸ h)⟩

/-- **Words tell their terms.** -/
theorem words_injective {ts us : List ToldTerm} (hts : ∀ t ∈ ts, Legible t) (hus : ∀ u ∈ us, Legible u)
    (h : ts.flatMap words = us.flatMap words) : ts = us := by
  induction ts generalizing us with
  | nil =>
      cases us with
      | nil => rfl
      | cons u us => cases h
  | cons t ts ih =>
      cases us with
      | nil => cases h
      | cons u us =>
          have ht := hts t List.mem_cons_self
          have hu := hus u List.mem_cons_self
          rw [List.flatMap_cons, List.flatMap_cons, words, words] at h
          obtain ⟨hsign, h⟩ := List.cons.inj h
          obtain ⟨hbody, hrest⟩ := body_append_inj ht hu h
          rw [eq_of_words_eq ht hu ((signWord_eq_iff _ _).1 hsign) hbody,
            ih (fun v hv => hts v (List.mem_cons_of_mem _ hv))
              (fun v hv => hus v (List.mem_cons_of_mem _ hv)) hrest]

theorem blank_not_mem_words {ts : List ToldTerm} (hts : ∀ t ∈ ts, Legible t) :
    ∀ w ∈ ts.flatMap words, ' ' ∉ w := by
  intro w hw
  obtain ⟨t, ht, hw⟩ := List.mem_flatMap.1 hw
  rcases List.mem_cons.1 hw with rfl | hw
  · unfold signWord
    split <;> decide
  · intro hblank
    exact absurd ((isWordCharacter_of_mem_body (hts t ht) hw).2 ' ' hblank) (by decide)

/-- Behind a sign there is a blank and then no sign. -/
theorem exists_spaced_body {t : ToldTerm} (ht : Legible t) (ws : List (List Char)) :
    ∃ c cs, spaced (body t ++ ws) = ' ' :: c :: cs ∧ c ≠ '-' := by
  obtain ⟨w, vs, hbody⟩ := List.exists_cons_of_ne_nil (body_ne_nil t)
  obtain ⟨hne, hall⟩ := isWordCharacter_of_mem_body ht (hbody ▸ List.mem_cons_self)
  obtain ⟨c, cs, rfl⟩ := List.exists_cons_of_ne_nil hne
  refine ⟨c, cs ++ spaced (vs ++ ws), by simp [hbody], ?_⟩
  rintro rfl
  exact absurd (hall '-' List.mem_cons_self) (by decide)

/-- **A text tells its terms**, of which there is at least one. -/
theorem lead_injective {ts us : List ToldTerm} (hts : ∀ t ∈ ts, Legible t) (hus : ∀ u ∈ us, Legible u)
    (hne : ts ≠ []) (hne' : us ≠ []) (h : lead ts = lead us) : ts = us := by
  obtain ⟨t, ts, rfl⟩ := List.exists_cons_of_ne_nil hne
  obtain ⟨u, us, rfl⟩ := List.exists_cons_of_ne_nil hne'
  obtain ⟨c, cs, hcs, hc⟩ := exists_spaced_body (hts t List.mem_cons_self) (ts.flatMap words)
  obtain ⟨d, ds, hds, hd⟩ := exists_spaced_body (hus u List.mem_cons_self) (us.flatMap words)
  rw [lead, lead, hcs, hds, List.tail_cons, List.tail_cons] at h
  have hsame : (t.coefficient < 0 ↔ u.coefficient < 0) ∧ c :: cs = d :: ds := by
    by_cases ht : t.coefficient < 0 <;> by_cases hu : u.coefficient < 0
    · exact ⟨iff_of_true ht hu, by simpa [ht, hu] using h⟩
    · rw [if_pos ht, if_neg hu] at h
      exact absurd (List.cons.inj h).1.symm hd
    · rw [if_neg ht, if_pos hu] at h
      exact absurd (List.cons.inj h).1 hc
    · exact ⟨iff_of_false ht hu, by simpa [ht, hu] using h⟩
  have hspaced : spaced ((t :: ts).flatMap words) = spaced ((u :: us).flatMap words) := by
    rw [List.flatMap_cons, List.flatMap_cons, words, words, List.cons_append, List.cons_append,
      spaced_cons, spaced_cons, hcs, hds, hsame.2, (signWord_eq_iff _ _).2 hsame.1]
  exact words_injective hts hus
    (spaced_injective (blank_not_mem_words hts) (blank_not_mem_words hus) hspaced)

end MixedInteger.Expression
