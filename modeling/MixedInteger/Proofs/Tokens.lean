/-
**The tokens of a record.**

A record may be written with a line for each field: a word, a colon, a blank and another word.  Cutting
such a text is followed line by line.  Where a line begins, its key is cut and remembered; the colon behind
it settles it, and puts the mark of a key, and on the first line that of a record, in front of the word that
waits.  The value ends with its line, because the next one is not indented, and behind it the next line
begins in the state in which the one before began.  So the tokens of a record are those of its lines, by
induction on them, and what is behind the place that is being read is never looked at.

Words are told by their characters alone: those that mean nothing but themselves wherever they stand.  Only
a dash that stands alone, and whatever is no letter at the beginning of a line, has to be kept out.

Main definitions:

* `MixedInteger.Yaml.IsWord`, `MixedInteger.Yaml.IsKeyWord` — words that are scalars, and keys;
* `MixedInteger.Yaml.Lex.atLine`, `Lex.behindKey`, `Lex.behindColon` — the states that a line leads through;
* `MixedInteger.Yaml.Lex.Gives` — tokens are given one after the other.

Main results:

* `MixedInteger.Yaml.Lex.run_cut_word`, `Lex.run_cut_mark` — what is cut where a word or a colon is ahead;
* `MixedInteger.Yaml.Lex.run_cut_key`, `Lex.run_cut_colon`, `Lex.run_cut_value`, `Lex.run_cut_end` — the
  steps of a line, and the one behind the last line;
* `MixedInteger.Yaml.Lex.gives_line` — a line gives its tokens;
* `MixedInteger.Yaml.Lex.gives_record` — **lines give the tokens of a record**.
-/

import MixedInteger.Proofs.BreakingOff

set_option autoImplicit false

namespace MixedInteger.Yaml

/-! ### Characters -/

/-- Characters that mean nothing but themselves within a scalar. -/
def isOrdinary (c : Char) : Bool := c.isAlphanum || c == '_' || c == '.' || c == '+' || c == '-'

theorem beq_of_isOrdinary {c d : Char} (hc : isOrdinary c = true) (hd : isOrdinary d = false) :
    (c == d) = false := by
  rw [beq_eq_false_iff_ne]
  rintro rfl
  rw [hc] at hd
  cases hd

theorem toNat_of_isOrdinary {c : Char} (hc : isOrdinary c = true) :
    0x2b ≤ c.toNat ∧ c.toNat ≤ 0x7a := by
  simp only [isOrdinary, Char.isAlphanum, Char.isAlpha, Char.isUpper, Char.isLower, Char.isDigit,
    Bool.or_eq_true, Bool.and_eq_true, decide_eq_true_eq, beq_iff_eq, UInt32.le_iff_toNat_le, ge_iff_le,
    Char.toNat_val] at hc
  change ((((((65 ≤ c.toNat ∧ c.toNat ≤ 90) ∨ (97 ≤ c.toNat ∧ c.toNat ≤ 122)) ∨
    (48 ≤ c.toNat ∧ c.toNat ≤ 57)) ∨ c = '_') ∨ c = '.') ∨ c = '+') ∨ c = '-' at hc
  rcases hc with ((((h | rfl) | rfl) | rfl) | rfl)
  · omega
  all_goals decide

theorem isPrintable_of_isOrdinary {c : Char} (hc : isOrdinary c = true) : isPrintable c = true := by
  have h := toNat_of_isOrdinary hc
  have hrange : 0x20 ≤ c.toNat ∧ c.toNat ≤ 0x7e := by omega
  simp [isPrintable, hrange]

theorem isBreak_of_isOrdinary {c : Char} (hc : isOrdinary c = true) : isBreak c = false := by
  simp (disch := decide) only [isBreak, beq_of_isOrdinary hc, Bool.or_self]

theorem isGap_of_isOrdinary {c : Char} (hc : isOrdinary c = true) : isGap c = false := by
  simp (disch := decide) only [isGap, isLineEnd, endMark, isBreak_of_isOrdinary hc,
    beq_of_isOrdinary hc, Bool.or_self]

theorem endsPlain_of_isOrdinary {c : Char} (hc : isOrdinary c = true) (next : Char) :
    Lex.endsPlain 0 c next = false := by
  simp (disch := decide) [Lex.endsPlain, isGap_of_isOrdinary hc, beq_of_isOrdinary hc]

/-! ### Words -/

/-- A word that is a plain scalar wherever it stands within a line. -/
structure IsWord (w : List Char) : Prop where
  ne_nil : w ≠ []
  ordinary : ∀ c ∈ w, isOrdinary c = true
  ne_dash : w ≠ ['-']

/-- A word that may be a key at the beginning of a line. -/
structure IsKeyWord (w : List Char) : Prop where
  letter : ∃ c rest, w = c :: rest ∧ c.isAlpha = true
  ordinary : ∀ c ∈ w, isOrdinary c = true
  short : w.length ≤ Lex.keyReach

instance (w : List Char) : Decidable (IsWord w) :=
  decidable_of_iff (w ≠ [] ∧ w.all isOrdinary = true ∧ w ≠ ['-'])
    ⟨fun h => ⟨h.1, List.all_eq_true.1 h.2.1, h.2.2⟩,
      fun h => ⟨h.ne_nil, List.all_eq_true.2 h.ordinary, h.ne_dash⟩⟩

instance (w : List Char) : Decidable (IsKeyWord w) :=
  decidable_of_iff
    (w.head?.any Char.isAlpha = true ∧ w.all isOrdinary = true ∧ w.length ≤ Lex.keyReach) <| by
      have hletter : w.head?.any Char.isAlpha = true ↔ ∃ c rest, w = c :: rest ∧ c.isAlpha = true := by
        cases w <;> simp
      rw [hletter, List.all_eq_true]
      exact ⟨fun h => ⟨h.1, h.2.1, h.2.2⟩, fun h => ⟨h.letter, h.ordinary, h.short⟩⟩

theorem IsKeyWord.isWord {w : List Char} (h : IsKeyWord w) : IsWord w := by
  obtain ⟨c, rest, rfl, hc⟩ := h.letter
  refine ⟨List.cons_ne_nil _ _, h.ordinary, fun hdash => ?_⟩
  cases hdash
  exact absurd hc (by decide)

theorem Lex.plainRun_append {w : List Char} (hw : ∀ c ∈ w, isOrdinary c = true) (tail : List Char) :
    plainRun 0 (w ++ tail) = w ++ plainRun 0 tail := by
  induction w with
  | nil => rfl
  | cons c w ih =>
      rw [List.cons_append, plainRun, endsPlain_of_isOrdinary (hw c List.mem_cons_self),
        ih fun d hd => hw d (List.mem_cons_of_mem _ hd)]
      rfl

/-! ### Places -/

namespace Cursor

/-- Behind a word, one column has passed for each character. -/
theorem advance_word {w tail : List Char} (hw : ∀ c ∈ w, isOrdinary c = true) (i l k : Nat)
    (r : Option Refusal) :
    advance w.length ⟨w ++ tail, i, l, k, r⟩ = ⟨tail, i + w.length, l, k + w.length, r⟩ := by
  induction w generalizing i k with
  | nil => rfl
  | cons c w ih =>
      have hc := hw c List.mem_cons_self
      have hmark : (c == '\ufeff') = false := beq_of_isOrdinary hc (by decide)
      have hnext : next ⟨c :: w ++ tail, i, l, k, r⟩ = ⟨w ++ tail, i + 1, l, k + 1, r⟩ := by
        simp only [next, List.cons_append, isBreak_of_isOrdinary hc, Bool.false_and, hmark,
          Bool.false_eq_true, if_false]
      rw [List.length_cons, advance, hnext, ih (fun d hd => hw d (List.mem_cons_of_mem _ hd))]
      congr 1 <;> omega

theorem head_of_rest {c : Cursor} {ch : Char} {rest : List Char} (h : c.rest = ch :: rest) :
    c.head = ch := by
  simp [head, peek, h]

theorem skipBlanks_of_head {c : Cursor} (h : (c.head == ' ') = false) : c.skipBlanks = c := by
  unfold skipBlanks skipWhile takeWhile
  cases hrest : c.rest with
  | nil => rfl
  | cons ch rest =>
      have hch : (ch == ' ') = false := head_of_rest hrest ▸ h
      simp [hch, advance]

theorem skipComment_of_head {c : Cursor} (h : (c.head == '#') = false) : c.skipComment = c := by
  rw [skipComment, h]
  rfl

/-- Nothing is passed in front of a word. -/
theorem skip_of_word {w tail : List Char} (hw : IsWord w) {c : Cursor} (hrest : c.rest = w ++ tail) :
    c.skipBlanks.skipComment = c := by
  obtain ⟨ch, rest, rfl⟩ := List.exists_cons_of_ne_nil hw.ne_nil
  have hord := hw.ordinary ch List.mem_cons_self
  have hhead : c.head = ch := head_of_rest hrest
  rw [skipBlanks_of_head (hhead ▸ beq_of_isOrdinary hord (by decide)),
    skipComment_of_head (hhead ▸ beq_of_isOrdinary hord (by decide))]

theorem lineBreak?_of_head {c : Cursor} (h : isBreak c.head = false) : c.lineBreak? = none := by
  have hmarks := h
  simp only [isBreak, Bool.or_eq_false_iff] at hmarks
  obtain ⟨⟨⟨⟨-, hr⟩, -⟩, hl⟩, hp⟩ := hmarks
  have hhead : c.peek 0 = c.head := rfl
  simp only [lineBreak?, atPair, hhead, hr, hl, hp, h, Bool.false_and, Bool.or_self, Bool.false_eq_true,
    if_false]

end Cursor

namespace Lex

variable {s : Lexer}

/-! ### Small steps -/

@[simp] theorem run_cursor : cursor.run s = pure (s.cursor, s) := rfl

@[simp] theorem run_setCursor (c : Cursor) : (setCursor c).run s = pure ((), { s with cursor := c }) :=
  rfl

@[simp] theorem run_advance (n : Nat) :
    (advance n).run s = pure ((), { s with cursor := s.cursor.advance n }) := rfl

@[simp] theorem run_emit (t : Token) :
    (emit t).run s = pure ((), { s with queue := s.queue ++ [t] }) := rfl

@[simp] theorem run_emitAt (place : Nat) (t : Token) :
    (emitAt place t).run s = pure ((), { s with queue := s.queue.insertIdx (place - s.taken) t }) := rfl

@[simp] theorem run_allowKey (b : Bool) :
    (allowKey b).run s = pure ((), { s with keyAllowed := b }) := rfl

/-! ### Between tokens -/

theorem run_skipGaps {c : Cursor} (hskip : s.cursor.skipBlanks.skipComment = c)
    (hbreak : c.lineBreak? = none) (fuel : Nat) :
    (skipGaps (fuel + 1)).run s = pure ((), { s with cursor := c }) := by
  simp only [skipGaps, StateT.run_bind, run_cursor, run_setCursor, StateT.run_pure, pure_bind, hskip,
    hbreak]

/-- The keys that are pending began on the present line, and not too far back. -/
def HasFreshKeys (s : Lexer) : Prop :=
  ∀ k ∈ s.pending, k.line = s.cursor.line ∧ s.cursor.index - k.index ≤ keyReach

theorem hasFreshKeys_of_nil (h : s.pending = []) : HasFreshKeys s := by simp [HasFreshKeys, h]

theorem run_dropStale (h : HasFreshKeys s) : dropStale.run s = pure ((), s) := by
  have hfresh : ∀ k ∈ s.pending,
      (k.line != s.cursor.line || decide (keyReach < s.cursor.index - k.index)) = false := by
    intro k hk
    simp [(h k hk).1, (h k hk).2]
  have hany : (s.pending.any fun k =>
      (k.line != s.cursor.line || decide (keyReach < s.cursor.index - k.index)) && k.required) =
        false := by
    rw [List.any_eq_false]
    intro k hk
    simp [hfresh k hk]
  have hfilter : (s.pending.filter fun k =>
      !(k.line != s.cursor.line || decide (keyReach < s.cursor.index - k.index))) = s.pending :=
    List.filter_eq_self.2 fun k hk => by simp [hfresh k hk]
  simp only [dropStale, ensure, StateT.run_bind, StateT.run_get, StateT.run_modify, StateT.run_pure,
    pure_bind, hany, hfilter, Bool.not_false, if_true]

/-- Nothing closes at a column that is not in front of the indentation. -/
theorem run_unwind {column : Int} (h : s.indent ≤ column) : (unwind column).run s = pure ((), s) := by
  have hclose : ∀ outer, (closeBlocks column s.indent outer).run s = pure ((), s) := by
    intro outer
    cases outer with
    | nil => rfl
    | cons i rest => simp only [closeBlocks, not_lt.2 h, if_false, StateT.run_pure]
  simp only [unwind, StateT.run_bind, StateT.run_get, pure_bind]
  split
  · exact hclose s.outer
  · rfl

/-- A colon in front of a gap stands between a key and its value. -/
theorem run_cut_mark {tail : List Char} {i l k : Nat} {r : Option Refusal}
    (hcursor : s.cursor = ⟨':' :: ' ' :: tail, i, l, k, r⟩)
    (hfresh : HasFreshKeys s)
    (hindent : s.indent ≤ k) (fuel : Nat) : (cut (fuel + 1)).run s = valueMark.run s := by
  have hskip : s.cursor.skipBlanks.skipComment = s.cursor := by rw [hcursor]; rfl
  have hbreak : s.cursor.lineBreak? = none := by rw [hcursor]; rfl
  have hhead : s.cursor.head = ':' := by rw [hcursor]; rfl
  have hgap : isGap (s.cursor.peek 1) = true := by rw [hcursor]; rfl
  have hother : ∀ m, m ≠ ':' → (':' == m) = false := fun m hm => beq_eq_false_iff_ne.2 hm.symm
  have hmark : ∀ m, m ≠ ':' → s.cursor.atMark m = false := by
    intro m hm
    have hpeek : s.cursor.peek 0 = ':' := hhead
    rw [Cursor.atMark, hpeek, hother m hm, Bool.false_and, Bool.false_and, Bool.false_and]
  have hcolumn : s.cursor.column = k := by rw [hcursor]
  simp only [cut, StateT.run_bind, run_skipGaps hskip hbreak, pure_bind]
  rw [run_dropStale hfresh]
  simp only [StateT.run_get, pure_bind, hcolumn]
  rw [run_unwind hindent]
  simp (disch := decide) only [pure_bind, hhead, hother, hmark, hgap, endMark, Bool.and_false,
    Bool.false_and, Bool.or_true, beq_self_eq_true, Bool.and_self, Bool.false_eq_true, if_false, if_true]

/-! ### Plain scalars -/

/-- What is ahead is read as a plain scalar: no token of another kind begins with a word. -/
theorem run_cut_word {w tail : List Char} {i l k : Nat} {r : Option Refusal} (hw : IsWord w)
    (hskip : s.cursor.skipBlanks.skipComment = ⟨w ++ tail, i, l, k, r⟩)
    (hdepth : s.depth = 0) (hpending : s.pending = []) (hindent : s.indent ≤ k)
    (hcolumn : k ≠ 0 ∨ IsKeyWord w) (fuel : Nat) :
    (cut (fuel + 1)).run s =
      (keyLike (readPlain (fuel + 1))).run { s with cursor := ⟨w ++ tail, i, l, k, r⟩ } := by
  obtain ⟨ch, rest, rfl⟩ := List.exists_cons_of_ne_nil hw.ne_nil
  obtain ⟨c, hc⟩ : ∃ c : Cursor, c = ⟨ch :: rest ++ tail, i, l, k, r⟩ := ⟨_, rfl⟩
  have hord := hw.ordinary ch List.mem_cons_self
  have hhead : c.head = ch := by rw [hc]; rfl
  have hcol : c.column = k := by rw [hc]
  have hbreak : c.lineBreak? = none := Cursor.lineBreak?_of_head (hhead ▸ isBreak_of_isOrdinary hord)
  -- a dash in front of a word does not stand alone
  have hdash : (ch == '-' && isGap (c.peek 1)) = false := by
    cases rest with
    | nil =>
        have hne : ch ≠ '-' := fun h => hw.ne_dash (by rw [h])
        rw [beq_eq_false_iff_ne.2 hne, Bool.false_and]
    | cons d rest =>
        have hpeek : c.peek 1 = d := by rw [hc]; rfl
        rw [hpeek, isGap_of_isOrdinary (hw.ordinary d (by simp)), Bool.and_false]
  have hmark : ∀ m, m.isAlpha = false → (k == 0 && c.atMark m) = false := by
    intro m hm
    rcases hcolumn with hk | hkey
    · rw [beq_eq_false_iff_ne.2 hk, Bool.false_and]
    · obtain ⟨d, rest', heq, hd⟩ := hkey.letter
      cases heq
      have hne : (ch == m) = false := by
        rw [beq_eq_false_iff_ne]
        rintro rfl
        rw [hd] at hm
        cases hm
      have hpeek : c.peek 0 = ch := hhead
      rw [Cursor.atMark, hpeek, hne, Bool.false_and, Bool.false_and, Bool.false_and, Bool.and_false]
  have hplain : atPlain 0 c = true := by
    by_cases hc' : ch = '-'
    · have hgap : isGap (c.peek 1) = false := by simpa [hc'] using hdash
      simp [atPlain, hhead, hgap, hc']
    · have hother : ∀ d, isOrdinary d = false → ch ≠ d :=
        fun d hd => beq_eq_false_iff_ne.1 (beq_of_isOrdinary hord hd)
      simp (disch := decide) [atPlain, hhead, isGap_of_isOrdinary hord, hc', hother]
  rw [← hc] at hskip ⊢
  simp only [cut, StateT.run_bind, run_skipGaps hskip hbreak, pure_bind]
  rw [run_dropStale (by exact hasFreshKeys_of_nil hpending)]
  simp only [StateT.run_get, pure_bind, hcol]
  rw [run_unwind (by exact hindent)]
  simp (disch := decide) only [pure_bind, hhead, hdepth, beq_of_isOrdinary hord, hmark, hdash, hplain,
    endMark, Bool.and_false, Bool.false_and, Bool.false_or, Bool.or_self, bne_self_eq_false,
    Bool.false_eq_true, if_true, if_false]

/-- A plain scalar of one word ends with the gap behind it if there is none, or if the next line is not
indented. -/
theorem run_plainBody {s' : Lexer} {w tail next : List Char} {fuel : Nat} (hw : IsWord w)
    (hrest : s.cursor.rest = w ++ tail) (hdepth : s.depth = 0) (htail : plainRun 0 tail = [])
    (hgap : (plainGap fuel).run
      { s with keyAllowed := false, cursor := s.cursor.advance w.length } = pure (next, s'))
    (hend : next.isEmpty = true ∨ (s'.cursor.column : Int) < s.indent + 1) :
    (plainBody [] (fuel + 1)).run s = pure (w, s') := by
  have hcomment : (s.cursor.head == '#') = false := by
    obtain ⟨ch, rest, rfl⟩ := List.exists_cons_of_ne_nil hw.ne_nil
    rw [Cursor.head_of_rest hrest]
    exact beq_of_isOrdinary (hw.ordinary ch List.mem_cons_self) (by decide)
  have hrun : plainRun 0 s.cursor.rest = w := by
    rw [hrest, plainRun_append hw.ordinary, htail, List.append_nil]
  have hempty : w.isEmpty = false := List.isEmpty_eq_false_iff.2 hw.ne_nil
  have hstop : (next.isEmpty || s'.cursor.head == '#' ||
      ((0 : Nat) == 0 && decide ((s'.cursor.column : Int) < s.indent + 1))) = true := by
    rcases hend with h | h <;> simp [h]
  rw [hdepth] at hgap
  simp only [plainBody, StateT.run_bind, StateT.run_get, pure_bind, hcomment, hdepth, hrun, hempty,
    Bool.false_eq_true, if_false, run_allowKey, run_advance]
  rw [hgap]
  simp only [pure_bind, run_cursor, hstop, if_true, StateT.run_pure, List.nil_append]

/-- In front of a colon there is no gap. -/
theorem run_plainGap_colon {tail : List Char} (hrest : s.cursor.rest = ':' :: tail) (fuel : Nat) :
    (plainGap fuel).run s = pure ([], s) := by
  have htake : s.cursor.takeWhile (· == ' ') = ([], s.cursor) := by
    simp [Cursor.takeWhile, hrest, Cursor.advance]
  have hbreak : s.cursor.lineBreak? = none :=
    Cursor.lineBreak?_of_head (by rw [Cursor.head_of_rest hrest]; rfl)
  simp only [plainGap, StateT.run_bind, run_cursor, run_setCursor, pure_bind, htake, hbreak,
    StateT.run_pure]

/-- Nothing follows a line break in front of ordinary characters. -/
theorem run_plainBreaks (h : ∀ c ∈ s.cursor.rest.head?, isOrdinary c = true) (fuel : Nat) :
    (plainBreaks fuel).run s = pure (some [], s) := by
  have hhead : (s.cursor.head == ' ') = false ∧ isBreak s.cursor.head = false := by
    cases hrest : s.cursor.rest with
    | nil =>
        have hend : s.cursor.head = endMark := by simp [Cursor.head, Cursor.peek, hrest]
        rw [hend]
        decide
    | cons c tail =>
        have hc : isOrdinary c = true := h c (by rw [hrest]; rfl)
        rw [Cursor.head_of_rest hrest]
        exact ⟨beq_of_isOrdinary hc (by decide), isBreak_of_isOrdinary hc⟩
  cases fuel with
  | zero => rfl
  | succ fuel =>
      simp only [plainBreaks, StateT.run_bind, run_cursor, run_setCursor, pure_bind, StateT.run_pure,
        Cursor.skipBlanks_of_head hhead.1, Cursor.lineBreak?_of_head hhead.2]

/-- Behind a line break in front of ordinary characters, the next line begins. -/
theorem exists_run_plainGap_feed {tail : List Char} {i l k : Nat} {r : Option Refusal}
    (htail : ∀ c ∈ tail.head?, isOrdinary c = true) (fuel : Nat) :
    ∃ gap, (plainGap fuel).run { s with cursor := ⟨'\n' :: tail, i, l, k, r⟩ } =
      pure (gap, { s with cursor := ⟨tail, i + 1, l + 1, 0, r⟩, keyAllowed := true }) := by
  have htake : Cursor.takeWhile (· == ' ') ⟨'\n' :: tail, i, l, k, r⟩ = ([], ⟨'\n' :: tail, i, l, k, r⟩) :=
    rfl
  have hbreak : Cursor.lineBreak? ⟨'\n' :: tail, i, l, k, r⟩ = some ('\n', ⟨tail, i + 1, l + 1, 0, r⟩) :=
    rfl
  simp only [plainGap, StateT.run_bind, run_cursor, run_setCursor, run_allowKey, pure_bind, htake, hbreak]
  split
  · exact ⟨[], rfl⟩
  · simp only [StateT.run_bind]
    rw [run_plainBreaks (by exact htail)]
    exact ⟨_, rfl⟩

/-! ### Pending keys -/

/-- Where no key may begin, none is remembered. -/
theorem run_rememberKey_of_no_key (h : s.keyAllowed = false) : rememberKey.run s = pure ((), s) := by
  simp only [rememberKey, StateT.run_bind, StateT.run_get, pure_bind, h, Bool.false_eq_true, if_false,
    StateT.run_pure]

/-- Where a key may begin and none is pending, the place is remembered. -/
theorem run_rememberKey (hallowed : s.keyAllowed = true) (hpending : s.pending = []) :
    rememberKey.run s = pure ((),
      { s with
        pending := [⟨s.depth, s.taken + s.queue.length, s.depth == 0 && s.indent == (s.cursor.column : Int),
          s.cursor.index, s.cursor.line, s.cursor.column⟩] }) := by
  simp only [rememberKey, cancelKey, pendingHere, dropPending, StateT.run_bind, StateT.run_get,
    StateT.run_modify, StateT.run_pure, pure_bind, hallowed, hpending, if_true, List.find?_nil,
    List.filter_nil, List.nil_append]

/-! ### Lines -/

/-- Before a line; `i` and `l` count the characters and the lines behind. -/
def atLine (isFirst : Bool) (taken : Nat) (text : List Char) (i l : Nat) : Lexer :=
  ⟨⟨text, i, l, 0, none⟩, [], taken, false, 0, if isFirst then -1 else 0,
    if isFirst then [] else [-1], true, []⟩

/-- The token of a word. -/
def word (w : List Char) : Token := .scalar ⟨String.ofList w, false⟩ true

/-- Behind the key of a line. -/
def behindKey (isFirst : Bool) (taken : Nat) (w tail : List Char) (i l : Nat) : Lexer :=
  { atLine isFirst taken [] i l with
    cursor := ⟨':' :: ' ' :: tail, i + w.length, l, w.length, none⟩
    queue := [word w]
    keyAllowed := false
    pending := [⟨0, taken, !isFirst, i, l, 0⟩] }

/-- Behind the colon of a line. -/
def behindColon (queue : List Token) (taken : Nat) (text : List Char) (i l k : Nat) : Lexer :=
  ⟨⟨text, i, l, k, none⟩, queue, taken, false, 0, 0, [-1], false, []⟩

variable {w tail : List Char} {i l k n : Nat}

/-- Where a line begins, its key is cut. -/
theorem run_cut_key (hw : IsKeyWord w) (isFirst : Bool) (fuel : Nat) :
    (cut (fuel + 1)).run (atLine isFirst n (w ++ ':' :: ' ' :: tail) i l) =
      pure ((), behindKey isFirst n w tail i l) := by
  have hword := hw.isWord
  have hindent : (atLine isFirst n (w ++ ':' :: ' ' :: tail) i l).indent ≤ ((0 : Nat) : Int) := by
    cases isFirst <;> simp [atLine]
  rw [run_cut_word hword (Cursor.skip_of_word hword rfl) rfl rfl hindent (.inr hw)]
  simp only [keyLike, StateT.run_bind, readPlain, run_allowKey, run_emit]
  rw [run_rememberKey rfl rfl]
  simp only [pure_bind]
  rw [run_plainBody hword rfl rfl rfl
    (run_plainGap_colon (by simp [Cursor.advance_word hw.ordinary]; rfl) fuel) (.inl rfl)]
  cases isFirst <;> simp [Cursor.advance_word hw.ordinary, atLine, behindKey, word]

/-- Behind its key, a line has not left it too far back. -/
theorem hasFreshKeys_behindKey (hw : IsKeyWord w) (isFirst : Bool) :
    HasFreshKeys (behindKey isFirst n w tail i l) := by
  intro k hk
  obtain rfl := List.mem_singleton.1 hk
  have := hw.short
  exact ⟨rfl, by simp [behindKey]; omega⟩

/-- Behind the key, the colon says what it was. -/
theorem run_cut_colon (hw : IsKeyWord w) (isFirst : Bool) (fuel : Nat) :
    (cut (fuel + 1)).run (behindKey isFirst n w tail i l) =
      pure ((), behindColon ((if isFirst then [.blockMapping] else []) ++ [.key, word w, .value]) n
        (' ' :: tail) (i + w.length + 1) l (w.length + 1)) := by
  have hindent : (behindKey isFirst n w tail i l).indent ≤ (w.length : Int) := by
    cases isFirst <;> simp [behindKey, atLine]
  rw [run_cut_mark rfl (hasFreshKeys_behindKey hw isFirst) hindent]
  cases isFirst <;> simp [valueMark, pendingHere, dropPending, openBlock, behindKey, atLine, behindColon,
    Cursor.advance, Cursor.next, isBreak]

/-- Behind the colon, the value is cut together with the end of the line. -/
theorem run_cut_value (hw : IsWord w) (htail : ∀ c ∈ tail.head?, isOrdinary c = true) (fuel : Nat) :
    (cut (fuel + 1)).run (behindColon [] n (' ' :: (w ++ '\n' :: tail)) i l k) =
      pure ((), { atLine false n tail (i + 1 + w.length + 1) (l + 1) with queue := [word w] }) := by
  have hblank : Cursor.skipBlanks ⟨' ' :: (w ++ '\n' :: tail), i, l, k, none⟩ =
      Cursor.skipBlanks ⟨w ++ '\n' :: tail, i + 1, l, k + 1, none⟩ := by
    simp [Cursor.skipBlanks, Cursor.skipWhile, Cursor.takeWhile, Cursor.advance, Cursor.next, isBreak]
  have hskip : (behindColon [] n (' ' :: (w ++ '\n' :: tail)) i l k).cursor.skipBlanks.skipComment =
      ⟨w ++ '\n' :: tail, i + 1, l, k + 1, none⟩ :=
    (congrArg Cursor.skipComment hblank).trans (Cursor.skip_of_word hw rfl)
  obtain ⟨gap, hgap⟩ := exists_run_plainGap_feed (s := behindColon [] n [] i l k) htail fuel
    (i := i + 1 + w.length) (l := l) (k := k + 1 + w.length) (r := none)
  rw [run_cut_word hw hskip rfl rfl (Int.natCast_nonneg _) (.inl (Nat.succ_ne_zero k))]
  simp only [keyLike, StateT.run_bind, readPlain, run_allowKey, run_emit]
  rw [run_rememberKey_of_no_key rfl]
  simp only [pure_bind]
  rw [run_plainBody hw rfl rfl rfl (by rw [Cursor.advance_word hw.ordinary]; exact hgap)
    (.inr (by simp [behindColon]))]
  rfl

/-- Behind the last line the record ends, and so does the text. -/
theorem run_cut_end (fuel : Nat) :
    (cut (fuel + 1)).run (atLine false n [] i l) =
      pure ((), { atLine true n [] i l with queue := [.blockEnd, .streamEnd], isDone := true }) := rfl

/-! ### One token after the other -/

theorem run_isUnsettled_of_settled (hpending : s.pending = [])
    (h : s.isDone = true ∨ s.queue.isEmpty = false) : isUnsettled.run s = pure (false, s) := by
  cases hdone : s.isDone with
  | true => simp [isUnsettled, hdone]
  | false =>
      have hqueue : s.queue.isEmpty = false := by simpa [hdone] using h
      simp only [isUnsettled, StateT.run_bind, StateT.run_get, pure_bind, hdone, hqueue,
        Bool.false_eq_true, if_false]
      rw [run_dropStale (hasFreshKeys_of_nil hpending)]
      simp [hpending]

theorem run_isUnsettled_of_empty (hdone : s.isDone = false) (hqueue : s.queue.isEmpty = true) :
    isUnsettled.run s = pure (true, s) := by
  simp only [isUnsettled, StateT.run_bind, StateT.run_get, pure_bind, hdone, hqueue,
    Bool.false_eq_true, if_false, if_true, StateT.run_pure]

theorem run_isUnsettled_of_pending (hdone : s.isDone = false) (hqueue : s.queue.isEmpty = false)
    (hfresh : HasFreshKeys s) (hpending : (s.pending.any fun k => k.place == s.taken) = true) :
    isUnsettled.run s = pure (true, s) := by
  simp only [isUnsettled, StateT.run_bind, StateT.run_get, pure_bind, hdone, hqueue,
    Bool.false_eq_true, if_false]
  rw [run_dropStale hfresh]
  simp only [pure_bind, StateT.run_pure, hpending]

theorem run_settle_of_settled (h : isUnsettled.run s = pure (false, s)) (fuel : Nat) :
    (settle (fuel + 1)).run s = pure ((), s) := by
  simp only [settle, StateT.run_bind, h, pure_bind, Bool.false_eq_true, if_false, StateT.run_pure]

/-- Where the token ahead is not settled, another one is cut. -/
theorem run_settle_of_cut {s' : Lexer} (h : isUnsettled.run s = pure (true, s))
    (hcut : ∀ fuel, (cut (fuel + 1)).run s = pure ((), s')) (htrouble : s'.cursor.trouble = none)
    (fuel : Nat) : (settle (fuel + 1)).run s = (settle fuel).run s' := by
  have hnone : s'.cursor.trouble? = none := by simp [Cursor.trouble?, htrouble]
  simp only [settle, StateT.run_bind, h, pure_bind, if_true, run_cursor, hcut, checkLoaded,
    StateT.run_get, hnone, StateT.run_pure]

theorem run_peek {s' : Lexer} {t : Token} {ts : List Token}
    (h : (settle (s.cursor.rest.length + 2)).run s = pure ((), s')) (hqueue : s'.queue = t :: ts) :
    peek.run s = pure (t, s') := by
  simp only [peek, StateT.run_bind, run_cursor, pure_bind, h, StateT.run_get, StateT.run_pure, hqueue,
    List.headD_cons]

/-- Behind the token ahead. -/
def behind (s : Lexer) : Lexer := { s with queue := s.queue.tail, taken := s.taken + 1 }

@[simp] theorem run_skip : skip.run s = pure ((), behind s) := rfl

/-- Tokens are given one after the other, and each of them as often as it is asked for. -/
def Gives : Lexer → List Token → Prop
  | _, [] => True
  | s, t :: ts => ∃ s', peek.run s = pure (t, s') ∧ peek.run s' = pure (t, s') ∧ Gives (behind s') ts

section Giving

variable {s' : Lexer} {t : Token} {ts us : List Token}

/-- A token that is settled is given. -/
theorem run_peek_of_queue (hpending : s.pending = []) (hqueue : s.queue = t :: us) :
    peek.run s = pure (t, s) :=
  run_peek (run_settle_of_settled
    (run_isUnsettled_of_settled hpending (.inr (by rw [hqueue]; rfl))) _) hqueue

/-- Tokens are given in the order in which they wait. -/
theorem gives_of_settle (h : (settle (s.cursor.rest.length + 2)).run s = pure ((), s'))
    (hpending : s'.pending = []) (hqueue : s'.queue = t :: us) (hbehind : Gives (behind s') ts) :
    Gives s (t :: ts) :=
  ⟨s', run_peek h hqueue, run_peek_of_queue hpending hqueue, hbehind⟩

theorem gives_of_queue (hpending : s.pending = []) (hqueue : s.queue = t :: us)
    (hbehind : Gives (behind s) ts) : Gives s (t :: ts) :=
  ⟨s, run_peek_of_queue hpending hqueue, run_peek_of_queue hpending hqueue, hbehind⟩

end Giving

/-! ### Lines of a record -/

/-- A field of a record on a line of its own. -/
def line (f : List Char × List Char) : List Char := f.1 ++ ':' :: ' ' :: (f.2 ++ ['\n'])

/-- The tokens of a line. -/
def lineTokens (f : List Char × List Char) : List Token := [.key, word f.1, .value, word f.2]

/-- A field that is read from a line of its own. -/
def IsLine (f : List Char × List Char) : Prop := IsKeyWord f.1 ∧ IsWord f.2

/-- A key is settled by the colon behind it. -/
theorem run_settle_line (hw : IsKeyWord w) (isFirst : Bool) (fuel : Nat) :
    (settle (fuel + 3)).run (atLine isFirst n (w ++ ':' :: ' ' :: tail) i l) =
      pure ((), behindColon ((if isFirst then [.blockMapping] else []) ++ [.key, word w, .value]) n
        (' ' :: tail) (i + w.length + 1) l (w.length + 1)) := by
  have hpending : isUnsettled.run (behindKey isFirst n w tail i l) =
      pure (true, behindKey isFirst n w tail i l) :=
    run_isUnsettled_of_pending rfl rfl (hasFreshKeys_behindKey hw isFirst) (by simp [behindKey, atLine])
  rw [run_settle_of_cut (run_isUnsettled_of_empty rfl rfl) (run_cut_key hw isFirst) rfl,
    run_settle_of_cut hpending (run_cut_colon hw isFirst) rfl,
    run_settle_of_settled (run_isUnsettled_of_settled rfl (.inr (by cases isFirst <;> rfl)))]

theorem gives_end : Gives (atLine false n [] i l) [.blockEnd, .streamEnd] := by
  have hsettle := (run_settle_of_cut (run_isUnsettled_of_empty rfl rfl)
    (run_cut_end (n := n) (i := i) (l := l)) rfl 1).trans
    (run_settle_of_settled (run_isUnsettled_of_settled rfl (.inl rfl)) 0)
  exact gives_of_settle hsettle rfl rfl (gives_of_queue rfl rfl trivial)

theorem gives_value {ts : List Token} (hw : IsWord w) (htail : ∀ c ∈ tail.head?, isOrdinary c = true)
    (h : ∀ n i l, Gives (atLine false n tail i l) ts) :
    Gives (behindColon [] n (' ' :: (w ++ '\n' :: tail)) i l k) (word w :: ts) := by
  have hsettle := (run_settle_of_cut (run_isUnsettled_of_empty rfl rfl)
    (run_cut_value (n := n) (i := i) (l := l) (k := k) hw htail) rfl
    ((w ++ '\n' :: tail).length + 2)).trans
    (run_settle_of_settled (run_isUnsettled_of_settled rfl (.inr rfl)) _)
  exact gives_of_settle hsettle rfl rfl (h _ _ _)

/-- A line gives its tokens, and the first one opens the record. -/
theorem gives_line {ts : List Token} {f : List Char × List Char} (hf : IsLine f)
    (htail : ∀ c ∈ tail.head?, isOrdinary c = true) (h : ∀ n i l, Gives (atLine false n tail i l) ts)
    (isFirst : Bool) :
    Gives (atLine isFirst n (line f ++ tail) i l)
      ((if isFirst then [.blockMapping] else []) ++ (lineTokens f ++ ts)) := by
  obtain ⟨w, v⟩ := f
  have hvalue : ∀ n i l k, Gives (behindColon [] n (' ' :: (v ++ '\n' :: tail)) i l k) (word v :: ts) :=
    fun n i l k => gives_value hf.2 htail h
  have hsettle : (settle (w.length + (v ++ '\n' :: tail).length + 1 + 3)).run
      (atLine isFirst n (w ++ ':' :: ' ' :: (v ++ '\n' :: tail)) i l) = _ :=
    run_settle_line hf.1 isFirst _
  have htext : line (w, v) ++ tail = w ++ ':' :: ' ' :: (v ++ '\n' :: tail) := by simp [line]
  have hlength : (w ++ ':' :: ' ' :: (v ++ '\n' :: tail)).length + 2 =
      w.length + (v ++ '\n' :: tail).length + 1 + 3 := by
    simp only [List.length_append, List.length_cons]
    omega
  rw [← hlength] at hsettle
  rw [htext]
  have hqueued : ∀ n, Gives (behindColon [word w, .value] n (' ' :: (v ++ '\n' :: tail))
      (i + w.length + 1) l (w.length + 1)) (word w :: .value :: word v :: ts) :=
    fun n => gives_of_queue rfl rfl (gives_of_queue rfl rfl (hvalue _ _ _ _))
  cases isFirst with
  | false => exact gives_of_settle hsettle rfl rfl (hqueued _)
  | true => exact gives_of_settle hsettle rfl rfl (gives_of_queue rfl rfl (hqueued _))

/-- What begins with a key begins with an ordinary character. -/
theorem head?_lines {fs : List (List Char × List Char)} (hfs : ∀ f ∈ fs, IsLine f) :
    ∀ c ∈ (fs.flatMap line).head?, isOrdinary c = true := by
  intro c hc
  cases fs with
  | nil => cases hc
  | cons f fs =>
      have hf := (hfs f List.mem_cons_self).1
      obtain ⟨d, rest, hd, -⟩ := hf.letter
      have hhead : c = d := by simpa [line, hd, eq_comm] using hc
      exact hhead ▸ hf.ordinary d (by simp [hd])

theorem gives_lines {fs : List (List Char × List Char)} (hfs : ∀ f ∈ fs, IsLine f) (n i l : Nat) :
    Gives (atLine false n (fs.flatMap line) i l) (fs.flatMap lineTokens ++ [.blockEnd, .streamEnd]) := by
  induction fs generalizing n i l with
  | nil => exact gives_end
  | cons f fs ih =>
      have hrest : ∀ f ∈ fs, IsLine f := fun g hg => hfs g (List.mem_cons_of_mem _ hg)
      have hline := gives_line (n := n) (i := i) (l := l) (hfs f List.mem_cons_self) (head?_lines hrest)
        (ih hrest) false
      simpa using hline

/-- **Lines give the tokens of a record.** -/
theorem gives_record {f : List Char × List Char} {fs : List (List Char × List Char)}
    (hfs : ∀ g ∈ f :: fs, IsLine g) :
    Gives (.start ⟨(f :: fs).flatMap line, none⟩)
      (.blockMapping :: ((f :: fs).flatMap lineTokens ++ [.blockEnd, .streamEnd])) := by
  have hrest : ∀ g ∈ fs, IsLine g := fun g hg => hfs g (List.mem_cons_of_mem _ hg)
  have hline := gives_line (n := 0) (i := 0) (l := 0) (hfs f List.mem_cons_self) (head?_lines hrest)
    (gives_lines hrest) true
  -- the text does not begin with a byte order mark
  have hstart : Lexer.start ⟨(f :: fs).flatMap line, none⟩ =
      atLine true 0 ((f :: fs).flatMap line) 0 0 := by
    have hmark : ∀ rest, (f :: fs).flatMap line ≠ '\ufeff' :: rest := by
      intro rest heq
      have hhead := head?_lines hfs
      rw [heq] at hhead
      exact absurd (hhead '\ufeff' rfl) (by decide)
    unfold Lexer.start
    split
    · next h => exact absurd h (hmark _)
    · rfl
  rw [hstart]
  simpa using hline

end Lex

end MixedInteger.Yaml
