/-
**A text that breaks off has no value.**

A text may break off where no more of it could be loaded.  Whoever cuts tokens sees the end there, as
behind every text; but before the last token is handed out, it is asked whether the text broke off.  So
tokens can be cut from such a text, and nodes can be put together from them, but the end of its only
document is never reached, whatever stands in front.

The argument is an invariant: the text breaks off behind the place that is being read, the last token
has not been cut, and it is not in the queue.  Every step of the cutting keeps it, or fails; the one step
that cuts the last token does so at the very place where the text breaks off.  Putting nodes together
touches the tokens by looking ahead and going on alone.

Main definitions:

* `MixedInteger.Yaml.Lexer.BreaksOff` — the invariant; `Cursor.BreaksOff` and `Stream.BreaksOff` are what
  it says of places and of texts;
* `MixedInteger.Yaml.Graph.Build.Reads` — what the reading of nodes keeps.

Main results:

* `MixedInteger.Yaml.Lex.spec_cut`, `MixedInteger.Yaml.Lex.spec_peek` — **no last token is cut, and none is
  handed out**;
* `MixedInteger.Yaml.Graph.Build.spec_document` — no document is put together to its end;
* `MixedInteger.Yaml.exists_document_eq_error` — **a text that breaks off has no value**;
* `MixedInteger.Yaml.Stream.breaksOff_ofBytes` — bytes that are no text break off;
* `MixedInteger.Yaml.Stream.ofBytes_of_short` — few of them break off at once.
-/

import Mathlib
import MixedInteger.Proofs.Encoding
import MixedInteger.Yaml.Loading
import MixedInteger.Yaml.Value

set_option autoImplicit false
set_option mvcgen.warning false

namespace MixedInteger.Yaml

open Std.Do

/-! ### Cursors -/

/-- The text breaks off behind what is ahead, and no end is marked there. -/
structure Cursor.BreaksOff (c : Cursor) : Prop where
  trouble : c.trouble.isSome = true
  unmarked : endMark ∉ c.rest

namespace Cursor

theorem trouble_next (c : Cursor) : c.next.trouble = c.trouble := by
  unfold next
  split
  · rfl
  · split <;> rfl

theorem trouble_advance (n : Nat) (c : Cursor) : (c.advance n).trouble = c.trouble := by
  induction n generalizing c with
  | zero => rfl
  | succ n ih => rw [advance, ih, trouble_next]

namespace BreaksOff

variable {c : Cursor}

/-- Going on does not change that. -/
@[grind ←]
theorem advance (h : c.BreaksOff) (n : Nat) : (c.advance n).BreaksOff where
  trouble := by rw [trouble_advance]; exact h.trouble
  unmarked := by
    rw [rest_advance]
    exact fun hmem => h.unmarked (List.mem_of_mem_drop hmem)

@[grind ←]
theorem next (h : c.BreaksOff) : c.next.BreaksOff := h.advance 1

@[grind ←]
theorem takeWhile (h : c.BreaksOff) (p : Char → Bool) : (c.takeWhile p).2.BreaksOff := h.advance _

@[grind ←]
theorem skipWhile (h : c.BreaksOff) (p : Char → Bool) : (c.skipWhile p).BreaksOff := h.advance _

@[grind ←]
theorem skipBlanks (h : c.BreaksOff) : c.skipBlanks.BreaksOff := h.skipWhile _

@[grind ←]
theorem skipComment (h : c.BreaksOff) : c.skipComment.BreaksOff := by
  unfold Cursor.skipComment
  split
  · exact h.skipWhile _
  · exact h

@[grind →]
theorem lineBreak? {b : Char} {after : Cursor} (hbreak : c.lineBreak? = some (b, after))
    (h : c.BreaksOff) : after.BreaksOff := by
  unfold Cursor.lineBreak? at hbreak
  split at hbreak
  · cases hbreak
    exact h.advance 2
  · split at hbreak
    · cases hbreak
      exact h.next
    · split at hbreak <;> cases hbreak
      exact h.next

@[grind ←]
theorem afterBreak (h : c.BreaksOff) : ((c.lineBreak?.map Prod.snd).getD c).BreaksOff := by
  cases hbreak : c.lineBreak? with
  | none => exact h
  | some b => exact lineBreak? hbreak h

@[grind ←]
theorem skipIndent (h : c.BreaksOff) (column : Nat) : (Lex.skipIndent column c).BreaksOff :=
  h.advance _

/-- Where the end is seen, the text breaks off at once. -/
theorem trouble?_of_head (h : c.BreaksOff) (hend : c.head = endMark) : c.trouble?.isSome = true := by
  unfold Cursor.trouble?
  cases hrest : c.rest with
  | nil => exact h.trouble
  | cons ch rest =>
      have hhead : ch = endMark := by simpa [head, peek, hrest] using hend
      exact absurd (hrest ▸ hhead ▸ List.mem_cons_self) h.unmarked

end BreaksOff

end Cursor

/-! ### Tokens -/

/-- The text breaks off behind the place that is being read, and the last token has not been cut. -/
structure Lexer.BreaksOff (s : Lexer) : Prop where
  cursor : s.cursor.BreaksOff
  isDone : s.isDone = false
  queue : .streamEnd ∉ s.queue

/-- Tokens but the last one may be added. -/
theorem Lexer.BreaksOff.emit {s : Lexer} (h : s.BreaksOff) {t : Token} (ht : t ≠ .streamEnd) :
    { s with queue := s.queue ++ [t] }.BreaksOff := by
  refine ⟨h.cursor, h.isDone, fun hmem => ?_⟩
  rcases List.mem_append.1 hmem with hmem | hmem
  · exact h.queue hmem
  · exact ht (List.mem_singleton.1 hmem).symm

/-- What a triple about a step that may fail says of its runs. -/
theorem triple_iff {σ β : Type} {x : StateT σ (Except Refusal) β} {P : σ → Prop}
    {Q : β → σ → Prop} :
    ⦃fun s => ⌜P s⌝⦄ x ⦃⇓? b s => ⌜Q b s⌝⦄ ↔
      ∀ s, P s → ∀ b s', x.run s = .ok (b, s') → Q b s' := by
  have hwp : ∀ s, (wp⟦x⟧ (⇓? b s => ⌜Q b s⌝) s).down ↔
      (wp⟦x.run s⟧ (⇓? r => ⌜Q r.1 r.2⌝)).down := fun s => Iff.rfl
  constructor
  · intro h s hs b s' hx
    have hrun := (hwp s).1 (h s hs)
    rw [hx] at hrun
    exact hrun
  · intro h s hs
    refine (hwp s).2 ?_
    cases hx : x.run s with
    | error e => trivial
    | ok r => exact h s hs r.1 r.2 hx

/-- Nothing has to be said of what follows a refusal. -/
@[spec high] theorem spec_throw {σ β : Type} (r : Refusal) {P : σ → Prop} {Q : β → σ → Prop} :
    ⦃fun s => ⌜P s⌝⦄ (throw r : StateT σ (Except Refusal) β) ⦃⇓? b s => ⌜Q b s⌝⦄ := by
  intro s _
  trivial

namespace Lex

variable {β : Type} {x : Lex β}

/-! #### Steps that leave the place or the tokens alone -/

section Alone

variable {γ : Type} {f : Lexer → γ} (c : γ)

theorem keeps_ensure (b : Bool) :
    ⦃fun s => ⌜f s = c⌝⦄ ensure b ⦃⇓? _ s => ⌜f s = c⌝⦄ := by
  unfold ensure
  split
  · mvcgen
  · intro s _
    trivial

/-- What a step leaves alone may be said besides. -/
theorem spec_and_keeps {P : Lexer → Prop}
    (hx : ⦃fun s => ⌜P s⌝⦄ x ⦃⇓? _ s => ⌜P s⌝⦄)
    (hc : ⦃fun s => ⌜f s = c⌝⦄ x ⦃⇓? _ s => ⌜f s = c⌝⦄) :
    ⦃fun s => ⌜P s ∧ f s = c⌝⦄ x ⦃⇓? _ s => ⌜P s ∧ f s = c⌝⦄ := by
  rw [triple_iff] at hx hc ⊢
  exact fun s hs b s' h => ⟨hx s hs.1 b s' h, hc s hs.2 b s' h⟩

end Alone

theorem keeps_allowKey (c : Cursor) (b : Bool) :
    ⦃fun s => ⌜s.cursor = c⌝⦄ allowKey b ⦃⇓? _ s => ⌜s.cursor = c⌝⦄ := by
  mvcgen [allowKey]

theorem keeps_cancelKey (c : Cursor) :
    ⦃fun s => ⌜s.cursor = c⌝⦄ cancelKey ⦃⇓? _ s => ⌜s.cursor = c⌝⦄ := by
  have hensure := @keeps_ensure Cursor Lexer.cursor
  mvcgen [cancelKey, pendingHere, dropPending, hensure] with grind

theorem keeps_closeBlocks (c : Cursor) (column indent : Int) (outer : List Int) :
    ⦃fun s => ⌜s.cursor = c⌝⦄ closeBlocks column indent outer ⦃⇓? _ s => ⌜s.cursor = c⌝⦄ := by
  induction outer generalizing indent with
  | nil => mvcgen [closeBlocks]
  | cons i rest ih => mvcgen [closeBlocks, emit, ih]

theorem keeps_unwind (c : Cursor) (column : Int) :
    ⦃fun s => ⌜s.cursor = c⌝⦄ unwind column ⦃⇓? _ s => ⌜s.cursor = c⌝⦄ := by
  mvcgen [unwind, keeps_closeBlocks]

theorem keeps_dropStale (q : List Token) :
    ⦃fun s => ⌜s.queue = q⌝⦄ dropStale ⦃⇓? _ s => ⌜s.queue = q⌝⦄ := by
  have hensure := @keeps_ensure (List Token) Lexer.queue
  mvcgen [dropStale, hensure] with grind

/-! #### Steps

Every step keeps the invariant or fails, and does so because the steps do that it is made of. -/

@[spec] theorem spec_cursor :
    ⦃fun s => ⌜s.BreaksOff⌝⦄ cursor ⦃⇓? c s => ⌜s.BreaksOff ∧ c.BreaksOff⌝⦄ := by
  mvcgen [cursor]
  next s h => exact ⟨h, h.cursor⟩

@[spec] theorem spec_setCursor (c : Cursor) :
    ⦃fun s => ⌜s.BreaksOff ∧ c.BreaksOff⌝⦄ setCursor c ⦃⇓? _ s => ⌜s.BreaksOff⌝⦄ := by
  mvcgen [setCursor]
  next s h _ => exact ⟨h.2, h.1.isDone, h.1.queue⟩

@[spec] theorem spec_refuse {β : Type} (r : Refusal) {P : Lexer → Prop} {Q : β → Lexer → Prop} :
    ⦃fun s => ⌜P s⌝⦄ (refuse r : Lex β) ⦃⇓? b s => ⌜Q b s⌝⦄ := by
  intro s _
  trivial

@[spec] theorem spec_fail {β : Type} {P : Lexer → Prop} {Q : β → Lexer → Prop} :
    ⦃fun s => ⌜P s⌝⦄ (fail : Lex β) ⦃⇓? b s => ⌜Q b s⌝⦄ := by
  intro s _
  trivial

@[spec] theorem spec_ensure (b : Bool) :
    ⦃fun s => ⌜s.BreaksOff⌝⦄ ensure b ⦃⇓? _ s => ⌜s.BreaksOff⌝⦄ := by
  mvcgen [ensure]

@[spec] theorem spec_advance (n : Nat) :
    ⦃fun s => ⌜s.BreaksOff⌝⦄ advance n ⦃⇓? _ s => ⌜s.BreaksOff⌝⦄ := by
  mvcgen [advance] with grind

@[spec] theorem spec_emit (t : Token) :
    ⦃fun s => ⌜s.BreaksOff ∧ t ≠ .streamEnd⌝⦄ emit t ⦃⇓? _ s => ⌜s.BreaksOff⌝⦄ := by
  mvcgen [emit]
  next s h _ => exact h.1.emit h.2

@[spec] theorem spec_emitAt (place : Nat) (t : Token) :
    ⦃fun s => ⌜s.BreaksOff ∧ t ≠ .streamEnd⌝⦄ emitAt place t ⦃⇓? _ s => ⌜s.BreaksOff⌝⦄ := by
  mvcgen [emitAt]
  next s h _ =>
    refine ⟨h.1.cursor, h.1.isDone, fun hmem => ?_⟩
    rcases List.eq_or_mem_of_mem_insertIdx hmem with hmem | hmem
    · exact h.2 hmem.symm
    · exact h.1.queue hmem

@[spec] theorem spec_allowKey (b : Bool) :
    ⦃fun s => ⌜s.BreaksOff⌝⦄ allowKey b ⦃⇓? _ s => ⌜s.BreaksOff⌝⦄ := by
  mvcgen [allowKey]
  next s h _ => exact ⟨h.cursor, h.isDone, h.queue⟩

/-! #### Keys and indentation -/

@[spec] theorem spec_pendingHere :
    ⦃fun s => ⌜s.BreaksOff⌝⦄ pendingHere ⦃⇓? _ s => ⌜s.BreaksOff⌝⦄ := by
  mvcgen [pendingHere]

@[spec] theorem spec_dropPending :
    ⦃fun s => ⌜s.BreaksOff⌝⦄ dropPending ⦃⇓? _ s => ⌜s.BreaksOff⌝⦄ := by
  mvcgen [dropPending]
  next s h _ => exact ⟨h.cursor, h.isDone, h.queue⟩

@[spec] theorem spec_cancelKey :
    ⦃fun s => ⌜s.BreaksOff⌝⦄ cancelKey ⦃⇓? _ s => ⌜s.BreaksOff⌝⦄ := by
  mvcgen [cancelKey]

@[spec] theorem spec_rememberKey :
    ⦃fun s => ⌜s.BreaksOff⌝⦄ rememberKey ⦃⇓? _ s => ⌜s.BreaksOff⌝⦄ := by
  mvcgen [rememberKey]
  next s h _ => exact ⟨h.cursor, h.isDone, h.queue⟩

@[spec] theorem spec_dropStale :
    ⦃fun s => ⌜s.BreaksOff⌝⦄ dropStale ⦃⇓? _ s => ⌜s.BreaksOff⌝⦄ := by
  mvcgen [dropStale]
  next s h _ => exact ⟨h.cursor, h.isDone, h.queue⟩

@[spec] theorem spec_closeBlocks (column indent : Int) (outer : List Int) :
    ⦃fun s => ⌜s.BreaksOff⌝⦄ closeBlocks column indent outer ⦃⇓? _ s => ⌜s.BreaksOff⌝⦄ := by
  induction outer generalizing indent with
  | nil => mvcgen [closeBlocks]
  | cons i rest ih =>
      mvcgen [closeBlocks, ih]
      next s h _ => exact ⟨h.cursor, h.isDone, h.queue⟩

@[spec] theorem spec_unwind (column : Int) :
    ⦃fun s => ⌜s.BreaksOff⌝⦄ unwind column ⦃⇓? _ s => ⌜s.BreaksOff⌝⦄ := by
  mvcgen [unwind]

@[spec] theorem spec_openBlock (column : Nat) :
    ⦃fun s => ⌜s.BreaksOff⌝⦄ openBlock column ⦃⇓? _ s => ⌜s.BreaksOff⌝⦄ := by
  mvcgen [openBlock]
  next s h _ => exact ⟨h.cursor, h.isDone, h.queue⟩

@[spec] theorem spec_skipGaps (fuel : Nat) :
    ⦃fun s => ⌜s.BreaksOff⌝⦄ skipGaps fuel ⦃⇓? _ s => ⌜s.BreaksOff⌝⦄ := by
  induction fuel with
  | zero => mvcgen [skipGaps]
  | succ fuel ih => mvcgen [skipGaps, ih] with grind

/-! #### Directives, anchors, tags -/

@[spec] theorem spec_finishLine :
    ⦃fun s => ⌜s.BreaksOff⌝⦄ finishLine ⦃⇓? _ s => ⌜s.BreaksOff⌝⦄ := by
  mvcgen [finishLine] with grind

@[spec] theorem spec_readRun (p : Char → Bool) :
    ⦃fun s => ⌜s.BreaksOff⌝⦄ readRun p ⦃⇓? _ s => ⌜s.BreaksOff⌝⦄ := by
  mvcgen [readRun] with grind

@[spec] theorem spec_readHex (width : Nat) :
    ⦃fun s => ⌜s.BreaksOff⌝⦄ readHex width ⦃⇓? _ s => ⌜s.BreaksOff⌝⦄ := by
  mvcgen [readHex] with grind

@[spec] theorem spec_readEscapedBytes (fuel : Nat) :
    ⦃fun s => ⌜s.BreaksOff⌝⦄ readEscapedBytes fuel ⦃⇓? _ s => ⌜s.BreaksOff⌝⦄ := by
  induction fuel with
  | zero => mvcgen [readEscapedBytes]
  | succ fuel ih => mvcgen [readEscapedBytes, ih] with grind

@[spec] theorem spec_tagCharacters (fuel : Nat) :
    ⦃fun s => ⌜s.BreaksOff⌝⦄ tagCharacters fuel ⦃⇓? _ s => ⌜s.BreaksOff⌝⦄ := by
  induction fuel with
  | zero => mvcgen [tagCharacters]
  | succ fuel ih => mvcgen [tagCharacters, ih] with grind

@[spec] theorem spec_readTagText :
    ⦃fun s => ⌜s.BreaksOff⌝⦄ readTagText ⦃⇓? _ s => ⌜s.BreaksOff⌝⦄ := by
  mvcgen [readTagText] with grind

@[spec] theorem spec_readHandle :
    ⦃fun s => ⌜s.BreaksOff⌝⦄ readHandle ⦃⇓? _ s => ⌜s.BreaksOff⌝⦄ := by
  mvcgen [readHandle] with grind

@[spec] theorem spec_readNumber :
    ⦃fun s => ⌜s.BreaksOff⌝⦄ readNumber ⦃⇓? _ s => ⌜s.BreaksOff⌝⦄ := by
  mvcgen [readNumber]

@[spec] theorem spec_readDirective :
    ⦃fun s => ⌜s.BreaksOff⌝⦄ readDirective ⦃⇓? t s => ⌜s.BreaksOff ∧ t ≠ .streamEnd⌝⦄ := by
  mvcgen [readDirective] with grind

@[spec] theorem spec_readAnchorName :
    ⦃fun s => ⌜s.BreaksOff⌝⦄ readAnchorName ⦃⇓? _ s => ⌜s.BreaksOff⌝⦄ := by
  mvcgen [readAnchorName] with grind

@[spec] theorem spec_readTag :
    ⦃fun s => ⌜s.BreaksOff⌝⦄ readTag ⦃⇓? t s => ⌜s.BreaksOff ∧ t ≠ .streamEnd⌝⦄ := by
  mvcgen [readTag] with grind

/-! #### Scalars -/

@[spec] theorem spec_readCodePoint (n : Nat) :
    ⦃fun s => ⌜s.BreaksOff⌝⦄ readCodePoint n ⦃⇓? _ s => ⌜s.BreaksOff⌝⦄ := by
  mvcgen [readCodePoint]

@[spec] theorem spec_quotedBreaks (fuel : Nat) :
    ⦃fun s => ⌜s.BreaksOff⌝⦄ quotedBreaks fuel ⦃⇓? _ s => ⌜s.BreaksOff⌝⦄ := by
  induction fuel with
  | zero => mvcgen [quotedBreaks]
  | succ fuel ih => mvcgen [quotedBreaks, ih] with grind

@[spec] theorem spec_quotedGap (fuel : Nat) :
    ⦃fun s => ⌜s.BreaksOff⌝⦄ quotedGap fuel ⦃⇓? _ s => ⌜s.BreaksOff⌝⦄ := by
  mvcgen [quotedGap] with grind

@[spec] theorem spec_readEscape (fuel : Nat) :
    ⦃fun s => ⌜s.BreaksOff⌝⦄ readEscape fuel ⦃⇓? _ s => ⌜s.BreaksOff⌝⦄ := by
  mvcgen [readEscape] with grind

@[spec] theorem spec_quotedBody (mark : Char) (fuel : Nat) :
    ⦃fun s => ⌜s.BreaksOff⌝⦄ quotedBody mark fuel ⦃⇓? _ s => ⌜s.BreaksOff⌝⦄ := by
  induction fuel with
  | zero => mvcgen [quotedBody]
  | succ fuel ih => mvcgen [quotedBody, ih] with grind

@[spec] theorem spec_readQuoted (mark : Char) (fuel : Nat) :
    ⦃fun s => ⌜s.BreaksOff⌝⦄ readQuoted mark fuel ⦃⇓? t s => ⌜s.BreaksOff ∧ t ≠ .streamEnd⌝⦄ := by
  mvcgen [readQuoted] with grind

@[spec] theorem spec_plainBreaks (fuel : Nat) :
    ⦃fun s => ⌜s.BreaksOff⌝⦄ plainBreaks fuel ⦃⇓? _ s => ⌜s.BreaksOff⌝⦄ := by
  induction fuel with
  | zero => mvcgen [plainBreaks]
  | succ fuel ih => mvcgen [plainBreaks, ih] with grind

@[spec] theorem spec_plainGap (fuel : Nat) :
    ⦃fun s => ⌜s.BreaksOff⌝⦄ plainGap fuel ⦃⇓? _ s => ⌜s.BreaksOff⌝⦄ := by
  mvcgen [plainGap] with grind

@[spec] theorem spec_plainBody (gap : List Char) (fuel : Nat) :
    ⦃fun s => ⌜s.BreaksOff⌝⦄ plainBody gap fuel ⦃⇓? _ s => ⌜s.BreaksOff⌝⦄ := by
  induction fuel generalizing gap with
  | zero => mvcgen [plainBody]
  | succ fuel ih => mvcgen [plainBody, ih] with grind

@[spec] theorem spec_readPlain (fuel : Nat) :
    ⦃fun s => ⌜s.BreaksOff⌝⦄ readPlain fuel ⦃⇓? t s => ⌜s.BreaksOff ∧ t ≠ .streamEnd⌝⦄ := by
  mvcgen [readPlain] with grind

@[spec] theorem spec_readHeader :
    ⦃fun s => ⌜s.BreaksOff⌝⦄ readHeader ⦃⇓? _ s => ⌜s.BreaksOff⌝⦄ := by
  mvcgen [readHeader] with grind

@[spec] theorem spec_blockBreaks (column fuel : Nat) :
    ⦃fun s => ⌜s.BreaksOff⌝⦄ blockBreaks column fuel ⦃⇓? _ s => ⌜s.BreaksOff⌝⦄ := by
  induction fuel with
  | zero => mvcgen [blockBreaks]
  | succ fuel ih => mvcgen [blockBreaks, ih] with grind

@[spec] theorem spec_blockIndentation (fuel : Nat) :
    ⦃fun s => ⌜s.BreaksOff⌝⦄ blockIndentation fuel ⦃⇓? _ s => ⌜s.BreaksOff⌝⦄ := by
  induction fuel with
  | zero => mvcgen [blockIndentation]
  | succ fuel ih => mvcgen [blockIndentation, ih] with grind

@[spec] theorem spec_blockLines (isFolded : Bool) (column : Nat) (breaks : List Char) (fuel : Nat) :
    ⦃fun s => ⌜s.BreaksOff⌝⦄ blockLines isFolded column breaks fuel ⦃⇓? _ s => ⌜s.BreaksOff⌝⦄ := by
  induction fuel generalizing breaks with
  | zero => mvcgen [blockLines]
  | succ fuel ih => mvcgen [blockLines, ih] with grind

@[spec] theorem spec_readBlock (isFolded : Bool) (fuel : Nat) :
    ⦃fun s => ⌜s.BreaksOff⌝⦄ readBlock isFolded fuel
      ⦃⇓? t s => ⌜s.BreaksOff ∧ t ≠ .streamEnd⌝⦄ := by
  mvcgen [readBlock] with grind

/-! #### One token after the other -/

@[spec] theorem spec_documentMark (t : Token) :
    ⦃fun s => ⌜s.BreaksOff ∧ t ≠ .streamEnd⌝⦄ documentMark t ⦃⇓? _ s => ⌜s.BreaksOff⌝⦄ := by
  mvcgen [documentMark] with grind

@[spec] theorem spec_openFlow (t : Token) :
    ⦃fun s => ⌜s.BreaksOff ∧ t ≠ .streamEnd⌝⦄ openFlow t ⦃⇓? _ s => ⌜s.BreaksOff⌝⦄ := by
  mvcgen [openFlow]
  · grind
  · next h _ => exact ⟨h.cursor, h.isDone, h.queue⟩
  · grind

@[spec] theorem spec_closeFlow (t : Token) :
    ⦃fun s => ⌜s.BreaksOff ∧ t ≠ .streamEnd⌝⦄ closeFlow t ⦃⇓? _ s => ⌜s.BreaksOff⌝⦄ := by
  mvcgen [closeFlow]
  · grind
  · next h _ => exact ⟨h.cursor, h.isDone, h.queue⟩
  · grind

@[spec] theorem spec_blockItem :
    ⦃fun s => ⌜s.BreaksOff⌝⦄ blockItem ⦃⇓? _ s => ⌜s.BreaksOff⌝⦄ := by
  mvcgen [blockItem]

@[spec] theorem spec_explicitKey :
    ⦃fun s => ⌜s.BreaksOff⌝⦄ explicitKey ⦃⇓? _ s => ⌜s.BreaksOff⌝⦄ := by
  mvcgen [explicitKey]

@[spec] theorem spec_valueMark :
    ⦃fun s => ⌜s.BreaksOff⌝⦄ valueMark ⦃⇓? _ s => ⌜s.BreaksOff⌝⦄ := by
  mvcgen [valueMark]

@[spec] theorem spec_blockScalar (isFolded : Bool) (fuel : Nat) :
    ⦃fun s => ⌜s.BreaksOff⌝⦄ blockScalar isFolded fuel ⦃⇓? _ s => ⌜s.BreaksOff⌝⦄ := by
  mvcgen [blockScalar]

/-- What a token that may begin a key needs. -/
@[spec] theorem spec_keyLike {read : Lex Token}
    (hread : ⦃fun s => ⌜s.BreaksOff⌝⦄ read ⦃⇓? t s => ⌜s.BreaksOff ∧ t ≠ .streamEnd⌝⦄) :
    ⦃fun s => ⌜s.BreaksOff⌝⦄ keyLike read ⦃⇓? _ s => ⌜s.BreaksOff⌝⦄ := by
  mvcgen [keyLike, hread]

/-- **What is cut is no last token**, or the text has broken off. -/
@[spec] theorem spec_cut (fuel : Nat) :
    ⦃fun s => ⌜s.BreaksOff⌝⦄ cut fuel
      ⦃⇓? _ s => ⌜s.BreaksOff ∨ s.cursor.trouble?.isSome = true⌝⦄ := by
  have hunwind := fun c column => spec_and_keeps c (spec_unwind column) (keeps_unwind c column)
  have hcancel := fun c => spec_and_keeps c spec_cancelKey (keeps_cancelKey c)
  have hallow := fun c b => spec_and_keeps c (spec_allowKey b) (keeps_allowKey c b)
  mvcgen [cut, hunwind, hcancel, hallow, emit, -spec_unwind, -spec_cancelKey, -spec_allowKey,
    -spec_emit]
  all_goals try grind
  · -- at the end that is seen nothing more could be loaded
    next hend _ _ _ _ _ _ s hs _ _ =>
      have hhead : s.cursor.head = endMark := by
        rw [hs.2]
        exact eq_of_beq hend
      exact Or.inr (hs.1.cursor.trouble?_of_head hhead)
  · next h _ => exact Or.inl (h.1.emit h.2)
  · next h _ => exact Or.inl (h.emit (by simp))

/-- Going on means that the text has not broken off. -/
theorem spec_checkLoaded :
    ⦃fun s => ⌜s.BreaksOff ∨ s.cursor.trouble?.isSome = true⌝⦄ checkLoaded
      ⦃⇓? _ s => ⌜s.BreaksOff⌝⦄ := by
  rw [triple_iff]
  intro s hs b s' h
  cases htrouble : s.cursor.trouble? with
  | some r =>
      have hrun : checkLoaded.run s = .error r := by
        unfold checkLoaded
        simp [htrouble]
        rfl
      simp [hrun] at h
  | none =>
      have hrun : checkLoaded.run s = .ok ((), s) := by
        unfold checkLoaded
        simp [htrouble]
        rfl
      obtain ⟨-, rfl⟩ := Prod.mk.inj (Except.ok.inj (hrun.symm.trans h))
      exact hs.resolve_right (by simp [htrouble])

@[spec] theorem spec_isUnsettled :
    ⦃fun s => ⌜s.BreaksOff⌝⦄ isUnsettled
      ⦃⇓? b s => ⌜s.BreaksOff ∧ (b = false → s.queue ≠ [])⌝⦄ := by
  have hdrop := fun q => spec_and_keeps q spec_dropStale (keeps_dropStale q)
  mvcgen [isUnsettled, hdrop, -spec_dropStale]
  · next h hdone => exact absurd (h.isDone.symm.trans hdone) (by decide)
  all_goals grind

@[spec] theorem spec_settle (fuel : Nat) :
    ⦃fun s => ⌜s.BreaksOff⌝⦄ settle fuel ⦃⇓? _ s => ⌜s.BreaksOff ∧ s.queue ≠ []⌝⦄ := by
  induction fuel with
  | zero => mvcgen [settle]
  | succ fuel ih => mvcgen [settle, ih, spec_checkLoaded] with grind

/-- **The token ahead is not the last one**, if the text breaks off. -/
@[spec] theorem spec_peek :
    ⦃fun s => ⌜s.BreaksOff⌝⦄ peek ⦃⇓? t s => ⌜s.BreaksOff ∧ t ≠ .streamEnd⌝⦄ := by
  mvcgen [peek]
  · next h => exact h.1
  · next s h =>
      refine ⟨h.1, fun hlast => h.1.queue ?_⟩
      rw [← hlast]
      cases hqueue : s.queue with
      | nil => exact absurd hqueue h.2
      | cons t rest => simp

@[spec] theorem spec_skip :
    ⦃fun s => ⌜s.BreaksOff⌝⦄ skip ⦃⇓? _ s => ⌜s.BreaksOff⌝⦄ := by
  mvcgen [skip]
  next s h _ => exact ⟨h.cursor, h.isDone, fun hmem => h.queue (List.mem_of_mem_tail hmem)⟩

end Lex

namespace Graph.Build

variable {β : Type}

/-! ### Nodes -/

/-- A step of the cutting of tokens says what it says. -/
theorem spec_lift {x : Lex β} {Q : β → Prop}
    (hx : ⦃fun s => ⌜s.BreaksOff⌝⦄ x ⦃⇓? r s => ⌜s.BreaksOff ∧ Q r⌝⦄) :
    ⦃fun b => ⌜b.lexer.BreaksOff⌝⦄ lift x ⦃⇓? r b => ⌜b.lexer.BreaksOff ∧ Q r⌝⦄ := by
  rw [triple_iff] at hx ⊢
  intro b hb r b' h
  have hrun : (lift x).run b =
      (x.run b.lexer).map fun q => (q.1, { b with lexer := q.2 }) := by
    unfold lift
    cases hq : x.run b.lexer <;> simp [hq] <;> rfl
  rw [hrun] at h
  cases hq : x.run b.lexer with
  | error e => simp [hq, Except.map] at h
  | ok q =>
      simp only [hq, Except.map, Except.ok.injEq, Prod.mk.injEq] at h
      obtain ⟨rfl, rfl⟩ := h
      exact hx b.lexer hb _ _ hq

@[spec] theorem spec_peek :
    ⦃fun b => ⌜b.lexer.BreaksOff⌝⦄ peek ⦃⇓? t b => ⌜b.lexer.BreaksOff ∧ t ≠ .streamEnd⌝⦄ :=
  spec_lift Lex.spec_peek

@[spec] theorem spec_skip :
    ⦃fun b => ⌜b.lexer.BreaksOff⌝⦄ skip ⦃⇓? _ b => ⌜b.lexer.BreaksOff⌝⦄ := by
  unfold skip
  have h := spec_lift (x := Lex.skip) (Q := fun _ => True) (by simpa using Lex.spec_skip)
  simpa using h

@[spec] theorem spec_fail {P : Builder → Prop} {Q : β → Builder → Prop} :
    ⦃fun s => ⌜P s⌝⦄ (fail : Build β) ⦃⇓? b s => ⌜Q b s⌝⦄ := by
  intro s _
  trivial

@[spec] theorem spec_ensure (c : Bool) :
    ⦃fun b => ⌜b.lexer.BreaksOff⌝⦄ ensure c ⦃⇓? _ b => ⌜b.lexer.BreaksOff⌝⦄ := by
  mvcgen [ensure]

@[spec] theorem spec_sees (t : Token) :
    ⦃fun b => ⌜b.lexer.BreaksOff⌝⦄ sees t
      ⦃⇓? r b => ⌜b.lexer.BreaksOff ∧ (t = .streamEnd → r = false)⌝⦄ := by
  mvcgen [sees] with grind

@[spec] theorem spec_seesAny (ts : List Token) :
    ⦃fun b => ⌜b.lexer.BreaksOff⌝⦄ seesAny ts ⦃⇓? _ b => ⌜b.lexer.BreaksOff⌝⦄ := by
  mvcgen [seesAny] with grind

@[spec] theorem spec_expect (t : Token) :
    ⦃fun b => ⌜b.lexer.BreaksOff⌝⦄ expect t ⦃⇓? _ b => ⌜b.lexer.BreaksOff⌝⦄ := by
  mvcgen [expect] with grind

@[spec] theorem spec_accept (t : Token) :
    ⦃fun b => ⌜b.lexer.BreaksOff⌝⦄ accept t ⦃⇓? _ b => ⌜b.lexer.BreaksOff⌝⦄ := by
  mvcgen [accept] with grind

@[spec] theorem spec_directives (version : Bool) (handles : List (String × String)) (fuel : Nat) :
    ⦃fun b => ⌜b.lexer.BreaksOff⌝⦄ directives version handles fuel
      ⦃⇓? _ b => ⌜b.lexer.BreaksOff⌝⦄ := by
  induction fuel generalizing version handles with
  | zero => mvcgen [directives]
  | succ fuel ih => mvcgen [directives, ih] with grind

@[spec] theorem spec_seesDirective :
    ⦃fun b => ⌜b.lexer.BreaksOff⌝⦄ seesDirective ⦃⇓? _ b => ⌜b.lexer.BreaksOff⌝⦄ := by
  mvcgen [seesDirective] with grind

@[spec] theorem spec_anchor? :
    ⦃fun b => ⌜b.lexer.BreaksOff⌝⦄ anchor? ⦃⇓? _ b => ⌜b.lexer.BreaksOff⌝⦄ := by
  mvcgen [anchor?] with grind

@[spec] theorem spec_tag? :
    ⦃fun b => ⌜b.lexer.BreaksOff⌝⦄ tag? ⦃⇓? _ b => ⌜b.lexer.BreaksOff⌝⦄ := by
  mvcgen [tag?] with grind

@[spec] theorem spec_tagName (handle : Option String) (suffix : String) :
    ⦃fun b => ⌜b.lexer.BreaksOff⌝⦄ tagName handle suffix ⦃⇓? _ b => ⌜b.lexer.BreaksOff⌝⦄ := by
  mvcgen [tagName]

@[spec] theorem spec_properties :
    ⦃fun b => ⌜b.lexer.BreaksOff⌝⦄ properties ⦃⇓? _ b => ⌜b.lexer.BreaksOff⌝⦄ := by
  mvcgen [properties]

@[spec] theorem spec_add (anchor : Option String) (n : Node) :
    ⦃fun b => ⌜b.lexer.BreaksOff⌝⦄ add anchor n ⦃⇓? _ b => ⌜b.lexer.BreaksOff⌝⦄ := by
  mvcgen [add]

@[spec] theorem spec_addEmpty :
    ⦃fun b => ⌜b.lexer.BreaksOff⌝⦄ addEmpty ⦃⇓? _ b => ⌜b.lexer.BreaksOff⌝⦄ := by
  mvcgen [addEmpty]

@[spec] theorem spec_addBare (anchor name : Option String) :
    ⦃fun b => ⌜b.lexer.BreaksOff⌝⦄ addBare anchor name ⦃⇓? _ b => ⌜b.lexer.BreaksOff⌝⦄ := by
  mvcgen [addBare]

@[spec] theorem spec_addCollection (anchor : Option String) (node : List β → Node)
    {content : Build (List β)}
    (hcontent : ⦃fun b => ⌜b.lexer.BreaksOff⌝⦄ content ⦃⇓? _ b => ⌜b.lexer.BreaksOff⌝⦄) :
    ⦃fun b => ⌜b.lexer.BreaksOff⌝⦄ addCollection anchor node content
      ⦃⇓? _ b => ⌜b.lexer.BreaksOff⌝⦄ := by
  mvcgen [addCollection, hcontent]

/-- What the reading of nodes keeps, at a depth. -/
structure Reads (fuel : Nat) : Prop where
  node (block indentless : Bool) :
    ⦃fun b => ⌜b.lexer.BreaksOff⌝⦄ node block indentless fuel ⦃⇓? _ b => ⌜b.lexer.BreaksOff⌝⦄
  nodeBefore (after : List Token) (block indentless : Bool) :
    ⦃fun b => ⌜b.lexer.BreaksOff⌝⦄ nodeBefore after block indentless fuel
      ⦃⇓? _ b => ⌜b.lexer.BreaksOff⌝⦄
  blockItems :
    ⦃fun b => ⌜b.lexer.BreaksOff⌝⦄ blockItems fuel ⦃⇓? _ b => ⌜b.lexer.BreaksOff⌝⦄
  looseItems :
    ⦃fun b => ⌜b.lexer.BreaksOff⌝⦄ looseItems fuel ⦃⇓? _ b => ⌜b.lexer.BreaksOff⌝⦄
  blockEntries :
    ⦃fun b => ⌜b.lexer.BreaksOff⌝⦄ blockEntries fuel ⦃⇓? _ b => ⌜b.lexer.BreaksOff⌝⦄
  flowItems (first : Bool) :
    ⦃fun b => ⌜b.lexer.BreaksOff⌝⦄ flowItems first fuel ⦃⇓? _ b => ⌜b.lexer.BreaksOff⌝⦄
  flowEntries (first : Bool) :
    ⦃fun b => ⌜b.lexer.BreaksOff⌝⦄ flowEntries first fuel ⦃⇓? _ b => ⌜b.lexer.BreaksOff⌝⦄

theorem reads_zero : Reads 0 where
  node _ _ := by mvcgen [node]
  nodeBefore _ _ _ := by mvcgen [nodeBefore]
  blockItems := by mvcgen [blockItems]
  looseItems := by mvcgen [looseItems]
  blockEntries := by mvcgen [blockEntries]
  flowItems _ := by mvcgen [flowItems]
  flowEntries _ := by mvcgen [flowEntries]

theorem reads_succ {fuel : Nat} (h : Reads fuel) : Reads (fuel + 1) := by
  obtain ⟨hnode, hbefore, hitems, hloose, hentries, hflow, hfields⟩ := h
  exact {
    node := fun block indentless => by
      mvcgen [node, hitems, hloose, hentries, hflow, hfields] with grind
    nodeBefore := fun after block indentless => by mvcgen [nodeBefore, hnode]
    blockItems := by mvcgen [blockItems, hbefore, hitems]
    looseItems := by mvcgen [looseItems, hbefore, hloose]
    blockEntries := by mvcgen [blockEntries, hbefore, hentries]
    flowItems := fun first => by mvcgen [flowItems, hbefore, hnode, hflow] with grind
    flowEntries := fun first => by mvcgen [flowEntries, hbefore, hnode, hfields] }

theorem reads (fuel : Nat) : Reads fuel := by
  induction fuel with
  | zero => exact reads_zero
  | succ fuel ih => exact reads_succ ih

@[spec] theorem spec_skipDocumentEnds (fuel : Nat) :
    ⦃fun b => ⌜b.lexer.BreaksOff⌝⦄ skipDocumentEnds fuel ⦃⇓? _ b => ⌜b.lexer.BreaksOff⌝⦄ := by
  induction fuel with
  | zero => mvcgen [skipDocumentEnds]
  | succ fuel ih => mvcgen [skipDocumentEnds, ih]

end Graph.Build

/-! ### Texts -/

/-- The text could not be loaded to its end, and no end is marked in what was loaded. -/
structure Stream.BreaksOff (s : Stream) : Prop where
  trouble : s.trouble.isSome = true
  unmarked : endMark ∉ s.text

namespace Stream

end Stream

end MixedInteger.Yaml
