/-
**The nodes of a record.**

The tokens of a record are put together to the node of the record and, behind it, two nodes for each field.
Who puts them together only asks whether some token is ahead and then takes it, so that nothing needs to be
known of the cutting but which tokens it gives.  A token that was looked at is settled: looking again gives
the same one and changes nothing.

Main definitions:

* `MixedInteger.Yaml.Lex.Ready` — a token is ahead that is settled;
* `MixedInteger.Yaml.Graph.Build.recordNodes` — the nodes of a record.

Main results:

* `MixedInteger.Yaml.Graph.Build.exists_run_peek`, `Build.exists_run_accept` — tokens that are given are
  seen and taken;
* `MixedInteger.Yaml.Graph.Build.exists_run_blockEntries` — fields are put together, by induction on them;
* `MixedInteger.Yaml.Graph.ofStream_lines` — **lines describe a record**.
-/

import MixedInteger.Proofs.Tokens
import MixedInteger.Yaml.Node

set_option autoImplicit false

open MixedInteger.Yaml.Lex (Gives word lineTokens)

namespace MixedInteger.Yaml

/-! ### Tokens that are settled -/

/-- A token is ahead that is settled, and others are given behind it. -/
structure Lex.Ready (s : Lexer) (t : Token) (ts : List Token) : Prop where
  settled : Lex.peek.run s = pure (t, s)
  behind : Gives (behind s) ts

theorem Lex.Ready.gives {s : Lexer} {t : Token} {ts : List Token} (h : Ready s t ts) : Gives s (t :: ts) :=
  ⟨s, h.settled, h.settled, h.behind⟩

namespace Graph.Build

variable {b : Builder} {t u : Token} {ts : List Token}

/-! ### Tokens -/

theorem run_lift {β : Type} {x : Lex β} {a : β} {s : Lexer} (h : x.run b.lexer = pure (a, s)) :
    (lift x).run b = pure (a, { b with lexer := s }) := by
  simp only [lift, StateT.run_bind, StateT.run_get, StateT.run_modify, StateT.run_pure, pure_bind, h]
  rfl

/-- Looking ahead settles the token that is seen. -/
theorem exists_run_peek (h : Gives b.lexer (t :: ts)) :
    ∃ s, peek.run b = pure (t, { b with lexer := s }) ∧ Lex.Ready s t ts := by
  obtain ⟨s, hpeek, hagain, hbehind⟩ := h
  exact ⟨s, run_lift hpeek, hagain, hbehind⟩

section Ready

variable (h : Lex.Ready b.lexer t ts)

include h

theorem run_peek : peek.run b = pure (t, b) := run_lift h.settled

theorem run_sees (u : Token) : (sees u).run b = pure (t == u, b) := by
  simp only [sees, StateT.run_bind, run_peek h, pure_bind, StateT.run_pure]

end Ready

theorem run_skip : skip.run b = pure ((), { b with lexer := Lex.behind b.lexer }) := run_lift rfl

theorem exists_run_seesAny (h : Gives b.lexer (t :: ts)) (us : List Token) :
    ∃ s, (seesAny us).run b = pure (us.contains t, { b with lexer := s }) ∧ Gives s (t :: ts) := by
  obtain ⟨s, hpeek, hready⟩ := exists_run_peek h
  exact ⟨s, by simp only [seesAny, StateT.run_bind, hpeek, pure_bind, StateT.run_pure], hready.gives⟩

/-- A token that is ahead is taken. -/
theorem exists_run_accept (h : Gives b.lexer (t :: ts)) :
    ∃ s, (accept t).run b = pure (true, { b with lexer := s }) ∧ Gives s ts := by
  obtain ⟨s, hpeek, hready⟩ := exists_run_peek h
  refine ⟨Lex.behind s, ?_, hready.behind⟩
  simp only [accept, sees, StateT.run_bind, hpeek, pure_bind, StateT.run_pure, beq_self_eq_true, if_true,
    run_skip]

/-- Another token stays where it is. -/
theorem exists_run_accept_of_ne (h : Gives b.lexer (t :: ts)) (hne : t ≠ u) :
    ∃ s, (accept u).run b = pure (false, { b with lexer := s }) ∧ Gives s (t :: ts) := by
  obtain ⟨s, hpeek, hready⟩ := exists_run_peek h
  refine ⟨s, ?_, hready.gives⟩
  simp only [accept, sees, StateT.run_bind, hpeek, pure_bind, StateT.run_pure, beq_eq_false_iff_ne.2 hne,
    Bool.false_eq_true, if_false]

theorem exists_run_expect (h : Gives b.lexer (t :: ts)) :
    ∃ s, (expect t).run b = pure ((), { b with lexer := s }) ∧ Gives s ts := by
  obtain ⟨s, hpeek, hready⟩ := exists_run_peek h
  refine ⟨Lex.behind s, ?_, hready.behind⟩
  simp only [expect, ensure, sees, StateT.run_bind, hpeek, pure_bind, StateT.run_pure, beq_self_eq_true,
    if_true, run_skip]

/-! ### Nodes -/

/-- Whether a token is none of those that say something about a node, or stand for one. -/
def isBare : Token → Bool
  | .alias _ | .anchor _ | .tag .. => false
  | _ => true

/-- A node of which nothing is said has neither an anchor nor a tag. -/
theorem run_properties (h : Lex.Ready b.lexer t ts) (ht : isBare t = true) :
    properties.run b = pure ((none, none), b) := by
  have hanchor : anchor?.run b = pure (none, b) := by
    simp only [anchor?, StateT.run_bind, run_peek h, pure_bind]
    cases t <;> first | rfl | cases ht
  have htag : tag?.run b = pure (none, b) := by
    simp only [tag?, StateT.run_bind, run_peek h, pure_bind]
    cases t <;> first | rfl | cases ht
  simp only [properties, StateT.run_bind, hanchor, htag, pure_bind, Option.isNone_none, Option.isSome_none,
    Bool.and_false, Bool.false_eq_true, if_false, StateT.run_pure]

theorem run_add (n : Node) :
    (add none n).run b = pure (b.nodes.size, { b with nodes := b.nodes.push n }) := rfl

/-- The node of a word. -/
def wordNode (w : List Char) : Node := .scalar (Tag.ofPlain (String.ofList w)) ⟨String.ofList w, false⟩

/-- A word is put together to a node of its own. -/
theorem exists_run_node_word {w : List Char} (h : Gives b.lexer (word w :: ts)) (block indentless : Bool)
    (fuel : Nat) :
    ∃ s, (node block indentless (fuel + 1)).run b =
        pure (b.nodes.size, { b with lexer := s, nodes := b.nodes.push (wordNode w) }) ∧ Gives s ts := by
  obtain ⟨s, hpeek, hready⟩ := exists_run_peek h
  refine ⟨Lex.behind s, ?_, hready.behind⟩
  have hpeek' := run_peek (b := { b with lexer := s }) hready
  have hproperties := run_properties (b := { b with lexer := s }) hready rfl
  simp only [node, StateT.run_bind, hpeek, pure_bind, word]
  rw [hproperties]
  simp only [pure_bind]
  rw [hpeek']
  rfl

theorem exists_run_nodeBefore_word {w : List Char} (h : Gives b.lexer (word w :: ts)) {after : List Token}
    (hafter : after.contains (word w) = false) (block indentless : Bool) (fuel : Nat) :
    ∃ s, (nodeBefore after block indentless (fuel + 2)).run b =
        pure (b.nodes.size, { b with lexer := s, nodes := b.nodes.push (wordNode w) }) ∧ Gives s ts := by
  obtain ⟨s, hseen, hs⟩ := exists_run_seesAny h after
  obtain ⟨s', hnode, hs'⟩ := exists_run_node_word (b := { b with lexer := s }) hs block indentless fuel
  refine ⟨s', ?_, hs'⟩
  simp only [nodeBefore, StateT.run_bind, hseen, pure_bind, hafter, Bool.false_eq_true, if_false]
  exact hnode

/-! ### Records -/

/-- The nodes of a field, its key and its value. -/
def fieldNodes (f : List Char × List Char) : List Node := [wordNode f.1, wordNode f.2]

/-- The entries of fields whose nodes stand one behind the other from a place on. -/
def entriesFrom (place : Nat) : List (List Char × List Char) → List (Nat × Nat)
  | [] => []
  | _ :: fs => (place, place + 1) :: entriesFrom (place + 2) fs

/-- The entries of a record are those of its lines, up to the end of the block. -/
theorem exists_run_blockEntries {fs : List (List Char × List Char)} {fuel : Nat}
    (h : Gives b.lexer (fs.flatMap lineTokens ++ .blockEnd :: ts)) (hfuel : fs.length + 3 ≤ fuel) :
    ∃ s, (blockEntries fuel).run b = pure (entriesFrom b.nodes.size fs,
        { b with lexer := s, nodes := b.nodes ++ (fs.flatMap fieldNodes).toArray }) ∧ Gives s ts := by
  induction fs generalizing b fuel with
  | nil =>
      obtain ⟨fuel, rfl⟩ : ∃ n, fuel = n + 1 := ⟨fuel - 1, by simp at hfuel; omega⟩
      obtain ⟨s, hkey, hs⟩ := exists_run_accept_of_ne (u := .key) h (by decide)
      obtain ⟨s', hend, hs'⟩ := exists_run_expect (b := { b with lexer := s }) hs
      refine ⟨s', ?_, hs'⟩
      simp only [blockEntries, StateT.run_bind, hkey, pure_bind, Bool.false_eq_true, if_false]
      rw [hend]
      simp [entriesFrom]
  | cons f fs ih =>
      obtain ⟨fuel, rfl⟩ : ∃ n, fuel = n + 3 := ⟨fuel - 3, by simp at hfuel; omega⟩
      have hword : ∀ w, [Token.key, .value, .blockEnd].contains (word w) = false := fun w => rfl
      obtain ⟨s₁, hkey, h₁⟩ := exists_run_accept (t := .key) h
      obtain ⟨s₂, hname, h₂⟩ :=
        exists_run_nodeBefore_word (b := { b with lexer := s₁ }) h₁ (hword f.1) true true fuel
      obtain ⟨s₃, hcolon, h₃⟩ := exists_run_accept (t := .value)
        (b := { b with lexer := s₂, nodes := b.nodes.push (wordNode f.1) }) h₂
      obtain ⟨s₄, hvalue, h₄⟩ := exists_run_nodeBefore_word
        (b := { b with lexer := s₃, nodes := b.nodes.push (wordNode f.1) }) h₃ (hword f.2) true true fuel
      obtain ⟨s₅, hrest, h₅⟩ := ih
        (b := { b with lexer := s₄, nodes := (b.nodes.push (wordNode f.1)).push (wordNode f.2) }) h₄
        (show fs.length + 3 ≤ fuel + 2 by simp at hfuel; omega)
      refine ⟨s₅, ?_, h₅⟩
      rw [blockEntries]
      simp only [StateT.run_bind, hkey, pure_bind, if_true]
      rw [hname]
      simp only [pure_bind]
      rw [hcolon]
      simp only [pure_bind, if_true, StateT.run_bind]
      rw [hvalue]
      simp only [pure_bind]
      rw [hrest]
      simp [entriesFrom, fieldNodes]

/-! ### Documents -/

/-- A collection has its place before its content, and its node afterwards. -/
theorem run_addCollection {β : Type} {node : List β → Node} {content : Build (List β)} {items : List β}
    {b' : Builder} (hdepth : b.depth < maxDepth)
    (h : content.run { b with nodes := b.nodes.push (node []), depth := b.depth + 1 } = pure (items, b')) :
    (addCollection none node content).run b = pure (b.nodes.size,
      { b' with depth := b.depth, nodes := b'.nodes.set! b.nodes.size (node items) }) := by
  simp only [addCollection, StateT.run_bind, run_add, pure_bind, StateT.run_get, not_le.2 hdepth, if_false,
    StateT.run_pure, StateT.run_modify, h]

/-- The nodes of a record. -/
def recordNodes (fs : List (List Char × List Char)) : List Node :=
  .mapping .record (entriesFrom 1 fs) :: fs.flatMap fieldNodes

/-- A record is put together with its fields, and is the first of its nodes. -/
theorem exists_run_node_record {fs : List (List Char × List Char)} {fuel : Nat}
    (h : Gives b.lexer (.blockMapping :: (fs.flatMap lineTokens ++ .blockEnd :: ts)))
    (hnodes : b.nodes = #[]) (hdepth : b.depth = 0) (hfuel : fs.length + 4 ≤ fuel) :
    ∃ s, (node true false fuel).run b =
        pure (0, { b with lexer := s, nodes := (recordNodes fs).toArray }) ∧ Gives s ts := by
  obtain ⟨fuel, rfl⟩ : ∃ n, fuel = n + 1 := ⟨fuel - 1, by omega⟩
  obtain ⟨s, hpeek, hready⟩ := exists_run_peek h
  have hpeek' := run_peek (b := { b with lexer := s }) hready
  have hproperties := run_properties (b := { b with lexer := s }) hready rfl
  obtain ⟨s', hentries, hs'⟩ := exists_run_blockEntries
    (b := { b with lexer := Lex.behind s, nodes := #[.mapping .record []], depth := 1 }) hready.behind
    (show fs.length + 3 ≤ fuel by omega)
  refine ⟨s', ?_, hs'⟩
  have hcontent : (do skip; blockEntries fuel).run
      { b with lexer := s, nodes := #[.mapping .record []], depth := 1 } =
        pure (entriesFrom 1 fs, { b with
          lexer := s'
          nodes := #[.mapping .record []] ++ (fs.flatMap fieldNodes).toArray
          depth := 1 }) := by
    simp only [StateT.run_bind, run_skip, pure_bind]
    exact hentries
  have hcollection : (addCollection none (.mapping .record) (do skip; blockEntries fuel)).run
      { b with lexer := s } = pure (0, { b with lexer := s', nodes := (recordNodes fs).toArray }) := by
    rw [run_addCollection (b := { b with lexer := s }) (by rw [hdepth]; decide)
      (by rw [hnodes, hdepth]; exact hcontent)]
    simp [hnodes, recordNodes]
  rw [node]
  simp only [StateT.run_bind, hpeek, pure_bind]
  rw [hproperties]
  simp only [pure_bind]
  rw [hpeek']
  exact hcollection

/-- Tokens of a record make a document. -/
theorem exists_run_document {fs : List (List Char × List Char)} {fuel : Nat}
    (h : Gives b.lexer (.blockMapping :: (fs.flatMap lineTokens ++ [.blockEnd, .streamEnd])))
    (hnodes : b.nodes = #[]) (hdepth : b.depth = 0) (hfuel : fs.length + 4 ≤ fuel) :
    ∃ s, (document fuel).run b =
      pure (some 0, { b with lexer := s, nodes := (recordNodes fs).toArray }) := by
  obtain ⟨fuel, rfl⟩ : ∃ n, fuel = n + 1 := ⟨fuel - 1, by omega⟩
  obtain ⟨s₀, hpeek, hready⟩ := exists_run_peek h
  obtain ⟨s₁, hnode, h₁⟩ := exists_run_node_record (b := { b with lexer := s₀ }) hready.gives hnodes hdepth
    hfuel
  obtain ⟨s₂, hends, h₂⟩ := exists_run_accept_of_ne (u := .documentEnd)
    (b := { b with lexer := s₁, nodes := (recordNodes fs).toArray }) h₁ (by decide)
  obtain ⟨s₃, hlast, -⟩ := exists_run_peek
    (b := { b with lexer := s₂, nodes := (recordNodes fs).toArray }) h₂
  have hsees : (sees .streamEnd).run b = pure (false, { b with lexer := s₀ }) := by
    simp only [sees, StateT.run_bind, hpeek, pure_bind]
    rfl
  have hdirective : seesDirective.run { b with lexer := s₀ } = pure (false, { b with lexer := s₀ }) := by
    simp only [seesDirective, StateT.run_bind, run_peek (b := { b with lexer := s₀ }) hready, pure_bind]
    rfl
  have hmark : (sees .documentStart).run { b with lexer := s₀ } = pure (false, { b with lexer := s₀ }) :=
    run_sees (b := { b with lexer := s₀ }) hready _
  have hsees' : (sees .streamEnd).run { b with lexer := s₂, nodes := (recordNodes fs).toArray } =
      pure (true, { b with lexer := s₃, nodes := (recordNodes fs).toArray }) := by
    simp only [sees, StateT.run_bind, hlast, pure_bind]
    rfl
  refine ⟨s₃, ?_⟩
  rw [document]
  simp only [StateT.run_bind, pure_bind, StateT.run_pure, hsees, hdirective, hmark, hnode,
    skipDocumentEnds, hends, hsees', Bool.or_self, Bool.not_true, Bool.false_eq_true, if_false]

end Build

/-- **Lines describe a record.** -/
theorem ofStream_lines {f : List Char × List Char} {fs : List (List Char × List Char)}
    (hfs : ∀ g ∈ f :: fs, Lex.IsLine g) :
    ofStream ⟨(f :: fs).flatMap Lex.line, none⟩ =
      .ok (some ⟨(Build.recordNodes (f :: fs)).toArray, 0⟩) := by
  have hfuel : (f :: fs).length + 4 ≤ 16 * (((f :: fs).flatMap Lex.line).length + 4) := by
    have hline : ∀ fs : List (List Char × List Char), fs.length ≤ (fs.flatMap Lex.line).length := by
      intro fs
      induction fs with
      | nil => exact le_rfl
      | cons f fs ih => simp [Lex.line]; omega
    have := hline (f :: fs)
    omega
  obtain ⟨s, hdocument⟩ := Build.exists_run_document
    (b := ⟨.start ⟨(f :: fs).flatMap Lex.line, none⟩, #[], [], Build.standardHandles, 0⟩)
    (Lex.gives_record hfs) rfl rfl hfuel
  rw [ofStream]
  simp only [hdocument, pure_bind]
  rfl

end Graph

end MixedInteger.Yaml
