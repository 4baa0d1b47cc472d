/-
**Records are made of their lines.**

The nodes of a record become a record.  Its keys are strings, so that there is nothing to be merged and
none of them stands for the whole; the values are made from their texts, each for the first time; and
fields with different names are put down in the order in which they stand.

Main definitions:

* `MixedInteger.Yaml.Means` — the text of a plain scalar has a value;
* `MixedInteger.Yaml.Making.IsField` — a field that is read as it was written.

Main results:

* `MixedInteger.Yaml.Making.run_make_word` — a word is made its value;
* `MixedInteger.Yaml.Making.exists_run_makeEntries` — fields are made, by induction on them;
* `MixedInteger.Yaml.document_lines` — **lines stand for the record of their fields**.
-/

import MixedInteger.Proofs.Nodes
import MixedInteger.Yaml.Value

set_option autoImplicit false

open MixedInteger.Yaml.Graph.Build (wordNode fieldNodes entriesFrom recordNodes)

namespace MixedInteger.Yaml

/-- The text of a plain scalar has a value. -/
structure Means (w : String) (d : Document) : Prop where
  isText : Making.isText (Tag.ofPlain w) = true
  read : readScalar (Tag.ofPlain w) ⟨w, false⟩ = .ok d

/-- A text that is no word for anything else means itself. -/
theorem means_of_text {w : String} (h : Tag.ofPlain w = .text) : Means w (.string w) :=
  ⟨by rw [h]; rfl, by rw [h]; rfl⟩

namespace Making

variable {s : Making}

/-! ### Nodes -/

@[simp] theorem run_node (place : Nat) : (node place).run s = pure (s.nodes.getD place default, s) := rfl

/-- A word is made its value. -/
theorem run_make_word {place : Nat} {w : String} {d : Document} (hw : Means w d)
    (hnode : s.nodes.getD place default = wordNode w.toList) (hmade : s.made.lookup place = none) :
    (make place).run s = pure (.value d, { s with made := (place, .value d) :: s.made }) := by
  have hkey : (Tag.ofPlain w).isKey = true := by
    have htext := hw.isText
    revert htext
    cases Tag.ofPlain w <;> simp [isText, Tag.isKey]
  have hread : (read place (wordNode w.toList)).run s = pure (d, s) := by
    simp only [read, reach, textOf, StateT.run_bind, StateT.run_get, StateT.run_pure, pure_bind, run_node,
      hnode, wordNode, String.ofList_toList, Node.tag, hw.read]
    rfl
  simp only [make, StateT.run_bind, StateT.run_get, pure_bind, hmade, run_node, hnode]
  simp only [wordNode, String.ofList_toList, Node.tag, hkey, hw.isText, if_true, StateT.run_map,
    StateT.run_bind, StateT.run_modify, StateT.run_pure, pure_bind]
  rw [wordNode, String.ofList_toList] at hread
  rw [hread]
  rfl

/-! ### Entries -/

variable {text : Document → String}

/-- The name and the value of a field as they are written. -/
def written (text : Document → String) (f : String × Document) : List Char × List Char :=
  (f.1.toList, (text f.2).toList)

/-- A field that is read as it was written: its name means itself, and its text means its value. -/
structure IsField (text : Document → String) (f : String × Document) : Prop where
  line : Lex.IsLine (written text f)
  name : Tag.ofPlain f.1 = .text
  value : Means (text f.2) f.2

/-- From a place on, the nodes are those of fields. -/
def HoldsFields (nodes : Array Node) (text : Document → String) (place : Nat)
    (fs : List (String × Document)) : Prop :=
  ∃ before, nodes.toList = before ++ (fs.map (written text)).flatMap fieldNodes ∧ before.length = place

theorem HoldsFields.tail {nodes : Array Node} {place : Nat} {f : String × Document}
    {fs : List (String × Document)} (h : HoldsFields nodes text place (f :: fs)) :
    nodes.getD place default = wordNode f.1.toList ∧
      nodes.getD (place + 1) default = wordNode (text f.2).toList ∧
        HoldsFields nodes text (place + 2) fs := by
  obtain ⟨before, hnodes, rfl⟩ := h
  have hsplit : nodes.toList = before ++ wordNode f.1.toList :: wordNode (text f.2).toList ::
      (fs.map (written text)).flatMap fieldNodes := by
    simp [hnodes, fieldNodes, written]
  have hget : ∀ i, nodes.getD i default = nodes.toList.getD i default := by
    intro i
    simp
  refine ⟨?_, ?_, before ++ [wordNode f.1.toList, wordNode (text f.2).toList], ?_, by simp⟩
  · rw [hget, hsplit]
    simp
  · rw [hget, hsplit]
    simp
  · simp [hsplit]

/-- Entries whose nodes are those of fields are made fields. -/
theorem exists_run_makeEntries {place : Nat} {fs : List (String × Document)}
    (hfs : ∀ f ∈ fs, IsField text f) (hnodes : HoldsFields s.nodes text place fs)
    (hmade : ∀ i, place ≤ i → s.made.lookup i = none) (fields : List (String × Document)) :
    ∃ made, (makeEntries fields (entriesFrom place (fs.map (written text)))).run s =
      pure (fs.foldl (fun fields f => Document.setField f.1 f.2 fields) fields,
        { s with made := made }) := by
  induction fs generalizing s place fields with
  | nil => exact ⟨s.made, rfl⟩
  | cons f fs ih =>
      have hf := hfs f List.mem_cons_self
      obtain ⟨hname, hvalue, hrest⟩ := hnodes.tail
      have hkey := run_make_word (means_of_text hf.name) hname (hmade place le_rfl)
      have hmade' : ∀ i, place + 1 ≤ i →
          List.lookup i ((place, Made.value (.string f.1)) :: s.made) = none := by
        intro i hi
        have hne : (i == place) = false := beq_eq_false_iff_ne.2 (by omega)
        rw [List.lookup_cons, hne]
        exact hmade i (by omega)
      have hword := run_make_word (s := { s with made := (place, .value (.string f.1)) :: s.made })
        hf.value hvalue (hmade' (place + 1) le_rfl)
      obtain ⟨made, hmake⟩ := ih
        (s := { s with made := (place + 1, .value f.2) :: (place, .value (.string f.1)) :: s.made })
        (fun g hg => hfs g (List.mem_cons_of_mem _ hg)) hrest (by
          intro i hi
          have hne : (i == place + 1) = false := beq_eq_false_iff_ne.2 (by omega)
          rw [List.lookup_cons, hne]
          exact hmade' i (by omega)) (Document.setField f.1 f.2 fields)
      refine ⟨made, ?_⟩
      simp only [List.map_cons, entriesFrom, makeEntries, StateT.run_bind, hkey, pure_bind]
      rw [hword]
      exact hmake

/-! ### Merging -/

/-- The keys of fields stand for themselves. -/
theorem exists_key_of_mem {nodes : Array Node} {place : Nat} {fs : List (String × Document)}
    (hfs : ∀ f ∈ fs, IsField text f) (hnodes : HoldsFields nodes text place fs) {e : Nat × Nat}
    (he : e ∈ entriesFrom place (fs.map (written text))) :
    ∃ t, nodes.getD e.1 default = .scalar .text t := by
  induction fs generalizing place with
  | nil => cases he
  | cons f fs ih =>
      obtain ⟨hname, -, hrest⟩ := hnodes.tail
      rcases List.mem_cons.1 he with rfl | he
      · refine ⟨⟨f.1, false⟩, ?_⟩
        rw [hname, wordNode, String.ofList_toList, (hfs f List.mem_cons_self).name]
      · exact ih (fun g hg => hfs g (List.mem_cons_of_mem _ hg)) hrest he

section Keys

variable {es : List (Nat × Nat)} (h : ∀ e ∈ es, ∃ t, s.nodes.getD e.1 default = .scalar .text t)

include h

/-- Where all keys stand for themselves, there is nothing to merge. -/
theorem run_firstMerge? : (firstMerge? es).run s = pure (none, s) := by
  induction es with
  | nil => rfl
  | cons e es ih =>
      obtain ⟨t, ht⟩ := h e List.mem_cons_self
      have hmerge : ((Node.scalar .text t).tag == Tag.merge) = false := rfl
      have hrest := ih fun f hf => h f (List.mem_cons_of_mem _ hf)
      simp only [firstMerge?, StateT.run_bind, run_node, pure_bind, ht, hmerge, Bool.false_eq_true,
        if_false, hrest, StateT.run_pure, Option.map_none]

/-- Nor is there a key to be changed. -/
theorem run_settleKeys : (es.forM fun e => settleKey e.1).run s = pure ((), s) := by
  induction es with
  | nil => rfl
  | cons e es ih =>
      obtain ⟨t, ht⟩ := h e List.mem_cons_self
      have hsettle : (settleKey e.1).run s = pure ((), s) := by
        simp only [settleKey, StateT.run_bind, run_node, pure_bind, ht, StateT.run_pure]
      have hrest := ih fun f hf => h f (List.mem_cons_of_mem _ hf)
      rw [List.forM_eq_forM] at hrest ⊢
      simp only [List.forM_cons, StateT.run_bind, hsettle, pure_bind, hrest]

/-- So flattening a record changes nothing. -/
theorem run_flatten {place : Nat} (hplace : s.nodes[place]? = some (.mapping .record es)) (fuel : Nat) :
    (flatten place [] (fuel + 1)).run s = pure ((), s) := by
  have hnode : s.nodes.getD place default = .mapping .record es := by
    simp [Array.getD_eq_getD_getElem?, hplace]
  have hentries : (entries place).run s = pure (es, s) := by
    simp only [entries, StateT.run_bind, run_node, pure_bind, hnode, StateT.run_pure]
  have hsame : s.nodes.set! place (.mapping .record es) = s.nodes := by
    refine Array.ext_getElem? fun i => ?_
    rw [Array.set!_eq_setIfInBounds, Array.getElem?_setIfInBounds]
    grind
  have hset : (setEntries place es).run s = pure ((), s) := by
    simp only [setEntries, StateT.run_bind, run_node, pure_bind, hnode, setNode, StateT.run_modify, hsame]
  simp only [flatten, StateT.run_bind, hentries, pure_bind, run_firstMerge? h, run_settleKeys h,
    List.nil_append, hset]

end Keys

/-- There is at least one step for merging. -/
theorem exists_run_mergingSteps : ∃ n, mergingSteps.run s = pure (n + 1, s) := by
  have hle : ∀ (f : Node → Nat) (nodes : List Node) (n : Nat), n ≤ nodes.foldl (fun n x => n + f x) n := by
    intro f nodes
    induction nodes with
    | nil => exact fun n => le_rfl
    | cons x nodes ih => exact fun n => (Nat.le_add_right n (f x)).trans (ih (n + f x))
  obtain ⟨m, hm, hrun⟩ : ∃ m, 4 ≤ m ∧ mergingSteps.run s = pure (m, s) := by
    refine ⟨_, ?_, rfl⟩
    rw [← Array.foldl_toList]
    exact hle _ _ _
  exact ⟨m - 1, by rw [hrun, Nat.sub_add_cancel (by omega)]⟩

/-! ### Records -/

/-- A record is filled with its fields. -/
theorem exists_run_fill {fs : List (String × Document)} (hfs : ∀ f ∈ fs, IsField text f)
    (hs : s.nodes = (recordNodes (fs.map (written text))).toArray)
    (hmade : ∀ i, 1 ≤ i → s.made.lookup i = none) :
    ∃ made, (fill 0).run s =
      pure (fs.foldl (fun fields f => Document.setField f.1 f.2 fields) [], { s with made := made }) := by
  have hholds : HoldsFields s.nodes text 1 fs :=
    ⟨[.mapping .record (entriesFrom 1 (fs.map (written text)))], by rw [hs]; rfl, rfl⟩
  have hplace : s.nodes[0]? = some (.mapping .record (entriesFrom 1 (fs.map (written text)))) := by
    simp [hs, recordNodes]
  have hnode : s.nodes.getD 0 default = .mapping .record (entriesFrom 1 (fs.map (written text))) := by
    simp [hs, recordNodes]
  obtain ⟨n, hsteps⟩ := exists_run_mergingSteps (s := s)
  have hflatten := run_flatten (fun e => exists_key_of_mem hfs hholds) hplace n
  obtain ⟨made, hmake⟩ := exists_run_makeEntries hfs hholds hmade []
  refine ⟨made, ?_⟩
  simp only [fill, StateT.run_bind, run_node, pure_bind, hnode, beq_self_eq_true, Bool.true_or, if_true,
    hsteps, hflatten, entries, StateT.run_pure, hmake]

end Making

/-- Fields with different names are put down in their order. -/
theorem foldl_setField {fs : List (String × Document)} (h : (fs.map Prod.fst).Nodup) :
    fs.foldl (fun fields f => Document.setField f.1 f.2 fields) [] = fs := by
  have happend : ∀ (fields : List (String × Document)) (f : String × Document), f.1 ∉ fields.map Prod.fst →
      Document.setField f.1 f.2 fields = fields ++ [f] := by
    intro fields f hf
    induction fields with
    | nil => rfl
    | cons g fields ih =>
        simp only [List.map_cons, List.mem_cons, not_or] at hf
        rw [Document.setField, beq_eq_false_iff_ne.2 (Ne.symm hf.1), ih hf.2]
        rfl
  have hfold : ∀ fields : List (String × Document), ((fields ++ fs).map Prod.fst).Nodup →
      fs.foldl (fun fields f => Document.setField f.1 f.2 fields) fields = fields ++ fs := by
    clear h
    induction fs with
    | nil => simp
    | cons f fs ih =>
        intro fields hnodup
        have hf : f.1 ∉ fields.map Prod.fst := by
          rw [List.map_append, List.nodup_append] at hnodup
          exact fun hmem => hnodup.2.2 _ hmem _ (by simp) rfl
        rw [List.foldl_cons, happend fields f hf, ih _ (by simpa using hnodup)]
        simp
  simpa using hfold [] (by simpa using h)

/-- A graph of fields is a record. -/
theorem Graph.document_record {text : Document → String} {fs : List (String × Document)}
    (hfs : ∀ f ∈ fs, Making.IsField text f) (hnames : (fs.map Prod.fst).Nodup) :
    Graph.document ⟨(recordNodes (fs.map (Making.written text))).toArray, 0⟩ = .ok (.record fs) := by
  obtain ⟨nodes, hnodes⟩ : ∃ nodes, (recordNodes (fs.map (Making.written text))).toArray = nodes := ⟨_, rfl⟩
  have hmake : (Making.make 0).run ⟨nodes, [], []⟩ =
      pure (.collection, ⟨nodes, [(0, .collection)], [0]⟩) := by
    rw [← hnodes]
    rfl
  have hmade : ∀ i, 1 ≤ i → [(0, Made.collection)].lookup i = none := by
    intro i hi
    have hne : (i == 0) = false := beq_eq_false_iff_ne.2 (by omega)
    rw [List.lookup_cons, hne]
    rfl
  obtain ⟨made, hfill⟩ :=
    Making.exists_run_fill (s := ⟨nodes, [(0, .collection)], []⟩) hfs hnodes.symm hmade
  rw [foldl_setField hnames] at hfill
  rw [hnodes, Graph.document, Making.document]
  simp only [StateT.run'_eq, StateT.run_bind, hmake, pure_bind, StateT.run_modify, hfill]
  rw [← hnodes]
  rfl

/-- **Lines stand for the record of their fields.** -/
theorem document_lines {text : Document → String} {f : String × Document} {fs : List (String × Document)}
    (hfs : ∀ g ∈ f :: fs, Making.IsField text g) (hnames : ((f :: fs).map Prod.fst).Nodup) :
    document ⟨((f :: fs).map (Making.written text)).flatMap Lex.line, none⟩ = .ok (.record (f :: fs)) := by
  have hlines : ∀ g ∈ (f :: fs).map (Making.written text), Lex.IsLine g := by
    intro g hg
    obtain ⟨e, he, rfl⟩ := List.mem_map.1 hg
    exact (hfs e he).line
  rw [document]
  rw [List.map_cons] at hlines ⊢
  rw [Graph.ofStream_lines hlines]
  exact Graph.document_record hfs hnames

end MixedInteger.Yaml
