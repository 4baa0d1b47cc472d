/-
**What a snapshot has passed.**

A snapshot that is read, and one that is taken of a model, has passed the same rules between fields:
parallel lists are equally long, and no index lies beyond the variables.  These rules are all there is to
it: every snapshot that keeps them is read from some document, namely from its own.

The rule on indices looks at the greatest index of a list only, so it says nothing about indices below
zero, which point at no variable either.

Main definitions:

* `MixedInteger.Snapshot.Valid` — the rules between fields.

Main results:

* `MixedInteger.Snapshot.validate_eq_ok_iff` — what is validated keeps the rules;
* `MixedInteger.Snapshot.valid_of_read` — so does what is read;
* `MixedInteger.Snapshot.read_toDocument` — **what keeps the rules is read from its own document**;
* `MixedInteger.Snapshot.exists_read_iff` — which snapshots are read at all.
-/

import MixedInteger.Snapshot.Format

set_option autoImplicit false

namespace MixedInteger.Snapshot

/-! ### The rules -/

section Rules

variable {α : Type}

/-- The parallel lists of all terms are equally long, and all indices lie below the number of
variables. -/
structure Valid (s : Snapshot α) : Prop where
  fits : ∀ t ∈ s.blocks, t.linearFits = true ∧ t.quadraticFits = true
  below : ∀ t ∈ s.blocks, ∀ i ∈ t.indices, i < (s.columns.length : Int)

/-- The greatest of some numbers lies below a bound if all of them do. -/
theorem foldl_max_lt_iff (a n : Int) (is : List Int) :
    is.foldl max a < n ↔ a < n ∧ ∀ i ∈ is, i < n := by
  induction is generalizing a with
  | nil => simp
  | cons i rest ih =>
      rw [List.foldl_cons, ih, List.forall_mem_cons, ← and_assoc]
      have hmax : max a i < n ↔ a < n ∧ i < n := by omega
      rw [hmax]

/-- The greatest index of terms lies below the number of variables if all of them do.  Where there are
no indices, minus one stands for the greatest, which lies below any such number. -/
theorem Terms.maxIndex_lt_iff (t : Terms α) (n : Nat) :
    t.maxIndex < (n : Int) ↔ ∀ i ∈ t.indices, i < (n : Int) := by
  rw [maxIndex, foldl_max_lt_iff]
  exact and_iff_right (by omega)

theorem dangling?_eq_none_iff (s : Snapshot α) :
    s.dangling? = none ↔ ∀ t ∈ s.blocks, ∀ i ∈ t.indices, i < (s.columns.length : Int) := by
  rw [dangling?, Option.map_eq_none_iff, List.find?_eq_none]
  refine forall₂_congr fun t _ => ?_
  rw [decide_eq_true_eq, Int.not_le]
  exact t.maxIndex_lt_iff _

/-- The rule on indices lets a snapshot pass as it is, or refuses it. -/
theorem check_eq_ok_iff (s s' : Snapshot α) :
    s.check = .ok s' ↔
      s = s' ∧ ∀ t ∈ s.blocks, ∀ i ∈ t.indices, i < (s.columns.length : Int) := by
  rw [← dangling?_eq_none_iff, check]
  cases h : s.dangling? with
  | none => simp
  | some i => simp [Checked.problem, throw, throwThe, MonadExceptOf.throw]

theorem Terms.check_eq_ok_iff (t : Terms α) :
    t.check = .ok () ↔ t.linearFits = true ∧ t.quadraticFits = true := by
  unfold check Checked.require
  cases t.linearFits <;> cases t.quadraticFits <;>
    simp [Checked.problem, throw, throwThe, MonadExceptOf.throw, bind, Except.bind]

theorem forM_check_eq_ok_iff (ts : List (Terms α)) :
    ts.forM Terms.check = .ok () ↔ ∀ t ∈ ts, t.linearFits = true ∧ t.quadraticFits = true := by
  induction ts with
  | nil => simp [pure, Except.pure]
  | cons t rest ih =>
      rw [List.forall_mem_cons, ← ih, ← t.check_eq_ok_iff]
      cases h : t.check <;> simp [List.forM_cons, h, bind, Except.bind]

/-- **What is validated keeps the rules**, and is not changed. -/
theorem validate_eq_ok_iff (s s' : Snapshot α) : s.validate = .ok s' ↔ s = s' ∧ s.Valid := by
  unfold validate
  constructor
  · intro h
    obtain ⟨u, hfits, hcheck⟩ := exists_of_bind_eq_ok h
    obtain ⟨heq, hbelow⟩ := (check_eq_ok_iff s s').1 hcheck
    exact ⟨heq, (forM_check_eq_ok_iff _).1 hfits, hbelow⟩
  · rintro ⟨heq, hvalid⟩
    rw [(forM_check_eq_ok_iff _).2 hvalid.fits]
    exact (check_eq_ok_iff s s').2 ⟨heq, hvalid.below⟩

/-- A list of terms belongs to a row, a premise, a conclusion or the objective. -/
theorem forall_mem_blocks_iff (s : Snapshot α) (P : Terms α → Prop) :
    (∀ t ∈ s.blocks, P t) ↔
      (∀ r ∈ s.rows, P r.terms) ∧
        (∀ c ∈ s.conditionals, P c.premise.terms ∧ P c.conclusion.terms) ∧
          ∀ o ∈ s.objective, P o.terms := by
  have hobjective : (∀ t ∈ (s.objective.map (·.terms)).toList, P t) ↔
      ∀ o ∈ s.objective, P o.terms := by
    cases s.objective <;> simp
  simp only [blocks, List.forall_mem_append, List.forall_mem_map, hobjective, and_assoc]
  constructor
  · rintro ⟨hr, hp, hc, ho⟩
    exact ⟨hr, fun c hm => ⟨hp c hm, hc c hm⟩, ho⟩
  · rintro ⟨hr, hc, ho⟩
    exact ⟨hr, fun c hm => (hc c hm).1, fun c hm => (hc c hm).2, ho⟩

end Rules

/-! ### What is read keeps the rules -/

/-- Both lists of terms of a row that is read are as long as they have to be. -/
theorem Row.fits_of_read {d : Document} {r : Row Float} (h : Row.read d = .ok r) :
    r.terms.linearFits = true ∧ r.terms.quadraticFits = true := by
  obtain ⟨fields, -, h⟩ := (Reader.record_eq_ok_iff _ d r).1 h
  obtain ⟨⟨t, name, relation, bound⟩, -, h⟩ := exists_of_bind_eq_ok h
  obtain ⟨u, hcheck, h⟩ := exists_of_bind_eq_ok h
  cases h
  exact t.check_eq_ok_iff.1 hcheck

theorem Objective.fits_of_read {d : Document} {o : Objective Float} (h : Objective.read d = .ok o) :
    o.terms.linearFits = true ∧ o.terms.quadraticFits = true := by
  obtain ⟨fields, -, h⟩ := (Reader.record_eq_ok_iff _ d o).1 h
  obtain ⟨⟨t, sense, constant⟩, -, h⟩ := exists_of_bind_eq_ok h
  obtain ⟨u, hcheck, h⟩ := exists_of_bind_eq_ok h
  cases h
  exact t.check_eq_ok_iff.1 hcheck

theorem Conditional.fits_of_read {d : Document} {c : Conditional Float}
    (h : Conditional.read d = .ok c) :
    (c.premise.terms.linearFits = true ∧ c.premise.terms.quadraticFits = true) ∧
      c.conclusion.terms.linearFits = true ∧ c.conclusion.terms.quadraticFits = true := by
  obtain ⟨fields, -, h⟩ := (Reader.record_eq_ok_iff _ d c).1 h
  obtain ⟨⟨name, premise, conclusion⟩, hfields, rfl⟩ := (Checked.map_eq_ok_iff _ _ _).1 h
  simp only [Checked.both_eq_ok_iff, Reader.field_eq_ok_iff] at hfields
  obtain ⟨-, ⟨dp, -, hp⟩, dc, -, hc⟩ := hfields
  exact ⟨Row.fits_of_read hp, Row.fits_of_read hc⟩

/-- **What is read keeps the rules.** -/
theorem valid_of_read {d : Document} {s : Snapshot Float} (h : read d = .ok s) : s.Valid := by
  obtain ⟨fields, -, h⟩ := (Reader.record_eq_ok_iff _ d s).1 h
  obtain ⟨⟨engine, columns, objective, rows, conditionals⟩, hfields, h⟩ := exists_of_bind_eq_ok h
  obtain ⟨rfl, hbelow⟩ := (check_eq_ok_iff _ s).1 h
  simp only [Checked.both_eq_ok_iff, Reader.fieldOr_eq_ok_iff] at hfields
  obtain ⟨-, -, hobjective, hrows, hconditionals⟩ := hfields
  refine ⟨(forall_mem_blocks_iff _ _).2 ⟨fun r hr => ?_, fun c hc => ?_, fun o ho => ?_⟩, hbelow⟩
  · rcases hrows with ⟨-, rfl⟩ | ⟨d, -, hd⟩
    · cases hr
    · obtain ⟨d', hd'⟩ := Reader.exists_of_mem_of_list hd hr
      exact Row.fits_of_read hd'
  · rcases hconditionals with ⟨-, rfl⟩ | ⟨d, -, hd⟩
    · cases hc
    · obtain ⟨d', hd'⟩ := Reader.exists_of_mem_of_list hd hc
      exact Conditional.fits_of_read hd'
  · rcases hobjective with ⟨-, rfl⟩ | ⟨d, -, hd⟩
    · cases ho
    · cases ho
      exact Objective.fits_of_read (Reader.eq_ok_of_optional hd)

/-! ### What keeps the rules is read -/

/-- The lists of terms are found among the fields of a document, whatever follows them. -/
theorem Terms.readFields_toFields (t : Terms Float) (rest : List (String × Document)) :
    Terms.readFields (t.toFields ++ rest) = .ok t := by
  have hwhole : ∀ is : List Int, Reader.list Reader.whole (.list (is.map .whole)) = .ok is :=
    fun is => Reader.list_map_eq_ok fun i _ => rfl
  have hreal : ∀ xs : List Float, Reader.list Reader.real (.list (xs.map .real)) = .ok xs :=
    fun xs => Reader.list_map_eq_ok fun x _ => rfl
  rw [readFields, Checked.map_eq_ok_iff]
  refine ⟨(t.linearIndices, t.linearValues, t.firstIndices, t.secondIndices, t.pairValues), ?_, rfl⟩
  simp only [Checked.both_eq_ok_iff, Reader.fieldOr_eq_ok_iff]
  simp [toFields, Document.lookup, hwhole, hreal]

theorem read_nameDocument (name : Option String) :
    Reader.optionalString (nameDocument name) = .ok name := by
  cases name <;> rfl

theorem read_kind (k : Kind) : Reader.word Kind.ofWord? (.string k.word) = .ok k := by
  rw [Reader.word, Kind.ofWord?_word]
  rfl

theorem read_relation (r : Relation) : Reader.word Relation.ofSign? (.string r.sign) = .ok r := by
  rw [Reader.word, Relation.ofSign?_sign]
  rfl

theorem read_sense (s : Sense) : Reader.word Sense.ofWord? (.string s.word) = .ok s := by
  rw [Reader.word, Sense.ofWord?_word]
  rfl

theorem read_engine (e : Engine) : Reader.word Engine.ofWord? (.string e.word) = .ok e := by
  rw [Reader.word, Engine.ofWord?_word]
  rfl

/-- A variable is read from its own document. -/
theorem Column.read_toDocument (c : Column Float) : Column.read c.toDocument = .ok c := by
  rw [read, toDocument, Reader.record_eq_ok_iff]
  refine ⟨_, rfl, (Checked.map_eq_ok_iff _ _ _).2 ⟨(c.index, c.name, c.kind, c.lower, c.upper), ?_, rfl⟩⟩
  simp only [Checked.both_eq_ok_iff, Reader.field_eq_ok_iff, Reader.fieldOr_eq_ok_iff]
  simp [Document.lookup, read_nameDocument, read_kind, Reader.whole, Reader.real]

/-- A row whose parallel lists are equally long is read from its own document. -/
theorem Row.read_toDocument {r : Row Float}
    (h : r.terms.linearFits = true ∧ r.terms.quadraticFits = true) :
    Row.read r.toDocument = .ok r := by
  rw [read, toDocument, Reader.record_eq_ok_iff]
  refine ⟨_, rfl, bind_eq_ok (b := (r.terms, r.name, r.relation, r.bound)) ?_ ?_⟩
  · simp only [Checked.both_eq_ok_iff, Reader.field_eq_ok_iff, Reader.fieldOr_eq_ok_iff]
    refine ⟨Terms.readFields_toFields _ _, ?_⟩
    simp [Terms.toFields, Document.lookup, read_nameDocument, read_relation, Reader.real]
  · exact bind_eq_ok (r.terms.check_eq_ok_iff.2 h) rfl

/-- So is an objective. -/
theorem Objective.read_toDocument {o : Objective Float}
    (h : o.terms.linearFits = true ∧ o.terms.quadraticFits = true) :
    Objective.read o.toDocument = .ok o := by
  rw [read, toDocument, Reader.record_eq_ok_iff]
  refine ⟨_, rfl, bind_eq_ok (b := (o.terms, o.sense, o.constant)) ?_ ?_⟩
  · simp only [Checked.both_eq_ok_iff, Reader.fieldOr_eq_ok_iff]
    refine ⟨Terms.readFields_toFields _ _, ?_⟩
    simp [Terms.toFields, Document.lookup, read_sense, Reader.real]
  · exact bind_eq_ok (o.terms.check_eq_ok_iff.2 h) rfl

/-- And so is a conditional. -/
theorem Conditional.read_toDocument {c : Conditional Float}
    (hp : c.premise.terms.linearFits = true ∧ c.premise.terms.quadraticFits = true)
    (hc : c.conclusion.terms.linearFits = true ∧ c.conclusion.terms.quadraticFits = true) :
    Conditional.read c.toDocument = .ok c := by
  rw [read, toDocument, Reader.record_eq_ok_iff]
  refine ⟨_, rfl, (Checked.map_eq_ok_iff _ _ _).2 ⟨(c.name, c.premise, c.conclusion), ?_, rfl⟩⟩
  simp only [Checked.both_eq_ok_iff, Reader.field_eq_ok_iff, Reader.fieldOr_eq_ok_iff]
  simp [Document.lookup, read_nameDocument, Row.read_toDocument hp, Row.read_toDocument hc]

theorem Objective.read_ofOption {objective : Option (Objective Float)}
    (h : ∀ o ∈ objective, o.terms.linearFits = true ∧ o.terms.quadraticFits = true) :
    Reader.optional Objective.read (.ofOption Objective.toDocument objective) = .ok objective := by
  cases objective with
  | none => rfl
  | some o =>
      have ho := read_toDocument (h o rfl)
      rw [toDocument] at ho
      rw [Document.ofOption, toDocument, Reader.optional]
      · rw [ho]
        rfl
      · simp

/-- **What keeps the rules is read from its own document.** -/
theorem read_toDocument {s : Snapshot Float} (h : s.Valid) : read s.toDocument = .ok s := by
  obtain ⟨hrows, hconditionals, hobjective⟩ := (forall_mem_blocks_iff s _).1 h.fits
  have hcolumns : Reader.list Column.read (.list (s.columns.map Column.toDocument)) =
      .ok s.columns := Reader.list_map_eq_ok fun c _ => c.read_toDocument
  have hrows : Reader.list Row.read (.list (s.rows.map Row.toDocument)) = .ok s.rows :=
    Reader.list_map_eq_ok fun r hr => Row.read_toDocument (hrows r hr)
  have hconditionals : Reader.list Conditional.read
      (.list (s.conditionals.map Conditional.toDocument)) = .ok s.conditionals :=
    Reader.list_map_eq_ok fun c hc =>
      Conditional.read_toDocument (hconditionals c hc).1 (hconditionals c hc).2
  rw [read, toDocument, Reader.record_eq_ok_iff]
  refine ⟨_, rfl,
    bind_eq_ok (b := (s.engine, s.columns, s.objective, s.rows, s.conditionals)) ?_ ?_⟩
  · simp only [Checked.both_eq_ok_iff, Reader.field_eq_ok_iff, Reader.fieldOr_eq_ok_iff]
    simp [Document.lookup, read_engine, hcolumns, hrows, hconditionals,
      Objective.read_ofOption hobjective]
  · exact (check_eq_ok_iff s s).2 ⟨rfl, h.below⟩

/-! ### What indices point at -/

/-- **The snapshots that are read** are those whose parallel lists are equally long, and whose indices
point at a variable unless they lie below zero. -/
theorem exists_read_iff (s : Snapshot Float) :
    (∃ d, read d = .ok s) ↔
      ∀ t ∈ s.blocks, t.linearFits = true ∧ t.quadraticFits = true ∧
        ∀ i ∈ t.indices, i < 0 ∨ ∃ c, s.columns[i.toNat]? = some c := by
  have hpoints : ∀ i : Int, (i < 0 ∨ ∃ c, s.columns[i.toNat]? = some c) ↔
      i < (s.columns.length : Int) := by
    intro i
    rw [← Option.ne_none_iff_exists', Ne, List.getElem?_eq_none_iff]
    omega
  simp only [hpoints]
  constructor
  · rintro ⟨d, hd⟩ t ht
    have hs := valid_of_read hd
    exact ⟨(hs.fits t ht).1, (hs.fits t ht).2, hs.below t ht⟩
  · intro h
    exact ⟨s.toDocument, read_toDocument
      ⟨fun t ht => ⟨(h t ht).1, (h t ht).2.1⟩, fun t ht => (h t ht).2.2⟩⟩

/-- A binary variable, and a row with a term whose index lies below zero. -/
def belowZero : Snapshot Float where
  engine := .memory
  columns := [⟨0, some "x", .binary, 0.0, 1.0⟩]
  objective := none
  rows := [⟨⟨[-1], [1.0], [], [], []⟩, none, .atMost, 1.0⟩]
  conditionals := []

/-- **Not every index of a snapshot that is read points at a variable.** -/
theorem index_below_zero_is_read :
    ¬ ∀ (d : Document) (s : Snapshot Float), read d = .ok s →
      ∀ t ∈ s.blocks, ∀ i ∈ t.indices, 0 ≤ i ∧ i < (s.columns.length : Int) := by
  intro hall
  have hvalid : belowZero.Valid := by
    constructor <;> simp [belowZero, blocks, Terms.indices, Terms.linearFits, Terms.quadraticFits]
  have hindex := hall belowZero.toDocument belowZero (read_toDocument hvalid)
    ⟨[-1], [1.0], [], [], []⟩ (by simp [belowZero, blocks]) (-1) (by simp [Terms.indices])
  exact absurd hindex.1 (by decide)

end MixedInteger.Snapshot
