/-
**Snapshots come back.**

The document of a snapshot is plain, so that it is found again in its text; and a snapshot that keeps the
rules between fields is read from its document.  So handing a snapshot over as a document or as a text
loses nothing.  Whether the snapshot that is read compares equal to the one that was written is a question
of its numbers alone: it does unless one of them is not a number.

Main definitions:

* `MixedInteger.Snapshot.numbers` — all numbers of a snapshot;
* `MixedInteger.Snapshot.Passed` — snapshots that are read from a document or validated for a model.

Main results:

* `MixedInteger.Snapshot.read_text` — a snapshot that keeps the rules is read from its text;
* `MixedInteger.Snapshot.beq_self_iff` — a snapshot equals itself if all its numbers are some;
* `MixedInteger.Snapshot.returns_iff` — which of those that keep the rules come back unchanged;
* `MixedInteger.Snapshot.returns_of_passed` — **what has passed the rules once passes them again**, and
  comes back unchanged.
-/

import MixedInteger.Proofs.Parsing
import MixedInteger.Proofs.Validation
import MixedInteger.Scalar.Double

set_option autoImplicit false

namespace MixedInteger

/-! ### Plain documents -/

namespace Document

theorem plainItems_map {β : Type} {f : β → Document} {bs : List β} (h : ∀ b ∈ bs, (f b).Plain) :
    PlainItems (bs.map f) := by
  induction bs with
  | nil => trivial
  | cons b bs ih =>
      obtain ⟨hb, hbs⟩ := List.forall_mem_cons.1 h
      exact ⟨hb, ih hbs⟩

theorem plainFields_append {fs gs : List (String × Document)} (hfs : PlainFields fs)
    (hgs : PlainFields gs) : PlainFields (fs ++ gs) := by
  induction fs with
  | nil => exact hgs
  | cons f fs ih => exact ⟨hfs.1, ih hfs.2⟩

theorem plain_ofOption {β : Type} {f : β → Document} (h : ∀ b, (f b).Plain) (b : Option β) :
    (ofOption f b).Plain := by
  cases b with
  | none => trivial
  | some b => exact h b

end Document

namespace Snapshot

open Document

theorem Terms.plain_toFields (t : Terms Float) : PlainFields t.toFields :=
  ⟨plainItems_map fun _ _ => trivial, plainItems_map fun _ _ => trivial,
    plainItems_map fun _ _ => trivial, plainItems_map fun _ _ => trivial,
    plainItems_map fun _ _ => trivial, trivial⟩

theorem plain_nameDocument (name : Option String) : (nameDocument name).Plain :=
  plain_ofOption (f := .string) (fun _ => trivial) name

theorem Column.plain_toDocument (c : Column Float) : c.toDocument.Plain :=
  ⟨trivial, plain_nameDocument c.name, trivial, trivial, trivial, trivial⟩

theorem Objective.plain_toDocument (o : Objective Float) : o.toDocument.Plain :=
  plainFields_append o.terms.plain_toFields ⟨trivial, trivial, trivial⟩

theorem Row.plain_toDocument (r : Row Float) : r.toDocument.Plain :=
  plainFields_append r.terms.plain_toFields ⟨plain_nameDocument r.name, trivial, trivial, trivial⟩

theorem Conditional.plain_toDocument (c : Conditional Float) : c.toDocument.Plain :=
  ⟨plain_nameDocument c.name, c.premise.plain_toDocument, c.conclusion.plain_toDocument, trivial⟩

theorem plain_toDocument (s : Snapshot Float) : s.toDocument.Plain :=
  ⟨trivial, plainItems_map fun c _ => c.plain_toDocument,
    plain_ofOption Objective.plain_toDocument s.objective,
    plainItems_map fun r _ => r.plain_toDocument,
    plainItems_map fun c _ => c.plain_toDocument, trivial⟩

/-- **What keeps the rules is read from its text.** -/
theorem read_text {s : Snapshot Float} (h : s.Valid) :
    (Document.ofJson? s.text).map read = some (.ok s) := by
  rw [text, ofJson?_json s.plain_toDocument, Option.map_some, read_toDocument h]

/-! ### Comparing snapshots -/

section Numbers

variable {α : Type}

/-- The numbers of terms. -/
def Terms.numbers (t : Terms α) : List α := t.linearValues ++ t.pairValues

/-- The numbers of a row. -/
def Row.numbers (r : Row α) : List α := r.bound :: r.terms.numbers

/-- All numbers of a snapshot: bounds, coefficients, constants and right sides. -/
def numbers (s : Snapshot α) : List α :=
  s.columns.flatMap (fun c => [c.lower, c.upper]) ++
    s.objective.toList.flatMap (fun o => o.constant :: o.terms.numbers) ++
    s.rows.flatMap Row.numbers ++
    s.conditionals.flatMap fun c => c.premise.numbers ++ c.conclusion.numbers

end Numbers

/-- A list equals itself if all its items do. -/
theorem list_beq_self_iff {β : Type} [BEq β] (bs : List β) :
    (bs == bs) = true ↔ ∀ b ∈ bs, (b == b) = true := by
  induction bs with
  | nil => simp
  | cons b bs ih => rw [List.cons_beq_cons, Bool.and_eq_true, ih, List.forall_mem_cons]

theorem Terms.beq_self_iff (t : Terms Float) :
    (t == t) = true ↔ ∀ x ∈ t.numbers, x.isNaN = false := by
  have hparts : (t == t) = (t.linearIndices == t.linearIndices &&
      (t.linearValues == t.linearValues && (t.firstIndices == t.firstIndices &&
        (t.secondIndices == t.secondIndices && t.pairValues == t.pairValues)))) := rfl
  simp [hparts, list_beq_self_iff, numbers, or_imp, forall_and]

theorem Column.beq_self_iff (c : Column Float) :
    (c == c) = true ↔ ∀ x ∈ [c.lower, c.upper], x.isNaN = false := by
  have hparts : (c == c) = (c.index == c.index && (c.name == c.name && (c.kind == c.kind &&
      (c.lower == c.lower && c.upper == c.upper)))) := rfl
  simp [hparts]

theorem Objective.beq_self_iff (o : Objective Float) :
    (o == o) = true ↔ ∀ x ∈ o.constant :: o.terms.numbers, x.isNaN = false := by
  have hparts : (o == o) = (o.terms == o.terms && (o.sense == o.sense && o.constant == o.constant)) :=
    rfl
  simp [hparts, o.terms.beq_self_iff, and_comm]

theorem Row.beq_self_iff (r : Row Float) : (r == r) = true ↔ ∀ x ∈ r.numbers, x.isNaN = false := by
  have hparts : (r == r) = (r.terms == r.terms && (r.name == r.name &&
      (r.relation == r.relation && r.bound == r.bound))) := rfl
  simp [hparts, r.terms.beq_self_iff, numbers, and_comm]

theorem Conditional.beq_self_iff (c : Conditional Float) :
    (c == c) = true ↔ ∀ x ∈ c.premise.numbers ++ c.conclusion.numbers, x.isNaN = false := by
  have hparts : (c == c) = (c.name == c.name && (c.premise == c.premise &&
      c.conclusion == c.conclusion)) := rfl
  simp [hparts, c.premise.beq_self_iff, c.conclusion.beq_self_iff, or_imp, forall_and]

/-- **A snapshot equals itself** if all its numbers are some. -/
theorem beq_self_iff (s : Snapshot Float) : (s == s) = true ↔ ∀ x ∈ s.numbers, x.isNaN = false := by
  have hparts : (s == s) = (s.engine == s.engine && (s.columns == s.columns &&
      (s.objective == s.objective && (s.rows == s.rows && s.conditionals == s.conditionals)))) := rfl
  have hobjective : (s.objective == s.objective) = true ↔
      ∀ o ∈ s.objective, ∀ x ∈ o.constant :: o.terms.numbers, x.isNaN = false := by
    cases s.objective with
    | none => simp
    | some o => simp only [Option.some_beq_some, o.beq_self_iff, Option.mem_some, forall_eq']
  rw [hparts]
  simp only [Bool.and_eq_true, beq_self_eq_true, true_and, list_beq_self_iff, hobjective,
    Column.beq_self_iff, Row.beq_self_iff, Conditional.beq_self_iff, numbers,
    List.forall_mem_append, List.forall_mem_flatMap, Option.mem_toList, Option.mem_def, and_assoc]

/-- **A snapshot that keeps the rules comes back unchanged**, unless it holds a value that is not a
number, which equals nothing. -/
theorem returns_iff {s : Snapshot Float} (h : s.Valid) :
    s.returns = true ↔ ∀ x ∈ s.numbers, x.isNaN = false := by
  unfold returns
  rw [read_text h]
  exact s.beq_self_iff

/-! ### Where snapshots come from -/

/-- A snapshot has passed the rules between fields: it is read from some document, or validated for some
model. -/
def Passed (s : Snapshot Float) : Prop :=
  (∃ d, read d = .ok s) ∨ ∃ m : Model Float, (ofModel m).validate = .ok s

theorem valid_of_passed {s : Snapshot Float} (h : s.Passed) : s.Valid := by
  rcases h with ⟨d, hd⟩ | ⟨m, hm⟩
  · exact valid_of_read hd
  · obtain ⟨rfl, hvalid⟩ := (validate_eq_ok_iff _ s).1 hm
    exact hvalid

/-- **What has passed the rules once passes them again**: a snapshot without values that are not numbers
is read from its own document and from its own text, and compares equal to what is read. -/
theorem returns_of_passed {s : Snapshot Float} (h : s.Passed)
    (hnumbers : ∀ x ∈ s.numbers, x.isNaN = false) :
    read s.toDocument = .ok s ∧ (Document.ofJson? s.text).map read = some (.ok s) ∧
      (s == s) = true ∧ s.returns = true := by
  have hvalid := valid_of_passed h
  exact ⟨read_toDocument hvalid, read_text hvalid, s.beq_self_iff.2 hnumbers,
    (returns_iff hvalid).2 hnumbers⟩

/-- A name that has to be escaped and no name, infinite bounds, an objective with a product, a row and a conditional. -/
def unbounded : Snapshot Float where
  engine := .memory
  columns := [⟨0, some "a \"quoted\"\nname", .binary, 0.0, 1.0⟩,
    ⟨1, none, .continuous, -1.0 / 0.0, 1.0 / 0.0⟩]
  objective := some ⟨⟨[1], [0.1], [0], [1], [1e22]⟩, .maximize, 0.5⟩
  rows := [⟨⟨[0, 1], [1.0, -2.5], [], [], []⟩, some "row", .atMost, 3.0⟩]
  conditionals := [⟨none, ⟨⟨[0], [1.0], [], [], []⟩, none, .equal, 1.0⟩,
    ⟨⟨[1], [1.0], [], [], []⟩, none, .atMost, 2.0⟩⟩]

theorem returns_of_passed_unbounded :
    unbounded.Passed ∧ (∀ x ∈ unbounded.numbers, x.isNaN = false) ∧
      read unbounded.toDocument = .ok unbounded ∧
      (Document.ofJson? unbounded.text).map read = some (.ok unbounded) ∧
      (unbounded == unbounded) = true ∧ unbounded.returns = true := by
  have hvalid : unbounded.Valid := by
    constructor <;> simp [unbounded, blocks, Terms.indices, Terms.linearFits, Terms.quadraticFits]
  have hpassed : unbounded.Passed := Or.inl ⟨unbounded.toDocument, read_toDocument hvalid⟩
  have hnumbers : ∀ x ∈ unbounded.numbers, x.isNaN = false := by
    have hall : unbounded.numbers.all (fun x => !x.isNaN) = true := by decide +kernel
    intro x hx
    simpa using List.all_eq_true.1 hall x hx
  exact ⟨hpassed, hnumbers, returns_of_passed hpassed hnumbers⟩

end Snapshot

end MixedInteger
