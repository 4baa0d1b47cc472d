/-
**Snapshots as documents.**

A snapshot is written as a record with fixed fields, and read back with everything checked: the types
of the fields, the lengths of parallel lists, and that no index points beyond the variables.

Main definitions:

* `MixedInteger.Snapshot.toDocument` — writing;
* `MixedInteger.Snapshot.read` — reading;
* `MixedInteger.Snapshot.check`, `MixedInteger.Snapshot.validate` — the rule on indices, and all rules
  between fields;
* `MixedInteger.Snapshot.returns` — whether a snapshot comes back from its text unchanged.
-/

import MixedInteger.Document.Parse
import MixedInteger.Document.Reader
import MixedInteger.Snapshot.Basic

set_option autoImplicit false

namespace MixedInteger.Snapshot

/-! ### Writing -/

/-- The fields of terms. -/
def Terms.toFields (t : Terms Float) : List (String × Document) :=
  [("lin_i", .list (t.linearIndices.map .whole)),
   ("lin_v", .list (t.linearValues.map .real)),
   ("q_i", .list (t.firstIndices.map .whole)),
   ("q_j", .list (t.secondIndices.map .whole)),
   ("q_v", .list (t.pairValues.map .real))]

/-- Terms as a document. -/
def Terms.toDocument (t : Terms Float) : Document := .record t.toFields

/-- A name or its absence. -/
def nameDocument (name : Option String) : Document := .ofOption .string name

/-- A variable as a document. -/
def Column.toDocument (c : Column Float) : Document :=
  .record
    [("index", .whole c.index), ("name", nameDocument c.name), ("vartype", .string c.kind.word),
     ("lb", .real c.lower), ("ub", .real c.upper)]

/-- An objective as a document. -/
def Objective.toDocument (o : Objective Float) : Document :=
  .record (o.terms.toFields ++ [("sense", .string o.sense.word), ("constant", .real o.constant)])

/-- A row as a document. -/
def Row.toDocument (r : Row Float) : Document :=
  .record (r.terms.toFields ++
    [("name", nameDocument r.name), ("sense", .string r.relation.sign), ("rhs", .real r.bound)])

/-- A conditional as a document. -/
def Conditional.toDocument (c : Conditional Float) : Document :=
  .record
    [("name", nameDocument c.name), ("implicant", c.premise.toDocument),
     ("implicand", c.conclusion.toDocument)]

/-- A snapshot as a document. -/
def toDocument (s : Snapshot Float) : Document :=
  .record
    [("backend", .string s.engine.word),
     ("variables", .list (s.columns.map Column.toDocument)),
     ("objective", .ofOption Objective.toDocument s.objective),
     ("constraints", .list (s.rows.map Row.toDocument)),
     ("indicators", .list (s.conditionals.map Conditional.toDocument))]

/-- The text of a snapshot. -/
def text (s : Snapshot Float) : String := s.toDocument.json

/-! ### Reading -/

/-- The lists of terms among fields, before their lengths are compared. -/
def Terms.readFields (fs : List (String × Document)) : Checked (Terms Float) :=
  (Checked.both (Reader.fieldOr "lin_i" [] (Reader.list Reader.whole) fs) <|
    Checked.both (Reader.fieldOr "lin_v" [] (Reader.list Reader.real) fs) <|
    Checked.both (Reader.fieldOr "q_i" [] (Reader.list Reader.whole) fs) <|
    Checked.both (Reader.fieldOr "q_j" [] (Reader.list Reader.whole) fs)
      (Reader.fieldOr "q_v" [] (Reader.list Reader.real) fs)).map
    fun (a, b, c, d, e) => ⟨a, b, c, d, e⟩

/-- The rules on the lengths of parallel lists. -/
def Terms.check {α : Type} (t : Terms α) : Checked Unit := do
  Checked.require t.linearFits "linear term arrays lin_i, lin_v must have equal length" ()
  Checked.require t.quadraticFits "quadratic term arrays q_i, q_j, q_v must have equal length" ()

/-- Reads terms. -/
def Terms.read : Reader (Terms Float) :=
  Reader.record fun fs => do
    let t ← Terms.readFields fs
    t.check
    return t

/-- Reads a variable. -/
def Column.read : Reader (Column Float) :=
  Reader.record fun fs =>
    (Checked.both (Reader.field "index" Reader.whole fs) <|
      Checked.both (Reader.fieldOr "name" none Reader.optionalString fs) <|
      Checked.both (Reader.field "vartype" (Reader.word Kind.ofWord?) fs) <|
      Checked.both (Reader.field "lb" Reader.real fs) (Reader.field "ub" Reader.real fs)).map
      fun (a, b, c, d, e) => ⟨a, b, c, d, e⟩

/-- Reads an objective. -/
def Objective.read : Reader (Objective Float) :=
  Reader.record fun fs => do
    let (t, sense, constant) ← Checked.both (Terms.readFields fs) <|
      Checked.both (Reader.fieldOr "sense" .minimize (Reader.word Sense.ofWord?) fs)
        (Reader.fieldOr "constant" 0.0 Reader.real fs)
    t.check
    return ⟨t, sense, constant⟩

/-- Reads a row. -/
def Row.read : Reader (Row Float) :=
  Reader.record fun fs => do
    let (t, name, relation, bound) ← Checked.both (Terms.readFields fs) <|
      Checked.both (Reader.fieldOr "name" none Reader.optionalString fs) <|
      Checked.both (Reader.field "sense" (Reader.word Relation.ofSign?) fs)
        (Reader.fieldOr "rhs" 0.0 Reader.real fs)
    t.check
    return ⟨t, name, relation, bound⟩

/-- Reads a conditional. -/
def Conditional.read : Reader (Conditional Float) :=
  Reader.record fun fs =>
    (Checked.both (Reader.fieldOr "name" none Reader.optionalString fs) <|
      Checked.both (Reader.field "implicant" Row.read fs) (Reader.field "implicand" Row.read fs)).map
      fun (a, b, c) => ⟨a, b, c⟩

/-- The rule on indices: none points beyond the variables. -/
def check {α : Type} (s : Snapshot α) : Checked (Snapshot α) :=
  match s.dangling? with
  | none => .ok s
  | some i =>
    Checked.problem (.rule ("term references variable " ++ toString i ++ ", but only " ++
      toString s.columns.length ++ " variables exist"))

/-- All rules between fields: those on lengths in every list of terms, then the rule on indices. -/
def validate {α : Type} (s : Snapshot α) : Checked (Snapshot α) := do
  s.blocks.forM Terms.check
  s.check

/-- Reads a snapshot. -/
def read : Reader (Snapshot Float) :=
  Reader.record fun fs => do
    let (engine, columns, objective, rows, conditionals) ←
      Checked.both (Reader.fieldOr "backend" .memory (Reader.word Engine.ofWord?) fs) <|
      Checked.both (Reader.field "variables" (Reader.list Column.read) fs) <|
      Checked.both (Reader.fieldOr "objective" none (Reader.optional Objective.read) fs) <|
      Checked.both (Reader.fieldOr "constraints" [] (Reader.list Row.read) fs)
        (Reader.fieldOr "indicators" [] (Reader.list Conditional.read) fs)
    check ⟨engine, columns, objective, rows, conditionals⟩

/-- Whether a snapshot comes back from its text unchanged. -/
def returns (s : Snapshot Float) : Bool :=
  match (Document.ofJson? s.text).map read with
  | some (.ok s') => s' == s
  | _ => false

end MixedInteger.Snapshot
