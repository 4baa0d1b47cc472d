/-
**Snapshots of a model.**

A snapshot is a flat record of a model for others to read: variables in the order of their slots, and
terms as parallel lists of indices and coefficients.  The right side of a row is the opposite of the
constant of its expression.

Main definitions:

* `MixedInteger.Snapshot` — snapshots, and their parts `Snapshot.Terms`, `Snapshot.Column`,
  `Snapshot.Objective`, `Snapshot.Row`, `Snapshot.Conditional`;
* `MixedInteger.Snapshot.ofModel` — the snapshot of a model;
* `MixedInteger.Snapshot.dangling?` — an index beyond the variables;
* `MixedInteger.Snapshot.matrix` — the linear parts of the rows as triplets, and
  `MixedInteger.Snapshot.matrixFits` — whether they can be stored.
-/

import MixedInteger.Model.Basic
import MixedInteger.Numeric.Power

set_option autoImplicit false

namespace MixedInteger

/-- Terms as parallel lists. -/
structure Snapshot.Terms (α : Type) where
  linearIndices : List Int
  linearValues : List α
  firstIndices : List Int
  secondIndices : List Int
  pairValues : List α
  deriving BEq

/-- A variable of a snapshot. -/
structure Snapshot.Column (α : Type) where
  index : Int
  name : Option String
  kind : Kind
  lower : α
  upper : α
  deriving BEq

/-- The objective of a snapshot. -/
structure Snapshot.Objective (α : Type) where
  terms : Snapshot.Terms α
  sense : Sense
  constant : α
  deriving BEq

/-- A constraint of a snapshot: its terms compared with a right side. -/
structure Snapshot.Row (α : Type) where
  terms : Snapshot.Terms α
  name : Option String
  relation : Relation
  bound : α
  deriving BEq

/-- An implication of a snapshot. -/
structure Snapshot.Conditional (α : Type) where
  name : Option String
  premise : Snapshot.Row α
  conclusion : Snapshot.Row α
  deriving BEq

/-- A flat record of a model. -/
structure Snapshot (α : Type) where
  engine : Engine
  columns : List (Snapshot.Column α)
  objective : Option (Snapshot.Objective α)
  rows : List (Snapshot.Row α)
  conditionals : List (Snapshot.Conditional α)
  deriving BEq

namespace Snapshot

variable {α : Type}

/-! ### Terms -/

/-- The terms of an expression; the stores of its variables are forgotten. -/
def Terms.ofExpression (e : Expression α) : Terms α where
  linearIndices := e.linear.keys.map fun v => v.slot
  linearValues := e.linear.values
  firstIndices := e.quadratic.keys.map fun p => p.first.slot
  secondIndices := e.quadratic.keys.map fun p => p.second.slot
  pairValues := e.quadratic.values

/-- All indices that occur. -/
def Terms.indices (t : Terms α) : List Int := t.linearIndices ++ t.firstIndices ++ t.secondIndices

/-- The greatest index that occurs; minus one if none is greater. -/
def Terms.maxIndex (t : Terms α) : Int := t.indices.foldl max (-1)

/-- Both lists of linear terms are equally long. -/
def Terms.linearFits (t : Terms α) : Bool := t.linearIndices.length == t.linearValues.length

/-- The three lists of product terms are equally long. -/
def Terms.quadraticFits (t : Terms α) : Bool :=
  t.firstIndices.length == t.secondIndices.length && t.firstIndices.length == t.pairValues.length

theorem Terms.linearFits_ofExpression (e : Expression α) : (ofExpression e).linearFits = true := by
  simp [linearFits, ofExpression, Coefficients.keys, Coefficients.values]

theorem Terms.quadraticFits_ofExpression (e : Expression α) :
    (ofExpression e).quadraticFits = true := by
  simp [quadraticFits, ofExpression, Coefficients.keys, Coefficients.values]

/-! ### The snapshot of a model -/

/-- The row of a constraint. -/
def Row.ofConstraint [Scalar α] (c : Constraint α) : Row α where
  terms := .ofExpression c.expression
  name := c.name
  relation := c.relation
  bound := -c.expression.constant

/-- The conditional of an implication. -/
def Conditional.ofImplication [Scalar α] (i : Implication α) : Conditional α where
  name := i.name
  premise := .ofConstraint i.premise
  conclusion := .ofConstraint i.conclusion

/-- The columns of variables, counted from `start`. -/
def columnsFrom (start : Nat) : List (Attributes α) → List (Column α)
  | [] => []
  | a :: rest => ⟨start, a.name, a.kind, a.lower, a.upper⟩ :: columnsFrom (start + 1) rest

@[simp] theorem columnsFrom_length (start : Nat) (as : List (Attributes α)) :
    (columnsFrom start as).length = as.length := by
  induction as generalizing start with
  | nil => rfl
  | cons a rest ih => simp [columnsFrom, ih]

/-- The snapshot of a model. -/
def ofModel [Scalar α] (m : Model α) : Snapshot α where
  engine := m.engine
  columns := columnsFrom 0 m.slots
  objective := m.objective.map fun o => ⟨.ofExpression o.2, o.1, o.2.constant⟩
  rows := m.constraints.map .ofConstraint
  conditionals := m.implications.map .ofImplication

/-! ### What a snapshot tells -/

/-- All lists of terms: of the rows, the premises, the conclusions and the objective. -/
def blocks (s : Snapshot α) : List (Terms α) :=
  s.rows.map (·.terms) ++ s.conditionals.map (·.premise.terms) ++
    s.conditionals.map (·.conclusion.terms) ++ (s.objective.map (·.terms)).toList

/-- The greatest index of the first list of terms with an index beyond the columns. -/
def dangling? (s : Snapshot α) : Option Int :=
  (s.blocks.find? fun t => decide ((s.columns.length : Int) ≤ t.maxIndex)).map Terms.maxIndex

/-- The names of the variables. -/
def names (s : Snapshot α) : List (Option String) := s.columns.map (·.name)

/-- The kinds that occur. -/
def kinds (s : Snapshot α) : List Kind := (s.columns.map (·.kind)).eraseDups

/-- Some row has products. -/
def hasQuadraticRows (s : Snapshot α) : Bool := s.rows.any fun r => !r.terms.pairValues.isEmpty

/-- The objective has products. -/
def hasQuadraticObjective (s : Snapshot α) : Bool :=
  s.objective.any fun o => !o.terms.pairValues.isEmpty

/-- The triplets of rows counted from `start`: row numbers, indices and values, as parallel lists. -/
def matrixFrom (start : Nat) : List (Row α) → List Nat × List Int × List α
  | [] => ([], [], [])
  | r :: rest =>
    let (rows, columns, values) := matrixFrom (start + 1) rest
    (List.replicate r.terms.linearIndices.length start ++ rows,
      r.terms.linearIndices ++ columns, r.terms.linearValues ++ values)

/-- The linear parts of all rows as triplets. -/
def matrix (s : Snapshot α) : List Nat × List Int × List α := matrixFrom 0 s.rows

/-- Whether machine words hold all indices of the matrix. -/
def matrixFits (s : Snapshot α) : Bool := s.rows.all fun r => r.terms.linearIndices.all isWord

end Snapshot

end MixedInteger
