/-
**Tables that describe a model.**

One table lists the variables, one the constraints and implications; a third line tells the objective.

Main definitions:

* `MixedInteger.Table` — a table of texts;
* `MixedInteger.Report.variableTable`, `MixedInteger.Report.constraintTable` — the two tables;
* `MixedInteger.Report.pieces` — everything that a report shows, in order.
-/

import MixedInteger.Expression.Rendering
import MixedInteger.Model.Basic

set_option autoImplicit false

namespace MixedInteger

/-- On which side the cells of a column stand. -/
inductive Table.Side where
  | left
  | right
  deriving Repr, DecidableEq

/-- A column: its header, its side and its colour, if it has one. -/
structure Table.Column where
  header : String
  side : Table.Side := .left
  colour : String := ""
  deriving Repr, DecidableEq

/-- A table of texts. -/
structure Table where
  title : String
  columns : List Table.Column
  rows : List (List String)
  deriving Repr, DecidableEq

namespace Report

variable {α : Type} [Scalar α] [Display α]

/-- The text of a bound: one at or beyond the infinity of the store is infinite. -/
def boundText (inf bound : α) : String :=
  if inf ≤ bound ∨ Scalar.isInfinite bound = true then (if 0 < bound then "inf" else "-inf")
  else if bound ≤ -inf then "-inf"
  else Display.text bound

/-- How a variable is called in its row; an empty name counts as none. -/
def nameCell (slot : Nat) (name : Option String) : String :=
  match name with
  | some n => if n.isEmpty then "_x" ++ toString slot else n
  | none => "_x" ++ toString slot

/-- The row of a variable. -/
def variableRow (inf : α) (slot : Nat) (a : Attributes α) : List String :=
  [toString slot, nameCell slot a.name, a.kind.word, boundText inf a.lower, boundText inf a.upper]

/-- The rows of variables, counted from `slot`. -/
def variableRows (inf : α) (slot : Nat) : List (Attributes α) → List (List String)
  | [] => []
  | a :: rest => variableRow inf slot a :: variableRows inf (slot + 1) rest

@[simp] theorem variableRows_length (inf : α) (slot : Nat) (as : List (Attributes α)) :
    (variableRows inf slot as).length = as.length := by
  induction as generalizing slot with
  | nil => rfl
  | cons a rest ih => simp [variableRows, ih]

theorem variableRows_getElem? (inf : α) (slot i : Nat) (as : List (Attributes α)) :
    (variableRows inf slot as)[i]? = as[i]?.map (variableRow inf (slot + i)) := by
  induction as generalizing slot i with
  | nil => rfl
  | cons a rest ih =>
      cases i with
      | zero => rfl
      | succ i =>
          rw [variableRows, List.getElem?_cons_succ, List.getElem?_cons_succ, ih, Nat.add_assoc,
            Nat.add_comm 1 i]

/-- The table of variables, one row per slot. -/
def variableTable (m : Model α) : Table where
  title := "Variables"
  columns :=
    [{ header := "#", side := .right }, { header := "Name", colour := "cyan" },
     { header := "Type" }, { header := "Lower", side := .right },
     { header := "Upper", side := .right }]
  rows := variableRows m.infinity 0 m.slots

/-- The row of a constraint. -/
def constraintRow (env : Environment α) (c : Constraint α) : List String :=
  [c.name.getD "", if c.isLinear then "linear" else "quadratic", c.text env]

/-- The row of an implication, given by its name and its text. -/
def implicationRow (name : Option String) (text : String) : List String :=
  [name.getD "", "indicator", text]

/-- The table of constraints, whose rows are given. -/
def constraintTable (rows : List (List String)) : Table where
  title := "Constraints"
  columns :=
    [{ header := "Name", colour := "green" }, { header := "Kind" },
     { header := "Constraint", colour := "white" }]
  rows := rows

/-- The rows of constraints, implications coming last. -/
def constraintRows (env : Environment α) (m : Model α) : List (List String) :=
  m.constraints.map (constraintRow env) ++
    m.implications.map fun i => implicationRow i.name (i.text env)

/-- The line that tells an objective. -/
def objectiveLine (env : Environment α) (sense : Sense) (e : Expression α) : String :=
  "[bold]" ++ sense.word ++ "[/bold] " ++ e.text env

/-- A part of a report. -/
inductive Piece where
  | line (text : String)
  | table (t : Table)

/-- The tables of a model. -/
def tables (env : Environment α) (m : Model α) : List Table :=
  [variableTable m, constraintTable (constraintRows env m)]

/-- A report: the objective, if there is one, and the tables. -/
def pieces (env : Environment α) (m : Model α) : List Piece :=
  (m.objective.map fun o => Piece.line (objectiveLine env o.1 o.2)).toList ++
    (tables env m).map .table

end Report

end MixedInteger
