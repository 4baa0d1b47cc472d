/-
**Engines and what they can do.**

A model is recorded for an engine of a certain kind; the engine says which kinds of variables and
which shapes of constraints it takes.

Main definitions:

* `MixedInteger.Engine` — the kinds of engines, among them "any of them";
* `MixedInteger.Engine.preference` — the order in which engines are tried;
* `MixedInteger.Capabilities` — what an engine takes.
-/

import MixedInteger.Variable

set_option autoImplicit false

namespace MixedInteger

/-- The kinds of engines.  `memory` only records a model; `any` leaves the choice open. -/
inductive Engine where
  | gurobi
  | scip
  | lpsolve
  | memory
  | any
  deriving Repr, DecidableEq

namespace Engine

/-- The word for an engine. -/
def word : Engine → String
  | gurobi => "gurobi"
  | scip => "scip"
  | lpsolve => "lpsolve"
  | memory => "local"
  | any => "any"

/-- All engines in the order of their declaration. -/
def all : List Engine := [gurobi, scip, lpsolve, memory, any]

/-- The engine that a word stands for. -/
def ofWord? (w : String) : Option Engine := all.find? (·.word == w)

theorem ofWord?_word (e : Engine) : ofWord? e.word = some e := by cases e <;> rfl

/-- The concrete engines, the preferred ones first. -/
def preference : List Engine := [gurobi, scip, lpsolve, memory]

theorem mem_preference_iff (e : Engine) : e ∈ preference ↔ e ≠ any := by cases e <;> simp [preference]

end Engine

/-- What an engine takes: kinds of variables, implications, products in constraints and in the
objective. -/
structure Capabilities where
  kinds : List Kind := Kind.all
  implications : Bool := false
  quadraticConstraints : Bool := false
  quadraticObjective : Bool := false
  deriving Repr, DecidableEq

/-- Everything is taken. -/
def Capabilities.full : Capabilities where
  implications := true
  quadraticConstraints := true
  quadraticObjective := true

/-- Whether an objective is to be made large or small. -/
inductive Sense where
  | maximize
  | minimize
  deriving Repr, DecidableEq

/-- The word for a sense. -/
def Sense.word : Sense → String
  | maximize => "max"
  | minimize => "min"

/-- Both senses. -/
def Sense.all : List Sense := [maximize, minimize]

/-- The sense that a word stands for. -/
def Sense.ofWord? (w : String) : Option Sense := all.find? (·.word == w)

theorem Sense.ofWord?_word (s : Sense) : ofWord? s.word = some s := by cases s <;> rfl

end MixedInteger
