/-
**What a script shows.**

The answer to a step or to a question is a view: a value laid open, with the texts and numbers of the
moment.

Main definitions:

* `MixedInteger.Script.View` — views, and `MixedInteger.Script.Attempt` — a view or a refusal, with
  the remarks made on the way;
* `MixedInteger.Script.view` — a value laid open;
* `MixedInteger.Script.attempt` — runs a step and keeps what it remarked.
-/

import MixedInteger.Report.Table
import MixedInteger.Script.Telling
import MixedInteger.Snapshot.Format

set_option autoImplicit false

namespace MixedInteger.Script

/-- The terms of an expression, variables by their slots. -/
structure TermsView where
  constant : Float
  linear : List (Nat × Float)
  quadratic : List (Nat × Nat × Float)

/-- The terms of an expression, laid open. -/
def TermsView.of (e : Expression Number) : TermsView where
  constant := e.constant.toFloat
  linear := e.linear.entries.map fun t => (t.1.slot, t.2.toFloat)
  quadratic := e.quadratic.entries.map fun t => (t.1.first.slot, t.1.second.slot, t.2.toFloat)

/-- What is recorded in a model, as texts. -/
structure RecordView where
  constraints : List String
  implications : List (Option String × String)
  objective : Option (Sense × String)

/-- A pair of variables, laid open: the order of slots and of labels, and how its members compare. -/
structure PairView where
  description : String
  slots : Nat × Nat
  labels : String × String
  isSquare : Bool
  equalsReversed : Bool
  equalsOther : Bool
  same : Bool
  before : Bool
  after : Bool

/-- A remark: its loudness and its text. -/
abbrev Remark := Notice.Level × String

/-- What a refusal comes to: its cause and its text. -/
structure Failure where
  cause : Refusal
  message : Option String

mutual

/-- An answer. -/
inductive View where
  | nothing
  | truth (b : Bool)
  | whole (n : Int)
  | real (x : Float)
  | text (s : String)
  | variable (description : String) (slot : Nat) (name : Option String) (kind : Kind)
      (lower upper : Float)
  | expression (text : String) (terms : TermsView)
  | constraint (description : String) (relation : Relation) (name : Option String)
      (terms : TermsView)
  | implication (description : String) (name : Option String)
  | model (engine : Engine) (infinity : Float) (size : Nat)
  | solver (engine : Engine) (policy : Policy) (settings : Settings)
  | list (items : List View)
  | labelled (items : List (Nat × String))
  | record (r : RecordView)
  | capabilities (c : Capabilities)
  | settings (s : Settings)
  | snapshot (s : Snapshot Float)
  | tables (ts : List Table)
  | report (pieces : List Report.Piece)
  | pair (p : PairView)
  /-- A scaled constraint, and whether it is the one that was given. -/
  | scaling (same : Bool) (result : View)
  /-- Whether an engine takes an implication, and what checking it came to. -/
  | native (isNative : Bool) (check : Attempt)
  | answers (items : List (String × Attempt))

/-- An answer or a refusal, with the remarks made on the way. -/
inductive Attempt where
  | success (v : View) (remarks : List Remark)
  | failure (f : Failure) (remarks : List Remark)

end

instance : Inhabited View := ⟨.nothing⟩

open Run

/-! ### Values laid open -/

/-- A constraint, laid open. -/
def viewConstraint (env : Environment Number) (c : Constraint Number) : View :=
  .constraint (c.describe env) c.relation c.name (.of c.expression)

/-- An expression, laid open. -/
def viewExpression (e : Expression Number) : Look View := do
  return .expression (← expressionText e) (.of e)

/-- A variable, laid open. -/
def viewVariable (env : Environment Number) (v : Variable) : View :=
  let a := env.attributes v
  .variable (v.describe env) v.slot a.name a.kind a.lower.toFloat a.upper.toFloat

/-- A value, laid open. -/
def view : Value → Look View
  | .nothing => return .nothing
  | .truth b => return .truth b
  | .whole n => do
    needDoubles (Number.whole n).hasDouble
    return .whole n
  | .real x => return .real x
  | .text s => return .text s
  | .variable v => return viewVariable (← environment) v
  | .expression n => do viewExpression (← terms n)
  | .constraint n => do return viewConstraint (← environment) (← constraintAt n)
  | .implication _ p c name => do return .implication (← implicationDescription p c) name
  | .model n => do
    let m ← model n
    return .model m.engine m.infinity.toFloat m.size
  | .solver n => do
    let f ← front n
    return .solver (← model (← modelPlace f.base)).engine f.policy f.settings

/-- What is recorded in a model, laid open. -/
def viewRecord (k : Kept) : Look RecordView := do
  let constraints ← k.constraints.mapM postedText
  let implications ← k.implications.mapM fun v => do
    let name := match v with
      | .implication _ _ _ name => name
      | _ => none
    return (name, ← postedText v)
  let objective ← k.objective.mapM fun o => do return (o.1, ← expressionText (← terms o.2))
  return ⟨constraints, implications, objective⟩

/-! ### Attempts -/

/-- Remarks as texts. -/
def remarks (env : Environment Number) (ns : List (Notice Number)) : List Remark :=
  ns.map fun n => (n.level, n.message env)

/-- Runs a step: its answer or its refusal, and the remarks that it made. -/
def attempt (step : Run View) : StateM Workspace Attempt := do
  let outer := (← get).notices
  modify fun w => { w with notices := [] }
  let outcome ← step.run
  let w ← get
  set { w with notices := outer }
  let env := w.environment
  let made := remarks env w.notices
  return match outcome with
    | .ok v => .success v made
    | .error r => .failure ⟨r, r.message env⟩ made

end MixedInteger.Script
