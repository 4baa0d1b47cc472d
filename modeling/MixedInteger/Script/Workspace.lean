/-
**The workspace of scripts.**

Everything that the steps of a script work on, and two monads.  What only looks at the workspace leaves it
as it is, by its type; a step changes the workspace, and does so even when it is refused in the end.

Main definitions:

* `MixedInteger.Script.Refusal` — why a step does not succeed;
* `MixedInteger.Script.Kept` — models with what was posted to them;
* `MixedInteger.Script.Workspace` — objects, models, solvers, makers of models and registers;
* `MixedInteger.Script.Look` — what looks at the workspace and may be refused;
* `MixedInteger.Script.Run` — steps that change the workspace and may be refused.
-/

import MixedInteger.Expression.Answerable
import MixedInteger.Fault.Wording
import MixedInteger.Script.Heap
import MixedInteger.Settings.Storage

set_option autoImplicit false

namespace MixedInteger.Script

/-- Why a step does not succeed. -/
inductive Refusal where
  | fault (f : Fault Number)
  | registry (f : RegistryFault)
  /-- A document does not say what it should. -/
  | invalid (problems : List Problem)
  /-- A register holds nothing. -/
  | unbound (register : String)
  /-- A value is of the wrong sort. -/
  | wrongSort
  /-- A value has no part of that name. -/
  | noSuchPart
  /-- A value of the right sort is not among those accepted. -/
  | wrongValue
  /-- A list has no item at that place. -/
  | outOfRange
  /-- No expression can be made from a value of that sort. -/
  | notAnExpression (sort : String)
  /-- A value of that sort cannot be added to a model. -/
  | notPostable (sort : String)
  /-- A constraint was used as a truth value. -/
  | noTruth (c : Constraint Number)
  /-- An engine takes no products, and an expression that was posted, given by its text, has some. -/
  | looseProduct (engine : Engine) (text : String)
  /-- An engine takes no implications; this one, given by its text, has sides of any sort. -/
  | looseImplication (engine : Engine) (text : String)
  /-- A conclusion that is an expression, given by its text, has to be linear. -/
  | looseConclusion (text : String)
  /-- An implication with sides of any sort has a premise that no expression captures; both are given
  by their texts. -/
  | loosePremise (implication premise : String)
  /-- A model cannot be exported. -/
  | notExportable (engine : Engine)
  /-- Settings cannot be kept or found. -/
  | storage (f : Settings.StorageFault)
  /-- The text of settings means nothing. -/
  | text (f : Settings.TextFault)

/-- What a refusal says, the variables being called as in `env`. -/
def Refusal.message (env : Environment Number) : Refusal → Option String
  | fault f => f.message env
  | registry f => some f.message
  | unbound register => some register
  | notAnExpression sort => some ("cannot build an expression from " ++ sort)
  | notPostable sort => some ("cannot add " ++ sort ++ " to a model")
  | noTruth c =>
    some ("Constraint " ++ c.text env ++
      " has no truth value; compare bounds or values explicitly.")
  | looseProduct engine said => some (quadraticWording engine said)
  | looseImplication engine said => some (implicationWording engine said)
  | looseConclusion said => some (conclusionWording said)
  | loosePremise implication premise => some (premiseWording implication premise)
  | notExportable engine =>
    some ("backend '" ++ engine.word ++ "' cannot export a model snapshot")
  | invalid _ => none
  | storage _ => none
  | text _ => none
  | wrongSort => none
  | noSuchPart => none
  | wrongValue => none
  | outOfRange => none

/-- Whether a refusal says that an engine does not take a shape. -/
def Refusal.isUnsupportedShape : Refusal → Bool
  | fault f => f.isUnsupportedShape
  | looseProduct .. => true
  | looseImplication .. => true
  | looseConclusion _ => true
  | _ => false

/-- A front of a model that decides how things are posted.  What it stands in front of is a model, or
else it is of no use. -/
structure Front where
  base : Value
  policy : Policy
  settings : Settings

/-- A model that is kept, and what was posted to it, as it was given.  Models of one family share their
variables and what is posted to them. -/
structure Kept where
  /-- The model as it is before anything is posted. -/
  model : Model Number
  family : Nat
  constraints : List Value
  implications : List Value
  /-- The sense of the objective and the place of its expression. -/
  objective : Option (Sense × Nat)

/-- Everything that was posted to a model. -/
def Kept.posted (k : Kept) : List Value := k.constraints ++ k.implications

/-- The constraint that a value is, if it is one. -/
def Heap.constraintOf? (h : Heap) (v : Value) : Option (Constraint Number) :=
  match v with
  | .constraint n => h.constraint? n
  | _ => none

/-- A model with what was posted to it, as far as this is of the usual sort. -/
def Kept.whole (h : Heap) (k : Kept) : Model Number :=
  { k.model with
    constraints := k.constraints.filterMap h.constraintOf?
    implications := k.implications.filterMap h.implication?
    objective := do
      let (sense, n) ← k.objective
      return (sense, ← h.terms? n) }

/-- How a new model is made: everything may be left out. -/
structure ModelRequest where
  infinity : Option Term
  capabilities : Option Document
  engine : Option String
  exportable : Bool

/-- The request where everything is left out. -/
def ModelRequest.plain : ModelRequest := ⟨none, none, none, true⟩

/-- Everything that steps work on. -/
structure Workspace where
  heap : Heap
  models : List Kept
  fronts : List Front
  registry : Registry ModelRequest
  /-- Registers in the order in which they were first set. -/
  registers : List (String × Value)
  /-- Remarks of the step under way, oldest first. -/
  notices : List (Notice Number)
  nextTag : Nat

/-- The workspace before the first step. -/
def Workspace.initial : Workspace := ⟨.empty, [], [], .initial, [], [], 0⟩

instance : Inhabited Workspace := ⟨.initial⟩

namespace Workspace

/-- The environment of a workspace. -/
def environment (w : Workspace) : Environment Number := .ofModels (w.models.map Kept.model)

/-- What a register holds, if it holds anything. -/
def held? (w : Workspace) (name : String) : Option Value :=
  (w.registers.find? fun r => r.1 == name).map Prod.snd

end Workspace

/-- What looks at the workspace and may be refused. -/
abbrev Look := ReaderT Workspace (Except Refusal)

/-- Steps change the workspace, also when they are refused in the end. -/
abbrev Run := ExceptT Refusal (StateM Workspace)

/-- A look at the workspace of the moment, as a step. -/
instance : MonadLift Look Run where
  monadLift x := fun w => (x.run w, w)

namespace Run

/-! ### Refusals -/

/-- The expressions that a fault quotes and that need not have all doubles. -/
def quoted : Fault Number → List (Expression Number)
  | .cubicProduct e f => [e, f]
  | .quarticProduct e f => [e, f]
  | .variableDivisor e f => [e, f]
  | .notBinary e => [e]
  | .quadraticObjective _ e => [e]
  | _ => []

/-- A computation of the library.  A fault that cannot be put into words is one of numbers. -/
def lift {β : Type} (x : Except (Fault Number) β) : Look β :=
  match x with
  | .ok b => return b
  | .error f =>
    throw (.fault (if (quoted f).all Expression.hasDoubles then f else .number .overflow))

/-- A computation with numbers. -/
def number {β : Type} (x : Except (NumberFault Number) β) : Look β :=
  match x with
  | .ok b => return b
  | .error f => throw (.fault (.number f))

/-- The double of a number. -/
def double (a : Number) : Look Float := number (doubleOf a)

/-- Goes on only if all doubles that are needed are there. -/
def needDoubles (b : Bool) : Look Unit :=
  if b then return () else throw (.fault (.number .overflow))

/-- Reading a document. -/
def liftChecked {β : Type} (x : Checked β) : Look β :=
  match x with
  | .ok b => return b
  | .error ps => throw (.invalid ps)

/-- Something that the storage may refuse. -/
def liftStorage {β : Type} (x : Except Settings.StorageFault β) : Look β :=
  match x with
  | .ok b => return b
  | .error f => throw (.storage f)

/-- Reading settings. -/
def liftText {β : Type} (x : Except Settings.TextFault β) : Look β :=
  match x with
  | .ok b => return b
  | .error f => throw (.text f)

/-- An answer of the registry. -/
def liftRegistry {β : Type} (x : Except RegistryFault β) : Look β :=
  match x with
  | .ok b => return b
  | .error f => throw (.registry f)

/-- A value that may be missing, with the refusal in that case. -/
def orRefuse {β : Type} (x : Option β) (r : Refusal) : Look β :=
  match x with
  | some b => return b
  | none => throw r

/-! ### Looks at the workspace -/

/-- The environment of the moment. -/
def environment : Look (Environment Number) := return (← read).environment

/-- The terms of an expression object. -/
def terms (n : Nat) : Look (Expression Number) := do
  orRefuse ((← read).heap.terms? n) .noSuchPart

/-- A constraint object with the terms of its expression. -/
def constraintAt (n : Nat) : Look (Constraint Number) := do
  orRefuse ((← read).heap.constraint? n) .noSuchPart

/-- A constraint object as it is. -/
def constraintObject (n : Nat) : Look ConstraintObject := do
  orRefuse (← read).heap.constraints[n]? .noSuchPart

/-- What a register holds. -/
def register (name : String) : Look Value := do
  orRefuse ((← read).held? name) (.unbound name)

/-- A model with what was posted to it. -/
def kept (place : Nat) : Look Kept := do
  orRefuse (← read).models[place]? .noSuchPart

/-- A model. -/
def model (place : Nat) : Look (Model Number) := return (← kept place).model

/-- The place of a model that a value is. -/
def modelPlace (v : Value) : Look Nat :=
  match v with
  | .model n => return n
  | _ => throw .noSuchPart

/-- A solver. -/
def front (place : Nat) : Look Front := do
  orRefuse (← read).fronts[place]? .noSuchPart

/-- The place that the next expression object will have. -/
def nextExpression : Look Nat := return (← read).heap.expressions.size

/-! ### Objects -/

/-- A new expression object. -/
def newExpression (e : Expression Number) : Run Value :=
  modifyGet fun w =>
    (.expression w.heap.expressions.size, { w with heap := w.heap.newExpression e })

/-- A new constraint object with an expression object of its own. -/
def newConstraint (c : Constraint Number) : Run Value :=
  modifyGet fun w =>
    (.constraint w.heap.constraints.size,
      { w with
        heap := (w.heap.newExpression c.expression).newConstraint
          ⟨c.relation, w.heap.expressions.size, c.name⟩ })

/-- A new constraint object whose expression object is there already. -/
def shareConstraint (o : ConstraintObject) : Run Value :=
  modifyGet fun w =>
    (.constraint w.heap.constraints.size, { w with heap := w.heap.newConstraint o })

/-- An implication as a value of its own. -/
def newImplication (premise conclusion : Value) (name : Option String) : Run Value :=
  modifyGet fun w =>
    (.implication w.nextTag premise conclusion name, { w with nextTag := w.nextTag + 1 })

/-- Changes the terms of an expression object. -/
def setTerms (n : Nat) (e : Expression Number) : Run Unit :=
  modify fun w => { w with heap := w.heap.write n e }

/-! ### Registers and remarks -/

/-- Sets an entry of a list of registers: one that is there keeps its place. -/
def setEntry (name : String) (v : Value) : List (String × Value) → List (String × Value)
  | [] => [(name, v)]
  | r :: rest => if r.1 == name then (name, v) :: rest else r :: setEntry name v rest

/-- Sets a register. -/
def setRegister (name : String) (v : Value) : Run Unit :=
  modify fun w => { w with registers := setEntry name v w.registers }

/-- Leaves remarks. -/
def note (ns : List (Notice Number)) : Run Unit :=
  modify fun w => { w with notices := w.notices ++ ns }

/-! ### Models and solvers -/

/-- Changes all models of a family. -/
def changeFamily (family : Nat) (f : Kept → Kept) : Run Unit :=
  modify fun w =>
    { w with models := w.models.map fun k => if k.family == family then f k else k }

/-- Changes the variables of a model, which its family shares. -/
def setSlots (place : Nat) (m : Model Number) : Run Unit := do
  changeFamily (← kept place).family fun k =>
    { k with model := { k.model with slots := m.slots } }

/-- Keeps what was posted to a model. -/
def keep (place : Nat) (constraints implications : List Value) : Run Unit := do
  changeFamily (← kept place).family fun k =>
    { k with
      constraints := k.constraints ++ constraints
      implications := k.implications ++ implications }

/-- Keeps an objective with an expression object of its own. -/
def keepObjective (place : Nat) (sense : Sense) (e : Expression Number) : Run Unit :=
  modify fun w =>
    { w with
      heap := w.heap.newExpression e
      models := w.models.modify place fun k =>
        { k with objective := some (sense, w.heap.expressions.size) } }

/-- Keeps a model; nothing tells its place but the answer. -/
def add (k : Kept) : Run Nat :=
  modifyGet fun w => (w.models.length, { w with models := w.models ++ [k] })

/-- A new model, which is a family of its own.  The expression object of its objective, if it has one, is
there already. -/
def newModel (m : Model Number) (constraints implications : List Value)
    (objective : Option (Sense × Nat)) : Run Nat :=
  modifyGet fun w =>
    (w.models.length,
      { w with models := w.models ++ [⟨m, w.models.length, constraints, implications, objective⟩] })

/-- The same with an objective that has an expression object of its own. -/
def newModelWith (m : Model Number) (constraints implications : List Value) (sense : Sense)
    (e : Expression Number) : Run Nat :=
  modifyGet fun w =>
    (w.models.length,
      { w with
        heap := w.heap.newExpression e
        models := w.models ++
          [⟨m, w.models.length, constraints, implications,
            some (sense, w.heap.expressions.size)⟩] })

/-- A new solver. -/
def newFront (f : Front) : Run Value :=
  modifyGet fun w => (.solver w.fronts.length, { w with fronts := w.fronts ++ [f] })

end Run

end MixedInteger.Script
