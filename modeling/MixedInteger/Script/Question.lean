/-
**Questions about values.**

A question asks one thing of a value; a value that has nothing of the kind refuses it.

Main definitions:

* `MixedInteger.Script.Question` — what may be asked;
* `MixedInteger.Script.ask` — the answer.
-/

import MixedInteger.Script.Evaluation
import MixedInteger.Script.Loose
import MixedInteger.Script.View

set_option autoImplicit false

namespace MixedInteger.Script

/-- What may be asked of a value. -/
inductive Question where
  | text
  | description
  | truth
  | store
  | amplitudes (ignoreInfinite : Bool)
  | linearVariables
  | firstVariables
  | secondVariables
  | vars
  | linearCoefficients
  | quadraticCoefficients
  | native
  | record
  | capabilities
  | snapshot
  | snapshotText
  | tables
  | report
  | lower
  | upper
  /-- The kind of a variable, the relation of a constraint. -/
  | type
  | label
  | slot
  | name
  | infinity
  | isConstant
  | isLinear
  | isQuadratic
  | constant
  | arity
  | isBinary
  | isIntegral
  | copied
  | mustBeSatisfied
  | mustBeViolated
  | isReifiable
  | reified
  | scaled
  | expression
  | premise
  | conclusion
  | hasReplacement
  | replacement
  | policy
  | model
  | takesImplications
  | takesQuadraticConstraints
  | takesQuadraticObjective
  | size
  | engine
  | constraints
  | implications
  | objective
  /-- Something that values of some sorts do, but only with more than the value itself. -/
  | deed (sorts : List String)
  /-- Something that no value has. -/
  | unknown
  deriving Repr, DecidableEq

open Run

/-! ### Scaling -/

/-- The thresholds of a scaling.  One that is missing is refused when a number is compared with it. -/
structure Limits where
  skipLower : Option Number
  skipUpper : Option Number
  ignoreInfinite : Bool
  wideSpread : Option Number

/-- Thresholds of which none is missing. -/
def Limits.of (t : Thresholds Number) : Limits :=
  ⟨some t.skipLower, some t.skipUpper, t.ignoreInfinite, some t.wideSpread⟩

/-- The limits for scaling where none are given. -/
def standardLimits : Limits := .of Settings.standard.thresholds

/-- What stands in for a threshold that is missing; no number is above or below it. -/
def incomparable : Number := .real (0.0 / 0.0)

/-- The thresholds, those that are missing being above and below no number. -/
def Limits.thresholds (l : Limits) : Thresholds Number :=
  ⟨l.skipLower.getD incomparable, l.skipUpper.getD incomparable, l.ignoreInfinite,
    l.wideSpread.getD incomparable⟩

/-- Refuses limits of which one is missing that is asked for. -/
def checkLimits (l : Limits) (c : Constraint Number) : Look Unit := do
  let env ← environment
  let e := c.expression
  let inf := e.infinity env
  let (low, high) := e.amplitudeRange env l.ignoreInfinite
  if inf ≤ low || inf ≤ high || high == 0 then return ()
  if (← orRefuse l.skipLower .wrongSort) ≤ low then
    if high ≤ (← orRefuse l.skipUpper .wrongSort) then return ()
  if !l.ignoreInfinite && l.wideSpread.isNone then
    let _ ← lift (Constraint.plan l.thresholds e low high)
    throw .wrongSort

/-- Scales a constraint; the value is the given one if it is accepted as it is. -/
def scale (l : Limits) (v : Value) (c : Constraint Number) : Run Value := do
  checkLimits l c
  let r := c.rescale (← environment) l.thresholds
  note r.notices
  match ← lift r.outcome with
  | none => return v
  | some c' => newConstraint c'

/-- Scales the constraints that take the place of an implication, and lays them open. -/
def scaleReplacement (l : Limits) (p c : Value) (name : Option String) : Run View := do
  let pieces ← replacementOf p c name
  let scaled ← pieces.mapM fun piece => do scale l (← newConstraint piece) piece
  return .list (← scaled.mapM fun v => view v)

/-! ### Models -/

/-- The place of the model that a model or a solver stands for. -/
def placeOf (v : Value) : Look Nat :=
  match v with
  | .solver n => do modelPlace (← front n).base
  | v => modelPlace v

/-- Whether a posted value is what snapshots and tables are made of: a constraint, or an implication
between constraints. -/
def isRegular : Value → Bool
  | .constraint .. => true
  | .implication _ (.constraint ..) (.constraint ..) _ => true
  | _ => false

/-- The snapshot of a model.  All that was posted has to be of the usual sort. -/
def exported (k : Kept) : Look (Snapshot Float) := do
  let m := k.whole (← read).heap
  if let some (_, e) := m.objective then needDoubles e.hasDoubles
  if !k.posted.all isRegular then throw .noSuchPart
  liftChecked (Snapshot.ofModel (m.map Number.toFloat)).validate

/-- The snapshot of a model or of a solver's model. -/
def snapshotOf (v : Value) : Look (Snapshot Float) := do
  let k ← kept (← placeOf v)
  if k.model.exportable then exported k
  else
    match v with
    | .solver _ => throw (.notExportable k.model.engine)
    | _ => throw .wrongSort

/-- The row of something that was posted. -/
def postedRow (v : Value) : Look (List String) :=
  match v with
  | .constraint n => do return Report.constraintRow (← environment) (← constraintAt n)
  | .implication _ p c name => do return Report.implicationRow name (← implicationText p c)
  | _ => throw .noSuchPart

/-- The tables of a model. -/
def tablesOf (k : Kept) : Look (List Table) := do
  let rows ← k.posted.mapM postedRow
  return [Report.variableTable k.model, Report.constraintTable rows]

/-- The report of a model: its objective, if there is one, and its tables. -/
def reportOf (k : Kept) : Look (List Report.Piece) := do
  let o := (k.whole (← read).heap).objective
  if let some (_, e) := o then needDoubles e.hasDoubles
  let env ← environment
  let lines := o.map fun o => Report.Piece.line (Report.objectiveLine env o.1 o.2)
  return lines.toList ++ (← tablesOf k).map .table

/-- The registers that hold a model, in the order in which they were first set. -/
def holders (place : Nat) : Look View := do
  let held := (← read).registers.filter fun r => match r.2 with
    | .model n => n == place
    | _ => false
  return .list (held.map fun r => .text r.1)

/-! ### Answers by sort -/

/-- Variables with their slots and labels. -/
def labelled (vs : List Variable) : Look View := do
  let env ← environment
  return .labelled (vs.map fun v => (v.slot, env.label v))

/-- A list of numbers. -/
def numbers (xs : List Number) : View := .list (xs.map fun x => .real x.toFloat)

/-- What a variable answers. -/
def askVariable (q : Question) (v : Variable) : Look View := do
  let env ← environment
  match q with
  | .text => return .text (env.label v)
  | .description => return .text (v.describe env)
  | .store => holders v.store
  | .label => return .text (env.label v)
  | .slot => return .whole v.slot
  | .name => return (env.attributes v).name.elim .nothing .text
  | .type => return .text (env.kind v).word
  | .lower => return .real (env.lower v).toFloat
  | .upper => return .real (env.upper v).toFloat
  | _ => throw .noSuchPart

/-- What an expression answers. -/
def askExpression (q : Question) (e : Expression Number) : Look View := do
  let env ← environment
  match q with
  | .text => return .text (← expressionText e)
  | .description => return .text (← expressionDescription e)
  | .store =>
    match e.store? with
    | some place => holders place
    | none => throw (.fault (.noStore e))
  | .amplitudes ignore =>
    needDoubles (e.hasAmplitudes env ignore)
    let range := e.amplitudeRange env ignore
    return numbers [range.1, range.2]
  | .linearVariables => labelled e.linear.keys
  | .firstVariables => labelled (e.quadratic.keys.map (·.first))
  | .secondVariables => labelled (e.quadratic.keys.map (·.second))
  | .vars => labelled e.vars
  | .linearCoefficients =>
    needDoubles (e.linear.all Number.hasDouble)
    return numbers e.linear.values
  | .quadraticCoefficients =>
    needDoubles (e.quadratic.all Number.hasDouble)
    return numbers e.quadratic.values
  | .infinity => return .real (e.infinity env).toFloat
  | .isConstant => return .truth e.isConstant
  | .isLinear => return .truth e.isLinear
  | .isQuadratic => return .truth e.isQuadratic
  | .constant => return .real e.constant.toFloat
  | .arity => return .whole e.arity
  | .lower =>
    needDoubles (e.hasLower env)
    return .real (e.lower env).toFloat
  | .upper =>
    needDoubles e.hasUpper
    return .real (e.upper env).toFloat
  | .isBinary => return .truth (e.isBinary env)
  | .isIntegral =>
    needDoubles (e.hasIntegrality env)
    return .truth (e.isIntegral env)
  | .copied => viewExpression e
  | _ => throw .noSuchPart

/-- What a constraint tells. -/
def tellConstraint (q : Question) (c : Constraint Number) : Look View := do
  let env ← environment
  match q with
  | .text => return .text (c.text env)
  | .description => return .text (c.describe env)
  | .type => return .text c.relation.sign
  | .name => return c.name.elim .nothing .text
  | .expression => viewExpression c.expression
  | .isLinear => return .truth c.isLinear
  | .mustBeSatisfied => return .truth (c.mustBeSatisfied env)
  | .mustBeViolated => return .truth (c.mustBeViolated env)
  | .isReifiable => return .truth (c.isReifiable env)
  | .reified => viewExpression (← lift (c.reified env))
  | _ => throw .noSuchPart

/-- What a constraint answers.  To be asked for another scale, it has to be made one. -/
def askConstraint (q : Question) (v : Value) (c : Constraint Number) : Run View :=
  match q with
  | .scaled => do view (← scale standardLimits v c)
  | q => tellConstraint q c

/-- What an implication tells. -/
def tellImplication (q : Question) (p c : Value) (name : Option String) : Look View := do
  match q with
  | .text => return .text (← implicationText p c)
  | .description => return .text (← implicationDescription p c)
  | .name => return name.elim .nothing .text
  | .premise => view p
  | .conclusion => view c
  | .hasReplacement => return .truth (← hasReplacement p c)
  | .replacement => do
    let pieces ← replacementOf p c name
    return .list (pieces.map (viewConstraint (← environment)))
  | _ => throw .noSuchPart

/-- Whether engines take an implication, and what checking it comes to. -/
def askNative (p c : Value) : Run View := do
  let taken ← isNative p c
  let check : Look View := do
    checkNative p c
    return .nothing
  return .native taken (← attempt check)

/-- What an implication answers. -/
def askImplication (q : Question) (p c : Value) (name : Option String) : Run View :=
  match q with
  | .native => askNative p c
  | .scaled => scaleReplacement standardLimits p c name
  | q => tellImplication q p c name

/-- The objective of a model as a pair of its sense and its expression. -/
def viewObjective (k : Kept) : Look View :=
  match k.objective with
  | none => return .nothing
  | some (sense, n) => do return .list [.text sense.word, ← viewExpression (← terms n)]

/-- What a model answers. -/
def askModel (q : Question) (v : Value) (k : Kept) : Look View := do
  let m := k.model
  match q with
  | .record => return .record (← viewRecord k)
  | .capabilities => return .capabilities m.capabilities
  | .snapshot => return .snapshot (← snapshotOf v)
  | .snapshotText => return .text (← snapshotOf v).text
  | .tables => return .tables (← tablesOf k)
  | .report => return .report (← reportOf k)
  | .infinity => return .real m.infinity.toFloat
  | .size => return .whole m.size
  | .engine => return .text m.engine.word
  | .constraints => return .list (← k.constraints.mapM view)
  | .implications => return .list (← k.implications.mapM view)
  | .objective => viewObjective k
  | _ => throw .noSuchPart

/-- What a solver answers. -/
def askSolver (q : Question) (v : Value) (f : Front) : Look View := do
  match q with
  | .policy => return .text f.policy.word
  | .model => view f.base
  | q =>
    let m ← model (← modelPlace f.base)
    match q with
    | .snapshot => return .snapshot (← snapshotOf v)
    | .snapshotText => return .text (← snapshotOf v).text
    | .infinity => return .real m.infinity.toFloat
    | .takesImplications => return .truth m.capabilities.implications
    | .takesQuadraticConstraints => return .truth m.capabilities.quadraticConstraints
    | .takesQuadraticObjective => return .truth m.capabilities.quadraticObjective
    | _ => throw .noSuchPart

/-- What a plain value answers. -/
def askPlain (q : Question) (v : Value) : Look View :=
  match q, v with
  | .description, .text s => return .text (Text.quote s)
  | .text, v => do return .text (← plainText v)
  | .description, v => do return .text (← plainText v)
  | _, _ => throw .noSuchPart

/-- The answer to a question. -/
def ask (q : Question) (v : Value) : Run View := do
  match q with
  | .truth => return .truth (← truthOf v)
  | .deed sorts => throw (if sorts.contains v.sort then .wrongSort else .noSuchPart)
  | q =>
    match v with
    | .variable x => askVariable q x
    | .expression n => askExpression q (← terms n)
    | .constraint n => do askConstraint q v (← constraintAt n)
    | .implication _ p c name => askImplication q p c name
    | .model n => askModel q v (← kept n)
    | .solver n => askSolver q v (← front n)
    | v => askPlain q v

/-- The answers to questions, each an attempt of its own. -/
def askAll (v : Value) : List (String × Question) → Run (List (String × Attempt))
  | [] => return []
  | (word, q) :: rest => do
    let a ← attempt (ask q v)
    return (word, a) :: (← askAll v rest)

end MixedInteger.Script
