/-
**Steps of scripts.**

A step makes a value or gives an answer, and may change the workspace: objects, models, the registry.
What it makes goes into a register when it succeeds, and the register keeps its old content otherwise.

Main definitions:

* `MixedInteger.Script.Step`, `MixedInteger.Script.Command` — steps, and steps with a register for
  what they make;
* `MixedInteger.Script.perform` — a step;
* `MixedInteger.Script.run` — a script: the attempts at its commands, one after the other.
-/

import MixedInteger.Script.Question

set_option autoImplicit false

namespace MixedInteger.Script

/-- What is to be changed of a variable. -/
inductive Change where
  | lower (t : Term)
  | upper (t : Term)
  | kind (word : String)
  | name (name : Option String)

/-- What a new solver works on: a register, an engine by its word, or what the settings say. -/
inductive SolverBase where
  | register (name : String)
  | engine (word : String)
  | settings

/-- The thresholds of a scaling step, each of which may be left out, or given as missing. -/
structure ScalingRequest where
  skipLower : Option (Option Number)
  skipUpper : Option (Option Number)
  ignoreInfinite : Option Bool
  wideSpread : Option (Option Number)

/-- A step. -/
inductive Step where
  | model (request : ModelRequest)
  | solver (base : SolverBase) (settings : Option Document)
  | variable (owner : String) (kind : Option String) (lower upper : Option Term)
      (name : Option String)
  /-- An expression from its terms; a repeated term keeps its first place and takes its last
  coefficient. -/
  | terms (constant : Option Term) (linear : List (String × Term))
      (quadratic : List (String × String × Term)) (asText : Bool)
  | value (t : Term)
  | assign (op : Operator) (register : String) (argument : Term)
  | change (register : String) (what : Change)
  | pair (first second : String) (other : Option (String × String))
  | questions (t : Term) (asked : List (String × Question))
  | scale (t : Term) (request : ScalingRequest) (direct : Bool)
  | post (owner : String) (t : Term)
  | objective (owner : String) (sense : String) (t : Term) (direct : Bool)
  | policy (owner : String) (word : String)
  | modelOf (owner : String)
  | register (engine : String) (request : ModelRequest) (listing : Bool)
  | unregister (engine : String)
  | available (engine : Option String)
  | create (engine : Option String)

/-- A step, and the register for what it makes. -/
structure Command where
  target : Option String
  step : Step

/-- What a step comes to: a value that it made, or an answer. -/
inductive Outcome where
  | made (v : Value)
  | answered (v : View)

open Run

/-! ### Models and solvers -/

/-- An engine by its word. -/
def engineOf (word : String) : Look Engine := orRefuse (Engine.ofWord? word) .wrongValue

/-- The value of a term that may be left out. -/
def evaluate? (t : Option Term) : Run (Option Value) :=
  match t with
  | none => return none
  | some t => do return some (← evaluate t)

/-- The infinity of a model.  One that is given has to be positive. -/
def infinityOf (given : Option Value) : Run Number :=
  match given with
  | none => return Scalar.infinity
  | some v => do
    if ← truthOf (← operate .atMost v (.whole 0)) then throw (.fault .infinityNotPositive)
    else return .real (← floatOf v)

/-- The model that is requested, given what is known of its infinity. -/
def requested (r : ModelRequest) (capabilities : Option Capabilities) (infinity : Number) :
    Look (Model Number) := do
  let m ← lift (Model.make .memory (capabilities.getD .full) infinity)
  match r.engine with
  | none => return { m with exportable := r.exportable }
  | some word => return { m with engine := ← engineOf word, exportable := r.exportable }

/-- A model as requested. -/
def makeModel (r : ModelRequest) : Run Value := do
  let infinity ← evaluate? r.infinity
  let capabilities ← (r.capabilities.mapM fun d => liftChecked (Capabilities.read d) : Look _)
  let m ← requested r capabilities (← infinityOf infinity)
  return .model (← newModel m [] [] none)

/-- A call of the registry, which may change with its answer. -/
def callRegistry (c : Registry.Call ModelRequest) : Run (Registry.Answer ModelRequest) := do
  let (answer, r) := (← get).registry.perform .plain c
  modify fun w => { w with registry := r }
  liftRegistry answer

/-- A model for an engine, made by its maker. -/
def create (e : Engine) : Run Value := do
  match ← callRegistry (.create e) with
  | .made request => makeModel request
  -- no other answer is one to this call
  | _ => return .nothing

/-- What a new solver stands in front of.  A register may hold anything; nothing at all leaves it to the
settings, and a text names an engine. -/
def solverBase (base : SolverBase) (s : Settings) : Run Value := do
  match base with
  | .settings => create s.engine
  | .engine word => create (← engineOf word)
  | .register name =>
    match ← register name with
    | .nothing => create s.engine
    | .text word => create (← engineOf word)
    | v => return v

/-- The settings that a document asks for. -/
def settingsOf (d : Option Document) : Look Settings :=
  match d with
  | none => return Settings.standard
  | some d => liftChecked (Settings.read d)

/-- A solver that follows settings. -/
def makeSolver (base : SolverBase) (s : Settings) : Run Value := do
  newFront ⟨← solverBase base s, s.policy, s⟩

/-! ### Variables -/

/-- A new variable of a model.  Bounds are compared as they are given, before they become doubles. -/
def declare (place : Nat) (kind : Kind) (lower upper : Value) (name : Option String) :
    Run Value := do
  let m ← model place
  lift (m.checkKind kind)
  let free := m.defaultBounds kind
  let given := fun (v : Value) (bound : Number) => match v with
    | .nothing => .ofNumber bound
    | v => v
  let lower := given lower free.1
  let upper := given upper free.2
  if ← exceeds lower upper then throw (.fault (.emptyRange (m.newLabel name)))
  else
    let low ← floatOf lower
    let high ← floatOf upper
    setSlots place (m.addVariable ⟨kind, .real low, .real high, name⟩)
    return .variable ⟨place, m.size⟩

/-- A value that has to be a variable. -/
def asVariable (v : Value) : Look Variable :=
  match v with
  | .variable x => return x
  | _ => throw .noSuchPart

/-- Changes the attributes of a variable. -/
def updateVariable (x : Variable) (f : Attributes Number → Attributes Number) : Run Unit := do
  setSlots x.store ((← model x.store).updateVariable x.slot f)

/-- Changes an attribute of a variable.  What a bound is to be is found out before anything else. -/
def changeVariable (v : Value) (what : Change) : Run Unit :=
  match what with
  | .lower t => do
    let bound ← evaluate t
    let x ← asVariable v
    let a ← floatOf bound
    updateVariable x fun attributes => { attributes with lower := .real a }
  | .upper t => do
    let bound ← evaluate t
    let x ← asVariable v
    let a ← floatOf bound
    updateVariable x fun attributes => { attributes with upper := .real a }
  | .kind word => do
    let x ← asVariable v
    let k ← orRefuse (Kind.ofWord? word) .wrongValue
    updateVariable x fun attributes => { attributes with kind := k }
  | .name name => do
    updateVariable (← asVariable v) fun attributes => { attributes with name := name }

/-- Two variables as a pair, and how they compare. -/
def comparePair (v w : Variable) (other : VariablePair) : Look View := do
  let env ← environment
  let p := VariablePair.of v w
  let byLabel := env.labelOrder p
  return .pair
    { description := p.describe env
      slots := (p.first.slot, p.second.slot)
      labels := (env.label byLabel.1, env.label byLabel.2)
      isSquare := p.isSquare
      equalsReversed := decide (p = VariablePair.of w v)
      equalsOther := decide (p = other)
      same := decide (v = w)
      before := decide (v.before w)
      after := decide (w.before v) }

/-- The variables of two registers as a pair, beside that of two others or else itself.  All registers are
looked at before it is asked what they hold. -/
def tellPair (first second : String) (other : Option (String × String)) : Look View := do
  let a ← register first
  let b ← register second
  let others ← other.mapM fun o => do
    let c ← register o.1
    return (c, ← register o.2)
  let v ← asVariable a
  let w ← asVariable b
  match others with
  | none => comparePair v w (.of v w)
  | some (c, d) => do
    let x ← asVariable c
    comparePair v w (.of x (← asVariable d))

/-! ### Expressions from their terms -/

/-- A value that has to be a number. -/
def asNumber (v : Value) : Look Number := orRefuse v.number? .wrongSort

/-- A value that does for a key: any but an expression, which has no place in a table of keys. -/
def asKey (v : Value) : Look Value :=
  match v with
  | .expression _ => throw .wrongSort
  | v => return v

/-- The terms of a list with the values of their registers and coefficients. -/
def linearTerms : List (String × Term) → Run (List (Value × Value))
  | [] => return []
  | (name, t) :: rest => do
    let v ← register name
    let c ← evaluate t
    let key ← asKey v
    return (key, c) :: (← linearTerms rest)

/-- The product terms of a list; each pair is made before its coefficient. -/
def quadraticTerms : List (String × String × Term) → Run (List (VariablePair × Value))
  | [] => return []
  | (first, second, t) :: rest => do
    let v ← register first
    let w ← register second
    let x ← asVariable v
    let pair := VariablePair.of x (← asVariable w)
    let c ← evaluate t
    return (pair, c) :: (← quadraticTerms rest)

/-- The constant of an expression, zero if there is none. -/
def constantTerm (constant : Option Term) : Run Float :=
  match constant with
  | none => return 0.0
  | some t => do floatOf (← evaluate t)

/-- The expression that has these terms. -/
def withTerms (k : Float) (ls : List (Value × Value)) (qs : List (VariablePair × Value)) :
    Look (Expression Number) := do
  let keys ← ls.mapM fun t => asVariable t.1
  let cs ← ls.mapM fun t => asNumber t.2
  let qs ← qs.mapM fun t => do return (t.1, ← asNumber t.2)
  return ⟨.real k, .ofList (keys.zip cs), .ofList qs⟩

/-- An expression from its terms.  The constant comes last, and only then is it asked whether keys are
variables and coefficients numbers. -/
def fromTerms (constant : Option Term) (linear : List (String × Term))
    (quadratic : List (String × String × Term)) : Run (Expression Number) := do
  let ls ← linearTerms linear
  let qs ← quadraticTerms quadratic
  let k ← constantTerm constant
  withTerms k ls qs

/-! ### Posting -/

/-- What is recorded in a model. -/
def recordOf (place : Nat) : Look View := do return .record (← viewRecord (← kept place))

/-- Posts to a model, and tells the objects of the constraints that are recorded by `object`.  What was
recorded and remarked before a refusal stays.  Implications are kept as `v`, which is what is posted. -/
def posting (place : Nat) (v : Value) (object : Constraint Number → Run Value)
    (p : Posting Number Unit) : Run Unit := do
  let (outcome, s) := p.run.run ⟨← model place, []⟩
  let constraints ← s.model.constraints.mapM object
  keep place constraints (s.model.implications.map fun _ => v)
  note s.notices
  lift outcome

/-- Whether a constraint is recorded as it is, not another one that scaling makes of it. -/
def isKept (env : Environment Number) (o : PostingOptions Number) (c : Constraint Number) : Bool :=
  match o.scaling with
  | none => true
  | some t =>
    match (c.rescale env t).outcome with
    | .ok (some _) => false
    | _ => true

/-- Refuses an implication with sides of any sort that a model does not take. -/
def checkLoose (m : Model Number) (p c : Value) : Look Unit := do
  if !m.capabilities.implications then
    throw (.looseImplication m.engine (← implicationText p c))
  checkNative p c

/-- Posts an implication with sides of any sort to a model itself. -/
def postLoose (place : Nat) (v p c : Value) : Run Unit := do
  checkLoose (← model place) p c
  keep place [] [v]

/-- Whether a solver replaces an implication by constraints. -/
def replaces (f : Front) (m : Model Number) (p c : Value) : Look Bool := do
  if f.policy == .replace || f.settings.scaling then return true
  if f.policy == .replaceUnsupported then
    if m.capabilities.implications then return !(← isNative p c) else return true
  return false

/-- Posts through a solver.  A constraint that is not scaled is recorded as the object that it is; those
that take the place of an implication are new. -/
def postBySolver (f : Front) (v : Value) : Run Unit := do
  let o := f.settings.postingOptions f.policy
  match v with
  | .constraint n => do
    let place ← modelPlace f.base
    let c ← constraintAt n
    let env ← environment
    let object := fun c' => if isKept env o c then return v else newConstraint c'
    posting place v object (Posting.constraint env o c)
  | .implication _ (.constraint p) (.constraint c) name => do
    let place ← modelPlace f.base
    let i := ⟨← constraintAt p, ← constraintAt c, name⟩
    posting place v newConstraint (Posting.implication (← environment) o i)
  | .implication _ p c name => do
    let place ← modelPlace f.base
    if ← replaces f (← model place) p c then
      let _ ← replacementOf p c name
      throw .noSuchPart
    else postLoose place v p c
  | v => throw (.notPostable v.sort)

/-- Refuses an expression that a model does not take in the place of a constraint. -/
def checkProduct (m : Model Number) (e : Expression Number) : Look Unit := do
  if !e.isLinear && !m.capabilities.quadraticConstraints then
    throw (.looseProduct m.engine (← expressionText e))

/-- Posts to a model itself.  An expression is kept as a constraint would be. -/
def postDirectly (place : Nat) (v : Value) : Run Unit := do
  let env ← environment
  match v with
  | .constraint n => do
    let c ← constraintAt n
    posting place v (fun _ => return v) (Posting.change (·.post c))
  | .implication _ (.constraint p) (.constraint c) name => do
    let i := ⟨← constraintAt p, ← constraintAt c, name⟩
    posting place v newConstraint (Posting.change fun m => m.postImplication env i)
  | .implication _ p c _ => postLoose place v p c
  | .expression n => do
    let e ← terms n
    checkProduct (← model place) e
    keep place [v] []
  | _ => throw .noSuchPart

/-- Posts through a solver, or to a model itself. -/
def post (owner v : Value) : Run View := do
  match owner with
  | .solver n =>
    let f ← front n
    postBySolver f v
    recordOf (← modelPlace f.base)
  | .model n =>
    postDirectly n v
    recordOf n
  | _ => throw .noSuchPart

/-- Sets the objective of a model. -/
def setObjective (place : Nat) (sense : Sense) (e : Expression Number) : Run Unit := do
  let _ ← lift ((← model place).setObjective sense e)
  keepObjective place sense e

/-- The sense that a word stands for. -/
def senseOf (word : String) : Look Sense := orRefuse (Sense.ofWord? word) .wrongValue

/-- The sense that a solver is asked for: by its word, or by which of two requests is made. -/
def solverSense (word : String) (direct : Bool) : Look Sense :=
  if direct then senseOf word
  else return if word == Sense.maximize.word then .maximize else .minimize

/-- Sets the objective through a solver, or of a model itself.  A solver makes an expression of what
it is given; a model takes expressions only. -/
def objective (owner : Value) (word : String) (v : Value) (direct : Bool) : Run View := do
  match owner with
  | .solver n =>
    let f ← front n
    let sense ← solverSense word direct
    let e ← asExpression v
    let place ← modelPlace f.base
    setObjective place sense e
    recordOf place
  | .model n =>
    match v with
    | .expression c =>
      let e ← terms c
      let _ ← lift ((← model n).setObjective .minimize e)
      setObjective n (← senseOf word) e
      recordOf n
    | _ => throw .noSuchPart
  | _ => throw .noSuchPart

/-- Changes what a solver does with implications. -/
def setPolicy (owner : Value) (word : String) : Run Unit := do
  match owner with
  | .solver n =>
    let f ← front n
    let p ← orRefuse (Policy.ofWord? word) .wrongValue
    modify fun w => { w with fronts := w.fronts.set n { f with policy := p } }
  | _ => throw .noSuchPart

/-! ### Scaling -/

/-- The limits of a request. -/
def ScalingRequest.limits (r : ScalingRequest) : Limits where
  skipLower := r.skipLower.getD standardLimits.skipLower
  skipUpper := r.skipUpper.getD standardLimits.skipUpper
  ignoreInfinite := r.ignoreInfinite.getD standardLimits.ignoreInfinite
  wideSpread := r.wideSpread.getD standardLimits.wideSpread

/-- Scales a value.  Only direct scaling lets the remark on wide spreads be changed. -/
def scaleStep (v : Value) (r : ScalingRequest) (direct : Bool) : Run View := do
  match v with
  | .constraint n =>
    if !direct && r.wideSpread.isSome then throw .wrongSort
    else
      let scaled ← scale r.limits v (← constraintAt n)
      return .scaling (v.isSame scaled) (← view scaled)
  | .implication _ p c name =>
    if direct then throw .noSuchPart
    else if r.wideSpread.isSome then throw .wrongSort
    else return .scaling false (← scaleReplacement r.limits p c name)
  | _ => throw .noSuchPart

/-! ### The registry -/

/-- What the registry tells. -/
def tellRegistry (c : Registry.Call ModelRequest) : Run View := do
  match ← callRegistry c with
  | .engines es => return .list (es.map fun e => .text e.word)
  | .truth offered => return .truth offered
  | .nothing | .made _ => return .nothing

/-! ### Steps -/

/-- A step that makes a value. -/
def making (v : Run Value) : Run Outcome := .made <$> v

/-- A step that gives an answer. -/
def answering (v : Run View) : Run Outcome := .answered <$> v

/-- Performs a step. -/
def perform (s : Step) : Run Outcome :=
  match s with
  | .model request => making (makeModel request)
  | .solver base settings => making do makeSolver base (← settingsOf settings)
  | .variable owner kind lower upper name => making do
    let o ← register owner
    let low ← evaluate? lower
    let high ← evaluate? upper
    let place ← placeOf o
    let k ← orRefuse (Kind.ofWord? (kind.getD Kind.continuous.word)) .wrongValue
    declare place k (low.getD .nothing) (high.getD .nothing) name
  | .terms constant linear quadratic asText => do
    let e ← fromTerms constant linear quadratic
    if asText then answering do return .text ("TermMap(" ++ (← expressionText e) ++ ")")
    else making (newExpression e)
  | .value t => making (evaluate t)
  | .assign op name argument => making do
    let target ← register name
    let v ← assign op target (← evaluate argument)
    setRegister name v
    return v
  | .change name what => making do
    let v ← register name
    changeVariable v what
    return v
  | .pair first second other => answering (tellPair first second other)
  | .questions t asked => answering do
    let v ← evaluate t
    return .answers (← askAll v asked)
  | .scale t request direct => answering do scaleStep (← evaluate t) request direct
  | .post owner t => answering do
    let o ← register owner
    post o (← evaluate t)
  | .objective owner sense t direct => answering do
    let o ← register owner
    objective o sense (← evaluate t) direct
  | .policy owner word => making do
    let o ← register owner
    setPolicy o word
    return o
  | .modelOf owner => making do
    match ← register owner with
    | .solver n => return (← front n).base
    | _ => throw .noSuchPart
  | .register word request listing => answering do
    let done ← tellRegistry (.register (← engineOf word) request)
    if listing then tellRegistry .list else return done
  | .unregister word => answering do tellRegistry (.unregister (← engineOf word))
  | .available none => answering (tellRegistry .list)
  | .available (some word) => answering do tellRegistry (.ask (← engineOf word))
  | .create word => making do create (← engineOf (word.getD Engine.any.word))

/-- Performs a command: what it makes goes into its register. -/
def execute (c : Command) : Run View := do
  match ← perform c.step with
  | .made v =>
    if let some name := c.target then setRegister name v
    view v
  | .answered v => return v

/-- Runs commands one after the other, whatever became of those before. -/
def runFrom : List Command → StateM Workspace (List Attempt)
  | [] => return []
  | c :: rest => do
    let a ← attempt (execute c)
    return a :: (← runFrom rest)

/-- Runs a script from the start. -/
def run (commands : List Command) : List Attempt := ((runFrom commands).run .initial).1

/-- The workspace that a script leaves. -/
def after (commands : List Command) : Workspace := ((runFrom commands).run .initial).2

end MixedInteger.Script
