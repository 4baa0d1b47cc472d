/-
**Copies of values.**

A copy of an expression, an implication or a solver is an object of its own, whose parts are those of the
value.  A copy of a constraint shares its expression object with the constraint, and a copy of a model
shares its variables, what is posted and the expression object of its objective; the rest is its own from
then on.

A deep copy shares no parts with the value.  Within one deep copy an object that occurs twice is copied
once.  Variables are not copied; they stay with the model that they are of, also those in what a copied
model records.

Main definitions:

* `MixedInteger.Script.copy`, `MixedInteger.Script.deepCopy` — the two kinds of copies.
-/

import MixedInteger.Script.Workspace

set_option autoImplicit false

namespace MixedInteger.Script

open Run

/-- A copy of a value.  Variables and plain values are their own copies. -/
def copy (v : Value) : Run Value :=
  match v with
  | .expression n => do newExpression (← terms n)
  | .constraint n => do shareConstraint (← constraintObject n)
  | .implication _ p c name => newImplication p c name
  | .model n => do return .model (← add (← kept n))
  | .solver n => do newFront (← front n)
  | v => return v

/-! ### Deep copies -/

/-- The copies made so far: what was copied, and its copy. -/
abbrev Copies := List (Value × Value)

/-- The copy of an object, if it was made already. -/
def Copies.of? (copies : Copies) (v : Value) : Option Value :=
  (copies.find? fun r => r.1.isSame v).map Prod.snd

/-- Making deep copies, with the copies made so far. -/
abbrev Copying := StateT Copies Run

namespace Copying

/-- Remembers a copy. -/
def remember (v w : Value) : Copying Unit := modify fun copies => (v, w) :: copies

/-- The copy of an object: the one that was made already, or a new one. -/
def once (v : Value) (make : Copying Value) : Copying Value := do
  match (← get).of? v with
  | some w => return w
  | none => do
    let w ← make
    remember v w
    return w

/-- A copy of a constraint object.  Its expression object is copied with it, unless that is done. -/
def ofConstraint (n : Nat) : Copying Value :=
  once (.constraint n) do
    let o ← constraintObject n
    match (← get).of? (.expression o.expression) with
    | some (.expression m) => shareConstraint { o with expression := m }
    | _ => do
      let m ← nextExpression
      let w ← newConstraint (← constraintAt n)
      remember (.expression o.expression) (.expression m)
      return w

/-- A copy of a value without parts of any sort. -/
def simple (v : Value) : Copying Value :=
  match v with
  | .expression n => once v do newExpression (← terms n)
  | .constraint n => ofConstraint n
  | v => return v

/-- A copy of something that was posted. -/
def posted (v : Value) : Copying Value :=
  match v with
  | .implication _ p c name => once v do
    let premise ← simple p
    newImplication premise (← simple c) name
  | v => simple v

/-- A new model like a given one, with copies of what was posted to that and a copy of its objective. -/
def newLike (k : Kept) (constraints implications : List Value) : Copying Nat :=
  match k.objective with
  | none => newModel k.model constraints implications none
  | some (sense, n) => do
    match (← get).of? (.expression n) with
    | some (.expression m) => newModel k.model constraints implications (some (sense, m))
    | _ => do
      let m ← nextExpression
      let place ← newModelWith k.model constraints implications sense (← terms n)
      remember (.expression n) (.expression m)
      return place

/-- A copy of a model and of what was posted to it. -/
def ofModel (n : Nat) : Copying Value :=
  once (.model n) do
    let k ← kept n
    let constraints ← k.constraints.mapM posted
    return .model (← newLike k constraints (← k.implications.mapM posted))

/-- A deep copy of a value. -/
def deep : Value → Copying Value
  | .model n => ofModel n
  | .solver n => once (.solver n) do
    let f ← front n
    match f.base with
    | .model m => newFront { f with base := ← ofModel m }
    | _ => newFront f
  | .implication tag p c name => once (.implication tag p c name) do
    let premise ← deep p
    newImplication premise (← deep c) name
  | v => simple v

end Copying

/-- A deep copy of a value. -/
def deepCopy (v : Value) : Run Value := (Copying.deep v).run' []

end MixedInteger.Script
