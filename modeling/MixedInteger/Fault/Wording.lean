/-
**The wording of faults and remarks.**

Main definitions:

* `MixedInteger.NumberFault.message`, `MixedInteger.Fault.message` — what a refusal says, if it says
  anything;
* `MixedInteger.RegistryFault.message` — what a registry says;
* `MixedInteger.Notice.message`, `MixedInteger.Notice.level` — what a remark says, and how loud.
-/

import MixedInteger.Constraint.Scaling
import MixedInteger.Expression.Rendering
import MixedInteger.Model.Registry

set_option autoImplicit false

namespace MixedInteger

variable {α : Type} [Scalar α] [Display α]

/-- What a refusal of a number function says. -/
def NumberFault.message : NumberFault α → Option String
  | .notPositive x => some ("expected a positive number, got " ++ Display.exactText x)
  | .divisionByZero => none
  | .overflow => none
  | .outOfDomain => none

/-- Two expressions around an operator. -/
def operationText (env : Environment α) (left : Expression α) (operator : String)
    (right : Expression α) : String :=
  "(" ++ left.text env ++ ") " ++ operator ++ " (" ++ right.text env ++ ")"

/-- The start of what an engine says about something that it does not take. -/
def engineRefusal (engine : Engine) (what : String) : String :=
  "backend '" ++ engine.word ++ "' does not support " ++ what

/-- What an engine says about a constraint with products, given by its text. -/
def quadraticWording (engine : Engine) (constraint : String) : String :=
  engineRefusal engine ("quadratic constraint " ++ constraint)

/-- What an engine says about an implication, given by its text. -/
def implicationWording (engine : Engine) (implication : String) : String :=
  engineRefusal engine ("indicator constraint " ++ implication)

/-- What is said of a conclusion with products, given by its text. -/
def conclusionWording (conclusion : String) : String :=
  "indicator implicand " ++ conclusion ++ " must be linear"

/-- What is said of a premise that no expression captures; both texts are given. -/
def premiseWording (implication premise : String) : String :=
  "Cannot reformulate " ++ implication ++ ": implicant " ++ premise ++ " is not reifiable."

/-- What is said of an implication that cannot be replaced. -/
def boundlessText (env : Environment α) (i : Implication α) (side : String) : String :=
  "Cannot reformulate " ++ i.text env ++ ": " ++ i.conclusion.expression.text env ++
    " has no finite " ++ side ++ " bound. Try bounding the domain of the involved variables."

/-- What a refusal of a modeling step says, the variables being called as in `env`. -/
def Fault.message (env : Environment α) : Fault α → Option String
  | .cubicProduct e f =>
    some ("Attempt to create cubic expression " ++ operationText env e "*" f ++ ".")
  | .quarticProduct e f =>
    some ("Attempt to create quartic expression " ++ operationText env e "*" f ++ ".")
  | .variableDivisor e f =>
    some ("Attempt to divide by non-constant expression " ++ operationText env e "/" f ++ ".")
  | .noStore e =>
    some ("Attempt to access the backend of constant expression " ++ e.text env ++ ".")
  | .constantComparison e f =>
    some ("Attempt to create a constraint from constant expressions " ++ e.text env ++ " and " ++
      f.text env ++ ".")
  | .unsatisfiable c lower upper =>
    some ("Constraint " ++ c.text env ++
      " is trivially unsatisfiable: its expression lies in [" ++ Display.text lower ++ ", " ++
      Display.text upper ++ "].")
  | .notBinary e =>
    some ("Attempt to negate possibly non-binary expression " ++ e.text env ++ ".")
  | .notReifiable c => some ("Constraint " ++ c.text env ++ " is not reifiable.")
  | .alwaysSatisfied c => some ("Constraint " ++ c.text env ++ " is always satisfied.")
  | .alwaysViolated c => some ("Constraint " ++ c.text env ++ " is always violated.")
  | .signless c => some ("Constraint " ++ c.text env ++ " cannot be reified.")
  | .premiseNotReifiable i => some (premiseWording (i.text env) (i.premise.text env))
  | .unboundedAbove i => some (boundlessText env i "upper")
  | .unboundedBelow i => some (boundlessText env i "lower")
  | .unboundedTerms c =>
    some ("All variables of " ++ c.text env ++ " must have finite bounds to scale it.")
  | .quadraticConstraint engine c => some (quadraticWording engine (c.text env))
  | .noImplications engine i => some (implicationWording engine (i.text env))
  | .quadraticObjective engine e =>
    some (engineRefusal engine ("quadratic objective " ++ e.text env))
  | .premiseNotEquation c =>
    some ("indicator implicant " ++ c.text env ++ " must be an equation")
  | .premiseNotUnary c =>
    some ("indicator implicant " ++ c.text env ++ " must involve a single variable")
  | .premiseNotBinary c =>
    some ("indicator implicant " ++ c.text env ++ " must involve a binary variable")
  | .premiseNotFixing c =>
    some ("indicator implicant " ++ c.text env ++ " must fix its variable to 0 or 1")
  | .conclusionNotLinear c => some (conclusionWording (c.text env))
  | .unsupportedKind engine kind => some (engineRefusal engine (kind.word ++ " variables"))
  | .emptyRange label => some ("variable '" ++ label ++ "' has lb > ub")
  | .infinityNotPositive => some "infinity must be positive"
  | .number cause => cause.message

/-- What a registry says when it has no maker. -/
def RegistryFault.message : RegistryFault → String
  | .openChoice => "cannot register a factory for the 'any' backend"
  | .nothingRegistered => "No backends are registered."
  | .unavailable e => "Request for " ++ e.word ++ " backend but it is not available."

/-- How loud a remark is. -/
inductive Notice.Level where
  | warning
  | detail
  deriving Repr, DecidableEq

/-- A wide spread is a warning, the rest is detail. -/
def Notice.level : Notice α → Notice.Level
  | .wideSpread .. => .warning
  | .scaled .. => .detail
  | .replaced .. => .detail

/-- What a remark says. -/
def Notice.message (env : Environment α) : Notice α → String
  | .wideSpread limit e low high =>
    "Constraint terms differ more than " ++ Display.text limit ++
      " times - expect numerical issues!: | " ++ e.text env ++ " | in [" ++ Display.text low ++
      ", " ++ Display.text high ++ "]"
  | .scaled before after => "Scaled " ++ before.text env ++ " to " ++ after.text env
  | .replaced i count =>
    "Reformulated " ++ i.text env ++ " into " ++ toString count ++ " constraint(s)"

end MixedInteger
