/-
**Why a modeling step is refused.**

Every refusal is a cause that carries the objects it speaks of.  The wording is in
`Fault/Wording.lean`, since it depends on how the variables are called at the moment.

Main definitions:

* `MixedInteger.NumberFault` — refusals of number functions;
* `MixedInteger.Fault` — refusals of modeling steps.
-/

import MixedInteger.Constraint.Basic
import MixedInteger.Engine

set_option autoImplicit false

namespace MixedInteger

/-- Why a number has no result. -/
inductive NumberFault (α : Type) where
  /-- A division by zero. -/
  | divisionByZero
  /-- The result is out of range. -/
  | overflow
  /-- The function is not defined there. -/
  | outOfDomain
  /-- A positive number was asked for. -/
  | notPositive (value : α)

/-- The same reason, told of another number. -/
def NumberFault.map {α β : Type} (f : α → β) : NumberFault α → NumberFault β
  | divisionByZero => .divisionByZero
  | overflow => .overflow
  | outOfDomain => .outOfDomain
  | notPositive value => .notPositive (f value)

/-- Why a modeling step is refused. -/
inductive Fault (α : Type) where
  /-- A product of degree three. -/
  | cubicProduct (left right : Expression α)
  /-- A product of degree four. -/
  | quarticProduct (left right : Expression α)
  /-- A division by an expression that mentions variables. -/
  | variableDivisor (left right : Expression α)
  /-- The store of a constant was asked for. -/
  | noStore (e : Expression α)
  /-- Two constants were compared. -/
  | constantComparison (left right : Expression α)
  /-- A constraint that nothing within the bounds satisfies. -/
  | unsatisfiable (c : Constraint α) (lower upper : α)
  /-- The negation of something that is not a truth value. -/
  | notBinary (e : Expression α)
  /-- A constraint whose truth no expression captures. -/
  | notReifiable (c : Constraint α)
  /-- A constraint to reify that holds everywhere. -/
  | alwaysSatisfied (c : Constraint α)
  /-- A constraint to reify that holds nowhere. -/
  | alwaysViolated (c : Constraint α)
  /-- A constraint to reify whose expression has no sign. -/
  | signless (c : Constraint α)
  /-- An implication whose premise no expression captures. -/
  | premiseNotReifiable (i : Implication α)
  /-- An implication whose conclusion is unbounded above. -/
  | unboundedAbove (i : Implication α)
  /-- An implication whose conclusion is unbounded below. -/
  | unboundedBelow (i : Implication α)
  /-- A constraint to scale with an unbounded term. -/
  | unboundedTerms (c : Constraint α)
  /-- The engine takes no products in constraints. -/
  | quadraticConstraint (engine : Engine) (c : Constraint α)
  /-- The engine takes no implications. -/
  | noImplications (engine : Engine) (i : Implication α)
  /-- The engine takes no products in the objective. -/
  | quadraticObjective (engine : Engine) (e : Expression α)
  /-- A premise has to be an equation. -/
  | premiseNotEquation (c : Constraint α)
  /-- A premise has to mention one variable. -/
  | premiseNotUnary (c : Constraint α)
  /-- A premise has to be about a binary variable. -/
  | premiseNotBinary (c : Constraint α)
  /-- A premise has to fix its variable to zero or one. -/
  | premiseNotFixing (c : Constraint α)
  /-- A conclusion has to be linear. -/
  | conclusionNotLinear (c : Constraint α)
  /-- The engine takes no variables of a kind. -/
  | unsupportedKind (engine : Engine) (kind : Kind)
  /-- The lower bound of a new variable exceeds its upper bound. -/
  | emptyRange (label : String)
  /-- The infinity of a store has to be positive. -/
  | infinityNotPositive
  /-- A number has no result. -/
  | number (cause : NumberFault α)

/-- Where two computations one after the other succeed, so does the first. -/
theorem exists_of_bind_eq_ok {ε β γ : Type} {x : Except ε β} {f : β → Except ε γ} {c : γ}
    (h : x >>= f = .ok c) : ∃ b, x = .ok b ∧ f b = .ok c := by
  cases x with
  | error e => cases h
  | ok b => exact ⟨b, rfl, h⟩

/-- Where one computation succeeds, and the next one does with its result, so do both together. -/
theorem bind_eq_ok {ε β γ : Type} {x : Except ε β} {f : β → Except ε γ} {b : β} {c : γ}
    (hx : x = .ok b) (hf : f b = .ok c) : x >>= f = .ok c := by
  rw [hx]
  exact hf

end MixedInteger
