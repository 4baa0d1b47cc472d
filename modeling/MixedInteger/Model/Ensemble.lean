/-
**Several models side by side.**

Models are made one after the other; the store of a variable is the place of the model that owns it.  A
request is addressed to one model and comes in some way of posting, so that several ways may be in use for
one model.  What is posted to a model may mention the variables of another one: nothing asks for the store
of a variable, and a snapshot names it by its slot alone.

Main definitions:

* `MixedInteger.Ensemble` — models side by side;
* `MixedInteger.Ensemble.Request`, `MixedInteger.Ensemble.perform`, `MixedInteger.Ensemble.run` — requests
  to one of them, and runs of requests.
-/

import MixedInteger.Model.Session

set_option autoImplicit false

namespace MixedInteger

/-- Models side by side, in the order in which they were made. -/
structure Ensemble (α : Type) where
  models : List (Model α)

namespace Ensemble

variable {α : Type}

/-- No models. -/
def empty : Ensemble α := ⟨[]⟩

/-- What may be asked for: one more model, or something of one model in a way of posting. -/
inductive Request (α : Type) where
  | create (engine : Engine) (capabilities : Capabilities) (infinity : α)
  | ask (place : Nat) (options : PostingOptions α) (request : Session.Request α)

variable [Scalar α]

/-- The variables of all models as they are. -/
def environment (s : Ensemble α) : Environment α := .ofModels s.models

variable [Roots α]

/-- The outcome of a request, and the models after it.  Where there is no model, nothing happens. -/
def perform (s : Ensemble α) : Request α → Except (Fault α) Unit × Ensemble α
  | .create engine capabilities infinity =>
    match Model.make engine capabilities infinity with
    | .ok m => (.ok (), ⟨s.models ++ [m]⟩)
    | .error f => (.error f, s)
  | .ask place options request =>
    match s.models[place]? with
    | some m =>
      let (outcome, session) := (Session.start m options).performIn s.environment request
      (outcome, ⟨s.models.set place session.model⟩)
    | none => (.ok (), s)

/-- The models after requests, whatever became of them. -/
def run (s : Ensemble α) (requests : List (Request α)) : Ensemble α :=
  requests.foldl (fun s r => (s.perform r).2) s

end Ensemble

end MixedInteger
