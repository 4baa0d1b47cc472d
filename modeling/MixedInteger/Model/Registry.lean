/-
**Makers of models by engine.**

A registry says, for each engine, what makes its models.  The engine that records in memory has a
maker of its own, which enters the registry the first time that the registry is asked what it offers,
unless another maker has taken the place by then.

Main definitions:

* `MixedInteger.Registry` — the registry, over any type of makers;
* `MixedInteger.Registry.register`, `MixedInteger.Registry.unregister` — changing it;
* `MixedInteger.Registry.settle` — the registry as it answers;
* `MixedInteger.Registry.offers`, `MixedInteger.Registry.maker` — its answers;
* `MixedInteger.Registry.Call`, `MixedInteger.Registry.perform`, `MixedInteger.Registry.run` — what may
  be asked of it, one thing after the other.

Main results:

* `MixedInteger.Registry.settle_settle` — settling twice is settling once.
-/

import MixedInteger.Engine

set_option autoImplicit false

namespace MixedInteger

/-- Makers by engine, and whether the built-in one has entered. -/
structure Registry (μ : Type) where
  makers : Engine → Option μ
  settled : Bool

/-- Why a registry has no maker. -/
inductive RegistryFault where
  /-- A maker was given for an engine that leaves the choice open. -/
  | openChoice
  /-- There are no makers at all. -/
  | nothingRegistered
  /-- There is no maker for the engine. -/
  | unavailable (engine : Engine)
  deriving Repr, DecidableEq

namespace Registry

variable {μ : Type}

/-- The registry before anything happened to it. -/
def initial : Registry μ := ⟨fun _ => none, false⟩

/-- Sets or removes a maker. -/
def set (r : Registry μ) (e : Engine) (maker : Option μ) : Registry μ :=
  { r with makers := fun x => if x = e then maker else r.makers x }

/-- Gives an engine a maker. -/
def register (r : Registry μ) (e : Engine) (maker : μ) : Except RegistryFault (Registry μ) :=
  if e = .any then throw .openChoice else return r.set e (some maker)

/-- Takes the maker from an engine. -/
def unregister (r : Registry μ) (e : Engine) : Registry μ := r.set e none

/-- The registry as it answers questions: the built-in maker has entered. -/
def settle (builtin : μ) (r : Registry μ) : Registry μ :=
  if r.settled then r
  else { r.set .memory (some ((r.makers .memory).getD builtin)) with settled := true }

theorem settle_settle (builtin : μ) (r : Registry μ) :
    (r.settle builtin).settle builtin = r.settle builtin := by
  unfold settle
  by_cases h : r.settled = true <;> simp [h]

/-- The engines that a settled registry offers, the preferred ones first. -/
def offered (r : Registry μ) : List Engine :=
  Engine.preference.filter fun e => (r.makers e).isSome

/-- Whether a settled registry offers an engine; any engine is offered if one is. -/
def offers (r : Registry μ) (e : Engine) : Bool :=
  if e = .any then !r.offered.isEmpty else r.offered.contains e

/-- The engine that a settled registry uses when asked for `e`. -/
def choose (r : Registry μ) (e : Engine) : Except RegistryFault Engine :=
  if e = .any then
    match r.offered with
    | [] => throw .nothingRegistered
    | first :: _ => return first
  else if r.offered.contains e then return e
  else throw (.unavailable e)

/-- The maker that a settled registry uses when asked for `e`. -/
def maker (r : Registry μ) (e : Engine) : Except RegistryFault μ := do
  let chosen ← r.choose e
  match r.makers chosen with
  | some m => return m
  | none => throw (.unavailable chosen)

/-! ### One call after the other -/

/-- What may be asked of a registry. -/
inductive Call (μ : Type) where
  | register (e : Engine) (maker : μ)
  | unregister (e : Engine)
  | list
  | ask (e : Engine)
  | create (e : Engine)

/-- What a registry answers. -/
inductive Answer (μ : Type) where
  | nothing
  | engines (es : List Engine)
  | truth (offered : Bool)
  | made (maker : μ)

/-- The answer to a call, and the registry after it.  A question settles the registry. -/
def perform (builtin : μ) (r : Registry μ) :
    Call μ → Except RegistryFault (Answer μ) × Registry μ
  | .register e maker =>
    match r.register e maker with
    | .ok r' => (.ok .nothing, r')
    | .error f => (.error f, r)
  | .unregister e => (.ok .nothing, r.unregister e)
  | .list => (.ok (.engines (r.settle builtin).offered), r.settle builtin)
  | .ask e => (.ok (.truth ((r.settle builtin).offers e)), r.settle builtin)
  | .create e => (((r.settle builtin).maker e).map .made, r.settle builtin)

/-- The registry after calls, whatever became of them, from the beginning. -/
def run (builtin : μ) (calls : List (Call μ)) : Registry μ :=
  calls.foldl (fun r c => (r.perform builtin c).2) initial

end Registry

end MixedInteger
