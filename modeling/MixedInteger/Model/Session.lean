/-
**Building a model request by request.**

A session is a model that is being built together with the way it is posted to.  Requests declare
variables and change what they are like, change the way of posting, and add or record constraints and
implications; a request that is refused leaves what was recorded before the refusal.  The session is
about one model, whose variables have the store zero.

Main definitions:

* `MixedInteger.Session` — a model, the remarks made so far, and how it is posted to;
* `MixedInteger.Session.Request`, `MixedInteger.Session.perform` — requests, one at a time;
* `MixedInteger.Session.performIn` — a request where the model is one of several;
* `MixedInteger.Session.run`, `MixedInteger.Session.runIn` — one after the other, for a model on its own
  and for one of several;
* `MixedInteger.Session.accepts` — whether no addition of a run is refused.

Main results:

* `MixedInteger.Session.Keeps.of_perform` — requests that add nothing leave what was recorded.
-/

import MixedInteger.Model.Posting

set_option autoImplicit false

namespace MixedInteger

/-- A model that is being built, the remarks made so far, and how it is posted to. -/
structure Session (α : Type) where
  state : PostingState α
  options : PostingOptions α

namespace Session

variable {α : Type}

/-- The model as it is. -/
def model (s : Session α) : Model α := s.state.model

/-- A session that begins with a model. -/
def start (m : Model α) (o : PostingOptions α) : Session α := ⟨⟨m, []⟩, o⟩

/-- What may be asked for. -/
inductive Request (α : Type) where
  | declare (kind : Kind) (lower upper : Option α) (name : Option String)
  | setLower (slot : Nat) (bound : α)
  | setUpper (slot : Nat) (bound : α)
  | setKind (slot : Nat) (kind : Kind)
  | setName (slot : Nat) (name : Option String)
  | configure (options : PostingOptions α)
  | setObjective (sense : Sense) (e : Expression α)
  | add (c : Constraint α)
  | addImplication (i : Implication α)
  | record (c : Constraint α)
  | recordImplication (i : Implication α)

/-- Whether a request adds or records a constraint or an implication. -/
def Request.isAddition : Request α → Bool
  | .add _ | .addImplication _ | .record _ | .recordImplication _ => true
  | _ => false

/-- Posts to the model; what was recorded before a refusal stays. -/
def post (s : Session α) (p : Posting α Unit) : Except (Fault α) Unit × Session α :=
  let r := p.run.run s.state
  (r.1, { s with state := r.2 })

/-- Posting that is not refused, apart from the session. -/
theorem run_of_post {s s' : Session α} {p : Posting α Unit} (h : s.post p = (.ok (), s')) :
    p.run.run s.state = (.ok (), s'.state) := by
  unfold post at h
  obtain ⟨h1, rfl⟩ := Prod.mk.inj h
  exact Prod.ext h1 rfl

/-- Changes the attributes of a variable. -/
def update (s : Session α) (slot : Nat) (f : Attributes α → Attributes α) :
    Except (Fault α) Unit × Session α :=
  s.post (Posting.change fun m => return m.updateVariable slot f)

variable [Scalar α]

/-- The variables as they are. -/
def environment (s : Session α) : Environment α := .ofModels [s.model]

variable [Roots α]

/-- The outcome of a request, and the session after it, where the variables are as an environment has
them; the model may be one of several, which make the environment together. -/
def performIn (env : Environment α) (s : Session α) :
    Request α → Except (Fault α) Unit × Session α
  | .declare kind lower upper name => s.post (Posting.change (·.declare kind lower upper name))
  | .setLower slot bound => s.update slot fun a => { a with lower := bound }
  | .setUpper slot bound => s.update slot fun a => { a with upper := bound }
  | .setKind slot kind => s.update slot fun a => { a with kind := kind }
  | .setName slot name => s.update slot fun a => { a with name := name }
  | .configure options => (.ok (), { s with options := options })
  | .setObjective sense e => s.post (Posting.change (·.setObjective sense e))
  | .add c => s.post (Posting.constraint env s.options c)
  | .addImplication i => s.post (Posting.implication env s.options i)
  | .record c => s.post (Posting.change (·.post c))
  | .recordImplication i => s.post (Posting.change fun m => m.postImplication env i)

/-- The outcome of a request, and the session after it; a model on its own makes its environment. -/
def perform (s : Session α) (r : Request α) : Except (Fault α) Unit × Session α :=
  s.performIn s.environment r

theorem performIn_environment (s : Session α) (r : Request α) :
    s.performIn s.environment r = s.perform r := rfl

/-- The session after requests, whatever became of them. -/
def run (s : Session α) (requests : List (Request α)) : Session α :=
  requests.foldl (fun s r => (s.perform r).2) s

/-- The same where every request finds the variables in an environment of its own. -/
def runIn (s : Session α) (steps : List (Environment α × Request α)) : Session α :=
  steps.foldl (fun s step => (s.performIn step.1 step.2).2) s

/-- A run of a model on its own finds the variables in some environments. -/
theorem exists_runIn_eq (s : Session α) (requests : List (Request α)) :
    ∃ steps, steps.map Prod.snd = requests ∧ s.runIn steps = s.run requests := by
  induction requests generalizing s with
  | nil => exact ⟨[], rfl, rfl⟩
  | cons r rest ih =>
      obtain ⟨steps, hsteps, hrun⟩ := ih (s.perform r).2
      exact ⟨(s.environment, r) :: steps, congrArg (r :: ·) hsteps, hrun⟩

/-- Whether no addition of a run is refused; other requests may be. -/
def accepts : Session α → List (Request α) → Bool
  | _, [] => true
  | s, r :: rest => (!r.isAddition || (s.perform r).1.isOk) && accepts (s.perform r).2 rest

/-! ### What requests leave alone -/

/-- Two models have recorded the same, and measure bounds against the same infinity. -/
structure Keeps (m m' : Model α) : Prop where
  infinity : m'.infinity = m.infinity
  constraints : m'.constraints = m.constraints
  implications : m'.implications = m.implications

omit [Scalar α] [Roots α] in
theorem Keeps.refl (m : Model α) : Keeps m m := ⟨rfl, rfl, rfl⟩

omit [Scalar α] [Roots α] in
/-- A change of the model, refused or not, leaves alone what it leaves alone when it is not. -/
theorem Keeps.of_change {f : Model α → Except (Fault α) (Model α)} (s : Session α)
    (h : ∀ m', f s.model = .ok m' → Keeps s.model m') :
    Keeps s.model (s.post (Posting.change f)).2.model := by
  simp only [post, model, Posting.run_change]
  cases hf : f s.state.model with
  | error e => exact Keeps.refl _
  | ok m => exact h m hf

/-- A request that adds nothing leaves alone what was recorded. -/
theorem Keeps.of_perform (s : Session α) {r : Request α} (h : r.isAddition = false) :
    Keeps s.model (s.perform r).2.model := by
  have hupdate : ∀ slot f, Keeps s.model (s.update slot f).2.model := by
    intro slot f
    apply Keeps.of_change
    intro m' hm
    cases hm
    exact ⟨rfl, rfl, rfl⟩
  cases r with
  | declare kind lower upper name =>
      apply Keeps.of_change
      intro m' hm
      obtain ⟨a, rfl⟩ := Model.eq_of_declare hm
      exact ⟨rfl, rfl, rfl⟩
  | setLower slot bound => exact hupdate slot _
  | setUpper slot bound => exact hupdate slot _
  | setKind slot kind => exact hupdate slot _
  | setName slot name => exact hupdate slot _
  | configure options => exact Keeps.refl _
  | setObjective sense e =>
      apply Keeps.of_change
      intro m' hm
      obtain rfl := Model.eq_of_setObjective hm
      exact ⟨rfl, rfl, rfl⟩
  | add c => cases h
  | addImplication i => cases h
  | record c => cases h
  | recordImplication i => cases h

end Session

end MixedInteger
