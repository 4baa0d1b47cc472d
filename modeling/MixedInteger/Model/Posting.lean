/-
**Posting through a policy.**

What is added to a model may be recorded as it is, replaced by plain constraints, or scaled first.  A
policy and the settings decide; every way leaves the same feasible assignments.

The work is done in a small monad that keeps what was recorded and remarked before a refusal.

Main definitions:

* `MixedInteger.Policy` — what to do with implications;
* `MixedInteger.Posting` — the state and the faults of posting;
* `MixedInteger.Posting.constraint`, `MixedInteger.Posting.implication` — adding to the model.

Main results:

* `MixedInteger.Posting.grow_of_constraint`, `MixedInteger.Posting.grow_of_implication` — what is
  recorded when nothing is refused.
-/

import MixedInteger.Constraint.Scaling
import MixedInteger.Implication.BigM
import MixedInteger.Model.Basic

set_option autoImplicit false

namespace MixedInteger

/-- What to do with implications: always replace them, replace those that the engine does not take,
or leave them to the engine. -/
inductive Policy where
  | replace
  | replaceUnsupported
  | native
  deriving Repr, DecidableEq

/-- The word for a policy. -/
def Policy.word : Policy → String
  | replace => "reformulate"
  | replaceUnsupported => "reformulate_if_unsupported"
  | native => "native"

/-- All policies in the order of their declaration. -/
def Policy.all : List Policy := [replace, replaceUnsupported, native]

/-- The policy that a word stands for. -/
def Policy.ofWord? (w : String) : Option Policy := all.find? (·.word == w)

theorem Policy.ofWord?_word (p : Policy) : ofWord? p.word = some p := by cases p <;> rfl

/-- How constraints are posted: whether they are scaled, and by which thresholds. -/
structure PostingOptions (α : Type) where
  policy : Policy
  scaling : Option (Thresholds α)

/-- A model and the remarks made while posting to it, oldest first. -/
structure PostingState (α : Type) where
  model : Model α
  notices : List (Notice α)

/-- Posting changes the model and leaves remarks, both of which outlast a refusal. -/
abbrev Posting (α : Type) := ExceptT (Fault α) (StateM (PostingState α))

namespace Posting

variable {α : Type}

/-- Leaves remarks. -/
def note (ns : List (Notice α)) : Posting α Unit :=
  modify fun s => { s with notices := s.notices ++ ns }

/-- Changes the model, or refuses to. -/
def change (f : Model α → Except (Fault α) (Model α)) : Posting α Unit := do
  match f (← get).model with
  | .ok m => modify fun s => { s with model := m }
  | .error f => throw f

/-- Where two steps of posting succeed one after the other, so does the first. -/
theorem exists_of_bind_run {β γ : Type} {p : Posting α β} {f : β → Posting α γ} {c : γ}
    {s s'' : PostingState α} (h : (p >>= f).run.run s = (.ok c, s'')) :
    ∃ b s', p.run.run s = (.ok b, s') ∧ (f b).run.run s' = (.ok c, s'') := by
  rw [ExceptT.run_bind, StateT.run_bind] at h
  cases hp : p.run.run s with
  | mk r s' =>
      rw [hp] at h
      cases r with
      | error e => cases h
      | ok b => exact ⟨b, s', rfl, h⟩

/-- Remarks leave the model as it is. -/
theorem model_of_note {ns : List (Notice α)} {s s' : PostingState α}
    (h : (note ns).run.run s = (.ok (), s')) : s'.model = s.model := by
  cases h
  rfl

/-- A change of the model, and what is left when it is refused. -/
theorem run_change (f : Model α → Except (Fault α) (Model α)) (s : PostingState α) :
    (change f).run.run s =
      match f s.model with
      | .ok m => (.ok (), { s with model := m })
      | .error e => (.error e, s) := by
  have h : (change f).run.run s =
      (match f s.model with
        | .ok m => modify fun s => { s with model := m }
        | .error e => throw e : Posting α Unit).run.run s := rfl
  rw [h]
  cases f s.model <;> rfl

theorem model_of_change {f : Model α → Except (Fault α) (Model α)} {s s' : PostingState α}
    (h : (change f).run.run s = (.ok (), s')) : f s.model = .ok s'.model := by
  rw [run_change] at h
  cases hf : f s.model with
  | error e =>
      rw [hf] at h
      cases h
  | ok m =>
      rw [hf] at h
      cases h
      rfl

variable [Scalar α] [Roots α]

/-- The constraint that is recorded in the place of `c`: itself unless scaling is on. -/
def prepared (env : Environment α) (o : PostingOptions α) (c : Constraint α) :
    Posting α (Constraint α) :=
  match o.scaling with
  | none => return c
  | some t => do
    let r := c.rescale env t
    note r.notices
    match r.outcome with
    | .error f => throw f
    | .ok none => return c
    | .ok (some c') =>
      note [.scaled c c']
      return c'

/-- What is recorded in the place of a constraint, unless scaling fails. -/
def recorded (env : Environment α) (o : PostingOptions α) (c : Constraint α) : Constraint α :=
  match o.scaling with
  | none => c
  | some t =>
    match (c.rescale env t).outcome with
    | .ok (some c') => c'
    | _ => c

/-- What is recorded is the constraint itself or a power of two times it. -/
theorem eq_or_scale_of_recorded (env : Environment α) (o : PostingOptions α) (c : Constraint α) :
    recorded env o c = c ∨ ∃ n a, Roots.powerOfTwo n = .ok a ∧
      recorded env o c = ⟨c.relation, c.expression.scale a, c.name⟩ := by
  unfold recorded
  split
  · exact Or.inl rfl
  · split
    · next c' h => exact Or.inr (Constraint.eq_of_rescale h)
    · exact Or.inl rfl

/-- Finding out what is recorded leaves the model as it is. -/
theorem eq_recorded_of_prepared {env : Environment α} {o : PostingOptions α} {c c' : Constraint α}
    {s s' : PostingState α} (h : (prepared env o c).run.run s = (.ok c', s')) :
    s'.model = s.model ∧ c' = recorded env o c := by
  unfold prepared at h
  unfold recorded
  cases ho : o.scaling with
  | none =>
      rw [ho] at h
      cases h
      exact ⟨rfl, rfl⟩
  | some t =>
      rw [ho] at h
      obtain ⟨u, s1, h1, h⟩ := exists_of_bind_run h
      have hs1 := model_of_note h1
      cases hr : (c.rescale env t).outcome with
      | error f =>
          rw [hr] at h
          cases h
      | ok r =>
          rw [hr] at h
          cases r with
          | none =>
              cases h
              exact ⟨hs1, by simp only [hr]⟩
          | some d =>
              obtain ⟨u, s2, h2, h⟩ := exists_of_bind_run h
              have hs2 := model_of_note h2
              cases h
              exact ⟨hs2.trans hs1, by simp only [hr]⟩

/-- Adds a constraint. -/
def constraint (env : Environment α) (o : PostingOptions α) (c : Constraint α) :
    Posting α Unit := do
  let c' ← prepared env o c
  change (·.post c')

/-- Adding a constraint records one. -/
theorem grow_of_constraint {env : Environment α} {o : PostingOptions α} {c : Constraint α}
    {s s' : PostingState α} (h : (constraint env o c).run.run s = (.ok (), s')) :
    s'.model = s.model.grow [recorded env o c] [] := by
  unfold constraint at h
  obtain ⟨c', s1, h1, hpost⟩ := exists_of_bind_run h
  obtain ⟨hm, rfl⟩ := eq_recorded_of_prepared h1
  rw [← hm]
  exact Model.eq_of_post (model_of_change hpost)

/-- Adding constraints one after the other records as many. -/
theorem grow_of_constraints {env : Environment α} {o : PostingOptions α} {cs : List (Constraint α)}
    {s s' : PostingState α} (h : (cs.forM (constraint env o)).run.run s = (.ok (), s')) :
    s'.model = s.model.grow (cs.map (recorded env o)) [] := by
  induction cs generalizing s with
  | nil =>
      cases h
      exact (Model.grow_nil _).symm
  | cons c rest ih =>
      obtain ⟨u, s1, hfirst, hrest⟩ := exists_of_bind_run h
      rw [ih hrest, grow_of_constraint hfirst, Model.grow_grow]
      rfl

/-- Whether an implication is to be replaced by plain constraints.  Scaling always asks for it. -/
def replaces (env : Environment α) (o : PostingOptions α) (m : Model α) (i : Implication α) :
    Except (Fault α) Bool := do
  if o.policy == .replace || o.scaling.isSome then return true
  if o.policy == .replaceUnsupported then
    if m.capabilities.implications then return !(← i.isNative env) else return true
  return false

/-- A computation without state. -/
def liftExcept {α β : Type} (x : Except (Fault α) β) : Posting α β :=
  match x with
  | .ok b => return b
  | .error f => throw f

omit [Scalar α] [Roots α] in
theorem eq_of_liftExcept {β : Type} {x : Except (Fault α) β} {b : β} {s s' : PostingState α}
    (h : (liftExcept x).run.run s = (.ok b, s')) : x = .ok b ∧ s' = s := by
  cases x with
  | error f => cases h
  | ok a =>
      cases h
      exact ⟨rfl, rfl⟩

/-- Adds the constraints that take the place of an implication, one after the other. -/
def replacing (env : Environment α) (o : PostingOptions α) (i : Implication α) : Posting α Unit := do
  let pieces ← liftExcept (i.replacement env)
  note [.replaced i pieces.length]
  pieces.forM (constraint env o)

/-- That records these constraints. -/
theorem grow_of_replacing {env : Environment α} {o : PostingOptions α} {i : Implication α}
    {s s' : PostingState α} (h : (replacing env o i).run.run s = (.ok (), s')) :
    ∃ P, i.replacement env = .ok P ∧ s'.model = s.model.grow (P.map (recorded env o)) [] := by
  obtain ⟨P, s1, h1, hnote⟩ := exists_of_bind_run h
  obtain ⟨hP, rfl⟩ := eq_of_liftExcept h1
  obtain ⟨u, s2, h2, hpieces⟩ := exists_of_bind_run hnote
  exact ⟨P, hP, by rw [grow_of_constraints hpieces, model_of_note h2]⟩

/-- Adds an implication. -/
def implication (env : Environment α) (o : PostingOptions α) (i : Implication α) :
    Posting α Unit := do
  if ← liftExcept (replaces env o (← get).model i) then replacing env o i
  else change (·.postImplication env i)

/-- Adding an implication records the constraints that take its place, or the implication itself. -/
theorem grow_of_implication {env : Environment α} {o : PostingOptions α} {i : Implication α}
    {s s' : PostingState α} (h : (implication env o i).run.run s = (.ok (), s')) :
    (∃ P, i.replacement env = .ok P ∧ s'.model = s.model.grow (P.map (recorded env o)) []) ∨
      s'.model = s.model.grow [] [i] := by
  unfold implication at h
  obtain ⟨t, s0, h0, hrest⟩ := exists_of_bind_run h
  cases h0
  obtain ⟨b, s1, h1, hchoice⟩ := exists_of_bind_run hrest
  obtain ⟨-, rfl⟩ := eq_of_liftExcept h1
  split at hchoice
  · exact Or.inl (grow_of_replacing hchoice)
  · exact Or.inr (Model.eq_of_postImplication (model_of_change hchoice))

end Posting

end MixedInteger
