/-
**What outlasts a session.**

A property of models that every single change keeps is kept by whatever posts to the model, also where
it stops half-way, and so by requests and by runs of them.  The steps of posting are put together here
once and for all, so that a proof about runs has to look at the single changes only.

Main definitions:

* `MixedInteger.Posting.Ensures` — a property of models outlasts a posting, and what the posting
  returns has a property;
* `MixedInteger.Model.Stable` — a property of models that every single change keeps.

Main results:

* `MixedInteger.Posting.ensures_constraint`, `MixedInteger.Posting.ensures_implication` — adding a
  constraint or an implication comes down to recording, one after the other, what takes its place;
* `MixedInteger.Model.Stable.performIn`, `MixedInteger.Model.Stable.runIn` — **what every change keeps
  outlasts every request and every run**, whatever is refused on the way.
-/

import MixedInteger.Model.Session

set_option autoImplicit false

namespace MixedInteger

variable {α β γ : Type}

/-! ### Steps of posting -/

namespace Posting

variable {P : Model α → Prop}

/-- Whatever becomes of a posting, a property of models outlasts it, and what it returns, if it
returns, has a property of its own. -/
def Ensures (P : Model α → Prop) (Q : β → Prop) (p : Posting α β) : Prop :=
  ∀ s, P s.model → P (p.run.run s).2.model ∧ ∀ b, (p.run.run s).1 = .ok b → Q b

theorem ensures_pure {Q : β → Prop} {b : β} (hb : Q b) : Ensures P Q (pure b : Posting α β) := by
  intro s hs
  refine ⟨hs, fun b' h => ?_⟩
  cases h
  exact hb

theorem ensures_throw {Q : β → Prop} {f : Fault α} : Ensures P Q (throw f : Posting α β) :=
  fun _ hs => ⟨hs, fun _ h => nomatch h⟩

theorem ensures_get : Ensures P (fun _ => True) (get : Posting α (PostingState α)) :=
  fun _ hs => ⟨hs, fun _ _ => trivial⟩

theorem ensures_bind {Q : β → Prop} {Q' : γ → Prop} {p : Posting α β} {f : β → Posting α γ}
    (hp : Ensures P Q p) (hf : ∀ b, Q b → Ensures P Q' (f b)) : Ensures P Q' (p >>= f) := by
  intro s hs
  obtain ⟨hmodel, hresult⟩ := hp s hs
  rw [ExceptT.run_bind, StateT.run_bind]
  cases h : p.run.run s with
  | mk r s' =>
      rw [h] at hmodel hresult
      cases r with
      | error e => exact ⟨hmodel, fun _ h => nomatch h⟩
      | ok b => exact hf b (hresult b rfl) s' hmodel

theorem ensures_note (ns : List (Notice α)) :
    Ensures P (fun _ => True) (note ns : Posting α Unit) :=
  fun _ hs => ⟨hs, fun _ _ => trivial⟩

/-- A change that keeps a property where it is not refused keeps it in any case. -/
theorem ensures_change {f : Model α → Except (Fault α) (Model α)}
    (hf : ∀ m m', P m → f m = .ok m' → P m') : Ensures P (fun _ => True) (change f) := by
  intro s hs
  refine ⟨?_, fun _ _ => trivial⟩
  rw [run_change]
  cases h : f s.model with
  | error e => exact hs
  | ok m => exact hf _ _ hs h

theorem ensures_liftExcept (x : Except (Fault α) β) :
    Ensures P (fun b => x = .ok b) (liftExcept x) := by
  cases x with
  | error f => exact ensures_throw
  | ok b => exact ensures_pure rfl

/-- Postings one after the other. -/
theorem ensures_forM {p : γ → Posting α Unit} {cs : List γ}
    (h : ∀ c ∈ cs, Ensures P (fun _ => True) (p c)) : Ensures P (fun _ => True) (cs.forM p) := by
  induction cs with
  | nil => exact ensures_pure trivial
  | cons c rest ih =>
      exact ensures_bind (h c List.mem_cons_self) fun _ _ =>
        ih fun d hd => h d (List.mem_cons_of_mem _ hd)

variable [Scalar α] [Roots α] {env : Environment α} {o : PostingOptions α}

/-- Finding out what is recorded leaves every model as it is. -/
theorem ensures_prepared (c : Constraint α) :
    Ensures P (fun c' => c' = recorded env o c) (prepared env o c) := by
  unfold prepared recorded
  cases ho : o.scaling with
  | none => exact ensures_pure rfl
  | some t =>
      refine ensures_bind (ensures_note _) fun _ _ => ?_
      cases hr : (c.rescale env t).outcome with
      | error f => exact ensures_throw
      | ok r =>
          cases r with
          | none => exact ensures_pure (by simp only [hr])
          | some c' =>
              refine ensures_bind (ensures_note _) fun _ _ => ?_
              exact ensures_pure (by simp only [hr])

/-- Adding a constraint keeps what recording the constraint in its place keeps. -/
theorem ensures_constraint {c : Constraint α}
    (hpost : ∀ m m', P m → m.post (recorded env o c) = .ok m' → P m') :
    Ensures P (fun _ => True) (constraint env o c) := by
  refine ensures_bind (ensures_prepared c) fun c' hc' => ensures_change fun m m' hm h => ?_
  rw [hc'] at h
  exact hpost m m' hm h

/-- Replacing an implication keeps what recording the constraints in its place keeps. -/
theorem ensures_replacing {i : Implication α}
    (hpieces : ∀ cs, i.replacement env = .ok cs → ∀ c ∈ cs, ∀ m m', P m →
      m.post (recorded env o c) = .ok m' → P m') :
    Ensures P (fun _ => True) (replacing env o i) := by
  refine ensures_bind (ensures_liftExcept _) fun cs hcs => ?_
  refine ensures_bind (ensures_note _) fun _ _ => ?_
  exact ensures_forM fun c hc => ensures_constraint (hpieces cs hcs c hc)

/-- Adding an implication keeps what recording it keeps, or recording what takes its place. -/
theorem ensures_implication {i : Implication α}
    (hpieces : ∀ cs, i.replacement env = .ok cs → ∀ c ∈ cs, ∀ m m', P m →
      m.post (recorded env o c) = .ok m' → P m')
    (hnative : ∀ m m', P m → m.postImplication env i = .ok m' → P m') :
    Ensures P (fun _ => True) (implication env o i) := by
  refine ensures_bind ensures_get fun s _ => ?_
  refine ensures_bind (ensures_liftExcept _) fun b _ => ?_
  cases b with
  | false => exact ensures_change hnative
  | true => exact ensures_replacing hpieces

end Posting

/-! ### Requests -/

namespace Session

variable {P : Model α → Prop} {s : Session α}

theorem of_ensures {Q : Unit → Prop} {p : Posting α Unit} (h : Posting.Ensures P Q p)
    (hs : P s.model) : P (s.post p).2.model := (h s.state hs).1

/-- A change of the model is made, or the model stays as it is. -/
theorem of_change {f : Model α → Except (Fault α) (Model α)} (hs : P s.model)
    (hf : ∀ m', f s.model = .ok m' → P m') : P (s.post (Posting.change f)).2.model := by
  simp only [post, model, Posting.run_change]
  cases h : f s.state.model with
  | error e => exact hs
  | ok m => exact hf m h

end Session

/-- Every single change of a model keeps a property. -/
structure Model.Stable [Scalar α] (P : Model α → Prop) : Prop where
  declare : ∀ {m m' : Model α} {kind : Kind} {lower upper : Option α} {name : Option String},
    P m → m.declare kind lower upper name = .ok m' → P m'
  update : ∀ {m : Model α} (slot : Nat) (f : Attributes α → Attributes α),
    P m → P (m.updateVariable slot f)
  post : ∀ {m m' : Model α} {c : Constraint α}, P m → m.post c = .ok m' → P m'
  postImplication : ∀ {env : Environment α} {m m' : Model α} {i : Implication α},
    P m → m.postImplication env i = .ok m' → P m'
  setObjective : ∀ {m m' : Model α} {sense : Sense} {e : Expression α},
    P m → m.setObjective sense e = .ok m' → P m'

namespace Model.Stable

variable [Scalar α] [Roots α] {P : Model α → Prop} {s : Session α}

/-- What every single change keeps outlasts a request, refused or not, in whatever environment it is
made. -/
theorem performIn (hP : Stable P) (hs : P s.model) (env : Environment α) (r : Session.Request α) :
    P (s.performIn env r).2.model := by
  have hupdate : ∀ slot f, P (s.update slot f).2.model := fun slot f =>
    Session.of_change hs fun m' hm => by
      cases hm
      exact hP.update slot f hs
  cases r with
  | declare kind lower upper name => exact Session.of_change hs fun m' hm => hP.declare hs hm
  | setLower slot bound => exact hupdate slot _
  | setUpper slot bound => exact hupdate slot _
  | setKind slot kind => exact hupdate slot _
  | setName slot name => exact hupdate slot _
  | configure options => exact hs
  | setObjective sense e => exact Session.of_change hs fun m' hm => hP.setObjective hs hm
  | add c =>
      exact Session.of_ensures (Posting.ensures_constraint fun m m' => hP.post) hs
  | addImplication i =>
      refine Session.of_ensures (Posting.ensures_implication (fun cs _ c _ m m' => ?_) ?_) hs
      · exact hP.post
      · exact fun m m' => hP.postImplication
  | record c => exact Session.of_change hs fun m' hm => hP.post hs hm
  | recordImplication i => exact Session.of_change hs fun m' hm => hP.postImplication hs hm

/-- **What every single change keeps outlasts a run**, whatever is refused on the way and in whatever
environments. -/
theorem runIn (hP : Stable P) (hs : P s.model) (steps : List (Environment α × Session.Request α)) :
    P (s.runIn steps).model := by
  induction steps generalizing s with
  | nil => exact hs
  | cons step rest ih => exact ih (hP.performIn hs step.1 step.2)

theorem run (hP : Stable P) (hs : P s.model) (requests : List (Session.Request α)) :
    P (s.run requests).model := by
  obtain ⟨steps, -, hrun⟩ := s.exists_runIn_eq requests
  rw [← hrun]
  exact hP.runIn hs steps

end Model.Stable

end MixedInteger
