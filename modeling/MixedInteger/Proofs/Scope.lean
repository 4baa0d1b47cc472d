/-
**A model speaks of its own variables.**

Variables are declared one after the other and never taken away.  If every request of a session speaks
of variables that have been declared by then, so does everything that the model has recorded: scaling a
constraint brings in no variables, and the constraints that take the place of an implication have the
variables of the implication.

Main definitions:

* `MixedInteger.Model.Declares` — a variable of a model;
* `MixedInteger.Model.Closed` — everything recorded speaks of variables of the model;
* `MixedInteger.Model.Speaks` — everything recorded speaks of variables with some property;
* `MixedInteger.Session.Scoped` — a run whose requests speak of variables of the model.

Main results:

* `MixedInteger.Implication.mentions_of_replacement` — the variables of a replacement;
* `MixedInteger.Session.speaks_performIn` — a request about variables with some property;
* `MixedInteger.Session.closed_run` — **a run of such requests**.
-/

import MixedInteger.Proofs.Invariance

set_option autoImplicit false

namespace MixedInteger

variable {α : Type}

/-! ### Variables of replacements -/

section Variables

variable [Scalar α] {env : Environment α}

/-- What captures a constraint speaks of its variables. -/
theorem Constraint.mem_vars_of_reified {c : Constraint α} {r : Expression α} {v : Variable}
    (h : c.reified env = .ok r) (hv : v ∈ r.vars) : v ∈ c.expression.vars := by
  obtain ⟨-, -, -, ⟨-, rfl⟩ | ⟨-, rfl⟩⟩ := Constraint.eq_of_reified h
  · exact hv
  · exact Expression.mem_vars_of_mem_scale hv

namespace Implication

theorem mem_vars_of_upperPart {e r : Expression α} {P : List (Constraint α)}
    (h : upperPart env e r = .ok P) :
    ∀ c ∈ P, ∀ v ∈ c.expression.vars, v ∈ e.vars ∨ v ∈ r.vars := by
  intro c hc v hv
  rcases eq_of_upperPart h with rfl | rfl
  · cases hc
  · obtain rfl := List.mem_singleton.1 hc
    exact (Expression.mem_or_mem_vars_of_mem_sub hv).imp_right Expression.mem_vars_of_mem_scale

theorem mem_vars_of_lowerPart {e r : Expression α} {P : List (Constraint α)}
    (h : lowerPart env e r = .ok P) :
    ∀ c ∈ P, ∀ v ∈ c.expression.vars, v ∈ e.vars ∨ v ∈ r.vars := by
  intro c hc v hv
  rcases eq_of_lowerPart h with rfl | rfl
  · cases hc
  · obtain rfl := List.mem_singleton.1 hc
    exact (Expression.mem_or_mem_vars_of_mem_sub hv).symm.imp_right Expression.mem_vars_of_mem_scale

/-- The constraints that take the place of an implication speak of its variables. -/
theorem mentions_of_replacement {i : Implication α} {P : List (Constraint α)}
    (h : i.replacement env = .ok P) : ∀ c ∈ P, ∀ v ∈ c.expression.vars, i.Mentions v := by
  obtain ⟨-, r, above, hr, habove, hcase⟩ := eq_of_replacement h
  have hmentions : ∀ v, v ∈ i.conclusion.expression.vars ∨ v ∈ r.vars → i.Mentions v := fun v hv =>
    hv.symm.imp_left (Constraint.mem_vars_of_reified hr)
  intro c hc v hv
  rcases hcase with ⟨-, rfl⟩ | ⟨-, -, below, hbelow, rfl⟩
  · exact hmentions v (mem_vars_of_upperPart habove c hc v hv)
  · rcases List.mem_append.1 hc with hc | hc
    · exact hmentions v (mem_vars_of_upperPart habove c hc v hv)
    · exact hmentions v (mem_vars_of_lowerPart hbelow c hc v hv)

end Implication

/-- Scaling brings in no variables. -/
theorem Posting.mem_vars_of_recorded [Roots α] {o : PostingOptions α} {c : Constraint α}
    {v : Variable} (h : v ∈ (recorded env o c).expression.vars) : v ∈ c.expression.vars := by
  rcases eq_or_scale_of_recorded env o c with hc | ⟨n, a, -, hc⟩
  · rwa [hc] at h
  · rw [hc] at h
    exact Expression.mem_vars_of_mem_scale h

end Variables

/-! ### Models that speak of their own variables -/

namespace Model

/-- A variable of a model: its slot is taken.  The store of a model that stands alone is zero. -/
def Declares (m : Model α) (v : Variable) : Prop := v.store = 0 ∧ v.slot < m.size

instance (m : Model α) (v : Variable) : Decidable (m.Declares v) :=
  inferInstanceAs (Decidable (v.store = 0 ∧ v.slot < m.size))

/-- Everything that a model has recorded speaks of its own variables. -/
structure Closed (m : Model α) : Prop where
  constraints : ∀ c ∈ m.constraints, ∀ v ∈ c.expression.vars, m.Declares v
  implications : ∀ i ∈ m.implications, ∀ v, i.Mentions v → m.Declares v
  objective : ∀ o ∈ m.objective, ∀ v ∈ o.2.vars, m.Declares v

theorem closed_empty (engine : Engine) (capabilities : Capabilities) (infinity : α) :
    (empty engine capabilities infinity).Closed :=
  ⟨by simp [empty], by simp [empty], by simp [empty]⟩

/-- A variable that has been declared stays. -/
theorem Declares.of_size_le {m m' : Model α} {v : Variable} (h : m.Declares v)
    (hsize : m.size ≤ m'.size) : m'.Declares v := ⟨h.1, Nat.lt_of_lt_of_le h.2 hsize⟩

/-! ### What is recorded speaks of some variables -/

/-- Everything that a model has recorded speaks of variables with a property. -/
structure Speaks (P : Variable → Prop) (m : Model α) : Prop where
  constraints : ∀ c ∈ m.constraints, ∀ v ∈ c.expression.vars, P v
  implications : ∀ i ∈ m.implications, ∀ v, i.Mentions v → P v
  objective : ∀ o ∈ m.objective, ∀ v ∈ o.2.vars, P v

variable {P Q : Variable → Prop} {m m' : Model α}

theorem speaks_empty (engine : Engine) (capabilities : Capabilities) (infinity : α) :
    (empty engine capabilities infinity).Speaks P :=
  ⟨by simp [empty], by simp [empty], by simp [empty]⟩

theorem Closed.speaks (h : m.Closed) : m.Speaks m.Declares :=
  ⟨h.constraints, h.implications, h.objective⟩

theorem Speaks.closed (h : m.Speaks m.Declares) : m.Closed :=
  ⟨h.constraints, h.implications, h.objective⟩

/-- A weaker property will do. -/
theorem Speaks.imp (h : m.Speaks P) (hPQ : ∀ v, P v → Q v) : m.Speaks Q :=
  ⟨fun c hc v hv => hPQ v (h.constraints c hc v hv),
    fun i hi v hv => hPQ v (h.implications i hi v hv),
    fun o ho v hv => hPQ v (h.objective o ho v hv)⟩

/-- Where variables are declared or changed, what is recorded speaks of the same. -/
theorem Speaks.of_slots (h : m.Speaks P) (slots : List (Attributes α)) :
    ({ m with slots := slots } : Model α).Speaks P :=
  ⟨h.constraints, h.implications, h.objective⟩

/-- What is recorded may be extended by what speaks of variables with the property. -/
theorem Speaks.grow (h : m.Speaks P) {cs : List (Constraint α)} {is : List (Implication α)}
    (hcs : ∀ c ∈ cs, ∀ v ∈ c.expression.vars, P v) (his : ∀ i ∈ is, ∀ v, i.Mentions v → P v) :
    (m.grow cs is).Speaks P :=
  ⟨List.forall_mem_append.2 ⟨h.constraints, hcs⟩,
    List.forall_mem_append.2 ⟨h.implications, his⟩, h.objective⟩

/-- Posting a constraint about variables with the property does not change that, -/
theorem Speaks.post {c : Constraint α} (hm : m.Speaks P) (hc : ∀ v ∈ c.expression.vars, P v)
    (h : m.post c = .ok m') : m'.Speaks P := by
  rw [eq_of_post h]
  exact hm.grow (List.forall_mem_singleton.2 hc) nofun

/-- nor does posting an implication. -/
theorem Speaks.postImplication [Scalar α] {env : Environment α} {i : Implication α}
    (hm : m.Speaks P) (hi : ∀ v, i.Mentions v → P v) (h : m.postImplication env i = .ok m') :
    m'.Speaks P := by
  rw [eq_of_postImplication h]
  exact hm.grow nofun (List.forall_mem_singleton.2 hi)

end Model

/-! ### Requests about variables of the model -/

namespace Session

/-- The variables that a request speaks of in what it adds or records. -/
def Request.vars : Request α → List Variable
  | .add c | .record c => c.expression.occurrences
  | .addImplication i | .recordImplication i =>
    i.premise.expression.occurrences ++ i.conclusion.expression.occurrences
  | .setObjective _ e => e.occurrences
  | _ => []

/-- The variables of an expression are those that occur in it. -/
theorem Request.of_mem_vars {P : Variable → Prop} {e : Expression α}
    (h : ∀ v ∈ e.occurrences, P v) : ∀ v ∈ e.vars, P v :=
  fun v hv => h v ((e.mem_occurrences_iff v).2 hv)

theorem Request.of_mentions {P : Variable → Prop} {i : Implication α}
    (h : ∀ v ∈ i.premise.expression.occurrences ++ i.conclusion.expression.occurrences, P v) :
    ∀ v, i.Mentions v → P v := by
  intro v hv
  obtain ⟨hpremise, hconclusion⟩ := List.forall_mem_append.1 h
  exact hv.elim (of_mem_vars hpremise v) (of_mem_vars hconclusion v)

variable [Scalar α] [Roots α]

/-- Whenever a run speaks of a variable, the model has it by then. -/
def Scoped : Session α → List (Request α) → Prop
  | _, [] => True
  | s, r :: rest => (∀ v ∈ r.vars, s.model.Declares v) ∧ Scoped (s.perform r).2 rest

instance decidableScoped :
    (s : Session α) → (requests : List (Request α)) → Decidable (s.Scoped requests)
  | _, [] => .isTrue trivial
  | s, r :: rest =>
    have := decidableScoped (s.perform r).2 rest
    inferInstanceAs (Decidable ((∀ v ∈ r.vars, s.model.Declares v) ∧ Scoped (s.perform r).2 rest))

/-- A request about variables with a property, refused or not, leaves a model that speaks of such variables
only, in whatever environment it is made. -/
theorem speaks_performIn {P : Variable → Prop} (env : Environment α) {s : Session α} {r : Request α}
    (h : s.model.Speaks P) (hr : ∀ v ∈ r.vars, P v) : (s.performIn env r).2.model.Speaks P := by
  have hupdate : ∀ slot f, (s.update slot f).2.model.Speaks P := fun slot f =>
    of_change h fun m' hm => by
      cases hm
      exact h.of_slots _
  cases r with
  | declare kind lower upper name =>
      refine of_change h fun m' hm => ?_
      obtain ⟨a, rfl⟩ := Model.eq_of_declare hm
      exact h.of_slots _
  | setLower slot bound => exact hupdate slot _
  | setUpper slot bound => exact hupdate slot _
  | setKind slot kind => exact hupdate slot _
  | setName slot name => exact hupdate slot _
  | configure options => exact h
  | setObjective sense e =>
      refine of_change h fun m' hm => ?_
      rw [Model.eq_of_setObjective hm]
      refine ⟨h.constraints, h.implications, fun o ho => ?_⟩
      cases ho
      exact Request.of_mem_vars hr
  | add c =>
      have hc := Request.of_mem_vars hr
      refine of_ensures (Posting.ensures_constraint fun m m' hm hpost => ?_) h
      exact hm.post (fun v hv => hc v (Posting.mem_vars_of_recorded hv)) hpost
  | addImplication i =>
      have hi := Request.of_mentions hr
      refine of_ensures (Posting.ensures_implication (fun cs hcs c hc m m' hm hpost => ?_)
        fun m m' hm hpost => hm.postImplication hi hpost) h
      have hmentions := Implication.mentions_of_replacement hcs c hc
      exact hm.post (fun v hv => hi v (hmentions v (Posting.mem_vars_of_recorded hv))) hpost
  | record c => exact of_change h fun m' hm => h.post (Request.of_mem_vars hr) hm
  | recordImplication i =>
      exact of_change h fun m' hm => h.postImplication (Request.of_mentions hr) hm

/-- No request takes a variable away. -/
theorem size_le_performIn (env : Environment α) (s : Session α) (r : Request α) :
    s.model.size ≤ (s.performIn env r).2.model.size := by
  have hstable : Model.Stable fun m : Model α => s.model.size ≤ m.size := by
    constructor
    · intro m m' kind lower upper name hm h
      rw [Model.size_declare h]
      exact Nat.le_succ_of_le hm
    · intro m slot f hm
      rwa [Model.size_updateVariable]
    · intro m m' c hm h
      rwa [Model.eq_of_post h]
    · intro env m m' i hm h
      rwa [Model.eq_of_postImplication h]
    · intro m m' sense e hm h
      rwa [Model.eq_of_setObjective h]
  exact hstable.performIn (Nat.le_refl _) env r

/-- A request about variables of the model, refused or not, leaves a model that speaks of its own
variables. -/
theorem closed_perform {s : Session α} {r : Request α} (h : s.model.Closed)
    (hr : ∀ v ∈ r.vars, s.model.Declares v) : (s.perform r).2.model.Closed := by
  rw [← performIn_environment]
  have hsize := size_le_performIn s.environment s r
  exact ((speaks_performIn s.environment h.speaks hr).imp fun v hv => hv.of_size_le hsize).closed

/-- **After a run of requests about variables of the model, everything recorded speaks of its variables.** -/
theorem closed_run {s : Session α} {requests : List (Request α)} (h : s.model.Closed)
    (hr : s.Scoped requests) : (s.run requests).model.Closed := by
  induction requests generalizing s with
  | nil => exact h
  | cons r rest ih => exact ih (closed_perform h hr.1) hr.2

end Session

end MixedInteger
