/-
**What is recorded is of a shape that the engine takes.**

A model records a constraint, an implication or an objective only after a look at what its engine
takes.  Nothing that happens to the variables afterwards changes the shape of what is recorded, and a
posting that stops half-way has recorded what it has recorded through the same looks.  So every model
that a session comes by is within the capabilities of its engine.

Main definitions:

* `MixedInteger.Constraint.Selects` — an equation in one variable that leads to zero or one;
* `MixedInteger.Model.Respects` — everything recorded is of a shape that the engine takes.

Main results:

* `MixedInteger.Constraint.Selects.holds_iff` — such an equation holds where its variable is zero, or
  where it is one;
* `MixedInteger.Model.stable_respects` — every single change keeps the shapes;
* `MixedInteger.Session.recorded_within_capabilities` — **so does every run**.
-/

import MixedInteger.Meaning.Feasibility
import MixedInteger.Proofs.Atomicity
import MixedInteger.Proofs.Invariance

set_option autoImplicit false

namespace MixedInteger

/-! ### Premises that engines take -/

namespace Constraint

section Shape

variable {α : Type} [Scalar α]

/-- The equation `k + a * v = 0`, in one variable and without products, whose root `-k / a` is zero
or one. -/
structure Selects (c : Constraint α) (v : Variable) (a : α) : Prop where
  relation : c.relation = .equal
  linear : c.isLinear = true
  entries : c.expression.linear.entries = [(v, a)]
  root : ∃ b, Implication.fixedValue c.expression.constant a = .ok b ∧ (b == 0 || b == 1) = true

/-- A premise that is taken selects a value of a binary variable. -/
theorem selects_of_checkPremise {env : Environment α} {c : Constraint α}
    (h : Implication.checkPremise env c = .ok ()) :
    ∃ v a, c.Selects v a ∧ env.kind v = .binary := by
  unfold Implication.checkPremise at h
  dsimp only at h
  split at h
  · cases h
  · next hrelation =>
      split at h
      · next v a hlinear hentries =>
          split at h
          · cases h
          · next hkind =>
              obtain ⟨b, hb, h⟩ := exists_of_bind_eq_ok h
              split at h
              · cases h
              · next hroot =>
                  refine ⟨v, a, ⟨by simpa using hrelation, hlinear, hentries, b, hb, ?_⟩, ?_⟩
                  · rw [Bool.not_eq_true, Bool.not_eq_false'] at hroot
                    exact hroot
                  · simpa using hkind
      · cases h

theorem Selects.vars_eq {c : Constraint α} {v : Variable} {a : α} (h : c.Selects v a) :
    c.expression.vars = [v] := by
  have hquadratic : c.expression.quadratic.keys = [] := by
    rw [Coefficients.keys, Expression.entries_of_isLinear h.linear, List.map_nil]
  have hlinear : c.expression.linear.keys = [v] := by
    rw [Coefficients.keys, h.entries, List.map_singleton]
  simp [Expression.vars, hquadratic, hlinear, Variable.sort, List.eraseDups_cons]

end Shape

variable {K : Type} [Field K] [LinearOrder K] [FloorRing K]

/-- What selects a value holds where the variable has that value, which is zero or one. -/
theorem Selects.holds_iff {c : Constraint (Extended K)} {v : Variable} {a : Extended K}
    (h : c.Selects v a) (hc : c.IsFinite) :
    ∃ b : K, (b = 0 ∨ b = 1) ∧ ∀ x : Assignment K, c.Holds x ↔ x v = b := by
  obtain ⟨hconstant, hlinear, -⟩ := hc
  have ha : a.IsFinite := hlinear (v, a) (by rw [h.entries]; exact List.mem_singleton_self _)
  obtain ⟨b, hb, hroot⟩ := h.root
  have hvalue : ∀ x : Assignment K, c.expression.value x =
      c.expression.constant.toNumber + a.toNumber * x v := by
    intro x
    simp [Expression.value, Coefficients.weigh, h.entries, Expression.entries_of_isLinear h.linear]
  unfold Implication.fixedValue Expression.quotient at hb
  split at hb
  · cases hb
  · next hzero =>
      have hne : a.toNumber ≠ 0 := fun h0 => hzero ((Extended.beq_zero_iff ha).2 h0)
      rw [hconstant.eq_finite, ha.eq_finite, Extended.neg_finite, Extended.finite_div _ hne] at hb
      cases hb
      refine ⟨-c.expression.constant.toNumber / a.toNumber, ?_, fun x => ?_⟩
      · simpa [Extended.zero_eq, Extended.one_eq] using hroot
      · rw [Holds, h.relation]
        dsimp only
        rw [hvalue, eq_div_iff hne]
        constructor
        · intro hx
          linear_combination hx
        · intro hx
          linear_combination hx

end Constraint

/-! ### Models -/

namespace Model

section Shapes

variable {α : Type} [Scalar α]

/-- Everything that a model has recorded is of a shape that an engine takes. -/
structure Respects (capabilities : Capabilities) (m : Model α) : Prop where
  engine : m.capabilities = capabilities
  constraints : ∀ c ∈ m.constraints, m.Takes c
  implications : ∀ i ∈ m.implications, capabilities.implications = true ∧
    (∃ v a, i.premise.Selects v a) ∧ i.conclusion.isLinear = true
  objective : ∀ o ∈ m.objective, o.2.isLinear = true ∨ capabilities.quadraticObjective = true

theorem respects_empty (engine : Engine) (capabilities : Capabilities) (infinity : α) :
    (empty engine capabilities infinity).Respects capabilities :=
  ⟨rfl, by simp [empty], by simp [empty], by simp [empty]⟩

/-- An implication that is recorded is taken. -/
theorem takes_of_postImplication {env : Environment α} {m m' : Model α} {i : Implication α}
    (h : m.postImplication env i = .ok m') :
    m.capabilities.implications = true ∧ (∃ v a, i.premise.Selects v a) ∧
      i.conclusion.isLinear = true := by
  unfold postImplication at h
  dsimp only at h
  split at h
  · cases h
  · next hcapable =>
      obtain ⟨u, hnative, -⟩ := exists_of_bind_eq_ok h
      obtain ⟨u, hpremise, hconclusion⟩ := exists_of_bind_eq_ok hnative
      obtain ⟨v, a, hselects, -⟩ := Constraint.selects_of_checkPremise hpremise
      refine ⟨by simpa using hcapable, ⟨v, a, hselects⟩, ?_⟩
      split at hconclusion
      · cases hconclusion
      · next hlinear => simpa using hlinear

omit [Scalar α] in
theorem takes_of_setObjective {m m' : Model α} {sense : Sense} {e : Expression α}
    (h : m.setObjective sense e = .ok m') :
    e.isLinear = true ∨ m.capabilities.quadraticObjective = true := by
  unfold setObjective at h
  split at h
  · cases h
  · next hc => simpa [Expression.isQuadratic_eq_not_isLinear, or_iff_not_imp_left] using hc

/-- **Every single change keeps the shapes that an engine takes.** -/
theorem stable_respects (capabilities : Capabilities) :
    Stable (α := α) (Respects capabilities) where
  declare hm h := by
    obtain ⟨a, rfl⟩ := eq_of_declare h
    exact ⟨hm.engine, hm.constraints, hm.implications, hm.objective⟩
  update slot f hm := ⟨hm.engine, hm.constraints, hm.implications, hm.objective⟩
  post hm h := by
    have htakes := takes_of_post h
    rw [eq_of_post h]
    refine ⟨hm.engine, ?_, ?_, hm.objective⟩
    · exact List.forall_mem_append.2 ⟨hm.constraints, List.forall_mem_singleton.2 htakes⟩
    · exact List.forall_mem_append.2 ⟨hm.implications, fun i hi => absurd hi List.not_mem_nil⟩
  postImplication hm h := by
    have htakes := takes_of_postImplication h
    rw [hm.engine] at htakes
    rw [eq_of_postImplication h]
    refine ⟨hm.engine, ?_, ?_, hm.objective⟩
    · exact List.forall_mem_append.2 ⟨hm.constraints, fun c hc => absurd hc List.not_mem_nil⟩
    · exact List.forall_mem_append.2 ⟨hm.implications, List.forall_mem_singleton.2 htakes⟩
  setObjective {m m' sense e} hm h := by
    have htakes := takes_of_setObjective h
    rw [hm.engine] at htakes
    rw [eq_of_setObjective h]
    refine ⟨hm.engine, hm.constraints, hm.implications, ?_⟩
    intro o ho
    cases ho
    exact htakes

end Shapes

end Model

/-! ### Runs -/

namespace Session

variable {K : Type} [Field K] [LinearOrder K] [FloorRing K]

/-- **Whatever is asked for, what is recorded is within the capabilities of the engine**: after any run,
on its own or beside other models, whatever was refused on the way, an engine that takes no products in
constraints, no implications, or no products in the objective has none recorded.  And the premise of every
recorded implication is an equation in one variable which, its coefficients being numbers, holds just where
that variable is zero or just where it is one; its conclusion is linear. -/
theorem recorded_within_capabilities (R : Rounding K) (engine : Engine)
    (capabilities : Capabilities) (infinity : Extended K) (o : PostingOptions (Extended K))
    (steps : List (Environment (Extended K) × Request (Extended K))) :
    letI := R.roots
    let m := ((start (Model.empty engine capabilities infinity) o).runIn steps).model
    (capabilities.quadraticConstraints = false → ∀ c ∈ m.constraints, c.isLinear = true) ∧
      (capabilities.implications = false → m.implications = []) ∧
      (capabilities.quadraticObjective = false → ∀ p ∈ m.objective, p.2.isLinear = true) ∧
      ∀ i ∈ m.implications, i.premise.relation = .equal ∧ i.premise.isLinear = true ∧
        (∃ v, i.premise.expression.vars = [v] ∧ (i.premise.IsFinite →
          ∃ b : K, (b = 0 ∨ b = 1) ∧ ∀ x : Assignment K, i.premise.Holds x ↔ x v = b)) ∧
        i.conclusion.isLinear = true := by
  let roots := R.roots
  intro m
  have hm : m.Respects capabilities :=
    (Model.stable_respects capabilities).runIn (s := start (Model.empty engine capabilities infinity) o)
      (Model.respects_empty engine capabilities infinity) steps
  refine ⟨fun hoff c hc => ?_, fun hoff => ?_, fun hoff p hp => ?_, fun i hi => ?_⟩
  · exact (hm.constraints c hc).resolve_right (by rw [hm.engine, hoff]; exact Bool.false_ne_true)
  · exact List.eq_nil_iff_forall_not_mem.2 fun i hi =>
      Bool.false_ne_true (hoff.symm.trans (hm.implications i hi).1)
  · exact (hm.objective p hp).resolve_right (by rw [hoff]; exact Bool.false_ne_true)
  · obtain ⟨-, ⟨v, a, hselects⟩, hconclusion⟩ := hm.implications i hi
    exact ⟨hselects.relation, hselects.linear, ⟨v, hselects.vars_eq, hselects.holds_iff⟩, hconclusion⟩

end Session

end MixedInteger
