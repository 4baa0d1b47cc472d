/-
**Whose variables a model records.**

A variable is a store and a slot, and a snapshot keeps the slot.  Of several models side by side, each
records what it is asked to record: scaling and replacing bring in no variables of other models, and
nothing takes any away.  If everything that is posted to a model speaks of variables which it has by then,
whatever is posted to the other models, then every index of its snapshot stands for the variable of the
model in that slot, the one that was written.  Nothing enforces that.  A constraint about a variable of
another model is recorded like any other, and the snapshot takes it for the variable which happens to have
the same slot.

Main definitions:

* `MixedInteger.Ensemble.Apart` — where variables of different models meet, their slots tell them apart;
* `MixedInteger.Model.Owns` — a variable of the model at a place;
* `MixedInteger.Ensemble.Scoped` — a run that posts to one model its own variables only;
* `MixedInteger.Snapshot.Names` — a snapshot whose indices stand for the variables of a model.

Main results:

* `MixedInteger.Snapshot.names_ofModel` — the snapshot of a model that owns what it speaks of;
* `MixedInteger.Ensemble.mentioned_run` — what is recorded was mentioned by a request to that model;
* `MixedInteger.Ensemble.owned_run` — **models that are posted their own variables**;
* `MixedInteger.Ensemble.records_foreign` — **a model may record a variable of another one**.
-/

import MixedInteger.Model.Ensemble
import MixedInteger.Proofs.Export

set_option autoImplicit false

namespace MixedInteger

variable {α : Type}

/-! ### Variables of a model at a place -/

namespace Model

/-- A variable of the model at a place: the place is its store, and its slot is taken. -/
def Owns (place : Nat) (m : Model α) (v : Variable) : Prop := v.store = place ∧ v.slot < m.size

instance (place : Nat) (m : Model α) (v : Variable) : Decidable (m.Owns place v) :=
  inferInstanceAs (Decidable (v.store = place ∧ v.slot < m.size))

/-- A model that can be made begins without variables. -/
theorem eq_of_make [Scalar α] {engine : Engine} {capabilities : Capabilities} {infinity : α}
    {m : Model α} (h : make engine capabilities infinity = .ok m) :
    m = empty engine capabilities infinity := by
  unfold make at h
  split at h
  · cases h
  · cases h
    rfl

end Model

/-! ### What the indices of a snapshot stand for -/

namespace Snapshot

/-- The indices of terms, read as slots of one store, stand for the variables of an expression, in their
order and with their coefficients. -/
structure Terms.Names (store : Nat) (t : Terms α) (e : Expression α) : Prop where
  linear : t.linearIndices.map (fun i => ⟨store, i.toNat⟩) = e.linear.keys
  linearValues : t.linearValues = e.linear.values
  quadratic : List.zipWith (fun i j => .of ⟨store, i.toNat⟩ ⟨store, j.toNat⟩) t.firstIndices
    t.secondIndices = e.quadratic.keys
  pairValues : t.pairValues = e.quadratic.values

/-- The columns of a snapshot are the variables of a model, and the indices of all terms stand for the
variables of the model in these slots. -/
structure Names (store : Nat) (t : Snapshot α) (m : Model α) : Prop where
  columns : ∀ i : Nat, t.columns[i]? =
    m.slots[i]?.map fun a => ⟨i, a.name, a.kind, a.lower, a.upper⟩
  rows : List.Forall₂ (fun r c => r.terms.Names store c.expression) t.rows m.constraints
  conditionals : List.Forall₂ (fun d i => d.premise.terms.Names store i.premise.expression ∧
    d.conclusion.terms.Names store i.conclusion.expression) t.conditionals m.implications
  objective : Option.Rel (fun o p => o.terms.Names store p.2) t.objective m.objective

/-- Slots tell the variables of one store apart. -/
theorem Terms.names_ofExpression {store : Nat} {e : Expression α} (h : ∀ v ∈ e.vars, v.store = store) :
    (ofExpression e).Names store e := by
  have hname : ∀ v ∈ e.vars, (⟨store, ((v.slot : Nat) : Int).toNat⟩ : Variable) = v := by
    intro v hv
    rw [← h v hv, Int.toNat_natCast]
  constructor
  · rw [ofExpression, List.map_map]
    refine (List.map_congr_left fun v hv => ?_).trans (List.map_id _)
    exact hname v (Expression.mem_vars_of_mem_linear hv)
  · rfl
  · rw [ofExpression, List.zipWith_map, List.zipWith_self]
    refine (List.map_congr_left fun p hp => ?_).trans (List.map_id _)
    obtain ⟨hfirst, hsecond⟩ := Expression.mem_vars_of_mem_quadratic hp
    rw [hname _ hfirst, hname _ hsecond, VariablePair.of_first_second, id]
  · rfl

variable [Scalar α]

/-- **The indices in the snapshot of a model stand for its own variables**, if it speaks of no others. -/
theorem names_ofModel {store : Nat} {m : Model α} (h : m.Speaks (m.Owns store)) :
    (ofModel m).Names store m := by
  have hnames : ∀ e : Expression α, (∀ v ∈ e.vars, m.Owns store v) →
      (Terms.ofExpression e).Names store e := fun e he =>
    Terms.names_ofExpression fun v hv => (he v hv).1
  constructor
  · intro i
    rw [ofModel, columnsFrom_getElem?, Nat.zero_add]
  · rw [ofModel, List.forall₂_map_left_iff, List.forall₂_same]
    exact fun c hc => hnames _ (h.constraints c hc)
  · rw [ofModel, List.forall₂_map_left_iff, List.forall₂_same]
    exact fun i hi => ⟨hnames _ fun v hv => h.implications i hi v (Or.inl hv),
      hnames _ fun v hv => h.implications i hi v (Or.inr hv)⟩
  · cases ho : m.objective with
    | none =>
        rw [ofModel, ho]
        exact Option.Rel.none
    | some p =>
        rw [ofModel, ho]
        exact Option.Rel.some (hnames _ (h.objective p ho))

end Snapshot

/-! ### Requests to one of several models -/

namespace Ensemble

/-- The expressions in what a request adds or records. -/
def expressions : Session.Request α → List (Expression α)
  | .add c | .record c => [c.expression]
  | .addImplication i | .recordImplication i => [i.premise.expression, i.conclusion.expression]
  | .setObjective _ e => [e]
  | _ => []

/-- Where variables of different models occur in one expression, they have different slots. -/
def Apart : Request α → Prop
  | .create _ _ _ => True
  | .ask _ _ r => ∀ e ∈ expressions r, ∀ v ∈ e.occurrences, ∀ w ∈ e.occurrences,
      v.slot = w.slot → v = w

instance (r : Request α) : Decidable (Apart r) :=
  match r with
  | .create _ _ _ => .isTrue trivial
  | .ask _ _ r => inferInstanceAs (Decidable (∀ e ∈ expressions r, ∀ v ∈ e.occurrences,
      ∀ w ∈ e.occurrences, v.slot = w.slot → v = w))

/-- The variables that a request to the model at a place speaks of in what it adds or records. -/
def Request.varsAt (place : Nat) : Request α → List Variable
  | .create _ _ _ => []
  | .ask n _ r => if n = place then r.vars else []

variable [Scalar α] [Roots α]

/-- Whenever a run speaks to the model at a place of a variable, the model has it by then. -/
def Scoped (place : Nat) : Ensemble α → List (Request α) → Prop
  | _, [] => True
  | s, r :: rest => (∀ v ∈ r.varsAt place, ∃ m ∈ s.models[place]?, m.Owns place v) ∧
      Scoped place (s.perform r).2 rest

instance decidableScoped (place : Nat) :
    (s : Ensemble α) → (requests : List (Request α)) → Decidable (s.Scoped place requests)
  | _, [] => .isTrue trivial
  | s, r :: rest =>
    have := decidableScoped place (s.perform r).2 rest
    inferInstanceAs (Decidable ((∀ v ∈ r.varsAt place, ∃ m ∈ s.models[place]?, m.Owns place v) ∧
      Scoped place (s.perform r).2 rest))

/-! ### One request -/

/-- After a request, the model at a place is as before, or new, or what the request has made of it; only a
request that is addressed to it makes something of it. -/
theorem model_of_perform {s : Ensemble α} {r : Request α} {place : Nat} {m' : Model α}
    (h : (s.perform r).2.models[place]? = some m') :
    (s.models[place]? = some m' ∧ ∀ o q, r ≠ .ask place o q) ∨
      (∃ engine capabilities infinity, m' = .empty engine capabilities infinity) ∨
      ∃ m o q, s.models[place]? = some m ∧ r = .ask place o q ∧
        m' = ((Session.start m o).performIn s.environment q).2.model := by
  cases r with
  | create engine capabilities infinity =>
      have hother : ∀ o q, Request.create engine capabilities infinity ≠ .ask place o q := by
        intro o q heq
        cases heq
      cases hmake : Model.make engine capabilities infinity with
      | error f =>
          simp only [perform, hmake] at h
          exact Or.inl ⟨h, hother⟩
      | ok new =>
          simp only [perform, hmake] at h
          rcases Nat.lt_or_ge place s.models.length with hlt | hge
          · rw [List.getElem?_append_left hlt] at h
            exact Or.inl ⟨h, hother⟩
          · rw [List.getElem?_append_right hge] at h
            obtain rfl := List.mem_singleton.1 (List.mem_of_getElem? h)
            exact Or.inr (Or.inl ⟨_, _, _, Model.eq_of_make hmake⟩)
  | ask n o q =>
      unfold perform at h
      dsimp only at h
      have hother : n ≠ place → ∀ o' q', Request.ask n o q ≠ .ask place o' q' := by
        rintro hn o' q' ⟨⟩
        exact hn rfl
      cases hm : s.models[n]? with
      | none =>
          rw [hm] at h
          refine Or.inl ⟨h, hother ?_⟩
          rintro rfl
          rw [hm] at h
          cases h
      | some m =>
          rw [hm] at h
          dsimp only at h
          rw [List.getElem?_set] at h
          by_cases hn : n = place
          · subst hn
            obtain ⟨hlt, -⟩ := List.getElem?_eq_some_iff.1 hm
            rw [if_pos rfl, if_pos hlt, Option.some.injEq] at h
            exact Or.inr (Or.inr ⟨m, o, q, hm, rfl, h.symm⟩)
          · rw [if_neg hn] at h
            exact Or.inl ⟨h, hother hn⟩

/-- If what a request posts to the model at a place speaks of variables with a property, so does the
model. -/
theorem speaks_perform {s : Ensemble α} {r : Request α} {place : Nat} {P : Variable → Prop}
    (hs : ∀ m, s.models[place]? = some m → m.Speaks P) (hr : ∀ v ∈ r.varsAt place, P v) {m' : Model α}
    (h : (s.perform r).2.models[place]? = some m') : m'.Speaks P := by
  rcases model_of_perform h with ⟨hm, -⟩ | ⟨engine, capabilities, infinity, rfl⟩ | ⟨m, o, q, hm, rfl, rfl⟩
  · exact hs m' hm
  · exact Model.speaks_empty engine capabilities infinity
  · rw [Request.varsAt, if_pos rfl] at hr
    exact Session.speaks_performIn s.environment (hs m hm) hr

/-- If it speaks of variables which the model has by then, the model owns whatever it speaks of. -/
theorem owned_perform {s : Ensemble α} {r : Request α} {place : Nat}
    (hs : ∀ m, s.models[place]? = some m → m.Speaks (m.Owns place))
    (hr : ∀ v ∈ r.varsAt place, ∃ m ∈ s.models[place]?, m.Owns place v) {m' : Model α}
    (h : (s.perform r).2.models[place]? = some m') : m'.Speaks (m'.Owns place) := by
  rcases model_of_perform h with ⟨hm, -⟩ | ⟨engine, capabilities, infinity, rfl⟩ | ⟨m, o, q, hm, rfl, rfl⟩
  · exact hs m' hm
  · exact Model.speaks_empty engine capabilities infinity
  · rw [Request.varsAt, if_pos rfl] at hr
    have hown : ∀ v ∈ q.vars, m.Owns place v := by
      intro v hv
      obtain ⟨m', hm', hv⟩ := hr v hv
      rw [Option.mem_def, hm, Option.some.injEq] at hm'
      exact hm' ▸ hv
    -- variables that are declared meanwhile only add to those that the model has
    have hsize := Session.size_le_performIn s.environment (Session.start m o) q
    refine (Session.speaks_performIn s.environment (hs m hm) hown).imp fun v hv => ?_
    exact ⟨hv.1, Nat.lt_of_lt_of_le hv.2 hsize⟩

/-! ### Runs -/

theorem speaks_run {s : Ensemble α} {requests : List (Request α)} {place : Nat} {P : Variable → Prop}
    (hs : ∀ m, s.models[place]? = some m → m.Speaks P)
    (hr : ∀ r ∈ requests, ∀ v ∈ r.varsAt place, P v) :
    ∀ m, (s.run requests).models[place]? = some m → m.Speaks P := by
  induction requests generalizing s with
  | nil => exact hs
  | cons r rest ih =>
      refine ih (fun m hm => ?_) fun r' hr' => hr r' (List.mem_cons_of_mem _ hr')
      exact speaks_perform hs (hr r List.mem_cons_self) hm

/-- **What a model has recorded was mentioned by a request to that model**, whatever else went on. -/
theorem mentioned_run (requests : List (Request α)) (place : Nat) {m : Model α}
    (hm : (empty.run requests).models[place]? = some m) :
    m.Speaks fun v => ∃ r ∈ requests, v ∈ r.varsAt place := by
  refine speaks_run (fun m hm => ?_) (fun r hr v hv => ⟨r, hr, hv⟩) m hm
  cases hm

theorem speaks_owns_run {s : Ensemble α} {requests : List (Request α)} {place : Nat}
    (hs : ∀ m, s.models[place]? = some m → m.Speaks (m.Owns place))
    (hr : s.Scoped place requests) :
    ∀ m, (s.run requests).models[place]? = some m → m.Speaks (m.Owns place) := by
  induction requests generalizing s with
  | nil => exact hs
  | cons r rest ih => exact ih (fun m hm => owned_perform hs hr.1 hm) hr.2

/-- **A model that is posted its own variables records its own variables**, whatever is posted to the other
models and whatever is refused.  Its snapshot passes all rules between fields, and every index in it stands
for the variable of the model in that slot. -/
theorem owned_run (requests : List (Request α)) (place : Nat) (hr : empty.Scoped place requests)
    {m : Model α} (hm : (empty.run requests).models[place]? = some m) :
    m.Speaks (m.Owns place) ∧ ∃ t, (Snapshot.ofModel m).validate = .ok t ∧ t.Names place m := by
  have howns : m.Speaks (m.Owns place) := by
    refine speaks_owns_run (fun m hm => ?_) hr m hm
    cases hm
  have hslots : m.Speaks fun v => v.slot < m.size := howns.imp fun _ hv => hv.2
  exact ⟨howns, _, (Snapshot.validate_eq_ok_iff _ _).2 ⟨rfl, Snapshot.valid_of_speaks hslots⟩,
    Snapshot.names_ofModel howns⟩

/-- Two models with a variable in slot zero each: `y ≤ 1` is posted to the second one, which owns `y`, and
to the first one, which does not. -/
theorem owned_run_of_second :
    let y : Variable := ⟨1, 0⟩
    let c : Constraint Float := ⟨.atMost, .affine (-1) 1 y, none⟩
    let o : PostingOptions Float := ⟨.native, none⟩
    let requests : List (Request Float) :=
      [.create .memory .full Scalar.infinity, .create .memory .full Scalar.infinity,
        .ask 0 o (.declare .continuous (some 0) (some 10) (some "x")),
        .ask 1 o (.declare .continuous (some 0) (some 5) (some "y")),
        .ask 1 o (.add c), .ask 0 o (.add c)]
    ∃ m, (empty.run requests).models[1]? = some m ∧ m.constraints.length = 1 ∧
      ∃ t, (Snapshot.ofModel m).validate = .ok t ∧ t.Names 1 m := by
  intro y c o requests
  have hlength : ((empty.run requests).models[1]?.map fun m => m.constraints.length) = some 1 := by
    decide +kernel
  obtain ⟨m, hm, hlength⟩ := Option.map_eq_some_iff.1 hlength
  exact ⟨m, hm, hlength, (owned_run requests 1 (by decide +kernel) hm).2⟩

/-! ### Variables of other models -/

/-- **A model may record a variable of another one**: what is posted is not asked for its store, even where
slots tell all variables apart. -/
theorem records_foreign :
    ¬ ∀ (requests : List (Request Float)), (∀ r ∈ requests, Apart r) →
      ∀ (place : Nat) (m : Model Float), (empty.run requests).models[place]? = some m →
        m.Speaks (m.Owns place) := by
  intro hown
  -- `x` belongs to the first model, and `x ≤ 5` is posted to the second one
  let x : Variable := ⟨0, 0⟩
  let c : Constraint Float := ⟨.atMost, .affine (-5) 1 x, none⟩
  let o : PostingOptions Float := ⟨.native, none⟩
  let requests : List (Request Float) :=
    [.create .memory .full Scalar.infinity, .create .memory .full Scalar.infinity,
      .ask 0 o (.declare .continuous (some 0) (some 10) (some "x")),
      .ask 1 o (.declare .continuous (some 0) (some 1) (some "y")), .ask 1 o (.add c)]
  have hrecorded : ((empty.run requests).models[1]?.map fun m =>
      m.constraints.map fun d => d.expression.linear.keys) = some [[x]] := by
    decide +kernel
  obtain ⟨m, hm, hkeys⟩ := Option.map_eq_some_iff.1 hrecorded
  obtain ⟨d, hd, hx⟩ := List.mem_map.1 (hkeys ▸ List.mem_singleton_self [x])
  have hstore := ((hown requests (by decide +kernel) 1 m hm).constraints d hd x
    (Expression.mem_vars_of_mem_linear (hx ▸ List.mem_singleton_self x))).1
  cases hstore

end Ensemble

end MixedInteger
