/-
**What a change of the workspace leaves alone.**

Expressions and constraints are objects that refer to each other, and one missing copy would let a change
of an expression show in a constraint that was made from it.  That this does not happen rests on two
things.  No two expression objects have a map of terms in common, and the expression object of a
constraint or of an objective belongs to it: no register holds it, nor anything else that a step can get
hold of.

Main definitions:

* `MixedInteger.Script.Workspace.owned`, `MixedInteger.Script.Workspace.Admits` — the expression objects
  that belong to constraints and objectives, and the values that reach none of them;
* `MixedInteger.Script.Workspace.Sound` — the invariant;
* `MixedInteger.Script.Reach`, `MixedInteger.Script.Workspace.Spares` — how far a change goes, and what it
  leaves alone;
* `MixedInteger.Script.Run.Safe` — a step that keeps the invariant and goes only so far.

Main results:

* `MixedInteger.Script.Workspace.Admits.mono` — **what may be held stays so**;
* `MixedInteger.Script.Run.safe_bind` — safe steps can follow each other;
* `MixedInteger.Script.Run.safe_newExpression`, `MixedInteger.Script.Run.safe_newConstraint` and the
  others of their kind — new objects are safe.
-/

import MixedInteger.Script.Workspace

set_option autoImplicit false

namespace MixedInteger.Script

/-! ### Reading through the heap -/

namespace Heap

variable {h : Heap} {n : Nat}

theorem terms?_eq_some_iff {e : Expression Number} :
    h.terms? n = some e ↔ ∃ m, h.expressions[n]? = some m ∧ h.maps[m]? = some e := by
  simp [terms?, Option.bind_eq_some_iff]

theorem constraint?_eq_some_iff {c : Constraint Number} :
    h.constraint? n = some c ↔ ∃ o, h.constraints[n]? = some o ∧
      h.terms? o.expression = some c.expression ∧ o.relation = c.relation ∧ o.name = c.name := by
  obtain ⟨relation, e, name⟩ := c
  constructor
  · intro hc
    simp only [constraint?, Option.bind_eq_bind, Option.bind_eq_some_iff, Option.pure_def,
      Option.some.injEq, Constraint.mk.injEq] at hc
    obtain ⟨o, ho, f, hf, hrelation, rfl, hname⟩ := hc
    exact ⟨o, ho, hf, hrelation, hname⟩
  · rintro ⟨o, ho, he, rfl, rfl⟩
    simp [constraint?, ho, he]

/-- No two expression objects have a map of terms in common. -/
structure Apart (h : Heap) : Prop where
  isThere : ∀ n m : Nat, h.expressions[n]? = some m → m < h.maps.size
  inj : ∀ n k m : Nat, h.expressions[n]? = some m → h.expressions[k]? = some m → n = k

theorem Apart.empty : Apart .empty := by
  constructor
  · intro n m hn
    simp [Heap.empty] at hn
  · intro n k m hn
    simp [Heap.empty] at hn

theorem Apart.newExpression (ha : h.Apart) (e : Expression Number) : (h.newExpression e).Apart := by
  -- an object is the new one with the new map, or it was there with its own
  have hold : ∀ n m : Nat, (h.newExpression e).expressions[n]? = some m →
      (n = h.expressions.size ∧ m = h.maps.size) ∨ (h.expressions[n]? = some m ∧ m < h.maps.size) := by
    intro n m hn
    simp only [Heap.newExpression, Array.getElem?_push] at hn
    split at hn
    · next hsize => exact Or.inl ⟨hsize, (Option.some.inj hn).symm⟩
    · exact Or.inr ⟨hn, ha.isThere n m hn⟩
  constructor
  · intro n m hn
    simp only [Heap.newExpression, Array.size_push]
    rcases hold n m hn with ⟨-, rfl⟩ | ⟨-, hm⟩ <;> omega
  · intro n k m hn hk
    rcases hold n m hn with ⟨rfl, rfl⟩ | ⟨hn', hm⟩ <;>
      rcases hold k _ hk with ⟨rfl, hk'⟩ | ⟨hk', hm'⟩
    · rfl
    · omega
    · omega
    · exact ha.inj n k m hn' hk'

theorem Apart.newConstraint (ha : h.Apart) (o : ConstraintObject) : (h.newConstraint o).Apart :=
  ⟨ha.isThere, ha.inj⟩

theorem terms?_newExpression_of_terms? {e f : Expression Number} (hf : h.terms? n = some f) :
    (h.newExpression e).terms? n = some f := by
  obtain ⟨m, hn, hm⟩ := terms?_eq_some_iff.1 hf
  have hn' := (Array.getElem?_eq_some_iff.1 hn).1
  have hm' := (Array.getElem?_eq_some_iff.1 hm).1
  refine terms?_eq_some_iff.2 ⟨m, ?_, ?_⟩
  · simp [newExpression, Array.getElem?_push, Nat.ne_of_lt hn', hn]
  · simp [newExpression, Array.getElem?_push, Nat.ne_of_lt hm', hm]

/-! ### Other terms for one object -/

@[simp] theorem expressions_write (n : Nat) (e : Expression Number) :
    (h.write n e).expressions = h.expressions := by
  unfold write
  split <;> rfl

@[simp] theorem constraints_write (n : Nat) (e : Expression Number) :
    (h.write n e).constraints = h.constraints := by
  unfold write
  split <;> rfl

theorem Apart.write (ha : h.Apart) (n : Nat) (e : Expression Number) : (h.write n e).Apart := by
  constructor
  · intro k m hk
    rw [expressions_write] at hk
    have hm := ha.isThere k m hk
    unfold Heap.write
    split
    · simpa using hm
    · exact hm
  · intro k l m hk hl
    rw [expressions_write] at hk hl
    exact ha.inj k l m hk hl

theorem terms?_write_self (ha : h.Apart) (hn : n < h.expressions.size) (e : Expression Number) :
    (h.write n e).terms? n = some e := by
  have hget : h.expressions[n]? = some h.expressions[n] := Array.getElem?_eq_getElem hn
  refine terms?_eq_some_iff.2 ⟨h.expressions[n], by rw [expressions_write, hget], ?_⟩
  simp [Heap.write, hget, ha.isThere n _ hget]

/-- **A change of one expression object shows at no other.** -/
theorem terms?_write_of_ne (ha : h.Apart) {k : Nat} (hk : k ≠ n) (e : Expression Number) :
    (h.write n e).terms? k = h.terms? k := by
  cases hn : h.expressions[n]? with
  | none => simp [Heap.write, hn]
  | some m =>
      cases hl : h.expressions[k]? with
      | none => simp [Heap.write, terms?, hn, hl]
      | some l =>
          -- the maps differ, or else the objects would be the same
          have hml : m ≠ l := by
            rintro rfl
            exact hk (ha.inj k n m hl hn)
          simp [Heap.write, terms?, hn, hl, Array.getElem?_setIfInBounds_ne hml]

end Heap

/-! ### How far a change goes -/

/-- How far a change of the workspace may go. -/
inductive Reach where
  /-- Objects and models are added. -/
  | additions
  /-- Registers are set as well, and models changed. -/
  | records
  /-- One expression object gets other terms as well. -/
  | terms (n : Nat)

namespace Workspace

/-- The expression objects that belong to a constraint or to the objective of a model. -/
def owned (w : Workspace) : List Nat :=
  w.heap.constraints.toList.map (·.expression) ++
    w.models.filterMap fun k => k.objective.map Prod.snd

/-- The objects that a value reaches are there, and no expression object among those that it holds itself
belongs to a constraint or an objective. -/
def Admits (w : Workspace) : Value → Prop
  | .expression n => n < w.heap.expressions.size ∧ n ∉ w.owned
  | .constraint n => n < w.heap.constraints.size
  | .implication _ p c _ => w.Admits p ∧ w.Admits c
  | _ => True

/-- What a change leaves alone that goes as far as `r`. -/
structure Spares (r : Reach) (w w' : Workspace) : Prop where
  size : w.heap.expressions.size ≤ w'.heap.expressions.size
  constraints : ∀ (n : Nat) o, w.heap.constraints[n]? = some o → w'.heap.constraints[n]? = some o
  terms : ∀ (n : Nat) e, r ≠ .terms n → w.heap.terms? n = some e → w'.heap.terms? n = some e
  owned : ∀ n < w.heap.expressions.size, n ∈ w'.owned → n ∈ w.owned
  models : r = .additions → w.models <+: w'.models
  registers : r = .additions → w'.registers = w.registers

/-- What holds of a workspace at any time. -/
structure Sound (w : Workspace) : Prop where
  apart : w.heap.Apart
  owned : ∀ n ∈ w.owned, n < w.heap.expressions.size
  registers : ∀ r ∈ w.registers, w.Admits r.2
  fronts : ∀ f ∈ w.fronts, w.Admits f.base
  posted : ∀ k ∈ w.models, ∀ v ∈ k.posted, w.Admits v

variable {r : Reach} {w w' : Workspace}

namespace Spares

theorem refl (r : Reach) (w : Workspace) : Spares r w w where
  size := Nat.le_refl _
  constraints _ _ h := h
  terms _ _ _ h := h
  owned _ _ h := h
  models _ := List.prefix_refl _
  registers _ := rfl

theorem trans {w'' : Workspace} (h : Spares r w w') (h' : Spares r w' w'') : Spares r w w'' where
  size := Nat.le_trans h.size h'.size
  constraints n o hn := h'.constraints n o (h.constraints n o hn)
  terms n e hr hn := h'.terms n e hr (h.terms n e hr hn)
  owned n hn hown := h.owned n hn (h'.owned n (Nat.lt_of_lt_of_le hn h.size) hown)
  models hr := (h.models hr).trans (h'.models hr)
  registers hr := (h'.registers hr).trans (h.registers hr)

/-- Additions go no further than anything else. -/
theorem of_additions (h : Spares .additions w w') (r : Reach) : Spares r w w' where
  size := h.size
  constraints := h.constraints
  terms n e _ := h.terms n e Reach.noConfusion
  owned := h.owned
  models _ := h.models rfl
  registers _ := h.registers rfl

/-- A change that gives no object other terms goes no further than one that does. -/
theorem of_records (h : Spares .records w w') (n : Nat) : Spares (.terms n) w w' where
  size := h.size
  constraints := h.constraints
  terms k e _ := h.terms k e Reach.noConfusion
  owned := h.owned
  models := Reach.noConfusion
  registers := Reach.noConfusion

theorem size_constraints (h : Spares r w w') :
    w.heap.constraints.size ≤ w'.heap.constraints.size := by
  refine Nat.le_of_not_lt fun hlt => ?_
  have hget := h.constraints _ _ (Array.getElem?_eq_getElem hlt)
  exact Nat.lt_irrefl _ (Array.getElem?_eq_some_iff.1 hget).1

end Spares

/-- **What may be held stays so**, however far a change goes. -/
theorem Admits.mono {v : Value} (hv : w.Admits v) (h : Spares r w w') : w'.Admits v := by
  induction v with
  | expression n =>
      -- no object that was there gets an owner
      exact ⟨Nat.lt_of_lt_of_le hv.1 h.size, fun hown => hv.2 (h.owned n hv.1 hown)⟩
  | constraint n => exact Nat.lt_of_lt_of_le hv h.size_constraints
  | implication tag p c name ihp ihc => exact ⟨ihp hv.1, ihc hv.2⟩
  | _ => exact trivial

/-- The invariant is kept if what is new may be held. -/
theorem Sound.of_spares (hw : w.Sound) (h : Spares r w w') (apart : w'.heap.Apart)
    (owned : ∀ n ∈ w'.owned, n < w'.heap.expressions.size)
    (registers : ∀ x ∈ w'.registers, x ∈ w.registers ∨ w'.Admits x.2)
    (fronts : ∀ f ∈ w'.fronts, f ∈ w.fronts ∨ w'.Admits f.base)
    (posted : ∀ k ∈ w'.models, ∀ v ∈ k.posted,
      (∃ k' ∈ w.models, v ∈ k'.posted) ∨ w'.Admits v) : w'.Sound where
  apart := apart
  owned := owned
  registers x hx := (registers x hx).elim (fun hx => (hw.registers x hx).mono h) id
  fronts f hf := (fronts f hf).elim (fun hf => (hw.fronts f hf).mono h) id
  posted k hk v hv :=
    (posted k hk v hv).elim (fun ⟨k', hk', hv'⟩ => (hw.posted k' hk' v hv').mono h) id

theorem sound_initial : Sound .initial where
  apart := .empty
  owned n hn := by simp [Workspace.owned, initial, Heap.empty] at hn
  registers x hx := by cases hx
  fronts f hf := by cases hf
  posted k hk := by cases hk

end Workspace

/-! ### Entries of lists -/

theorem Run.mem_setEntry {name : String} {v : Value} {xs : List (String × Value)}
    {x : String × Value} (hx : x ∈ setEntry name v xs) : x = (name, v) ∨ x ∈ xs := by
  induction xs with
  | nil => exact Or.inl (List.mem_singleton.1 hx)
  | cons y rest ih =>
      unfold setEntry at hx
      split at hx
      · exact (List.mem_cons.1 hx).imp_right (List.mem_cons_of_mem y)
      · rcases List.mem_cons.1 hx with rfl | hx
        · exact Or.inr List.mem_cons_self
        · exact (ih hx).imp_right (List.mem_cons_of_mem y)

/-- A member of a list that is changed at one place is a member or what one becomes. -/
theorem mem_of_mem_modify {α : Type} {f : α → α} {xs : List α} {n : Nat} {x : α}
    (hx : x ∈ xs.modify n f) : x ∈ xs ∨ ∃ y ∈ xs, x = f y := by
  obtain ⟨k, hk⟩ := List.mem_iff_getElem?.1 hx
  rw [List.getElem?_modify] at hk
  obtain ⟨y, hy, rfl⟩ := Option.map_eq_some_iff.1 hk
  have hmem := List.mem_of_getElem? hy
  split
  · exact Or.inr ⟨y, hmem, rfl⟩
  · exact Or.inl hmem

/-! ### Safe steps -/

namespace Run

open Workspace

variable {β γ : Type} {r : Reach} {w : Workspace}

/-- The outcome of a step, and the workspace that it leaves. -/
def outcome (x : Run β) (w : Workspace) : Except Refusal β × Workspace := x.run.run w

/-- From a sound workspace the step leaves a sound one, it goes no further than `r`, also when it is
refused, and what it makes is as it should be. -/
def Safe (r : Reach) (x : Run β) (w : Workspace) (Q : Workspace → β → Prop) : Prop :=
  w.Sound → (outcome x w).2.Sound ∧ Spares r w (outcome x w).2 ∧
    ∀ b, (outcome x w).1 = .ok b → Q (outcome x w).2 b

theorem safe_of_sound {x : Run β} {Q : Workspace → β → Prop} (h : w.Sound → Safe r x w Q) :
    Safe r x w Q :=
  fun hw => h hw hw

theorem safe_pure {b : β} {Q : Workspace → β → Prop} (h : w.Sound → Q w b) :
    Safe r (pure b) w Q := by
  intro hw
  refine ⟨hw, .refl r w, fun b' hb => ?_⟩
  cases hb
  exact h hw

theorem safe_throw {refusal : Refusal} {Q : Workspace → β → Prop} :
    Safe r (throw refusal) w Q :=
  fun hw => ⟨hw, .refl r w, fun _ hb => nomatch hb⟩

/-- What a step makes may be told less of, and it may go further. -/
theorem Safe.weaken {r' : Reach} {x : Run β} {P Q : Workspace → β → Prop} (hx : Safe r x w P)
    (hr : ∀ w', Spares r w w' → Spares r' w w')
    (hpq : ∀ w' b, w'.Sound → Spares r w w' → P w' b → Q w' b) : Safe r' x w Q := by
  intro hw
  obtain ⟨hw', hs, hb⟩ := hx hw
  exact ⟨hw', hr _ hs, fun b h => hpq _ b hw' hs (hb b h)⟩

theorem Safe.imp {x : Run β} {P Q : Workspace → β → Prop} (hx : Safe r x w P)
    (hpq : ∀ w' b, w'.Sound → Spares r w w' → P w' b → Q w' b) : Safe r x w Q :=
  hx.weaken (fun _ h => h) hpq

theorem Safe.of_additions {x : Run β} {Q : Workspace → β → Prop} (hx : Safe .additions x w Q)
    (r : Reach) : Safe r x w Q :=
  hx.weaken (fun _ h => h.of_additions r) fun _ _ _ _ h => h

theorem outcome_bind {x : Run β} {f : β → Run γ} {w' : Workspace} {b : β}
    (h : outcome x w = (.ok b, w')) : outcome (x >>= f) w = outcome (f b) w' := by
  simp only [outcome, ExceptT.run_bind, StateT.run_bind] at h ⊢
  rw [h]
  rfl

theorem outcome_bind_of_error {x : Run β} {f : β → Run γ} {w' : Workspace} {refusal : Refusal}
    (h : outcome x w = (.error refusal, w')) : outcome (x >>= f) w = (.error refusal, w') := by
  simp only [outcome, ExceptT.run_bind, StateT.run_bind] at h ⊢
  rw [h]
  rfl

/-- A look leaves the workspace as it is. -/
theorem outcome_look_bind {x : Look β} {f : β → Run γ} {b : β} (h : x.run w = .ok b) :
    outcome ((liftM x : Run β) >>= f) w = outcome (f b) w := by
  have hx : outcome (liftM x : Run β) w = (.ok b, w) := congrArg (·, w) h
  exact outcome_bind hx

theorem outcome_look_bind_of_error {x : Look β} {f : β → Run γ} {refusal : Refusal}
    (h : x.run w = .error refusal) :
    outcome ((liftM x : Run β) >>= f) w = (.error refusal, w) := by
  have hx : outcome (liftM x : Run β) w = (.error refusal, w) := congrArg (·, w) h
  exact outcome_bind_of_error hx

/-- **Safe steps can follow each other.** -/
theorem safe_bind {x : Run β} {f : β → Run γ} {P : Workspace → β → Prop}
    {Q : Workspace → γ → Prop} (hx : Safe r x w P)
    (hf : ∀ w' b, Spares r w w' → P w' b → Safe r (f b) w' Q) : Safe r (x >>= f) w Q := by
  intro hw
  obtain ⟨hw', hs, hb⟩ := hx hw
  cases hout : outcome x w with
  | mk result w' =>
      rw [hout] at hw' hs hb
      cases result with
      | error refusal =>
          -- what the first one changed until it was refused stays changed
          rw [outcome_bind_of_error hout]
          exact ⟨hw', hs, fun _ h => nomatch h⟩
      | ok b =>
          rw [outcome_bind hout]
          obtain ⟨hw'', hs', hc⟩ := hf w' b hs (hb b rfl) hw'
          exact ⟨hw'', hs.trans hs', hc⟩

theorem safe_look {x : Look β} {Q : Workspace → β → Prop}
    (h : ∀ b, x.run w = .ok b → w.Sound → Q w b) : Safe r (liftM x : Run β) w Q :=
  fun hw => ⟨hw, .refl r w, fun b hb => h b hb hw⟩

theorem safe_look_bind {x : Look β} {f : β → Run γ} {Q : Workspace → γ → Prop}
    (h : ∀ b, x.run w = .ok b → Safe r (f b) w Q) : Safe r ((liftM x : Run β) >>= f) w Q := by
  intro hw
  cases hx : x.run w with
  | error refusal =>
      rw [outcome_look_bind_of_error hx]
      exact ⟨hw, .refl r w, fun _ hb => nomatch hb⟩
  | ok b =>
      rw [outcome_look_bind hx]
      exact h b hx hw

theorem safe_get_bind {f : Workspace → Run β} {Q : Workspace → β → Prop}
    (h : Safe r (f w) w Q) : Safe r (get >>= f) w Q :=
  safe_bind (P := fun w' v => w' = w ∧ v = w)
    (fun hw => ⟨hw, .refl r w, fun _ hb => ⟨rfl, (Except.ok.inj hb).symm⟩⟩)
    fun _ _ _ hv => hv.1 ▸ hv.2 ▸ h

/-- A change of the workspace that is made at one go. -/
theorem safe_modifyGet {f : Workspace → β × Workspace} {Q : Workspace → β → Prop}
    (h : w.Sound → (f w).2.Sound ∧ Spares r w (f w).2 ∧ Q (f w).2 (f w).1) :
    Safe r (modifyGet f) w Q := by
  intro hw
  obtain ⟨hw', hs, hq⟩ := h hw
  refine ⟨hw', hs, fun b hb => ?_⟩
  cases hb
  exact hq

theorem safe_map {x : Run β} {f : β → γ} {P : Workspace → β → Prop} {Q : Workspace → γ → Prop}
    (hx : Safe r x w P) (h : ∀ w' b, P w' b → Q w' (f b)) : Safe r (f <$> x) w Q := by
  rw [map_eq_pure_bind]
  exact safe_bind hx fun w' b _ hb => safe_pure fun _ => h w' b hb

/-- Safe steps for the members of a list can follow each other. -/
theorem safe_mapM {f : β → Run γ} {Q : Workspace → γ → Prop} {xs : List β}
    (hmono : ∀ w₁ w₂ c, Spares r w₁ w₂ → Q w₁ c → Q w₂ c)
    (hf : ∀ w', Spares r w w' → ∀ x ∈ xs, Safe r (f x) w' Q) :
    Safe r (xs.mapM f) w fun w' cs => ∀ c ∈ cs, Q w' c := by
  induction xs generalizing w with
  | nil => exact safe_pure fun _ c hc => nomatch hc
  | cons x rest ih =>
      rw [List.mapM_cons]
      refine safe_bind (hf w (.refl r w) x List.mem_cons_self) fun w₁ c hs hc => ?_
      have hrest := ih fun w' hs' y hy => hf w' (hs.trans hs') y (List.mem_cons_of_mem x hy)
      refine safe_bind hrest fun w₂ cs hs' hcs => safe_pure fun _ d hd => ?_
      rcases List.mem_cons.1 hd with rfl | hd
      · -- made first, and still as it should be after the others
        exact hmono _ _ _ hs' hc
      · exact hcs d hd

/-! ### New objects -/

theorem mem_owned {n : Nat} :
    n ∈ w.owned ↔ (∃ o ∈ w.heap.constraints.toList, o.expression = n) ∨
      ∃ k ∈ w.models, k.objective.map Prod.snd = some n := by
  simp only [owned, List.mem_append, List.mem_map, List.mem_filterMap]

/-- Adding to a workspace is safe as long as no expression object that was there gets an owner. -/
theorem sound_of_additions {w' : Workspace} (hw : w.Sound) (hs : Spares r w w')
    (apart : w'.heap.Apart)
    (owned : ∀ n ∈ w'.owned, n ∈ w.owned ∨ n < w'.heap.expressions.size)
    (registers : w'.registers = w.registers)
    (fronts : ∀ f ∈ w'.fronts, f ∈ w.fronts ∨ w'.Admits f.base)
    (posted : ∀ k ∈ w'.models, k ∈ w.models ∨ ∀ v ∈ k.posted, w.Admits v) : w'.Sound := by
  refine hw.of_spares hs apart (fun n hn => ?_) (fun x hx => Or.inl (registers ▸ hx)) fronts
    fun k hk v hv => ?_
  · exact (owned n hn).elim (fun h => Nat.lt_of_lt_of_le (hw.owned n h) hs.size) id
  · exact (posted k hk).elim (fun h => Or.inl ⟨k, h, hv⟩) fun h => Or.inr ((h v hv).mono hs)

/-- A new expression object belongs to nothing and may be held. -/
theorem safe_newExpression (e : Expression Number) : Safe r (newExpression e) w Admits := by
  refine safe_modifyGet fun hw => ?_
  have hs : Spares r w { w with heap := w.heap.newExpression e } := by
    refine ⟨?_, fun _ _ h => h, fun _ _ _ h => Heap.terms?_newExpression_of_terms? h,
      fun _ _ h => h, fun _ => List.prefix_refl _, fun _ => rfl⟩
    simp [Heap.newExpression]
  refine ⟨sound_of_additions hw hs (hw.apart.newExpression e) (fun _ h => Or.inl h) rfl
    (fun _ h => Or.inl h) fun _ h => Or.inl h, hs, ?_, fun hown => ?_⟩
  · simp [Heap.newExpression]
  · exact Nat.lt_irrefl _ (hw.owned _ hown)

/-- A new constraint object owns a new expression object. -/
theorem safe_newConstraint_owned (c : Constraint Number) :
    Safe r (newConstraint c) w fun w' v =>
      w'.Admits v ∧ w.heap.expressions.size ∈ w'.owned := by
  refine safe_modifyGet fun hw => ?_
  let w' : Workspace :=
    { w with
      heap := (w.heap.newExpression c.expression).newConstraint
        ⟨c.relation, w.heap.expressions.size, c.name⟩ }
  have howned : ∀ n ∈ w'.owned, n ∈ w.owned ∨ n = w.heap.expressions.size := by
    intro n hn
    simp only [mem_owned, w', Heap.newConstraint, Heap.newExpression, Array.toList_push,
      List.mem_append, List.mem_singleton] at hn ⊢
    grind
  have hs : Spares r w w' := by
    refine ⟨?_, fun n o h => ?_, fun _ _ _ h => Heap.terms?_newExpression_of_terms? h,
      fun n hn hown => ?_, fun _ => List.prefix_refl _, fun _ => rfl⟩
    · simp [w', Heap.newConstraint, Heap.newExpression]
    · have hn := (Array.getElem?_eq_some_iff.1 h).1
      simp [w', Heap.newConstraint, Heap.newExpression, Array.getElem?_push, Nat.ne_of_lt hn, h]
    · exact (howned n hown).resolve_right (Nat.ne_of_lt hn)
  refine ⟨sound_of_additions hw hs ((hw.apart.newExpression _).newConstraint _) (fun n hn => ?_)
    rfl (fun _ h => Or.inl h) fun _ h => Or.inl h, hs, ?_, ?_⟩
  · refine (howned n hn).imp_right fun h => ?_
    simp [Heap.newConstraint, Heap.newExpression, h]
  · simp [Admits, Heap.newConstraint, Heap.newExpression]
  · exact mem_owned.2 (Or.inl ⟨⟨c.relation, w.heap.expressions.size, c.name⟩, by
      simp [Heap.newConstraint, Heap.newExpression], rfl⟩)

theorem safe_newConstraint (c : Constraint Number) : Safe r (newConstraint c) w Admits :=
  (safe_newConstraint_owned c).imp fun _ _ _ _ h => h.1

/-- A new constraint object may share the expression object of another one. -/
theorem safe_shareConstraint {o : ConstraintObject} (ho : o.expression ∈ w.owned) :
    Safe r (shareConstraint o) w Admits := by
  refine safe_modifyGet fun hw => ?_
  let w' : Workspace := { w with heap := w.heap.newConstraint o }
  have howned : ∀ n ∈ w'.owned, n ∈ w.owned := by
    intro n hn
    simp only [mem_owned, w', Heap.newConstraint, Array.toList_push, List.mem_append,
      List.mem_singleton] at hn ho ⊢
    grind
  have hs : Spares r w w' := by
    refine ⟨Nat.le_refl _, fun n o h => ?_, fun _ _ _ h => h, fun n _ hown => howned n hown,
      fun _ => List.prefix_refl _, fun _ => rfl⟩
    have hn := (Array.getElem?_eq_some_iff.1 h).1
    simp [w', Heap.newConstraint, Array.getElem?_push, Nat.ne_of_lt hn, h]
  refine ⟨sound_of_additions hw hs (hw.apart.newConstraint o)
    (fun n hn => Or.inl (howned n hn)) rfl (fun _ h => Or.inl h) fun _ h => Or.inl h, hs, ?_⟩
  simp [Admits, Heap.newConstraint]

/-- A change of a workspace in front of which and behind which the objects and models are the same. -/
theorem spares_of_eq {w' : Workspace} (hheap : w'.heap = w.heap) (hmodels : w'.models = w.models)
    (hregisters : w'.registers = w.registers) : Spares r w w' := by
  have howned : w'.owned = w.owned := by simp only [owned, hheap, hmodels]
  exact ⟨Nat.le_of_eq (by rw [hheap]), fun _ _ h => hheap ▸ h, fun _ _ _ h => hheap ▸ h,
    fun _ _ h => howned ▸ h, fun _ => hmodels ▸ List.prefix_refl _, fun _ => hregisters⟩

theorem safe_newImplication {p c : Value} (hp : w.Admits p) (hc : w.Admits c)
    (name : Option String) : Safe r (newImplication p c name) w Admits := by
  refine safe_modifyGet fun hw => ?_
  have hs : Spares r w { w with nextTag := w.nextTag + 1 } := spares_of_eq rfl rfl rfl
  exact ⟨sound_of_additions hw hs hw.apart (fun _ h => Or.inl h) rfl (fun _ h => Or.inl h)
    fun _ h => Or.inl h, hs, hp.mono hs, hc.mono hs⟩

/-- A new model is safe if what is posted to it may be held, and its objective shares the expression object
of another one. -/
theorem safe_add {k : Kept} (hposted : ∀ v ∈ k.posted, w.Admits v)
    (hobjective : ∀ n, k.objective.map Prod.snd = some n → n ∈ w.owned) :
    Safe r (add k) w fun _ _ => True := by
  refine safe_modifyGet fun hw => ?_
  let w' : Workspace := { w with models := w.models ++ [k] }
  have howned : ∀ n ∈ w'.owned, n ∈ w.owned := by
    intro n hn
    simp only [mem_owned, w', List.mem_append, List.mem_singleton] at hn hobjective ⊢
    grind
  have hs : Spares r w w' :=
    ⟨Nat.le_refl _, fun _ _ h => h, fun _ _ _ h => h, fun n _ h => howned n h,
      fun _ => List.prefix_append _ _, fun _ => rfl⟩
  refine ⟨sound_of_additions hw hs hw.apart (fun n h => Or.inl (howned n h)) rfl
    (fun _ h => Or.inl h) fun k' hk' => ?_, hs, trivial⟩
  rcases List.mem_append.1 hk' with hk' | hk'
  · exact Or.inl hk'
  · exact Or.inr (List.mem_singleton.1 hk' ▸ hposted)

theorem safe_newModel {m : Model Number} {constraints implications : List Value}
    {objective : Option (Sense × Nat)} (hposted : ∀ v ∈ constraints ++ implications, w.Admits v)
    (hobjective : ∀ n, objective.map Prod.snd = some n → n ∈ w.owned) :
    Safe r (newModel m constraints implications objective) w fun _ _ => True := by
  have h := safe_add (r := r) (w := w)
    (k := ⟨m, w.models.length, constraints, implications, objective⟩) hposted hobjective
  exact h

/-- A new model may have an objective with a new expression object. -/
theorem safe_newModelWith {m : Model Number} {constraints implications : List Value}
    (hposted : ∀ v ∈ constraints ++ implications, w.Admits v) (sense : Sense)
    (e : Expression Number) :
    Safe r (newModelWith m constraints implications sense e) w fun w' _ =>
      w.heap.expressions.size ∈ w'.owned := by
  refine safe_modifyGet fun hw => ?_
  let k : Kept :=
    ⟨m, w.models.length, constraints, implications, some (sense, w.heap.expressions.size)⟩
  let w' : Workspace := { w with heap := w.heap.newExpression e, models := w.models ++ [k] }
  have howned : ∀ n ∈ w'.owned, n ∈ w.owned ∨ n = w.heap.expressions.size := by
    intro n hn
    simp only [mem_owned, w', Heap.newExpression, List.mem_append, List.mem_singleton] at hn ⊢
    grind
  have hsize : w.heap.expressions.size < w'.heap.expressions.size := by
    simp [w', Heap.newExpression]
  have hs : Spares r w w' :=
    ⟨Nat.le_of_lt hsize, fun _ _ h => h, fun _ _ _ h => Heap.terms?_newExpression_of_terms? h,
      fun n hn h => (howned n h).resolve_right (Nat.ne_of_lt hn),
      fun _ => List.prefix_append _ _, fun _ => rfl⟩
  refine ⟨sound_of_additions hw hs (hw.apart.newExpression e) (fun n hn => ?_) rfl
    (fun _ h => Or.inl h) fun k' hk' => ?_, hs, ?_⟩
  · refine (howned n hn).imp_right fun h => ?_
    rw [h]
    exact hsize
  · rcases List.mem_append.1 hk' with hk' | hk'
    · exact Or.inl hk'
    · exact Or.inr (List.mem_singleton.1 hk' ▸ hposted)
  · exact mem_owned.2 (Or.inr ⟨k, List.mem_append_right _ (List.mem_singleton_self k), rfl⟩)

/-- Remarks are safe. -/
theorem safe_note (ns : List (Notice Number)) : Safe r (note ns) w fun _ _ => True := by
  refine safe_modifyGet fun hw => ?_
  have hs : Spares r w { w with notices := w.notices ++ ns } := spares_of_eq rfl rfl rfl
  exact ⟨sound_of_additions hw hs hw.apart (fun _ h => Or.inl h) rfl (fun _ h => Or.inl h)
    fun _ h => Or.inl h, hs, trivial⟩

/-- A new solver is safe in front of what may be held. -/
theorem safe_newFront {f : Front} (hf : w.Admits f.base) : Safe r (newFront f) w Admits := by
  refine safe_modifyGet fun hw => ?_
  have hs : Spares r w { w with fronts := w.fronts ++ [f] } := spares_of_eq rfl rfl rfl
  refine ⟨sound_of_additions hw hs hw.apart (fun _ h => Or.inl h) rfl (fun g hg => ?_)
    fun _ h => Or.inl h, hs, trivial⟩
  rcases List.mem_append.1 hg with hg | hg
  · exact Or.inl hg
  · exact Or.inr (List.mem_singleton.1 hg ▸ hf.mono hs)

/-! ### Terms, registers and models -/

/-- Other terms for an expression object are safe. -/
theorem safe_setTerms (n : Nat) (e : Expression Number) :
    Safe (.terms n) (setTerms n e) w fun _ _ => True := by
  refine safe_modifyGet fun hw => ?_
  let w' : Workspace := { w with heap := w.heap.write n e }
  have howned : w'.owned = w.owned := by simp [w', owned]
  have hs : Spares (.terms n) w w' := by
    refine ⟨Nat.le_of_eq (by simp [w']), fun k o h => by simpa [w'] using h, fun k f hk h => ?_,
      fun _ _ h => howned ▸ h, Reach.noConfusion, Reach.noConfusion⟩
    have hkn : k ≠ n := fun h => hk (h ▸ rfl)
    rwa [Heap.terms?_write_of_ne hw.apart hkn]
  refine ⟨hw.of_spares hs (hw.apart.write n e) (fun k hk => ?_) (fun _ h => Or.inl h)
    (fun _ h => Or.inl h) fun k hk v hv => Or.inl ⟨k, hk, hv⟩, hs, trivial⟩
  rw [Heap.expressions_write]
  exact hw.owned k (howned ▸ hk)

/-- What may be held may be put into a register. -/
theorem safe_setRegister (name : String) {v : Value} (hv : w.Admits v) :
    Safe .records (setRegister name v) w fun _ _ => True := by
  refine safe_modifyGet fun hw => ?_
  let w' : Workspace := { w with registers := setEntry name v w.registers }
  have hs : Spares .records w w' :=
    ⟨Nat.le_refl _, fun _ _ h => h, fun _ _ _ h => h, fun _ _ h => h, Reach.noConfusion,
      Reach.noConfusion⟩
  refine ⟨hw.of_spares hs hw.apart hw.owned (fun x hx => ?_) (fun _ h => Or.inl h)
    fun k hk u hu => Or.inl ⟨k, hk, hu⟩, hs, trivial⟩
  rcases mem_setEntry hx with rfl | hx
  · exact Or.inr (hv.mono hs)
  · exact Or.inl hx

/-- Models may change as long as they keep their objectives, and may post what may be held. -/
theorem safe_mapModels {f : Kept → Kept} (hobjective : ∀ k, (f k).objective = k.objective)
    (hposted : ∀ k, ∀ v ∈ (f k).posted, v ∈ k.posted ∨ w.Admits v) :
    Safe .records (modify fun w => { w with models := w.models.map f }) w fun _ _ => True := by
  refine safe_modifyGet fun hw => ?_
  let w' : Workspace := { w with models := w.models.map f }
  have howned : w'.owned = w.owned := by
    simp only [w', owned, List.filterMap_map, Function.comp_def, hobjective]
  have hs : Spares .records w w' :=
    ⟨Nat.le_refl _, fun _ _ h => h, fun _ _ _ h => h, fun _ _ h => howned ▸ h,
      Reach.noConfusion, Reach.noConfusion⟩
  refine ⟨hw.of_spares hs hw.apart (fun n hn => hw.owned n (howned ▸ hn)) (fun _ h => Or.inl h)
    (fun _ h => Or.inl h) fun k hk v hv => ?_, hs, trivial⟩
  obtain ⟨k', hk', rfl⟩ := List.mem_map.1 hk
  exact (hposted k' v hv).imp (fun h => ⟨k', hk', h⟩) fun h => h.mono hs

theorem safe_changeFamily (family : Nat) {f : Kept → Kept}
    (hobjective : ∀ k, (f k).objective = k.objective)
    (hposted : ∀ k, ∀ v ∈ (f k).posted, v ∈ k.posted ∨ w.Admits v) :
    Safe .records (changeFamily family f) w fun _ _ => True := by
  refine safe_mapModels (fun k => ?_) fun k v hv => ?_
  · split
    · exact hobjective k
    · rfl
  · split at hv
    · exact hposted k v hv
    · exact Or.inl hv

theorem safe_setSlots (place : Nat) (m : Model Number) :
    Safe .records (setSlots place m) w fun _ _ => True :=
  safe_look_bind fun _ _ => safe_changeFamily _ (fun _ => rfl) fun _ _ hv => Or.inl hv

theorem safe_keep (place : Nat) {constraints implications : List Value}
    (h : ∀ v ∈ constraints ++ implications, w.Admits v) :
    Safe .records (keep place constraints implications) w fun _ _ => True := by
  refine safe_look_bind fun _ _ => safe_changeFamily _ (fun _ => rfl) fun k v hv => ?_
  simp only [Kept.posted, List.mem_append] at hv h ⊢
  grind

/-- A new objective owns a new expression object. -/
theorem safe_keepObjective (place : Nat) (sense : Sense) (e : Expression Number) :
    Safe .records (keepObjective place sense e) w fun _ _ => True := by
  refine safe_modifyGet fun hw => ?_
  -- the expression object of the objective that was there is owned by nothing from now on
  let put : Kept → Kept := fun k => { k with objective := some (sense, w.heap.expressions.size) }
  let w' : Workspace :=
    { w with heap := w.heap.newExpression e, models := w.models.modify place put }
  have hmem : ∀ k ∈ w'.models, k ∈ w.models ∨ ∃ k' ∈ w.models, k = put k' := by
    intro k hk
    exact mem_of_mem_modify hk
  have howned : ∀ n ∈ w'.owned, n ∈ w.owned ∨ n = w.heap.expressions.size := by
    intro n hn
    rcases mem_owned.1 hn with h | ⟨k, hk, ho⟩
    · exact Or.inl (mem_owned.2 (Or.inl h))
    · rcases hmem k hk with hk | ⟨k', -, rfl⟩
      · exact Or.inl (mem_owned.2 (Or.inr ⟨k, hk, ho⟩))
      · exact Or.inr (Option.some.inj ho).symm
  have hsize : w.heap.expressions.size < w'.heap.expressions.size := by
    simp [w', Heap.newExpression]
  have hs : Spares .records w w' :=
    ⟨Nat.le_of_lt hsize, fun _ _ h => h, fun _ _ _ h => Heap.terms?_newExpression_of_terms? h,
      fun n hn h => (howned n h).resolve_right (Nat.ne_of_lt hn), Reach.noConfusion,
      Reach.noConfusion⟩
  refine ⟨hw.of_spares hs (hw.apart.newExpression e) (fun n hn => ?_) (fun _ h => Or.inl h)
    (fun _ h => Or.inl h) fun k hk v hv => ?_, hs, trivial⟩
  · rcases howned n hn with hn | rfl
    · exact Nat.lt_trans (hw.owned n hn) hsize
    · exact hsize
  · rcases hmem k hk with hk | ⟨k', hk', rfl⟩
    · exact Or.inl ⟨k, hk, hv⟩
    · exact Or.inl ⟨k', hk', hv⟩

/-- A workspace with the same objects, models and registers is sound if its solvers stand in front of what
they stood in front of. -/
theorem sound_of_eq {w' : Workspace} (hw : w.Sound) (hheap : w'.heap = w.heap)
    (hmodels : w'.models = w.models) (hregisters : w'.registers = w.registers)
    (hfronts : ∀ g ∈ w'.fronts, ∃ g' ∈ w.fronts, g.base = g'.base) : w'.Sound := by
  have hs : Spares .additions w w' := spares_of_eq hheap hmodels hregisters
  refine sound_of_additions hw hs (hheap ▸ hw.apart) (fun n hn => ?_) hregisters
    (fun g hg => ?_) fun k hk => Or.inl (hmodels ▸ hk)
  · simp only [owned, hheap, hmodels] at hn
    exact Or.inl hn
  · obtain ⟨g', hg', hbase⟩ := hfronts g hg
    exact Or.inr (hbase ▸ (hw.fronts g' hg').mono hs)

theorem safe_modify_of_eq {f : Workspace → Workspace} (hheap : (f w).heap = w.heap)
    (hmodels : (f w).models = w.models) (hregisters : (f w).registers = w.registers)
    (hfronts : ∀ g ∈ (f w).fronts, ∃ g' ∈ w.fronts, g.base = g'.base) :
    Safe r (modify f) w fun _ _ => True :=
  safe_modifyGet fun hw => ⟨sound_of_eq hw hheap hmodels hregisters hfronts,
    spares_of_eq hheap hmodels hregisters, trivial⟩

end Run

end MixedInteger.Script
