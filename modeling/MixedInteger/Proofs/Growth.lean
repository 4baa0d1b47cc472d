/-
**The value of a term is new or was there.**

Evaluating a term makes objects and changes none.  Whatever expression object the value is, it is one that
a register holds or a new one that nothing owns: no operator, no copy and no question for a part hands out
the expression object of a constraint.

Main results:

* `MixedInteger.Script.safe_operate` — operators;
* `MixedInteger.Script.safe_copy`, `MixedInteger.Script.safe_deepCopy` — copies, among them those that
  share an expression object;
* `MixedInteger.Script.safe_evaluate` — **terms**.
-/

import MixedInteger.Proofs.Separation
import MixedInteger.Script.Evaluation

set_option autoImplicit false

namespace MixedInteger.Script

open Run Workspace

variable {r : Reach} {w : Workspace}

/-! ### Looks at values -/

/-- What a look tells has a property, unless it is refused. -/
def Look.Gives {β : Type} (x : Look β) (w : Workspace) (Q : β → Prop) : Prop :=
  ∀ b, x.run w = .ok b → Q b

namespace Look

variable {β γ : Type} {Q : β → Prop}

theorem gives_pure {b : β} (h : Q b) : Gives (pure b) w Q := by
  intro b' hb
  cases hb
  exact h

theorem gives_throw {refusal : Refusal} : Gives (throw refusal) w Q :=
  fun _ hb => nomatch hb

theorem gives_bind {x : Look γ} {f : γ → Look β} (hf : ∀ c, x.run w = .ok c → Gives (f c) w Q) :
    Gives (x >>= f) w Q := by
  intro b hb
  rw [ReaderT.run_bind] at hb
  cases hx : x.run w with
  | error refusal =>
      rw [hx] at hb
      cases hb
  | ok c =>
      rw [hx] at hb
      exact hf c hx b hb

theorem gives_orRefuse {x : Option β} {refusal : Refusal} (h : ∀ b, x = some b → Q b) :
    Gives (orRefuse x refusal) w Q := by
  unfold orRefuse
  cases x with
  | none => exact gives_throw
  | some b => exact gives_pure (h b rfl)

end Look

open Look

theorem gives_unlike (op : Operator) : Gives (unlike op) w w.Admits := by
  unfold unlike
  split
  · exact gives_pure trivial
  · exact gives_pure trivial
  · exact gives_throw

theorem admits_ofNumber (a : Number) : w.Admits (.ofNumber a) := by
  cases a <;> exact trivial

theorem gives_textOperation (op : Operator) (s t : String) :
    Gives (orRefuse (textOperation op s t) .wrongSort) w w.Admits := by
  refine gives_orRefuse fun v hv => ?_
  unfold textOperation at hv
  split at hv
  case h_6 => cases hv
  all_goals
    cases hv
    exact trivial

/-- An operator on plain values makes a plain value. -/
theorem gives_plainOperation (op : Operator) (a b : Value) :
    Gives (plainOperation op a b) w w.Admits := by
  unfold plainOperation
  split
  · split
    · exact gives_pure trivial
    · refine gives_bind fun x _ => ?_
      split
      · exact gives_pure (admits_ofNumber _)
      · exact gives_throw
  · split
    · exact gives_textOperation _ _ _
    · split
      · exact gives_pure trivial
      · exact gives_pure trivial
      · exact gives_throw
    · split
      · exact gives_bind fun _ _ => gives_pure trivial
      · exact gives_unlike _
    · split
      · exact gives_bind fun _ _ => gives_pure trivial
      · exact gives_unlike _
    · exact gives_unlike _

/-- What a register holds may be held. -/
theorem admits_of_held? (hw : w.Sound) {name : String} {v : Value} (h : w.held? name = some v) :
    w.Admits v := by
  obtain ⟨x, hx, rfl⟩ := Option.map_eq_some_iff.1 h
  exact hw.registers x (List.mem_of_find?_eq_some hx)

theorem gives_register (name : String) : Gives (register name) w (w.held? name = some ·) := by
  refine gives_bind fun w' hw' => ?_
  cases hw'
  exact gives_orRefuse fun v hv => hv

theorem gives_front (n : Nat) : Gives (front n) w (· ∈ w.fronts) := by
  refine gives_bind fun w' hw' => ?_
  cases hw'
  exact gives_orRefuse fun f hf => List.mem_of_getElem? hf

theorem gives_kept (n : Nat) : Gives (kept n) w (· ∈ w.models) := by
  refine gives_bind fun w' hw' => ?_
  cases hw'
  exact gives_orRefuse fun k hk => List.mem_of_getElem? hk

/-- A constraint object owns its expression object. -/
theorem gives_constraintObject (n : Nat) :
    Gives (constraintObject n) w fun o => o.expression ∈ w.owned := by
  refine gives_bind fun w' hw' => ?_
  cases hw'
  refine gives_orRefuse fun o ho => mem_owned.2 (Or.inl ⟨o, ?_, rfl⟩)
  exact Array.mem_toList_iff.2 (Array.mem_of_getElem? ho)

/-! ### Operators -/

theorem safe_look_of {x : Look Value} (hx : Gives x w w.Admits) :
    Safe r (liftM x : Run Value) w Admits :=
  safe_look fun v hv _ => hx v hv

theorem safe_newExpression_look (x : Look (Expression Number)) :
    Safe r (do newExpression (← x)) w Admits :=
  safe_look_bind fun e _ => safe_newExpression e

theorem safe_newConstraint_look (x : Look (Constraint Number)) :
    Safe r (do newConstraint (← x)) w Admits :=
  safe_look_bind fun c _ => safe_newConstraint c

theorem safe_comparison (op : Operator) (e f : Expression Number) :
    Safe r (comparison op e f) w Admits := by
  unfold comparison
  cases op
  case atMost => exact safe_newConstraint_look _
  case atLeast => exact safe_newConstraint_look _
  case equal => exact safe_newConstraint_look _
  case different => exact safe_look_bind fun _ _ => safe_throw
  all_goals exact safe_throw

theorem safe_impliedByOne (e : Expression Number) {c : Value} (hc : w.Admits c) :
    Safe r (impliedByOne e c) w Admits :=
  safe_bind (safe_comparison _ _ _) fun _ _ hs hp => safe_newImplication hp (hc.mono hs) none

theorem safe_operateLeft (op : Operator) (e : Expression Number) {b : Value} (hb : w.Admits b) :
    Safe r (operateLeft op e b) w Admits := by
  unfold operateLeft
  split
  · refine safe_look_bind fun o _ => ?_
    split
    · exact safe_newExpression_look _
    · exact safe_throw
  · split
    · refine safe_look_bind fun f _ => ?_
      split
      · exact safe_comparison op e _
      · exact safe_look_of (gives_unlike op)
    · split
      · exact safe_impliedByOne e hb
      · exact safe_throw
      · exact safe_throw

theorem safe_operateRight (op : Operator) {a : Value} (ha : w.Admits a) (e : Expression Number) :
    Safe r (operateRight op a e) w Admits := by
  unfold operateRight
  split
  · split
    · exact safe_look_bind fun _ _ => safe_newExpression_look _
    · split
      · exact safe_look_bind fun _ _ => safe_comparison _ _ _
      · exact safe_look_bind fun _ _ => safe_comparison _ _ _
      · exact safe_look_bind fun _ _ => safe_comparison _ _ _
      · exact safe_look_bind fun _ _ => safe_comparison _ _ _
      · exact safe_throw
  · split
    · exact safe_impliedByOne e ha
    · exact safe_look_of (gives_unlike op)

theorem safe_operateOther (op : Operator) {a b : Value} (ha : w.Admits a) (hb : w.Admits b) :
    Safe r (operateOther op a b) w Admits := by
  unfold operateOther
  split
  · exact safe_newImplication ha hb none
  · exact safe_newImplication hb ha none
  · refine safe_look_bind fun e _ => ?_
    split
    · exact safe_impliedByOne _ ha
    · exact safe_throw
  · split
    · split
      · exact safe_pure fun _ => trivial
      · exact safe_pure fun _ => trivial
      · exact safe_throw
    · exact safe_look_of (gives_plainOperation _ _ _)

theorem safe_operate (op : Operator) {a b : Value} (ha : w.Admits a) (hb : w.Admits b) :
    Safe r (operate op a b) w Admits := by
  refine safe_look_bind fun e _ => ?_
  split
  · exact safe_operateLeft op _ hb
  · refine safe_look_bind fun e _ => ?_
    split
    · exact safe_operateRight op ha _
    · exact safe_operateOther op ha hb

theorem safe_negate (a : Value) : Safe r (negate a) w Admits := by
  refine safe_look_bind fun e _ => ?_
  split
  · exact safe_newExpression_look _
  · split
    · exact safe_pure fun _ => admits_ofNumber _
    · exact safe_throw

theorem safe_affirm (a : Value) : Safe r (affirm a) w Admits := by
  refine safe_look_bind fun e _ => ?_
  split
  · exact safe_newExpression _
  · split
    · exact safe_pure fun _ => admits_ofNumber _
    · exact safe_throw

theorem safe_complement (a : Value) : Safe r (complement a) w Admits := by
  refine safe_look_bind fun e _ => ?_
  split
  · exact safe_look_bind fun _ _ => safe_newConstraint_look _
  · split
    · exact safe_pure fun _ => trivial
    · exact safe_throw

/-! ### Copies -/

/-- A copy of what may be held may be held, also where it shares an expression object. -/
theorem safe_copy {v : Value} (hv : w.Admits v) : Safe r (copy v) w Admits := by
  refine safe_of_sound fun hw => ?_
  unfold copy
  split
  · exact safe_newExpression_look _
  · exact safe_look_bind fun o ho => safe_shareConstraint (gives_constraintObject _ o ho)
  · exact safe_newImplication hv.1 hv.2 _
  · refine safe_look_bind fun k hk => ?_
    have hk := gives_kept _ k hk
    have hadd := safe_add (r := r) (hw.posted k hk) fun n hn => mem_owned.2 (Or.inr ⟨k, hk, hn⟩)
    exact safe_bind hadd fun _ _ _ _ => safe_pure fun _ => trivial
  · exact safe_look_bind fun f hf => safe_newFront (hw.fronts f (gives_front _ f hf))
  · exact safe_pure fun _ => hv

/-! ### Deep copies -/

namespace Copying

variable {β γ : Type} {copies : Copies}

/-- An expression object that belongs to a constraint or an objective. -/
def IsOwned (w : Workspace) (v : Value) : Prop := ∃ n ∈ w.owned, v = .expression n

/-- The copy of an expression object that belongs to something belongs to something itself, and any other
copy may be held. -/
structure Faithful (w : Workspace) (copies : Copies) : Prop where
  isThere : ∀ x ∈ copies, ∀ n, x.1 = .expression n → n < w.heap.expressions.size
  owned : ∀ x ∈ copies, IsOwned w x.1 → IsOwned w x.2
  free : ∀ x ∈ copies, ¬ IsOwned w x.1 → w.Admits x.2

theorem mem_owned_of_additions {w' : Workspace} (hs : Spares .additions w w') {n : Nat}
    (hn : n ∈ w.owned) : n ∈ w'.owned := by
  rcases mem_owned.1 hn with ⟨o, ho, rfl⟩ | ⟨k, hk, ho⟩
  · obtain ⟨i, hi⟩ := Array.mem_iff_getElem?.1 (Array.mem_toList_iff.1 ho)
    have hmem := Array.mem_of_getElem? (hs.constraints i o hi)
    exact mem_owned.2 (Or.inl ⟨o, Array.mem_toList_iff.2 hmem, rfl⟩)
  · exact mem_owned.2 (Or.inr ⟨k, (hs.models rfl).subset hk, ho⟩)

theorem Faithful.nil : Faithful w [] := by
  constructor <;> intro x hx <;> cases hx

theorem Faithful.mono {w' : Workspace} (h : Faithful w copies) (hs : Spares .additions w w') :
    Faithful w' copies where
  isThere x hx n hn := Nat.lt_of_lt_of_le (h.isThere x hx n hn) hs.size
  owned x hx := by
    rintro ⟨n, hn, hxn⟩
    -- an object that was there and is owned now was owned before
    have hold := hs.owned n (h.isThere x hx n hxn) hn
    obtain ⟨m, hm, hxm⟩ := h.owned x hx ⟨n, hold, hxn⟩
    exact ⟨m, mem_owned_of_additions hs hm, hxm⟩
  free x hx hfree := by
    refine (h.free x hx fun ⟨n, hn, hxn⟩ => hfree ?_).mono hs
    exact ⟨n, mem_owned_of_additions hs hn, hxn⟩

/-- A safe step that makes copies, those made so far being remembered. -/
def Safe (x : Copying β) (w : Workspace) (copies : Copies) (Q : Workspace → β → Prop) : Prop :=
  Faithful w copies →
    Run.Safe .additions (x.run copies) w fun w' p => Faithful w' p.2 ∧ Q w' p.1

variable {Q : Workspace → β → Prop}

theorem safe_of_sound {x : Copying β} (h : w.Sound → Safe x w copies Q) : Safe x w copies Q :=
  fun hc => Run.safe_of_sound fun hw => h hw hc

theorem safe_pure {b : β} (h : w.Sound → Q w b) : Safe (pure b) w copies Q :=
  fun hc => Run.safe_pure fun hw => ⟨hc, h hw⟩

theorem safe_bind {x : Copying γ} {f : γ → Copying β} {P : Workspace → γ → Prop}
    (hx : Safe x w copies P)
    (hf : ∀ w' copies' c, Spares .additions w w' → P w' c → Safe (f c) w' copies' Q) :
    Safe (x >>= f) w copies Q := by
  intro hc
  rw [StateT.run_bind]
  exact Run.safe_bind (hx hc) fun w' p hs hp => hf w' p.2 p.1 hs hp.2 hp.1

theorem safe_lift {x : Run β} (hx : Run.Safe .additions x w Q) :
    Safe (liftM x : Copying β) w copies Q :=
  fun hc => Run.safe_bind hx fun _ _ hs hb => Run.safe_pure fun _ => ⟨hc.mono hs, hb⟩

theorem safe_look_bind {x : Look γ} {f : γ → Copying β}
    (h : ∀ c, x.run w = .ok c → Safe (f c) w copies Q) :
    Safe ((liftM x : Copying γ) >>= f) w copies Q := by
  intro hc
  have hrun : (liftM x : Copying γ).run copies = (liftM x : Run γ) >>= fun c => pure (c, copies) :=
    rfl
  rw [StateT.run_bind, hrun, bind_assoc]
  refine Run.safe_look_bind fun c hx => ?_
  rw [pure_bind]
  exact h c hx hc

theorem safe_get_bind {f : Copies → Copying β}
    (h : Faithful w copies → Safe (f copies) w copies Q) : Safe (get >>= f) w copies Q :=
  fun hc => h hc hc

theorem safe_remember {v u : Value}
    (h : w.Sound → Faithful w copies → Faithful w ((v, u) :: copies)) :
    Safe (remember v u) w copies fun _ _ => True :=
  fun hc => Run.safe_pure fun hw => ⟨h hw hc, trivial⟩

/-- Copies of what may be held, for the members of a list. -/
theorem safe_mapM {f : Value → Copying Value}
    (hf : ∀ w' copies' v, w'.Admits v → Safe (f v) w' copies' Admits) {vs : List Value}
    (hvs : ∀ v ∈ vs, w.Admits v) :
    Safe (vs.mapM f) w copies fun w' us => ∀ u ∈ us, w'.Admits u := by
  induction vs generalizing w copies with
  | nil => exact safe_pure fun _ u hu => nomatch hu
  | cons v rest ih =>
      rw [List.mapM_cons]
      refine safe_bind (hf w copies v (hvs v List.mem_cons_self)) fun w₁ copies₁ u hs hu => ?_
      have hrest := fun v' hv' => (hvs v' (List.mem_cons_of_mem v hv')).mono hs
      refine safe_bind (ih hrest) fun w₂ copies₂ us hs' hus => safe_pure fun _ u' hu' => ?_
      rcases List.mem_cons.1 hu' with rfl | hu'
      · exact hu.mono hs'
      · exact hus u' hu'

/-! #### The copies made so far -/

theorem of?_eq_some {v u : Value} (h : copies.of? v = some u) :
    ∃ x ∈ copies, x.1.isSame v = true ∧ x.2 = u := by
  obtain ⟨x, hx, rfl⟩ := Option.map_eq_some_iff.1 h
  exact ⟨x, List.mem_of_find?_eq_some hx, by simpa using List.find?_some hx, rfl⟩

theorem isSame_expression {v : Value} {n : Nat} :
    v.isSame (.expression n) = true ↔ v = .expression n := by
  cases v <;> simp [Value.isSame]

/-- What may be held is not an expression object that belongs to something, and neither is what is the same
object. -/
theorem not_isOwned_of_isSame {v u : Value} (hv : w.Admits v) (h : u.isSame v = true) :
    ¬ IsOwned w u := by
  rintro ⟨n, hn, rfl⟩
  cases v with
  | expression m =>
      have hnm : n = m := by simpa [Value.isSame] using h
      exact hv.2 (hnm ▸ hn)
  | _ => simp [Value.isSame] at h

/-- The copy of what may be held may be held. -/
theorem Faithful.admits_of? (h : Faithful w copies) {v u : Value} (hv : w.Admits v)
    (hu : copies.of? v = some u) : w.Admits u := by
  obtain ⟨x, hx, hsame, rfl⟩ := of?_eq_some hu
  exact h.free x hx (not_isOwned_of_isSame hv hsame)

/-- The copy of an expression object that belongs to something belongs to something. -/
theorem Faithful.mem_owned_of? (h : Faithful w copies) {n m : Nat} (hn : n ∈ w.owned)
    (hm : copies.of? (.expression n) = some (.expression m)) : m ∈ w.owned := by
  obtain ⟨x, hx, hsame, hxm⟩ := of?_eq_some hm
  obtain ⟨k, hk, hxk⟩ := h.owned x hx ⟨n, hn, isSame_expression.1 hsame⟩
  rw [hxm] at hxk
  cases hxk
  exact hk

/-- One copy more. -/
theorem Faithful.cons (h : Faithful w copies) {v u : Value}
    (isThere : ∀ n, v = .expression n → n < w.heap.expressions.size)
    (owned : IsOwned w v → IsOwned w u) (free : ¬ IsOwned w v → w.Admits u) :
    Faithful w ((v, u) :: copies) where
  isThere := List.forall_mem_cons.2 ⟨isThere, h.isThere⟩
  owned := List.forall_mem_cons.2 ⟨owned, h.owned⟩
  free := List.forall_mem_cons.2 ⟨free, h.free⟩

/-- A copy of what may be held is remembered as one that may be held. -/
theorem Faithful.cons_of_admits (h : Faithful w copies) {v u : Value} (hv : w.Admits v)
    (hu : w.Admits u) : Faithful w ((v, u) :: copies) := by
  refine h.cons (fun n hn => ?_) (fun ⟨n, hn, hvn⟩ => ?_) fun _ => hu
  · subst hn
    exact hv.1
  · subst hvn
    exact absurd hn hv.2

/-- A copy that belongs to something is remembered as one. -/
theorem Faithful.cons_of_owned (h : Faithful w copies) (hw : w.Sound) {n m : Nat}
    (hn : n ∈ w.owned) (hm : m ∈ w.owned) :
    Faithful w ((.expression n, .expression m) :: copies) := by
  refine h.cons (fun k hk => ?_) (fun _ => ⟨m, hm, rfl⟩) fun hfree => absurd ⟨n, hn, rfl⟩ hfree
  cases hk
  exact hw.owned n hn

/-! #### Making copies -/

/-- An object is copied once, and the copy may be held. -/
theorem safe_once {v : Value} (hv : w.Admits v) {make : Copying Value}
    (hmake : Safe make w copies Admits) : Safe (once v make) w copies Admits := by
  refine safe_get_bind fun hc => ?_
  split
  · next u hu => exact safe_pure fun _ => hc.admits_of? hv hu
  · refine safe_bind hmake fun w' copies' u hs hu => ?_
    refine safe_bind (safe_remember fun _ hc' => hc'.cons_of_admits (hv.mono hs) hu) ?_
    exact fun _ _ _ hs' _ => safe_pure fun _ => hu.mono hs'

theorem safe_ofConstraint {n : Nat} (hn : w.Admits (.constraint n)) :
    Safe (ofConstraint n) w copies Admits := by
  refine safe_once hn (safe_look_bind fun o ho => ?_)
  have ho := gives_constraintObject n o ho
  refine safe_get_bind fun hc => ?_
  split
  · -- the expression object is shared, and so is its copy
    next m hm => exact safe_lift (safe_shareConstraint (hc.mem_owned_of? ho hm))
  · refine safe_look_bind fun m hm => safe_look_bind fun c _ => ?_
    cases hm
    refine safe_bind (safe_lift (safe_newConstraint_owned c)) fun w' _ u hs hu => ?_
    refine safe_bind (safe_remember fun hw hc' => hc'.cons_of_owned hw ?_ hu.2) ?_
    · exact mem_owned_of_additions hs ho
    · exact fun _ _ _ hs' _ => safe_pure fun _ => hu.1.mono hs'

theorem safe_simple {v : Value} (hv : w.Admits v) : Safe (simple v) w copies Admits := by
  unfold simple
  split
  · exact safe_once hv (safe_look_bind fun e _ => safe_lift (safe_newExpression e))
  · exact safe_ofConstraint hv
  · exact safe_pure fun _ => hv

theorem safe_posted {v : Value} (hv : w.Admits v) : Safe (posted v) w copies Admits := by
  unfold posted
  split
  · refine safe_once hv (safe_bind (safe_simple hv.1) fun w₁ _ p hs hp => ?_)
    refine safe_bind (safe_simple (hv.2.mono hs)) fun w₂ _ c hs' hc => ?_
    exact safe_lift (safe_newImplication (hp.mono hs') hc _)
  · exact safe_simple hv

/-- The copy of a model owns the copy of its objective. -/
theorem safe_newLike {k : Kept} (hk : k ∈ w.models) {constraints implications : List Value}
    (h : ∀ v ∈ constraints ++ implications, w.Admits v) :
    Safe (newLike k constraints implications) w copies fun _ _ => True := by
  unfold newLike
  split
  · exact safe_lift (safe_newModel h fun _ ho => nomatch ho)
  · next sense n ho =>
      have hn : n ∈ w.owned := mem_owned.2 (Or.inr ⟨k, hk, by rw [ho]; rfl⟩)
      refine safe_get_bind fun hc => ?_
      split
      · -- a model that shares its objective with one that was copied before
        next m hm =>
          refine safe_lift (safe_newModel h fun l hl => ?_)
          cases hl
          exact hc.mem_owned_of? hn hm
      · refine safe_look_bind fun m hm => safe_look_bind fun e _ => ?_
        cases hm
        refine safe_bind (safe_lift (safe_newModelWith h sense e)) fun w' _ place hs hown => ?_
        refine safe_bind (safe_remember fun hw hc' => hc'.cons_of_owned hw ?_ hown) ?_
        · exact mem_owned_of_additions hs hn
        · exact fun _ _ _ _ _ => safe_pure fun _ => trivial

theorem safe_ofModel (n : Nat) : Safe (ofModel n) w copies Admits := by
  refine safe_once (v := .model n) trivial (safe_of_sound fun hw => safe_look_bind fun k hk => ?_)
  have hk := gives_kept n k hk
  have hposted := hw.posted k hk
  refine safe_bind (safe_mapM (fun _ _ _ => safe_posted) fun v hv => ?_) fun w₁ _ cs hs hcs => ?_
  · exact hposted v (List.mem_append_left _ hv)
  refine safe_bind (safe_mapM (fun _ _ _ => safe_posted) fun v hv => ?_) fun w₂ _ is hs' his => ?_
  · exact (hposted v (List.mem_append_right _ hv)).mono hs
  have hk' := (hs'.models rfl).subset ((hs.models rfl).subset hk)
  refine safe_bind (safe_newLike hk' fun v hv => ?_) fun _ _ _ _ _ => safe_pure fun _ => trivial
  rcases List.mem_append.1 hv with hv | hv
  · exact (hcs v hv).mono hs'
  · exact his v hv

theorem safe_deep {v : Value} (hv : w.Admits v) : Safe (deep v) w copies Admits := by
  induction v generalizing w copies with
  | model n => exact safe_ofModel n
  | solver n =>
      refine safe_once hv (safe_of_sound fun hw => safe_look_bind fun f hf => ?_)
      have hf := hw.fronts f (gives_front n f hf)
      split
      · refine safe_bind (safe_ofModel _) fun _ _ _ _ hu => safe_lift (safe_newFront hu)
      · exact safe_lift (safe_newFront hf)
  | implication tag p c name ihp ihc =>
      refine safe_once hv (safe_bind (ihp hv.1) fun w₁ _ p' hs hp => ?_)
      refine safe_bind (ihc (hv.2.mono hs)) fun w₂ _ c' hs' hc => ?_
      exact safe_lift (safe_newImplication (hp.mono hs') hc name)
  | _ => exact safe_simple hv

end Copying

/-- A deep copy of what may be held may be held. -/
theorem safe_deepCopy {v : Value} (hv : w.Admits v) : Safe r (deepCopy v) w Admits := by
  have hdeep : Safe .additions (deepCopy v) w Admits :=
    safe_bind (Copying.safe_deep hv .nil) fun _ _ _ h => safe_pure fun _ => h.2
  exact hdeep.of_additions r

/-! ### Parts -/

theorem safe_rename {v : Value} (hv : w.Admits v) (name : Option String) :
    Safe r (rename v name) w Admits := by
  unfold rename
  split
  · exact safe_look_bind fun _ _ => safe_look_bind fun _ _ => safe_newConstraint_look _
  · exact safe_newImplication hv.1 hv.2 name
  · exact safe_throw

theorem safe_expressionOf (v : Value) : Safe r (expressionOf v) w Admits := by
  unfold expressionOf
  split
  · exact safe_look_bind fun _ _ => safe_newExpression _
  · exact safe_throw

theorem safe_reify (v : Value) : Safe r (reify v) w Admits := by
  unfold reify
  split
  · exact safe_look_bind fun _ _ => safe_look_bind fun _ _ => safe_newExpression_look _
  · exact safe_throw

theorem gives_premiseOf {v : Value} (hv : w.Admits v) : Gives (premiseOf v) w w.Admits := by
  unfold premiseOf
  split
  · exact gives_pure hv.1
  · exact gives_throw

theorem gives_conclusionOf {v : Value} (hv : w.Admits v) :
    Gives (conclusionOf v) w w.Admits := by
  unfold conclusionOf
  split
  · exact gives_pure hv.2
  · exact gives_throw

theorem gives_itemAt (v : Value) (place : Int) : Gives (itemAt v place) w w.Admits := by
  unfold itemAt
  split
  · exact gives_bind fun _ _ => gives_pure trivial
  · exact gives_throw

theorem safe_makeConstraint (sign : String) (v : Value) (name : Option String) :
    Safe r (makeConstraint sign v name) w Admits := by
  refine safe_look_bind fun _ _ => safe_look_bind fun _ _ => safe_look_bind fun _ _ => ?_
  exact safe_look_bind fun _ _ => safe_newConstraint_look _

/-! ### Terms -/

theorem safe_foldlM_operate (op : Operator) {a : Value} (ha : w.Admits a) {vs : List Value}
    (hvs : ∀ v ∈ vs, w.Admits v) : Safe r (vs.foldlM (operate op) a) w Admits := by
  induction vs generalizing w a with
  | nil => exact safe_pure fun _ => ha
  | cons b rest ih =>
      rw [List.foldlM_cons]
      refine safe_bind (safe_operate op ha (hvs b List.mem_cons_self)) fun w' c hs hc => ?_
      exact ih hc fun v hv => (hvs v (List.mem_cons_of_mem b hv)).mono hs

theorem safe_operateAll (op : Operator) {vs : List Value} (hvs : ∀ v ∈ vs, w.Admits v) :
    Safe r (operateAll op vs) w Admits := by
  cases vs with
  | nil => exact safe_throw
  | cons a rest =>
      exact safe_foldlM_operate op (hvs a List.mem_cons_self) fun v hv =>
        hvs v (List.mem_cons_of_mem a hv)

theorem safe_of_evaluated {t : Term} {f : Value → Run Value}
    (ht : Safe r (evaluate t) w Admits)
    (hf : ∀ w' v, w'.Admits v → Safe r (f v) w' Admits) : Safe r (evaluate t >>= f) w Admits :=
  safe_bind ht fun w' v _ hv => hf w' v hv

mutual

/-- **The value of a term may be held**, and making it goes no further than additions. -/
theorem safe_evaluate : ∀ (t : Term) (w : Workspace), Safe r (evaluate t) w Admits
  | .register name, w => by
      rw [evaluate]
      refine safe_look fun v hv hw => ?_
      exact admits_of_held? hw (gives_register name v hv)
  | .plain p, w => by
      rw [evaluate]
      exact safe_pure fun _ => by cases p <;> exact trivial
  | .chain op operands, w => by
      -- an operand is evaluated in the workspace that those in front of it leave
      rw [evaluate]
      exact safe_bind (safe_evaluateAll operands w) fun _ _ _ hvs => safe_operateAll op hvs
  | .negated t, w => by
      rw [evaluate]
      exact safe_of_evaluated (safe_evaluate t w) fun _ v _ => safe_negate v
  | .affirmed t, w => by
      rw [evaluate]
      exact safe_of_evaluated (safe_evaluate t w) fun _ v _ => safe_affirm v
  | .complemented t, w => by
      rw [evaluate]
      exact safe_of_evaluated (safe_evaluate t w) fun _ v _ => safe_complement v
  | .expression none, w => by
      rw [evaluate]
      exact safe_newExpression _
  | .expression (some t), w => by
      rw [evaluate]
      exact safe_of_evaluated (safe_evaluate t w) fun _ _ _ => safe_newExpression_look _
  | .copied t, w => by
      rw [evaluate]
      exact safe_of_evaluated (safe_evaluate t w) fun _ _ => safe_copy
  | .deepCopied t, w => by
      rw [evaluate]
      exact safe_of_evaluated (safe_evaluate t w) fun _ _ => safe_deepCopy
  | .constraint sign t name, w => by
      rw [evaluate]
      exact safe_of_evaluated (safe_evaluate t w) fun _ v _ => safe_makeConstraint sign v name
  | .implication p c, w => by
      rw [evaluate]
      refine safe_bind (safe_evaluate p w) fun w₁ _ _ hp => ?_
      exact safe_bind (safe_evaluate c w₁) fun _ _ hs hc => safe_newImplication (hp.mono hs) hc none
  | .named t name, w => by
      rw [evaluate]
      exact safe_of_evaluated (safe_evaluate t w) fun _ _ hv => safe_rename hv name
  | .item t place, w => by
      rw [evaluate]
      exact safe_of_evaluated (safe_evaluate t w) fun _ v _ => safe_look_of (gives_itemAt v place)
  | .expressionOf t, w => by
      rw [evaluate]
      exact safe_of_evaluated (safe_evaluate t w) fun _ v _ => safe_expressionOf v
  | .reified t, w => by
      rw [evaluate]
      exact safe_of_evaluated (safe_evaluate t w) fun _ v _ => safe_reify v
  | .premise t, w => by
      rw [evaluate]
      exact safe_of_evaluated (safe_evaluate t w) fun _ _ hv => safe_look_of (gives_premiseOf hv)
  | .conclusion t, w => by
      rw [evaluate]
      exact safe_of_evaluated (safe_evaluate t w) fun _ _ hv => safe_look_of (gives_conclusionOf hv)

theorem safe_evaluateAll : ∀ (ts : List Term) (w : Workspace),
    Safe r (evaluateAll ts) w fun w' vs => ∀ v ∈ vs, w'.Admits v
  | [], w => by
      rw [evaluateAll]
      exact safe_pure fun _ _ hv => nomatch hv
  | t :: rest, w => by
      rw [evaluateAll]
      refine safe_bind (safe_evaluate t w) fun w₁ v _ hv => ?_
      refine safe_bind (safe_evaluateAll rest w₁) fun w₂ vs hs hvs => safe_pure fun _ u hu => ?_
      rcases List.mem_cons.1 hu with rfl | hu
      · exact hv.mono hs
      · exact hvs u hu

end

end MixedInteger.Script
