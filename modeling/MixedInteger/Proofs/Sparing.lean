/-
**What a step changes.**

A step adds objects, sets registers and changes models.  One sort of steps does more: an operator that is
applied in place gives the expression object that its register holds other terms.  No step gives other
terms to any other expression object, and none lets a constraint's own expression object be held.

Main definitions:

* `MixedInteger.Script.Step.reach` — how far a step goes.

Main results:

* `MixedInteger.Script.safe_perform` — **no step goes further than that**;
* `MixedInteger.Script.sound_after` — a script leaves a sound workspace.
-/

import MixedInteger.Proofs.Growth
import MixedInteger.Script.Step

set_option autoImplicit false

namespace MixedInteger.Script

open Run Workspace Look

variable {r : Reach} {w : Workspace}

/-! ### Models and solvers -/

theorem safe_evaluate? (t : Option Term) :
    Safe r (evaluate? t) w fun w' v => ∀ u ∈ v, w'.Admits u := by
  cases t with
  | none => exact safe_pure fun _ _ hu => nomatch hu
  | some t =>
      refine safe_bind (safe_evaluate t w) fun w' v _ hv => safe_pure fun _ u hu => ?_
      cases hu
      exact hv

theorem safe_infinityOf {given : Option Value} (h : ∀ v ∈ given, w.Admits v) :
    Safe r (infinityOf given) w fun _ _ => True := by
  unfold infinityOf
  split
  · exact safe_pure fun _ => trivial
  · refine safe_bind (safe_operate _ (h _ rfl) trivial) fun _ _ _ _ => ?_
    refine safe_look_bind fun _ _ => ?_
    split
    · exact safe_throw
    · exact safe_look_bind fun _ _ => safe_pure fun _ => trivial

theorem safe_makeModel (q : ModelRequest) : Safe r (makeModel q) w Admits := by
  refine safe_bind (safe_evaluate? q.infinity) fun w₁ _ _ h => safe_look_bind fun _ _ => ?_
  refine safe_bind (safe_infinityOf h) fun w₂ _ _ _ => safe_look_bind fun m _ => ?_
  have hnew : Safe r (newModel m [] [] none) w₂ fun _ _ => True :=
    safe_newModel (fun _ hv => nomatch hv) fun _ hn => nomatch hn
  exact safe_bind hnew fun _ _ _ _ => safe_pure fun _ => trivial

theorem safe_callRegistry (c : Registry.Call ModelRequest) :
    Safe r (callRegistry c) w fun _ _ => True := by
  have hmodify : ∀ q, Safe r (modify fun w : Workspace => { w with registry := q }) w
      fun _ _ => True :=
    fun q => safe_modify_of_eq rfl rfl rfl fun g hg => ⟨g, hg, rfl⟩
  exact safe_get_bind (safe_bind (hmodify _) fun _ _ _ _ => safe_look fun _ _ _ => trivial)

theorem safe_create (e : Engine) : Safe r (create e) w Admits := by
  refine safe_bind (safe_callRegistry _) fun _ a _ _ => ?_
  split
  · exact safe_makeModel _
  · exact safe_pure fun _ => trivial

theorem safe_solverBase (base : SolverBase) (s : Settings) :
    Safe r (solverBase base s) w Admits := by
  refine safe_of_sound fun hw => ?_
  unfold solverBase
  split
  · exact safe_create _
  · exact safe_look_bind fun _ _ => safe_create _
  · refine safe_look_bind fun v hv => ?_
    split
    · exact safe_create _
    · exact safe_look_bind fun _ _ => safe_create _
    · exact safe_pure fun _ => admits_of_held? hw (gives_register _ v hv)

theorem safe_makeSolver (base : SolverBase) (s : Settings) :
    Safe r (makeSolver base s) w Admits :=
  safe_bind (safe_solverBase base s) fun _ _ _ hv => safe_newFront hv

/-! ### Variables -/

theorem safe_declare (place : Nat) (kind : Kind) (lower upper : Value) (name : Option String) :
    Safe .records (declare place kind lower upper name) w Admits := by
  refine safe_look_bind fun m _ => safe_look_bind fun _ _ => safe_look_bind fun _ _ => ?_
  split
  · exact safe_throw
  · refine safe_look_bind fun _ _ => safe_look_bind fun _ _ => ?_
    exact safe_bind (safe_setSlots _ _) fun _ _ _ _ => safe_pure fun _ => trivial

theorem safe_updateVariable (x : Variable) (f : Attributes Number → Attributes Number) :
    Safe .records (updateVariable x f) w fun _ _ => True :=
  safe_look_bind fun _ _ => safe_setSlots _ _

theorem safe_changeVariable (v : Value) (what : Change) :
    Safe .records (changeVariable v what) w fun _ _ => True := by
  unfold changeVariable
  split
  · refine safe_bind (safe_evaluate _ w) fun _ _ _ _ => ?_
    exact safe_look_bind fun _ _ => safe_look_bind fun _ _ => safe_updateVariable _ _
  · refine safe_bind (safe_evaluate _ w) fun _ _ _ _ => ?_
    exact safe_look_bind fun _ _ => safe_look_bind fun _ _ => safe_updateVariable _ _
  · exact safe_look_bind fun _ _ => safe_look_bind fun _ _ => safe_updateVariable _ _
  · exact safe_look_bind fun _ _ => safe_updateVariable _ _

/-! ### Expressions from their terms -/

theorem safe_linearTerms (ts : List (String × Term)) :
    Safe r (linearTerms ts) w fun _ _ => True := by
  induction ts generalizing w with
  | nil => exact safe_pure fun _ => trivial
  | cons t rest ih =>
      refine safe_look_bind fun _ _ => safe_bind (safe_evaluate _ w) fun _ _ _ _ => ?_
      refine safe_look_bind fun _ _ => safe_bind ih fun _ _ _ _ => safe_pure fun _ => trivial

theorem safe_quadraticTerms (ts : List (String × String × Term)) :
    Safe r (quadraticTerms ts) w fun _ _ => True := by
  induction ts generalizing w with
  | nil => exact safe_pure fun _ => trivial
  | cons t rest ih =>
      refine safe_look_bind fun _ _ => safe_look_bind fun _ _ => safe_look_bind fun _ _ => ?_
      refine safe_look_bind fun _ _ => safe_bind (safe_evaluate _ w) fun _ _ _ _ => ?_
      exact safe_bind ih fun _ _ _ _ => safe_pure fun _ => trivial

theorem safe_constantTerm (constant : Option Term) :
    Safe r (constantTerm constant) w fun _ _ => True := by
  unfold constantTerm
  split
  · exact safe_pure fun _ => trivial
  · exact safe_bind (safe_evaluate _ w) fun _ _ _ _ => safe_look fun _ _ _ => trivial

theorem safe_fromTerms (constant : Option Term) (linear : List (String × Term))
    (quadratic : List (String × String × Term)) :
    Safe r (fromTerms constant linear quadratic) w fun _ _ => True := by
  refine safe_bind (safe_linearTerms linear) fun _ _ _ _ => ?_
  refine safe_bind (safe_quadraticTerms quadratic) fun _ _ _ _ => ?_
  exact safe_bind (safe_constantTerm constant) fun _ _ _ _ => safe_look fun _ _ _ => trivial

/-! ### Posting -/

/-- Posting is safe if what is posted may be held, and the objects that are recorded may. -/
theorem safe_posting (place : Nat) {v : Value} (hv : w.Admits v)
    {object : Constraint Number → Run Value}
    (hobject : ∀ w' c, Spares .records w w' → Safe .records (object c) w' Admits)
    (p : Posting Number Unit) : Safe .records (posting place v object p) w fun _ _ => True := by
  refine safe_look_bind fun m _ => ?_
  refine safe_bind (safe_mapM (fun _ _ _ hs hc => hc.mono hs) fun w' hs c _ => hobject w' c hs) ?_
  intro w' cs hs hcs
  refine safe_bind (safe_keep place fun u hu => ?_) fun _ _ _ _ => ?_
  · rcases List.mem_append.1 hu with hu | hu
    · exact hcs u hu
    · -- an implication is recorded as the object that was posted
      obtain ⟨i, -, rfl⟩ := List.mem_map.1 hu
      exact hv.mono hs
  · exact safe_bind (safe_note _) fun _ _ _ _ => safe_look fun _ _ _ => trivial

theorem safe_postLoose (place : Nat) {v : Value} (hv : w.Admits v) (p c : Value) :
    Safe .records (postLoose place v p c) w fun _ _ => True := by
  refine safe_look_bind fun _ _ => safe_look_bind fun _ _ => safe_keep place fun u hu => ?_
  exact List.mem_singleton.1 hu ▸ hv

theorem safe_postBySolver (f : Front) {v : Value} (hv : w.Admits v) :
    Safe .records (postBySolver f v) w fun _ _ => True := by
  unfold postBySolver
  dsimp only
  split
  · refine safe_look_bind fun _ _ => safe_look_bind fun _ _ => safe_look_bind fun _ _ => ?_
    refine safe_posting _ hv (fun w' c hs => ?_) _
    split
    · exact safe_pure fun _ => hv.mono hs
    · exact safe_newConstraint _
  · refine safe_look_bind fun _ _ => safe_look_bind fun _ _ => safe_look_bind fun _ _ => ?_
    exact safe_look_bind fun _ _ => safe_posting _ hv (fun _ c _ => safe_newConstraint c) _
  · refine safe_look_bind fun _ _ => safe_look_bind fun _ _ => safe_look_bind fun _ _ => ?_
    split
    · exact safe_look_bind fun _ _ => safe_throw
    · exact safe_postLoose _ hv _ _
  · exact safe_throw

theorem safe_postDirectly (place : Nat) {v : Value} (hv : w.Admits v) :
    Safe .records (postDirectly place v) w fun _ _ => True := by
  refine safe_look_bind fun _ _ => ?_
  split
  · exact safe_look_bind fun _ _ => safe_posting _ hv (fun _ _ hs => safe_pure fun _ => hv.mono hs) _
  · refine safe_look_bind fun _ _ => safe_look_bind fun _ _ => ?_
    exact safe_posting _ hv (fun _ c _ => safe_newConstraint c) _
  · exact safe_postLoose _ hv _ _
  · refine safe_look_bind fun _ _ => safe_look_bind fun _ _ => safe_look_bind fun _ _ => ?_
    exact safe_keep place fun u hu => List.mem_singleton.1 hu ▸ hv
  · exact safe_throw

theorem safe_post (owner : Value) {v : Value} (hv : w.Admits v) :
    Safe .records (post owner v) w fun _ _ => True := by
  unfold post
  split
  · refine safe_look_bind fun _ _ => safe_bind (safe_postBySolver _ hv) fun _ _ _ _ => ?_
    exact safe_look_bind fun _ _ => safe_look fun _ _ _ => trivial
  · exact safe_bind (safe_postDirectly _ hv) fun _ _ _ _ => safe_look fun _ _ _ => trivial
  · exact safe_throw

theorem safe_setObjective (place : Nat) (sense : Sense) (e : Expression Number) :
    Safe .records (setObjective place sense e) w fun _ _ => True :=
  safe_look_bind fun _ _ => safe_look_bind fun _ _ => safe_keepObjective place sense e

theorem safe_objective (owner : Value) (word : String) (v : Value) (direct : Bool) :
    Safe .records (objective owner word v direct) w fun _ _ => True := by
  unfold objective
  split
  · refine safe_look_bind fun _ _ => safe_look_bind fun _ _ => safe_look_bind fun _ _ => ?_
    refine safe_look_bind fun _ _ => safe_bind (safe_setObjective _ _ _) fun _ _ _ _ => ?_
    exact safe_look fun _ _ _ => trivial
  · split
    · refine safe_look_bind fun _ _ => safe_look_bind fun _ _ => safe_look_bind fun _ _ => ?_
      refine safe_look_bind fun _ _ => safe_bind (safe_setObjective _ _ _) fun _ _ _ _ => ?_
      exact safe_look fun _ _ _ => trivial
    · exact safe_throw
  · exact safe_throw

theorem safe_setPolicy (owner : Value) (word : String) :
    Safe .records (setPolicy owner word) w fun _ _ => True := by
  unfold setPolicy
  split
  · refine safe_look_bind fun f hf => safe_look_bind fun p _ => ?_
    -- the solver stays in front of its model
    refine safe_modify_of_eq rfl rfl rfl fun g hg => ?_
    rcases List.mem_or_eq_of_mem_set hg with hg | rfl
    · exact ⟨g, hg, rfl⟩
    · exact ⟨f, gives_front _ f hf, rfl⟩
  · exact safe_throw

/-! ### Scaling and questions -/

theorem safe_scale (l : Limits) {v : Value} (hv : w.Admits v) (c : Constraint Number) :
    Safe r (scale l v c) w Admits := by
  refine safe_look_bind fun _ _ => safe_look_bind fun _ _ => ?_
  refine safe_bind (safe_note _) fun w' _ hs _ => safe_look_bind fun _ _ => ?_
  split
  · exact safe_pure fun _ => hv.mono hs
  · exact safe_newConstraint _

theorem safe_scaleReplacement (l : Limits) (p c : Value) (name : Option String) :
    Safe r (scaleReplacement l p c name) w fun _ _ => True := by
  refine safe_look_bind fun pieces _ => ?_
  have hpiece : ∀ w', Spares r w w' → ∀ piece ∈ pieces,
      Safe r (do scale l (← newConstraint piece) piece) w' Admits :=
    fun _ _ piece _ => safe_bind (safe_newConstraint piece) fun _ _ _ hu => safe_scale l hu piece
  refine safe_bind (safe_mapM (fun _ _ _ hs hc => hc.mono hs) hpiece) fun w₁ vs _ _ => ?_
  have hview : ∀ w', Spares r w₁ w' → ∀ v ∈ vs, Safe r (liftM (view v) : Run View) w'
      fun _ _ => True :=
    fun _ _ _ _ => safe_look fun _ _ _ => trivial
  exact safe_bind (safe_mapM (fun _ _ _ _ h => h) hview) fun _ _ _ _ => safe_pure fun _ => trivial

theorem safe_scaleStep {v : Value} (hv : w.Admits v) (q : ScalingRequest) (direct : Bool) :
    Safe r (scaleStep v q direct) w fun _ _ => True := by
  unfold scaleStep
  split
  · split
    · exact safe_throw
    · refine safe_look_bind fun c _ => safe_bind (safe_scale _ hv c) fun _ _ _ _ => ?_
      exact safe_look_bind fun _ _ => safe_pure fun _ => trivial
  · split
    · exact safe_throw
    · split
      · exact safe_throw
      · exact safe_bind (safe_scaleReplacement _ _ _ _) fun _ _ _ _ => safe_pure fun _ => trivial
  · exact safe_throw

/-- An attempt is as safe as the step that is attempted.  The remarks that were there are put aside. -/
theorem safe_attempt {x : Run View} {Q : Workspace → View → Prop}
    (hx : Safe r x { w with notices := [] } Q) (hw : w.Sound) :
    ((attempt x).run w).2.Sound ∧ Spares r w ((attempt x).run w).2 := by
  let w₁ : Workspace := { w with notices := [] }
  let w₂ := (outcome x w₁).2
  let w₃ : Workspace := { w₂ with notices := w.notices }
  have hsame : ∀ {w w' : Workspace}, w'.fronts = w.fronts →
      ∀ g ∈ w'.fronts, ∃ g' ∈ w.fronts, g.base = g'.base :=
    fun heq g hg => ⟨g, heq ▸ hg, rfl⟩
  have hw₁ : w₁.Sound := sound_of_eq hw rfl rfl rfl (hsame rfl)
  obtain ⟨hw₂, hs, -⟩ := hx hw₁
  have hw₃ : w₃.Sound := sound_of_eq hw₂ rfl rfl rfl (hsame rfl)
  have h₁ : Spares r w w₁ := spares_of_eq rfl rfl rfl
  have h₃ : Spares r w₂ w₃ := spares_of_eq rfl rfl rfl
  exact ⟨hw₃, (h₁.trans hs).trans h₃⟩

theorem safe_attempt_bind {γ : Type} {x : Run View} {f : Attempt → Run γ}
    {P : Workspace → View → Prop} {Q : Workspace → γ → Prop} (hx : Safe r x { w with notices := [] } P)
    (hf : ∀ w' a, Spares r w w' → Safe r (f a) w' Q) :
    Safe r ((liftM (attempt x) : Run Attempt) >>= f) w Q :=
  safe_bind (P := fun _ _ => True)
    (fun hw => ⟨(safe_attempt hx hw).1, (safe_attempt hx hw).2, fun _ _ => trivial⟩)
    fun w' a hs _ => hf w' a hs

theorem safe_askNative (p c : Value) : Safe r (askNative p c) w fun _ _ => True := by
  refine safe_look_bind fun _ _ => safe_attempt_bind (P := fun _ _ => True) ?_ fun _ _ _ => ?_
  · exact safe_look fun _ _ _ => trivial
  · exact safe_pure fun _ => trivial

theorem safe_askImplication (q : Question) (p c : Value) (name : Option String) :
    Safe r (askImplication q p c name) w fun _ _ => True := by
  unfold askImplication
  split
  · exact safe_askNative p c
  · exact safe_scaleReplacement _ p c name
  · exact safe_look fun _ _ _ => trivial

theorem safe_askConstraint (q : Question) {v : Value} (hv : w.Admits v) (c : Constraint Number) :
    Safe r (askConstraint q v c) w fun _ _ => True := by
  unfold askConstraint
  split
  · exact safe_bind (safe_scale _ hv c) fun _ _ _ _ => safe_look fun _ _ _ => trivial
  · exact safe_look fun _ _ _ => trivial

theorem safe_ask (q : Question) {v : Value} (hv : w.Admits v) :
    Safe r (ask q v) w fun _ _ => True := by
  unfold ask
  split
  · exact safe_look_bind fun _ _ => safe_pure fun _ => trivial
  · exact safe_throw
  · split
    · exact safe_look fun _ _ _ => trivial
    · exact safe_look_bind fun _ _ => safe_look fun _ _ _ => trivial
    · exact safe_look_bind fun c _ => safe_askConstraint q hv c
    · exact safe_askImplication q _ _ _
    · exact safe_look_bind fun _ _ => safe_look fun _ _ _ => trivial
    · exact safe_look_bind fun _ _ => safe_look fun _ _ _ => trivial
    · exact safe_look fun _ _ _ => trivial

theorem safe_askAll {v : Value} (hv : w.Admits v) (asked : List (String × Question)) :
    Safe r (askAll v asked) w fun _ _ => True := by
  induction asked generalizing w with
  | nil => exact safe_pure fun _ => trivial
  | cons a rest ih =>
      have hs : Spares r w { w with notices := [] } := spares_of_eq rfl rfl rfl
      refine safe_attempt_bind (safe_ask a.2 (hv.mono hs)) fun _ _ hs' => ?_
      exact safe_bind (ih (hv.mono hs')) fun _ _ _ _ => safe_pure fun _ => trivial

/-! ### The registry -/

theorem safe_tellRegistry (c : Registry.Call ModelRequest) :
    Safe r (tellRegistry c) w fun _ _ => True := by
  refine safe_bind (safe_callRegistry c) fun _ _ _ _ => ?_
  split <;> exact safe_pure fun _ => trivial

/-! ### Operators in place -/

/-- How far a step goes. -/
def Step.reach (w : Workspace) : Step → Reach
  | .assign _ name _ =>
    match w.held? name with
    | some (.expression n) => .terms n
    | _ => .records
  | _ => .records

theorem Step.spares_reach {s : Step} {w₀ w' : Workspace} (h : Spares .records w w') :
    Spares (s.reach w₀) w w' := by
  unfold Step.reach
  split
  · split
    · exact h.of_records _
    · exact h
  · exact h

/-- An operator in place gives other terms to the expression object that it is applied to. -/
theorem safe_assign_expression (op : Operator) {n : Nat} (hn : w.Admits (.expression n))
    (argument : Value) :
    Safe (.terms n) (assign op (.expression n) argument) w Admits := by
  refine safe_look_bind fun o _ => ?_
  split
  · refine safe_look_bind fun e _ => safe_bind (safe_setTerms n _) fun _ _ hs _ => ?_
    exact safe_look_bind fun _ _ => safe_pure fun _ => hn.mono hs
  · exact safe_throw

/-- Applied to anything else, it makes a new value. -/
theorem assign_eq_operate (op : Operator) {target : Value} (h : ∀ n, target ≠ .expression n)
    (argument : Value) : assign op target argument = operate op target argument := by
  cases target with
  | expression n => exact absurd rfl (h n)
  | _ => rfl

/-! ### Steps -/

/-- A value that a step makes may be held. -/
def Outcome.IsAdmitted (w : Workspace) : Outcome → Prop
  | .made v => w.Admits v
  | .answered _ => True

theorem safe_making {x : Run Value} (hx : Safe r x w Admits) :
    Safe r (making x) w fun w' o => o.IsAdmitted w' :=
  safe_map hx fun _ _ h => h

theorem safe_answering {x : Run View} (hx : Safe r x w fun _ _ => True) :
    Safe r (answering x) w fun w' o => o.IsAdmitted w' :=
  safe_map hx fun _ _ _ => trivial

/-- An operator in place, and what its register holds then. -/
theorem safe_perform_assign (op : Operator) (name : String) (argument : Term) :
    Safe ((Step.assign op name argument).reach w) (perform (.assign op name argument)) w
      fun w' o => o.IsAdmitted w' := by
  refine safe_of_sound fun hw => safe_making (safe_look_bind fun target ht => ?_)
  have hheld := gives_register name target ht
  have htarget := admits_of_held? hw hheld
  -- the register is set in the end, whatever it held
  have hset : ∀ w' v, w'.Admits v →
      Safe ((Step.assign op name argument).reach w) (setRegister name v) w' fun _ _ => True :=
    fun w' v hv => (safe_setRegister name hv).weaken (fun _ h => Step.spares_reach h)
      fun _ _ _ _ h => h
  refine safe_bind (safe_evaluate argument w) fun w₁ v hs hv => ?_
  refine safe_bind (P := Admits) ?_ fun w₂ u hs' hu => ?_
  · by_cases hexpression : ∃ n, target = .expression n
    · obtain ⟨n, rfl⟩ := hexpression
      have hreach : (Step.assign op name argument).reach w = .terms n := by
        simp only [Step.reach, hheld]
      rw [hreach] at hs ⊢
      exact safe_assign_expression op (htarget.mono hs) v
    · rw [assign_eq_operate op fun n hn => hexpression ⟨n, hn⟩]
      exact safe_operate op (htarget.mono hs) hv
  · exact safe_bind (hset w₂ u hu) fun _ _ hs'' _ => safe_pure fun _ => hu.mono hs''

/-- **No step goes further than it reaches**, also when it is refused. -/
theorem safe_perform (s : Step) :
    Safe (s.reach w) (perform s) w fun w' o => o.IsAdmitted w' := by
  refine safe_of_sound fun hw => ?_
  cases s with
  | model request => exact safe_making (safe_makeModel request)
  | solver base settings =>
      exact safe_making (safe_look_bind fun _ _ => safe_makeSolver base _)
  | «variable» owner kind lower upper name =>
      refine safe_making (safe_look_bind fun _ _ => ?_)
      refine safe_bind (safe_evaluate? lower) fun _ _ _ _ => ?_
      refine safe_bind (safe_evaluate? upper) fun _ _ _ _ => ?_
      exact safe_look_bind fun _ _ => safe_look_bind fun _ _ => safe_declare _ _ _ _ name
  | terms constant linear quadratic asText =>
      refine safe_bind (safe_fromTerms constant linear quadratic) fun _ _ _ _ => ?_
      split
      · exact safe_answering (safe_look_bind fun _ _ => safe_pure fun _ => trivial)
      · exact safe_making (safe_newExpression _)
  | value t => exact safe_making (safe_evaluate t w)
  | assign op name argument => exact safe_perform_assign op name argument
  | change name what =>
      refine safe_making (safe_look_bind fun v hv => ?_)
      refine safe_bind (safe_changeVariable v what) fun _ _ hs _ => safe_pure fun _ => ?_
      exact (admits_of_held? hw (gives_register name v hv)).mono hs
  | pair first second other => exact safe_answering (safe_look fun _ _ _ => trivial)
  | questions t asked =>
      refine safe_answering (safe_bind (safe_evaluate t w) fun _ v _ hv => ?_)
      exact safe_bind (safe_askAll hv asked) fun _ _ _ _ => safe_pure fun _ => trivial
  | scale t request direct =>
      exact safe_answering (safe_bind (safe_evaluate t w) fun _ _ _ hv => safe_scaleStep hv _ _)
  | post owner t =>
      refine safe_answering (safe_look_bind fun _ _ => ?_)
      exact safe_bind (safe_evaluate t w) fun _ _ _ hv => safe_post _ hv
  | objective owner sense t direct =>
      refine safe_answering (safe_look_bind fun _ _ => ?_)
      exact safe_bind (safe_evaluate t w) fun _ v _ _ => safe_objective _ sense v direct
  | policy owner word =>
      refine safe_making (safe_look_bind fun v hv => ?_)
      refine safe_bind (safe_setPolicy v word) fun _ _ hs _ => safe_pure fun _ => ?_
      exact (admits_of_held? hw (gives_register owner v hv)).mono hs
  | modelOf owner =>
      refine safe_making (safe_look_bind fun v hv => ?_)
      split
      · refine safe_look_bind fun f hf => safe_pure fun _ => ?_
        exact hw.fronts f (gives_front _ f hf)
      · exact safe_throw
  | register engine request listing =>
      refine safe_answering (safe_look_bind fun _ _ => ?_)
      refine safe_bind (safe_tellRegistry _) fun _ _ _ _ => ?_
      split
      · exact safe_tellRegistry _
      · exact safe_pure fun _ => trivial
  | unregister engine =>
      exact safe_answering (safe_look_bind fun _ _ => safe_tellRegistry _)
  | available engine =>
      cases engine with
      | none => exact safe_answering (safe_tellRegistry _)
      | some word => exact safe_answering (safe_look_bind fun _ _ => safe_tellRegistry _)
  | create engine => exact safe_making (safe_look_bind fun _ _ => safe_create _)

/-- A command goes no further than its step; it may set one register more. -/
theorem safe_execute (c : Command) :
    Safe (c.step.reach w) (execute c) w fun _ _ => True := by
  refine safe_bind (safe_perform c.step) fun w' o _ ho => ?_
  split
  · dsimp only
    split
    · next name _ =>
        refine safe_bind (P := fun _ _ => True) ?_ fun _ _ _ _ => safe_look fun _ _ _ => trivial
        exact (safe_setRegister name ho).weaken (fun _ h => Step.spares_reach h) fun _ _ _ _ h => h
    · exact safe_look fun _ _ _ => trivial
  · exact safe_pure fun _ => trivial

/-! ### Scripts -/

/-- The workspace after one command. -/
def Workspace.next (w : Workspace) (c : Command) : Workspace := ((attempt (execute c)).run w).2

theorem runFrom_eq_foldl (commands : List Command) (w : Workspace) :
    ((runFrom commands).run w).2 = commands.foldl Workspace.next w := by
  induction commands generalizing w with
  | nil => rfl
  | cons c rest ih => exact ih (w.next c)

/-- What a script leaves, one command after the other. -/
theorem after_append (before rest : List Command) :
    after (before ++ rest) = rest.foldl Workspace.next (after before) := by
  simp only [after, runFrom_eq_foldl, List.foldl_append]

/-- A command leaves a sound workspace and goes no further than its step, also when it is refused. -/
theorem next_of_sound (c : Command) (hw : w.Sound) :
    (w.next c).Sound ∧ Spares (c.step.reach w) w (w.next c) := by
  have hreach : c.step.reach { w with notices := [] } = c.step.reach w := rfl
  exact safe_attempt (hreach ▸ safe_execute c) hw

/-- What every command leaves as it is in a sound workspace is the same at the end of a script. -/
theorem foldl_next_of_sound {P : Workspace → Prop} (h : ∀ w c, w.Sound → P w → P (w.next c))
    (commands : List Command) (hw : w.Sound) (hp : P w) :
    (commands.foldl Workspace.next w).Sound ∧ P (commands.foldl Workspace.next w) := by
  induction commands generalizing w with
  | nil => exact ⟨hw, hp⟩
  | cons c rest ih => exact ih (next_of_sound c hw).1 (h w c hw hp)

/-- **A script leaves a sound workspace**, whatever became of its commands. -/
theorem sound_after (commands : List Command) : (after commands).Sound := by
  rw [after, runFrom_eq_foldl]
  exact (foldl_next_of_sound (P := fun _ => True) (fun _ _ _ h => h) commands sound_initial
    trivial).1

/-- What every command leaves as it is stays as it is from then on. -/
theorem after_append_of_next {P : Workspace → Prop} (h : ∀ w c, w.Sound → P w → P (w.next c))
    {before : List Command} (hp : P (after before)) (rest : List Command) :
    P (after (before ++ rest)) := by
  rw [after_append]
  exact (foldl_next_of_sound h rest (sound_after before) hp).2

end MixedInteger.Script
