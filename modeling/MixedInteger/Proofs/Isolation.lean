/-
**An operator in place changes one object.**

An operator that is applied in place to an expression object gives it other terms.  Nothing else that can
be read changes: not the terms of another expression object, be it a source of the first one or the
operand, not a constraint or an implication that was made before, and not what a model has recorded.

An operator that is refused is refused in front of its first change, as long as all coefficients are
doubles.  Between whole numbers it may stop on the way, the terms being half changed by then.

Main definitions:

* `MixedInteger.Script.Workspace.ChangesOnly` — all that can be read is the same but the terms of one
  expression object.

Main results:

* `MixedInteger.Script.constraint?_after_append`, `MixedInteger.Script.implication?_after_append` — **a
  constraint keeps its terms**, whatever a script does after it was made;
* `MixedInteger.Script.isolated_assign` — **an operator in place changes the terms of one object only**;
* `MixedInteger.Script.stops_on_the_way` — one that stops between whole numbers.
-/

import Mathlib.Data.List.Basic
import MixedInteger.Proofs.Completion
import MixedInteger.Proofs.Sparing

set_option autoImplicit false

namespace MixedInteger.Script

open Run Workspace Look

variable {r : Reach} {w w' : Workspace}

/-! ### What is read when references are followed -/

/-- An expression object that is there has terms. -/
theorem Heap.Apart.exists_terms? {h : Heap} (ha : h.Apart) {n : Nat} (hn : n < h.expressions.size) :
    ∃ e, h.terms? n = some e := by
  have hget : h.expressions[n]? = some h.expressions[n] := Array.getElem?_eq_getElem hn
  exact ⟨_, Heap.terms?_eq_some_iff.2 ⟨_, hget, Array.getElem?_eq_getElem (ha.isThere n _ hget)⟩⟩

/-- A constraint object that is there can be read. -/
theorem exists_constraint? (hw : w.Sound) {n : Nat} (hn : w.Admits (.constraint n)) :
    ∃ c, w.heap.constraint? n = some c := by
  have hget : w.heap.constraints[n]? = some w.heap.constraints[n] := Array.getElem?_eq_getElem hn
  have howned : w.heap.constraints[n].expression ∈ w.owned :=
    mem_owned.2 (Or.inl ⟨_, Array.mem_toList_iff.2 (Array.mem_of_getElem? hget), rfl⟩)
  obtain ⟨e, he⟩ := hw.apart.exists_terms? (hw.owned _ howned)
  exact ⟨⟨_, e, _⟩, Heap.constraint?_eq_some_iff.2 ⟨_, hget, he, rfl, rfl⟩⟩

section Reading

variable (hs : Spares r w w') (hr : ∀ n ∈ w.owned, r ≠ .terms n)
include hs hr

/-- A change that goes no further than the terms of what nothing owns shows in no constraint. -/
theorem constraint?_of_spares {n : Nat} {c : Constraint Number}
    (hc : w.heap.constraint? n = some c) : w'.heap.constraint? n = some c := by
  obtain ⟨o, ho, he, hrelation, hname⟩ := Heap.constraint?_eq_some_iff.1 hc
  -- what a constraint owns is out of reach
  have howned : o.expression ∈ w.owned :=
    mem_owned.2 (Or.inl ⟨o, Array.mem_toList_iff.2 (Array.mem_of_getElem? ho), rfl⟩)
  refine Heap.constraint?_eq_some_iff.2 ⟨o, hs.constraints n o ho, ?_, hrelation, hname⟩
  exact hs.terms _ _ (hr _ howned) he

/-- Nor in an implication. -/
theorem implication?_of_spares {v : Value} {i : Implication Number}
    (hi : w.heap.implication? v = some i) : w'.heap.implication? v = some i := by
  unfold Heap.implication? at hi ⊢
  split at hi
  · simp only [Option.bind_eq_bind, Option.bind_eq_some_iff, Option.pure_def, Option.some.injEq]
      at hi ⊢
    obtain ⟨p, hp, c, hc, rfl⟩ := hi
    exact ⟨p, constraint?_of_spares hs hr hp, c, constraint?_of_spares hs hr hc, rfl⟩
  · cases hi

theorem constraintOf?_of_spares (hw : w.Sound) {v : Value} (hv : w.Admits v) :
    w'.heap.constraintOf? v = w.heap.constraintOf? v := by
  cases v with
  | constraint n =>
      obtain ⟨c, hc⟩ := exists_constraint? hw hv
      exact (constraint?_of_spares hs hr hc).trans hc.symm
  | _ => rfl

theorem implication?_eq_of_spares (hw : w.Sound) {v : Value} (hv : w.Admits v) :
    w'.heap.implication? v = w.heap.implication? v := by
  cases hi : w.heap.implication? v with
  | some i => exact implication?_of_spares hs hr hi
  | none =>
      unfold Heap.implication? at hi ⊢
      split
      · obtain ⟨p, hp⟩ := exists_constraint? hw hv.1
        obtain ⟨c, hc⟩ := exists_constraint? hw hv.2
        simp [hp, hc] at hi
      · rfl

/-- Nor in a model with what was posted to it. -/
theorem whole_of_spares (hw : w.Sound) {k : Kept} (hk : k ∈ w.models) :
    k.whole w'.heap = k.whole w.heap := by
  have hposted := hw.posted k hk
  have hconstraints : k.constraints.filterMap w'.heap.constraintOf? =
      k.constraints.filterMap w.heap.constraintOf? :=
    List.filterMap_congr fun v hv =>
      constraintOf?_of_spares hs hr hw (hposted v (List.mem_append_left _ hv))
  have himplications : k.implications.filterMap w'.heap.implication? =
      k.implications.filterMap w.heap.implication? :=
    List.filterMap_congr fun v hv =>
      implication?_eq_of_spares hs hr hw (hposted v (List.mem_append_right _ hv))
  have hobjective : (k.whole w'.heap).objective = (k.whole w.heap).objective := by
    simp only [Kept.whole]
    cases ho : k.objective with
    | none => rfl
    | some o =>
        have howned : o.2 ∈ w.owned := mem_owned.2 (Or.inr ⟨k, hk, by rw [ho]; rfl⟩)
        obtain ⟨e, he⟩ := hw.apart.exists_terms? (hw.owned _ howned)
        simp [he, hs.terms _ _ (hr _ howned) he]
  simp only [Kept.whole] at hobjective ⊢
  rw [hconstraints, himplications, hobjective]

end Reading

/-! ### Scripts -/

/-- A register holds no expression object that belongs to a constraint, so no step reaches one. -/
theorem Step.reach_ne_terms (hw : w.Sound) (s : Step) : ∀ n ∈ w.owned, s.reach w ≠ .terms n := by
  intro n hn hreach
  unfold Step.reach at hreach
  split at hreach
  · split at hreach
    · next m hm =>
        cases hreach
        exact (admits_of_held? hw hm).2 hn
    · cases hreach
  · cases hreach

/-- A constraint keeps its terms over one command. -/
theorem constraint?_next (hw : w.Sound) (c : Command) {n : Nat} {d : Constraint Number}
    (hd : w.heap.constraint? n = some d) : (w.next c).heap.constraint? n = some d :=
  constraint?_of_spares (next_of_sound c hw).2 (c.step.reach_ne_terms hw) hd

theorem implication?_next (hw : w.Sound) (c : Command) {v : Value} {i : Implication Number}
    (hi : w.heap.implication? v = some i) : (w.next c).heap.implication? v = some i :=
  implication?_of_spares (next_of_sound c hw).2 (c.step.reach_ne_terms hw) hi

/-- **A constraint keeps its terms**, whatever a script does after it was made. -/
theorem constraint?_after_append (before rest : List Command) {n : Nat} {c : Constraint Number}
    (hc : (after before).heap.constraint? n = some c) :
    (after (before ++ rest)).heap.constraint? n = some c :=
  after_append_of_next (P := fun w => w.heap.constraint? n = some c)
    (fun _ d hw h => constraint?_next hw d h) hc rest

/-- So does an implication. -/
theorem implication?_after_append (before rest : List Command) {v : Value}
    {i : Implication Number} (hi : (after before).heap.implication? v = some i) :
    (after (before ++ rest)).heap.implication? v = some i :=
  after_append_of_next (P := fun w => w.heap.implication? v = some i)
    (fun _ d hw h => implication?_next hw d h) hi rest

/-! ### Operators in place -/

/-- All that can be read is the same but the terms of one expression object. -/
structure Workspace.ChangesOnly (n : Nat) (w w' : Workspace) : Prop where
  expressions : ∀ k e, k ≠ n → w.heap.terms? k = some e → w'.heap.terms? k = some e
  constraints : ∀ k c, w.heap.constraint? k = some c → w'.heap.constraint? k = some c
  implications : ∀ v i, w.heap.implication? v = some i → w'.heap.implication? v = some i
  models : ∀ (place : Nat) (k : Kept), w.models[place]? = some k →
    w'.models[place]? = some k ∧ k.whole w'.heap = k.whole w.heap
  registers : w'.registers = w.registers

/-- A register that is set to what it holds stays as it is. -/
theorem setEntry_of_find? {name : String} {v : Value} {xs : List (String × Value)}
    (h : (xs.find? fun x => x.1 == name).map Prod.snd = some v) : setEntry name v xs = xs := by
  induction xs with
  | nil => cases h
  | cons x rest ih =>
      unfold setEntry
      by_cases hx : (x.1 == name) = true
      · simp only [List.find?_cons, hx] at h
        cases h
        rw [if_pos hx, ← beq_iff_eq.1 hx]
      · simp only [List.find?_cons, hx] at h
        rw [if_neg hx, ih h]

theorem run_orRefuse {β : Type} {x : Option β} {b : β} (h : x = some b) (refusal : Refusal) :
    (orRefuse x refusal).run w = .ok b := by
  rw [h]
  rfl

/-- With an operand, the target gets the terms that the change reaches, also where it stops. -/
theorem outcome_assign_of_operand (op : Operator) {n : Nat} {v : Value} {e : Expression Number}
    {o : Operand Number} (he : w.heap.terms? n = some e)
    (ho : (operand? v).run w = .ok (some o)) :
    ∃ result, outcome (assign op (.expression n) v) w =
        (result, { w with heap := w.heap.write n (changeBy op e o).reached }) ∧
      (result = .ok (.expression n) ∨
        ∃ refusal, result = .error refusal ∧ (changeBy op e o).fault ≠ none) := by
  let c := changeBy op e o
  let w₁ : Workspace := { w with heap := w.heap.write n c.reached }
  have hterms : (terms n).run w = .ok e := run_orRefuse he .noSuchPart
  -- the terms are set as far as they go, and only then is the step refused
  have hset : outcome (setTerms n c.reached) w = (.ok (), w₁) := rfl
  have hassign : outcome (assign op (.expression n) v) w =
      outcome (do let _ ← lift c.result; return .expression n) w₁ :=
    (outcome_look_bind ho).trans ((outcome_look_bind hterms).trans (outcome_bind hset))
  rw [hassign]
  cases hr : (lift c.result).run w₁ with
  | error refusal =>
      refine ⟨_, outcome_look_bind_of_error hr, Or.inr ⟨refusal, rfl, fun hf => ?_⟩⟩
      have hresult : c.result = .ok c.reached := by
        simp only [Expression.Change.result, c, hf]
        rfl
      rw [hresult] at hr
      cases hr
  | ok g => exact ⟨_, outcome_look_bind hr, Or.inl rfl⟩

/-- Without one, nothing is changed. -/
theorem outcome_assign_of_no_operand (op : Operator) {n : Nat} {v : Value}
    (h : ∀ o, (operand? v).run w ≠ .ok (some o)) :
    ∃ refusal, outcome (assign op (.expression n) v) w = (.error refusal, w) := by
  cases ho : (operand? v).run w with
  | error refusal => exact ⟨refusal, outcome_look_bind_of_error ho⟩
  | ok o =>
      cases o with
      | some o => exact absurd ho (h o)
      | none => exact ⟨.wrongSort, outcome_look_bind ho⟩

/-- The step looks at its register, evaluates its argument, applies the operator and sets the
register. -/
theorem perform_assign (op : Operator) (name : String) (argument : Term) :
    perform (.assign op name argument) = do
      let target ← register name
      let v ← evaluate argument
      let u ← assign op target v
      setRegister name u
      return .made u := by
  simp only [perform, making, map_eq_pure_bind, bind_assoc, pure_bind]

/-- To put back what a register holds changes nothing. -/
theorem outcome_setRegister_of_held? {name : String} {v : Value} (h : w.held? name = some v) :
    outcome (do setRegister name v; return Outcome.made v) w = (.ok (.made v), w) := by
  have hset : outcome (setRegister name v) w =
      (.ok (), { w with registers := setEntry name v w.registers }) := rfl
  rw [setEntry_of_find? h] at hset
  exact outcome_bind hset

/-- What an operator in place comes to.  Either no terms are changed, and the step is refused; or the terms
of the target are those that the change reaches, and the step is refused only if the change is. -/
theorem outcome_perform_assign (hw : w.Sound) {name : String} {n : Nat}
    (hn : w.held? name = some (.expression n)) (op : Operator) (argument : Term)
    {e : Expression Number} (he : w.heap.terms? n = some e) :
    ∃ result w₁, Spares .additions w w₁ ∧
      ((outcome (perform (.assign op name argument)) w = (result, w₁) ∧
          ∃ refusal, result = .error refusal) ∨
        ∃ v o, outcome (evaluate argument) w = (.ok v, w₁) ∧
          (operand? v).run w₁ = .ok (some o) ∧
          outcome (perform (.assign op name argument)) w =
            (result, { w₁ with heap := w₁.heap.write n (changeBy op e o).reached }) ∧
          (result = .ok (.made (.expression n)) ∨
            ∃ refusal, result = .error refusal ∧ (changeBy op e o).fault ≠ none)) := by
  obtain ⟨-, hs, -⟩ := safe_evaluate (r := .additions) argument w hw
  have hregister : (register name).run w = .ok (.expression n) := run_orRefuse hn (.unbound name)
  rw [perform_assign, outcome_look_bind hregister]
  cases hv : outcome (evaluate argument) w with
  | mk result w₁ =>
      rw [hv] at hs
      cases result with
      | error refusal => exact ⟨_, w₁, hs, Or.inl ⟨outcome_bind_of_error hv, refusal, rfl⟩⟩
      | ok v =>
          rw [outcome_bind hv]
          by_cases ho : ∃ o, (operand? v).run w₁ = .ok (some o)
          · obtain ⟨o, ho⟩ := ho
            have he₁ : w₁.heap.terms? n = some e := hs.terms n e Reach.noConfusion he
            obtain ⟨result, hassign, rfl | ⟨refusal, rfl, hf⟩⟩ := outcome_assign_of_operand op he₁ ho
            · -- the register is set to the target, which it holds
              have hheld : w₁.held? name = some (.expression n) := by
                rw [held?, hs.registers rfl]
                exact hn
              refine ⟨_, w₁, hs, Or.inr ⟨v, o, rfl, ho, ?_, Or.inl rfl⟩⟩
              rw [outcome_bind hassign]
              exact outcome_setRegister_of_held? hheld
            · refine ⟨_, w₁, hs, Or.inr ⟨v, o, rfl, ho, ?_, Or.inr ⟨refusal, rfl, hf⟩⟩⟩
              exact outcome_bind_of_error hassign
          · obtain ⟨refusal, hassign⟩ := outcome_assign_of_no_operand op fun o h => ho ⟨o, h⟩
            exact ⟨_, w₁, hs, Or.inl ⟨outcome_bind_of_error hassign, refusal, rfl⟩⟩

/-- Only the terms of the target change. -/
theorem changesOnly_of_assign (hw : w.Sound) {name : String} {n : Nat}
    (hn : w.held? name = some (.expression n)) (op : Operator) (argument : Term) :
    ChangesOnly n w (outcome (perform (.assign op name argument)) w).2 := by
  have hadmits := admits_of_held? hw hn
  obtain ⟨e, he⟩ := hw.apart.exists_terms? hadmits.1
  obtain ⟨result, w₁, hs₁, hcases⟩ := outcome_perform_assign hw hn op argument he
  have hreach : (Step.assign op name argument).reach w = .terms n := by
    simp only [Step.reach, hn]
  have hs : Spares (.terms n) w (outcome (perform (.assign op name argument)) w).2 := by
    have hperform := (safe_perform (.assign op name argument) hw).2.1
    rwa [hreach] at hperform
  have hr : ∀ k ∈ w.owned, Reach.terms n ≠ .terms k := by
    intro k hk hkn
    cases hkn
    exact hadmits.2 hk
  -- models and registers are as the argument left them
  have hafter : (outcome (perform (.assign op name argument)) w).2.models = w₁.models ∧
      (outcome (perform (.assign op name argument)) w).2.registers = w₁.registers := by
    rcases hcases with ⟨hout, -⟩ | ⟨v, o, -, -, hout, -⟩ <;> rw [hout] <;> exact ⟨rfl, rfl⟩
  refine ⟨fun k f hk hf => ?_, fun k c hc => ?_, fun v i hi => ?_, fun place k hk => ⟨?_, ?_⟩, ?_⟩
  · exact hs.terms k f (fun h => hk (Reach.terms.inj h).symm) hf
  · exact constraint?_of_spares hs hr hc
  · exact implication?_of_spares hs hr hi
  · rw [hafter.1]
    obtain ⟨more, hmore⟩ := hs₁.models rfl
    rw [← hmore, List.getElem?_append_left (List.getElem?_eq_some_iff.1 hk).1, hk]
  · exact whole_of_spares hs hr hw (List.mem_of_getElem? hk)
  · rw [hafter.2, hs₁.registers rfl]

/-- **An operator in place changes the terms of one object only**, at whatever point of a script and
whichever registers hold that object.  Every other expression object, every constraint and every
implication between constraints is read as before, and so is what any model has recorded.  If the operator
is not refused, the target has the terms that the change by its operand reaches.  If it is, the target has
its own terms, as long as those and the operand have doubles for coefficients. -/
theorem isolated_assign (program : List Command) (op : Operator) (name : String)
    (argument : Term) {n : Nat} (hn : (after program).held? name = some (.expression n)) :
    let w := after program
    let r := outcome (perform (.assign op name argument)) w
    ChangesOnly n w r.2 ∧ ∃ e, w.heap.terms? n = some e ∧
      (r.1 = .ok (.made (.expression n)) → ∃ v w₁ o, outcome (evaluate argument) w = (.ok v, w₁) ∧
        (operand? v).run w₁ = .ok (some o) ∧
        r.2.heap.terms? n = some (changeBy op e o).reached) ∧
      ∀ refusal, r.1 = .error refusal → e.isReal = true →
        (∀ v w₁ o, outcome (evaluate argument) w = (.ok v, w₁) →
          (operand? v).run w₁ = .ok (some o) → o.asExpression.isReal = true) →
        r.2.heap.terms? n = some e := by
  intro w r
  have hw : w.Sound := sound_after program
  obtain ⟨e, he⟩ := hw.apart.exists_terms? (admits_of_held? hw hn).1
  refine ⟨changesOnly_of_assign hw hn op argument, e, he, ?_⟩
  obtain ⟨result, w₁, hs, hcases⟩ := outcome_perform_assign hw hn op argument he
  have he₁ : w₁.heap.terms? n = some e := hs.terms n e Reach.noConfusion he
  rcases hcases with ⟨hout, refusal, rfl⟩ | ⟨v, o, hv, ho, hout, hresult⟩
  · -- refused in front of the change
    have hr : r = (.error refusal, w₁) := hout
    rw [hr]
    exact ⟨fun h => (nomatch h), fun _ _ _ _ => he₁⟩
  · -- changed as far as the change goes
    have hr : r = (result, { w₁ with heap := w₁.heap.write n (changeBy op e o).reached }) := hout
    have hw₁ : w₁.Sound := by
      have hsound := (safe_evaluate (r := .additions) argument w hw).1
      rwa [hv] at hsound
    have hwrite : (w₁.heap.write n (changeBy op e o).reached).terms? n =
        some (changeBy op e o).reached :=
      Heap.terms?_write_self hw₁.apart (Nat.lt_of_lt_of_le (admits_of_held? hw hn).1 hs.size) _
    rw [hr]
    refine ⟨fun _ => ⟨v, w₁, o, hv, ho, hwrite⟩, fun refusal hrefusal hreal hoperand => ?_⟩
    rcases hresult with rfl | ⟨_, rfl, hf⟩
    · cases hrefusal
    · exact hwrite.trans
        (congrArg some (reached_changeBy_of_fault hreal (hoperand v w₁ o hv ho) hf))

/-- What a register holds, from a check that is computed. -/
theorem held?_of_any {name : String} {n : Nat}
    (h : (w.held? name).any (·.isSame (.expression n)) = true) :
    w.held? name = some (.expression n) := by
  obtain ⟨v, hv, hsame⟩ := (Option.any_eq_true _ _).1 h
  rw [hv, Copying.isSame_expression.1 hsame]

/-- Two registers hold the expression object of `2 x`, and `2 x ≤ 10` is made from it and posted.  When `y`
is added in place by way of one of them, the other one sees it and the constraint does not. -/
theorem isolated_assign_of_two_registers :
    let x : Variable := ⟨0, 0⟩
    let y : Variable := ⟨0, 1⟩
    let program : List Command :=
      [⟨some "b", .model .plain⟩, ⟨some "s", .solver (.register "b") none⟩,
        ⟨some "x", .variable "b" none none none none⟩, ⟨some "y", .variable "b" none none none none⟩,
        ⟨some "e", .value (.chain .mul [.register "x", .plain (.whole 2)])⟩,
        ⟨some "f", .value (.register "e")⟩,
        ⟨some "c", .value (.chain .atMost [.register "e", .plain (.whole 10)])⟩,
        ⟨none, .post "s" (.register "c")⟩]
    let w := after program
    let w' := (outcome (perform (.assign .add "f" (.register "y"))) w).2
    ∃ n, w.held? "e" = some (.expression n) ∧ w.held? "f" = some (.expression n) ∧
      (w.heap.terms? n).map (fun e => e.linear.keys) = some [x] ∧
      (w'.heap.terms? n).map (fun e => e.linear.keys) = some [x, y] ∧
      ∃ c, w.heap.constraint? 0 = some c ∧ w'.heap.constraint? 0 = some c ∧
        c.expression.linear.keys = [x] := by
  intro x y program w w'
  have he : w.held? "e" = some (.expression 0) := held?_of_any (by decide +kernel)
  have hf : w.held? "f" = some (.expression 0) := held?_of_any (by decide +kernel)
  have hc : (w.heap.constraint? 0).map (fun c => c.expression.linear.keys) = some [x] := by
    decide +kernel
  obtain ⟨c, hc, hkeys⟩ := Option.map_eq_some_iff.1 hc
  have hchanges : ChangesOnly 0 w w' := (isolated_assign program .add "f" (.register "y") hf).1
  exact ⟨0, he, hf, by decide +kernel, by decide +kernel, c, hc, hchanges.constraints 0 c hc, hkeys⟩

/-- **An operator in place may stop on the way**: ` e *= f ` with the coefficient `10 ^ 200` in both, as a
whole number, is refused for the want of a double for `10 ^ 400`, and by then the terms of `e` are gone. -/
theorem stops_on_the_way :
    ¬ ∀ (program : List Command) (op : Operator) (name : String) (argument : Term) (n : Nat),
      (after program).held? name = some (.expression n) →
        ∀ refusal, (outcome (perform (.assign op name argument)) (after program)).1 = .error refusal →
          (outcome (perform (.assign op name argument)) (after program)).2.heap.terms? n =
            (after program).heap.terms? n := by
  intro hkeeps
  -- each expression has one term, whose coefficient is given as a whole number and stays one
  let program : List Command :=
    [⟨some "b", .model .plain⟩, ⟨some "x", .variable "b" none none none none⟩,
      ⟨some "y", .variable "b" none none none none⟩,
      ⟨some "e", .terms none [("x", .plain (.whole (10 ^ 200)))] [] false⟩,
      ⟨some "f", .terms none [("y", .plain (.whole (10 ^ 200)))] [] false⟩]
  have he : (after program).held? "e" = some (.expression 0) := held?_of_any (by decide +kernel)
  have hbefore : ((after program).heap.terms? 0).map (fun e => e.linear.keys.length) = some 1 := by
    decide +kernel
  have hafter : ((outcome (perform (.assign .mul "e" (.register "f"))) (after program)).2.heap.terms? 0).map
      (fun e => e.linear.keys.length) = some 0 := by
    decide +kernel
  have hrefused :
      (outcome (perform (.assign .mul "e" (.register "f"))) (after program)).1.isOk = false := by
    decide +kernel
  cases hr : (outcome (perform (.assign .mul "e" (.register "f"))) (after program)).1 with
  | ok result =>
      rw [hr] at hrefused
      cases hrefused
  | error refusal =>
      rw [hkeeps program .mul "e" (.register "f") 0 he refusal hr, hbefore] at hafter
      cases hafter

end MixedInteger.Script
