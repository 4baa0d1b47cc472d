/-
**Which maker a registry uses.**

What a registry answers depends on the calls before.  The last call that gives an engine a maker or takes
it away decides, and the engine that records in memory has the built-in maker if there is no such call.
There is one exception.  The built-in maker enters with the first question, whenever its place is free
then, so a call that takes the maker from its engine before the first question has no effect.

Main definitions:

* `MixedInteger.Registry.lastTold` — what calls say last about an engine;
* `MixedInteger.Registry.Unheeded` — the last of it was said too early;
* `MixedInteger.Registry.Leaves` — the maker that calls leave an engine with;
* `MixedInteger.Registry.Answers` — the answers of a registry whose makers are known.

Main results:

* `MixedInteger.Registry.makers_perform` — the maker of an engine after one call;
* `MixedInteger.Registry.makers_run` — **after a run**, it is the one that the calls leave;
* `MixedInteger.Registry.answers_run` — **what a registry answers after a run**;
* `MixedInteger.Registry.maker_comes_back` — a maker that was taken away is there again.
-/

import Mathlib.Data.List.Induction
import MixedInteger.Model.Registry

set_option autoImplicit false

namespace MixedInteger

namespace Registry

variable {μ : Type}

/-! ### What calls say -/

/-- Whether a call is a question, with which the built-in maker enters. -/
def Call.isQuestion : Call μ → Bool
  | .register _ _ => false
  | .unregister _ => false
  | .list => true
  | .ask _ => true
  | .create _ => true

/-- What a call says about the maker of an engine: nothing, that there is none, or which one. -/
def Call.tells (e : Engine) : Call μ → Option (Option μ)
  | .register f maker => if f = e then some (some maker) else none
  | .unregister f => if f = e then some none else none
  | _ => none

/-- What calls say last about the maker of an engine. -/
def lastTold (e : Engine) (calls : List (Call μ)) : Option (Option μ) :=
  (calls.filterMap (Call.tells e)).getLast?

/-- The last call that says anything about an engine takes its maker away, before any question. -/
def Unheeded (e : Engine) (calls : List (Call μ)) : Prop :=
  ∃ before after, calls = before ++ .unregister e :: after ∧
    (∀ c ∈ before, c.isQuestion = false) ∧ ∀ c ∈ after, c.tells e = none

/-- The maker that calls leave an engine with. -/
def Leaves (builtin : μ) (calls : List (Call μ)) (e : Engine) (maker : μ) : Prop :=
  lastTold e calls = some (some maker) ∨
    e = .memory ∧ maker = builtin ∧ (lastTold e calls = none ∨ Unheeded e calls)

/-- The answers of a registry in which `has` says which engine has which maker. -/
structure Answers (has : Engine → μ → Prop) (answer : Call μ → Except RegistryFault (Answer μ)) :
    Prop where
  /-- A maker is used for its engine. -/
  create : ∀ e maker, e ≠ .any → has e maker → answer (.create e) = .ok (.made maker)
  /-- An engine without a maker is refused. -/
  refuse : ∀ e, e ≠ .any → (∀ maker, ¬ has e maker) →
    answer (.create e) = .error (.unavailable e)
  /-- The engines with a maker are offered. -/
  ask : ∀ e, e ≠ .any →
    ∃ offered, answer (.ask e) = .ok (.truth offered) ∧ (offered = true ↔ ∃ maker, has e maker)
  /-- They are listed in the order of preference. -/
  list : ∃ es, answer .list = .ok (.engines es) ∧ es.Sublist Engine.preference ∧
    ∀ e, e ∈ es ↔ e ≠ .any ∧ ∃ maker, has e maker
  /-- Where the choice is left open, the first engine with a maker is taken. -/
  first : ∀ before e after maker, Engine.preference = before ++ e :: after →
    (∀ f ∈ before, ∀ m, ¬ has f m) → has e maker →
      answer (.create .any) = .ok (.made maker) ∧ answer (.ask .any) = .ok (.truth true)
  /-- It cannot be left open if there is none. -/
  nothing : (∀ e, e ≠ .any → ∀ maker, ¬ has e maker) →
    answer (.create .any) = .error .nothingRegistered ∧ answer (.ask .any) = .ok (.truth false)

/-! ### One call more -/

theorem lastTold_concat (e : Engine) (calls : List (Call μ)) (c : Call μ) :
    lastTold e (calls ++ [c]) = (c.tells e).or (lastTold e calls) := by
  unfold lastTold
  rw [List.filterMap_append]
  cases h : c.tells e with
  | none => rw [List.filterMap_cons_none h, List.filterMap_nil, List.append_nil, Option.none_or]
  | some said =>
      rw [List.filterMap_cons_some h, List.filterMap_nil, List.getLast?_concat, Option.some_or]

/-- The last call is the one that comes too early, or it says nothing and an earlier one does. -/
theorem unheeded_concat_iff {e : Engine} {calls : List (Call μ)} {c : Call μ} :
    Unheeded e (calls ++ [c]) ↔
      (c = .unregister e ∧ ∀ d ∈ calls, d.isQuestion = false) ∨
        (c.tells e = none ∧ Unheeded e calls) := by
  constructor
  · rintro ⟨before, after, heq, hbefore, hafter⟩
    rcases List.eq_nil_or_concat after with rfl | ⟨rest, last, rfl⟩
    · obtain ⟨rfl, hc⟩ := List.append_inj' heq rfl
      exact Or.inl ⟨List.singleton_inj.1 hc, hbefore⟩
    · rw [List.concat_eq_append] at heq hafter
      rw [← List.cons_append, ← List.append_assoc] at heq
      obtain ⟨rfl, hc⟩ := List.append_inj' heq rfl
      rw [← List.singleton_inj.1 hc] at hafter
      obtain ⟨hrest, htells⟩ := List.forall_mem_append.1 hafter
      exact Or.inr ⟨htells c (List.mem_singleton_self c), before, rest, rfl, hbefore, hrest⟩
  · rintro (⟨rfl, hcalls⟩ | ⟨htells, before, after, rfl, hbefore, hafter⟩)
    · exact ⟨calls, [], rfl, hcalls, by simp⟩
    · refine ⟨before, after ++ [c], by simp, hbefore, List.forall_mem_append.2 ⟨hafter, ?_⟩⟩
      exact List.forall_mem_singleton.2 htells

/-- Only a call that takes a maker away tells that there is none. -/
theorem Call.tells_eq_some_none_iff {e : Engine} {c : Call μ} :
    c.tells e = some none ↔ c = .unregister e := by
  cases c <;> simp [tells]

/-! ### The makers after calls -/

@[simp] theorem makers_set (r : Registry μ) (e f : Engine) (maker : Option μ) :
    (r.set e maker).makers f = if f = e then maker else r.makers f := rfl

@[simp] theorem settled_set (r : Registry μ) (e : Engine) (maker : Option μ) :
    (r.set e maker).settled = r.settled := rfl

theorem makers_settle (builtin : μ) (r : Registry μ) (e : Engine) :
    (r.settle builtin).makers e =
      if r.settled = false ∧ e = .memory then some ((r.makers e).getD builtin)
      else r.makers e := by
  unfold settle
  cases hr : r.settled
  · by_cases he : e = .memory <;> simp [he]
  · simp

theorem settled_settle (builtin : μ) (r : Registry μ) : (r.settle builtin).settled = true := by
  unfold settle
  split
  · assumption
  · rfl

/-- The maker of an engine after a call: the one that the call names, or the one from before.  If the call
takes it away, it is the built-in one where that has not entered yet. -/
theorem makers_perform (builtin : μ) (r : Registry μ) (c : Call μ) {e : Engine} (he : e ≠ .any) :
    ((r.perform builtin c).2.settle builtin).makers e =
      match c.tells e with
      | none => (r.settle builtin).makers e
      | some (some maker) => some maker
      | some none => if r.settled = false ∧ e = .memory then some builtin else none := by
  cases c with
  | register f maker =>
      by_cases hf : f = .any
      · subst hf
        have hsame : (r.perform builtin (.register .any maker)).2 = r := rfl
        have htells : (Call.register .any maker).tells e = none := if_neg (Ne.symm he)
        rw [hsame, htells]
      · have hset : (r.perform builtin (.register f maker)).2 = r.set f (some maker) := by
          simp only [perform, register, if_neg hf]
          rfl
        rw [hset, makers_settle]
        by_cases hfe : f = e
        · subst hfe
          simp [Call.tells]
        · simp [Call.tells, hfe, Ne.symm hfe, makers_settle]
  | unregister f =>
      have hset : (r.perform builtin (.unregister f)).2 = r.set f none := rfl
      rw [hset, makers_settle]
      by_cases hfe : f = e
      · subst hfe
        simp [Call.tells]
      · simp [Call.tells, hfe, Ne.symm hfe, makers_settle]
  | list => exact congrArg (·.makers e) (settle_settle builtin r)
  | ask f => exact congrArg (·.makers e) (settle_settle builtin r)
  | create f => exact congrArg (·.makers e) (settle_settle builtin r)

theorem settled_perform (builtin : μ) (r : Registry μ) (c : Call μ) :
    (r.perform builtin c).2.settled = (r.settled || c.isQuestion) := by
  cases c with
  | register f maker =>
      unfold perform register
      by_cases hf : f = .any <;> simp [hf, Call.isQuestion, throw, throwThe, MonadExceptOf.throw, pure,
        Except.pure]
  | unregister f => simp [perform, unregister, Call.isQuestion]
  | list => simp [perform, settled_settle, Call.isQuestion]
  | ask f => simp [perform, settled_settle, Call.isQuestion]
  | create f => simp [perform, settled_settle, Call.isQuestion]

theorem run_concat (builtin : μ) (calls : List (Call μ)) (c : Call μ) :
    run builtin (calls ++ [c]) = ((run builtin calls).perform builtin c).2 := by
  simp [run]

/-- The built-in maker has entered after the first question. -/
theorem settled_run (builtin : μ) (calls : List (Call μ)) :
    (run builtin calls).settled = false ↔ ∀ c ∈ calls, c.isQuestion = false := by
  induction calls using List.reverseRecOn with
  | nil => simp [run, initial]
  | append_singleton calls c ih =>
      rw [run_concat, settled_perform, Bool.or_eq_false_iff, ih, List.forall_mem_append,
        List.forall_mem_singleton]

/-- **The maker of an engine after calls** is the one that they leave it with. -/
theorem makers_run (builtin : μ) (calls : List (Call μ)) {e : Engine} (he : e ≠ .any) (maker : μ) :
    ((run builtin calls).settle builtin).makers e = some maker ↔ Leaves builtin calls e maker := by
  induction calls using List.reverseRecOn with
  | nil =>
      rw [makers_settle]
      by_cases hm : e = .memory <;> simp [run, initial, Leaves, lastTold, hm, eq_comm]
  | append_singleton calls c ih =>
      rw [run_concat, makers_perform builtin _ c he]
      unfold Leaves
      rw [lastTold_concat, unheeded_concat_iff]
      by_cases hc : c.tells e = some none
      · -- the call is unheeded if no question came before it
        obtain rfl := Call.tells_eq_some_none_iff.1 hc
        rw [hc, ← settled_run builtin]
        by_cases hmemory : (run builtin calls).settled = false ∧ e = .memory
        · simp [hmemory, eq_comm]
        · rcases not_and_or.1 hmemory with h | h <;> simp [h]
      · have hother : c ≠ .unregister e := fun h => hc (Call.tells_eq_some_none_iff.2 h)
        match htells : c.tells e with
        | none => simpa [hother, Leaves] using ih
        | some (some m) => simp [hother]
        | some none => exact absurd htells hc

/-! ### The answers -/

/-- An engine is offered if it has a maker. -/
theorem mem_offered_iff (r : Registry μ) (e : Engine) :
    e ∈ r.offered ↔ e ≠ .any ∧ ∃ maker, r.makers e = some maker := by
  unfold offered
  rw [List.mem_filter, Engine.mem_preference_iff, Option.isSome_iff_exists]

/-- A registry uses the maker of an engine that has one. -/
theorem maker_of_mem_offered {r : Registry μ} {e : Engine} {maker : μ} (he : e ∈ r.offered)
    (hmaker : r.makers e = some maker) : r.maker e = .ok maker := by
  have hany := ((mem_offered_iff r e).1 he).1
  have hchoose : r.choose e = .ok e := by
    unfold choose
    rw [if_neg hany, if_pos (List.contains_iff_mem.2 he)]
    rfl
  unfold Registry.maker
  rw [hchoose]
  simp [bind, Except.bind, hmaker, pure, Except.pure]

/-- It has no answer for an engine without a maker. -/
theorem maker_of_not_mem_offered {r : Registry μ} {e : Engine} (hany : e ≠ .any)
    (he : e ∉ r.offered) : r.maker e = .error (.unavailable e) := by
  have hchoose : r.choose e = .error (.unavailable e) := by
    unfold choose
    rw [if_neg hany, if_neg fun h => he (List.contains_iff_mem.1 h)]
    rfl
  unfold Registry.maker
  rw [hchoose]
  rfl

/-- Where the choice is left open, the first engine that is offered is asked for. -/
theorem maker_any_of_offered {r : Registry μ} {e : Engine} {rest : List Engine}
    (h : r.offered = e :: rest) : r.maker .any = r.maker e := by
  have he : e ∈ r.offered := h ▸ List.mem_cons_self
  have hany : r.choose .any = .ok e := by
    unfold choose
    rw [if_pos rfl, h]
    rfl
  have hchoose : r.choose e = .ok e := by
    unfold choose
    rw [if_neg ((mem_offered_iff r e).1 he).1, if_pos (List.contains_iff_mem.2 he)]
    rfl
  unfold Registry.maker
  rw [hany, hchoose]

/-- **A registry answers by its makers**, once it is settled. -/
theorem answers_of_makers (builtin : μ) (r : Registry μ) :
    Answers (fun e maker => (r.settle builtin).makers e = some maker)
      (fun c => (r.perform builtin c).1) := by
  have hmem := mem_offered_iff (r.settle builtin)
  have hcreate : ∀ e, (r.perform builtin (.create e)).1 = ((r.settle builtin).maker e).map .made :=
    fun _ => rfl
  have hask : ∀ e, (r.perform builtin (.ask e)).1 = .ok (.truth ((r.settle builtin).offers e)) :=
    fun _ => rfl
  have hlist : (r.perform builtin .list).1 = .ok (.engines (r.settle builtin).offered) := rfl
  generalize r.settle builtin = t at *
  exact
    { create := by
        intro e maker hany hmaker
        have he : e ∈ t.offered := (hmem e).2 ⟨hany, maker, hmaker⟩
        rw [hcreate, maker_of_mem_offered he hmaker]
        rfl
      refuse := by
        intro e hany hnone
        have he : e ∉ t.offered := fun h => (hmem e).1 h |>.2.elim hnone
        rw [hcreate, maker_of_not_mem_offered hany he]
        rfl
      ask := by
        intro e hany
        refine ⟨_, hask e, ?_⟩
        unfold offers
        rw [if_neg hany, List.contains_iff_mem, hmem]
        exact and_iff_right hany
      list := ⟨t.offered, hlist, List.filter_sublist, hmem⟩
      first := by
        intro before e after maker hpreference hbefore hmaker
        have hoffered : t.offered = e :: after.filter fun e => (t.makers e).isSome := by
          have hfree : before.filter (fun e => (t.makers e).isSome) = [] :=
            List.filter_eq_nil_iff.2 fun f hf h =>
              (Option.isSome_iff_exists.1 h).elim (hbefore f hf)
          unfold offered
          rw [hpreference, List.filter_append, hfree, List.nil_append,
            List.filter_cons_of_pos (by rw [hmaker]; rfl)]
        have he : e ∈ t.offered := hoffered ▸ List.mem_cons_self
        constructor
        · rw [hcreate, maker_any_of_offered hoffered, maker_of_mem_offered he hmaker]
          rfl
        · rw [hask]
          unfold offers
          rw [if_pos rfl, hoffered]
          rfl
      nothing := by
        intro hnone
        have hoffered : t.offered = [] :=
          List.eq_nil_iff_forall_not_mem.2 fun e he =>
            let ⟨hany, _, hmaker⟩ := (hmem e).1 he
            hnone e hany _ hmaker
        constructor
        · rw [hcreate]
          unfold Registry.maker choose
          rw [if_pos rfl, hoffered]
          rfl
        · rw [hask]
          unfold offers
          rw [if_pos rfl, hoffered]
          rfl }

/-- Which maker an engine has matters for the concrete engines only. -/
theorem Answers.congr {has has' : Engine → μ → Prop}
    {answer : Call μ → Except RegistryFault (Answer μ)} (h : Answers has answer)
    (hiff : ∀ e maker, e ≠ .any → (has e maker ↔ has' e maker)) : Answers has' answer where
  create e maker hany hmaker := h.create e maker hany ((hiff e maker hany).2 hmaker)
  refuse e hany hnone := h.refuse e hany fun maker hmaker =>
    hnone maker ((hiff e maker hany).1 hmaker)
  ask e hany := by
    obtain ⟨offered, hask, hoffered⟩ := h.ask e hany
    exact ⟨offered, hask, hoffered.trans (exists_congr fun maker => hiff e maker hany)⟩
  list := by
    obtain ⟨es, hlist, hsub, hmem⟩ := h.list
    refine ⟨es, hlist, hsub, fun e => (hmem e).trans ?_⟩
    exact and_congr_right fun hany => exists_congr fun maker => hiff e maker hany
  first before e after maker hpreference hbefore hmaker := by
    have hany : ∀ f ∈ before ++ e :: after, f ≠ .any := fun f hf =>
      (Engine.mem_preference_iff f).1 (hpreference ▸ hf)
    refine h.first before e after maker hpreference (fun f hf m hm => ?_) ?_
    · exact hbefore f hf m ((hiff f m (hany f (List.mem_append_left _ hf))).1 hm)
    · exact (hiff e maker (hany e (by simp))).2 hmaker
  nothing hnone := h.nothing fun e hany maker hmaker =>
    hnone e hany maker ((hiff e maker hany).1 hmaker)

/-- **What a registry answers after calls**: by the makers that they leave. -/
theorem answers_run (builtin : μ) (calls : List (Call μ)) :
    Answers (Leaves builtin calls) (fun c => ((run builtin calls).perform builtin c).1) :=
  (answers_of_makers builtin (run builtin calls)).congr fun _ maker hany =>
    makers_run builtin calls hany maker

/-- **A maker that was taken away may come back** with no call that gives one: the built-in maker, if it is
taken away before the first question.  So it is not always the last call that decides. -/
theorem maker_comes_back :
    ¬ ∀ (builtin : String) (calls : List (Call String)),
      Answers (fun e maker => lastTold e calls = some (some maker) ∨
          lastTold e calls = none ∧ e = .memory ∧ maker = builtin)
        (fun c => ((run builtin calls).perform builtin c).1) := by
  intro hlaw
  have hanswers := hlaw "built-in" [.unregister .memory]
  have htold : lastTold .memory [.unregister .memory] = some (none : Option String) := rfl
  have hrefuse := hanswers.refuse .memory (by decide) (by simp [htold])
  cases hrefuse

end Registry

end MixedInteger
