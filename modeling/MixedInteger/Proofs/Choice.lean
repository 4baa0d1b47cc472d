/-
**The choice between an implication and its replacement.**

Under the policy that replaces what the engine does not take, an implication is looked at twice: where the
choice is made, and again where the engine records it.  The two looks ask the same questions of the same
capabilities and the same kinds, so what is chosen to be recorded is not refused, and what would have been
refused is replaced instead.  The second look divides by a coefficient; it is not zero in a canonical
expression, so the engine has no other reason to refuse than the shape.

Main definitions:

* `MixedInteger.Fault.refusesImplication` — the reasons why an engine does not take an implication;
* `MixedInteger.RefusedOnlyFor` — a computation is refused for no other reasons than some.

Main results:

* `MixedInteger.Model.refused_postImplication` — an engine refuses an implication for its shape alone;
* `MixedInteger.Implication.refused_replacement` — a replacement is refused for other reasons;
* `MixedInteger.Posting.replaces_eq` — the choice is the answer of the engine;
* `MixedInteger.Session.chosen_as_taken` — **an implication is recorded exactly if the engine takes it**.
-/

import MixedInteger.Proofs.Canonical
import MixedInteger.Proofs.Capabilities

set_option autoImplicit false

namespace MixedInteger

variable {α β γ : Type}

/-! ### Reasons of refusals -/

/-- Whether a fault says that an engine does not take an implication. -/
def Fault.refusesImplication : Fault α → Bool
  | .noImplications .. => true
  | .premiseNotEquation _ => true
  | .premiseNotUnary _ => true
  | .premiseNotBinary _ => true
  | .premiseNotFixing _ => true
  | .conclusionNotLinear _ => true
  | _ => false

theorem Fault.isUnsupportedShape_of_refusesImplication {f : Fault α}
    (h : f.refusesImplication = true) : f.isUnsupportedShape = true := by
  cases f <;> first | rfl | cases h

/-- Whatever a computation is refused for has a property. -/
def RefusedOnlyFor (P : Fault α → Prop) (x : Except (Fault α) β) : Prop := ∀ f, x = .error f → P f

namespace RefusedOnlyFor

variable {P : Fault α → Prop}

theorem ok (b : β) : RefusedOnlyFor P (.ok b) := nofun

theorem error {f : Fault α} (h : P f) : RefusedOnlyFor P (.error f : Except (Fault α) β) := by
  intro f' hf
  cases hf
  exact h

theorem bind {x : Except (Fault α) β} {f : β → Except (Fault α) γ} (hx : RefusedOnlyFor P x)
    (hf : ∀ b, x = .ok b → RefusedOnlyFor P (f b)) : RefusedOnlyFor P (x >>= f) := by
  cases x with
  | error fault => exact error (hx fault rfl)
  | ok b => exact hf b rfl

end RefusedOnlyFor

/-! ### What engines refuse -/

section Shape

variable {K : Type} [Field K] [LinearOrder K] [FloorRing K] {env : Environment (Extended K)}

/-- A premise in canonical form is refused for its shape alone. -/
theorem Implication.refused_checkPremise {c : Constraint (Extended K)}
    (hc : c.expression.Canonical) :
    RefusedOnlyFor (·.refusesImplication = true) (checkPremise env c) := by
  unfold checkPremise
  dsimp only
  split
  · exact .error rfl
  · split
    · next v a hlinear hentries =>
        split
        · exact .error rfl
        · have hmem : (v, a) ∈ c.expression.linear.entries := by
            rw [hentries]
            exact List.mem_singleton_self _
          have hne : a.toNumber ≠ 0 := hc.noZeroLinear _ hmem
          have hzero : (a == 0) = false :=
            Bool.eq_false_iff.2 fun h => hne ((Extended.beq_zero_iff (hc.linear _ hmem)).1 h)
          refine .bind ?_ fun b _ => ?_
          · unfold fixedValue Expression.quotient
            rw [hzero]
            exact .ok _
          · split
            · exact .error rfl
            · exact .ok _
    · exact .error rfl

/-- **An engine refuses an implication for its shape alone.** -/
theorem Model.refused_postImplication (m : Model (Extended K)) {i : Implication (Extended K)}
    (hi : i.premise.expression.Canonical) :
    RefusedOnlyFor (·.refusesImplication = true) (m.postImplication env i) := by
  unfold postImplication Implication.checkNative
  dsimp only
  split
  · exact .error rfl
  · refine .bind (.bind (Implication.refused_checkPremise hi) fun _ _ => ?_) fun _ _ => .ok _
    split
    · exact .error rfl
    · exact .ok _

/-- **What an engine takes fixes a binary variable**: its premise holds exactly where the variable has a
value that is zero or one, and its conclusion is linear. -/
theorem Model.fixes_of_postImplication {m m' : Model (Extended K)} {i : Implication (Extended K)}
    (hi : i.premise.IsFinite) (h : m.postImplication env i = .ok m') :
    (∃ v, ∃ b : K, env.kind v = .binary ∧ (b = 0 ∨ b = 1) ∧
      ∀ x : Assignment K, i.premise.Holds x ↔ x v = b) ∧ i.conclusion.isLinear = true := by
  refine ⟨?_, (takes_of_postImplication h).2.2⟩
  unfold postImplication at h
  dsimp only at h
  split at h
  · cases h
  · obtain ⟨u, hnative, -⟩ := exists_of_bind_eq_ok h
    obtain ⟨u, hpremise, -⟩ := exists_of_bind_eq_ok hnative
    obtain ⟨v, a, hselects, hkind⟩ := Constraint.selects_of_checkPremise hpremise
    obtain ⟨b, hb, hholds⟩ := hselects.holds_iff hi
    exact ⟨v, b, hkind, hb, hholds⟩

end Shape

/-! ### What replacing is refused for -/

section Replacing

variable [Scalar α] {env : Environment α}

theorem Constraint.refused_compare (relation : Relation) (e f : Expression α) :
    RefusedOnlyFor (·.refusesImplication = false) (compare env relation e f) := by
  unfold compare make
  dsimp only
  split
  · exact .error rfl
  · split
    · exact .error rfl
    · exact .ok _

theorem Constraint.refused_reified (c : Constraint α) :
    RefusedOnlyFor (·.refusesImplication = false) (c.reified env) := by
  unfold reified
  repeat' split
  all_goals first | exact .ok _ | exact .error rfl

/-- **A replacement is refused for other reasons than an implication.** -/
theorem Implication.refused_replacement (i : Implication α) :
    RefusedOnlyFor (·.refusesImplication = false) (i.replacement env) := by
  have hupper : ∀ e r : Expression α,
      RefusedOnlyFor (·.refusesImplication = false) (upperPart env e r) := by
    intro e r
    unfold upperPart
    split
    · exact .bind (Constraint.refused_compare _ _ _) fun _ _ => .ok _
    · exact .ok _
  have hlower : ∀ e r : Expression α,
      RefusedOnlyFor (·.refusesImplication = false) (lowerPart env e r) := by
    intro e r
    unfold lowerPart
    split
    · exact .bind (Constraint.refused_compare _ _ _) fun _ _ => .ok _
    · exact .ok _
  unfold replacement
  dsimp only
  split
  · exact .error rfl
  · split
    · exact .error rfl
    · refine .bind (Constraint.refused_reified _) fun r _ => .bind (hupper _ r) fun above _ => ?_
      cases i.conclusion.relation with
      | atMost => exact .ok _
      | equal =>
          dsimp only
          split
          · exact .error rfl
          · exact .bind (hlower _ r) fun below _ => .ok _

end Replacing

/-! ### The choice -/

namespace Posting

variable [Scalar α] [Roots α] {env : Environment α} {o : PostingOptions α} {i : Implication α}

omit [Roots α] in
/-- **The choice is the answer of the engine**, if that refuses for the shape alone. -/
theorem replaces_eq {m : Model α} (hpolicy : o.policy = .replaceUnsupported)
    (hscaling : o.scaling = none)
    (hm : RefusedOnlyFor (·.refusesImplication = true) (m.postImplication env i)) :
    replaces env o m i = .ok (!(m.postImplication env i).isOk) := by
  unfold replaces
  rw [hpolicy, hscaling]
  unfold Model.postImplication at hm ⊢
  cases hcapable : m.capabilities.implications with
  | false => rfl
  | true =>
      rw [hcapable] at hm
      unfold Implication.isNative
      cases hnative : i.checkNative env with
      | ok u => rfl
      | error f =>
          rw [hnative] at hm
          have hshape := Fault.isUnsupportedShape_of_refusesImplication (hm f rfl)
          simp [hshape]
          rfl

/-- What is added depends on the choice. -/
theorem run_implication {s : PostingState α} {b : Bool} (h : replaces env o s.model i = .ok b) :
    (implication env o i).run.run s =
      (if b then replacing env o i else change (·.postImplication env i)).run.run s := by
  have hstart : (implication env o i).run.run s =
      ((liftExcept (replaces env o s.model i)) >>= fun b =>
        if b then replacing env o i else change (·.postImplication env i)).run.run s := rfl
  rw [hstart, h]
  rfl

/-- A constraint that is not scaled is refused for its products alone. -/
theorem refused_unscaled {c : Constraint α} {s s' : PostingState α} {f : Fault α}
    (ho : o.scaling = none) (h : (constraint env o c).run.run s = (.error f, s')) :
    f.refusesImplication = false := by
  rcases refused_bind h with h | ⟨c', s1, -, h⟩
  · obtain ⟨-, t, ht, -⟩ := refused_prepared h
    rw [ho] at ht
    cases ht
  · obtain ⟨hpost, -⟩ := refused_change h
    unfold Model.post at hpost
    split at hpost <;> cases hpost
    rfl

/-- So what takes the place of an implication is not refused for being one. -/
theorem refused_unscaled_replacing {s s' : PostingState α} {f : Fault α} (ho : o.scaling = none)
    (h : (replacing env o i).run.run s = (.error f, s')) : f.refusesImplication = false := by
  rcases refused_replacing h with ⟨hP, -⟩ | ⟨P, s1, -, -, hpieces⟩
  · exact i.refused_replacement f hP
  · clear * - ho hpieces
    induction P generalizing s1 with
    | nil => cases hpieces
    | cons c rest ih =>
        rcases refused_bind hpieces with h | ⟨u, s2, -, h⟩
        · exact refused_unscaled ho h
        · exact ih s2 h

/-- What takes the place of an implication is no implication, whether or not all of it is recorded. -/
theorem implications_of_replacing (is : List (Implication α)) :
    Ensures (fun m => m.implications = is) (fun _ => True) (replacing env o i) := by
  refine ensures_replacing fun P _ c _ m m' hm h => ?_
  rw [Model.eq_of_post h, ← hm]
  exact List.append_nil m.implications

/-- Without scaling, it is the replacement. -/
theorem grow_of_unscaled_replacing {s s' : PostingState α} (ho : o.scaling = none)
    (h : (replacing env o i).run.run s = (.ok (), s')) :
    ∃ P, i.replacement env = .ok P ∧ s'.model = s.model.grow P [] := by
  obtain ⟨P, hP, hmodel⟩ := grow_of_replacing h
  have hrecorded : P.map (recorded env o) = P := by
    unfold recorded
    rw [ho]
    exact List.map_id P
  exact ⟨P, hP, hrecorded ▸ hmodel⟩

end Posting

/-! ### Requests -/

namespace Session

/-- A change that is not refused is made, and nothing else. -/
theorem post_change_of_ok {s : Session α} {f : Model α → Except (Fault α) (Model α)} {m : Model α}
    (h : f s.model = .ok m) :
    s.post (Posting.change f) = (.ok (), { s with state := { s.state with model := m } }) := by
  simp only [model] at h
  rw [post, Posting.run_change, h]

/-- A change that is refused is not made. -/
theorem post_change_of_error {s : Session α} {f : Model α → Except (Fault α) (Model α)}
    {fault : Fault α} (h : f s.model = .error fault) :
    s.post (Posting.change f) = (.error fault, s) := by
  simp only [model] at h
  rw [post, Posting.run_change, h]

variable {K : Type} [Field K] [LinearOrder K] [FloorRing K] [Roots (Extended K)]

/-- An implication that is added is recorded if the engine takes it, and replaced if not. -/
theorem performIn_addImplication (env : Environment (Extended K)) {s : Session (Extended K)}
    {i : Implication (Extended K)} (hpolicy : s.options.policy = .replaceUnsupported)
    (hscaling : s.options.scaling = none) (hi : i.premise.expression.Canonical) :
    s.performIn env (.addImplication i) =
      if (s.model.postImplication env i).isOk then s.performIn env (.recordImplication i)
      else s.post (Posting.replacing env s.options i) := by
  have hchoice : s.performIn env (.addImplication i) = s.post
      (if !(s.model.postImplication env i).isOk then Posting.replacing env s.options i
        else Posting.change (·.postImplication env i)) := by
    change s.post (Posting.implication env s.options i) = _
    unfold post
    rw [Posting.run_implication
      (Posting.replaces_eq hpolicy hscaling (s.model.refused_postImplication hi))]
    rfl
  rw [hchoice]
  cases (s.model.postImplication env i).isOk with
  | true => rfl
  | false => rfl

/-- **An implication is recorded exactly if the engine takes it.**  Suppose that the policy is to replace
what is not taken, and that nothing is scaled; the session may be in any state, its engine may take
anything, and the premise is any constraint in canonical form, as all that operators build are
(`MixedInteger.Cells.Canonical.run`).  Compare adding the implication with recording it directly.  If
recording is not refused, adding is the same, the premise holds exactly where some binary variable has a
value that is zero or one, and the conclusion is linear.  If it is refused, that is for the shape; then
adding means replacing, which records no implication, all of the replacement unless something is refused,
and is not refused for anything that an implication is refused for. -/
theorem chosen_as_taken (env : Environment (Extended K)) {s : Session (Extended K)}
    {i : Implication (Extended K)} (hpolicy : s.options.policy = .replaceUnsupported)
    (hscaling : s.options.scaling = none) (hi : i.premise.expression.Canonical) :
    let added := s.performIn env (.addImplication i)
    let recorded := s.performIn env (.recordImplication i)
    (added.2.model.implications = s.model.implications ++ [i] ↔ recorded.1 = .ok ()) ∧
      (recorded.1 = .ok () → added = recorded ∧ added.2.model = s.model.grow [] [i] ∧
        (∃ v, ∃ b : K, env.kind v = .binary ∧ (b = 0 ∨ b = 1) ∧
          ∀ x : Assignment K, i.premise.Holds x ↔ x v = b) ∧
        i.conclusion.isLinear = true) ∧
      ∀ f, recorded.1 = .error f → f.refusesImplication = true ∧ f.isUnsupportedShape = true ∧
        added = s.post (Posting.replacing env s.options i) ∧
        added.2.model.implications = s.model.implications ∧
        (added.1 = .ok () →
          ∃ P, i.replacement env = .ok P ∧ added.2.model = s.model.grow P []) ∧
        ∀ f', added.1 = .error f' → f'.refusesImplication = false := by
  intro added recorded
  have hadded : added = if (s.model.postImplication env i).isOk then recorded
      else s.post (Posting.replacing env s.options i) :=
    performIn_addImplication env hpolicy hscaling hi
  cases h : s.model.postImplication env i with
  | ok m =>
      have hsame : added = recorded := by rw [hadded, h]; rfl
      have hrecorded : recorded = (.ok (), { s with state := { s.state with model := m } }) :=
        post_change_of_ok h
      obtain rfl := Model.eq_of_postImplication h
      have hmodel : added.2.model = s.model.grow [] [i] := by
        rw [hsame, hrecorded]
        rfl
      refine ⟨?_, fun _ => ⟨hsame, hmodel, ?_⟩, fun f hf => ?_⟩
      · rw [hmodel, hrecorded]
        exact iff_of_true rfl rfl
      · exact Model.fixes_of_postImplication hi.toIsFinite h
      · rw [hrecorded] at hf
        cases hf
  | error f =>
      have hreplaced : added = s.post (Posting.replacing env s.options i) := by rw [hadded, h]; rfl
      have hrecorded : recorded = (.error f, s) := post_change_of_error h
      have hkept : added.2.model.implications = s.model.implications := by
        rw [hreplaced]
        exact of_ensures (Posting.implications_of_replacing s.model.implications) rfl
      refine ⟨?_, fun hok => ?_, fun f' hf => ?_⟩
      · rw [hkept, hrecorded]
        exact iff_of_false (by simp) (by simp)
      · rw [hrecorded] at hok
        cases hok
      · rw [hrecorded] at hf
        obtain rfl : f = f' := Except.error.inj hf
        have hshape := s.model.refused_postImplication hi f h
        refine ⟨hshape, Fault.isUnsupportedShape_of_refusesImplication hshape, hreplaced, hkept,
          fun hok => ?_, fun f' hf' => ?_⟩
        · rw [hreplaced] at hok ⊢
          exact Posting.grow_of_unscaled_replacing hscaling (run_of_post (Prod.ext hok rfl))
        · rw [hreplaced] at hf'
          exact Posting.refused_unscaled_replacing hscaling (run_of_refused_post hf')

/-- With a binary variable `x` and a variable `y` from zero to ten, `y ≤ 3` where `x` is one: an engine
that takes implications records it, and its premise holds where some binary variable has one value; one
that does not records `7 x + y ≤ 10` in its place. -/
theorem chosen_as_taken_of_switch :
    let x : Variable := ⟨0, 0⟩
    let y : Variable := ⟨0, 1⟩
    let i : Implication (Extended ℚ) :=
      { premise := ⟨.equal, (Expression.ofVariable x).addConstant (.finite (-1)), none⟩
        conclusion := ⟨.atMost, (Expression.ofVariable y).addConstant (.finite (-3)), none⟩
        name := none }
    let begun : Capabilities → Session (Extended ℚ) := fun capabilities =>
      start { Model.empty .memory capabilities (.infinite false) with
        slots := [⟨.binary, .finite 0, .finite 1, none⟩, ⟨.continuous, .finite 0, .finite 10, none⟩] }
        ⟨.replaceUnsupported, none⟩
    let able := begun .full
    let unable := begun { Capabilities.full with implications := false }
    letI := Rounding.rational.roots
    (able.performIn able.environment (.addImplication i)).2.model = able.model.grow [] [i] ∧
      (∃ v, ∃ b : ℚ, able.environment.kind v = .binary ∧ (b = 0 ∨ b = 1) ∧
        ∀ s : Assignment ℚ, i.premise.Holds s ↔ s v = b) ∧
      (unable.performIn unable.environment (.addImplication i)).2.model.implications = [] ∧
      ∃ P, (unable.performIn unable.environment (.addImplication i)).2.model = unable.model.grow P [] ∧
        P.map (fun c => (c.relation, c.expression.constant, c.expression.linear.entries)) =
          [(.atMost, .finite (-10), [(y, 1), (x, .finite 7)])] := by
  intro x y i begun able unable
  let roots := Rounding.rational.roots
  have hi : i.premise.expression.Canonical :=
    (Expression.canonical_ofVariable x).addConstant (Extended.isFinite_finite _)
  have hdone : ∀ r : Except (Fault (Extended ℚ)) Unit, r.isOk = true → r = .ok () := by
    rintro (f | u) h
    · cases h
    · rfl
  obtain ⟨-, htaken, -⟩ := chosen_as_taken able.environment (s := able) rfl rfl hi
  obtain ⟨-, hmodel, hfixes, -⟩ := htaken (hdone _ (by decide +kernel))
  obtain ⟨-, -, hrefused⟩ := chosen_as_taken unable.environment (s := unable) rfl rfl hi
  obtain ⟨-, -, -, hkept, hgrown, -⟩ := hrefused (.noImplications .memory i) rfl
  obtain ⟨P, hP, hreplaced⟩ := hgrown (hdone _ (by decide +kernel))
  have hentries : ((i.replacement unable.environment).toOption.getD []).map (fun c =>
      (c.relation, c.expression.constant, c.expression.linear.entries)) =
        [(.atMost, .finite (-10), [(y, 1), (x, .finite 7)])] := by
    decide +kernel
  rw [hP] at hentries
  exact ⟨hmodel, hfixes, hkept, P, hreplaced, hentries⟩

end Session

end MixedInteger
