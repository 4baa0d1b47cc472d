/-
**What a refused request leaves behind.**

A request that is refused leaves the model as it was, with one exception.  An implication whose
conclusion is an equation may be replaced by two inequalities, which are scaled and recorded one after
the other; where the second one cannot be scaled, the first one is recorded already.  A second
inequality that the engine does not take is no such case: it has products only where the first one has
some, and then the first one is not taken either.

Main definitions:

* `MixedInteger.Model.Takes` — the engine takes a constraint;
* `MixedInteger.Posting.Unscalable` — a constraint cannot be scaled;
* `MixedInteger.Constraint.Vanishes` — it is scaled by a power of two that is rounded to zero.

Main results:

* `MixedInteger.Posting.refused_constraints` — what was recorded before a refusal comes first in the
  list;
* `MixedInteger.Implication.eq_pair_of_replacement` — when an implication is replaced by two
  inequalities;
* `MixedInteger.Session.refused_request` — **what a refused request leaves behind**;
* `MixedInteger.Session.not_atomic` — an implication that is refused and leaves a constraint behind.
-/

import MixedInteger.Model.Session
import MixedInteger.Scalar.Rounding

set_option autoImplicit false

namespace MixedInteger

variable {α : Type}

/-! ### Products that are taken -/

/-- The engine takes a constraint: it has no products, or the engine takes those. -/
def Model.Takes (m : Model α) (c : Constraint α) : Prop :=
  c.isLinear = true ∨ m.capabilities.quadraticConstraints = true

/-- What is not taken is not recorded. -/
theorem Model.not_takes_of_post {m : Model α} {c : Constraint α} {fault : Fault α}
    (h : m.post c = .error fault) : ¬ m.Takes c := by
  unfold post at h
  split at h
  · next hc =>
      simp only [Bool.and_eq_true, Bool.not_eq_true'] at hc
      simp [Takes, hc]
  · cases h

theorem Model.takes_of_post {m m' : Model α} {c : Constraint α} (h : m.post c = .ok m') :
    m.Takes c := by
  unfold post at h
  split at h
  · cases h
  · next hc => simpa [Takes, or_iff_not_imp_left] using hc

section Pieces

variable [Scalar α]

/-- Only a multiple by zero loses its products. -/
theorem Expression.isLinear_of_isLinear_scale {e : Expression α} {a : α}
    (h : (e.scale a).isLinear = true) : e.isLinear = true ∨ (a == 0) = true := by
  unfold scale at h
  split at h
  · next ha => exact Or.inr ha
  · exact Or.inl (by simpa [isLinear] using h)

namespace Implication

variable {env : Environment α} {i : Implication α}

/-- An implication that is replaced by two inequalities or more has an equation as its conclusion and is
replaced by two, the second of which is linear if the first one is. -/
theorem eq_pair_of_replacement {p q : Constraint α} {rest : List (Constraint α)}
    (h : i.replacement env = .ok (p :: q :: rest)) :
    i.conclusion.relation = .equal ∧ rest = [] ∧ (p.isLinear = true → q.isLinear = true) := by
  obtain ⟨-, r, above, hr, habove, hcase⟩ := eq_of_replacement h
  have hlinear := Constraint.isLinear_of_reified hr
  rcases hcase with ⟨-, hP⟩ | ⟨hrelation, -, below, hbelow, hP⟩
  · rcases eq_of_upperPart habove with rfl | rfl <;> simp at hP
  · rcases eq_of_upperPart habove with rfl | rfl <;>
      rcases eq_of_lowerPart hbelow with rfl | rfl <;> simp at hP
    obtain ⟨rfl, rfl, rfl⟩ := hP
    refine ⟨hrelation, rfl, fun hp => ?_⟩
    rw [Constraint.isLinear, Expression.isLinear,
      Expression.quadratic_sub _ (Expression.isLinear_scale r _ hlinear)] at hp
    exact Expression.isLinear_sub (Expression.isLinear_scale r _ hlinear) hp

/-- What comes before a constraint of a replacement is nothing, or the one other inequality. -/
theorem eq_of_replacement_append {before after : List (Constraint α)} {c : Constraint α}
    (h : i.replacement env = .ok (before ++ c :: after)) :
    before = [] ∨ ∃ p, before = [p] ∧ after = [] ∧ i.conclusion.relation = .equal ∧
      (p.isLinear = true → c.isLinear = true) := by
  match before with
  | [] => exact Or.inl rfl
  | [p] =>
      obtain ⟨hrelation, hrest, hlinear⟩ := eq_pair_of_replacement h
      exact Or.inr ⟨p, rfl, hrest, hrelation, hlinear⟩
  | p :: q :: rest =>
      obtain ⟨-, hrest, -⟩ := eq_pair_of_replacement h
      simp at hrest

end Implication

end Pieces

/-- Scaling multiplies a constraint by a power of two that is rounded to zero. -/
def Constraint.Vanishes [Scalar α] [Roots α] (env : Environment α) (t : Thresholds α)
    (c : Constraint α) : Prop :=
  ∃ n a, Roots.powerOfTwo n = .ok a ∧ (a == 0) = true ∧
    (c.rescale env t).outcome = .ok (some ⟨c.relation, c.expression.scale a, c.name⟩)

/-! ### Refused steps of posting -/

namespace Posting

/-- Where two steps of posting fail one after the other, the first one fails, or the second one does
after it. -/
theorem refused_bind {β γ : Type} {p : Posting α β} {f : β → Posting α γ} {fault : Fault α}
    {s s'' : PostingState α} (h : (p >>= f).run.run s = (.error fault, s'')) :
    p.run.run s = (.error fault, s'') ∨
      ∃ b s', p.run.run s = (.ok b, s') ∧ (f b).run.run s' = (.error fault, s'') := by
  rw [ExceptT.run_bind, StateT.run_bind] at h
  cases hp : p.run.run s with
  | mk r s' =>
      rw [hp] at h
      cases r with
      | error e =>
          cases h
          exact Or.inl rfl
      | ok b => exact Or.inr ⟨b, s', rfl, h⟩

/-- A change that is refused leaves everything as it is. -/
theorem refused_change {f : Model α → Except (Fault α) (Model α)} {fault : Fault α}
    {s s' : PostingState α} (h : (change f).run.run s = (.error fault, s')) :
    f s.model = .error fault ∧ s' = s := by
  rw [run_change] at h
  cases hf : f s.model with
  | error e =>
      rw [hf] at h
      cases h
      exact ⟨rfl, rfl⟩
  | ok m =>
      rw [hf] at h
      cases h

/-- So does a computation without state. -/
theorem refused_liftExcept {β : Type} {x : Except (Fault α) β} {fault : Fault α}
    {s s' : PostingState α} (h : (liftExcept x).run.run s = (.error fault, s')) :
    x = .error fault ∧ s' = s := by
  cases x with
  | error f =>
      cases h
      exact ⟨rfl, rfl⟩
  | ok b => cases h

variable [Scalar α] [Roots α] {env : Environment α} {o : PostingOptions α} {fault : Fault α}
  {s s' : PostingState α}

/-- Scaling is on, and a constraint cannot be scaled. -/
def Unscalable (env : Environment α) (o : PostingOptions α) (c : Constraint α) (fault : Fault α) :
    Prop :=
  ∃ t, o.scaling = some t ∧ (c.rescale env t).outcome = .error fault

/-- Finding out what is recorded is refused only by scaling, and leaves the model as it is. -/
theorem refused_prepared {c : Constraint α}
    (h : (prepared env o c).run.run s = (.error fault, s')) :
    s'.model = s.model ∧ Unscalable env o c fault := by
  unfold prepared at h
  cases ho : o.scaling with
  | none =>
      rw [ho] at h
      cases h
  | some t =>
      rw [ho] at h
      rcases refused_bind h with h | ⟨u, s1, h1, h⟩
      · cases h
      · have hs1 := model_of_note h1
        cases hr : (c.rescale env t).outcome with
        | error f =>
            rw [hr] at h
            cases h
            exact ⟨hs1, t, ho, hr⟩
        | ok r =>
            rw [hr] at h
            cases r with
            | none => cases h
            | some d => rcases refused_bind h with h | ⟨u, s2, -, h⟩ <;> cases h

/-- A constraint that is refused cannot be scaled or is not taken, and leaves the model as it is. -/
theorem refused_constraint {c : Constraint α}
    (h : (constraint env o c).run.run s = (.error fault, s')) :
    s'.model = s.model ∧ (Unscalable env o c fault ∨ ¬ s.model.Takes (recorded env o c)) := by
  rcases refused_bind h with h | ⟨c', s1, h1, h⟩
  · obtain ⟨hm, hscale⟩ := refused_prepared h
    exact ⟨hm, Or.inl hscale⟩
  · obtain ⟨hm, rfl⟩ := eq_recorded_of_prepared h1
    obtain ⟨hpost, rfl⟩ := refused_change h
    rw [hm] at hpost
    exact ⟨hm, Or.inr (Model.not_takes_of_post hpost)⟩

/-- What is recorded in the place of a constraint that is not refused is taken. -/
theorem takes_of_constraint {c : Constraint α} (h : (constraint env o c).run.run s = (.ok (), s')) :
    s.model.Takes (recorded env o c) := by
  obtain ⟨c', s1, h1, hpost⟩ := exists_of_bind_run h
  obtain ⟨hm, rfl⟩ := eq_recorded_of_prepared h1
  rw [← hm]
  exact Model.takes_of_post (model_of_change hpost)

/-- Where one of several constraints is refused, those before it have been recorded. -/
theorem refused_constraints {cs : List (Constraint α)}
    (h : (cs.forM (constraint env o)).run.run s = (.error fault, s')) :
    ∃ before c after, cs = before ++ c :: after ∧
      s'.model = s.model.grow (before.map (recorded env o)) [] ∧
      (∀ b ∈ before, s.model.Takes (recorded env o b)) ∧
      (Unscalable env o c fault ∨ ¬ s.model.Takes (recorded env o c)) := by
  induction cs generalizing s with
  | nil => cases h
  | cons c rest ih =>
      rcases refused_bind h with h | ⟨u, s1, hfirst, hrest⟩
      · obtain ⟨hm, hwhy⟩ := refused_constraint h
        exact ⟨[], c, rest, rfl, by rw [hm, List.map_nil, Model.grow_nil],
          fun _ hb => absurd hb List.not_mem_nil, hwhy⟩
      · obtain ⟨before, d, after, rfl, hm, htakes, hwhy⟩ := ih hrest
        -- what the engine takes does not depend on what is recorded
        rw [grow_of_constraint hfirst] at hm htakes hwhy
        refine ⟨c :: before, d, after, rfl, ?_, ?_, hwhy⟩
        · rw [hm, Model.grow_grow]
          rfl
        · exact List.forall_mem_cons.2 ⟨takes_of_constraint hfirst, htakes⟩

/-- Replacing an implication is refused if it has no replacement, or for one of the constraints that take
its place. -/
theorem refused_replacing {i : Implication α}
    (h : (replacing env o i).run.run s = (.error fault, s')) :
    (i.replacement env = .error fault ∧ s' = s) ∨ ∃ P s1, i.replacement env = .ok P ∧
      s1.model = s.model ∧ (P.forM (constraint env o)).run.run s1 = (.error fault, s') := by
  rcases refused_bind h with h | ⟨P, s1, h1, hnote⟩
  · exact Or.inl (refused_liftExcept h)
  · obtain ⟨hP, rfl⟩ := eq_of_liftExcept h1
    rcases refused_bind hnote with h | ⟨u, s2, h2, hpieces⟩
    · cases h
    · exact Or.inr ⟨P, s2, hP, model_of_note h2, hpieces⟩

/-- An implication that is refused leaves the model as it is, unless a constraint that takes its place
is refused. -/
theorem refused_implication {i : Implication α}
    (h : (implication env o i).run.run s = (.error fault, s')) :
    s'.model = s.model ∨ ∃ P s1, i.replacement env = .ok P ∧ s1.model = s.model ∧
      (P.forM (constraint env o)).run.run s1 = (.error fault, s') := by
  unfold implication at h
  rcases refused_bind h with h | ⟨t, s0, h0, hrest⟩
  · cases h
  · cases h0
    rcases refused_bind hrest with h | ⟨b, s1, h1, hchoice⟩
    · exact Or.inl (congrArg _ (refused_liftExcept h).2)
    · obtain ⟨-, rfl⟩ := eq_of_liftExcept h1
      split at hchoice
      · exact (refused_replacing hchoice).imp_left fun h => congrArg _ h.2
      · exact Or.inl (congrArg _ (refused_change hchoice).2)

/-- Scaling does not bring in products. -/
theorem isLinear_recorded {c : Constraint α} (h : c.isLinear = true) :
    (recorded env o c).isLinear = true := by
  rcases eq_or_scale_of_recorded env o c with hc | ⟨n, a, -, hc⟩
  · rwa [hc]
  · rw [hc]
    exact Expression.isLinear_scale _ a h

/-- Nor does it lose any, unless it multiplies by zero. -/
theorem isLinear_of_isLinear_recorded {c : Constraint α} (h : (recorded env o c).isLinear = true) :
    c.isLinear = true ∨ ∃ t, o.scaling = some t ∧ c.Vanishes env t := by
  unfold recorded at h
  split at h
  · exact Or.inl h
  · next t ho =>
      split at h
      · next c' hr =>
          obtain ⟨n, a, ha, rfl⟩ := Constraint.eq_of_rescale hr
          exact (Expression.isLinear_of_isLinear_scale h).imp_right fun hz => ⟨t, ho, n, a, ha, hz, hr⟩
      · exact Or.inl h

/-- Where the engine takes the first one of two inequalities, and the second one is linear if that is,
it takes the second one, too. -/
theorem takes_recorded {m : Model α} {p q : Constraint α}
    (hlinear : p.isLinear = true → q.isLinear = true) (hp : m.Takes (recorded env o p)) :
    m.Takes (recorded env o q) ∨ ∃ t, o.scaling = some t ∧ p.Vanishes env t := by
  rcases hp with hp | hquadratic
  · exact (isLinear_of_isLinear_recorded hp).imp_left fun h => Or.inl (isLinear_recorded (hlinear h))
  · exact Or.inl (Or.inr hquadratic)

end Posting

/-! ### Refused requests -/

namespace Session

variable {s : Session α} {fault : Fault α}

/-- Posting that is refused, apart from the session. -/
theorem run_of_refused_post {p : Posting α Unit} (h : (s.post p).1 = .error fault) :
    p.run.run s.state = (.error fault, (s.post p).2.state) := Prod.ext h rfl

/-- A change that is refused leaves the model as it is. -/
theorem refused_post_change {f : Model α → Except (Fault α) (Model α)}
    (h : (s.post (Posting.change f)).1 = .error fault) :
    (s.post (Posting.change f)).2.model = s.model :=
  congrArg PostingState.model (Posting.refused_change (run_of_refused_post h)).2

variable [Scalar α] [Roots α]

/-- **What a refused request leaves behind**: the model as it was, unless scaling is on and an
implication was added whose conclusion is an equation and which two inequalities replace.  Then the
first one of these may have been recorded before the second one could not be scaled.  (If some power of
two is rounded to zero, the first one may besides have lost its products, and the second one not been
taken because of them.) -/
theorem refused_request {env : Environment α} {r : Request α} (h : (s.performIn env r).1 = .error fault) :
    (s.performIn env r).2.model = s.model ∨
      ∃ i t p q, r = .addImplication i ∧ i.conclusion.relation = .equal ∧
        s.options.scaling = some t ∧ i.replacement env = .ok [p, q] ∧
        (s.performIn env r).2.model =
          s.model.grow [Posting.recorded env s.options p] [] ∧
        ((q.rescale env t).outcome = .error fault ∨ p.Vanishes env t) := by
  cases r with
  | declare kind lower upper name => exact Or.inl (refused_post_change h)
  | setLower slot bound => exact Or.inl (refused_post_change h)
  | setUpper slot bound => exact Or.inl (refused_post_change h)
  | setKind slot kind => exact Or.inl (refused_post_change h)
  | setName slot name => exact Or.inl (refused_post_change h)
  | configure options => cases h
  | setObjective sense e => exact Or.inl (refused_post_change h)
  | record c => exact Or.inl (refused_post_change h)
  | recordImplication i => exact Or.inl (refused_post_change h)
  | add c =>
      have hrun := run_of_refused_post (p := Posting.constraint env s.options c) h
      exact Or.inl (Posting.refused_constraint hrun).1
  | addImplication i =>
      have hrun := run_of_refused_post (p := Posting.implication env s.options i) h
      rcases Posting.refused_implication hrun with hm | ⟨P, s1, hP, hs1, hpieces⟩
      · exact Or.inl hm
      · obtain ⟨before, q, after, rfl, hm, htakes, hwhy⟩ := Posting.refused_constraints hpieces
        rw [hs1] at hm htakes hwhy
        rcases Implication.eq_of_replacement_append hP with rfl | ⟨p, rfl, rfl, hrelation, hlinear⟩
        · exact Or.inl (hm.trans (Model.grow_nil _))
        · -- the first inequality was taken, so the second one is unless scaling failed or lost products
          rcases hwhy with ⟨t, ht, hscale⟩ | hrefused
          · exact Or.inr ⟨i, t, p, q, rfl, hrelation, ht, hP, hm, Or.inl hscale⟩
          · have hp := htakes p List.mem_cons_self
            obtain ⟨t, ht, hzero⟩ := (Posting.takes_recorded hlinear hp).resolve_left hrefused
            exact Or.inr ⟨i, t, p, q, rfl, hrelation, ht, hP, hm, Or.inr hzero⟩

/-- An engine that takes no products refuses `x² ≤ 1`, and the model stays as it was. -/
theorem refused_request_of_square :
    let x : Variable := ⟨0, 0⟩
    let c : Constraint (Extended ℚ) := ⟨.atMost, ⟨-1, .empty, .single (.of x x) 1⟩, none⟩
    letI := Rounding.rational.roots
    let s := (start (Model.empty .lpsolve {} (.infinite false)) ⟨.native, none⟩).run
      [.declare .continuous none none none]
    (s.perform (.add c)).1.isOk = false ∧ (s.perform (.add c)).2.model = s.model := by
  intro x c
  let roots := Rounding.rational.roots
  intro s
  have hrefused : (s.perform (.add c)).1.isOk = false := by decide +kernel
  cases h : (s.perform (.add c)).1 with
  | ok u =>
      rw [h] at hrefused
      cases hrefused
  | error fault =>
      rcases refused_request h with hm | ⟨i, t, p, q, hi, -⟩
      · exact ⟨rfl, hm⟩
      · cases hi

/-- **Adding an implication is not atomic**: not every request that is refused leaves the model as it
was.  With a binary `x` and a `y` from -60 to 10, where a bound from 100 on restricts nothing, that `y`
is zero where `2 x` is two is replaced by `20 x + y ≤ 20`, which is recorded, and by
`120 x - y ≤ 120`, whose terms reach too far to be scaled. -/
theorem not_atomic :
    letI := Rounding.rational.roots
    ¬ ∀ (capabilities : Capabilities) (infinity : Extended ℚ) (o : PostingOptions (Extended ℚ))
      (requests : List (Request (Extended ℚ))) (r : Request (Extended ℚ)) (fault : Fault (Extended ℚ)),
      0 < infinity →
        let s := (start (Model.empty .memory capabilities infinity) o).run requests
        (s.perform r).1 = .error fault → (s.perform r).2.model = s.model := by
  let roots := Rounding.rational.roots
  intro hatomic
  let scaling : Thresholds (Extended ℚ) :=
    ⟨.finite (1 / 10000), .finite 10000, false, .finite 100000000⟩
  let i : Implication (Extended ℚ) :=
    { premise := ⟨.equal, .affine (.finite (-2)) (.finite 2) ⟨0, 0⟩, none⟩
      conclusion := ⟨.equal, .affine 0 1 ⟨0, 1⟩, none⟩
      name := none }
  let requests : List (Request (Extended ℚ)) :=
    [.declare .binary none none none,
      .declare .continuous (some (.finite (-60))) (some (.finite 10)) none]
  let s := (start (Model.empty .memory .full (.finite 100))
    ⟨.replaceUnsupported, some scaling⟩).run requests
  have hrefused : (s.perform (.addImplication i)).1.isOk = false := by decide +kernel
  have hlength : (s.perform (.addImplication i)).2.model.constraints.length ≠
      s.model.constraints.length := by decide +kernel
  cases h : (s.perform (.addImplication i)).1 with
  | ok u =>
      rw [h] at hrefused
      cases hrefused
  | error fault =>
      have hkept := hatomic .full (.finite 100) ⟨.replaceUnsupported, some scaling⟩ requests
        (.addImplication i) fault (by decide +kernel) h
      exact hlength (congrArg (·.constraints.length) hkept)

end Session

end MixedInteger
