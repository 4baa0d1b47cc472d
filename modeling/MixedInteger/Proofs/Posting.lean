/-
**Posting preserves meaning.**

A constraint that is added may be scaled by a power of two, an implication may be recorded as it is,
replaced by constraints, or replaced and scaled; which of these happens depends on the policy, on the
settings, on the engine and on the shape of the implication.  In every case what is recorded holds,
at an assignment that the bounds of the moment allow, exactly where what was added does.  So after any
number of requests the recorded model holds exactly where everything holds that was added.

Main definitions:

* `MixedInteger.Model.Feasible` — everything recorded holds;
* `MixedInteger.Session.Request.Asks` — what a request asks of an assignment;
* `MixedInteger.Session.Admits`, `MixedInteger.Session.Allows` — the bounds and kinds of the declared
  variables allow an assignment at the moment, and whenever something is added.

Main results:

* `MixedInteger.Posting.holds_recorded` — scaling;
* `MixedInteger.Session.feasible_perform` — one request;
* `MixedInteger.Session.feasible_run` — a run;
* `MixedInteger.Session.posting_preserves_meaning` — **a run from a model without variables**.
-/

import MixedInteger.Model.Session
import MixedInteger.Proofs.BigM
import MixedInteger.Scalar.Rounding

set_option autoImplicit false

namespace MixedInteger

variable {K : Type} [Field K] [LinearOrder K]

/-! ### What a model asks -/

/-- Everything that a model has recorded holds. -/
structure Model.Feasible (x : Assignment K) (m : Model (Extended K)) : Prop where
  constraints : ∀ c ∈ m.constraints, c.Holds x
  implications : ∀ i ∈ m.implications, i.Holds x

/-- A model without variables asks for nothing. -/
theorem Model.feasible_empty (x : Assignment K) (engine : Engine) (capabilities : Capabilities)
    (infinity : Extended K) : (Model.empty engine capabilities infinity).Feasible x :=
  ⟨fun _ hc => absurd hc List.not_mem_nil, fun _ hi => absurd hi List.not_mem_nil⟩

/-- What is recorded last is asked besides. -/
theorem Model.feasible_grow (x : Assignment K) (m : Model (Extended K))
    (cs : List (Constraint (Extended K))) (is : List (Implication (Extended K))) :
    (m.grow cs is).Feasible x ↔
      m.Feasible x ∧ (∀ c ∈ cs, c.Holds x) ∧ ∀ i ∈ is, i.Holds x := by
  constructor
  · rintro ⟨hc, hi⟩
    rw [Model.grow, List.forall_mem_append] at hc hi
    exact ⟨⟨hc.1, hi.1⟩, hc.2, hi.2⟩
  · rintro ⟨⟨hc, hi⟩, hcs, his⟩
    exact ⟨List.forall_mem_append.2 ⟨hc, hcs⟩, List.forall_mem_append.2 ⟨hi, his⟩⟩

namespace Session

theorem Keeps.feasible_iff {x : Assignment K} {m m' : Model (Extended K)} (h : Keeps m m') :
    m'.Feasible x ↔ m.Feasible x := by
  constructor
  · rintro ⟨hc, hi⟩
    exact ⟨h.constraints ▸ hc, h.implications ▸ hi⟩
  · rintro ⟨hc, hi⟩
    exact ⟨h.constraints.symm ▸ hc, h.implications.symm ▸ hi⟩

/-! ### Requests -/

/-- What a request asks of an assignment. -/
def Request.Asks (x : Assignment K) : Request (Extended K) → Prop
  | .add c => c.Holds x
  | .addImplication i => i.Holds x
  | .record c => c.Holds x
  | .recordImplication i => i.Holds x
  | _ => True

instance (x : Assignment K) : (r : Request (Extended K)) → Decidable (r.Asks x)
  | .add c => inferInstanceAs (Decidable (c.Holds x))
  | .addImplication i => inferInstanceAs (Decidable (i.Holds x))
  | .record c => inferInstanceAs (Decidable (c.Holds x))
  | .recordImplication i => inferInstanceAs (Decidable (i.Holds x))
  | .declare .. | .setLower .. | .setUpper .. | .setKind .. | .setName .. | .configure _
  | .setObjective .. => inferInstanceAs (Decidable True)

/-- What is added has numbers as coefficients. -/
def Request.IsFinite : Request (Extended K) → Prop
  | .add c => c.IsFinite
  | .addImplication i => i.IsFinite
  | .record c => c.IsFinite
  | .recordImplication i => i.IsFinite
  | _ => True

/-- Whether a variable occurs in what is added. -/
def Request.Mentions (v : Variable) : Request (Extended K) → Prop
  | .add c => v ∈ c.expression.vars
  | .addImplication i => i.Mentions v
  | .record c => v ∈ c.expression.vars
  | .recordImplication i => i.Mentions v
  | _ => False

/-- What is added has numbers as coefficients and mentions variables of the model alone. -/
structure Request.Sound (r : Request (Extended K)) : Prop where
  finite : r.IsFinite
  own : ∀ v, r.Mentions v → v.store = 0

theorem Request.asks_of_not_isAddition {r : Request (Extended K)} (h : r.isAddition = false)
    (x : Assignment K) : r.Asks x := by
  cases r <;> trivial

end Session

/-! ### Assignments that are allowed -/

variable [FloorRing K]

/-- The bounds and kinds of the moment allow the values of all declared variables. -/
def Session.Admits (x : Assignment K) (s : Session (Extended K)) : Prop :=
  ∀ slot < s.model.size, s.environment.Allows x ⟨0, slot⟩

instance (x : Assignment K) (s : Session (Extended K)) : Decidable (s.Admits x) :=
  inferInstanceAs (Decidable (∀ slot < s.model.size, s.environment.Allows x ⟨0, slot⟩))

/-! ### Scaling -/

variable [IsStrictOrderedRing K]

omit [IsStrictOrderedRing K] in
/-- A variable that is not declared may take any value. -/
theorem Model.allows_undeclared {m : Model (Extended K)} (hinf : 0 < m.infinity) (x : Assignment K)
    {slot : Nat} (h : m.size ≤ slot) : (Environment.ofModels [m]).Allows x ⟨0, slot⟩ := by
  have hattributes : (Environment.ofModels [m]).attributes ⟨0, slot⟩ = .unowned := by
    have hnone : m.slots[slot]? = none := List.getElem?_eq_none h
    simp [Environment.ofModels, hnone]
  refine ⟨⟨?_, ?_⟩, ?_⟩
  · rw [Environment.trueLower, Environment.lower, hattributes]
    change Expression.extend m.infinity (.infinite true) ≤ _
    unfold Expression.extend
    split
    · next hi =>
        exact absurd (Extended.lt_of_lt_of_le hinf hi) (by simp [Extended.zero_eq])
    · split <;> rfl
  · rw [Environment.trueUpper, Environment.upper, hattributes]
    change _ ≤ Expression.extend m.infinity (.infinite false)
    have hi : m.infinity ≤ .infinite false :=
      Extended.le_infinite_false (Extended.IsDefined.of_le (Extended.le_of_lt hinf)).2
    rw [Expression.extend, if_pos hi]
    rfl
  · intro hk
    rw [Environment.kind, hattributes] at hk
    exact absurd rfl hk

omit [IsStrictOrderedRing K] in
theorem Session.Admits.allows {x : Assignment K} {s : Session (Extended K)} (h : s.Admits x)
    (hinf : 0 < s.model.infinity) {v : Variable} (hv : v.store = 0) : s.environment.Allows x v := by
  obtain ⟨store, slot⟩ := v
  obtain rfl : store = 0 := hv
  by_cases hd : slot < s.model.size
  · exact h slot hd
  · exact Model.allows_undeclared hinf x (Nat.le_of_not_lt hd)

/-- A positive factor does not change where a constraint holds. -/
theorem Constraint.holds_scale {c : Constraint (Extended K)} (hc : c.IsFinite) {y : K} (hy : 0 < y)
    (name : Option String) (x : Assignment K) :
    (⟨c.relation, c.expression.scale (.finite y), name⟩ : Constraint (Extended K)).Holds x ↔
      c.Holds x := by
  have hv : (c.expression.scale (.finite y)).value x = c.expression.value x * y :=
    Expression.value_scale hc (Extended.isFinite_finite y) x
  unfold Holds
  cases c.relation with
  | atMost =>
      have h := mul_le_mul_iff_of_pos_right (b := c.expression.value x) (c := 0) hy
      rw [zero_mul] at h
      dsimp only
      rw [hv, h]
  | equal =>
      dsimp only
      rw [hv]
      exact mul_eq_zero_iff_right hy.ne'

section Runs

variable [Roots (Extended K)]

/-- What is recorded in the place of a constraint holds exactly where the constraint does. -/
theorem Posting.holds_recorded (hp : ExactPowers K) (env : Environment (Extended K))
    (o : PostingOptions (Extended K)) {c : Constraint (Extended K)} (hc : c.IsFinite)
    (x : Assignment K) : (recorded env o c).Holds x ↔ c.Holds x := by
  rcases eq_or_scale_of_recorded env o c with h | ⟨n, a, ha, h⟩
  · rw [h]
  · rw [h, hp n a ha]
    exact Constraint.holds_scale hc (zpow_pos two_pos n) _ x

namespace Session

/-! ### One request -/

/-- An addition that is not refused records what asks for the same. -/
theorem grow_of_perform (hp : ExactPowers K) {s s' : Session (Extended K)}
    {r : Request (Extended K)} {x : Assignment K} (hinf : 0 < s.model.infinity) (hr : r.Sound)
    (hx : s.Admits x) (ha : r.isAddition = true)
    (h : s.perform r = (.ok (), s')) :
    ∃ cs is, s'.model = s.model.grow cs is ∧
      ((∀ c ∈ cs, c.Holds x) ∧ (∀ i ∈ is, i.Holds x) ↔ r.Asks x) := by
  obtain ⟨hfinite, hown⟩ := hr
  cases r with
  | add c =>
      have hrun := run_of_post (p := Posting.constraint s.environment s.options c) h
      refine ⟨_, _, Posting.grow_of_constraint hrun, ?_⟩
      simpa [Request.Asks] using Posting.holds_recorded hp s.environment s.options hfinite x
  | addImplication i =>
      have hrun := run_of_post (p := Posting.implication s.environment s.options i) h
      rcases Posting.grow_of_implication hrun with ⟨P, hP, hm⟩ | hm
      · have hallowed : ∀ v, i.Mentions v → s.environment.Allows x v := fun v hv =>
          hx.allows hinf (hown v hv)
        obtain ⟨hf, hiff⟩ := Implication.holds_replacement (n := 0) hfinite hinf hown hallowed hP
        -- every constraint of the replacement is scaled by itself
        have hrecorded : (∀ c ∈ P.map (Posting.recorded s.environment s.options), c.Holds x) ↔
            ∀ c ∈ P, c.Holds x := by
          rw [List.forall_mem_map]
          exact forall₂_congr fun c hc =>
            Posting.holds_recorded hp s.environment s.options (hf c hc) x
        refine ⟨_, _, hm, ?_⟩
        rw [hrecorded, ← hiff]
        simp [Request.Asks]
      · exact ⟨_, _, hm, by simp [Request.Asks]⟩
  | record c =>
      have hrun := run_of_post (p := Posting.change (·.post c)) h
      have hm := Model.eq_of_post (Posting.model_of_change hrun)
      exact ⟨_, _, hm, by simp [Request.Asks]⟩
  | recordImplication i =>
      have hrun := run_of_post (p := Posting.change fun m => m.postImplication s.environment i) h
      have hm := Model.eq_of_postImplication (Posting.model_of_change hrun)
      exact ⟨_, _, hm, by simp [Request.Asks]⟩
  | _ => cases ha

/-- What one request does to what is asked, and that it leaves the infinity alone. -/
theorem feasible_perform (hp : ExactPowers K) {s : Session (Extended K)} {r : Request (Extended K)}
    {x : Assignment K} (hinf : 0 < s.model.infinity) (hr : r.Sound)
    (hok : r.isAddition = true → (s.perform r).1.isOk = true)
    (hx : r.isAddition = true → s.Admits x) :
    (s.perform r).2.model.infinity = s.model.infinity ∧
      ((s.perform r).2.model.Feasible x ↔ s.model.Feasible x ∧ r.Asks x) := by
  cases ha : r.isAddition with
  | false =>
      have hkeeps := Keeps.of_perform s ha
      have hasks := Request.asks_of_not_isAddition ha x
      refine ⟨hkeeps.infinity, ?_⟩
      rw [hkeeps.feasible_iff]
      exact (and_iff_left hasks).symm
  | true =>
      have hdone : s.perform r = (.ok (), (s.perform r).2) := by
        have hfirst := hok ha
        cases ho : (s.perform r).1 with
        | error f =>
            rw [ho] at hfirst
            cases hfirst
        | ok u => exact Prod.ext ho rfl
      obtain ⟨cs, is, hm, hiff⟩ := grow_of_perform hp hinf hr (hx ha) ha hdone
      rw [hm, Model.feasible_grow, hiff]
      exact ⟨rfl, Iff.rfl⟩

/-! ### Runs -/

/-- Whenever a run adds something, the bounds and the kinds of the moment allow an assignment. -/
def Allows (x : Assignment K) : Session (Extended K) → List (Request (Extended K)) → Prop
  | _, [] => True
  | s, r :: rest =>
    (r.isAddition = true → s.Admits x) ∧ Allows x (s.perform r).2 rest

instance decidableAllows (x : Assignment K) :
    (s : Session (Extended K)) → (requests : List (Request (Extended K))) →
      Decidable (s.Allows x requests)
  | _, [] => .isTrue trivial
  | s, r :: rest =>
    have := decidableAllows x (s.perform r).2 rest
    inferInstanceAs (Decidable ((r.isAddition = true → s.Admits x) ∧ Allows x (s.perform r).2 rest))

/-- After a run everything holds that held before and that was added. -/
theorem feasible_run (hp : ExactPowers K) {s : Session (Extended K)}
    {requests : List (Request (Extended K))} {x : Assignment K} (hinf : 0 < s.model.infinity)
    (hr : ∀ r ∈ requests, r.Sound) (hok : s.accepts requests = true) (hx : s.Allows x requests) :
    (s.run requests).model.Feasible x ↔ s.model.Feasible x ∧ ∀ r ∈ requests, r.Asks x := by
  induction requests generalizing s with
  | nil => simp [run]
  | cons r rest ih =>
      simp only [accepts, Bool.and_eq_true, Bool.or_eq_true, Bool.not_eq_true'] at hok
      obtain ⟨hok, hoks⟩ := hok
      obtain ⟨hx, hxs⟩ := hx
      have hfirst : r.isAddition = true → (s.perform r).1.isOk = true := fun ha =>
        hok.resolve_left (by simp [ha])
      obtain ⟨hkeep, hstep⟩ := feasible_perform hp hinf (hr r List.mem_cons_self) hfirst hx
      have hrun := ih (hkeep ▸ hinf) (fun t ht => hr t (List.mem_cons_of_mem _ ht)) hoks hxs
      -- what holds after the first request is what the rest of the run begins with
      rw [List.forall_mem_cons, ← and_assoc, ← hstep, ← hrun]
      rfl

end Session

end Runs

/-! ### Runs from the beginning -/

namespace Session

/-- **Posting preserves meaning**: however square roots and logarithms are rounded, whatever the engine
takes and whatever the infinity is, if no addition of a run is refused, what is recorded at its end
holds exactly where everything holds that was added, at every assignment that was allowed whenever
something was added. -/
theorem posting_preserves_meaning (R : Rounding K) (engine : Engine) (capabilities : Capabilities)
    {infinity : Extended K} (hinf : 0 < infinity) (o : PostingOptions (Extended K))
    {requests : List (Request (Extended K))} (hr : ∀ r ∈ requests, r.Sound) (x : Assignment K) :
    letI := R.roots
    let s := start (Model.empty engine capabilities infinity) o
    s.accepts requests = true → s.Allows x requests →
      ((s.run requests).model.Feasible x ↔ ∀ r ∈ requests, r.Asks x) := by
  let roots := R.roots
  intro s hok hx
  have hrun := feasible_run R.exactPowers (s := s) hinf hr hok hx
  rw [hrun]
  exact and_iff_right (Model.feasible_empty x engine capabilities infinity)

/-- A binary `x` and a `y` between zero and one; `65536 * y ≤ 65536` is scaled, `2 * y ≤ 1` where `x` is
one is replaced, and what is recorded holds where `x` is zero and `y` three quarters. -/
theorem posting_preserves_meaning_of_switch :
    let x : Variable := ⟨0, 0⟩
    let y : Variable := ⟨0, 1⟩
    let scaling : Thresholds (Extended ℚ) :=
      ⟨.finite (1 / 10000), .finite 10000, false, .finite 100000000⟩
    let requests : List (Request (Extended ℚ)) :=
      [.declare .binary none none none,
        .declare .continuous (some (.finite 0)) (some (.finite 1)) none,
        .configure ⟨.replaceUnsupported, some scaling⟩,
        .add ⟨.atMost, .affine (.finite (-65536)) (.finite 65536) y, none⟩,
        .addImplication
          { premise := ⟨.equal, .affine (.finite (-1)) (.finite 1) x, none⟩
            conclusion := ⟨.atMost, .affine (.finite (-1)) (.finite 2) y, none⟩
            name := none }]
    let s : Assignment ℚ := fun v => if v.slot = 0 then 0 else 3 / 4
    letI := Rounding.rational.roots
    let final := (start (Model.empty .memory .full (.infinite false)) ⟨.native, none⟩).run requests
    final.model.constraints.map (·.expression.constant) = [.finite (-256), .finite (-2)] ∧
      final.model.Feasible s := by
  intro x y scaling requests s
  let roots := Rounding.rational.roots
  have hr : ∀ r ∈ requests, r.Sound := by
    have hnothing : ∀ v : Variable, False → v.store = 0 := fun _ h => h.elim
    simp only [requests, List.forall_mem_cons]
    refine ⟨⟨trivial, hnothing⟩, ⟨trivial, hnothing⟩, ⟨trivial, hnothing⟩, ⟨?_, ?_⟩, ⟨?_, ?_⟩,
      List.forall_mem_nil _⟩
    · exact Expression.isFinite_affine _ _ y
    · intro v hv
      rw [(Expression.mem_vars_affine _ _ _ v).1 hv]
    · exact ⟨Expression.isFinite_affine _ _ x,
        Expression.isFinite_affine _ _ y⟩
    · intro v hv
      rcases hv with hv | hv <;> rw [(Expression.mem_vars_affine _ _ _ v).1 hv]
  have hinf : 0 < (.infinite false : Extended ℚ) := by decide +kernel
  have hasks : ∀ r ∈ requests, r.Asks s := by decide +kernel
  have hmeaning :=
    posting_preserves_meaning Rounding.rational .memory .full hinf ⟨.native, none⟩ hr s
  exact ⟨by decide +kernel, (hmeaning (by decide +kernel) (by decide +kernel)).2 hasks⟩

end Session

end MixedInteger
