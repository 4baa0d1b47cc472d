/-
**Which constraints are refused to be scaled.**

A term reaches as far from zero as the ends of its range.  It reaches without limit exactly if its range
has an infinite end; otherwise it takes the value that is farthest.  So the amplitudes that are compared
with the infinity of the store are true ones, and where that infinity is infinite, scaling is refused for
terms without bounds alone.  Where it is a number, an amplitude may be as large without any bound being
missing, and then scaling is refused as well, also if infinite bounds are to be ignored.

Main definitions:

* `MixedInteger.Term.reach` — how far a term reaches from zero;
* `MixedInteger.Term.Unbounded` — a term that takes values beyond any limit;
* `MixedInteger.Term.Exceeds` — a multiple of a term that counts as infinite;
* `MixedInteger.BlamesNoTerm` — a computation that does not blame terms for being unbounded.

Main results:

* `MixedInteger.Term.reach_cases` — a term reaches beyond any limit, or as far as one of its values;
* `MixedInteger.Expression.le_amplitudeRange_iff` — the range is at or beyond the infinity if some
  amplitude is;
* `MixedInteger.Constraint.refused_for_terms_iff` — terms are blamed for nothing else;
* `MixedInteger.Constraint.unscalable_iff` — **which constraints are refused to be scaled**;
* `MixedInteger.Constraint.refused_though_bounded` — not those with unbounded terms alone.
-/

import MixedInteger.Proofs.Remaking
import MixedInteger.Scalar.Rounding

set_option autoImplicit false

namespace MixedInteger

open Extended

variable {K : Type} [Field K] [LinearOrder K] [FloorRing K]

/-! ### How far terms reach -/

namespace Extended

theorem larger_finite (x y : K) :
    Scalar.larger (finite x) (finite y) = finite (max x y) := by
  unfold Scalar.larger
  split
  · next h => rw [max_eq_right (le_of_lt h)]
  · next h => rw [max_eq_left (not_lt.1 h)]

theorem smaller_finite (x y : K) :
    Scalar.smaller (finite x) (finite y) = finite (min x y) := by
  unfold Scalar.smaller
  split
  · next h => rw [min_eq_right (le_of_lt h)]
  · next h => rw [min_eq_left (not_lt.1 h)]

/-- The larger of two values that compare is infinite if one of them is infinity. -/
theorem larger_infinite {a : Extended K} (ha : a.IsDefined) :
    Scalar.larger (infinite false) a = infinite false ∧
      Scalar.larger a (infinite false) = infinite false := by
  unfold Scalar.larger
  cases a with
  | undefined => exact (ha rfl).elim
  | finite x => exact ⟨if_neg nofun, if_pos rfl⟩
  | infinite n => cases n <;> simp

theorem magnitude_infinite (n : Bool) :
    Scalar.magnitude (infinite n : Extended K) = infinite false := by
  unfold Scalar.magnitude
  cases n
  · rw [if_neg (show ¬ (infinite false : Extended K) < 0 from nofun)]
    rfl
  · rw [if_pos (show (infinite true : Extended K) < 0 from rfl)]
    rfl

end Extended

namespace Term

/-- How far the value of a term reaches from zero. -/
def reach (env : Environment (Extended K)) (inf : Extended K) (t : Term) : Extended K :=
  Scalar.larger (Scalar.magnitude (t.range env inf).1) (Scalar.magnitude (t.range env inf).2)

/-- Within the bounds of its variables a term takes values beyond any limit. -/
def Unbounded (env : Environment (Extended K)) (t : Term) : Prop :=
  ∀ limit : K, ∃ s : Assignment K, (∀ v ∈ t.vars, env.Within s v) ∧ limit < |t.weight s|

/-- A multiple of a term counts as infinite: the term is unbounded, and this is not to be ignored or its
coefficient alone is large; or some value of the multiple is large. -/
def Exceeds (env : Environment (Extended K)) (inf : Extended K) (ignoreInfinite : Bool)
    (t : Term × Extended K) : Prop :=
  t.1.Unbounded env ∧ (ignoreInfinite = false ∨ inf ≤ finite |t.2.toNumber|) ∨
    ¬ t.1.Unbounded env ∧ ∃ s : Assignment K, (∀ v ∈ t.1.vars, env.Within s v) ∧
      inf ≤ finite |t.2.toNumber * t.1.weight s|

variable [IsStrictOrderedRing K] {env : Environment (Extended K)} {n : Nat} {inf : Extended K}
  {t : Term}

/-- **A term reaches beyond any limit, or as far as one of its values.** -/
theorem reach_cases (ht : t.Measured env inf) :
    t.reach env inf = infinite false ∧ t.Unbounded env ∨
      ∃ y, t.reach env inf = finite y ∧
        (∃ s : Assignment K, (∀ v ∈ t.vars, env.Within s v) ∧ |t.weight s| = y) ∧
        ∀ s : Assignment K, (∀ v ∈ t.vars, env.Within s v) → |t.weight s| ≤ y := by
  have hinf : ∀ v ∈ t.vars, env.infinity v.store = inf := fun v hv => (ht v hv).1
  have hvalue : ∀ {s : Assignment K}, (∀ v ∈ t.vars, env.Within s v) →
      (t.range env inf).1 ≤ finite (t.weight s) ∧
        finite (t.weight s) ≤ (t.range env inf).2 := fun hs => range_contains hinf hs
  have hlow := fun limit => exists_close_range ht (Or.inl rfl) limit
  have hhigh := fun limit => exists_close_range ht (Or.inr rfl) limit
  obtain ⟨s, hs, -⟩ := hlow 0
  obtain ⟨hl, hu⟩ := hvalue hs
  have hd1 : (Scalar.magnitude (t.range env inf).1).IsDefined :=
    (IsDefined.of_le (zero_le_magnitude (IsDefined.of_le hl).1)).2
  have hd2 : (Scalar.magnitude (t.range env inf).2).IsDefined :=
    (IsDefined.of_le (zero_le_magnitude (IsDefined.of_le hu).2)).2
  unfold reach
  cases h1 : (t.range env inf).1 with
  | undefined => exact absurd hl (h1 ▸ not_undefined_le _)
  | infinite m =>
      refine Or.inl ⟨by rw [magnitude_infinite, (larger_infinite hd2).1], fun limit => ?_⟩
      obtain ⟨s', hs', hclose⟩ := hlow limit
      exact ⟨s', hs', lt_abs_of_close (h1 ▸ hclose)⟩
  | finite a =>
      cases h2 : (t.range env inf).2 with
      | undefined => exact absurd hu (h2 ▸ not_le_undefined _)
      | infinite m =>
          refine Or.inl ⟨by rw [magnitude_infinite, ← h1, (larger_infinite hd1).2], fun limit => ?_⟩
          obtain ⟨s', hs', hclose⟩ := hhigh limit
          exact ⟨s', hs', lt_abs_of_close (h2 ▸ hclose)⟩
      | finite b =>
          refine Or.inr ⟨max |a| |b|, ?_, ?_, ?_⟩
          · rw [magnitude_finite, magnitude_finite, larger_finite]
          · -- both ends are values, and one of them is the farther one
            obtain ⟨s', hs', ha⟩ := hlow 0
            obtain ⟨s'', hs'', hb⟩ := hhigh 0
            rw [h1, close_finite] at ha
            rw [h2, close_finite] at hb
            rcases max_choice |a| |b| with hmax | hmax
            · exact ⟨s', hs', by rw [hmax, ha]⟩
            · exact ⟨s'', hs'', by rw [hmax, hb]⟩
          · intro s' hs'
            obtain ⟨ha, hb⟩ := hvalue hs'
            rw [h1] at ha
            rw [h2] at hb
            exact abs_le_max_abs_abs ha hb

omit [IsStrictOrderedRing K] in
/-- What is not unbounded does not reach beyond any limit. -/
theorem not_unbounded_of_le {y : K}
    (h : ∀ s : Assignment K, (∀ v ∈ t.vars, env.Within s v) → |t.weight s| ≤ y) :
    ¬ t.Unbounded env := by
  intro hunbounded
  obtain ⟨s, hs, hlt⟩ := hunbounded y
  exact (h s hs).not_gt hlt

/-- The amplitude of a multiple of a term is at or beyond the infinity exactly if the multiple counts as
infinite. -/
theorem le_amplitude_iff {c : Extended K} (ht : t.Admissible env n) (hc : c.IsFinite)
    (hinf : inf.IsDefined) (ignoreInfinite : Bool) :
    inf ≤ Expression.amplitude ignoreInfinite c (t.reach env (env.infinity n)) ↔
      Exceeds env inf ignoreInfinite (t, c) := by
  have hmagnitude : Scalar.magnitude c = finite |c.toNumber| := by
    rw [← magnitude_finite, ← hc.eq_finite]
  unfold Expression.amplitude Exceeds
  rw [hmagnitude]
  rcases reach_cases ht.measured with ⟨hreach, hunbounded⟩ | ⟨y, hreach, ⟨s, hs, rfl⟩, hle⟩
  · have hinfinite : Scalar.isInfinite (infinite false : Extended K) = true := rfl
    rw [hreach, if_pos hinfinite]
    cases ignoreInfinite with
    | false =>
        have hle : inf ≤ Scalar.infinity := le_infinite_false hinf
        simp [hunbounded, hle]
    | true => simp [hunbounded]
  · have hbounded := not_unbounded_of_le hle
    rw [hreach, if_neg (by simp), finite_mul, ← abs_mul]
    simp only [hbounded, false_and, not_false_eq_true, true_and, false_or]
    refine ⟨fun h => ⟨s, hs, h⟩, ?_⟩
    rintro ⟨s', hs', h⟩
    refine Extended.le_trans h ((finite_le_finite _ _).2 ?_)
    rw [abs_mul, abs_mul]
    exact mul_le_mul_of_nonneg_left (hle s' hs') (abs_nonneg _)

/-- Where the infinity is infinite, a multiple of a term counts as infinite only if the term is
unbounded. -/
theorem exceeds_infinity_iff {c : Extended K} (ignoreInfinite : Bool) :
    Exceeds env (infinite false) ignoreInfinite (t, c) ↔ ignoreInfinite = false ∧ t.Unbounded env := by
  simp [Exceeds, and_comm]

/-- A variable is unbounded exactly if one of its bounds is at or beyond the infinity of the store. -/
theorem unbounded_variable_iff {v : Variable} (hv : env.Consistent v) :
    (Term.variable v).Unbounded env ↔
      env.lower v ≤ -env.infinity v.store ∨ env.infinity v.store ≤ env.upper v := by
  have hwithin : ∀ {x : K}, env.trueLower v ≤ finite x → finite x ≤ env.trueUpper v →
      ∀ w ∈ (Term.variable v).vars, env.Within (fun _ => x) w := by
    intro x hl hu w hw
    obtain rfl := List.mem_singleton.1 hw
    exact ⟨hl, hu⟩
  rcases hv.trueLower_cases with ⟨hle, hlower⟩ | ⟨hnl, a, hlower⟩
  · refine iff_of_true (fun limit => ?_) (Or.inl hle)
    obtain ⟨x, hl, hu, hx⟩ := hv.exists_close (Or.inl rfl) limit
    exact ⟨_, hwithin hl hu, lt_abs_of_close (hlower ▸ hx)⟩
  · rcases hv.trueUpper_cases with ⟨hge, hupper⟩ | ⟨hnu, b, hupper⟩
    · refine iff_of_true (fun limit => ?_) (Or.inr hge)
      obtain ⟨x, hl, hu, hx⟩ := hv.exists_close (Or.inr rfl) limit
      exact ⟨_, hwithin hl hu, lt_abs_of_close (hupper ▸ hx)⟩
    · refine iff_of_false (not_unbounded_of_le (y := max |a| |b|) fun s hs => ?_)
        (not_or.2 ⟨hnl, hnu⟩)
      obtain ⟨hl, hu⟩ := hs v List.mem_cons_self
      rw [hlower] at hl
      rw [hupper] at hu
      exact abs_le_max_abs_abs hl hu

end Term

/-! ### Amplitudes -/

namespace Expression

variable [IsStrictOrderedRing K] {env : Environment (Extended K)} {n : Nat}
  {e : Expression (Extended K)}

/-- The amplitudes are those of the constant and of the terms that are not zero. -/
theorem mem_amplitudes_iff (he : e.IsFinite) (inf a : Extended K) (ignoreInfinite : Bool) :
    a ∈ e.amplitudes env inf ignoreInfinite ↔ (a == 0) = false ∧ (a = finite |e.constant.toNumber| ∨
      ∃ t ∈ e.terms, a = amplitude ignoreInfinite t.2 (t.1.reach env inf)) := by
  have hconstant : (a == 0) = false →
      (a ∈ (if e.constant == 0 then [] else [Scalar.magnitude e.constant]) ↔
        a = finite |e.constant.toNumber|) := by
    intro ha
    split
    · next hzero =>
        refine iff_of_false (by simp) fun h => ?_
        rw [h, eq_zero_of_beq hzero, toNumber_zero, abs_zero] at ha
        exact of_decide_eq_false ha rfl
    · rw [← magnitude_finite, ← he.constant.eq_finite, List.mem_singleton]
  unfold amplitudes
  dsimp only
  rw [List.mem_filter, and_comm, Bool.not_eq_true']
  refine and_congr_right fun ha => ?_
  simp only [List.mem_append, hconstant ha, terms, variableTerms, pairTerms, List.mem_map, or_and_right,
    exists_or, exists_exists_and_eq_and, or_assoc, eq_comm (a := a)]
  rfl

/-- An amplitude is at or beyond the infinity if the constant is, or a term. -/
theorem exists_le_amplitudes_iff (he : e.IsFinite) {inf : Extended K} (hinf : 0 < inf)
    (ignoreInfinite : Bool) :
    (∃ a ∈ e.amplitudes env inf ignoreInfinite, inf ≤ a) ↔ inf ≤ finite |e.constant.toNumber| ∨
      ∃ t ∈ e.terms, inf ≤ amplitude ignoreInfinite t.2 (t.1.reach env inf) := by
  -- amplitudes that are zero are left out, and the infinity is not among them
  have hkept : ∀ a : Extended K, inf ≤ a → (a == 0) = false := by
    intro a ha
    rw [Bool.eq_false_iff]
    intro hzero
    rw [eq_zero_of_beq hzero] at ha
    exact Extended.not_lt_of_le ha hinf
  simp only [mem_amplitudes_iff he]
  constructor
  · rintro ⟨a, ⟨-, rfl | ⟨t, ht, rfl⟩⟩, ha⟩
    · exact Or.inl ha
    · exact Or.inr ⟨t, ht, ha⟩
  · rintro (h | ⟨t, ht, h⟩)
    · exact ⟨_, ⟨hkept _ h, Or.inl rfl⟩, h⟩
    · exact ⟨_, ⟨hkept _ h, Or.inr ⟨t, ht, rfl⟩⟩, h⟩

/-- Over one store, a term counts as infinite exactly if its amplitude is at or beyond the infinity. -/
theorem exists_exceeds_iff (he : e.IsFinite) (hd : (e.infinity env).IsDefined)
    (hstore : ∀ v ∈ e.vars, v.store = n) (hroom : ∀ v ∈ e.vars, env.Consistent v)
    (ignoreInfinite : Bool) :
    (∃ t ∈ e.terms, e.infinity env ≤
        amplitude ignoreInfinite t.2 (t.1.reach env (e.infinity env))) ↔
      ∃ t ∈ e.terms, Term.Exceeds env (e.infinity env) ignoreInfinite t := by
  refine exists_congr fun t => and_congr_right fun ht => ?_
  have hadmissible : t.1.Admissible env n := fun v hv =>
    ⟨(forall_mem_vars_iff e _).1 hstore t ht v hv, (forall_mem_vars_iff e _).1 hroom t ht v hv⟩
  have hconstant : e.isConstant = false := by
    rw [← Bool.not_eq_true, isConstant_iff_terms_eq_nil]
    exact List.ne_nil_of_mem ht
  rw [← Term.le_amplitude_iff hadmissible (he.of_mem_terms t ht) hd, ← infinity_eq hstore hconstant]

/-- **The range is at or beyond the infinity exactly if some amplitude is.** -/
theorem le_amplitudeRange_iff (he : e.IsFinite) (hv : ∀ v ∈ e.vars, env.Compares v)
    (hinf : 0 < e.infinity env) (ignoreInfinite : Bool) :
    e.infinity env ≤ (e.amplitudeRange env ignoreInfinite).1 ∨
        e.infinity env ≤ (e.amplitudeRange env ignoreInfinite).2 ↔
      ∃ a ∈ e.amplitudes env (e.infinity env) ignoreInfinite, e.infinity env ≤ a := by
  have hd : (e.infinity env).IsDefined := (IsDefined.of_le (Extended.le_of_lt hinf)).2
  have hpos : ∀ a ∈ e.amplitudes env (e.infinity env) ignoreInfinite, 0 < a :=
    fun a ha => zero_lt_of_mem_amplitudes he hv ha
  have htold : ∀ a : Extended K, 0 < a →
      (e.infinity env ≤ (if Scalar.isInfinite a then e.infinity env else a) ↔ e.infinity env ≤ a) := by
    intro a ha
    split
    · next hi =>
        refine iff_of_true hd.le_refl ?_
        cases a with
        | undefined => cases hi
        | finite x => cases hi
        | infinite m =>
            obtain rfl : m = false := ha
            exact le_infinite_false hd
    · exact Iff.rfl
  unfold amplitudeRange
  dsimp only
  cases hlist : e.amplitudes env (e.infinity env) ignoreInfinite with
  | nil =>
      have hnot : ¬ e.infinity env ≤ 0 := fun h => Extended.not_lt_of_le h hinf
      simp [hnot]
  | cons a rest =>
      rw [hlist] at hpos
      have hdefined : ∀ b ∈ a :: rest, b.IsDefined := fun b hb =>
        (IsDefined.of_le (Extended.le_of_lt (hpos b hb))).2
      rw [htold _ (hpos _ (least_mem a rest)), htold _ (hpos _ (greatest_mem a rest))]
      constructor
      · rintro (h | h)
        · exact ⟨_, least_mem a rest, h⟩
        · exact ⟨_, greatest_mem a rest, h⟩
      · rintro ⟨b, hb, h⟩
        exact Or.inr (Extended.le_trans h (le_greatest hdefined hb))

end Expression

/-! ### Other refusals -/

/-- A computation that does not end with blaming terms for being unbounded. -/
def BlamesNoTerm {α β : Type} (x : Except (Fault α) β) : Prop := ∀ c, x ≠ .error (.unboundedTerms c)

namespace BlamesNoTerm

variable {α β γ : Type}

theorem ok (b : β) : BlamesNoTerm (.ok b : Except (Fault α) β) := nofun

theorem bind {x : Except (Fault α) β} {f : β → Except (Fault α) γ} (hx : BlamesNoTerm x)
    (hf : ∀ b, BlamesNoTerm (f b)) : BlamesNoTerm (x >>= f) := by
  cases x with
  | error fault =>
      intro c h
      cases h
      exact hx c rfl
  | ok b => exact hf b

theorem liftNumber (x : Except (NumberFault α) β) : BlamesNoTerm (liftNumber x) := by
  intro c h
  cases x <;> cases h

variable [Scalar α]

theorem quotient (a b : α) : BlamesNoTerm (Expression.quotient a b) := by
  intro c h
  unfold Expression.quotient at h
  split at h <;> cases h

theorem make (env : Environment α) (relation : Relation) (e : Expression α)
    (name : Option String) : BlamesNoTerm (Constraint.make env relation e name) := by
  intro c h
  unfold Constraint.make at h
  dsimp only at h
  split at h <;> cases h

variable [Roots α]

/-- Finding the divisor fails for other reasons only, -/
theorem plan (t : Thresholds α) (e : Expression α) (low high : α) :
    BlamesNoTerm (Constraint.plan t e low high) := by
  unfold Constraint.plan Constraint.centredRange
  refine (liftNumber _).bind fun d => BlamesNoTerm.bind ?_ fun range => ?_
  · refine (quotient _ _).bind fun unit => ?_
    refine (quotient _ _).bind fun top => ?_
    exact (quotient _ _).bind fun bottom => ok _
  · split
    · exact ok _
    · refine (quotient _ _).bind fun spread => ?_
      split
      · exact ok _
      · exact ok _

/-- and so does multiplying. -/
theorem applyDivisor (env : Environment α) (c : Constraint α) (d : α) :
    BlamesNoTerm (c.applyDivisor env d) := by
  unfold Constraint.applyDivisor
  refine (quotient _ _).bind fun q => ?_
  exact (liftNumber _).bind fun factor => make _ _ _ _

end BlamesNoTerm

namespace Constraint

/-- **Terms are blamed exactly if the amplitude range is at or beyond the infinity.** -/
theorem refused_for_terms_iff {α : Type} [Scalar α] [Roots α] (env : Environment α) (t : Thresholds α)
    (c d : Constraint α) :
    (c.rescale env t).outcome = .error (.unboundedTerms d) ↔ d = c ∧
      (c.expression.infinity env ≤ (c.expression.amplitudeRange env t.ignoreInfinite).1 ∨
        c.expression.infinity env ≤ (c.expression.amplitudeRange env t.ignoreInfinite).2) := by
  unfold rescale
  dsimp only
  split
  · next hbeyond =>
      constructor
      · intro h
        cases h
        exact ⟨rfl, hbeyond⟩
      · rintro ⟨rfl, -⟩
        rfl
  · next hwithin =>
      refine iff_of_false ?_ fun h => hwithin h.2
      split
      · nofun
      · split
        · next fault hplan =>
            intro h
            cases h
            exact BlamesNoTerm.plan t _ _ _ d hplan
        · next a notices hplan =>
            intro h
            cases happly : c.applyDivisor env a with
            | error fault =>
                rw [happly] at h
                cases h
                exact BlamesNoTerm.applyDivisor env c a d happly
            | ok c' =>
                rw [happly] at h
                cases h

/-! ### Which constraints are refused -/

variable [IsStrictOrderedRing K] [Roots (Extended K)] {env : Environment (Extended K)} {n : Nat}
  {c : Constraint (Extended K)}

/-- **Which constraints are refused to be scaled.**  Over one store whose variables have room between
their bounds, a constraint is refused for its terms exactly if the constant is at or beyond the infinity
of the store, or some term counts as infinite: one that is unbounded, unless that is to be ignored and
its coefficient alone is below the infinity, and one that is not, but takes a value, times its
coefficient, at or beyond the infinity.  If the infinity is infinite, a constraint is refused exactly if
some term is unbounded and that is not to be ignored. -/
theorem unscalable_iff (hc : c.IsFinite) (hinf : 0 < env.infinity n)
    (hstore : ∀ v ∈ c.expression.vars, v.store = n)
    (hroom : ∀ v ∈ c.expression.vars, env.Consistent v) (t : Thresholds (Extended K)) :
    let inf := c.expression.infinity env
    let refused := ∃ d, (c.rescale env t).outcome = .error (.unboundedTerms d)
    (refused ↔ inf ≤ finite |c.expression.constant.toNumber| ∨
      ∃ u ∈ c.expression.terms, Term.Exceeds env inf t.ignoreInfinite u) ∧
    (env.infinity n = Scalar.infinity →
      (refused ↔ t.ignoreInfinite = false ∧ ∃ u ∈ c.expression.terms, u.1.Unbounded env)) := by
  intro inf refused
  have hpos : 0 < inf := Expression.infinity_pos hinf hstore
  have hd : inf.IsDefined := (IsDefined.of_le (Extended.le_of_lt hpos)).2
  have hcompares : ∀ v ∈ c.expression.vars, env.Compares v := fun v hv =>
    Environment.compares_of_le (hroom v hv).ordered
  have hrefused : refused ↔ inf ≤ finite |c.expression.constant.toNumber| ∨
      ∃ u ∈ c.expression.terms, Term.Exceeds env inf t.ignoreInfinite u := by
    rw [← Expression.exists_exceeds_iff hc hd hstore hroom, ← Expression.exists_le_amplitudes_iff hc hpos,
      ← Expression.le_amplitudeRange_iff hc hcompares hpos]
    simp only [refused, refused_for_terms_iff, exists_eq_left]
  refine ⟨hrefused, fun hinfinite => ?_⟩
  have heq : inf = infinite false := Expression.infinity_eq_infinity fun v hv => by
    rw [hstore v hv, hinfinite]
  rw [hrefused, heq]
  simp only [infinite_le_finite, Bool.false_eq_true, false_or]
  constructor
  · rintro ⟨u, hu, h⟩
    obtain ⟨hignore, hunbounded⟩ := (Term.exceeds_infinity_iff (c := u.2) _).1 h
    exact ⟨hignore, u, hu, hunbounded⟩
  · rintro ⟨hignore, u, hu, hunbounded⟩
    exact ⟨u, hu, (Term.exceeds_infinity_iff (c := u.2) _).2 ⟨hignore, hunbounded⟩⟩

/-- `20 x ≤ 5` for `x` from 0 to 10, over a store whose infinity is 100: `x` has both bounds, and scaling
is refused since `20 x` comes to 200. -/
theorem unscalable_iff_of_large_amplitude :
    letI := Rounding.rational.roots
    let x : Variable := ⟨0, 0⟩
    let env : Environment (Extended ℚ) := .alike .continuous (finite 0) (finite 10) (finite 100)
    let c : Constraint (Extended ℚ) := ⟨.atMost, .affine (finite (-5)) (finite 20) x, none⟩
    ∀ t : Thresholds (Extended ℚ), ∃ d, (c.rescale env t).outcome = .error (.unboundedTerms d) := by
  let roots := Rounding.rational.roots
  intro x env c t
  have hc : c.IsFinite := Expression.isFinite_affine _ _ _
  have hvars : ∀ v ∈ c.expression.vars, v = x := fun v hv => (Expression.mem_vars_affine _ _ _ v).1 hv
  have hconsistent : env.Consistent x := by decide +kernel
  have hstore : ∀ v ∈ c.expression.vars, v.store = 0 := fun v hv => by rw [hvars v hv]
  have hroom : ∀ v ∈ c.expression.vars, env.Consistent v := fun v hv => by rwa [hvars v hv]
  have hinf : c.expression.infinity env = finite 100 := Expression.infinity_eq hstore (by decide +kernel)
  have hbounded : ¬ (Term.variable x).Unbounded env := by
    rw [Term.unbounded_variable_iff hconsistent]
    decide +kernel
  obtain ⟨hrefused, -⟩ := unscalable_iff hc (n := 0) (by decide +kernel) hstore hroom t
  refine hrefused.2 (Or.inr ⟨(.variable x, finite 20), List.mem_singleton.2 rfl,
    Or.inr ⟨hbounded, ?_⟩⟩)
  rw [hinf]
  refine ⟨fun _ => 10, fun v hv => ?_, by decide +kernel⟩
  obtain rfl := List.mem_singleton.1 hv
  decide +kernel

/-- **A constraint may be refused though every term has bounds**, be infinite bounds ignored or not. -/
theorem refused_though_bounded :
    letI := Rounding.rational.roots
    ¬ ∀ (env : Environment (Extended ℚ)) (n : Nat) (c : Constraint (Extended ℚ))
        (t : Thresholds (Extended ℚ)), c.IsFinite → 0 < env.infinity n →
        (∀ v ∈ c.expression.vars, v.store = n) → (∀ v ∈ c.expression.vars, env.Consistent v) →
        let refused := ∃ d, (c.rescale env t).outcome = .error (.unboundedTerms d)
        (t.ignoreInfinite = false → (refused ↔ ∃ u ∈ c.expression.terms, u.1.Unbounded env)) ∧
          (t.ignoreInfinite = true → ¬ refused) := by
  let roots := Rounding.rational.roots
  intro hclaim
  let x : Variable := ⟨0, 0⟩
  let env : Environment (Extended ℚ) := .alike .continuous (finite 0) (finite 10) (finite 100)
  let c : Constraint (Extended ℚ) := ⟨.atMost, .affine (finite (-5)) (finite 20) x, none⟩
  let t : Thresholds (Extended ℚ) := ⟨finite 1, finite 1, false, finite 1000⟩
  have hvars : ∀ v ∈ c.expression.vars, v = x := fun v hv => (Expression.mem_vars_affine _ _ _ v).1 hv
  have hconsistent : env.Consistent x := by decide +kernel
  obtain ⟨hunbounded, -⟩ := hclaim env 0 c t (Expression.isFinite_affine _ _ _) (by decide +kernel)
    (fun v hv => by rw [hvars v hv]) (fun v hv => by rwa [hvars v hv])
  have hrefused : ∃ d, (c.rescale env t).outcome = .error (.unboundedTerms d) :=
    ⟨c, (refused_for_terms_iff env t c c).2 ⟨rfl, by decide +kernel⟩⟩
  obtain ⟨u, hu, h⟩ := (hunbounded rfl).1 hrefused
  obtain rfl : u = (.variable x, finite 20) := List.mem_singleton.1 hu
  rw [Term.unbounded_variable_iff hconsistent] at h
  exact absurd h (by decide +kernel)

end Constraint

end MixedInteger
