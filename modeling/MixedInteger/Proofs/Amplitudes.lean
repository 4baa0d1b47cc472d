/-
**Amplitudes are greatest absolute values.**

The amplitude of a term is computed from the ends of its range.  It is the greatest absolute value that
the term takes between the bounds of its variables, and infinite if there are values beyond any limit;
where infinite bounds are to be ignored, the coefficient alone stands in for that.  The smallest and the
greatest of the amplitudes that are not zero make the range of an expression, over stores whose infinity
is infinite.  A factor multiplies them all by its absolute value.

Whether there are values beyond any limit is asked of the variable, or of the product of two, without its
coefficient.  For a coefficient of zero that makes a difference: zero times a free variable counts as
infinite.  Operators leave no such coefficients behind, but an expression may be given with them.

Main definitions:

* `MixedInteger.Term.sizes` — the absolute values of a multiple of a term;
* `MixedInteger.Term.HasAmplitude`, `MixedInteger.Term.Idle` — its amplitude, and where it has none to
  speak of;
* `MixedInteger.Expression.counted` — the amplitudes that count in a range.

Main results:

* `MixedInteger.Term.hasAmplitude_amplitude` — what is computed is the amplitude;
* `MixedInteger.Expression.counted_eq_empty_iff` — when no amplitude counts;
* `MixedInteger.Expression.amplitudeRange_scale` — a factor multiplies the range;
* `MixedInteger.Expression.amplitudeRange_measures_terms` — **the range of an expression**;
* `MixedInteger.Expression.zero_times_free_variable` — a term that is zero everywhere may count.
-/

import MixedInteger.Proofs.Centring
import MixedInteger.Proofs.Reach

set_option autoImplicit false

namespace MixedInteger

open Extended

variable {K : Type} [Field K] [LinearOrder K] [FloorRing K]

/-! ### Amplitudes of terms -/

namespace Term

/-- The absolute values of a multiple of a term between the bounds of its variables. -/
def sizes (env : Environment (Extended K)) (t : Term × Extended K) : Set K :=
  {x | ∃ s : Assignment K, (∀ v ∈ t.1.vars, env.Within s v) ∧ |t.2.toNumber * t.1.weight s| = x}

/-- The amplitude of a multiple of a term is its greatest absolute value.  If the term takes values
beyond any limit, the amplitude is infinite, or the absolute value of the coefficient where that is to be
ignored. -/
inductive HasAmplitude (env : Environment (Extended K)) (ignoreInfinite : Bool)
    (t : Term × Extended K) : Extended K → Prop where
  | bounded {x : K} (hbounded : ¬ t.1.Unbounded env) (hx : IsGreatest (sizes env t) x) :
      HasAmplitude env ignoreInfinite t (finite x)
  | unbounded (hunbounded : t.1.Unbounded env) :
      HasAmplitude env ignoreInfinite t
        (if ignoreInfinite then finite |t.2.toNumber| else infinite false)

/-- A multiple of a term is zero everywhere between the bounds of its variables, and does not count as
infinite. -/
structure Idle (env : Environment (Extended K)) (ignoreInfinite : Bool) (t : Term × Extended K) :
    Prop where
  zero : ∀ s : Assignment K, (∀ v ∈ t.1.vars, env.Within s v) → t.2.toNumber * t.1.weight s = 0
  ignored : t.1.Unbounded env → ignoreInfinite = true

variable [IsStrictOrderedRing K] {env : Environment (Extended K)} {inf : Extended K}
  {ignoreInfinite : Bool} {t : Term × Extended K}

/-- Where its coefficient is not zero, a term is unbounded exactly if its multiple is. -/
theorem unbounded_iff_not_bddAbove (hne : t.2.toNumber ≠ 0) :
    t.1.Unbounded env ↔ ¬ BddAbove (sizes env t) := by
  have hpos : 0 < |t.2.toNumber| := abs_pos.2 hne
  constructor
  · rintro hunbounded ⟨b, hb⟩
    obtain ⟨s, hs, hlt⟩ := hunbounded (b / |t.2.toNumber|)
    have hle : |t.2.toNumber * t.1.weight s| ≤ b := hb ⟨s, hs, rfl⟩
    rw [div_lt_iff₀ hpos, mul_comm, ← abs_mul] at hlt
    exact hle.not_gt hlt
  · intro hnot limit
    by_contra hlimit
    push Not at hlimit
    refine hnot ⟨|t.2.toNumber| * limit, ?_⟩
    rintro x ⟨s, hs, rfl⟩
    rw [abs_mul]
    exact mul_le_mul_of_nonneg_left (hlimit s hs) (abs_nonneg _)

/-- **What is computed is the amplitude.** -/
theorem hasAmplitude_amplitude (ht : t.1.Measured env inf) (hc : t.2.IsFinite)
    (ignoreInfinite : Bool) :
    HasAmplitude env ignoreInfinite t
      (Expression.amplitude ignoreInfinite t.2 (t.1.reach env inf)) := by
  have hmagnitude : Scalar.magnitude t.2 = finite |t.2.toNumber| := by
    rw [← magnitude_finite, ← hc.eq_finite]
  unfold Expression.amplitude
  rw [hmagnitude]
  rcases reach_cases ht with ⟨hreach, hunbounded⟩ | ⟨y, hreach, ⟨s, hs, hy⟩, hle⟩
  · have hinfinite : Scalar.isInfinite (infinite false : Extended K) = true := rfl
    rw [hreach, if_pos hinfinite]
    exact .unbounded hunbounded
  · rw [hreach, if_neg (by simp), finite_mul]
    refine .bounded (not_unbounded_of_le hle) ⟨⟨s, hs, by rw [abs_mul, hy]⟩, ?_⟩
    rintro x ⟨s', hs', rfl⟩
    rw [abs_mul]
    exact mul_le_mul_of_nonneg_left (hle s' hs') (abs_nonneg _)

omit [IsStrictOrderedRing K] in
/-- There is one amplitude at most. -/
theorem HasAmplitude.unique {a b : Extended K} (ha : HasAmplitude env ignoreInfinite t a)
    (hb : HasAmplitude env ignoreInfinite t b) : a = b := by
  cases ha with
  | bounded hbounded hx =>
      cases hb with
      | bounded _ hy => rw [hx.unique hy]
      | unbounded hunbounded => exact absurd hunbounded hbounded
  | unbounded hunbounded =>
      cases hb with
      | bounded hbounded _ => exact absurd hunbounded hbounded
      | unbounded _ => rfl

/-- The amplitude is zero exactly where the multiple is zero everywhere and does not count as
infinite. -/
theorem HasAmplitude.eq_zero_iff {a : Extended K} (ha : HasAmplitude env ignoreInfinite t a) :
    a = 0 ↔ Idle env ignoreInfinite t := by
  cases ha with
  | bounded hbounded hx =>
      rw [zero_eq, finite.injEq]
      constructor
      · rintro rfl
        refine ⟨fun s hs => ?_, fun hunbounded => absurd hunbounded hbounded⟩
        exact abs_nonpos_iff.1 (hx.2 ⟨s, hs, rfl⟩)
      · intro hidle
        obtain ⟨s, hs, rfl⟩ := hx.1
        rw [hidle.zero s hs, abs_zero]
  | unbounded hunbounded =>
      -- an unbounded term takes some value other than zero, so its coefficient would have to be zero
      have hcoefficient : (∀ s : Assignment K, (∀ v ∈ t.1.vars, env.Within s v) →
          t.2.toNumber * t.1.weight s = 0) ↔ t.2.toNumber = 0 := by
        refine ⟨fun hzero => ?_, fun hzero s _ => by rw [hzero, zero_mul]⟩
        obtain ⟨s, hs, hlt⟩ := hunbounded 0
        exact (mul_eq_zero.1 (hzero s hs)).resolve_right (abs_pos.1 hlt)
      cases ignoreInfinite with
      | false => exact iff_of_false nofun fun hidle => Bool.false_ne_true (hidle.ignored hunbounded)
      | true =>
          rw [if_pos rfl, zero_eq, finite.injEq, abs_eq_zero, ← hcoefficient]
          exact ⟨fun hzero => ⟨hzero, fun _ => rfl⟩, fun hidle => hidle.zero⟩

end Term

/-! ### Ranges of expressions -/

namespace Expression

/-- The amplitudes that count in the range of an expression: those of the constant and of the terms that
are not zero. -/
def counted (env : Environment (Extended K)) (ignoreInfinite : Bool) (e : Expression (Extended K)) :
    Set (Extended K) :=
  {a | a ≠ 0 ∧ (a = finite |e.constant.toNumber| ∨
    ∃ t ∈ e.terms, Term.HasAmplitude env ignoreInfinite t a)}

variable [IsStrictOrderedRing K] {env : Environment (Extended K)} {inf : Extended K}
  {e : Expression (Extended K)} {ignoreInfinite : Bool}

/-- Over stores of one infinity, the terms of an expression have the amplitudes that are computed. -/
theorem hasAmplitude_of_mem_terms (he : e.IsFinite) (hinf : ∀ v ∈ e.vars, env.infinity v.store = inf)
    (hroom : ∀ v ∈ e.vars, env.Consistent v) (ignoreInfinite : Bool) {t : Term × Extended K}
    (ht : t ∈ e.terms) :
    Term.HasAmplitude env ignoreInfinite t (amplitude ignoreInfinite t.2 (t.1.reach env inf)) := by
  have hmeasured : t.1.Measured env inf := fun v hv =>
    ⟨(forall_mem_vars_iff e _).1 hinf t ht v hv, (forall_mem_vars_iff e _).1 hroom t ht v hv⟩
  exact Term.hasAmplitude_amplitude hmeasured (he.of_mem_terms t ht) ignoreInfinite

/-- The amplitudes that are computed are those that count. -/
theorem mem_amplitudes_iff_mem_counted (he : e.IsFinite)
    (hinf : ∀ v ∈ e.vars, env.infinity v.store = inf) (hroom : ∀ v ∈ e.vars, env.Consistent v)
    (ignoreInfinite : Bool) (a : Extended K) :
    a ∈ e.amplitudes env inf ignoreInfinite ↔ a ∈ e.counted env ignoreInfinite := by
  have hzero : (a == 0) = false ↔ a ≠ 0 := by
    rw [← Bool.not_eq_true]
    refine not_congr ⟨eq_zero_of_beq, ?_⟩
    rintro rfl
    exact decide_eq_true rfl
  rw [mem_amplitudes_iff he, hzero]
  refine and_congr_right fun _ => or_congr_right (exists_congr fun t => and_congr_right fun ht => ?_)
  have hamplitude := hasAmplitude_of_mem_terms he hinf hroom ignoreInfinite ht
  constructor
  · rintro rfl
    exact hamplitude
  · exact fun ha => ha.unique hamplitude

/-- **No amplitude counts** exactly if the constant is zero and every term is idle. -/
theorem counted_eq_empty_iff (he : e.IsFinite) (hinf : ∀ v ∈ e.vars, env.infinity v.store = inf)
    (hroom : ∀ v ∈ e.vars, env.Consistent v) (ignoreInfinite : Bool) :
    e.counted env ignoreInfinite = ∅ ↔
      e.constant.toNumber = 0 ∧ ∀ t ∈ e.terms, Term.Idle env ignoreInfinite t := by
  rw [Set.eq_empty_iff_forall_notMem]
  constructor
  · intro hnone
    constructor
    · by_contra hne
      refine hnone (finite |e.constant.toNumber|) ⟨fun h => hne ?_, Or.inl rfl⟩
      rw [zero_eq, finite.injEq] at h
      exact abs_eq_zero.1 h
    · intro t ht
      have hamplitude := hasAmplitude_of_mem_terms he hinf hroom ignoreInfinite ht
      rw [← hamplitude.eq_zero_iff]
      by_contra hne
      exact hnone _ ⟨hne, Or.inr ⟨t, ht, hamplitude⟩⟩
  · rintro ⟨hconstant, hidle⟩ a ⟨hne, rfl | ⟨t, ht, hamplitude⟩⟩
    · rw [hconstant, abs_zero] at hne
      exact hne rfl
    · exact hne (hamplitude.eq_zero_iff.2 (hidle t ht))

/-! ### Stores whose infinity is infinite -/

omit [IsStrictOrderedRing K] in
/-- Where the infinity is infinite, the range is that of the amplitudes as they are. -/
theorem amplitudeRange_eq (hpos : ∀ a ∈ e.amplitudes env (e.infinity env) ignoreInfinite, 0 < a)
    (hinf : e.infinity env = infinite false) :
    e.amplitudeRange env ignoreInfinite =
      match e.amplitudes env (e.infinity env) ignoreInfinite with
      | [] => (0, 0)
      | a :: rest => (Scalar.least a rest, Scalar.greatest a rest) := by
  have htold : ∀ a : Extended K, 0 < a → (if Scalar.isInfinite a then e.infinity env else a) = a := by
    intro a ha
    split
    · next hinfinite =>
        cases a with
        | finite x => cases hinfinite
        | undefined => cases hinfinite
        | infinite m =>
            obtain rfl : m = false := ha
            exact hinf
    · rfl
  unfold amplitudeRange
  dsimp only
  cases hlist : e.amplitudes env (e.infinity env) ignoreInfinite with
  | nil => rfl
  | cons a rest =>
      rw [hlist] at hpos
      simp only [htold _ (hpos _ (least_mem a rest)), htold _ (hpos _ (greatest_mem a rest))]

/-- **A factor multiplies the range** by its absolute value. -/
theorem amplitudeRange_scale (he : e.IsFinite) (hv : ∀ v ∈ e.vars, env.Compares v)
    (hinf : e.infinity env = infinite false) (ignoreInfinite : Bool) {k : K} (hk : k ≠ 0) :
    (e.scale (finite k)).amplitudeRange env ignoreInfinite =
      ((e.amplitudeRange env ignoreInfinite).1 * finite |k|,
        (e.amplitudeRange env ignoreInfinite).2 * finite |k|) := by
  have hpos : ∀ a ∈ e.amplitudes env (e.infinity env) ignoreInfinite, 0 < a :=
    fun a ha => zero_lt_of_mem_amplitudes he hv ha
  have hk' : 0 < |k| := abs_pos.2 hk
  have hinfinity : (e.map (· * finite k)).infinity env = e.infinity env := infinity_map _ e
  have hmap : (e.map (· * finite k)).amplitudes env ((e.map (· * finite k)).infinity env)
      ignoreInfinite =
        (e.amplitudes env (e.infinity env) ignoreInfinite).map (· * finite |k|) := by
    rw [hinfinity, amplitudes_map he _ hk]
  have hpos' : ∀ a ∈ (e.map (· * finite k)).amplitudes env ((e.map (· * finite k)).infinity env)
      ignoreInfinite, 0 < a := by
    rw [hmap]
    intro a ha
    obtain ⟨b, hb, rfl⟩ := List.mem_map.1 ha
    exact (zero_lt_mul_finite_iff b hk').2 (hpos b hb)
  rw [scale_of_ne_zero e hk, amplitudeRange_eq hpos' (hinfinity.trans hinf), amplitudeRange_eq hpos hinf,
    hmap]
  cases e.amplitudes env (e.infinity env) ignoreInfinite with
  | nil => simp [zero_eq]
  | cons a rest =>
      simp only [List.map_cons, least_mul_finite a rest hk', greatest_mul_finite a rest hk']

/-- **The range of an expression measures its terms.**  Over stores whose infinity is infinite, where the
variables have room between their bounds, every term has one amplitude: its greatest absolute value if the
term is bounded, and what stands for infinite if not.  Unless its coefficient is zero, a term is
bounded exactly if its multiple is.  If the constant is zero and all terms are idle, the range is a pair
of zeros; if not, it consists of the least and the greatest of the amplitudes of the constant and the
terms that are not zero.  A factor other than zero multiplies it by its absolute value. -/
theorem amplitudeRange_measures_terms (he : e.IsFinite) (hroom : ∀ v ∈ e.vars, env.Consistent v)
    (hinf : ∀ v ∈ e.vars, env.infinity v.store = Scalar.infinity) (ignoreInfinite : Bool) :
    let range := e.amplitudeRange env ignoreInfinite
    let idle := e.constant.toNumber = 0 ∧ ∀ t ∈ e.terms, Term.Idle env ignoreInfinite t
    (∀ t ∈ e.terms, (∃! a, Term.HasAmplitude env ignoreInfinite t a) ∧
      (t.2.toNumber ≠ 0 → (t.1.Unbounded env ↔ ¬ BddAbove (Term.sizes env t)))) ∧
    (idle → range = (0, 0)) ∧
    (¬ idle → IsLeast (e.counted env ignoreInfinite) range.1 ∧
      IsGreatest (e.counted env ignoreInfinite) range.2) ∧
    ∀ k : K, k ≠ 0 → (e.scale (finite k)).amplitudeRange env ignoreInfinite =
      (range.1 * finite |k|, range.2 * finite |k|) := by
  intro range idle
  have hinfinite : e.infinity env = infinite false := infinity_eq_infinity hinf
  have hcompares : ∀ v ∈ e.vars, env.Compares v := fun v hv =>
    Environment.compares_of_le (hroom v hv).ordered
  have hpos : ∀ a ∈ e.amplitudes env (e.infinity env) ignoreInfinite, 0 < a :=
    fun a ha => zero_lt_of_mem_amplitudes he hcompares ha
  have hinf' : ∀ v ∈ e.vars, env.infinity v.store = e.infinity env := fun v hv =>
    (hinf v hv).trans hinfinite.symm
  have hmem := mem_amplitudes_iff_mem_counted he hinf' hroom ignoreInfinite
  have hempty : e.amplitudes env (e.infinity env) ignoreInfinite = [] ↔ idle := by
    refine Iff.trans ?_ (counted_eq_empty_iff he hinf' hroom ignoreInfinite)
    rw [List.eq_nil_iff_forall_not_mem, Set.eq_empty_iff_forall_notMem]
    exact forall_congr' fun a => not_congr (hmem a)
  have hrange : range = _ := amplitudeRange_eq hpos hinfinite
  refine ⟨fun t ht => ⟨?_, Term.unbounded_iff_not_bddAbove⟩, fun h => ?_, fun h => ?_,
    fun k hk => amplitudeRange_scale he hcompares hinfinite ignoreInfinite hk⟩
  · have hamplitude := hasAmplitude_of_mem_terms he hinf' hroom ignoreInfinite ht
    exact ⟨_, hamplitude, fun b hb => hb.unique hamplitude⟩
  · rw [hrange, hempty.2 h]
  · cases hlist : e.amplitudes env (e.infinity env) ignoreInfinite with
    | nil => exact absurd (hempty.1 hlist) h
    | cons a rest =>
        rw [hlist] at hpos hmem hrange
        have hdefined : ∀ b ∈ a :: rest, b.IsDefined := fun b hb =>
          (IsDefined.of_le (Extended.le_of_lt (hpos b hb))).2
        rw [hrange]
        exact ⟨⟨(hmem _).1 (least_mem a rest), fun b hb => least_le hdefined ((hmem b).2 hb)⟩,
          (hmem _).1 (greatest_mem a rest), fun b hb => le_greatest hdefined ((hmem b).2 hb)⟩

/-- `x * x - 2 * (x * y) + z + 4` for `x` from -3 to 2, `y` from 0 to 5 and a free `z`: the amplitudes are 9,
30, infinity and 4.  Where infinite bounds are ignored, `z` counts as its coefficient 1. -/
theorem amplitudeRange_measures_terms_of_products :
    let x : Variable := ⟨0, 0⟩
    let y : Variable := ⟨0, 1⟩
    let z : Variable := ⟨0, 2⟩
    let env : Environment (Extended ℚ) :=
      { attributes := fun v =>
          if v = x then ⟨.continuous, finite (-3), finite 2, none⟩
          else if v = y then ⟨.continuous, finite 0, finite 5, none⟩
          else ⟨.continuous, infinite true, infinite false, none⟩
        infinity := fun _ => infinite false }
    let e : Expression (Extended ℚ) :=
      ⟨finite 4, .single z (finite 1), .ofList [(.of x x, finite 1), (.of x y, finite (-2))]⟩
    IsLeast (e.counted env false) (finite 4) ∧ IsGreatest (e.counted env false) (infinite false) ∧
      IsLeast (e.counted env true) (finite 1) ∧ IsGreatest (e.counted env true) (finite 30) ∧
      (e.scale (finite (-1 / 2))).amplitudeRange env true = (finite (1 / 2), finite 15) := by
  intro x y z env e
  have he : e.IsFinite := by
    refine ⟨trivial, fun t ht => ?_, fun t ht => ?_⟩
    · obtain rfl := List.mem_singleton.1 ht
      trivial
    · have hentries : e.quadratic.entries = [(.of x x, finite 1), (.of x y, finite (-2))] := by
        decide +kernel
      rw [hentries] at ht
      simp only [List.mem_cons, List.not_mem_nil, or_false] at ht
      rcases ht with rfl | rfl <;> trivial
  have hroom : ∀ v ∈ e.vars, env.Consistent v := (forall_mem_vars_iff e _).2 (by decide +kernel)
  have hconstant : e.constant.toNumber ≠ 0 := by decide +kernel
  obtain ⟨-, -, hcounted, -⟩ := amplitudeRange_measures_terms he hroom (fun v _ => rfl) false
  obtain ⟨-, -, hcounted', hscale⟩ := amplitudeRange_measures_terms he hroom (fun v _ => rfl) true
  obtain ⟨hleast, hgreatest⟩ := hcounted fun h => hconstant h.1
  obtain ⟨hleast', hgreatest'⟩ := hcounted' fun h => hconstant h.1
  have hrange : e.amplitudeRange env false = (finite 4, infinite false) := by decide +kernel
  have hrange' : e.amplitudeRange env true = (finite 1, finite 30) := by decide +kernel
  have hhalf := hscale (-1 / 2) (by decide +kernel)
  have hproducts : ((finite 1 : Extended ℚ) * finite |(-1 / 2)|,
      (finite 30 : Extended ℚ) * finite |(-1 / 2)|) = (finite (1 / 2), finite 15) := by
    decide +kernel
  rw [hrange] at hleast hgreatest
  rw [hrange'] at hleast' hgreatest' hhalf
  exact ⟨hleast, hgreatest, hleast', hgreatest', hhalf.trans hproducts⟩

/-- **A term that is zero everywhere may count**: zero times a free variable has an infinite amplitude. -/
theorem zero_times_free_variable :
    ¬ ∀ (env : Environment (Extended ℚ)) (e : Expression (Extended ℚ)) (ignoreInfinite : Bool),
        e.IsFinite → (∀ v ∈ e.vars, env.Consistent v) →
        (∀ v ∈ e.vars, env.infinity v.store = Scalar.infinity) →
        e.constant.toNumber = 0 →
        (∀ t ∈ e.terms, ∀ s : Assignment ℚ, (∀ v ∈ t.1.vars, env.Within s v) →
          t.2.toNumber * t.1.weight s = 0) →
        e.amplitudeRange env ignoreInfinite = (0, 0) := by
  intro hclaim
  let x : Variable := ⟨0, 0⟩
  let env : Environment (Extended ℚ) :=
    .alike .continuous (infinite true) (infinite false) (infinite false)
  let e : Expression (Extended ℚ) := .affine (finite 0) (finite 0) x
  have hvars : ∀ v ∈ e.vars, v = x := fun v hv => (mem_vars_affine _ _ _ v).1 hv
  have hconsistent : env.Consistent x := by decide +kernel
  have hzero : e.amplitudeRange env false = (0, 0) := by
    refine hclaim env e false (isFinite_affine _ _ _) (fun v hv => by rwa [hvars v hv])
      (fun v _ => rfl) rfl fun t ht s _ => ?_
    obtain rfl : t = (.variable x, finite 0) := List.mem_singleton.1 ht
    exact zero_mul _
  have hrange : e.amplitudeRange env false = (infinite false, infinite false) := by decide +kernel
  rw [hrange] at hzero
  cases hzero

end Expression

end MixedInteger
