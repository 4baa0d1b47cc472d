/-
**Bounds of a difference.**

Where the bounds of the variables compare with other numbers, so does a lower bound, and it is that of
the linear terms followed by that of the products.  The linear terms never share a variable, so their
part of it is exact where their variables have room between their bounds.  If what is taken away from an
expression is linear and not negative, the linear part of the difference is therefore least no later
than that of the expression, and the products are the same, apart from some whose coefficient is zero.

Main definitions:

* `MixedInteger.Environment.Compares` — both bounds of a variable compare with other numbers;
* `MixedInteger.Term.NoLess` — the least value of a term does not fall from one environment to another;
* `MixedInteger.Expression.linearPart` — an expression without its products;
* `MixedInteger.Expression.KeepsProducts` — the products are kept, up to coefficients that are zero.

Main results:

* `MixedInteger.Environment.consistent_of_bound` — a bound that is not infinite leaves room;
* `MixedInteger.Expression.lower_cases` — a lower bound is a number or minus the infinity;
* `MixedInteger.Term.foldlM_addLower_filter` — what is multiplied by zero may be dropped;
* `MixedInteger.Expression.lower_pos_of_lower_pos` — **taking away what is not negative** makes no lower
  bound positive.
-/

import MixedInteger.Proofs.Exactness
import MixedInteger.Proofs.Uniqueness

set_option autoImplicit false

namespace MixedInteger

open Extended

variable {K : Type} [Field K] [LinearOrder K] [FloorRing K]

/-! ### Bounds that are in order -/

namespace Extended

protected theorem lt_of_le_of_lt {a b c : Extended K} (h : a ≤ b) (h' : b < c) : a < c := by
  cases a <;> cases b <;> cases c <;> simp_all
  next x y z => exact h.trans_lt h'

/-- What is positive has a negative opposite. -/
theorem neg_lt_zero_iff [IsStrictOrderedRing K] (a : Extended K) : -a < 0 ↔ 0 < a := by
  cases a <;> simp [zero_eq]

/-- What is negative has a positive opposite. -/
theorem zero_lt_neg_iff [IsStrictOrderedRing K] (a : Extended K) : 0 < -a ↔ a < 0 := by
  cases a <;> simp [zero_eq]

theorem IsDefined.extend {inf bound : Extended K} (h : bound.IsDefined) :
    (Expression.extend inf bound).IsDefined := by
  unfold Expression.extend
  split
  · exact nofun
  · split
    · exact nofun
    · exact h

/-- A value that compares and is not infinite is a number. -/
theorem IsDefined.isFinite {a : Extended K} (h : a.IsDefined)
    (hi : Scalar.isInfinite a = false) : a.IsFinite := by
  cases a with
  | finite x => trivial
  | infinite n => cases hi
  | undefined => exact (h rfl).elim

end Extended

/-- Both bounds of a variable compare with other numbers; they need not be in order. -/
def Environment.Compares (env : Environment (Extended K)) (v : Variable) : Prop :=
  (env.lower v).IsDefined ∧ (env.upper v).IsDefined

/-- Bounds that are in order compare. -/
theorem Environment.compares_of_le {env : Environment (Extended K)} {v : Variable}
    (h : env.lower v ≤ env.upper v) : env.Compares v := IsDefined.of_le h

/-- Where bounds are in order and one of them restricts the variable, they leave room. -/
theorem Environment.consistent_of_bound {env : Environment (Extended K)} {v : Variable}
    (hinf : 0 < env.infinity v.store) (h : env.lower v ≤ env.upper v)
    (hb : Scalar.isInfinite (env.trueLower v) = false ∨
      Scalar.isInfinite (env.trueUpper v) = false) : env.Consistent v := by
  obtain ⟨hl, hu⟩ := IsDefined.of_le h
  have hi : (env.infinity v.store).IsDefined := (IsDefined.of_le (Extended.le_of_lt hinf)).2
  have hrestricts : ∀ {b : Extended K}, b.IsDefined →
      Scalar.isInfinite (Expression.extend (env.infinity v.store) b) = false →
      b < env.infinity v.store ∧ -env.infinity v.store < b := by
    intro b hb hfinite
    unfold Expression.extend at hfinite
    split at hfinite
    · cases hfinite
    · next hle =>
        split at hfinite
        · cases hfinite
        · next hge => exact ⟨lt_of_not_le hb hi hle, lt_of_not_le hi.neg hb hge⟩
  rcases hb with hb | hb
  · obtain ⟨hlt, hgt⟩ := hrestricts hl hb
    exact ⟨h, hlt, Extended.lt_of_lt_of_le hgt h⟩
  · obtain ⟨hlt, hgt⟩ := hrestricts hu hb
    exact ⟨h, Extended.lt_of_le_of_lt h hlt, hgt⟩

namespace Term

variable {env : Environment (Extended K)} {n : Nat}

/-- The range of a term compares if the bounds of its variables do. -/
theorem isDefined_range {t : Term} (hstore : ∀ v ∈ t.vars, v.store = n)
    (h : ∀ v ∈ t.vars, env.Compares v) :
    (t.range env (env.infinity n)).1.IsDefined ∧ (t.range env (env.infinity n)).2.IsDefined := by
  have hbounds : ∀ v ∈ t.vars, (env.trueLower v).IsDefined ∧ (env.trueUpper v).IsDefined :=
    fun v hv => ⟨(h v hv).1.extend, (h v hv).2.extend⟩
  cases t with
  | «variable» v =>
      obtain rfl := hstore v List.mem_cons_self
      exact hbounds v List.mem_cons_self
  | pair p =>
      have hf : p.first ∈ (pair p).vars := by simp [vars, VariablePair.toList]
      have hs : p.second ∈ (pair p).vars := by simp [vars, VariablePair.toList]
      have hcorners : ∀ c ∈ Expression.corner env p :: Expression.otherCorners env p,
          c.IsDefined := by
        simp [Expression.corner, Expression.otherCorners, Expression.isDefined_times, hbounds _ hf,
          hbounds _ hs]
      rw [range, Expression.pairRange_eq (congrArg env.infinity (hstore _ hf))
        (congrArg env.infinity (hstore _ hs))]
      refine ⟨?_, hcorners _ (greatest_mem _ _)⟩
      dsimp only
      split
      · exact isFinite_zero.isDefined
      · exact hcorners _ (least_mem _ _)

/-- The end of a range that is least compares, too. -/
theorem isDefined_bound {t : Term} (hstore : ∀ v ∈ t.vars, v.store = n)
    (h : ∀ v ∈ t.vars, env.Compares v) (c : Extended K) :
    (t.bound env (env.infinity n) c).IsDefined := by
  obtain ⟨hl, hu⟩ := isDefined_range hstore h
  rcases bound_eq env (env.infinity n) c t with hb | hb
  · exact hb ▸ hl
  · exact hb ▸ hu

/-- The least value of a multiple of a term is a number in the second environment, and at least the one
in the first, if it is a number in the first. -/
def NoLess (env env' : Environment (Extended K)) (inf : Extended K) (t : Term × Extended K) : Prop :=
  Scalar.isInfinite (t.1.bound env inf t.2) = false →
    ∃ x y, x ≤ y ∧ t.2 * t.1.bound env inf t.2 = finite x ∧
      Scalar.isInfinite (t.1.bound env' inf t.2) = false ∧ t.2 * t.1.bound env' inf t.2 = finite y

variable {env' : Environment (Extended K)} {inf : Extended K}

theorem noLess_refl {t : Term × Extended K} (hc : t.2.IsFinite)
    (hd : (t.1.bound env inf t.2).IsDefined) : NoLess env env inf t := by
  intro hi
  have hterm := (hc.mul (hd.isFinite hi)).eq_finite
  exact ⟨_, _, le_rfl, hterm, hi, hterm⟩

variable [IsStrictOrderedRing K]

/-- A larger total stays larger when the least value of a term is added. -/
theorem addLower_mono {t : Term × Extended K} (ht : NoLess env env' inf t) {a b u : Extended K}
    (ha : a.IsFinite) (hb : b.IsFinite) (hab : a.toNumber ≤ b.toNumber)
    (h : addLower env inf a t = some u) :
    u.IsFinite ∧ ∃ w, addLower env' inf b t = some w ∧ w.IsFinite ∧ u.toNumber ≤ w.toNumber := by
  unfold addLower at h ⊢
  split at h
  · cases h
  · next hi =>
      obtain ⟨x, y, hxy, hx, hi', hy⟩ := ht (Bool.eq_false_iff.2 hi)
      cases h
      rw [hx, hi', hy]
      refine ⟨ha.add (isFinite_finite x), _, rfl, hb.add (isFinite_finite y), ?_⟩
      rw [toNumber_add ha (isFinite_finite x), toNumber_add hb (isFinite_finite y)]
      exact add_le_add hab hxy

/-- So it does when those of many terms are added. -/
theorem foldlM_addLower_mono {ts : List (Term × Extended K)} (hts : ∀ t ∈ ts, NoLess env env' inf t)
    {a b u : Extended K} (ha : a.IsFinite) (hb : b.IsFinite) (hab : a.toNumber ≤ b.toNumber)
    (h : ts.foldlM (addLower env inf) a = some u) :
    u.IsFinite ∧ ∃ w, ts.foldlM (addLower env' inf) b = some w ∧ w.IsFinite ∧
      u.toNumber ≤ w.toNumber := by
  induction ts generalizing a b with
  | nil =>
      cases h
      exact ⟨ha, b, rfl, hb, hab⟩
  | cons t rest ih =>
      rw [List.foldlM_cons, Option.bind_eq_bind, Option.bind_eq_some_iff] at h
      obtain ⟨a', ha', h⟩ := h
      obtain ⟨fa, b', hb', fb, hle⟩ := addLower_mono (hts t List.mem_cons_self) ha hb hab ha'
      rw [List.foldlM_cons, hb', Option.bind_eq_bind, Option.bind_some]
      exact ih (fun u hu => hts u (List.mem_cons_of_mem _ hu)) fa fb hle h

omit [IsStrictOrderedRing K] in
/-- A term whose coefficient is zero adds nothing, if it has an upper end, -/
theorem addLower_of_eq_zero {t : Term × Extended K} (hc : t.2.IsFinite) (hzero : t.2.toNumber = 0)
    (hd : (t.1.bound env inf t.2).IsDefined) (hended : Scalar.isInfinite (t.1.range env inf).2 = false)
    {a : Extended K} (ha : a.IsFinite) : addLower env inf a t = some a := by
  rw [← bound_of_eq_zero hc hzero] at hended
  have hterm : t.2 * t.1.bound env inf t.2 = finite 0 := by
    rw [(hd.isFinite hended).eq_finite, hc.eq_finite, hzero, finite_mul, zero_mul]
  rw [addLower, if_neg (by rw [hended]; exact Bool.false_ne_true), hterm, ha.eq_finite, finite_add,
    add_zero]

/-- so it may be dropped. -/
theorem foldlM_addLower_filter {ts : List (Term × Extended K)} {keep : Term × Extended K → Bool}
    (hc : ∀ t ∈ ts, t.2.IsFinite) (hd : ∀ t ∈ ts, (t.1.bound env inf t.2).IsDefined)
    (hdropped : ∀ t ∈ ts, keep t = false →
      t.2.toNumber = 0 ∧ Scalar.isInfinite (t.1.range env inf).2 = false)
    {a : Extended K} (ha : a.IsFinite) :
    (ts.filter keep).foldlM (addLower env inf) a = ts.foldlM (addLower env inf) a := by
  induction ts generalizing a with
  | nil => rfl
  | cons t rest ih =>
      have hct := hc t List.mem_cons_self
      have hdt := hd t List.mem_cons_self
      have hrest : ∀ {b : Extended K}, b.IsFinite →
          (rest.filter keep).foldlM (addLower env inf) b = rest.foldlM (addLower env inf) b :=
        ih (fun u hu => hc u (List.mem_cons_of_mem _ hu)) (fun u hu => hd u (List.mem_cons_of_mem _ hu))
          fun u hu => hdropped u (List.mem_cons_of_mem _ hu)
      cases hk : keep t with
      | true =>
          rw [List.filter_cons_of_pos hk, List.foldlM_cons, List.foldlM_cons]
          cases hadd : addLower env inf a t with
          | none => rfl
          | some b => exact hrest (addLower_mono (noLess_refl hct hdt) ha ha le_rfl hadd).1
      | false =>
          obtain ⟨hzero, hended⟩ := hdropped t List.mem_cons_self hk
          rw [List.filter_cons_of_neg (by rw [hk]; exact Bool.false_ne_true), List.foldlM_cons,
            addLower_of_eq_zero hct hzero hdt hended ha]
          exact hrest ha

end Term

/-! ### Weighted sums -/

omit [LinearOrder K] [FloorRing K] in
/-- Entries whose coefficient is zero may be dropped from a weighted sum. -/
theorem Coefficients.sum_filter_of_zero {κ : Type} {es : List (κ × Extended K)}
    {keep : κ × Extended K → Bool} (weight : κ → K)
    (hzero : ∀ t ∈ es, keep t = false → t.2.toNumber = 0) :
    ((es.filter keep).map fun t => t.2.toNumber * weight t.1).sum =
      (es.map fun t => t.2.toNumber * weight t.1).sum := by
  induction es with
  | nil => rfl
  | cons t rest ih =>
      have hrest := ih fun u hu => hzero u (List.mem_cons_of_mem _ hu)
      cases hk : keep t with
      | true => simp only [List.filter_cons_of_pos hk, List.map_cons, List.sum_cons, hrest]
      | false =>
          rw [List.filter_cons_of_neg (by rw [hk]; exact Bool.false_ne_true), hrest, List.map_cons,
            List.sum_cons, hzero t List.mem_cons_self hk, zero_mul, zero_add]

/-! ### Lower bounds that compare -/

namespace Expression

variable {env : Environment (Extended K)} {n : Nat} {e : Expression (Extended K)}

/-- The terms of an expression may be added up one by one. -/
theorem addable_terms (he : e.IsFinite) (hstore : ∀ v ∈ e.vars, v.store = n)
    (hcompares : ∀ v ∈ e.vars, env.Compares v) :
    ∀ t ∈ e.terms, Term.NoLess env env (env.infinity n) t := fun t ht =>
  Term.noLess_refl (he.of_mem_terms t ht) (Term.isDefined_bound
    ((forall_mem_vars_iff e _).1 hstore t ht) ((forall_mem_vars_iff e _).1 hcompares t ht) t.2)

variable [IsStrictOrderedRing K]

/-- A sum of least values is a number. -/
theorem isFinite_lower? (he : e.IsFinite) (hstore : ∀ v ∈ e.vars, v.store = n)
    (hcompares : ∀ v ∈ e.vars, env.Compares v) {t : Extended K}
    (h : e.lower? env (env.infinity n) = some t) : t.IsFinite := by
  rw [lower?_eq_foldlM] at h
  exact (Term.foldlM_addLower_mono (addable_terms he hstore hcompares) he.constant he.constant le_rfl
    h).1

/-- A lower bound is a number, or minus the infinity. -/
theorem lower_cases (he : e.IsFinite) (hstore : ∀ v ∈ e.vars, v.store = n)
    (hcompares : ∀ v ∈ e.vars, env.Compares v) :
    (∃ t, e.lower? env (env.infinity n) = some t ∧ e.lower env = t ∧ t.IsFinite) ∨
      e.lower env = -env.infinity n := by
  rw [lower_eq_getD hstore]
  cases h : e.lower? env (env.infinity n) with
  | none => exact Or.inr rfl
  | some t => exact Or.inl ⟨t, rfl, rfl, isFinite_lower? he hstore hcompares h⟩

theorem isDefined_lower (he : e.IsFinite) (hinf : 0 < env.infinity n)
    (hstore : ∀ v ∈ e.vars, v.store = n)
    (hcompares : ∀ v ∈ e.vars, env.Compares v) : (e.lower env).IsDefined := by
  rcases lower_cases he hstore hcompares with ⟨t, -, hl, hf⟩ | hl
  · exact hl ▸ hf.isDefined
  · exact hl ▸ (IsDefined.of_le (Extended.le_of_lt hinf)).2.neg

theorem isDefined_upper (he : e.IsFinite) (hinf : 0 < env.infinity n)
    (hstore : ∀ v ∈ e.vars, v.store = n)
    (hcompares : ∀ v ∈ e.vars, env.Compares v) : (e.upper env).IsDefined := by
  rw [← vars_neg] at hstore hcompares
  exact (isDefined_lower he.neg hinf hstore hcompares).neg

/-! ### Linear parts -/

/-- An expression without its products. -/
def linearPart (e : Expression (Extended K)) : Expression (Extended K) :=
  { e with quadratic := .empty }

omit [Field K] [LinearOrder K] [FloorRing K] [IsStrictOrderedRing K] in
theorem mem_vars_linearPart (e : Expression (Extended K)) (v : Variable) :
    v ∈ e.linearPart.vars ↔ v ∈ e.linear.keys := by
  simp [mem_vars_iff, linearPart, Coefficients.empty, Coefficients.keys]

omit [LinearOrder K] [FloorRing K] [IsStrictOrderedRing K] in
theorem value_eq_linearPart (e : Expression (Extended K)) (s : Assignment K) :
    e.value s = e.linearPart.value s + e.quadratic.weigh (pairValue s) := by
  simp [value, linearPart]

omit [IsStrictOrderedRing K] in
/-- The lower bound is that of the linear part, and then that of the products. -/
theorem lower?_eq_bind (env : Environment (Extended K)) (inf : Extended K)
    (e : Expression (Extended K)) :
    e.lower? env inf = (e.linearPart.lower? env inf).bind fun u =>
      e.pairTerms.foldlM (Term.addLower env inf) u := by
  have hlinear : e.linearPart.lower? env inf =
      e.variableTerms.foldlM (Term.addLower env inf) e.constant := by
    simp [lower?_eq_foldlM, terms, variableTerms, pairTerms, linearPart, Coefficients.empty]
  rw [hlinear, lower?_eq_foldlM, terms, List.foldlM_append]
  rfl

omit [Field K] [LinearOrder K] [FloorRing K] [IsStrictOrderedRing K] in
/-- Linear terms never share a variable. -/
theorem separate_linearPart (e : Expression (Extended K)) : e.linearPart.Separate := by
  have hterms : e.linearPart.terms = e.linear.entries.map fun t => (.variable t.1, t.2) := by
    simp [terms, variableTerms, pairTerms, linearPart, Coefficients.empty]
  have hkeys := e.linear.nodup
  rw [List.Nodup, List.pairwise_map] at hkeys
  rw [Separate, hterms, List.pairwise_map]
  exact hkeys.imp fun h => by simpa [Term.vars] using Ne.symm h

omit [Field K] [LinearOrder K] [FloorRing K] [IsStrictOrderedRing K] in
theorem mem_terms_of_mem_linearPart {t : Term × Extended K} (h : t ∈ e.linearPart.terms) :
    t ∈ e.terms := by
  simp only [terms, variableTerms, pairTerms, linearPart, Coefficients.empty, List.map_nil,
    List.append_nil] at h
  exact List.mem_append_left _ h

omit [Field K] [LinearOrder K] [FloorRing K] [IsStrictOrderedRing K] in
theorem IsFinite.linearPart (he : e.IsFinite) : e.linearPart.IsFinite :=
  ⟨he.constant, he.linear, Coefficients.isFinite_empty⟩

omit [IsStrictOrderedRing K] in
theorem Ended.linearPart {inf : Extended K} (h : e.Ended env inf) : e.linearPart.Ended env inf :=
  fun t ht => h t (mem_terms_of_mem_linearPart ht)

/-- Some assignment lies within the bounds of all variables that have room between them. -/
theorem exists_within (env : Environment (Extended K)) :
    ∃ s : Assignment K, ∀ v, env.Consistent v → env.Within s v := by
  have hvalue : ∀ v, ∃ x, env.Consistent v →
      env.trueLower v ≤ finite x ∧ finite x ≤ env.trueUpper v := by
    intro v
    by_cases hv : env.Consistent v
    · obtain ⟨x, hl, hu, -⟩ := hv.exists_close (Or.inl rfl) 0
      exact ⟨x, fun _ => ⟨hl, hu⟩⟩
    · exact ⟨0, fun h => (hv h).elim⟩
  choose s hs using hvalue
  exact ⟨s, fun v hv => ⟨(hs v hv).1, (hs v hv).2⟩⟩

/-- The value of a linear part comes close to its lower bound, also if other variables are to lie within
their bounds besides. -/
theorem exists_close_linearPart (he : e.IsFinite) (hended : e.Ended env (env.infinity n))
    {P : Variable → Prop} (hP : ∀ v, P v → v.store = n ∧ env.Consistent v)
    (hkeys : ∀ v ∈ e.linear.keys, P v) (limit : K) :
    ∃ s : Assignment K, (∀ v, P v → env.Within s v) ∧
      Close ((e.linearPart.lower? env (env.infinity n)).getD (infinite true)) limit
        (e.linearPart.value s) := by
  have hvars : ∀ v ∈ e.linearPart.vars, P v := fun v hv =>
    hkeys v ((mem_vars_linearPart e v).1 hv)
  obtain ⟨s, hs, hclose⟩ := exists_close_lower? he.linearPart hended.linearPart
    (fun v hv => (hP v (hvars v hv)).1) (fun v hv => (hP v (hvars v hv)).2) (separate_linearPart e)
    limit
  obtain ⟨base, hbase⟩ := exists_within env
  let both : Assignment K := fun v => if v ∈ e.linearPart.vars then s v else base v
  have hboth : ∀ v ∈ e.linearPart.vars, both v = s v := fun v hv => if_pos hv
  refine ⟨both, fun v hv => ?_, ?_⟩
  · by_cases hmem : v ∈ e.linearPart.vars
    · exact (hs v hmem).congr (hboth v hmem)
    · exact (hbase v (hP v hv).2).congr (if_neg hmem)
  · rwa [value_congr hboth]

/-- If one linear part takes no larger values than another and has a least value, then so has the other,
and it is no smaller. -/
theorem exists_lower?_linearPart {f g : Expression (Extended K)} {P : Variable → Prop}
    (hf : f.IsFinite) (hended : f.Ended env (env.infinity n)) (hg : g.IsFinite)
    (hP : ∀ v, P v → v.store = n ∧ env.Consistent v) (hfP : ∀ v ∈ f.linear.keys, P v)
    (hgP : ∀ v ∈ g.linear.keys, P v)
    (hle : ∀ s : Assignment K, (∀ v, P v → env.Within s v) →
      g.linearPart.value s ≤ f.linearPart.value s)
    {u : Extended K} (h : g.linearPart.lower? env (env.infinity n) = some u) :
    u.IsFinite ∧ ∃ w, f.linearPart.lower? env (env.infinity n) = some w ∧ w.IsFinite ∧
      u.toNumber ≤ w.toNumber := by
  have hfvars : ∀ v ∈ f.linearPart.vars, P v := fun v hv => hfP v ((mem_vars_linearPart f v).1 hv)
  have hgvars : ∀ v ∈ g.linearPart.vars, P v := fun v hv => hgP v ((mem_vars_linearPart g v).1 hv)
  have hbelow : ∀ s : Assignment K, (∀ v, P v → env.Within s v) →
      u.toNumber ≤ f.linearPart.value s := by
    intro s hs
    obtain ⟨-, hul⟩ := lower?_le hg.linearPart (fun v hv => (hP v (hgvars v hv)).1)
      (fun v hv => hs v (hgvars v hv)) h
    exact hul.trans (hle s hs)
  have hclose := exists_close_linearPart hf hended hP hfP
  refine ⟨isFinite_lower? hg.linearPart (fun v hv => (hP v (hgvars v hv)).1)
    (fun v hv => Environment.compares_of_le (hP v (hgvars v hv)).2.ordered) h, ?_⟩
  cases hlf : f.linearPart.lower? env (env.infinity n) with
  | none =>
      -- its values would go below any limit, and below the least value of the first one
      obtain ⟨s, hs, hs'⟩ := hclose (-u.toNumber)
      rw [hlf, Option.getD_none, close_infinite, signed, if_pos rfl, neg_lt_neg_iff] at hs'
      exact ((hbelow s hs).not_gt hs').elim
  | some w =>
      have hw : w.IsFinite := isFinite_lower? hf.linearPart
        (fun v hv => (hP v (hfvars v hv)).1)
        (fun v hv => Environment.compares_of_le (hP v (hfvars v hv)).2.ordered) hlf
      obtain ⟨s, hs, hs'⟩ := hclose 0
      rw [hlf, Option.getD_some, hw.eq_finite, close_finite] at hs'
      exact ⟨w, rfl, hw, hs' ▸ hbelow s hs⟩

/-! ### Products that are kept -/

/-- The products of an expression are those of another one, apart from some whose coefficient is zero. -/
def KeepsProducts (g f : Expression (Extended K)) : Prop :=
  ∃ keep : Extended K → Bool, g.quadratic.entries = f.quadratic.entries.filter (fun t => keep t.2) ∧
    ∀ t ∈ f.quadratic.entries, keep t.2 = false → t.2.toNumber = 0

namespace KeepsProducts

variable {f g : Expression (Extended K)}

omit [LinearOrder K] [FloorRing K] [IsStrictOrderedRing K] in
theorem of_quadratic_eq (h : g.quadratic = f.quadratic) : g.KeepsProducts f :=
  ⟨fun _ => true, by rw [h, List.filter_true], nofun⟩

omit [LinearOrder K] [FloorRing K] [IsStrictOrderedRing K] in
theorem mem_keys (h : g.KeepsProducts f) {p : VariablePair} (hp : p ∈ g.quadratic.keys) :
    p ∈ f.quadratic.keys := by
  obtain ⟨keep, hentries, -⟩ := h
  rw [Coefficients.keys, hentries] at hp
  exact (List.filter_sublist.map Prod.fst).subset hp

omit [LinearOrder K] [FloorRing K] [IsStrictOrderedRing K] in
/-- They have the same value. -/
theorem weigh_eq (h : g.KeepsProducts f) (weight : VariablePair → K) :
    g.quadratic.weigh weight = f.quadratic.weigh weight := by
  obtain ⟨keep, hentries, hzero⟩ := h
  rw [Coefficients.weigh, hentries]
  exact Coefficients.sum_filter_of_zero weight hzero

/-- And they add the same to a lower bound, if those whose coefficient is zero have an upper end. -/
theorem foldlM_eq (h : g.KeepsProducts f) (hf : f.IsFinite) (hended : f.Ended env (env.infinity n))
    (hstore : ∀ v ∈ f.vars, v.store = n) (hcompares : ∀ v ∈ f.vars, env.Compares v) {a : Extended K}
    (ha : a.IsFinite) :
    g.pairTerms.foldlM (Term.addLower env (env.infinity n)) a =
      f.pairTerms.foldlM (Term.addLower env (env.infinity n)) a := by
  obtain ⟨keep, hentries, hzero⟩ := h
  have hfilter : g.pairTerms = f.pairTerms.filter fun t => keep t.2 := by
    rw [pairTerms, hentries, pairTerms, List.filter_map]
    rfl
  have hmem : ∀ t ∈ f.pairTerms, t ∈ f.terms := fun t ht => List.mem_append_right _ ht
  rw [hfilter]
  refine Term.foldlM_addLower_filter (fun t ht => hf.of_mem_terms t (hmem t ht)) (fun t ht => ?_)
    (fun t ht hk => ?_) ha
  · exact Term.isDefined_bound ((forall_mem_vars_iff f _).1 hstore t (hmem t ht))
      ((forall_mem_vars_iff f _).1 hcompares t (hmem t ht)) t.2
  · obtain ⟨u, hu, rfl⟩ := List.mem_map.1 ht
    exact ⟨hzero u hu hk, hended _ (hmem _ ht) (hzero u hu hk)⟩

end KeepsProducts

/-- **Taking away what is not negative makes no lower bound positive**, if the products are kept: the
linear part is least where that of the whole was, or lower. -/
theorem lower_pos_of_lower_pos {f g : Expression (Extended K)} {P : Variable → Prop}
    (hf : f.IsFinite) (hended : f.Ended env (env.infinity n)) (hg : g.IsFinite)
    (hproducts : g.KeepsProducts f) (hinf : 0 < env.infinity n) (hstore : ∀ v ∈ f.vars, v.store = n)
    (hcompares : ∀ v ∈ f.vars, env.Compares v)
    (hP : ∀ v, P v → v.store = n ∧ env.Consistent v) (hfP : ∀ v ∈ f.linear.keys, P v)
    (hgP : ∀ v ∈ g.linear.keys, P v)
    (hle : ∀ s : Assignment K, (∀ v, P v → env.Within s v) → g.value s ≤ f.value s)
    (h : 0 < g.lower env) : 0 < f.lower env := by
  have hstoreg : ∀ v ∈ g.vars, v.store = n := by
    intro v hv
    rcases (mem_vars_iff g v).1 hv with hk | ⟨p, hp, hk⟩
    · exact (hP v (hgP v hk)).1
    · exact hstore v ((mem_vars_iff f v).2 (Or.inr ⟨p, hproducts.mem_keys hp, hk⟩))
  have hmissing : ¬ 0 < -env.infinity n := fun hlt =>
    Extended.not_lt_of_le ((zero_le_neg_iff _).1 (Extended.le_of_lt hlt)) hinf
  have hlinear : ∀ s : Assignment K, (∀ v, P v → env.Within s v) →
      g.linearPart.value s ≤ f.linearPart.value s := by
    intro s hs
    have hvalue := hle s hs
    rwa [value_eq_linearPart g, value_eq_linearPart f, hproducts.weigh_eq, add_le_add_iff_right]
      at hvalue
  have haddable : ∀ t ∈ f.pairTerms, Term.NoLess env env (env.infinity n) t := fun t ht =>
    addable_terms hf hstore hcompares t (List.mem_append_right _ ht)
  rw [lower_eq_getD hstoreg, lower?_eq_bind] at h
  rw [lower_eq_getD hstore, lower?_eq_bind]
  -- a lower bound that is missing is not positive, so both parts of the smaller one are there
  cases hu : g.linearPart.lower? env (env.infinity n) with
  | none =>
      rw [hu] at h
      exact (hmissing h).elim
  | some u =>
      obtain ⟨fu, w, hw, fw, huw⟩ := exists_lower?_linearPart hf hended hg hP hfP hgP hlinear hu
      rw [hu, Option.bind_some, hproducts.foldlM_eq hf hended hstore hcompares fu] at h
      rw [hw, Option.bind_some]
      cases ht : f.pairTerms.foldlM (Term.addLower env (env.infinity n)) u with
      | none =>
          rw [ht] at h
          exact (hmissing h).elim
      | some t =>
          obtain ⟨ft, t', ht', ft', htt⟩ := Term.foldlM_addLower_mono haddable fu fw huw ht
          rw [ht, Option.getD_some, ft.eq_finite] at h
          rw [ht', Option.getD_some, ft'.eq_finite]
          exact lt_of_lt_of_le h htt

end Expression

/-! ### Keys and entries of sums -/

namespace Coefficients

variable {κ : Type} [DecidableEq κ]

/-- Adding to a key that is not there appends an entry, or nothing if zero is added. -/
theorem entries_accumulate {m : Coefficients κ (Extended K)} {k : κ} {c : Extended K}
    (hk : k ∉ m.keys) (hc : c.IsFinite) :
    (m.accumulate k c).entries = m.entries ++ [(k, c)].filter (fun t => !(t.2 == 0)) := by
  have hget : m.get? k = none := by
    rw [Option.eq_none_iff_forall_ne_some]
    intro a ha
    exact hk (List.mem_map_of_mem (f := Prod.fst) ((mem_entries_iff m k a).2 ha))
  have htotal : (m.get? k).getD 0 + c = c := by
    rw [hget, Option.getD_none, hc.eq_finite]
    exact congrArg Extended.finite (zero_add _)
  have hinsert : k ∉ m.entries.map Prod.fst := hk
  cases hz : c == 0 with
  | false => simp [accumulate, htotal, hz, insert, hinsert]
  | true =>
      have hother : ∀ t ∈ m.entries, t.1 ≠ k := fun t ht h => hk (h ▸ List.mem_map_of_mem ht)
      simpa [accumulate, htotal, hz, erase] using hother

/-- Only zeros are lost where entries with keys of their own are added. -/
theorem entries_accumulateAll {m : Coefficients κ (Extended K)} {es : List (κ × Extended K)}
    (hkeys : ((m.entries ++ es).map Prod.fst).Nodup) (hes : ∀ t ∈ es, t.2.IsFinite) :
    (m.accumulateAll es).entries = m.entries ++ es.filter (fun t => !(t.2 == 0)) := by
  induction es generalizing m with
  | nil => exact (List.append_nil _).symm
  | cons t rest ih =>
      have hk : t.1 ∉ m.keys := by
        intro h
        rw [List.map_append, List.nodup_append] at hkeys
        exact hkeys.2.2 _ h _ List.mem_cons_self rfl
      have hentries := entries_accumulate hk (hes t List.mem_cons_self)
      have hkeys' : (((m.accumulate t.1 t.2).entries ++ rest).map Prod.fst).Nodup := by
        refine hkeys.sublist (List.Sublist.map _ ?_)
        rw [hentries, List.append_assoc]
        exact (List.filter_sublist.append_right rest).append_left m.entries
      have hrest := ih hkeys' fun u hu => hes u (List.mem_cons_of_mem _ hu)
      rw [hentries, List.append_assoc, ← List.filter_append] at hrest
      exact hrest

omit [DecidableEq κ] in
theorem eq_of_entries_eq {α : Type} {m n : Coefficients κ α} (h : m.entries = n.entries) :
    m = n := by
  obtain ⟨es, hes⟩ := m
  obtain ⟨fs, hfs⟩ := n
  cases h
  rfl

end Coefficients

namespace Expression

variable {env : Environment (Extended K)} {n : Nat} {e r : Expression (Extended K)}

/-- A multiple has no other variables. -/
theorem mem_keys_of_mem_scale {c : Extended K} {v : Variable}
    (h : v ∈ (e.scale c).linear.keys) : v ∈ e.linear.keys := by
  unfold scale at h
  split at h
  · cases h
  · rwa [Coefficients.keys_map] at h

/-- Nor does the opposite. -/
theorem keys_neg (e : Expression (Extended K)) : e.neg.linear.keys = e.linear.keys := by
  rw [neg_eq_map]
  exact Coefficients.keys_map _ _

theorem mem_or_mem_of_mem_sub {f : Expression (Extended K)} {v : Variable}
    (h : v ∈ (e.sub f).linear.keys) : v ∈ e.linear.keys ∨ v ∈ f.linear.keys := by
  rcases Coefficients.mem_or_mem_of_mem_accumulateAll h with h | h
  · exact Or.inl h
  · exact Or.inr (mem_keys_of_mem_scale h)

/-- Taking a linear expression away leaves the products as they are. -/
theorem keepsProducts_sub (e : Expression (Extended K)) (h : r.isLinear = true) :
    (e.sub r).KeepsProducts e := .of_quadratic_eq (quadratic_sub e h)

/-- Taking something away from a linear expression gives the opposite products. -/
theorem keepsProducts_sub_of_isLinear (he : e.IsFinite) (h : r.isLinear = true) :
    (r.sub e).KeepsProducts e.neg := by
  have hentries := entries_of_isLinear h
  have hkeys : ((r.quadratic.entries ++ e.neg.quadratic.entries).map Prod.fst).Nodup := by
    rw [hentries]
    exact e.neg.quadratic.nodup
  have hsum := Coefficients.entries_accumulateAll hkeys he.neg.quadratic
  rw [hentries, List.nil_append] at hsum
  refine ⟨fun c => !(c == 0), hsum, fun t ht hzero => ?_⟩
  rw [Bool.not_eq_false'] at hzero
  exact (Extended.beq_zero_iff (he.neg.quadratic t ht)).1 hzero

/-- Above minus the infinity a lower bound is what the terms add up to. -/
theorem exists_lower?_of_lower (hstore : ∀ v ∈ e.vars, v.store = n)
    (h : -env.infinity n < e.lower env) : ∃ u, e.lower? env (env.infinity n) = some u := by
  rw [lower_eq_getD hstore] at h
  cases hl : e.lower? env (env.infinity n) with
  | none =>
      rw [hl] at h
      exact (Extended.lt_irrefl _ h).elim
  | some u => exact ⟨u, rfl⟩

/-- Where an expression has a lower bound, its terms have the upper ends that are needed, -/
theorem ended_of_lower (he : e.IsFinite) (hstore : ∀ v ∈ e.vars, v.store = n)
    (h : -env.infinity n < e.lower env) : e.Ended env (env.infinity n) := by
  obtain ⟨u, hu⟩ := exists_lower?_of_lower hstore h
  exact ended_of_lower? he hu

variable [IsStrictOrderedRing K]

/-- and so they do where it has an upper bound. -/
theorem ended_of_upper (he : e.IsFinite) (hstore : ∀ v ∈ e.vars, v.store = n)
    (h : e.upper env < env.infinity n) : e.Ended env (env.infinity n) := by
  rw [← vars_neg] at hstore
  rw [← ended_neg_iff he]
  refine ended_of_lower he.neg hstore ?_
  rwa [← Extended.neg_lt_neg_iff, Extended.neg_neg]

omit [IsStrictOrderedRing K] in
/-- Where an expression has a lower bound, its linear terms leave room. -/
theorem consistent_of_lower (hinf : 0 < env.infinity n) (hstore : ∀ v ∈ e.vars, v.store = n)
    (hordered : ∀ v ∈ e.vars, env.lower v ≤ env.upper v) (h : -env.infinity n < e.lower env) :
    ∀ v ∈ e.linear.keys, env.Consistent v := by
  intro v hv
  have hvars := mem_vars_of_mem_linear hv
  obtain ⟨t, ht, rfl⟩ := List.mem_map.1 hv
  obtain ⟨u, hu⟩ := exists_lower?_of_lower hstore h
  rw [lower?_eq_foldlM] at hu
  have hterm : (Term.variable t.1, t.2) ∈ e.terms := List.mem_append_left _ (List.mem_map_of_mem ht)
  have hbound := Term.isInfinite_bound_of_foldlM hu _ hterm
  rw [← hstore t.1 hvars] at hinf hbound
  refine Environment.consistent_of_bound hinf (hordered t.1 hvars) ?_
  rcases Term.bound_eq env (env.infinity t.1.store) t.2 (.variable t.1) with hb | hb
  · rw [hb] at hbound
    exact Or.inl hbound
  · rw [hb] at hbound
    exact Or.inr hbound

/-- So do they where it has an upper bound. -/
theorem consistent_of_upper (hinf : 0 < env.infinity n) (hstore : ∀ v ∈ e.vars, v.store = n)
    (hordered : ∀ v ∈ e.vars, env.lower v ≤ env.upper v) (h : e.upper env < env.infinity n) :
    ∀ v ∈ e.linear.keys, env.Consistent v := by
  rw [← vars_neg] at hstore hordered
  rw [← keys_neg]
  refine consistent_of_lower hinf hstore hordered ?_
  rwa [← Extended.neg_lt_neg_iff, Extended.neg_neg]

/-- What has a lower bound that is not negative has no negative value. -/
theorem value_nonneg (he : e.IsFinite) (hinf : 0 < env.infinity n)
    (hstore : ∀ v ∈ e.vars, v.store = n) (h : 0 ≤ e.lower env) {s : Assignment K}
    (hs : ∀ v ∈ e.vars, env.Within s v) : 0 ≤ e.value s := by
  have hneg : ¬ e.lower env ≤ -e.infinity env := fun hle =>
    Extended.not_lt_of_le ((zero_le_neg_iff _).1 (Extended.le_trans h hle))
      (infinity_pos hinf hstore)
  obtain ⟨hf, hle⟩ := lower_le_value he hinf hstore hs hneg
  rw [hf.eq_finite] at h
  exact le_trans h hle

omit [IsStrictOrderedRing K] in
theorem lower_neg (e : Expression (Extended K)) : e.neg.lower env = -e.upper env := by
  rw [upper, Extended.neg_neg]

/-- A lower bound above minus the infinity is a number. -/
theorem isFinite_lower (he : e.IsFinite) (hstore : ∀ v ∈ e.vars, v.store = n)
    (hcompares : ∀ v ∈ e.vars, env.Compares v) (h : -env.infinity n < e.lower env) :
    (e.lower env).IsFinite := by
  rcases lower_cases he hstore hcompares with ⟨t, -, hl, hf⟩ | hl
  · rwa [hl]
  · rw [hl] at h
    exact (Extended.lt_irrefl _ h).elim

/-- So is an upper bound below it. -/
theorem isFinite_upper (he : e.IsFinite) (hstore : ∀ v ∈ e.vars, v.store = n)
    (hcompares : ∀ v ∈ e.vars, env.Compares v) (h : e.upper env < env.infinity n) :
    (e.upper env).IsFinite := by
  rw [← vars_neg] at hstore hcompares
  refine (isFinite_lower he.neg hstore hcompares ?_).neg
  rwa [← Extended.neg_lt_neg_iff, Extended.neg_neg]

omit [IsStrictOrderedRing K] in
/-- Both bounds of a constant are the constant. -/
theorem upper_of_isConstant (hc : e.constant.IsFinite) (h : e.isConstant = true) :
    e.upper env = e.constant := by
  have hneg : e.neg.isConstant = true := by rwa [neg_eq_map, isConstant_map]
  rw [upper, lower, if_pos hneg, neg_eq_map, map, hc.eq_finite]
  exact congrArg Extended.finite (by simp)

end Expression

end MixedInteger
