/-
**Replacing an implication never fails half way.**

What takes the place of an implication are constraints that are made like any other, after variables of
both sides have been merged.  If the bounds that are needed are there, and leave the premise open, they
can all be made: the infinity of the store is positive then, since otherwise the bounds would decide the
premise, and taking a multiple of what captures it away leaves each side satisfiable.  A side is left out
exactly if the bounds already imply it, so nothing at all takes the place of an implication whose
conclusion is always satisfied.

Main definitions:

* `MixedInteger.Implication.upperPiece`, `MixedInteger.Implication.lowerPiece` — the constraints
  `e ≤ M * r` and `m * r ≤ e`;
* `MixedInteger.Implication.pieces` — those that take the place of an implication.

Main results:

* `MixedInteger.Implication.upperPart_spec`, `MixedInteger.Implication.lowerPart_spec` — one constraint
  for a side, or none if the bounds imply it;
* `MixedInteger.Implication.pieces_of_replacement` — which constraints there are;
* `MixedInteger.Implication.replaced_in_full` — **replacing does not fail**.
-/

import MixedInteger.Proofs.Capturing

set_option autoImplicit false

namespace MixedInteger.Implication

open Extended

/-! ### Which constraints -/

section Pieces

variable {α : Type} [Scalar α]

/-- The constraint `e ≤ M * r`, where `M` is the upper bound of `e`. -/
def upperPiece (env : Environment α) (e r : Expression α) : Constraint α :=
  ⟨.atMost, e.sub (r.scale (e.upper env)), none⟩

/-- The constraint `m * r ≤ e`, where `m` is the lower bound of `e`. -/
def lowerPiece (env : Environment α) (e r : Expression α) : Constraint α :=
  ⟨.atMost, (r.scale (e.lower env)).sub e, none⟩

/-- What takes the place of an implication whose premise is captured by `r`: a constraint for each side of
the conclusion that the bounds do not imply. -/
def pieces (env : Environment α) (i : Implication α) (r : Expression α) : List (Constraint α) :=
  let e := i.conclusion.expression
  (if 0 < e.upper env then [upperPiece env e r] else []) ++
    if i.conclusion.relation = .equal ∧ e.lower env < 0 then [lowerPiece env e r] else []

variable {env : Environment α} {e r : Expression α} {P : List (Constraint α)} {i : Implication α}

/-- The upper side is one constraint, which can be made, or none if the bound implies it. -/
theorem upperPart_spec (h : upperPart env e r = .ok P) :
    P = (if 0 < e.upper env then [upperPiece env e r] else []) ∧
      (0 < e.upper env →
        Constraint.compare env .atMost e (r.scale (e.upper env)) = .ok (upperPiece env e r)) := by
  unfold upperPart at h
  split at h
  · next hpos =>
      obtain ⟨c, hc, h⟩ := exists_of_bind_eq_ok h
      obtain rfl : c = upperPiece env e r := Constraint.eq_of_compare hc
      cases h
      exact ⟨(if_pos hpos).symm, fun _ => hc⟩
  · next hpos =>
      cases h
      exact ⟨(if_neg hpos).symm, fun h => absurd h hpos⟩

/-- So it is for the lower side. -/
theorem lowerPart_spec (h : lowerPart env e r = .ok P) :
    P = (if e.lower env < 0 then [lowerPiece env e r] else []) ∧
      (e.lower env < 0 →
        Constraint.compare env .atMost (r.scale (e.lower env)) e = .ok (lowerPiece env e r)) := by
  unfold lowerPart at h
  split at h
  · next hneg =>
      obtain ⟨c, hc, h⟩ := exists_of_bind_eq_ok h
      obtain rfl : c = lowerPiece env e r := Constraint.eq_of_compare hc
      cases h
      exact ⟨(if_pos hneg).symm, fun _ => hc⟩
  · next hneg =>
      cases h
      exact ⟨(if_neg hneg).symm, fun h => absurd h hneg⟩

/-- **Which constraints take the place of an implication**, and that they can be made. -/
theorem pieces_of_replacement (h : i.replacement env = .ok P) :
    ∃ r, i.premise.reified env = .ok r ∧ P = i.pieces env r ∧
      (0 < i.conclusion.expression.upper env →
        Constraint.compare env .atMost i.conclusion.expression
          (r.scale (i.conclusion.expression.upper env)) =
            .ok (upperPiece env i.conclusion.expression r)) ∧
      (i.conclusion.relation = .equal → i.conclusion.expression.lower env < 0 →
        Constraint.compare env .atMost (r.scale (i.conclusion.expression.lower env))
          i.conclusion.expression = .ok (lowerPiece env i.conclusion.expression r)) := by
  obtain ⟨-, r, above, hr, ha, hcase⟩ := eq_of_replacement h
  obtain ⟨habove, hupper⟩ := upperPart_spec ha
  rcases hcase with ⟨hrelation, rfl⟩ | ⟨hrelation, -, below, hb, rfl⟩
  · have hnot : ¬ i.conclusion.relation = .equal := by
      rw [hrelation]
      decide
    refine ⟨r, hr, ?_, hupper, fun h => absurd h hnot⟩
    simp [pieces, habove, hnot]
  · obtain ⟨hbelow, hlower⟩ := lowerPart_spec hb
    refine ⟨r, hr, ?_, hupper, fun _ => hlower⟩
    simp [pieces, habove, hbelow, hrelation]

/-- There is at most one constraint for each side that the conclusion has. -/
theorem length_pieces_le (env : Environment α) (i : Implication α) (r : Expression α) :
    (i.conclusion.relation = .atMost → (i.pieces env r).length ≤ 1) ∧ (i.pieces env r).length ≤ 2 := by
  unfold pieces
  dsimp only
  refine ⟨fun hrelation => ?_, ?_⟩
  · have hnot : ¬ i.conclusion.relation = .equal := by
      rw [hrelation]
      decide
    split <;> simp [hnot]
  · split <;> split <;> simp

/-- There is none exactly if the bounds imply all sides. -/
theorem pieces_eq_nil_iff : i.pieces env r = [] ↔ ¬ 0 < i.conclusion.expression.upper env ∧
    (i.conclusion.relation = .atMost ∨ ¬ i.conclusion.expression.lower env < 0) := by
  cases hrelation : i.conclusion.relation <;> simp [pieces, hrelation]

end Pieces

/-! ### Replacing in full -/

variable {K : Type} [Field K] [LinearOrder K] [IsStrictOrderedRing K] [FloorRing K]
  {env : Environment (Extended K)} {n : Nat} {i : Implication (Extended K)}

omit [IsStrictOrderedRing K] in
/-- Where bounds compare, no side is left over exactly if the conclusion is always satisfied. -/
theorem satisfied_iff_no_sides (hd : (i.conclusion.expression.lower env).IsDefined) :
    i.conclusion.mustBeSatisfied env = true ↔ ¬ 0 < i.conclusion.expression.upper env ∧
      (i.conclusion.relation = .atMost ∨ ¬ i.conclusion.expression.lower env < 0) := by
  have hlower : 0 ≤ i.conclusion.expression.lower env ↔ ¬ i.conclusion.expression.lower env < 0 :=
    ⟨Extended.not_lt_of_le, le_of_not_lt isFinite_zero.isDefined hd⟩
  rw [Constraint.mustBeSatisfied_eq_true_iff, hlower]

/-- **Replacing does not fail.**  Over one store whose variables have room between their bounds, whatever
its infinity, let an implication have the bounds that are needed, which leave its conclusion satisfiable
and its premise open.  Then an expression `r` captures the premise, and the constraints `e ≤ M * r` and
`m * r ≤ e` can be made, each if the bounds do not imply that side, also where variables of both sides
merge or cancel.  They take the place of the implication: at most one for an inequality, at most two for
an equation, and none exactly if the conclusion is always satisfied. -/
theorem replaced_in_full (hp : i.premise.expression.IsFinite) (hc : i.conclusion.expression.IsFinite)
    (hstore : ∀ v, i.Mentions v → v.store = n) (hroom : ∀ v, i.Mentions v → env.Consistent v)
    (hkept : i.conclusion.mustBeViolated env = false) (hhas : i.hasReplacement env = true)
    (hs : i.premise.mustBeSatisfied env = false) (hv : i.premise.mustBeViolated env = false) :
    let e := i.conclusion.expression
    ∃ r, i.premise.reified env = .ok r ∧ i.replacement env = .ok (i.pieces env r) ∧
      (0 < e.upper env →
        Constraint.compare env .atMost e (r.scale (e.upper env)) = .ok (upperPiece env e r)) ∧
      (i.conclusion.relation = .equal → e.lower env < 0 →
        Constraint.compare env .atMost (r.scale (e.lower env)) e = .ok (lowerPiece env e r)) ∧
      (i.conclusion.relation = .atMost → (i.pieces env r).length ≤ 1) ∧
      (i.pieces env r).length ≤ 2 ∧
      (i.pieces env r = [] ↔ i.conclusion.mustBeSatisfied env = true) := by
  intro e
  have hreifiable : i.premise.isReifiable env = true := by
    simp only [hasReplacement, Bool.and_eq_true] at hhas
    exact hhas.1.1
  have hinf : 0 < env.infinity n := Constraint.infinity_pos_of_undecided hp
    (fun v hm => hstore v (Or.inl hm)) (fun v hm => hroom v (Or.inl hm)) hreifiable hs hv
  obtain ⟨P, hP⟩ := exists_replacement hp hc hinf hstore (fun v hm => (hroom v hm).ordered) hkept hhas
    hs hv
  obtain ⟨r, hr, rfl, hupper, hlower⟩ := pieces_of_replacement hP
  obtain ⟨hone, htwo⟩ := length_pieces_le env i r
  have hd := Expression.isDefined_lower hc hinf (fun v hm => hstore v (Or.inr hm))
    fun v hm => Environment.compares_of_le (hroom v (Or.inr hm)).ordered
  exact ⟨r, hr, hP, hupper, hlower, hone, htwo,
    pieces_eq_nil_iff.trans (satisfied_iff_no_sides hd).symm⟩

/-- With a truth value `x` and a whole `y` from 0 to 2, over a store whose infinity is 100, `4 x - y = 0`
where `x + y = 0`: `4 x - y ≤ 4 (x + y)`, in which `x` cancels, and `-2 (x + y) ≤ 4 x - y` are made. -/
theorem replaced_in_full_with_cancelling :
    let x : Variable := ⟨0, 0⟩
    let y : Variable := ⟨0, 1⟩
    let env : Environment (Extended ℚ) :=
      { attributes := fun v =>
          if v.slot = 0 then ⟨.binary, finite 0, finite 1, none⟩
          else ⟨.integer, finite 0, finite 2, none⟩
        infinity := fun _ => finite 100 }
    let i : Implication (Extended ℚ) :=
      { premise := ⟨.equal, (Expression.ofVariable x).addVariable y 1, none⟩
        conclusion :=
          ⟨.equal, ((Expression.ofVariable x).scale (finite 4)).addVariable y (finite (-1)), none⟩
        name := none }
    ∃ r, i.premise.reified env = .ok r ∧ i.replacement env = .ok (i.pieces env r) ∧
      (i.pieces env r).map (fun c => (c.relation, c.expression.constant, c.expression.linear.entries)) =
        [(.atMost, 0, [(y, finite (-5))]), (.atMost, 0, [(x, finite (-6)), (y, finite (-1))])] := by
  intro x y env i
  have hp : i.premise.expression.Canonical :=
    (Expression.canonical_ofVariable x).addVariable y isFinite_one
  have hc : i.conclusion.expression.Canonical :=
    ((Expression.canonical_ofVariable x).scale (isFinite_finite _)).addVariable y (isFinite_finite _)
  have hmentions : ∀ Q : Variable → Prop, (∀ t ∈ i.premise.expression.terms, ∀ v ∈ t.1.vars, Q v) →
      (∀ t ∈ i.conclusion.expression.terms, ∀ v ∈ t.1.vars, Q v) → ∀ v, i.Mentions v → Q v := by
    rintro Q hpremise hconclusion v (hv | hv)
    · exact (Expression.forall_mem_vars_iff _ Q).2 hpremise v hv
    · exact (Expression.forall_mem_vars_iff _ Q).2 hconclusion v hv
  have hstore : ∀ v, i.Mentions v → v.store = 0 :=
    hmentions _ (by decide +kernel) (by decide +kernel)
  have hroom : ∀ v, i.Mentions v → env.Consistent v :=
    hmentions _ (by decide +kernel) (by decide +kernel)
  obtain ⟨r, hr, hP, -⟩ := replaced_in_full hp.toIsFinite hc.toIsFinite hstore hroom (by decide +kernel)
    (by decide +kernel) (by decide +kernel) (by decide +kernel)
  have hentries : ((i.replacement env).toOption.getD []).map (fun c =>
      (c.relation, c.expression.constant, c.expression.linear.entries)) =
        [(.atMost, 0, [(y, finite (-5))]), (.atMost, 0, [(x, finite (-6)), (y, finite (-1))])] := by
    decide +kernel
  rw [hP] at hentries
  exact ⟨r, hr, hP, hentries⟩

end MixedInteger.Implication
