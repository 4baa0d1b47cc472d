/-
**Implications as plain constraints.**

Let `r` capture the premise: zero where it holds, at least one elsewhere.  Then `e ≤ 0` need only hold
where `r` is zero, which `e ≤ M * r` says, `M` being the upper bound of `e`; an equation needs
`m * r ≤ e` besides, `m` being the lower bound.  A side that the bounds already imply is left out, so
that no, one or two constraints take the place of an implication.

Main definitions:

* `MixedInteger.Implication.hasReplacement` — the bounds needed are there;
* `MixedInteger.Implication.replacement` — the constraints.

Main results:

* `MixedInteger.Implication.eq_of_replacement` — which constraints those are.
-/

import MixedInteger.Constraint.Reification
import MixedInteger.Expression.Product

set_option autoImplicit false

namespace MixedInteger.Implication

variable {α : Type} [Scalar α]

/-- The premise can be captured, and the conclusion has the finite bounds that its relation asks
for. -/
def hasReplacement (env : Environment α) (i : Implication α) : Bool :=
  let e := i.conclusion.expression
  let inf := e.infinity env
  i.premise.isReifiable env && !decide (inf ≤ e.upper env) &&
    (i.conclusion.relation == .atMost || decide (-inf < e.lower env))

/-- The constraint `e ≤ M * r`, unless the bounds imply it. -/
def upperPart (env : Environment α) (e r : Expression α) : Except (Fault α) (List (Constraint α)) :=
  if 0 < e.upper env then
    return [← Constraint.compare env .atMost e (r.scale (e.upper env))]
  else return []

/-- The constraint `m * r ≤ e`, unless the bounds imply it. -/
def lowerPart (env : Environment α) (e r : Expression α) : Except (Fault α) (List (Constraint α)) :=
  if e.lower env < 0 then
    return [← Constraint.compare env .atMost (r.scale (e.lower env)) e]
  else return []

/-- The constraints that take the place of an implication. -/
def replacement (env : Environment α) (i : Implication α) :
    Except (Fault α) (List (Constraint α)) := do
  let e := i.conclusion.expression
  let inf := e.infinity env
  if !i.premise.isReifiable env then throw (.premiseNotReifiable i)
  if inf ≤ e.upper env then throw (.unboundedAbove i)
  let r ← i.premise.reified env
  let above ← upperPart env e r
  match i.conclusion.relation with
  | .atMost => return above
  | .equal =>
    if e.lower env ≤ -inf then throw (.unboundedBelow i)
    return above ++ (← lowerPart env e r)

theorem eq_of_upperPart {env : Environment α} {e r : Expression α} {P : List (Constraint α)}
    (h : upperPart env e r = .ok P) :
    P = [] ∨ P = [⟨.atMost, e.sub (r.scale (e.upper env)), none⟩] := by
  unfold upperPart at h
  split at h
  · obtain ⟨c, hc, h⟩ := exists_of_bind_eq_ok h
    cases h
    rw [Constraint.eq_of_compare hc]
    exact Or.inr rfl
  · cases h
    exact Or.inl rfl

theorem eq_of_lowerPart {env : Environment α} {e r : Expression α} {P : List (Constraint α)}
    (h : lowerPart env e r = .ok P) :
    P = [] ∨ P = [⟨.atMost, (r.scale (e.lower env)).sub e, none⟩] := by
  unfold lowerPart at h
  split at h
  · obtain ⟨c, hc, h⟩ := exists_of_bind_eq_ok h
    cases h
    rw [Constraint.eq_of_compare hc]
    exact Or.inr rfl
  · cases h
    exact Or.inl rfl

/-- Where an implication has been replaced, its premise is captured and the bounds that its relation
asks for are there. -/
theorem eq_of_replacement {env : Environment α} {i : Implication α} {P : List (Constraint α)}
    (h : i.replacement env = .ok P) :
    ¬ i.conclusion.expression.infinity env ≤ i.conclusion.expression.upper env ∧
      ∃ r above, i.premise.reified env = .ok r ∧
        upperPart env i.conclusion.expression r = .ok above ∧
        (i.conclusion.relation = .atMost ∧ P = above ∨
          i.conclusion.relation = .equal ∧
            ¬ i.conclusion.expression.lower env ≤ -i.conclusion.expression.infinity env ∧
            ∃ below, lowerPart env i.conclusion.expression r = .ok below ∧ P = above ++ below) := by
  unfold replacement at h
  dsimp only at h
  split at h
  · cases h
  · split at h
    · cases h
    · next hu =>
        obtain ⟨r, hr, h⟩ := exists_of_bind_eq_ok h
        obtain ⟨above, ha, h⟩ := exists_of_bind_eq_ok h
        refine ⟨hu, r, above, hr, ha, ?_⟩
        cases hrel : i.conclusion.relation with
        | atMost =>
            rw [hrel] at h
            cases h
            exact Or.inl ⟨rfl, rfl⟩
        | equal =>
            rw [hrel] at h
            dsimp only at h
            split at h
            · cases h
            · next hl =>
                obtain ⟨below, hb, h⟩ := exists_of_bind_eq_ok h
                cases h
                exact Or.inr ⟨rfl, hl, below, hb, rfl⟩

end MixedInteger.Implication
