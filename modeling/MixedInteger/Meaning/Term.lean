/-
**The terms of an expression.**

A linear term and a product of two variables have much in common: each has a value, a range in which
that value lies, and variables on which it depends.  Here they are treated alike, one list of terms
standing for both kinds of coefficients.

Main definitions:

* `MixedInteger.Term` — a variable or a product of two, without its coefficient;
* `MixedInteger.Term.weight`, `MixedInteger.Term.range` — its value, and the range of that;
* `MixedInteger.Expression.terms` — the terms of an expression with their coefficients, made of
  `MixedInteger.Expression.variableTerms` and `MixedInteger.Expression.pairTerms`;
* `MixedInteger.Expression.Separate` — no variable occurs in two of them.

Main results:

* `MixedInteger.Expression.value_eq_sum_terms` — the value is the constant and the values of the terms;
* `MixedInteger.Expression.lower?_eq_foldlM` — so is the lower bound.
-/

import MixedInteger.Expression.Interval
import MixedInteger.Meaning.Value

set_option autoImplicit false

namespace MixedInteger

/-- A variable or a product of two variables. -/
inductive Term where
  | variable (v : Variable)
  | pair (p : VariablePair)
  deriving DecidableEq

namespace Term

/-- The variables that occur. -/
def vars : Term → List Variable
  | .variable v => [v]
  | .pair p => p.toList

/-- The value at an assignment. -/
def weight {K : Type} [Field K] (s : Assignment K) : Term → K
  | .variable v => s v
  | .pair p => Expression.pairValue s p

/-- Only the variables that occur matter for the value. -/
theorem weight_congr {K : Type} [Field K] {s t : Assignment K} {u : Term}
    (h : ∀ v ∈ u.vars, s v = t v) : u.weight s = u.weight t := by
  cases u with
  | «variable» v => exact h v (by simp [vars])
  | pair p =>
      rw [weight, weight, Expression.pairValue, Expression.pairValue,
        h p.first (by simp [vars, VariablePair.toList]),
        h p.second (by simp [vars, VariablePair.toList])]

theorem exists_mem_vars (t : Term) : ∃ v, v ∈ t.vars := by
  cases t with
  | «variable» v => exact ⟨v, List.mem_cons_self⟩
  | pair p => exact ⟨p.first, List.mem_cons_self⟩

variable {α : Type} [Scalar α]

/-- The range of the value between the bounds of the variables. -/
def range (env : Environment α) (inf : α) : Term → α × α
  | .variable v => (Expression.extend inf (env.lower v), Expression.extend inf (env.upper v))
  | .pair p => Expression.pairRange env inf p

/-- The end of the range at which a multiple of the value is least. -/
def bound (env : Environment α) (inf : α) (t : Term) (c : α) : α :=
  if 0 < c then (t.range env inf).1 else (t.range env inf).2

/-- Adds the least value of a multiple of a term to a total; nothing if it is unbounded below. -/
def addLower (env : Environment α) (inf : α) (total : α) (t : Term × α) : Option α :=
  if Scalar.isInfinite (t.1.bound env inf t.2) then none
  else some (total + t.2 * t.1.bound env inf t.2)

theorem addLower_variable (env : Environment α) (inf total : α) (t : Variable × α) :
    addLower env inf total (.variable t.1, t.2) = Expression.addLinearLower env inf total t := by
  have hbound : bound env inf (.variable t.1) t.2 =
      Expression.extend inf (if 0 < t.2 then env.lower t.1 else env.upper t.1) := by
    unfold bound
    split <;> rfl
  simp only [addLower, Expression.addLinearLower, hbound]

theorem addLower_pair (env : Environment α) (inf total : α) (t : VariablePair × α) :
    addLower env inf total (.pair t.1, t.2) = Expression.addPairLower env inf total t := rfl

end Term

namespace Expression

/-- The linear terms with their coefficients. -/
def variableTerms {α : Type} (e : Expression α) : List (Term × α) :=
  e.linear.entries.map fun t => (.variable t.1, t.2)

/-- The products of two variables with their coefficients. -/
def pairTerms {α : Type} (e : Expression α) : List (Term × α) :=
  e.quadratic.entries.map fun t => (.pair t.1, t.2)

/-- The terms with their coefficients, the linear ones first. -/
def terms {α : Type} (e : Expression α) : List (Term × α) := e.variableTerms ++ e.pairTerms

/-- No variable occurs in two terms. -/
def Separate {α : Type} (e : Expression α) : Prop :=
  e.terms.Pairwise fun t u => List.Disjoint t.1.vars u.1.vars

theorem IsFinite.of_mem_terms {K : Type} {e : Expression (Extended K)} (he : e.IsFinite) :
    ∀ t ∈ e.terms, t.2.IsFinite := by
  intro t ht
  rcases List.mem_append.1 ht with h | h
  · obtain ⟨u, hu, rfl⟩ := List.mem_map.1 h
    exact he.linear u hu
  · obtain ⟨u, hu, rfl⟩ := List.mem_map.1 h
    exact he.quadratic u hu

/-- The variables are those of the terms. -/
theorem mem_vars_iff_exists_term {α : Type} (e : Expression α) (v : Variable) :
    v ∈ e.vars ↔ ∃ t ∈ e.terms, v ∈ t.1.vars := by
  rw [mem_vars_iff]
  constructor
  · rintro (h | ⟨p, hp, hv⟩)
    · obtain ⟨t, ht, rfl⟩ := List.mem_map.1 h
      exact ⟨_, List.mem_append_left _ (List.mem_map_of_mem ht), List.mem_singleton_self _⟩
    · obtain ⟨t, ht, rfl⟩ := List.mem_map.1 hp
      refine ⟨_, List.mem_append_right _ (List.mem_map_of_mem ht), ?_⟩
      simpa [Term.vars, VariablePair.toList] using hv
  · rintro ⟨t, ht, hv⟩
    rcases List.mem_append.1 ht with h | h
    · obtain ⟨u, hu, rfl⟩ := List.mem_map.1 h
      obtain rfl : v = u.1 := List.mem_singleton.1 hv
      exact Or.inl (List.mem_map_of_mem hu)
    · obtain ⟨u, hu, rfl⟩ := List.mem_map.1 h
      refine Or.inr ⟨u.1, List.mem_map_of_mem hu, ?_⟩
      simpa [Term.vars, VariablePair.toList] using hv

theorem isConstant_iff_terms_eq_nil {α : Type} (e : Expression α) :
    e.isConstant = true ↔ e.terms = [] := by
  simp [isConstant, Coefficients.isEmpty, terms, variableTerms, pairTerms]

/-- What is not constant has a variable. -/
theorem exists_mem_vars {α : Type} {e : Expression α} (h : e.isConstant = false) :
    ∃ v, v ∈ e.vars := by
  rw [← Bool.not_eq_true, isConstant_iff_terms_eq_nil] at h
  obtain ⟨t, ht⟩ := List.exists_mem_of_ne_nil _ h
  obtain ⟨v, hv⟩ := t.1.exists_mem_vars
  exact ⟨v, (mem_vars_iff_exists_term e v).2 ⟨t, ht, hv⟩⟩

/-- What is to hold of all variables is to hold of those of each term. -/
theorem forall_mem_vars_iff {α : Type} (e : Expression α) (P : Variable → Prop) :
    (∀ v ∈ e.vars, P v) ↔ ∀ t ∈ e.terms, ∀ v ∈ t.1.vars, P v := by
  constructor
  · intro h t ht v hv
    exact h v ((mem_vars_iff_exists_term e v).2 ⟨t, ht, hv⟩)
  · intro h v hv
    obtain ⟨t, ht, hvt⟩ := (mem_vars_iff_exists_term e v).1 hv
    exact h t ht v hvt

/-- The value is the constant and the values of the terms. -/
theorem value_eq_sum_terms {K : Type} [Field K] (e : Expression (Extended K)) (s : Assignment K) :
    e.value s =
      e.constant.toNumber + (e.terms.map fun t => t.2.toNumber * t.1.weight s).sum := by
  simp only [value, Coefficients.weigh, terms, variableTerms, pairTerms, List.map_append,
    List.map_map, List.sum_append, Function.comp_def, Term.weight, add_assoc]

/-- The lower bound runs through the terms. -/
theorem lower?_eq_foldlM {α : Type} [Scalar α] (env : Environment α) (inf : α) (e : Expression α) :
    e.lower? env inf = e.terms.foldlM (Term.addLower env inf) e.constant := by
  simp only [lower?, terms, variableTerms, pairTerms, List.foldlM_append, List.foldlM_map,
    Term.addLower_variable, Term.addLower_pair]

end Expression

end MixedInteger
