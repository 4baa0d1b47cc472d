/-
**What a snapshot says.**

The terms of a snapshot are read as a polynomial of numbers by index.  A row compares it with its
right side; the objective adds its constant.

Main definitions:

* `MixedInteger.Snapshot.Terms.value` — the value of terms at numbers by index;
* `MixedInteger.Snapshot.Row.Holds` — satisfaction.

Main results:

* `MixedInteger.Snapshot.Terms.linearValue_ofExpression`,
  `MixedInteger.Snapshot.Terms.value_ofExpression` — terms have the value of the expression that they
  come from, its constant apart.
-/

import MixedInteger.Meaning.Feasibility
import MixedInteger.Snapshot.Basic

set_option autoImplicit false

namespace MixedInteger.Snapshot

variable {K : Type} [Field K]

/-- The value of linear terms at numbers by index. -/
def linearValue (x : Int → K) (indices : List Int) (values : List (Extended K)) : K :=
  (List.zipWith (fun i a => a.toNumber * x i) indices values).sum

/-- The value of products at numbers by index. -/
def pairValue (x : Int → K) (firsts seconds : List Int) (values : List (Extended K)) : K :=
  (List.zipWith (fun (p : Int × Int) a => a.toNumber * (x p.1 * x p.2)) (firsts.zip seconds)
    values).sum

/-- The value of terms at numbers by index. -/
def Terms.value (x : Int → K) (t : Terms (Extended K)) : K :=
  linearValue x t.linearIndices t.linearValues +
    pairValue x t.firstIndices t.secondIndices t.pairValues

/-- The value of an objective, its constant included. -/
def Objective.value (x : Int → K) (o : Objective (Extended K)) : K :=
  o.terms.value x + o.constant.toNumber

/-- The terms of a row compare with its right side as the row says. -/
def Row.Holds [LinearOrder K] (x : Int → K) (r : Row (Extended K)) : Prop :=
  r.relation.Compares (r.terms.value x) r.bound.toNumber

/-- The numbers by index that an assignment gives to the variables of a store. -/
def numbersOf (store : Nat) (s : Assignment K) (i : Int) : K := s ⟨store, i.toNat⟩

omit [Field K] in
/-- Keys and values of entries, put together again. -/
theorem zipWith_keys_values {κ ι : Type} (es : List (κ × Extended K)) (index : κ → ι)
    (f : ι → Extended K → K) :
    List.zipWith f ((es.map Prod.fst).map index) (es.map Prod.snd) =
      es.map fun t => f (index t.1) t.2 := by
  induction es with
  | nil => rfl
  | cons t rest ih => exact congrArg _ ih

/-- Linear terms have the value of the linear part that they come from. -/
theorem Terms.linearValue_ofExpression {e : Expression (Extended K)} {store : Nat}
    (hl : ∀ v ∈ e.linear.keys, v.store = store) (s : Assignment K) :
    linearValue (numbersOf store s) (ofExpression e).linearIndices (ofExpression e).linearValues =
      e.linear.weigh s := by
  simp only [linearValue, ofExpression, Coefficients.keys, Coefficients.values,
    zipWith_keys_values, Coefficients.weigh]
  congr 1
  apply List.map_congr_left
  intro t ht
  rw [← hl t.1 (List.mem_map_of_mem ht)]
  rfl

/-- Terms have the value of the expression that they come from, its constant apart. -/
theorem Terms.value_ofExpression {e : Expression (Extended K)} {store : Nat}
    (hl : ∀ v ∈ e.linear.keys, v.store = store)
    (hq : ∀ p ∈ e.quadratic.keys, p.first.store = store ∧ p.second.store = store)
    (s : Assignment K) :
    (Terms.ofExpression e).value (numbersOf store s) = e.value s - e.constant.toNumber := by
  have quadratic : pairValue (numbersOf store s) (ofExpression e).firstIndices
      (ofExpression e).secondIndices (ofExpression e).pairValues =
        e.quadratic.weigh (Expression.pairValue s) := by
    simp only [pairValue, ofExpression, Coefficients.keys, Coefficients.values,
      List.zip_map', zipWith_keys_values, Coefficients.weigh]
    congr 1
    apply List.map_congr_left
    intro t ht
    obtain ⟨h, h'⟩ := hq t.1 (List.mem_map_of_mem ht)
    simp only [numbersOf, Int.toNat_natCast, Expression.pairValue]
    nth_rewrite 1 [← h]
    rw [← h']
  rw [value, linearValue_ofExpression hl, quadratic, Expression.value]
  ring

end MixedInteger.Snapshot
