/-
**Operators compute with values.**

An expression stands for a function of the numbers that are assigned to its variables.  Every operator
on expressions, variables and numbers is the operator of that name on the values of its operands:
written between them, with a number on either side, or as a change in place of a cell that may be its
own operand.  A constraint that an operator makes holds exactly where the values compare.

Main definitions:

* `MixedInteger.Arithmetic.Gives`, `MixedInteger.Comparison.Compares` — the operators on numbers;
* `MixedInteger.Operand.value`, `MixedInteger.Operand.IsFinite` — the value of an operand.

Main results:

* `MixedInteger.Expression.gives_combine`, `MixedInteger.Operand.gives_operate` — operators that
  compute;
* `MixedInteger.Cells.gives_change` — operators that change a cell;
* `MixedInteger.Operand.holds_compare` — operators that compare;
* `MixedInteger.operators_act_on_values` — **all of them together**.
-/

import MixedInteger.Expression.Cells
import MixedInteger.Meaning.Feasibility
import Mathlib.Data.Rat.Floor

set_option autoImplicit false

namespace MixedInteger

variable {K : Type} [Field K]

/-! ### Operators on numbers -/

/-- What an operator gives on numbers.  A quotient is there only if the divisor is not zero. -/
def Arithmetic.Gives (op : Arithmetic) (x y z : K) : Prop :=
  match op with
  | .add => z = x + y
  | .sub => z = x - y
  | .mul => z = x * y
  | .div => y ≠ 0 ∧ z = x / y

/-- Whether two numbers compare as an operator says. -/
def Comparison.Compares [LE K] (r : Comparison) (x y : K) : Prop :=
  match r with
  | .atMost => x ≤ y
  | .atLeast => y ≤ x
  | .equal => x = y

/-! ### Values of operands -/

namespace Operand

/-- The value of an operand at an assignment. -/
def value (s : Assignment K) : Operand (Extended K) → K
  | .variable v => s v
  | .expression e => e.value s
  | .number a => a.toNumber

/-- Every number of an operand is a number. -/
def IsFinite : Operand (Extended K) → Prop
  | .variable _ => True
  | .expression e => e.IsFinite
  | .number a => a.IsFinite

variable [LinearOrder K] [FloorRing K]

theorem value_asExpression (s : Assignment K) (o : Operand (Extended K)) :
    o.asExpression.value s = o.value s := by
  cases o with
  | «variable» v => exact Expression.value_ofVariable s v
  | expression e => rfl
  | number a => exact Expression.value_const s a

theorem IsFinite.asExpression {o : Operand (Extended K)} (h : o.IsFinite) :
    o.asExpression.IsFinite := by
  cases o with
  | «variable» v => exact Expression.isFinite_ofVariable v
  | expression e => exact h
  | number a => exact Expression.isFinite_const h

end Operand

/-! ### Operators that compute -/

namespace Expression

variable [LinearOrder K] [FloorRing K]

theorem IsFinite.addConstant {e : Expression (Extended K)} (he : e.IsFinite) {a : Extended K}
    (ha : a.IsFinite) : (e.addConstant a).IsFinite :=
  ⟨he.constant.add ha, he.linear, he.quadratic⟩

theorem value_addConstant {e : Expression (Extended K)} (he : e.IsFinite) {a : Extended K}
    (ha : a.IsFinite) (s : Assignment K) :
    (e.addConstant a).value s = e.value s + a.toNumber := by
  simp only [value, addConstant, Extended.toNumber_add he.constant ha]
  ring

/-- An operator with an expression on its left gives what the operator gives on the values. -/
theorem gives_combine {op : Arithmetic} {e g : Expression (Extended K)}
    {o : Operand (Extended K)} (he : e.IsFinite) (ho : o.IsFinite) (h : e.combine op o = .ok g)
    (s : Assignment K) : op.Gives (e.value s) (o.value s) (g.value s) := by
  have hone : (1 : Extended K).IsFinite := Extended.isFinite_one
  cases op with
  | add =>
      cases o with
      | «variable» v =>
          cases h
          simp [Arithmetic.Gives, value_addVariable he v hone, Operand.value]
      | expression f =>
          cases h
          exact value_add he ho s
      | number a =>
          cases h
          exact value_addConstant he ho s
  | sub =>
      cases o with
      | «variable» v =>
          cases h
          have hv := value_addVariable he v hone.neg s
          simp only [Extended.toNumber_neg, Extended.toNumber_one, neg_one_mul] at hv
          exact hv.trans (sub_eq_add_neg _ _).symm
      | expression f =>
          cases h
          exact value_sub he ho s
      | number a =>
          cases h
          have hv := value_addConstant he ho.neg s
          rw [Extended.toNumber_neg] at hv
          exact hv.trans (sub_eq_add_neg _ _).symm
  | mul =>
      have hm : ∀ p : Operand (Extended K), p.IsFinite → e.mul p.asExpression = .ok g →
          g.value s = e.value s * p.value s := by
        intro p hp hg
        rw [value_mul he hp.asExpression hg s, Operand.value_asExpression]
      cases o with
      | «variable» v => exact hm _ ho h
      | expression f => exact hm _ ho h
      | number a =>
          cases h
          exact value_scale he ho s
  | div =>
      have hd : ∀ p : Operand (Extended K), p.IsFinite → e.div p.asExpression = .ok g →
          p.value s ≠ 0 ∧ g.value s = e.value s / p.value s := by
        intro p hp hg
        have hv := value_div he hp.asExpression hg s
        rwa [Operand.value_asExpression] at hv
      cases o with
      | «variable» v => exact hd _ ho h
      | expression f => exact hd _ ho h
      | number a => exact value_divConstant he ho h s

/-- So does one with a number on its left. -/
theorem gives_combineAfter {op : Arithmetic} {a : Extended K} {e g : Expression (Extended K)}
    (ha : a.IsFinite) (he : e.IsFinite) (h : e.combineAfter op a = .ok g) (s : Assignment K) :
    op.Gives a.toNumber (e.value s) (g.value s) := by
  have ho : (Operand.number a).IsFinite := ha
  have hx : (Operand.expression e).IsFinite := he
  -- the operators that turn round, a sum and a product, come back by commutativity
  cases op with
  | add =>
      have hc : e.combine .add (.number a) = .ok g := h
      have hv := gives_combine he ho hc s
      exact hv.trans (add_comm _ _)
  | sub =>
      have hc : e.neg.combine .add (.number a) = .ok g := h
      have hv := gives_combine he.neg ho hc s
      simp only [Arithmetic.Gives, value_neg he] at hv
      exact hv.trans (neg_add_eq_sub _ _)
  | mul =>
      have hc : e.combine .mul (.number a) = .ok g := h
      have hv := gives_combine he ho hc s
      exact hv.trans (mul_comm _ _)
  | div =>
      have hc : (const a).combine .div (.expression e) = .ok g := h
      have hv := gives_combine (isFinite_const ha) hx hc s
      rwa [value_const] at hv

end Expression

namespace Operand

variable [LinearOrder K] [FloorRing K]

/-- An operator between two operands gives what the operator gives on their values. -/
theorem gives_operate {op : Arithmetic} {a b : Operand (Extended K)}
    {g : Expression (Extended K)} (ha : a.IsFinite) (hb : b.IsFinite)
    (h : a.operate op b = .ok g) (s : Assignment K) :
    op.Gives (a.value s) (b.value s) (g.value s) := by
  cases a with
  | «variable» v =>
      have hv := Expression.gives_combine (Expression.isFinite_ofVariable v) hb h s
      rwa [Expression.value_ofVariable] at hv
  | expression e => exact Expression.gives_combine ha hb h s
  | number x =>
      have hv := Expression.gives_combineAfter ha hb.asExpression h s
      rwa [value_asExpression] at hv

theorem value_negate {a : Operand (Extended K)} (ha : a.IsFinite) (s : Assignment K) :
    a.negate.value s = -a.value s := by
  rw [negate, Expression.value_neg ha.asExpression, value_asExpression]

/-! ### Operators that compare -/

/-- A constraint that an operator makes holds exactly where the values of its operands compare. -/
theorem holds_compare [IsStrictOrderedRing K] {env : Environment (Extended K)} {r : Comparison}
    {a b : Operand (Extended K)} {c : Constraint (Extended K)} (ha : a.IsFinite) (hb : b.IsFinite)
    (h : compare env r a b = .ok c) (s : Assignment K) :
    c.Holds s ↔ r.Compares (a.value s) (b.value s) := by
  have hab : ∀ (relation : Relation) (p q : Operand (Extended K)), p.IsFinite → q.IsFinite →
      Constraint.compare env relation p.asExpression q.asExpression = .ok c →
      (c.Holds s ↔ relation.Compares (p.value s) (q.value s)) := by
    intro relation p q hp hq hc
    rw [Constraint.holds_of_compare hp.asExpression hq.asExpression hc s, value_asExpression,
      value_asExpression]
  cases r with
  | atMost => exact hab .atMost a b ha hb h
  | atLeast => exact hab .atMost b a hb ha h
  | equal =>
      cases a with
      | number x =>
          -- here the sides change places
          have hc := hab .equal b (.number x) hb ha h
          exact hc.trans eq_comm
      | «variable» v => exact hab .equal (.variable v) b ha hb h
      | expression e => exact hab .equal (.expression e) b ha hb h

end Operand

/-! ### Operators that change a cell -/

namespace Cells

variable [LinearOrder K] [FloorRing K]

/-- A cell that was changed has the value that the operator gives on what was there, the operand being
read before the change, even if it is the cell itself. -/
theorem gives_change {op : Arithmetic} {cs cs' : Cells (Extended K)} {target : Nat}
    {r : Reference (Extended K)} (ht : target < cs.size) (hc : (cs.fetch target).IsFinite)
    (hr : (r.operand cs).IsFinite) (h : cs.change op target r = .ok cs') (s : Assignment K) :
    op.Gives ((cs.fetch target).value s) ((r.operand cs).value s) ((cs'.fetch target).value s) := by
  rw [change_eq ht] at h
  cases hg : (cs.fetch target).combine op (r.operand cs) with
  | error f => rw [hg] at h; cases h
  | ok g =>
      rw [hg] at h
      cases h
      rw [fetch_put_self ht]
      exact Expression.gives_combine hc hr hg s

end Cells

/-! ### All operators -/

/-- **Operators act on values**: those between operands, the opposite, those that change a cell in
place, and those that compare. -/
theorem operators_act_on_values [LinearOrder K] [IsStrictOrderedRing K] [FloorRing K]
    (s : Assignment K) :
    (∀ (op : Arithmetic) (a b : Operand (Extended K)) (g : Expression (Extended K)),
      a.IsFinite → b.IsFinite → a.operate op b = .ok g →
        op.Gives (a.value s) (b.value s) (g.value s)) ∧
    (∀ a : Operand (Extended K), a.IsFinite → a.negate.value s = -a.value s) ∧
    (∀ (op : Arithmetic) (cs cs' : Cells (Extended K)) (target : Nat)
        (r : Cells.Reference (Extended K)),
      target < cs.size → (cs.fetch target).IsFinite → (r.operand cs).IsFinite →
        cs.change op target r = .ok cs' →
        op.Gives ((cs.fetch target).value s) ((r.operand cs).value s)
          ((cs'.fetch target).value s)) ∧
    ∀ (env : Environment (Extended K)) (r : Comparison) (a b : Operand (Extended K))
        (c : Constraint (Extended K)),
      a.IsFinite → b.IsFinite → a.compare env r b = .ok c →
        (c.Holds s ↔ r.Compares (a.value s) (b.value s)) := by
  refine ⟨?_, ?_, ?_, ?_⟩
  · intro op a b g ha hb h
    exact Operand.gives_operate ha hb h s
  · intro a ha
    exact Operand.value_negate ha s
  · intro op cs cs' target r ht hc hr h
    exact Cells.gives_change ht hc hr h s
  · intro env r a b c ha hb h
    exact Operand.holds_compare ha hb h s

/-- With `x` being three: `2 - x` is minus one, a cell that holds `x + 1` and is multiplied by itself
holds sixteen, and `x ≤ 5` holds. -/
theorem operators_act_on_values_at_three :
    let x : Variable := ⟨0, 0⟩
    let s : Assignment ℚ := fun _ => 3
    let cs : Cells (Extended ℚ) := #[(Expression.ofVariable x).addConstant 1]
    let env : Environment (Extended ℚ) := .alike .integer (.finite 0) (.finite 10) (.infinite false)
    (∃ g, (Operand.number (.finite 2)).operate .sub (.variable x) = .ok g ∧ g.value s = -1) ∧
    (∃ cs', cs.change .mul 0 (.cell 0) = .ok cs' ∧ (cs'.fetch 0).value s = 16) ∧
    ∃ c, (Operand.variable x).compare env .atMost (.number (.finite 5)) = .ok c ∧ c.Holds s := by
  intro x s cs env
  obtain ⟨hcompute, -, hchange, hcompare⟩ := operators_act_on_values s
  let e : Expression (Extended ℚ) := (Expression.ofVariable x).addConstant 1
  have he : e.IsFinite := (Expression.isFinite_ofVariable x).addConstant Extended.isFinite_one
  have hv : e.value s = 4 := by
    rw [Expression.value_addConstant (Expression.isFinite_ofVariable x) Extended.isFinite_one,
      Expression.value_ofVariable]
    norm_num [s]
  have hsquare : cs.change .mul 0 (.cell 0) = .ok (cs.put 0 (e.product e)) := by
    rw [Cells.change_eq (by decide)]
    rfl
  have hmake : (Operand.variable x).compare env .atMost (.number (.finite 5)) =
      .ok ⟨.atMost, (Expression.ofVariable x).sub (.const (.finite 5)), none⟩ :=
    (Constraint.make_eq_ok_iff env .atMost _ none _).2 ⟨rfl, by decide +kernel⟩
  refine ⟨⟨_, rfl, ?_⟩, ⟨_, hsquare, ?_⟩, ⟨_, hmake, ?_⟩⟩
  · have h := hcompute .sub (.number (.finite 2)) (.variable x) _ trivial trivial rfl
    rw [h]
    norm_num [Operand.value, s]
  · have h := hchange .mul cs _ 0 (.cell 0) (by decide) he he hsquare
    have h4 : (cs.fetch 0).value s = 4 := hv
    rw [h]
    change (cs.fetch 0).value s * (cs.fetch 0).value s = 16
    norm_num [h4]
  · rw [hcompare env .atMost (.variable x) (.number (.finite 5)) _ trivial trivial hmake]
    change (3 : ℚ) ≤ 5
    norm_num

end MixedInteger
