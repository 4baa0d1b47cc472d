/-
**Expressions that change in place.**

An expression lives in a cell, and several names may stand for one cell.  An operator that changes its
left side in place changes the cell, statement by statement; the right side is read while that goes
on, and it may be the very cell that is being changed.  Whether this makes a difference has to be
shown: the operators below read a cell again in front of every statement.

Main definitions:

* `MixedInteger.Cells`, `MixedInteger.Cells.Reference` — cells, and what a name stands for;
* `MixedInteger.Cells.addTo`, `MixedInteger.Cells.multiplyBy` — the sum and the product of two cells,
  left in the first one;
* `MixedInteger.Cells.change` — an operator that changes a cell;
* `MixedInteger.Cells.Step`, `MixedInteger.Cells.perform`, `MixedInteger.Cells.run` — programs.

Main results:

* `MixedInteger.Cells.change_eq` — **changing a cell in place is computing with what it held**, also
  when the right side is the same cell.
-/

import MixedInteger.Expression.Operand

set_option autoImplicit false

namespace MixedInteger

/-- Expressions in cells; a cell is named by its place. -/
abbrev Cells (α : Type) := Array (Expression α)

namespace Cells

variable {α : Type} [Scalar α]

/-! ### Reading and writing -/

/-- What a cell holds. -/
def fetch (cs : Cells α) (n : Nat) : Expression α := cs.getD n default

/-- Changes what a cell holds. -/
def put (cs : Cells α) (n : Nat) (e : Expression α) : Cells α := cs.setIfInBounds n e

/-- Changes what a cell holds by a function. -/
def update (cs : Cells α) (n : Nat) (f : Expression α → Expression α) : Cells α :=
  cs.put n (f (cs.fetch n))

omit [Scalar α] in
@[simp] theorem size_put (cs : Cells α) (n : Nat) (e : Expression α) :
    (cs.put n e).size = cs.size := by
  simp [put]

theorem fetch_put_self {cs : Cells α} {n : Nat} (h : n < cs.size) (e : Expression α) :
    (cs.put n e).fetch n = e := by
  simp [put, fetch, h]

theorem fetch_put_of_ne {cs : Cells α} {n m : Nat} (h : n ≠ m) (e : Expression α) :
    (cs.put n e).fetch m = cs.fetch m := by
  simp [put, fetch, h]

omit [Scalar α] in
@[simp] theorem put_put (cs : Cells α) (n : Nat) (e f : Expression α) :
    (cs.put n e).put n f = cs.put n f := by
  simp [put]

omit [Scalar α] in
/-- There is nothing to change where there is no cell. -/
theorem put_of_size_le {cs : Cells α} {n : Nat} (h : cs.size ≤ n) (e : Expression α) :
    cs.put n e = cs := by
  simp [put, Array.setIfInBounds, Nat.not_lt.2 h]

theorem fetch_push_self (cs : Cells α) (e : Expression α) :
    Cells.fetch (cs.push e) cs.size = e := by
  simp [fetch]

theorem fetch_push_of_ne {cs : Cells α} {n : Nat} (h : n ≠ cs.size) (e : Expression α) :
    Cells.fetch (cs.push e) n = cs.fetch n := by
  simp [fetch, Array.getElem?_push, h]

/-! ### What names stand for -/

/-- What a name stands for: a variable, a cell, or a number. -/
inductive Reference (α : Type) where
  | variable (v : Variable)
  | cell (n : Nat)
  | number (a : α)

/-- What a name stands for at the moment. -/
def Reference.operand (cs : Cells α) : Reference α → Operand α
  | .variable v => .variable v
  | .cell n => .expression (cs.fetch n)
  | .number a => .number a

/-! ### Changing a cell -/

/-- Adds a cell to another: its constant, then its linear terms, then its products. -/
def addTo (cs : Cells α) (target source : Nat) : Cells α :=
  let withConstant := cs.update target fun e =>
    { e with constant := e.constant + (cs.fetch source).constant }
  let withLinear := withConstant.update target fun e =>
    { e with linear := e.linear.accumulateAll (withConstant.fetch source).linear.entries }
  withLinear.update target fun e =>
    { e with quadratic := e.quadratic.accumulateAll (withLinear.fetch source).quadratic.entries }

/-- Adding the second cell in place is adding what it held, also to itself. -/
theorem addTo_eq {cs : Cells α} {target : Nat} (h : target < cs.size) (source : Nat) :
    cs.addTo target source = cs.put target ((cs.fetch target).add (cs.fetch source)) := by
  -- an alias sees the new constant in front of the linear terms, and the new linear terms in front of
  -- the products, but neither is read again
  by_cases hs : source = target
  · subst hs
    simp only [addTo, update, put_put, fetch_put_self h]
    rfl
  · simp only [addTo, update, put_put, fetch_put_self h, fetch_put_of_ne (Ne.symm hs)]
    rfl

/-- Multiplies a cell by another, unless the degree of the product exceeds two: the terms are scaled
by the constant of the factor, then the terms of the factor times the old constant are added, then the
products of linear terms.  A factor that is the cell itself is copied first. -/
def multiplyBy (cs : Cells α) (target source : Nat) : Except (Fault α) (Cells α) := do
  let before := cs.fetch target
  let factor := fun (now : Cells α) => if source = target then before else now.fetch source
  let _ ← before.mul (factor cs)
  let scaled := cs.update target (·.scale (factor cs).constant)
  let withLinear := scaled.update target fun e =>
    { e with
      linear := e.linear.accumulateAll
        ((factor scaled).linear.entries.map fun x => (x.1, before.constant * x.2)) }
  let withQuadratic := withLinear.update target fun e =>
    { e with
      quadratic := e.quadratic.accumulateAll
        ((factor withLinear).quadratic.entries.map fun x => (x.1, before.constant * x.2)) }
  return withQuadratic.update target fun e =>
    { e with
      quadratic :=
        e.quadratic.accumulateAll (Expression.crossTerms before (factor withQuadratic)) }

/-- Multiplying by the second cell in place is multiplying by what it held, also by itself. -/
theorem multiplyBy_eq {cs : Cells α} {target : Nat} (h : target < cs.size) (source : Nat) :
    cs.multiplyBy target source =
      ((cs.fetch target).mul (cs.fetch source)).map (cs.put target) := by
  have hf : ∀ now : Cells α, (∀ m, m ≠ target → now.fetch m = cs.fetch m) →
      (if source = target then cs.fetch target else now.fetch source) = cs.fetch source := by
    intro now hnow
    by_cases hs : source = target
    · rw [if_pos hs, hs]
    · rw [if_neg hs, hnow source hs]
  have hput : ∀ e : Expression α, ∀ m, m ≠ target → (cs.put target e).fetch m = cs.fetch m :=
    fun e m hm => fetch_put_of_ne (Ne.symm hm) e
  simp only [multiplyBy, update, put_put, fetch_put_self h, hf _ (hput _), hf cs fun _ _ => rfl]
  cases hm : (cs.fetch target).mul (cs.fetch source) with
  | error f => rfl
  | ok g =>
      rw [Expression.eq_product_of_mul hm]
      rfl

/-- An operator that changes a cell. -/
def change (op : Arithmetic) (cs : Cells α) (target : Nat) (r : Reference α) :
    Except (Fault α) (Cells α) :=
  match op, r with
  | .add, .cell n => return cs.addTo target n
  | .mul, .cell n => cs.multiplyBy target n
  | op, r => return cs.put target (← (cs.fetch target).combine op (r.operand cs))

/-- **Changing a cell in place is computing with what it held.** -/
theorem change_eq {cs : Cells α} {target : Nat} (h : target < cs.size) (op : Arithmetic)
    (r : Reference α) :
    cs.change op target r = ((cs.fetch target).combine op (r.operand cs)).map (cs.put target) := by
  have hbind : ∀ x : Except (Fault α) (Expression α),
      (do return cs.put target (← x)) = x.map (cs.put target) := by
    intro x
    cases x <;> rfl
  cases r with
  | «variable» v => cases op <;> exact hbind _
  | number a => cases op <;> exact hbind _
  | cell n =>
      cases op with
      | add => exact congrArg Except.ok (addTo_eq h n)
      | sub => exact hbind _
      | mul => exact multiplyBy_eq h n
      | div => exact hbind _

/-- An operator that changes a cell which is not there changes nothing. -/
theorem eq_of_change {cs cs' : Cells α} {target : Nat} (h : cs.size ≤ target) {op : Arithmetic}
    {r : Reference α} (hc : cs.change op target r = .ok cs') : cs' = cs := by
  have hbind : ∀ x : Except (Fault α) (Expression α),
      (do return cs.put target (← x)) = .ok cs' → cs' = cs := by
    intro x hx
    cases x with
    | error f => cases hx
    | ok e =>
        cases hx
        exact put_of_size_le h e
  have hadd : ∀ n, cs.addTo target n = cs := by
    intro n
    simp only [addTo, update, put_of_size_le h]
  have hmul : ∀ n, cs.multiplyBy target n = .ok cs' → cs' = cs := by
    intro n hn
    simp only [multiplyBy, update, put_of_size_le h] at hn
    cases hm : (cs.fetch target).mul (if n = target then cs.fetch target else cs.fetch n) with
    | error f =>
        rw [hm] at hn
        cases hn
    | ok g =>
        rw [hm] at hn
        cases hn
        rfl
  cases r with
  | «variable» v => cases op <;> exact hbind _ hc
  | number a => cases op <;> exact hbind _ hc
  | cell n =>
      cases op with
      | add =>
          cases hc
          exact hadd n
      | sub => exact hbind _ hc
      | mul => exact hmul n hc
      | div => exact hbind _ hc

/-! ### Programs -/

/-- A step of a program: a cell of its own for what a name stands for, for what an operator gives, or
for an opposite; or an operator that changes a cell. -/
inductive Step (α : Type) where
  | make (r : Reference α)
  | compute (op : Arithmetic) (a b : Reference α)
  | negate (a : Reference α)
  | change (op : Arithmetic) (target : Nat) (r : Reference α)

/-- The cells after a step, or why it is refused. -/
def perform (cs : Cells α) : Step α → Except (Fault α) (Cells α)
  | .make r => return cs.push (r.operand cs).asExpression
  | .compute op a b => return cs.push (← (a.operand cs).operate op (b.operand cs))
  | .negate a => return cs.push (a.operand cs).negate
  | .change op target r => cs.change op target r

/-- The cells after the attempt at a step; a step that is refused leaves them as they were. -/
def attempt (cs : Cells α) (step : Step α) : Cells α :=
  match cs.perform step with
  | .ok cs' => cs'
  | .error _ => cs

/-- The cells after a program, whatever became of its steps. -/
def run (cs : Cells α) (program : List (Step α)) : Cells α := program.foldl attempt cs

end Cells

end MixedInteger
