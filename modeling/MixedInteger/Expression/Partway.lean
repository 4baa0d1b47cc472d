/-
**Changes of an expression that may stop on the way.**

Coefficients may be whole numbers that no double comes near.  A change that needs the double of such a
number stops there, and what was changed before stays changed.  A change that does not stop is the
operation of its name.

Main definitions:

* `MixedInteger.Expression.hasDoubles` — every coefficient has a double;
* `MixedInteger.Expression.Change` — how far a change got, and why it stopped;
* `MixedInteger.Expression.increase`, `MixedInteger.Expression.decrease`,
  `MixedInteger.Expression.multiply`, `MixedInteger.Expression.multiplyAll`,
  `MixedInteger.Expression.divide` — the changes.

Main results:

* `MixedInteger.Expression.increase_eq_add`, `MixedInteger.Expression.multiplyAll_eq_scale`,
  `MixedInteger.Expression.multiply_eq_product` — changes that do not stop.
-/

import MixedInteger.Expression.Product
import MixedInteger.Scalar.Number

set_option autoImplicit false

namespace MixedInteger.Expression

/-- Whether every coefficient has a double.  Only then do the texts of an expression, and its bounds,
exist. -/
def hasDoubles (e : Expression Number) : Bool :=
  e.constant.hasDouble && e.linear.all Number.hasDouble && e.quadratic.all Number.hasDouble

/-- How far a change got, and why it got no further. -/
structure Change where
  reached : Expression Number
  fault : Option (Fault Number)

namespace Change

/-- A change that does not stop. -/
def complete (e : Expression Number) : Change := ⟨e, none⟩

/-- A change that stops if a condition does not hold. -/
def completeIf (b : Bool) (e : Expression Number) : Change :=
  ⟨e, if b then none else some (.number .overflow)⟩

/-- A change that is refused before anything is changed. -/
def refused (e : Expression Number) (f : Fault Number) : Change := ⟨e, some f⟩

/-- What a change comes to when nothing less than all of it will do. -/
def result (c : Change) : Except (Fault Number) (Expression Number) :=
  match c.fault with
  | none => return c.reached
  | some f => throw f

theorem of_result {c : Change} {e : Expression Number} (h : c.result = .ok e) :
    c.fault = none ∧ c.reached = e := by
  unfold result at h
  cases hf : c.fault with
  | none =>
      rw [hf] at h
      cases h
      exact ⟨rfl, rfl⟩
  | some f =>
      rw [hf] at h
      cases h

theorem fault_completeIf {b : Bool} {e : Expression Number} (h : (completeIf b e).fault = none) :
    b = true := by
  by_cases hb : b = true
  · exact hb
  · simp [completeIf, hb] at h

end Change

/-! ### Sums -/

/-- Whether an entry can be added to coefficients. -/
def isAddable {κ : Type} [DecidableEq κ] (m : Coefficients κ Number) (t : κ × Number) : Bool :=
  ((m.get? t.1).getD 0).addsTo t.2

/-- Adds an expression. -/
def increase (e f : Expression Number) : Change :=
  let isHalfDone := f.linear.entries.all (isAddable e.linear)
  let ls := f.linear.entries.takeWhile (isAddable e.linear)
  let qs := if isHalfDone then f.quadratic.entries.takeWhile (isAddable e.quadratic) else []
  .completeIf (isHalfDone && f.quadratic.entries.all (isAddable e.quadratic))
    ⟨e.constant + f.constant, e.linear.accumulateAll ls, e.quadratic.accumulateAll qs⟩

theorem takeWhile_of_all {β : Type} {p : β → Bool} {xs : List β} (h : xs.all p = true) :
    xs.takeWhile p = xs := by
  induction xs with
  | nil => rfl
  | cons x rest ih =>
      simp only [List.all_cons, Bool.and_eq_true] at h
      rw [List.takeWhile_cons, h.1, ih h.2]
      rfl

theorem increase_eq_add {e f : Expression Number} (h : (increase e f).fault = none) :
    (increase e f).reached = e.add f := by
  obtain ⟨hl, hq⟩ := (Bool.and_eq_true _ _).mp (Change.fault_completeIf h)
  simp [increase, Change.completeIf, hl, takeWhile_of_all hl, takeWhile_of_all hq, add]

/-- Adds a multiple of a variable. -/
def increaseBy (e : Expression Number) (v : Variable) (c : Number) : Change :=
  if ((e.linear.get? v).getD 0).addsTo c then .complete (e.addVariable v c)
  else .refused e (.number .overflow)

theorem addVariable_of_increaseBy {e : Expression Number} {v : Variable} {c : Number}
    (h : (increaseBy e v c).fault = none) : (increaseBy e v c).reached = e.addVariable v c := by
  unfold increaseBy at h ⊢
  split at h
  · next hc => rw [if_pos hc]; rfl
  · cases h

/-! ### Multiples -/

/-- Multiplies every term by a double. -/
def multiplyAll (e : Expression Number) (c : Float) : Change :=
  let x := Number.real c
  if x == 0 then .complete (const 0)
  else
    let isHalfDone := e.linear.all Number.hasDouble
    let isDone := isHalfDone && e.quadratic.all Number.hasDouble
    .completeIf isDone
      { constant := if isDone then e.constant * x else e.constant
        linear := e.linear.mapWhile Number.hasDouble (· * x)
        quadratic :=
          if isHalfDone then e.quadratic.mapWhile Number.hasDouble (· * x) else e.quadratic }

theorem multiplyAll_eq_scale {e : Expression Number} {c : Float}
    (h : (multiplyAll e c).fault = none) : (multiplyAll e c).reached = e.scale (.real c) := by
  unfold multiplyAll at h ⊢
  unfold scale
  by_cases hc : (Number.real c == 0) = true
  · simp only [hc, ↓reduceIte]
    rfl
  · simp only [hc] at h ⊢
    have hd := Change.fault_completeIf h
    obtain ⟨hl, hq⟩ := (Bool.and_eq_true _ _).mp hd
    simp [Change.completeIf, hl, hq, Coefficients.mapWhile_of_all]

/-- The opposite of an expression. -/
def oppose (e : Expression Number) : Change := multiplyAll e (-1.0)

theorem oppose_eq_neg {e : Expression Number} (h : (oppose e).fault = none) :
    (oppose e).reached = e.neg := multiplyAll_eq_scale h

/-- Takes an expression away.  Its opposite is made first. -/
def decrease (e f : Expression Number) : Change :=
  let g := oppose f
  match g.fault with
  | none => increase e g.reached
  | some fault => .refused e fault

theorem decrease_eq_sub {e f : Expression Number} (h : (decrease e f).fault = none) :
    (decrease e f).reached = e.sub f := by
  unfold decrease at h ⊢
  cases ho : (oppose f).fault with
  | some fault => simp [ho, Change.refused] at h
  | none =>
      simp only [ho] at h ⊢
      rw [increase_eq_add h, oppose_eq_neg ho]
      rfl

/-! ### Products -/

/-- Adds the products of linear terms one after the other, up to the first one that is missing. -/
def increaseProducts (m : Coefficients VariablePair Number) :
    List ((Variable × Number) × (Variable × Number)) → Coefficients VariablePair Number × Bool
  | [] => (m, true)
  | (x, y) :: rest =>
    if x.2.timesFits y.2 then
      increaseProducts (m.accumulate (.of x.1 y.1) (x.2 * y.2)) rest
    else (m, false)

theorem increaseProducts_of_done {m : Coefficients VariablePair Number}
    {ts : List ((Variable × Number) × (Variable × Number))}
    (h : (increaseProducts m ts).2 = true) :
    (increaseProducts m ts).1 =
      m.accumulateAll (ts.map fun t => (VariablePair.of t.1.1 t.2.1, t.1.2 * t.2.2)) := by
  induction ts generalizing m with
  | nil => rfl
  | cons t rest ih =>
      obtain ⟨x, y⟩ := t
      unfold increaseProducts at h ⊢
      by_cases ht : x.2.timesFits y.2 = true
      · simp only [ht, ↓reduceIte] at h ⊢
        rw [ih h]
        rfl
      · simp [ht] at h

/-- All pairs of linear terms of two expressions, those of the first one in the outer place. -/
def linearPairs (e f : Expression Number) : List ((Variable × Number) × (Variable × Number)) :=
  e.linear.entries.flatMap fun x => f.linear.entries.map fun y => (x, y)

theorem map_linearPairs (e f : Expression Number) :
    (linearPairs e f).map (fun t => (VariablePair.of t.1.1 t.2.1, t.1.2 * t.2.2)) =
      crossTerms e f := by
  simp [linearPairs, crossTerms, List.map_flatMap, List.map_map, Function.comp_def]

/-- Whether the coefficient of an entry has a double. -/
def isDoubled {κ : Type} (t : κ × Number) : Bool := t.2.hasDouble

/-- Entries with every coefficient multiplied by a number. -/
def timesEntries {κ : Type} (c : Number) (es : List (κ × Number)) : List (κ × Number) :=
  es.map fun t => (t.1, c * t.2)

/-- Multiplies by an expression, the degrees allowing it. -/
def multiply (e f : Expression Number) : Change :=
  let scaled := multiplyAll e f.constant.toFloat
  match scaled.fault with
  | some _ => scaled
  | none =>
    let s := scaled.reached
    let isHalfDone := f.linear.entries.all isDoubled
    let isNearlyDone := isHalfDone && f.quadratic.entries.all isDoubled
    let ls := f.linear.entries.takeWhile isDoubled
    let qs := if isHalfDone then f.quadratic.entries.takeWhile isDoubled else []
    let quadratic := s.quadratic.accumulateAll (timesEntries e.constant qs)
    let products :=
      if isNearlyDone then increaseProducts quadratic (linearPairs e f) else (quadratic, false)
    .completeIf products.2
      ⟨s.constant, s.linear.accumulateAll (timesEntries e.constant ls), products.1⟩

/-- Multiplies by an expression, unless the degree of the product exceeds two. -/
def multiplyBy (e f : Expression Number) : Change :=
  match mul e f with
  | .error fault => .refused e fault
  | .ok _ => multiply e f

theorem multiply_eq_product {e f : Expression Number} (hf : f.constant = .real f.constant.toFloat)
    (h : (multiply e f).fault = none) : (multiply e f).reached = product e f := by
  unfold multiply at h ⊢
  cases hs : (multiplyAll e f.constant.toFloat).fault with
  | some fault => simp [hs] at h
  | none =>
      have hscale := multiplyAll_eq_scale hs
      rw [← hf] at hscale
      simp only [hs] at h ⊢
      have hd := Change.fault_completeIf h
      by_cases hn : (f.linear.entries.all isDoubled && f.quadratic.entries.all isDoubled) = true
      · obtain ⟨hl, hq⟩ := (Bool.and_eq_true _ _).mp hn
        simp only [hl, hq, Bool.and_self, ↓reduceIte, takeWhile_of_all hl, takeWhile_of_all hq,
          hscale, Change.completeIf] at hd ⊢
        rw [increaseProducts_of_done hd, map_linearPairs]
        rfl
      · simp [hn] at hd

theorem mul_of_multiplyBy {e f : Expression Number} (hf : f.constant = .real f.constant.toFloat)
    (h : (multiplyBy e f).fault = none) : e.mul f = .ok (multiplyBy e f).reached := by
  unfold multiplyBy at h ⊢
  cases hm : e.mul f with
  | error fault => simp [hm, Change.refused] at h
  | ok g =>
      simp only [hm] at h ⊢
      rw [multiply_eq_product hf h, eq_product_of_mul hm]

/-! ### Quotients -/

/-- Divides by a double. -/
def divide (e : Expression Number) (c : Float) : Change :=
  match quotient 1 c with
  | .ok x => multiplyAll e x
  | .error _ => .refused e (.number .divisionByZero)

theorem divConstant_of_divide {e : Expression Number} {c : Float}
    (h : (divide e c).fault = none) : e.divConstant (.real c) = .ok (divide e c).reached := by
  unfold divide at h ⊢
  cases hq : quotient (1 : Float) c with
  | error fault => simp [hq, Change.refused] at h
  | ok x =>
      simp only [hq] at h ⊢
      have hn : quotient (1 : Number) (.real c) = .ok (.real x) := by
        unfold quotient at hq
        split at hq
        · cases hq
        · next hz =>
            cases hq
            exact if_neg hz
      rw [divConstant, hn, multiplyAll_eq_scale h]
      rfl

/-- Divides by an expression, which has to be constant. -/
def divideBy (e f : Expression Number) : Change :=
  if f.isConstant then divide e f.constant.toFloat else .refused e (.variableDivisor e f)

theorem div_of_divideBy {e f : Expression Number} (hf : f.constant = .real f.constant.toFloat)
    (h : (divideBy e f).fault = none) : e.div f = .ok (divideBy e f).reached := by
  unfold divideBy at h ⊢
  unfold div
  by_cases hc : f.isConstant = true
  · simp only [hc, ↓reduceIte] at h ⊢
    rw [hf]
    exact divConstant_of_divide h
  · simp [hc, Change.refused] at h

end MixedInteger.Expression
