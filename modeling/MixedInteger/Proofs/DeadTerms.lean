/-
**Terms whose coefficient is zero.**

A sum stores no coefficient that is zero, since a total of zero takes its key along.  A product and a
quotient multiply the stored coefficients by a number, and keep what comes out.  With doubles a product of
two numbers but zero may be rounded to zero, and then a term stays that is not there: the expression is not
constant, and a product with it may be refused for its degree.  There is no other way to such a term.

Main definitions:

* `MixedInteger.Expression.Live`, `MixedInteger.Cells.Live` — no coefficient is zero;
* `MixedInteger.Expression.Loses` — some coefficient is rounded to zero by a factor;
* `MixedInteger.Cells.Step.scaled` — the coefficients that a step multiplies, and by which number.

Main results:

* `MixedInteger.Operand.live_operate` — **an operator whose factor loses nothing** makes no dead term;
* `MixedInteger.Cells.exists_loss_of_run` — the step of a program that makes the first one;
* `MixedInteger.Cells.underflow_of_dead_term` — **with doubles**, that is because a product was rounded to
  zero;
* `MixedInteger.Cells.not_always_live` — a program that makes a dead term.
-/

import MixedInteger.Expression.Cells
import MixedInteger.Proofs.Underflow
import MixedInteger.Scalar.Double

set_option autoImplicit false

namespace MixedInteger

variable {α : Type} [Scalar α]

/-- Numbers of which neither one is zero, nor an opposite if the number is not. -/
structure Scalar.HasUnits (α : Type) [Scalar α] : Prop where
  one : ((1 : α) == 0) = false
  neg : ∀ a : α, (a == 0) = false → (a * -1 == 0) = false

/-! ### Coefficients -/

namespace Coefficients

variable {κ : Type} {m : Coefficients κ α}

/-- No coefficient is zero. -/
def Live (m : Coefficients κ α) : Prop := ∀ a ∈ m.values, (a == 0) = false

theorem live_empty : (empty : Coefficients κ α).Live := by
  simp [Live, values, empty]

/-- A factor that makes no coefficient zero leaves none that is. -/
theorem live_map {c : α} (h : ∀ a ∈ m.values, (a * c == 0) = false) : (m.map (· * c)).Live := by
  intro b hb
  simp only [map, values, List.map_map, List.mem_map] at hb
  obtain ⟨t, ht, rfl⟩ := hb
  exact h t.2 (List.mem_map_of_mem ht)

variable [DecidableEq κ]

/-- A total of zero is not stored, whatever is added. -/
theorem Live.accumulate (h : m.Live) (k : κ) (c : α) : (m.accumulate k c).Live := by
  intro a ha
  obtain ⟨t, ht, rfl⟩ := List.mem_map.1 ha
  unfold Coefficients.accumulate at ht
  dsimp only at ht
  split at ht
  · exact h _ (List.mem_map_of_mem (List.mem_of_mem_filter ht))
  · next htotal =>
      rcases eq_or_mem_of_mem_insert ht with rfl | ht
      · exact Bool.eq_false_iff.2 htotal
      · exact h _ (List.mem_map_of_mem ht)

theorem Live.accumulateAll (h : m.Live) (es : List (κ × α)) : (m.accumulateAll es).Live := by
  induction es generalizing m with
  | nil => exact h
  | cons t rest ih => exact ih (h.accumulate t.1 t.2)

end Coefficients

/-! ### Expressions -/

namespace Expression

variable {e f g : Expression α} {c : α}

omit [Scalar α] in
/-- The coefficients of all terms. -/
def coefficients (e : Expression α) : List α := e.linear.values ++ e.quadratic.values

/-- No term has the coefficient zero. -/
structure Live (e : Expression α) : Prop where
  linear : e.linear.Live
  quadratic : e.quadratic.Live

theorem live_iff (e : Expression α) : e.Live ↔ ∀ a ∈ e.coefficients, (a == 0) = false :=
  ⟨fun h => List.forall_mem_append.2 ⟨h.linear, h.quadratic⟩,
    fun h => ⟨(List.forall_mem_append.1 h).1, (List.forall_mem_append.1 h).2⟩⟩

/-- Some coefficient is not zero, nor is the factor, but their product is. -/
def Loses (e : Expression α) (c : α) : Prop :=
  ∃ a ∈ e.coefficients, (a == 0) = false ∧ (c == 0) = false ∧ (a * c == 0) = true

theorem live_const (a : α) : (const a).Live := ⟨Coefficients.live_empty, Coefficients.live_empty⟩

theorem live_ofVariable (hunits : Scalar.HasUnits α) (v : Variable) :
    (ofVariable v : Expression α).Live := by
  refine ⟨?_, Coefficients.live_empty⟩
  intro a ha
  simp only [ofVariable, Coefficients.single, Coefficients.values, List.map_cons, List.map_nil,
    List.mem_singleton] at ha
  rw [ha]
  exact hunits.one

theorem Live.addConstant (he : e.Live) (a : α) : (e.addConstant a).Live :=
  ⟨he.linear, he.quadratic⟩

theorem Live.addVariable (he : e.Live) (v : Variable) (a : α) : (e.addVariable v a).Live :=
  ⟨he.linear.accumulate v a, he.quadratic⟩

theorem Live.add (he : e.Live) (f : Expression α) : (e.add f).Live :=
  ⟨he.linear.accumulateAll _, he.quadratic.accumulateAll _⟩

theorem Live.scale (he : e.Live) (hc : ¬ e.Loses c) : (e.scale c).Live := by
  unfold Expression.scale
  split
  · exact live_const 0
  · next hzero =>
      have hkept : ∀ a ∈ e.coefficients, (a * c == 0) = false := by
        intro a ha
        by_contra hlost
        exact hc ⟨a, ha, (live_iff e).1 he a ha, Bool.eq_false_iff.2 hzero,
          Bool.eq_true_of_not_eq_false hlost⟩
      obtain ⟨hlinear, hquadratic⟩ := List.forall_mem_append.1 hkept
      exact ⟨Coefficients.live_map hlinear, Coefficients.live_map hquadratic⟩

theorem Live.neg (he : e.Live) (hunits : Scalar.HasUnits α) : e.neg.Live := by
  refine he.scale ?_
  rintro ⟨a, -, ha, -, hlost⟩
  rw [hunits.neg a ha] at hlost
  cases hlost

theorem Live.product (he : e.Live) (hc : ¬ e.Loses f.constant) : (e.product f).Live :=
  ⟨(he.scale hc).linear.accumulateAll _,
    ((he.scale hc).quadratic.accumulateAll _).accumulateAll _⟩

theorem Live.mul (he : e.Live) (hc : ¬ e.Loses f.constant) (h : e.mul f = .ok g) : g.Live := by
  rw [eq_product_of_mul h]
  exact he.product hc

theorem Live.divConstant (he : e.Live) (hc : ¬ e.Loses (1 / c)) (h : e.divConstant c = .ok g) :
    g.Live := by
  unfold Expression.divConstant quotient at h
  split at h
  · cases h
  · cases h
    exact he.scale hc

theorem Live.div (he : e.Live) (hc : ¬ e.Loses (1 / f.constant)) (h : e.div f = .ok g) :
    g.Live := by
  unfold Expression.div at h
  split at h
  · exact he.divConstant hc h
  · cases h

end Expression

/-! ### Operators -/

namespace Operand

/-- The expression whose coefficients an operator multiplies, and the number that it multiplies them by.
Sums and differences do not multiply. -/
def scaled (op : Arithmetic) (a b : Operand α) : Option (Expression α × α) :=
  match op, a with
  | .mul, .number x => some (b.asExpression, x)
  | .mul, a => some (a.asExpression, b.asExpression.constant)
  | .div, a => some (a.asExpression, 1 / b.asExpression.constant)
  | _, _ => none

variable {op : Arithmetic} {a b : Operand α} {e g : Expression α}

/-- An operator with an expression on its left, whose factor loses nothing, makes no dead term. -/
theorem live_combine (he : e.Live)
    (hloss : ∀ f c, (Operand.expression e).scaled op b = some (f, c) → ¬ f.Loses c)
    (h : e.combine op b = .ok g) : g.Live := by
  cases op with
  | add =>
      cases b with
      | «variable» v =>
          cases h
          exact he.addVariable v 1
      | expression f =>
          cases h
          exact he.add f
      | number x =>
          cases h
          exact he.addConstant x
  | sub =>
      cases b with
      | «variable» v =>
          cases h
          exact he.addVariable v (-1)
      | expression f =>
          cases h
          exact he.add f.neg
      | number x =>
          cases h
          exact he.addConstant (-x)
  | mul =>
      have hc := hloss _ _ rfl
      cases b with
      | «variable» v => exact he.mul hc h
      | expression f => exact he.mul hc h
      | number x =>
          cases h
          exact he.scale hc
  | div =>
      have hc := hloss _ _ rfl
      cases b with
      | «variable» v => exact he.div hc h
      | expression f => exact he.div hc h
      | number x => exact he.divConstant hc h

/-- **An operator whose factor loses nothing makes no dead term.** -/
theorem live_operate (hunits : Scalar.HasUnits α) (ha : a.asExpression.Live)
    (hb : b.asExpression.Live) (hloss : ∀ f c, a.scaled op b = some (f, c) → ¬ f.Loses c)
    (h : a.operate op b = .ok g) : g.Live := by
  cases a with
  | «variable» v => exact live_combine ha (fun f c hs => hloss f c (by cases op <;> exact hs)) h
  | expression e => exact live_combine ha hloss h
  | number x =>
      cases op with
      | add =>
          cases h
          exact hb.addConstant x
      | sub =>
          cases h
          exact (hb.neg hunits).addConstant x
      | mul =>
          cases h
          exact hb.scale (hloss _ _ rfl)
      | div => exact ha.div (hloss _ _ rfl) h

end Operand

/-! ### Programs -/

namespace Cells

variable {cs cs' : Cells α} {step : Step α}

/-- No cell has a term with the coefficient zero. -/
def Live (cs : Cells α) : Prop := ∀ n, (cs.fetch n).Live

theorem live_empty : Live (#[] : Cells α) := fun _ => Expression.live_const 0

/-- The expression whose coefficients a step multiplies, and the number that it multiplies them by. -/
def Step.scaled (cs : Cells α) : Step α → Option (Expression α × α)
  | .compute op a b => (a.operand cs).scaled op (b.operand cs)
  | .change op target r => (Operand.expression (cs.fetch target)).scaled op (r.operand cs)
  | _ => none

theorem Live.asExpression (hcs : cs.Live) (hunits : Scalar.HasUnits α) (r : Reference α) :
    (r.operand cs).asExpression.Live := by
  cases r with
  | «variable» v => exact Expression.live_ofVariable hunits v
  | cell n => exact hcs n
  | number a => exact Expression.live_const a

theorem Live.push (hcs : cs.Live) {e : Expression α} (he : e.Live) : Live (cs.push e) := by
  intro n
  by_cases hn : n = cs.size
  · rw [hn, fetch_push_self]
    exact he
  · rw [fetch_push_of_ne hn]
    exact hcs n

theorem Live.put (hcs : cs.Live) {m : Nat} (hm : m < cs.size) {e : Expression α} (he : e.Live) :
    (cs.put m e).Live := by
  intro n
  by_cases hn : m = n
  · rw [← hn, fetch_put_self hm]
    exact he
  · rw [fetch_put_of_ne hn]
    exact hcs n

/-- A step whose factor loses nothing makes no dead term. -/
theorem Live.perform (hcs : cs.Live) (hunits : Scalar.HasUnits α)
    (hloss : ∀ e c, step.scaled cs = some (e, c) → ¬ e.Loses c) (h : cs.perform step = .ok cs') :
    cs'.Live := by
  have hlive := hcs.asExpression hunits
  cases step with
  | make r =>
      cases h
      exact hcs.push (hlive r)
  | compute op a b =>
      cases ho : (a.operand cs).operate op (b.operand cs) with
      | error f =>
          simp only [Cells.perform, ho] at h
          cases h
      | ok g =>
          simp only [Cells.perform, ho] at h
          cases h
          exact hcs.push (Operand.live_operate hunits (hlive a) (hlive b) hloss ho)
  | negate a =>
      cases h
      exact hcs.push ((hlive a).neg hunits)
  | change op target r =>
      by_cases ht : target < cs.size
      · simp only [Cells.perform, change_eq ht] at h
        cases hc : (cs.fetch target).combine op (r.operand cs) with
        | error f =>
            rw [hc] at h
            cases h
        | ok g =>
            rw [hc] at h
            cases h
            exact hcs.put ht (Operand.live_combine (hcs target) hloss hc)
      · rw [eq_of_change (Nat.not_lt.1 ht) h]
        exact hcs

theorem Live.attempt (hcs : cs.Live) (hunits : Scalar.HasUnits α)
    (hloss : ∀ e c, step.scaled cs = some (e, c) → ¬ e.Loses c) : (cs.attempt step).Live := by
  unfold Cells.attempt
  split
  · next cs' h => exact hcs.perform hunits hloss h
  · exact hcs

/-- **If a program makes a dead term, some step of it has a factor that loses a coefficient.** -/
theorem exists_loss_of_run (hunits : Scalar.HasUnits α) {program : List (Step α)} (hcs : cs.Live)
    (h : ¬ (cs.run program).Live) :
    ∃ before step after e c, program = before ++ step :: after ∧
      step.scaled (cs.run before) = some (e, c) ∧ e.Loses c := by
  induction program generalizing cs with
  | nil => exact absurd hcs h
  | cons first rest ih =>
      by_cases hloss : ∀ e c, first.scaled cs = some (e, c) → ¬ e.Loses c
      · obtain ⟨before, step, after, e, c, rfl, hscaled, hloses⟩ := ih (hcs.attempt hunits hloss) h
        exact ⟨first :: before, step, after, e, c, rfl, hscaled, hloses⟩
      · push Not at hloss
        obtain ⟨e, c, hscaled, hloses⟩ := hloss
        exact ⟨[], first, rest, e, c, rfl, hscaled, hloses⟩

/-! ### Doubles -/

theorem hasUnits_double : Scalar.HasUnits Float where
  one := by decide +kernel
  neg a ha := Binary64.mul_neg_one_ne_zero ha

/-- **With doubles, every dead term comes from an underflow**: some product or quotient before multiplied a
stored coefficient by a number, neither of them zero, and the product was rounded to zero. -/
theorem underflow_of_dead_term {program : List (Step Float)} {n : Nat} {a : Float}
    (ha : a ∈ ((run #[] program).fetch n).coefficients) (hzero : (a == 0) = true) :
    ∃ before step after e c b, program = before ++ step :: after ∧
      step.scaled (run #[] before) = some (e, c) ∧ b ∈ e.coefficients ∧
      Binary64.Underflows b c := by
  have hdead : ¬ (run #[] program).Live := by
    intro hlive
    have hne := (Expression.live_iff _).1 (hlive n) a ha
    exact absurd (hzero.symm.trans hne) (by decide)
  obtain ⟨before, step, after, e, c, hprogram, hscaled, b, hb, hb0, hc0, hbc⟩ :=
    exists_loss_of_run hasUnits_double live_empty hdead
  exact ⟨before, step, after, e, c, b, hprogram, hscaled, hb, Binary64.underflows_of_mul hb0 hc0 hbc⟩

/-- A variable times a small number, times that number again. -/
theorem underflow_of_dead_term_of_product :
    let program : List (Step Float) :=
      [.compute .mul (.variable ⟨0, 0⟩) (.number 1e-200), .change .mul 0 (.number 1e-200)]
    ∃ before step after e c b, program = before ++ step :: after ∧
      step.scaled (run #[] before) = some (e, c) ∧ b ∈ e.coefficients ∧
      Binary64.Underflows b c := by
  intro program
  have hcoefficients : ((run #[] program).fetch 0).coefficients = [0.0] := by decide +kernel
  have hmem : 0.0 ∈ ((run #[] program).fetch 0).coefficients :=
    hcoefficients ▸ List.mem_singleton_self _
  exact underflow_of_dead_term hmem (by decide +kernel)

/-- The numbers that a name stands for by itself. -/
def Reference.numbers : Reference α → List α
  | .number a => [a]
  | _ => []

/-- The numbers that a step mentions. -/
def Step.numbers : Step α → List α
  | .make r => r.numbers
  | .compute _ a b => a.numbers ++ b.numbers
  | .negate a => a.numbers
  | .change _ _ r => r.numbers

/-- **A program may make a dead term** although every number in it, and every number that it stores on the
way, is finite. -/
theorem not_always_live :
    ¬ ∀ program : List (Step Float),
      (∀ step ∈ program, ∀ a ∈ step.numbers, a.isFinite = true) →
      (∀ k, ∀ e ∈ (run #[] (program.take k)).toList, ∀ a ∈ e.constant :: e.coefficients,
        a.isFinite = true) →
      (run #[] program).Live := by
  intro hlive
  let program : List (Step Float) :=
    [.compute .mul (.variable ⟨0, 0⟩) (.number 1e-200), .change .mul 0 (.number 1e-200)]
  have hmentioned : ∀ step ∈ program, ∀ a ∈ step.numbers, a.isFinite = true := by decide +kernel
  have hstored : ∀ k, ∀ e ∈ (run #[] (program.take k)).toList, ∀ a ∈ e.constant :: e.coefficients,
      a.isFinite = true := by
    intro k
    match k with
    | 0 => decide +kernel
    | 1 => decide +kernel
    | k + 2 =>
        have htake : program.take (k + 2) = program := List.take_of_length_le (Nat.le_add_left 2 k)
        rw [htake]
        decide +kernel
  have hcoefficients : ((run #[] program).fetch 0).coefficients = [0.0] := by decide +kernel
  have hmem : 0.0 ∈ ((run #[] program).fetch 0).coefficients :=
    hcoefficients ▸ List.mem_singleton_self _
  have hne := (Expression.live_iff _).1 (hlive program hmentioned hstored 0) 0.0 hmem
  exact absurd hne (by decide +kernel)

end Cells

end MixedInteger
