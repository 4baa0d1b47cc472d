/-
**Multiplication in place, statement by statement.**

A cell is multiplied by statements that follow each other, each of which changes the cell for good: if
a later one fails, what the earlier ones did is still there.  Nothing is lost by that, because the
degrees are looked at in front of the first change and no statement behind it can fail.

Main definitions:

* `MixedInteger.Cells.Procedure` — statements on cells, any of which may fail;
* `MixedInteger.Cells.multiply` — multiplies a cell by another.

Main results:

* `MixedInteger.Cells.execute_multiply` — **multiplication in place is all or nothing**;
* `MixedInteger.Cells.cells_of_multiply` — it is the step of a program of its name.
-/

import MixedInteger.Expression.Cells

set_option autoImplicit false

namespace MixedInteger.Cells

variable {α : Type}

/-- Statements on cells, any of which may fail.  The cells are as far as they got, also then. -/
abbrev Procedure (α β : Type) := ExceptT (Fault α) (StateM (Cells α)) β

variable [Scalar α]

/-! ### Statements -/

/-- Changes a cell by a function. -/
def amend (n : Nat) (f : Expression α → Expression α) : Procedure α Unit :=
  modify fun cs => cs.update n f

/-- Refuses a product whose degree would exceed two. -/
def checkDegrees (e f : Expression α) : Procedure α Unit := do
  if e.isQuadratic && f.isQuadratic then throw (.quarticProduct e f)
  if (e.isQuadratic && !f.linear.isEmpty) || (!e.linear.isEmpty && f.isQuadratic) then
    throw (.cubicProduct e f)

/-- Adds linear terms to a cell, one after the other. -/
def addLinearTerms (n : Nat) (ts : List (Variable × α)) : Procedure α Unit :=
  forM ts fun t => amend n fun e => { e with linear := e.linear.accumulate t.1 t.2 }

/-- Adds products of two variables to a cell, one after the other. -/
def addPairTerms (n : Nat) (ts : List (VariablePair × α)) : Procedure α Unit :=
  forM ts fun t => amend n fun e => { e with quadratic := e.quadratic.accumulate t.1 t.2 }

/-- Multiplies a cell by another, which is read anew for every statement unless it is the cell itself:
then a copy made in front of the first one is read. -/
def multiply (target source : Nat) : Procedure α Unit := do
  let before := (← get).fetch target
  let factor : Procedure α (Expression α) :=
    if source = target then return before else return (← get).fetch source
  checkDegrees before (← factor)
  let scaling := (← factor).constant
  amend target (·.scale scaling)
  addLinearTerms target ((← factor).linear.entries.map fun x => (x.1, before.constant * x.2))
  addPairTerms target ((← factor).quadratic.entries.map fun x => (x.1, before.constant * x.2))
  addPairTerms target (Expression.crossTerms before (← factor))

/-! ### What the statements do -/

/-- The outcome of a procedure, and the cells as it leaves them. -/
def Procedure.execute {β : Type} (p : Procedure α β) (cs : Cells α) :
    Except (Fault α) β × Cells α := p.run.run cs

omit [Scalar α] in
/-- What follows a procedure that does not fail starts where that left the cells. -/
theorem execute_bind {β γ : Type} {p : Procedure α β} {f : β → Procedure α γ} {cs cs' : Cells α}
    {b : β} (h : p.execute cs = (.ok b, cs')) : (p >>= f).execute cs = (f b).execute cs' := by
  simp only [Procedure.execute, ExceptT.run_bind, StateT.run_bind] at h ⊢
  rw [h]
  rfl

omit [Scalar α] in
/-- Nothing follows a procedure that fails. -/
theorem execute_bind_of_error {β γ : Type} {p : Procedure α β} {f : β → Procedure α γ}
    {cs cs' : Cells α} {fault : Fault α} (h : p.execute cs = (.error fault, cs')) :
    (p >>= f).execute cs = (.error fault, cs') := by
  simp only [Procedure.execute, ExceptT.run_bind, StateT.run_bind] at h ⊢
  rw [h]
  rfl

/-- Looking at the degrees finds what the product would fail with, and changes nothing. -/
theorem execute_checkDegrees (e f : Expression α) (cs : Cells α) :
    (checkDegrees e f).execute cs = ((e.mul f).map fun _ => (), cs) := by
  unfold checkDegrees Expression.mul
  by_cases hq : (e.isQuadratic && f.isQuadratic) = true
  · simp only [hq, ↓reduceIte]
    rfl
  · by_cases hc : ((e.isQuadratic && !f.linear.isEmpty) || (!e.linear.isEmpty && f.isQuadratic)) = true
    · simp only [hq, hc, ↓reduceIte]
      rfl
    · simp only [hq, hc]
      rfl

/-- Putting back what a cell holds changes nothing. -/
theorem put_fetch_self {cs : Cells α} {n : Nat} (h : n < cs.size) : cs.put n (cs.fetch n) = cs := by
  apply Array.ext
  · exact size_put cs n _
  · intro m hm hm'
    by_cases hnm : n = m
    · subst hnm
      simp [put, fetch, h]
    · simp [put, Array.getElem_setIfInBounds_ne hm' hnm]

/-- Changes of one cell, one after the other, are one change of it. -/
theorem execute_forM_amend {β : Type} {cs : Cells α} {n : Nat} (hn : n < cs.size)
    (f : β → Expression α → Expression α) (xs : List β) :
    (forM xs fun x => amend n (f x)).execute cs =
      (.ok (), cs.put n (xs.foldl (fun e x => f x e) (cs.fetch n))) := by
  induction xs generalizing cs with
  | nil =>
      rw [List.foldl_nil, put_fetch_self hn]
      rfl
  | cons x rest ih =>
      have hx : (amend n (f x)).execute cs = (.ok (), cs.put n (f x (cs.fetch n))) := rfl
      have hsize : n < (cs.put n (f x (cs.fetch n))).size := by rwa [size_put]
      rw [List.forM_cons, execute_bind hx, ih hsize, fetch_put_self hn, put_put]
      rfl

theorem execute_addLinearTerms {cs : Cells α} {n : Nat} (hn : n < cs.size)
    (ts : List (Variable × α)) :
    (addLinearTerms n ts).execute cs =
      (.ok (), cs.update n fun e => { e with linear := e.linear.accumulateAll ts }) := by
  have hfold : ∀ e : Expression α,
      ts.foldl (fun e t => { e with linear := e.linear.accumulate t.1 t.2 }) e =
        { e with linear := e.linear.accumulateAll ts } := by
    induction ts with
    | nil => exact fun _ => rfl
    | cons t rest ih => exact fun e => ih _
  rw [addLinearTerms, execute_forM_amend hn, hfold]
  rfl

theorem execute_addPairTerms {cs : Cells α} {n : Nat} (hn : n < cs.size)
    (ts : List (VariablePair × α)) :
    (addPairTerms n ts).execute cs =
      (.ok (), cs.update n fun e => { e with quadratic := e.quadratic.accumulateAll ts }) := by
  have hfold : ∀ e : Expression α,
      ts.foldl (fun e t => { e with quadratic := e.quadratic.accumulate t.1 t.2 }) e =
        { e with quadratic := e.quadratic.accumulateAll ts } := by
    induction ts with
    | nil => exact fun _ => rfl
    | cons t rest ih => exact fun e => ih _
  rw [addPairTerms, execute_forM_amend hn, hfold]
  rfl

/-- **Multiplication in place is all or nothing**: the cell holds the product of what both held, or the
degrees did not allow it and no cell has changed. -/
theorem execute_multiply {cs : Cells α} {target : Nat} (h : target < cs.size) (source : Nat) :
    (multiply target source).execute cs =
      match (cs.fetch target).mul (cs.fetch source) with
      | .ok g => (.ok (), cs.put target g)
      | .error fault => (.error fault, cs) := by
  let before := cs.fetch target
  let factor : Procedure α (Expression α) :=
    if source = target then return before else return (← get).fetch source
  -- whichever way the factor is read, it is what the source held in the first place
  have hfactor : ∀ e : Expression α,
      factor.execute (cs.put target e) = (.ok (cs.fetch source), cs.put target e) := by
    intro e
    by_cases hs : source = target
    · simp only [factor, hs, ↓reduceIte]
      rfl
    · simp only [factor, hs, ↓reduceIte]
      rw [← fetch_put_of_ne (Ne.symm hs) e]
      rfl
  have hfirst : factor.execute cs = (.ok (cs.fetch source), cs) := by
    have hf := hfactor before
    rwa [put_fetch_self h] at hf
  have hread : Procedure.execute get cs = (.ok cs, cs) := rfl
  have hcheck := execute_checkDegrees before (cs.fetch source) cs
  rw [multiply, execute_bind hread, execute_bind hfirst]
  cases hm : before.mul (cs.fetch source) with
  | error fault =>
      rw [hm] at hcheck
      exact execute_bind_of_error hcheck
  | ok g =>
      rw [hm] at hcheck
      have hsize : ∀ e : Expression α, target < (cs.put target e).size := by
        intro e
        rwa [size_put]
      have hscale : (amend target (·.scale (cs.fetch source).constant)).execute cs =
          (.ok (), cs.put target (before.scale (cs.fetch source).constant)) := rfl
      -- every statement finds the cells as the one in front of it left them
      rw [execute_bind hcheck, execute_bind hfirst, execute_bind hscale, execute_bind (hfactor _),
        execute_bind (execute_addLinearTerms (hsize _) _), update, fetch_put_self h, put_put,
        execute_bind (hfactor _), execute_bind (execute_addPairTerms (hsize _) _), update,
        fetch_put_self h, put_put, execute_bind (hfactor _), execute_addPairTerms (hsize _), update,
        fetch_put_self h, put_put, Expression.eq_product_of_mul hm]
      rfl

/-- Multiplication in place fails as the product does. -/
theorem execute_multiply_eq_error_iff {cs : Cells α} {target : Nat} (h : target < cs.size)
    (source : Nat) (fault : Fault α) :
    (multiply target source).execute cs = (.error fault, cs) ↔
      (cs.fetch target).mul (cs.fetch source) = .error fault := by
  rw [execute_multiply h]
  cases (cs.fetch target).mul (cs.fetch source) with
  | error other => simp
  | ok g => simp

theorem execute_multiply_of_ok {cs : Cells α} {target : Nat} (h : target < cs.size) {source : Nat}
    {g : Expression α} (hg : (cs.fetch target).mul (cs.fetch source) = .ok g) :
    (multiply target source).execute cs = (.ok (), cs.put target g) := by
  rw [execute_multiply h, hg]

/-- So the statements leave the cells as the attempt to change one cell by another does. -/
theorem cells_of_multiply {cs : Cells α} {target : Nat} (h : target < cs.size) (source : Nat) :
    ((multiply target source).execute cs).2 = cs.attempt (.change .mul target (.cell source)) := by
  have hchange : cs.perform (.change .mul target (.cell source)) =
      ((cs.fetch target).mul (cs.fetch source)).map (cs.put target) := multiplyBy_eq h source
  rw [execute_multiply h, attempt, hchange]
  cases (cs.fetch target).mul (cs.fetch source) with
  | error fault => rfl
  | ok g => rfl

end MixedInteger.Cells
