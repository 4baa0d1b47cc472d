/-
**Expressions.**

An expression is a polynomial of degree at most two over variables: a constant, linear coefficients
and coefficients of products of two variables.  The operations here never fail; multiplication and
division, which may, are in `Expression/Product.lean`.

Main definitions:

* `MixedInteger.Expression` — expressions;
* `MixedInteger.Expression.add`, `MixedInteger.Expression.scale`, `MixedInteger.Expression.neg`,
  `MixedInteger.Expression.sub` — arithmetic that keeps the degree;
* `MixedInteger.Expression.vars` — the variables that occur, in their order;
* `MixedInteger.Expression.store?`, `MixedInteger.Expression.infinity` — the store of the first
  variable and the infinity that its bounds are measured against.
-/

import MixedInteger.Coefficients
import MixedInteger.Variable

set_option autoImplicit false

namespace MixedInteger

/-- A polynomial of degree at most two. -/
structure Expression (α : Type) where
  constant : α
  linear : Coefficients Variable α
  quadratic : Coefficients VariablePair α

namespace Expression

variable {α : Type}

/-! ### Shape -/

/-- No variable occurs. -/
def isConstant (e : Expression α) : Bool := e.linear.isEmpty && e.quadratic.isEmpty

/-- No product of variables occurs. -/
def isLinear (e : Expression α) : Bool := e.quadratic.isEmpty

/-- A product of variables occurs. -/
def isQuadratic (e : Expression α) : Bool := !e.quadratic.isEmpty

theorem isQuadratic_eq_not_isLinear (e : Expression α) : e.isQuadratic = !e.isLinear := rfl

theorem entries_of_isLinear {e : Expression α} (h : e.isLinear = true) : e.quadratic.entries = [] :=
  List.isEmpty_iff.1 h

/-- The variables that occur, each once, in their order. -/
def vars (e : Expression α) : List Variable :=
  Variable.sort (e.linear.keys ++ e.quadratic.keys.flatMap VariablePair.toList).eraseDups

/-- A variable occurs if it has a coefficient, by itself or in a product. -/
theorem mem_vars_iff (e : Expression α) (v : Variable) :
    v ∈ e.vars ↔ v ∈ e.linear.keys ∨ ∃ p ∈ e.quadratic.keys, v = p.first ∨ v = p.second := by
  simp [vars, Variable.sort, List.mem_eraseDups, VariablePair.toList]

/-- The variables in the order of the terms, each as often as it occurs. -/
def occurrences (e : Expression α) : List Variable :=
  e.linear.keys ++ e.quadratic.keys.flatMap VariablePair.toList

theorem mem_occurrences_iff (e : Expression α) (v : Variable) : v ∈ e.occurrences ↔ v ∈ e.vars := by
  simp [occurrences, vars, Variable.sort, List.mem_eraseDups]

/-- A variable that has a coefficient by itself occurs. -/
theorem mem_vars_of_mem_linear {e : Expression α} {v : Variable} (h : v ∈ e.linear.keys) :
    v ∈ e.vars :=
  (mem_vars_iff e v).2 (Or.inl h)

/-- Both variables of a product that has a coefficient occur. -/
theorem mem_vars_of_mem_quadratic {e : Expression α} {p : VariablePair}
    (h : p ∈ e.quadratic.keys) : p.first ∈ e.vars ∧ p.second ∈ e.vars :=
  ⟨(mem_vars_iff e _).2 (Or.inr ⟨p, h, Or.inl rfl⟩),
    (mem_vars_iff e _).2 (Or.inr ⟨p, h, Or.inr rfl⟩)⟩

/-- How many variables occur. -/
def arity (e : Expression α) : Nat := e.vars.length

/-- The store of the first variable that occurs; linear terms come first. -/
def store? (e : Expression α) : Option Nat :=
  match e.linear.keys with
  | v :: _ => some v.store
  | [] => e.quadratic.keys.head?.map (·.first.store)

/-- One function on the constant and on every coefficient. -/
def map {β : Type} (f : α → β) (e : Expression α) : Expression β :=
  ⟨f e.constant, e.linear.map f, e.quadratic.map f⟩

@[simp] theorem isConstant_map {β : Type} (f : α → β) (e : Expression α) :
    (e.map f).isConstant = e.isConstant := by
  simp [isConstant, map]

/-! ### Building -/

/-- A number. -/
def const (a : α) : Expression α := ⟨a, .empty, .empty⟩

/-- A number and a multiple of a variable. -/
def affine (a b : α) (v : Variable) : Expression α := ⟨a, .single v b, .empty⟩

theorem mem_vars_affine (a b : α) (v w : Variable) : w ∈ (affine a b v).vars ↔ w = v := by
  simp [mem_vars_iff, affine, Coefficients.keys, Coefficients.single, Coefficients.empty]

@[simp] theorem isConstant_const (a : α) : (const a).isConstant = true := rfl

variable [Scalar α]

/-- The infinity of the store of the first variable; a constant has the carrier's own. -/
def infinity (env : Environment α) (e : Expression α) : α :=
  if e.isConstant then Scalar.infinity
  else e.store?.elim Scalar.infinity env.infinity

/-- A variable. -/
def ofVariable (v : Variable) : Expression α := ⟨0, .single v 1, .empty⟩

instance : Inhabited (Expression α) := ⟨const 0⟩

/-! ### Arithmetic that keeps the degree -/

/-- Adds a number. -/
def addConstant (e : Expression α) (a : α) : Expression α :=
  { e with constant := e.constant + a }

/-- Adds a multiple of a variable. -/
def addVariable (e : Expression α) (v : Variable) (c : α) : Expression α :=
  { e with linear := e.linear.accumulate v c }

/-- The sum, the terms of the second expression coming after those of the first. -/
def add (e f : Expression α) : Expression α where
  constant := e.constant + f.constant
  linear := e.linear.accumulateAll f.linear.entries
  quadratic := e.quadratic.accumulateAll f.quadratic.entries

/-- The multiple by a number; zero leaves nothing. -/
def scale (e : Expression α) (c : α) : Expression α :=
  if c == 0 then const 0
  else
    { constant := e.constant * c
      linear := e.linear.map (· * c)
      quadratic := e.quadratic.map (· * c) }

/-- The opposite expression. -/
def neg (e : Expression α) : Expression α := e.scale (-1)

/-- The difference. -/
def sub (e f : Expression α) : Expression α := e.add f.neg

@[simp] theorem constant_add (e f : Expression α) :
    (e.add f).constant = e.constant + f.constant := rfl

theorem scale_of_eq_zero (e : Expression α) {c : α} (h : (c == 0) = true) :
    e.scale c = const 0 := by simp [scale, h]

theorem isLinear_scale (e : Expression α) (c : α) (h : e.isLinear = true) :
    (e.scale c).isLinear = true := by
  unfold scale
  split
  · rfl
  · simpa [isLinear] using h

theorem isLinear_neg (e : Expression α) (h : e.isLinear = true) : e.neg.isLinear = true :=
  isLinear_scale e _ h

/-- Taking a linear expression away leaves the products as they are. -/
theorem quadratic_sub (e : Expression α) {f : Expression α} (h : f.isLinear = true) :
    (e.sub f).quadratic = e.quadratic := by
  simp only [sub, add, entries_of_isLinear (isLinear_neg f h)]
  rfl

theorem isLinear_sub {e f : Expression α} (he : e.isLinear = true) (hf : f.isLinear = true) :
    (e.sub f).isLinear = true := by
  rwa [isLinear, quadratic_sub e hf]

/-! ### The variables of sums -/

/-- A multiple has no other variables. -/
theorem mem_vars_of_mem_scale {e : Expression α} {c : α} {v : Variable}
    (h : v ∈ (e.scale c).vars) : v ∈ e.vars := by
  unfold scale at h
  split at h
  · simp [mem_vars_iff, const, Coefficients.keys, Coefficients.empty] at h
  · simpa [mem_vars_iff] using h

/-- A sum has the variables of its parts only. -/
theorem mem_or_mem_vars_of_mem_add {e f : Expression α} {v : Variable}
    (h : v ∈ (e.add f).vars) : v ∈ e.vars ∨ v ∈ f.vars := by
  rcases (mem_vars_iff _ v).1 h with h | ⟨p, hp, hv⟩
  · exact (Coefficients.mem_or_mem_of_mem_accumulateAll h).imp mem_vars_of_mem_linear
      mem_vars_of_mem_linear
  · exact (Coefficients.mem_or_mem_of_mem_accumulateAll hp).imp
      (fun h => (mem_vars_iff e v).2 (Or.inr ⟨p, h, hv⟩))
      (fun h => (mem_vars_iff f v).2 (Or.inr ⟨p, h, hv⟩))

theorem mem_or_mem_vars_of_mem_sub {e f : Expression α} {v : Variable}
    (h : v ∈ (e.sub f).vars) : v ∈ e.vars ∨ v ∈ f.vars :=
  (mem_or_mem_vars_of_mem_add h).imp_right mem_vars_of_mem_scale

end Expression

end MixedInteger
