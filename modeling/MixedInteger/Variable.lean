/-
**Variables.**

A variable is named by the store that owns it and by its slot there; what it is like at the moment —
its kind, its bounds, its name — is looked up in an environment, so that an expression that mentions
it follows every later change.

Variables are ordered by slot, then by store.  A product of two variables is an unordered pair, kept
in that order, so that `x * y` and `y * x` are one key.

Main definitions:

* `MixedInteger.Variable`, `MixedInteger.VariablePair` — variables and unordered pairs of them;
* `MixedInteger.VariablePair.of` — the pair of two variables in either order;
* `MixedInteger.Attributes`, `MixedInteger.Environment` — what is known of the variables at a moment;
* `MixedInteger.Environment.label` — the text by which a variable is called.

Main results:

* `MixedInteger.VariablePair.of_comm` — **a pair has no order**.
-/

import MixedInteger.Scalar.Basic

set_option autoImplicit false

namespace MixedInteger

/-! ### Kinds -/

/-- The values that a variable may take between its bounds. -/
inductive Kind where
  | continuous
  | binary
  | integer
  deriving Repr, DecidableEq

/-- The word for a kind. -/
def Kind.word : Kind → String
  | continuous => "continuous"
  | binary => "binary"
  | integer => "integer"

/-- The kinds in the order of their declaration. -/
def Kind.all : List Kind := [continuous, binary, integer]

/-- The kind that a word stands for. -/
def Kind.ofWord? (w : String) : Option Kind := all.find? (·.word == w)

theorem Kind.ofWord?_word (k : Kind) : ofWord? k.word = some k := by cases k <;> rfl

/-! ### Variables and their order -/

/-- A variable: the store that owns it and its slot in that store. -/
structure Variable where
  store : Nat
  slot : Nat
  deriving Repr, DecidableEq

/-- The order of variables: by slot, then by store. -/
def Variable.before (v w : Variable) : Prop :=
  v.slot < w.slot ∨ (v.slot = w.slot ∧ v.store < w.store)

instance (v w : Variable) : Decidable (v.before w) :=
  inferInstanceAs (Decidable (v.slot < w.slot ∨ (v.slot = w.slot ∧ v.store < w.store)))

theorem Variable.before_irrefl (v : Variable) : ¬ v.before v := by
  unfold before; omega

theorem Variable.not_before_of_before {v w : Variable} (h : w.before v) : ¬ v.before w := by
  unfold before at *; omega

theorem Variable.eq_of_not_before {v w : Variable} (h : ¬ v.before w) (h' : ¬ w.before v) :
    v = w := by
  obtain ⟨a, i⟩ := v
  obtain ⟨b, j⟩ := w
  simp only [before] at h h'
  obtain rfl : i = j := by omega
  obtain rfl : a = b := by omega
  rfl

/-- The variables of a list in their order, the list having none twice. -/
def Variable.sort (vs : List Variable) : List Variable :=
  vs.mergeSort fun v w => decide (¬ w.before v)

/-! ### Unordered pairs -/

/-- Two variables, possibly the same, the earlier one first. -/
structure VariablePair where
  first : Variable
  second : Variable
  ordered : ¬ second.before first
  deriving DecidableEq

namespace VariablePair

/-- The pair of two variables given in either order. -/
def of (v w : Variable) : VariablePair :=
  if h : w.before v then ⟨w, v, Variable.not_before_of_before h⟩ else ⟨v, w, h⟩

theorem of_comm (v w : Variable) : of v w = of w v := by
  unfold of
  by_cases h : w.before v
  · have h' := Variable.not_before_of_before h
    simp [h, h']
  · by_cases h' : v.before w
    · simp [h, h']
    · obtain rfl := Variable.eq_of_not_before h' h
      simp

@[simp] theorem of_first_second (p : VariablePair) : of p.first p.second = p := by
  obtain ⟨v, w, h⟩ := p
  simp [of, h]

/-- Whether both variables are the same. -/
def isSquare (p : VariablePair) : Bool := decide (p.first = p.second)

@[simp] theorem isSquare_of_self (v : Variable) : (of v v).isSquare = true := by
  simp [of, isSquare, Variable.before_irrefl]

/-- The members of the pair. -/
def toList (p : VariablePair) : List Variable := [p.first, p.second]

end VariablePair

/-! ### What is known of the variables -/

/-- What a variable is like at a moment. -/
structure Attributes (α : Type) where
  kind : Kind
  lower : α
  upper : α
  name : Option String
  deriving Repr

/-- One function on both bounds. -/
def Attributes.map {α β : Type} (f : α → β) (a : Attributes α) : Attributes β :=
  ⟨a.kind, f a.lower, f a.upper, a.name⟩

/-- The attributes of all variables and the infinities of their stores at a moment.  A bound at or
beyond the infinity of its store restricts nothing. -/
structure Environment (α : Type) where
  attributes : Variable → Attributes α
  infinity : Nat → α

namespace Environment

variable {α : Type} (env : Environment α)

/-- The kind of a variable. -/
def kind (v : Variable) : Kind := (env.attributes v).kind

/-- The lower bound of a variable. -/
def lower (v : Variable) : α := (env.attributes v).lower

/-- The upper bound of a variable. -/
def upper (v : Variable) : α := (env.attributes v).upper

/-- The text by which a variable is called: its name, or one made from its slot. -/
def label (v : Variable) : String := (env.attributes v).name.getD ("_x" ++ toString v.slot)

/-- The environment in which all variables and stores are alike and have no names. -/
def alike (kind : Kind) (lower upper infinity : α) : Environment α where
  attributes _ := ⟨kind, lower, upper, none⟩
  infinity _ := infinity

/-- The members of a pair in the order of their labels. -/
def labelOrder (p : VariablePair) : Variable × Variable :=
  if env.label p.second < env.label p.first then (p.second, p.first) else (p.first, p.second)

/-- A pair is the one of its members, in whichever order their labels put them. -/
theorem of_labelOrder (p : VariablePair) :
    VariablePair.of (env.labelOrder p).1 (env.labelOrder p).2 = p := by
  unfold labelOrder
  split
  · rw [VariablePair.of_comm, VariablePair.of_first_second]
  · exact VariablePair.of_first_second p

end Environment

end MixedInteger
