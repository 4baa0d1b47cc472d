/-
**A model under construction.**

A model owns variables, one per slot, and records the constraints, implications and the objective that
are posted to it, as far as its engine takes them.  Nothing is solved.

Main definitions:

* `MixedInteger.Model` — the record;
* `MixedInteger.Model.declare` — a new variable in the next slot;
* `MixedInteger.Model.post`, `MixedInteger.Model.postImplication`, `MixedInteger.Model.setObjective` —
  recording, or why not;
* `MixedInteger.Environment.ofModels` — the environment that the models of a list make together, a
  store being a place in the list.

Main results:

* `MixedInteger.Model.size_declare` — a new variable takes one slot;
* `MixedInteger.Model.eq_of_post`, `MixedInteger.Model.eq_of_postImplication` — what is recorded comes
  last.
-/

import MixedInteger.Implication.Native

set_option autoImplicit false

namespace MixedInteger

/-- A model under construction. -/
structure Model (α : Type) where
  engine : Engine
  capabilities : Capabilities
  /-- A bound from here on restricts nothing. -/
  infinity : α
  slots : List (Attributes α)
  constraints : List (Constraint α)
  implications : List (Implication α)
  objective : Option (Sense × Expression α)
  /-- Whether the model can be exported as a snapshot. -/
  exportable : Bool

namespace Model

variable {α : Type}

/-- A model without variables. -/
def empty (engine : Engine) (capabilities : Capabilities) (infinity : α) : Model α where
  engine := engine
  capabilities := capabilities
  infinity := infinity
  slots := []
  constraints := []
  implications := []
  objective := none
  exportable := true

/-- How many variables there are. -/
def size (m : Model α) : Nat := m.slots.length

/-- One function on every number of a model. -/
def map {β : Type} (f : α → β) (m : Model α) : Model β where
  engine := m.engine
  capabilities := m.capabilities
  infinity := f m.infinity
  slots := m.slots.map (Attributes.map f)
  constraints := m.constraints.map (Constraint.map f)
  implications := m.implications.map (Implication.map f)
  objective := m.objective.map fun o => (o.1, o.2.map f)
  exportable := m.exportable

@[simp] theorem size_map {β : Type} (f : α → β) (m : Model α) : (m.map f).size = m.size := by
  simp [map, size]

/-- Changes the attributes of the variable in a slot. -/
def updateVariable (m : Model α) (slot : Nat) (f : Attributes α → Attributes α) : Model α :=
  { m with slots := m.slots.modify slot f }

@[simp] theorem size_updateVariable (m : Model α) (slot : Nat) (f : Attributes α → Attributes α) :
    (m.updateVariable slot f).size = m.size := by
  simp [updateVariable, size]

/-- A variable in the next slot. -/
def addVariable (m : Model α) (a : Attributes α) : Model α := { m with slots := m.slots ++ [a] }

@[simp] theorem size_addVariable (m : Model α) (a : Attributes α) :
    (m.addVariable a).size = m.size + 1 := by
  simp [addVariable, size]

/-- A model with more constraints and more implications. -/
def grow (m : Model α) (cs : List (Constraint α)) (is : List (Implication α)) : Model α :=
  { m with constraints := m.constraints ++ cs, implications := m.implications ++ is }

@[simp] theorem infinity_grow (m : Model α) (cs : List (Constraint α)) (is : List (Implication α)) :
    (m.grow cs is).infinity = m.infinity := rfl

@[simp] theorem grow_nil (m : Model α) : m.grow [] [] = m := by
  simp [grow]

theorem grow_grow (m : Model α) (cs ds : List (Constraint α)) (is js : List (Implication α)) :
    (m.grow cs is).grow ds js = m.grow (cs ++ ds) (is ++ js) := by
  simp [grow]

variable [Scalar α]

/-- A model without variables, whose infinity has to be positive. -/
def make (engine : Engine) (capabilities : Capabilities) (infinity : α) :
    Except (Fault α) (Model α) :=
  if infinity ≤ 0 then throw .infinityNotPositive else return empty engine capabilities infinity

/-! ### Variables -/

/-- The bounds of a kind where none is given: a binary variable is zero or one, others are free. -/
def defaultBounds (m : Model α) : Kind → α × α
  | .binary => (0, 1)
  | _ => (-m.infinity, m.infinity)

/-- How a new variable is called in a refusal: by its name, or by its number. -/
def newLabel (m : Model α) (name : Option String) : String :=
  match name with
  | some n => if n.isEmpty then toString m.size else n
  | none => toString m.size

/-- Refuses a kind of variables that the engine does not take. -/
def checkKind (m : Model α) (kind : Kind) : Except (Fault α) Unit :=
  if m.capabilities.kinds.contains kind then return () else throw (.unsupportedKind m.engine kind)

/-- A new variable in the next slot.  Its bounds must not be out of order. -/
def declare (m : Model α) (kind : Kind) (lower upper : Option α) (name : Option String) :
    Except (Fault α) (Model α) := do
  m.checkKind kind
  let lower := lower.getD (m.defaultBounds kind).1
  let upper := upper.getD (m.defaultBounds kind).2
  if upper < lower then throw (.emptyRange (m.newLabel name))
  return m.addVariable ⟨kind, lower, upper, name⟩

/-- A declaration that is not refused adds a variable. -/
theorem eq_of_declare {m m' : Model α} {kind : Kind} {lower upper : Option α}
    {name : Option String} (h : m.declare kind lower upper name = .ok m') :
    ∃ a, m' = m.addVariable a := by
  unfold declare at h
  obtain ⟨u, -, h⟩ := exists_of_bind_eq_ok h
  dsimp only at h
  split at h
  · cases h
  · cases h
    exact ⟨_, rfl⟩

theorem size_declare {m m' : Model α} {kind : Kind} {lower upper : Option α}
    {name : Option String} (h : m.declare kind lower upper name = .ok m') :
    m'.size = m.size + 1 := by
  obtain ⟨a, rfl⟩ := eq_of_declare h
  exact size_addVariable m a

/-! ### Recording -/

/-- Records a constraint. -/
def post (m : Model α) (c : Constraint α) : Except (Fault α) (Model α) :=
  if !c.isLinear && !m.capabilities.quadraticConstraints then
    throw (.quadraticConstraint m.engine c)
  else return { m with constraints := m.constraints ++ [c] }

/-- Records an implication of the shape that engines take. -/
def postImplication (env : Environment α) (m : Model α) (i : Implication α) :
    Except (Fault α) (Model α) := do
  if !m.capabilities.implications then throw (.noImplications m.engine i)
  i.checkNative env
  return { m with implications := m.implications ++ [i] }

omit [Scalar α] in
theorem eq_of_post {m m' : Model α} {c : Constraint α} (h : m.post c = .ok m') :
    m' = m.grow [c] [] := by
  unfold post at h
  split at h
  · cases h
  · cases h
    simp [grow]

theorem eq_of_postImplication {env : Environment α} {m m' : Model α} {i : Implication α}
    (h : m.postImplication env i = .ok m') : m' = m.grow [] [i] := by
  unfold postImplication at h
  dsimp only at h
  split at h
  · cases h
  · obtain ⟨u, -, h⟩ := exists_of_bind_eq_ok h
    cases h
    simp [grow]

/-- Records the objective. -/
def setObjective (m : Model α) (sense : Sense) (e : Expression α) : Except (Fault α) (Model α) :=
  if e.isQuadratic && !m.capabilities.quadraticObjective then
    throw (.quadraticObjective m.engine e)
  else return { m with objective := some (sense, e) }

omit [Scalar α] in
theorem eq_of_setObjective {m m' : Model α} {sense : Sense} {e : Expression α}
    (h : m.setObjective sense e = .ok m') : m' = { m with objective := some (sense, e) } := by
  unfold setObjective at h
  split at h
  · cases h
  · cases h
    rfl

end Model

/-! ### The environment that models make -/

variable {α : Type} [Scalar α]

/-- What a variable that no model owns is like: it is free and has no name. -/
def Attributes.unowned : Attributes α := ⟨.continuous, -Scalar.infinity, Scalar.infinity, none⟩

/-- The attributes of the variables of a list of models; a store is a place in the list. -/
def Environment.ofModels (models : List (Model α)) : Environment α where
  attributes v := ((models[v.store]?).bind (·.slots[v.slot]?)).getD .unowned
  infinity store := ((models[store]?).map (·.infinity)).getD Scalar.infinity

end MixedInteger
