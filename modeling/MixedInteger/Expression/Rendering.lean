/-
**Texts of expressions, constraints and implications.**

An expression is written term by term, products before single variables before the constant, each
group sorted by the labels of its variables: `3 x y - 2 z + 1`.  Coefficients of one are left out, and
so is a constant of zero beside other terms.

Main definitions:

* `MixedInteger.Expression.text` — the text of an expression;
* `MixedInteger.Constraint.text`, `MixedInteger.Implication.text` — the texts of comparisons;
* `MixedInteger.Constraint.describe`, `MixedInteger.Implication.describe` — the same with names.
-/

import MixedInteger.Constraint.Basic
import MixedInteger.Text.Quoted

set_option autoImplicit false

namespace MixedInteger

variable {α : Type} [Scalar α] [Display α]

namespace Expression

/-! ### Terms in the order of their labels -/

/-- A term to be written: the labels of its variables and its coefficient. -/
structure LabelledTerm (α : Type) where
  labels : List String
  coefficient : α

/-- The order of label lists, label by label. -/
def labelsBefore : List String → List String → Bool
  | [], _ => true
  | _ :: _, [] => false
  | a :: as, b :: bs => if a < b then true else if b < a then false else labelsBefore as bs

/-- Terms sorted by their labels; terms with equal labels keep their order. -/
def sortTerms (ts : List (LabelledTerm α)) : List (LabelledTerm α) :=
  ts.mergeSort fun s t => labelsBefore s.labels t.labels

/-- The product terms with their labels, the earlier label first. -/
def quadraticTerms (env : Environment α) (e : Expression α) : List (LabelledTerm α) :=
  e.quadratic.entries.map fun t =>
    let pair := env.labelOrder t.1
    ⟨[env.label pair.1, env.label pair.2], t.2⟩

/-- The linear terms with their labels. -/
def linearTerms (env : Environment α) (e : Expression α) : List (LabelledTerm α) :=
  e.linear.entries.map fun t => ⟨[env.label t.1], t.2⟩

/-! ### Signs and coefficients -/

/-- The sign in front of a term: between terms it stands apart. -/
def signText (isFirst : Bool) (c : α) : String :=
  if isFirst then (if c < 0 then "-" else "")
  else if c < 0 then " - "
  else if 0 < c then " + "
  else "  "

/-- The coefficient in front of variables; one and minus one are left to the sign. -/
def coefficientText (c : α) : String :=
  if c == 1 || c == -1 then "" else Display.text (Scalar.magnitude c) ++ " "

/-- A term with its sign. -/
def termText (isFirst : Bool) (t : LabelledTerm α) : String :=
  signText isFirst t.coefficient ++ coefficientText t.coefficient ++ " ".intercalate t.labels

/-- Terms one after the other, the first one without a sign in between. -/
def termsText (isFirst : Bool) : List (LabelledTerm α) → String
  | [] => ""
  | t :: rest => termText isFirst t ++ termsText false rest

/-- The text of an expression. -/
def text (env : Environment α) (e : Expression α) : String :=
  let terms := sortTerms (e.quadraticTerms env) ++ sortTerms (e.linearTerms env)
  let body := termsText true terms
  if e.constant == 0 && !terms.isEmpty then body
  else body ++ signText terms.isEmpty e.constant ++ Display.text (Scalar.magnitude e.constant)

end Expression

/-- The text of a constraint. -/
def Constraint.text (env : Environment α) (c : Constraint α) : String :=
  c.expression.text env ++ " " ++ c.relation.sign ++ " 0"

/-- The text of an implication. -/
def Implication.text (env : Environment α) (i : Implication α) : String :=
  i.premise.text env ++ " -> " ++ i.conclusion.text env

/-- The text of a constraint with its name. -/
def Constraint.describe (env : Environment α) (c : Constraint α) : String :=
  match c.name with
  | none => "Constr(" ++ c.text env ++ ")"
  | some n => "Constr(" ++ Text.quote n ++ ": " ++ c.text env ++ ")"

/-- The text of an implication as an object. -/
def Implication.describe (env : Environment α) (i : Implication α) : String :=
  "IndicatorConstr(" ++ i.text env ++ ")"

/-- The text of a variable with its kind. -/
def Variable.describe (env : Environment α) (v : Variable) : String :=
  "Var(" ++ Text.quote (env.label v) ++ ", " ++ (env.kind v).word ++ ")"

/-- The text of a pair of variables. -/
def VariablePair.describe (env : Environment α) (p : VariablePair) : String :=
  "VarPair(" ++ Text.quote (env.label p.first) ++ ", " ++ Text.quote (env.label p.second) ++ ")"

end MixedInteger
