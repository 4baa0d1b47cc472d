/-
**How a report calls variables.**

A report lists the variables of a model, one row for each slot, and then the constraints and the
implications with their texts.  A text calls a variable by its label, and so does the row of the variable:
it shows the name, or a word that is made from the slot where there is none.  An empty name is a name as
far as labels go, but the row takes it for none.  So both parts of a report call a variable alike exactly
if the name that it was given last, when it was declared or later, is not the empty one.

Main definitions:

* `MixedInteger.Expression.WrittenWith`, `MixedInteger.Constraint.WrittenWith`,
  `MixedInteger.Implication.WrittenWith` — texts that call variables by given names;
* `MixedInteger.Report.CallsBy` — a table of constraints that calls variables by given names;
* `MixedInteger.Ensemble.nameAfter` — the name that requests leave a variable with.

Main results:

* `MixedInteger.Expression.writtenWith_text` — a text calls variables by their labels;
* `MixedInteger.Report.nameCell_eq_iff` — when a row does so;
* `MixedInteger.Ensemble.name_run` — where the name of a variable comes from;
* `MixedInteger.Ensemble.called_alike_iff` — **when a report calls a variable alike**;
* `MixedInteger.Ensemble.called_differently` — an empty name makes a difference.
-/

import MixedInteger.Meaning.Term
import MixedInteger.Proofs.Kinds
import MixedInteger.Proofs.Ownership
import MixedInteger.Report.Table

set_option autoImplicit false

namespace MixedInteger

variable {α : Type}

/-! ### Texts that call variables by names -/

/-- A term with the names of its variables; those of a product stand in either order. -/
inductive Term.CalledBy (names : Variable → String) :
    Term × α → Expression.LabelledTerm α → Prop where
  | variable (v : Variable) (c : α) : CalledBy names (.variable v, c) ⟨[names v], c⟩
  | pair (v w : Variable) (c : α) : CalledBy names (.pair (.of v w), c) ⟨[names v, names w], c⟩

section Texts

variable [Scalar α] [Display α]

namespace Expression

/-- Labelled terms one after the other, and a constant behind them unless it is zero. -/
def assembled (ts : List (LabelledTerm α)) (constant : α) : String :=
  if constant == 0 && !ts.isEmpty then termsText true ts
  else termsText true ts ++ signText ts.isEmpty constant ++ Display.text (Scalar.magnitude constant)

/-- A text tells every term of an expression once, in some order, with given names for the variables. -/
def WrittenWith (names : Variable → String) (e : Expression α) (text : String) : Prop :=
  ∃ (terms : List (Term × α)) (labelled : List (LabelledTerm α)), terms.Perm e.terms ∧
    List.Forall₂ (Term.CalledBy names) terms labelled ∧ text = assembled labelled e.constant

/-- There is one such text of an expression with one term of one variable. -/
theorem WrittenWith.eq_of_single {names : Variable → String} {v : Variable} {constant c : α}
    {text : String} (h : WrittenWith names ⟨constant, .single v c, .empty⟩ text) :
    text = assembled [⟨[names v], c⟩] constant := by
  obtain ⟨terms, labelled, hperm, hcalled, rfl⟩ := h
  have hterms : (⟨constant, .single v c, .empty⟩ : Expression α).terms = [(.variable v, c)] := rfl
  rw [hterms, List.perm_singleton] at hperm
  subst hperm
  obtain ⟨l, ls, ht, hnil, rfl⟩ := List.forall₂_cons_left_iff.1 hcalled
  obtain rfl := List.forall₂_nil_left_iff.1 hnil
  cases ht
  rfl

omit [Scalar α] [Display α] in
/-- The labelled terms call variables by their labels. -/
theorem calledBy_label (env : Environment α) (e : Expression α) :
    List.Forall₂ (Term.CalledBy env.label) e.terms (e.linearTerms env ++ e.quadraticTerms env) := by
  refine List.rel_append ?_ ?_
  · rw [variableTerms, linearTerms, List.forall₂_map_left_iff, List.forall₂_map_right_iff,
      List.forall₂_same]
    exact fun t _ => .variable t.1 t.2
  · rw [pairTerms, quadraticTerms, List.forall₂_map_left_iff, List.forall₂_map_right_iff,
      List.forall₂_same]
    intro t _
    have hpair : Term.CalledBy env.label
        (.pair (.of (env.labelOrder t.1).1 (env.labelOrder t.1).2), t.2) _ := .pair _ _ t.2
    rwa [env.of_labelOrder] at hpair

/-- **A text calls variables by their labels.** -/
theorem writtenWith_text (env : Environment α) (e : Expression α) :
    e.WrittenWith env.label (e.text env) := by
  have hsorted : (e.linearTerms env ++ e.quadraticTerms env).Perm
      (sortTerms (e.quadraticTerms env) ++ sortTerms (e.linearTerms env)) :=
    List.perm_append_comm.trans
      ((List.mergeSort_perm _ _).symm.append (List.mergeSort_perm _ _).symm)
  -- sorting the labelled terms amounts to taking the terms in another order
  have hcomp : Relation.Comp (List.Forall₂ (Term.CalledBy env.label)) List.Perm e.terms
      (sortTerms (e.quadraticTerms env) ++ sortTerms (e.linearTerms env)) :=
    ⟨_, calledBy_label env e, hsorted⟩
  rw [List.forall₂_comp_perm_eq_perm_comp_forall₂] at hcomp
  obtain ⟨terms, hperm, hcalled⟩ := hcomp
  exact ⟨terms, _, hperm.symm, hcalled, rfl⟩

end Expression

/-- The text of a constraint with given names for the variables. -/
def Constraint.WrittenWith (names : Variable → String) (c : Constraint α) (text : String) : Prop :=
  ∃ body, c.expression.WrittenWith names body ∧ text = body ++ " " ++ c.relation.sign ++ " 0"

/-- The text of an implication with given names for the variables. -/
def Implication.WrittenWith (names : Variable → String) (i : Implication α) (text : String) : Prop :=
  ∃ premise conclusion, i.premise.WrittenWith names premise ∧
    i.conclusion.WrittenWith names conclusion ∧ text = premise ++ " -> " ++ conclusion

theorem Constraint.writtenWith_text (env : Environment α) (c : Constraint α) :
    c.WrittenWith env.label (c.text env) :=
  ⟨_, c.expression.writtenWith_text env, rfl⟩

theorem Implication.writtenWith_text (env : Environment α) (i : Implication α) :
    i.WrittenWith env.label (i.text env) :=
  ⟨_, _, i.premise.writtenWith_text env, i.conclusion.writtenWith_text env, rfl⟩

/-! ### Reports -/

namespace Report

/-- Every text in a table of the constraints and the implications of a model calls variables by given
names. -/
def CallsBy (names : Variable → String) (m : Model α) (t : Table) : Prop :=
  ∃ first last, t.rows = first ++ last ∧
    List.Forall₂ (fun row c => ∃ text, row[2]? = some text ∧ c.WrittenWith names text) first
      m.constraints ∧
    List.Forall₂ (fun row i => ∃ text, row[2]? = some text ∧ i.WrittenWith names text) last
      m.implications

theorem callsBy_label (env : Environment α) (m : Model α) :
    CallsBy env.label m (constraintTable (constraintRows env m)) := by
  refine ⟨_, _, rfl, ?_, ?_⟩
  · rw [List.forall₂_map_left_iff, List.forall₂_same]
    exact fun c _ => ⟨_, rfl, c.writtenWith_text env⟩
  · rw [List.forall₂_map_left_iff, List.forall₂_same]
    exact fun i _ => ⟨_, rfl, i.writtenWith_text env⟩

omit [Scalar α] [Display α] in
/-- A row shows what the label is, unless the name is empty. -/
theorem nameCell_eq_iff (slot : Nat) (name : Option String) :
    nameCell slot name = name.getD ("_x" ++ toString slot) ↔ name ≠ some "" := by
  cases name with
  | none => exact iff_of_true rfl nofun
  | some n =>
      by_cases hn : n = ""
      · subst hn
        refine iff_of_false (fun h => ?_) (fun h => h rfl)
        have hlength := congrArg String.length h
        simp [nameCell] at hlength
      · have hempty : n.isEmpty = false := by simpa using hn
        simp [nameCell, hempty, hn]

/-- The row of the variable in a slot. -/
theorem rows_variableTable (m : Model α) (slot : Nat) :
    (variableTable m).rows[slot]? = m.slots[slot]?.map (variableRow m.infinity slot) := by
  rw [variableTable, variableRows_getElem?, Nat.zero_add]

end Report

end Texts

/-! ### Names that were given -/

/-- The name that a request gives to the variable in a slot, if it gives one. -/
def Session.Request.nameFor (slot : Nat) : Session.Request α → Option (Option String)
  | .setName place name => if place = slot then some name else none
  | _ => none

/-- A change changes the name to the one that is given, if any. -/
theorem Session.Request.name_change (r : Session.Request α) (slot : Nat) (a : Attributes α) :
    (r.change slot a).name = (r.nameFor slot).getD a.name := by
  cases r with
  | setLower place | setUpper place | setKind place | setName place =>
      by_cases h : place = slot <;> simp [change, nameFor, h]
  | _ => rfl

namespace Ensemble

/-- The name that a request gives to the variable in a slot of the model at a place. -/
def Request.nameAt (place slot : Nat) : Request α → Option (Option String)
  | .create _ _ _ => none
  | .ask n _ r => if n = place then r.nameFor slot else none

/-- The name of a variable after requests, if it was `name` before them: the last one that was given. -/
def nameAfter (place slot : Nat) (name : Option String) (requests : List (Request α)) :
    Option String :=
  (requests.filterMap (Request.nameAt place slot)).getLast?.getD name

theorem nameAfter_cons (place slot : Nat) (name : Option String) (r : Request α)
    (rest : List (Request α)) : nameAfter place slot name (r :: rest) =
      nameAfter place slot ((r.nameAt place slot).getD name) rest :=
  Session.getLast?_filterMap_cons _ name r rest

variable [Scalar α] [Roots α]

/-- A request declares the variable in a slot of the model at a place, and gives it a name. -/
structure Declares (s : Ensemble α) (place slot : Nat) (name : Option String) (r : Request α) :
    Prop where
  request : ∃ o kind lower upper, r = .ask place o (.declare kind lower upper name)
  accepted : (s.perform r).1 = .ok ()
  slot : ∃ m, s.models[place]? = some m ∧ slot = m.size

/-- **Where the name of a variable comes from**: the variable was there and has its name, or the one that
is given to it; or it is declared now. -/
theorem name_perform {s : Ensemble α} {r : Request α} {place slot : Nat} {m' : Model α}
    {a : Attributes α} (h : (s.perform r).2.models[place]? = some m')
    (ha : m'.slots[slot]? = some a) :
    (∃ m b, s.models[place]? = some m ∧ m.slots[slot]? = some b ∧
        a.name = (r.nameAt place slot).getD b.name) ∨
      s.Declares place slot a.name r := by
  rcases model_of_perform h with ⟨hm, hother⟩ | ⟨engine, capabilities, infinity, rfl⟩ |
    ⟨m, o, q, hm, rfl, rfl⟩
  · have hnone : r.nameAt place slot = none := by
      cases r with
      | create engine capabilities infinity => rfl
      | ask n o q =>
          refine if_neg ?_
          rintro rfl
          exact hother o q rfl
    exact Or.inl ⟨m', a, hm, ha, by rw [hnone, Option.getD_none]⟩
  · cases ha
  · rcases Session.slot_performIn s.environment ha with
      ⟨b, hb, rfl⟩ | ⟨lower, upper, hq, hok, hslot, -⟩
    · exact Or.inl ⟨m, b, hm, hb, by rw [Request.nameAt, if_pos rfl, q.name_change]⟩
    · refine Or.inr ⟨⟨o, a.kind, lower, upper, by rw [hq]⟩, ?_, m, hm, hslot⟩
      simp only [perform, hm]
      exact hok

/-! ### Runs -/

/-- **Where the name of a variable comes from**, for a run: the variable was there before it, or some
request of it declared the variable; and the name is the last one that was given since. -/
theorem name_run {s : Ensemble α} {requests : List (Request α)} {place slot : Nat} {m' : Model α}
    {a : Attributes α} (hm : (s.run requests).models[place]? = some m')
    (ha : m'.slots[slot]? = some a) :
    (∃ m b, s.models[place]? = some m ∧ m.slots[slot]? = some b ∧
        a.name = nameAfter place slot b.name requests) ∨
      ∃ before r after name, requests = before ++ r :: after ∧
        (s.run before).Declares place slot name r ∧ a.name = nameAfter place slot name after := by
  induction requests generalizing s with
  | nil => exact Or.inl ⟨m', a, hm, ha, rfl⟩
  | cons r rest ih =>
      rcases ih hm with ⟨m, b, hm, hb, hname⟩ | ⟨before, r', after, name, rfl, hdeclares, hname⟩
      · -- the variable is there after the first request, which may be the one that declares it
        rcases name_perform hm hb with ⟨m₀, b₀, hm₀, hb₀, hb⟩ | hdeclares
        · exact Or.inl ⟨m₀, b₀, hm₀, hb₀, by rw [nameAfter_cons, hname, hb]⟩
        · exact Or.inr ⟨[], r, rest, b.name, rfl, hdeclares, hname⟩
      · exact Or.inr ⟨r :: before, r', after, name, rfl, hdeclares, hname⟩

omit [Roots α] in
/-- The label of a variable of one of the models. -/
theorem label_environment {s : Ensemble α} {place slot : Nat} {m : Model α} {a : Attributes α}
    (hm : s.models[place]? = some m) (ha : m.slots[slot]? = some a) :
    s.environment.label ⟨place, slot⟩ = a.name.getD ("_x" ++ toString slot) := by
  simp [environment, Environment.label, Environment.ofModels, hm, ha]

variable [Display α]

/-- **When a report calls a variable alike.**  After any requests to any models, the report on one of them
lists its variables, one row for each slot, and shows the texts of what is recorded, which call every
variable by its label.  The row of a variable shows the same word exactly if its name is not the empty one;
and its name is the last one that it was given, be it by a request, when it was declared, or before all
requests. -/
theorem called_alike_iff (s : Ensemble α) (requests : List (Request α)) (place : Nat) {m : Model α}
    (hm : (s.run requests).models[place]? = some m) :
    let env := (s.run requests).environment
    ∃ vars texts, Report.tables env m = [vars, texts] ∧
      Report.CallsBy env.label m texts ∧ vars.rows.length = m.size ∧
      ∀ (slot : Nat) (a : Attributes α), m.slots[slot]? = some a →
        (∃ row cell, vars.rows[slot]? = some row ∧ row[0]? = some (toString slot) ∧
          row[1]? = some cell ∧ (cell = env.label ⟨place, slot⟩ ↔ a.name ≠ some "")) ∧
        ((∃ m₀ b, s.models[place]? = some m₀ ∧ m₀.slots[slot]? = some b ∧
            a.name = nameAfter place slot b.name requests) ∨
          ∃ before r after name, requests = before ++ r :: after ∧
            (s.run before).Declares place slot name r ∧
            a.name = nameAfter place slot name after) := by
  intro env
  refine ⟨_, _, rfl, Report.callsBy_label env m, Report.variableRows_length _ _ _,
    fun slot a ha => ⟨?_, name_run hm ha⟩⟩
  have hrow : (Report.variableTable m).rows[slot]? = some (Report.variableRow m.infinity slot a) := by
    rw [Report.rows_variableTable, ha, Option.map_some]
  refine ⟨_, _, hrow, rfl, rfl, ?_⟩
  rw [label_environment hm ha]
  exact Report.nameCell_eq_iff slot a.name

/-- A variable is declared with an empty name and called `x` later, another one has no name: they are called
`x` and `_x1`, in the rows as well as in the text of `x * _x1 + 3 ≤ 0`. -/
theorem called_alike_iff_of_renamed :
    let x : Variable := ⟨0, 0⟩
    let y : Variable := ⟨0, 1⟩
    let c : Constraint Number := ⟨.atMost, ⟨.whole 3, .empty, .single (.of x y) (.whole 1)⟩, none⟩
    let o : PostingOptions Number := ⟨.native, none⟩
    let requests : List (Request Number) :=
      [.create .memory .full Scalar.infinity, .ask 0 o (.declare .continuous none none (some "")),
        .ask 0 o (.declare .binary none none none), .ask 0 o (.setName 0 (some "x")),
        .ask 0 o (.record c)]
    let env := (empty.run requests).environment
    ∃ m vars texts, (empty.run requests).models[0]? = some m ∧
      Report.tables env m = [vars, texts] ∧ Report.CallsBy env.label m texts ∧
      texts.rows = [["", "quadratic", "_x1 x + 3 <= 0"]] ∧
      (∃ row, vars.rows[0]? = some row ∧ row[1]? = some (env.label x)) ∧
      ∃ row, vars.rows[1]? = some row ∧ row[1]? = some (env.label y) := by
  intro x y c o requests env
  have hnames : ((empty.run requests).models[0]?.map fun m => m.slots.map (·.name)) =
      some [some "x", none] := by
    decide +kernel
  have hrows : ((empty.run requests).models[0]?.map fun m =>
      (Report.tables env m)[1]?.map (·.rows)) = some (some [["", "quadratic", "_x1 x + 3 <= 0"]]) := by
    decide +kernel
  obtain ⟨m, hm, hnames⟩ := Option.map_eq_some_iff.1 hnames
  rw [hm, Option.map_some, Option.some_inj] at hrows
  obtain ⟨vars, texts, htables, hcalls, -, hslots⟩ := called_alike_iff empty requests 0 hm
  rw [htables, List.getElem?_cons_succ, List.getElem?_cons_zero, Option.map_some, Option.some_inj]
    at hrows
  have hcell : ∀ (slot : Nat) (name : Option String), [some "x", none][slot]? = some name →
      name ≠ some "" → ∃ row, vars.rows[slot]? = some row ∧
        row[1]? = some (env.label ⟨0, slot⟩) := by
    intro slot name hslot hname
    rw [← hnames, List.getElem?_map] at hslot
    obtain ⟨a, ha, rfl⟩ := Option.map_eq_some_iff.1 hslot
    obtain ⟨⟨row, cell, hrow, -, hcell, halike⟩, -⟩ := hslots slot a ha
    exact ⟨row, hrow, by rw [hcell, halike.2 hname]⟩
  exact ⟨m, vars, texts, hm, htables, hcalls, hrows,
    hcell 0 (some "x") rfl (by decide), hcell 1 none rfl (by decide)⟩

/-- **An empty name makes a difference**: no names for the variables are those that the rows show and
those that the texts are written with. -/
theorem called_differently :
    ¬ ∀ (requests : List (Request Number)) (place : Nat) (m : Model Number),
      (empty.run requests).models[place]? = some m →
        ∃ (names : Variable → String) (vars texts : Table),
          Report.tables (empty.run requests).environment m = [vars, texts] ∧
          Report.CallsBy names m texts ∧
          ∀ slot < m.size, ∃ row, vars.rows[slot]? = some row ∧
            row[1]? = some (names ⟨place, slot⟩) := by
  intro hclaim
  let x : Variable := ⟨0, 0⟩
  let c : Constraint Number := ⟨.atMost, ⟨.whole (-5), .single x (.whole 1), .empty⟩, none⟩
  let o : PostingOptions Number := ⟨.native, none⟩
  let requests : List (Request Number) :=
    [.create .memory .full Scalar.infinity, .ask 0 o (.declare .continuous none none (some "")),
      .ask 0 o (.record c)]
  have hconstraints : ((empty.run requests).models[0]?.map fun m => m.constraints) = some [c] := rfl
  -- the row of `x` shows `_x0`, and the text of `x - 5 ≤ 0` shows nothing in front of the sign
  have hcells : ((empty.run requests).models[0]?.map fun m =>
      (m.size, (Report.tables (empty.run requests).environment m).map (·.rows))) =
        some (1, [[["0", "_x0", "continuous", "-inf", "inf"]], [["", "linear", " - 5 <= 0"]]]) := by
    decide +kernel
  -- a text of the constraint begins with what `x` is called by
  have hwritten : ∀ (names : Variable → String) (text : String), c.WrittenWith names text →
      text = names x ++ " - 5 <= 0" := by
    rintro names text ⟨body, hbody, htext⟩
    have hsign : Expression.signText true (.whole 1 : Number) = "" := by decide +kernel
    have hcoefficient : Expression.coefficientText (.whole 1 : Number) = "" := by decide +kernel
    have hconstant : Expression.signText false (.whole (-5) : Number) ++
        Display.text (Scalar.magnitude (.whole (-5) : Number)) = " - 5" := by
      decide +kernel
    have hzero : ((.whole (-5) : Number) == 0) = false := by decide +kernel
    have hassembled : Expression.assembled [⟨[names x], (.whole 1 : Number)⟩] (.whole (-5)) =
        names x ++ " - 5" := by
      rw [← hconstant, Expression.assembled, hzero]
      simp [Expression.termsText, Expression.termText, hsign, hcoefficient, String.append_assoc]
    have hrelation : c.relation.sign = "<=" := rfl
    rw [htext, hbody.eq_of_single, hassembled, hrelation]
    simp only [String.append_assoc]
    rfl
  obtain ⟨m, hm, hconstraints⟩ := Option.map_eq_some_iff.1 hconstraints
  obtain ⟨names, vars, texts, htables, ⟨first, last, hrows, hfirst, -⟩, hnames⟩ :=
    hclaim requests 0 m hm
  rw [hm, Option.map_some, Option.some_inj, htables, Prod.mk.injEq] at hcells
  obtain ⟨hsize, hcells⟩ := hcells
  simp only [List.map_cons, List.map_nil, List.cons.injEq, and_true] at hcells
  obtain ⟨hvars, htexts⟩ := hcells
  obtain ⟨row, hrow, hname⟩ := hnames 0 (by rw [hsize]; exact Nat.one_pos)
  rw [hvars, List.getElem?_cons_zero, Option.some_inj] at hrow
  subst hrow
  rw [hconstraints] at hfirst
  obtain ⟨row, rest, ⟨text, htext, hc⟩, -, rfl⟩ := List.forall₂_cons_right_iff.1 hfirst
  rw [htexts, List.cons_append, List.cons.injEq] at hrows
  obtain ⟨rfl, -⟩ := hrows
  have hx : "_x0" = names x := Option.some_inj.1 hname
  have hshown : " - 5 <= 0" = text := Option.some_inj.1 htext
  rw [hwritten names text hc, ← hx] at hshown
  exact absurd hshown (by decide)

end Ensemble

end MixedInteger
