/-
**A snapshot means what the model means.**

A model keeps its terms in maps from variables, and from pairs of variables, to coefficients; a snapshot
keeps them as parallel lists, names a variable by its index, moves the constant of a constraint to the
right side, and lists the linear parts of all rows as triplets.  If the model speaks of its own variables
only, nothing of its meaning is lost on the way, and the snapshot keeps the rules that a snapshot has to
keep.

Main definitions:

* `MixedInteger.Snapshot.rowSum` — the sum of the triplets of one row;
* `MixedInteger.Snapshot.Describes` — a snapshot that means what a model means.

Main results:

* `MixedInteger.Snapshot.Row.holds_ofConstraint` — a row holds where its constraint does;
* `MixedInteger.Snapshot.rowSum_matrix` — the triplets of a row make up its linear terms;
* `MixedInteger.Snapshot.valid_ofModel`, `MixedInteger.Snapshot.describes_ofModel` — the snapshot of a
  model that speaks of its own variables keeps the rules, and describes the model;
* `MixedInteger.Session.describes_run` — **so does the snapshot after any run** of requests about variables
  of the model.
-/

import MixedInteger.Meaning.Snapshot
import MixedInteger.Model.Session
import MixedInteger.Proofs.Scope
import MixedInteger.Proofs.Validation
import MixedInteger.Scalar.Rounding

set_option autoImplicit false

namespace MixedInteger

namespace Snapshot

/-! ### Columns -/

theorem columnsFrom_getElem? {α : Type} (start i : Nat) (as : List (Attributes α)) :
    (columnsFrom start as)[i]? =
      as[i]?.map fun a => ⟨(start + i : Nat), a.name, a.kind, a.lower, a.upper⟩ := by
  induction as generalizing start i with
  | nil => rfl
  | cons a rest ih =>
      cases i with
      | zero => rfl
      | succ i =>
          rw [columnsFrom, List.getElem?_cons_succ, List.getElem?_cons_succ, ih,
            Nat.add_assoc, Nat.add_comm 1 i]

/-! ### Rows -/

section Rows

variable {K : Type} [Field K]

/-- The terms of an expression about variables of one store have its value, its constant apart. -/
theorem Terms.value_ofExpression_vars {e : Expression (Extended K)} {store : Nat}
    (h : ∀ v ∈ e.vars, v.store = store) (x : Assignment K) :
    (ofExpression e).value (numbersOf store x) = e.value x - e.constant.toNumber :=
  value_ofExpression (fun v hv => h v (Expression.mem_vars_of_mem_linear hv))
    (fun _ hp => ⟨h _ (Expression.mem_vars_of_mem_quadratic hp).1,
      h _ (Expression.mem_vars_of_mem_quadratic hp).2⟩) x

variable [LinearOrder K] [IsStrictOrderedRing K] [FloorRing K]

/-- A row holds where the constraint that it is made of does: moving the constant to the other side does
not change what is compared. -/
theorem Row.holds_ofConstraint {c : Constraint (Extended K)} {store : Nat}
    (h : ∀ v ∈ c.expression.vars, v.store = store) (x : Assignment K) :
    (ofConstraint c).Holds (numbersOf store x) ↔ c.Holds x := by
  have hvalue : (ofConstraint c).terms.value (numbersOf store x) =
      c.expression.value x - c.expression.constant.toNumber := Terms.value_ofExpression_vars h x
  have hbound : (ofConstraint c).bound.toNumber = -c.expression.constant.toNumber :=
    Extended.toNumber_neg _
  have hrelation : (ofConstraint c).relation = c.relation := rfl
  rw [Holds, Constraint.Holds, hvalue, hbound, hrelation]
  cases c.relation with
  | atMost =>
      dsimp only [Relation.Compares]
      constructor <;> intro hle <;> linarith
  | equal =>
      dsimp only [Relation.Compares]
      constructor <;> intro heq <;> linarith

end Rows

/-! ### Triplets -/

section Triplets

variable {K : Type} [Field K]

/-- The sum of the triplets of row `k`, each value times the number at its index. -/
def rowSum (x : Int → K) (k : Nat) (triplets : List Nat × List Int × List (Extended K)) : K :=
  (List.zipWith (fun r a => if r = k then a else 0) triplets.1
    (List.zipWith (fun i a => a.toNumber * x i) triplets.2.1 triplets.2.2)).sum

/-- Terms that all belong to one row count for that row only. -/
theorem sum_replicate_row (r k : Nat) (as : List K) :
    (List.zipWith (fun r a => if r = k then a else 0) (List.replicate as.length r) as).sum =
      if r = k then as.sum else 0 := by
  induction as with
  | nil => simp
  | cons a rest ih =>
      rw [List.length_cons, List.replicate_succ, List.zipWith_cons_cons, List.sum_cons, ih]
      by_cases h : r = k <;> simp [h]

omit [Field K] in
/-- The three lists of triplets are equally long. -/
theorem matrixFrom_lengths {rows : List (Row (Extended K))}
    (h : ∀ r ∈ rows, r.terms.linearFits = true) (start : Nat) :
    (matrixFrom start rows).1.length = (matrixFrom start rows).2.1.length ∧
      (matrixFrom start rows).2.1.length = (matrixFrom start rows).2.2.length := by
  induction rows generalizing start with
  | nil => exact ⟨rfl, rfl⟩
  | cons r rest ih =>
      obtain ⟨hrows, hvalues⟩ := ih (fun r hr => h r (List.mem_cons_of_mem _ hr)) (start + 1)
      have hfits : r.terms.linearIndices.length = r.terms.linearValues.length :=
        beq_iff_eq.1 (h r List.mem_cons_self)
      simp only [matrixFrom, List.length_append, List.length_replicate, hrows, hvalues, hfits, and_self]

/-- The first row makes up its own sum, and the other rows make up theirs. -/
theorem rowSum_cons {r : Row (Extended K)} (h : r.terms.linearFits = true)
    (rest : List (Row (Extended K))) (start k : Nat) (x : Int → K) :
    rowSum x k (matrixFrom start (r :: rest)) =
      (if start = k then linearValue x r.terms.linearIndices r.terms.linearValues else 0) +
        rowSum x k (matrixFrom (start + 1) rest) := by
  have hfits : r.terms.linearIndices.length = r.terms.linearValues.length := beq_iff_eq.1 h
  have hlength : r.terms.linearIndices.length = (List.zipWith
      (fun i (a : Extended K) => a.toNumber * x i) r.terms.linearIndices r.terms.linearValues).length := by
    rw [List.length_zipWith, ← hfits, Nat.min_self]
  simp only [rowSum, matrixFrom]
  rw [List.zipWith_append hfits, List.zipWith_append (by rw [List.length_replicate, hlength]),
    List.sum_append, hlength, sum_replicate_row, linearValue]

/-- Rows are counted from `start`: no triplet belongs to a row before. -/
theorem rowSum_matrixFrom_of_lt {rows : List (Row (Extended K))}
    (h : ∀ r ∈ rows, r.terms.linearFits = true) {start k : Nat} (hk : k < start) (x : Int → K) :
    rowSum x k (matrixFrom start rows) = 0 := by
  induction rows generalizing start with
  | nil => rfl
  | cons r rest ih =>
      rw [rowSum_cons (h r List.mem_cons_self), if_neg (by omega), zero_add]
      exact ih (fun r hr => h r (List.mem_cons_of_mem _ hr)) (by omega)

theorem rowSum_matrixFrom {rows : List (Row (Extended K))}
    (h : ∀ r ∈ rows, r.terms.linearFits = true) (start k : Nat) (x : Int → K) :
    rowSum x (start + k) (matrixFrom start rows) =
      (rows[k]?.map fun r => linearValue x r.terms.linearIndices r.terms.linearValues).getD 0 := by
  induction rows generalizing start k with
  | nil => rfl
  | cons r rest ih =>
      have hrest : ∀ r ∈ rest, r.terms.linearFits = true := fun r hr =>
        h r (List.mem_cons_of_mem _ hr)
      rw [rowSum_cons (h r List.mem_cons_self)]
      cases k with
      | zero => simp [rowSum_matrixFrom_of_lt hrest]
      | succ k =>
          rw [if_neg (by omega), zero_add, List.getElem?_cons_succ, ← ih hrest (start + 1),
            Nat.add_assoc, Nat.add_comm 1 k]

/-- The triplets of a row make up the value of its linear terms; where there is no row, there are no
triplets either. -/
theorem rowSum_matrix {t : Snapshot (Extended K)} (h : ∀ r ∈ t.rows, r.terms.linearFits = true)
    (k : Nat) (x : Int → K) :
    rowSum x k t.matrix =
      (t.rows[k]?.map fun r => linearValue x r.terms.linearIndices r.terms.linearValues).getD 0 := by
  rw [matrix, ← rowSum_matrixFrom h 0 k x, Nat.zero_add]

end Triplets

/-! ### The rules between fields -/

/-- The snapshot of a model that speaks of slots that are taken keeps the rules between fields. -/
theorem valid_of_speaks {α : Type} [Scalar α] {m : Model α}
    (h : m.Speaks fun v => v.slot < m.size) : (ofModel m).Valid := by
  have hindices : ∀ e : Expression α, (∀ v ∈ e.vars, v.slot < m.size) →
      ∀ i ∈ (Terms.ofExpression e).indices, i < ((ofModel m).columns.length : Int) := by
    intro e he i hi
    have hslot : ∀ v ∈ e.vars, (v.slot : Int) < ((ofModel m).columns.length : Int) := by
      intro v hv
      rw [ofModel, columnsFrom_length]
      exact Int.ofNat_lt.2 (he v hv)
    simp only [Terms.indices, Terms.ofExpression, List.mem_append, List.mem_map] at hi
    rcases hi with (⟨v, hv, rfl⟩ | ⟨p, hp, rfl⟩) | ⟨p, hp, rfl⟩
    · exact hslot v (Expression.mem_vars_of_mem_linear hv)
    · exact hslot _ (Expression.mem_vars_of_mem_quadratic hp).1
    · exact hslot _ (Expression.mem_vars_of_mem_quadratic hp).2
  have hfits : ∀ e : Expression α, (Terms.ofExpression e).linearFits = true ∧
      (Terms.ofExpression e).quadraticFits = true := fun e =>
    ⟨Terms.linearFits_ofExpression e, Terms.quadraticFits_ofExpression e⟩
  constructor
  · rw [forall_mem_blocks_iff]
    refine ⟨List.forall_mem_map.2 fun c _ => hfits c.expression,
      List.forall_mem_map.2 fun i _ => ⟨hfits i.premise.expression, hfits i.conclusion.expression⟩, ?_⟩
    intro o ho
    obtain ⟨p, hp, rfl⟩ := Option.map_eq_some_iff.1 ho
    exact hfits p.2
  · rw [forall_mem_blocks_iff]
    refine ⟨List.forall_mem_map.2 fun c hc => hindices _ (h.constraints c hc),
      List.forall_mem_map.2 fun i hi => ⟨?_, ?_⟩, ?_⟩
    · exact hindices _ fun v hv => h.implications i hi v (Or.inl hv)
    · exact hindices _ fun v hv => h.implications i hi v (Or.inr hv)
    · intro o ho
      obtain ⟨p, hp, rfl⟩ := Option.map_eq_some_iff.1 ho
      exact hindices _ (h.objective p hp)

/-- So does that of a model that speaks of its own variables. -/
theorem valid_ofModel {α : Type} [Scalar α] {m : Model α} (h : m.Closed) : (ofModel m).Valid :=
  valid_of_speaks (h.speaks.imp fun _ hv => hv.2)

/-! ### What the snapshot of a model means -/

section Meaning

variable {K : Type} [Field K] [LinearOrder K]

/-- A snapshot means what a model means: its columns say what the variables are like, one for each slot,
and at all numbers that are assigned to the variables, the rows hold where the constraints do, the premises
and conclusions of the conditionals where those of the implications do, the objective has the value of the
recorded one, and the triplets of every row, which machine words hold as long as they count the variables,
add up to the linear part of its constraint. -/
structure Describes (t : Snapshot (Extended K)) (m : Model (Extended K)) : Prop where
  engine : t.engine = m.engine
  columns : ∀ i : Nat, t.columns[i]? =
    m.slots[i]?.map fun a => ⟨i, a.name, a.kind, a.lower, a.upper⟩
  rows : ∀ x : Assignment K,
    List.Forall₂ (fun r c => r.Holds (numbersOf 0 x) ↔ c.Holds x) t.rows m.constraints
  conditionals : ∀ x : Assignment K,
    List.Forall₂ (fun d i => (d.premise.Holds (numbersOf 0 x) ↔ i.premise.Holds x) ∧
      (d.conclusion.Holds (numbersOf 0 x) ↔ i.conclusion.Holds x)) t.conditionals m.implications
  objective : ∀ x : Assignment K,
    Option.Rel (fun o p => o.sense = p.1 ∧ o.value (numbersOf 0 x) = p.2.value x)
      t.objective m.objective
  parallel : t.matrix.1.length = t.matrix.2.1.length ∧
    t.matrix.2.1.length = t.matrix.2.2.length
  triplets : ∀ (x : Assignment K) (k : Nat), rowSum (numbersOf 0 x) k t.matrix =
    (m.constraints[k]?.map fun c => c.expression.linear.weigh x).getD 0
  words : m.size ≤ twoPow 63 → t.matrixFits = true

variable [IsStrictOrderedRing K] [FloorRing K]

/-- The snapshot of a model that speaks of its own variables means what the model means. -/
theorem describes_ofModel {m : Model (Extended K)} (h : m.Closed) : (ofModel m).Describes m := by
  have hrows : ∀ c : Constraint (Extended K), (∀ v ∈ c.expression.vars, m.Declares v) →
      ∀ x : Assignment K, (Row.ofConstraint c).Holds (numbersOf 0 x) ↔ c.Holds x :=
    fun c hc x => Row.holds_ofConstraint (fun v hv => (hc v hv).1) x
  have hfits : ∀ r ∈ (ofModel m).rows, r.terms.linearFits = true :=
    List.forall_mem_map.2 fun c _ => Terms.linearFits_ofExpression c.expression
  refine ⟨rfl, fun i => ?_, fun x => ?_, fun x => ?_, fun x => ?_, matrixFrom_lengths hfits 0,
    fun x k => ?_, fun hsize => ?_⟩
  · rw [ofModel, columnsFrom_getElem?, Nat.zero_add]
  · rw [ofModel, List.forall₂_map_left_iff, List.forall₂_same]
    exact fun c hc => hrows c (h.constraints c hc) x
  · rw [ofModel, List.forall₂_map_left_iff, List.forall₂_same]
    exact fun i hi => ⟨hrows i.premise (fun v hv => h.implications i hi v (Or.inl hv)) x,
      hrows i.conclusion (fun v hv => h.implications i hi v (Or.inr hv)) x⟩
  · cases ho : m.objective with
    | none =>
        rw [ofModel, ho]
        exact Option.Rel.none
    | some p =>
        rw [ofModel, ho]
        refine Option.Rel.some ⟨rfl, ?_⟩
        have hvalue := Terms.value_ofExpression_vars (fun v hv => (h.objective p ho v hv).1) x
        rw [Objective.value, hvalue, sub_add_cancel]
  · rw [rowSum_matrix hfits, ofModel, List.getElem?_map, Option.map_map]
    congr 1
    refine Option.map_congr fun c hc => ?_
    have hstore : ∀ v ∈ c.expression.linear.keys, v.store = 0 := fun v hv =>
      (h.constraints c (List.mem_of_getElem? hc) v (Expression.mem_vars_of_mem_linear hv)).1
    exact Terms.linearValue_ofExpression hstore x
  · refine List.all_eq_true.2 (List.forall_mem_map.2 fun c hc => List.all_eq_true.2 ?_)
    refine List.forall_mem_map.2 fun v hv => ?_
    have hslot := (h.constraints c hc v (Expression.mem_vars_of_mem_linear hv)).2
    rw [isWord, Bool.and_eq_true, decide_eq_true_iff, decide_eq_true_iff]
    omega

end Meaning

end Snapshot

/-! ### Runs -/

namespace Session

variable {K : Type} [Field K] [LinearOrder K] [IsStrictOrderedRing K] [FloorRing K]

/-- **The snapshot means the recorded model**: after any run of requests that speak of variables of the
model, whatever was refused on the way, the snapshot passes all rules between fields and describes the
model that has come about. -/
theorem describes_run (R : Rounding K) (engine : Engine) (capabilities : Capabilities)
    (infinity : Extended K) (o : PostingOptions (Extended K))
    (requests : List (Request (Extended K))) :
    letI := R.roots
    let s := start (Model.empty engine capabilities infinity) o
    s.Scoped requests → ∃ t, (Snapshot.ofModel (s.run requests).model).validate = .ok t ∧
      t.Describes (s.run requests).model := by
  let roots := R.roots
  intro s hscoped
  have hclosed : (s.run requests).model.Closed :=
    closed_run (Model.closed_empty engine capabilities infinity) hscoped
  exact ⟨_, (Snapshot.validate_eq_ok_iff _ _).2 ⟨rfl, Snapshot.valid_ofModel hclosed⟩,
    Snapshot.describes_ofModel hclosed⟩

/-- A binary `x` and a `y` that is renamed and loses some of its room after `2 * x * y + y ≤ 3`, `y ≤ 4`
where `x` is one, and the objective `y + 5` have been recorded; the row of the product has the triplets
of `y` alone. -/
theorem describes_run_of_renamed :
    let x : Variable := ⟨0, 0⟩
    let y : Variable := ⟨0, 1⟩
    let product : Expression (Extended ℚ) :=
      ⟨.finite (-3), .single y (.finite 1), .single (.of x y) (.finite 2)⟩
    let requests : List (Request (Extended ℚ)) :=
      [.declare .binary none none (some "x"),
        .declare .continuous (some (.finite 0)) (some (.finite 10)) (some "y"),
        .add ⟨.atMost, product, none⟩,
        .addImplication
          { premise := ⟨.equal, .affine (.finite (-1)) (.finite 1) x, none⟩
            conclusion := ⟨.atMost, .affine (.finite (-4)) (.finite 1) y, none⟩
            name := none },
        .setObjective .maximize (.affine (.finite 5) (.finite 1) y),
        .setName 1 (some "z"), .setUpper 1 (.finite 8)]
    letI := Rounding.rational.roots
    let m := ((start (Model.empty .memory .full (.infinite false)) ⟨.native, none⟩).run requests).model
    m.implications.length = 1 ∧ m.objective.isSome = true ∧
      ∃ t, (Snapshot.ofModel m).validate = .ok t ∧
        (t.columns[1]?.map fun c => (c.name, c.upper)) = some (some "z", .finite 8) ∧
        ∀ s : Assignment ℚ, Snapshot.rowSum (Snapshot.numbersOf 0 s) 0 t.matrix = s y := by
  intro x y product requests
  let roots := Rounding.rational.roots
  intro m
  obtain ⟨t, hvalid, hdescribes⟩ :=
    describes_run Rounding.rational .memory .full (.infinite false) ⟨.native, none⟩ requests
      (by decide +kernel)
  have hslot : (m.slots[1]?.map fun a => (a.name, a.upper)) = some (some "z", .finite 8) := by
    decide +kernel
  have hrow : (m.constraints[0]?.map fun c => c.expression.linear.entries) =
      some [(y, .finite 1)] := by
    decide +kernel
  obtain ⟨c, hc, hentries⟩ := Option.map_eq_some_iff.1 hrow
  refine ⟨by decide +kernel, by decide +kernel, t, hvalid, ?_, fun s => ?_⟩
  · rw [hdescribes.columns 1, Option.map_map]
    exact hslot
  · rw [hdescribes.triplets s 0, hc]
    simp [Coefficients.weigh, hentries]

end Session

end MixedInteger
