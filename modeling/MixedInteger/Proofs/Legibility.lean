/-
**What the text of an expression tells.**

Terms are written in the order of their labels, whichever order they came in and whichever variable of a
product was declared first.  Where different variables have different identifiers for labels, the sorted
terms are the same for two expressions exactly if their coefficients are; and since a text tells its terms,
so are the texts.

Main definitions:

* `MixedInteger.Expression.sorted` — coefficients as they are told, in the order of labels;
* `MixedInteger.Expression.SameCoefficients` — two expressions with equal coefficients;
* `MixedInteger.Expression.HasIdentifiers` — what is asked of labels.

Main results:

* `MixedInteger.Expression.sorted_eq_iff` — sorted terms are the same if the coefficients are;
* `MixedInteger.Expression.told_eq_told_iff` — the parts of what a text tells;
* `MixedInteger.Expression.text_eq_text_iff` — **texts are the same exactly if coefficients are**.
-/

import MixedInteger.Proofs.Rendering

set_option autoImplicit false

namespace MixedInteger.Expression

/-! ### Sorted terms -/

/-- Labels are compared one by one, as words in a dictionary are. -/
theorem labelsBefore_iff (ls ms : List String) : labelsBefore ls ms = true ↔ ls ≤ ms := by
  rw [← not_lt]
  induction ls generalizing ms with
  | nil => simp [labelsBefore]
  | cons l ls ih =>
      cases ms with
      | nil => simp [labelsBefore]
      | cons m ms =>
          rw [labelsBefore, List.cons_lt_cons_iff]
          rcases lt_trichotomy l m with h | rfl | h
          · simp [h, h.not_gt, h.ne']
          · simp [ih]
          · simp [h, h.not_gt]

section Sorted

variable {κ : Type}

/-- The labels of the keys tell them apart. -/
def TellsApart (labels : κ → List String) (m n : Coefficients κ Number) : Prop :=
  ∀ k ∈ m.keys ++ n.keys, ∀ j ∈ m.keys ++ n.keys, labels k = labels j → k = j

theorem TellsApart.symm {labels : κ → List String} {m n : Coefficients κ Number}
    (h : TellsApart labels m n) : TellsApart labels n m :=
  fun k hk j hj => h k (List.mem_append.2 (List.mem_append.1 hk).symm) j
    (List.mem_append.2 (List.mem_append.1 hj).symm)

variable (labels : κ → List String) (m n : Coefficients κ Number)

/-- The terms of some coefficients as they are told, in the order of their labels. -/
def sorted : List ToldTerm :=
  (m.entries.map fun t => (⟨labels t.1, t.2.toInteger⟩ : ToldTerm)).mergeSort
    fun t u => labelsBefore t.labels u.labels

/-- Terms are sorted by their labels only. -/
theorem map_tell_sortTerms :
    (sortTerms (m.entries.map fun t => (⟨labels t.1, t.2⟩ : LabelledTerm Number))).map tell =
      sorted labels m := by
  have h : ∀ ts : List (LabelledTerm Number), (sortTerms ts).map tell =
      (ts.map tell).mergeSort fun t u => labelsBefore t.labels u.labels :=
    fun ts => List.map_mergeSort fun t _ u _ => rfl
  rw [h, List.map_map]
  rfl

theorem pairwise_sorted : (sorted labels m).Pairwise fun t u => t.labels ≤ u.labels := by
  refine List.Pairwise.imp
    (fun {t u : ToldTerm} h => (labelsBefore_iff t.labels u.labels).1 h)
    (List.pairwise_mergeSort (fun t u v => ?_) (fun t u => ?_) _)
  · simpa only [labelsBefore_iff] using le_trans
  · simpa only [Bool.or_eq_true, labelsBefore_iff] using le_total _ _

variable [DecidableEq κ]

theorem mem_sorted_iff (t : ToldTerm) : t ∈ sorted labels m ↔
    ∃ k a, m.get? k = some a ∧ labels k = t.labels ∧ a.toInteger = t.coefficient := by
  rw [sorted, List.mem_mergeSort, List.mem_map]
  constructor
  · rintro ⟨⟨k, a⟩, hmem, rfl⟩
    exact ⟨k, a, (m.mem_entries_iff k a).1 hmem, rfl, rfl⟩
  · rintro ⟨k, a, hget, hlabels, hvalue⟩
    refine ⟨(k, a), (m.mem_entries_iff k a).2 hget, ?_⟩
    simp [hlabels, hvalue]

variable {labels m n}

theorem mem_keys_of_get? {m : Coefficients κ Number} {k : κ} {a : Number} (h : m.get? k = some a) :
    k ∈ m.keys :=
  List.mem_map_of_mem (f := Prod.fst) ((m.mem_entries_iff k a).2 h)

/-- What is told of a key in one way is told of it in the other. -/
theorem get?_of_sorted_eq (h : TellsApart labels m n) (heq : sorted labels m = sorted labels n)
    {k : κ} {a : Number} (hk : m.get? k = some a) : (n.get? k).map Number.toInteger = some a.toInteger := by
  have hmem : (⟨labels k, a.toInteger⟩ : ToldTerm) ∈ sorted labels n :=
    heq ▸ (mem_sorted_iff labels m _).2 ⟨k, a, hk, rfl, rfl⟩
  obtain ⟨j, b, hj, hlabels, hvalue⟩ := (mem_sorted_iff labels n _).1 hmem
  obtain rfl : j = k := h j (List.mem_append_right _ (mem_keys_of_get? hj)) k
    (List.mem_append_left _ (mem_keys_of_get? hk)) hlabels
  rw [hj, Option.map_some, hvalue]

/-- **Sorted terms are the same exactly if the coefficients are.** -/
theorem sorted_eq_iff (h : TellsApart labels m n) : sorted labels m = sorted labels n ↔
    ∀ k, (m.get? k).map Number.toInteger = (n.get? k).map Number.toInteger := by
  constructor
  · intro heq k
    cases hk : m.get? k with
    | some a => exact (get?_of_sorted_eq h heq hk).symm
    | none =>
        cases hk' : n.get? k with
        | none => rfl
        | some b =>
            have hb := get?_of_sorted_eq h.symm heq.symm hk'
            rw [hk] at hb
            cases hb
  · intro hget
    have hperm : (sorted labels m).Perm (sorted labels n) := by
      have hentries : (m.map Number.toInteger).entries.Perm (n.map Number.toInteger).entries :=
        Coefficients.perm_of_get?_eq fun k => by simpa using hget k
      have htold := hentries.map fun t => (⟨labels t.1, t.2⟩ : ToldTerm)
      simp only [Coefficients.map, List.map_map] at htold
      exact ((List.mergeSort_perm _ _).trans htold).trans (List.mergeSort_perm _ _).symm
    refine hperm.eq_of_pairwise (fun t u ht hu htu hut => ?_) (pairwise_sorted labels m)
      (pairwise_sorted labels n)
    -- terms of the same labels are told of one key, which has one coefficient
    obtain ⟨k, a, hk, hkt, hat⟩ := (mem_sorted_iff labels m t).1 ht
    obtain ⟨j, b, hj, hju, hbu⟩ := (mem_sorted_iff labels n u).1 hu
    have hlabels : t.labels = u.labels := le_antisymm htu hut
    obtain rfl : k = j := h k (List.mem_append_left _ (mem_keys_of_get? hk)) j
      (List.mem_append_right _ (mem_keys_of_get? hj)) (hkt.trans (hlabels.trans hju.symm))
    have hvalue := hget k
    rw [hk, hj, Option.map_some, Option.map_some, Option.some_inj] at hvalue
    obtain ⟨ls, c⟩ := t
    obtain ⟨ms, d⟩ := u
    simp only at hlabels hat hbu
    rw [hlabels, ← hat, ← hbu, hvalue]

end Sorted

/-! ### Expressions -/

/-- The labels of a variable that stands alone. -/
def variableLabels (env : Environment Number) (v : Variable) : List String := [env.label v]

/-- The labels of a pair, the earlier one first. -/
def pairLabels (env : Environment Number) (p : VariablePair) : List String :=
  [env.label (env.labelOrder p).1, env.label (env.labelOrder p).2]

theorem map_tell_sortedTerms (env : Environment Number) (e : Expression Number) :
    (e.sortedTerms env).map tell =
      sorted (pairLabels env) e.quadratic ++ sorted (variableLabels env) e.linear := by
  rw [sortedTerms, List.map_append, ← map_tell_sortTerms, ← map_tell_sortTerms]
  rfl

theorem length_labels_of_mem_sorted {κ : Type} (labels : κ → List String) {length : Nat}
    (h : ∀ k, (labels k).length = length) {m : Coefficients κ Number} {t : ToldTerm}
    (ht : t ∈ sorted labels m) : t.labels.length = length := by
  rw [sorted, List.mem_mergeSort] at ht
  obtain ⟨e, -, rfl⟩ := List.mem_map.1 ht
  exact h e.1

/-- The number of its labels tells what a term is. -/
theorem filter_told (env : Environment Number) (e : Expression Number) :
    (e.told env).filter (fun t => t.labels.length == 2) = sorted (pairLabels env) e.quadratic ∧
      (e.told env).filter (fun t => t.labels.length == 1) = sorted (variableLabels env) e.linear := by
  have hpair : ∀ t ∈ sorted (pairLabels env) e.quadratic, t.labels.length = 2 :=
    fun t => length_labels_of_mem_sorted (pairLabels env) fun p => rfl
  have hvariable : ∀ t ∈ sorted (variableLabels env) e.linear, t.labels.length = 1 :=
    fun t => length_labels_of_mem_sorted (variableLabels env) fun v => rfl
  have hconstant : ∀ (p : Prop) [Decidable p] (k : Nat), k ≠ 0 →
      (if p then [] else [(⟨[], e.constant.toInteger⟩ : ToldTerm)]).filter
        (fun t => t.labels.length == k) = [] := by
    intro p _ k hk
    split <;> simp [hk.symm]
  rw [told, map_tell_sortedTerms]
  simp only [List.filter_append]
  rw [hconstant _ 2 (by decide), hconstant _ 1 (by decide), List.append_nil, List.append_nil]
  constructor
  · rw [List.filter_eq_self.2 fun t ht => beq_iff_eq.2 (hpair t ht),
      List.filter_eq_nil_iff.2 fun t ht => by simp [hvariable t ht], List.append_nil]
  · rw [List.filter_eq_self.2 fun t ht => beq_iff_eq.2 (hvariable t ht),
      List.filter_eq_nil_iff.2 fun t ht => by simp [hpair t ht], List.nil_append]

/-- Behind the other terms the constant is told, or none is told where it is zero. -/
theorem constant_eq_of_told_eq {env : Environment Number} {e f : Expression Number}
    (hterms : (e.sortedTerms env).map tell = (f.sortedTerms env).map tell)
    (h : e.told env = f.told env) : e.constant.toInteger = f.constant.toInteger := by
  rw [told, told, hterms] at h
  have hrest := List.append_cancel_left h
  split at hrest
  · next he =>
      split at hrest
      · next hf => exact he.1.trans hf.1.symm
      · cases hrest
  · split at hrest
    · cases hrest
    · exact congrArg LabelledTerm.coefficient (List.cons.inj hrest).1

theorem told_eq_told_iff {env : Environment Number} {e f : Expression Number} :
    e.told env = f.told env ↔ e.constant.toInteger = f.constant.toInteger ∧
      sorted (variableLabels env) e.linear = sorted (variableLabels env) f.linear ∧
      sorted (pairLabels env) e.quadratic = sorted (pairLabels env) f.quadratic := by
  constructor
  · intro h
    have hlinear : sorted (variableLabels env) e.linear = sorted (variableLabels env) f.linear := by
      rw [← (filter_told env e).2, h, (filter_told env f).2]
    have hquadratic : sorted (pairLabels env) e.quadratic = sorted (pairLabels env) f.quadratic := by
      rw [← (filter_told env e).1, h, (filter_told env f).1]
    refine ⟨constant_eq_of_told_eq ?_ h, hlinear, hquadratic⟩
    rw [map_tell_sortedTerms, map_tell_sortedTerms, hlinear, hquadratic]
  · rintro ⟨hconstant, hlinear, hquadratic⟩
    have hterms : (e.sortedTerms env).map tell = (f.sortedTerms env).map tell := by
      rw [map_tell_sortedTerms, map_tell_sortedTerms, hlinear, hquadratic]
    have hempty : e.sortedTerms env = [] ↔ f.sortedTerms env = [] := by
      rw [← List.map_eq_nil_iff (f := tell), hterms, List.map_eq_nil_iff]
    rw [told, told, hterms, hconstant]
    simp only [ne_eq, hempty]

/-- Two expressions with equal coefficients, and equal constants. -/
structure SameCoefficients (e f : Expression Number) : Prop where
  constant : (e.constant == f.constant) = true
  linear : ∀ v, (e.linear.get? v == f.linear.get? v) = true
  quadratic : ∀ p, (e.quadratic.get? p == f.quadratic.get? p) = true

/-- Labels are identifiers, and different variables of two expressions have different ones. -/
structure HasIdentifiers (env : Environment Number) (e f : Expression Number) : Prop where
  identifier : ∀ v ∈ e.vars ++ f.vars, isIdentifier (env.label v) = true
  distinct : ∀ v ∈ e.vars ++ f.vars, ∀ w ∈ e.vars ++ f.vars, env.label v = env.label w → v = w

theorem HasIdentifiers.tellsApart_linear {env : Environment Number} {e f : Expression Number}
    (h : HasIdentifiers env e f) : TellsApart (variableLabels env) e.linear f.linear := by
  have hmem : ∀ v ∈ e.linear.keys ++ f.linear.keys, v ∈ e.vars ++ f.vars := fun v hv =>
    List.mem_append.2 ((List.mem_append.1 hv).imp mem_vars_of_mem_linear mem_vars_of_mem_linear)
  intro v hv w hw hlabels
  exact h.distinct v (hmem v hv) w (hmem w hw) (List.cons.inj hlabels).1

theorem mem_vars_of_labelOrder (env : Environment Number) {e : Expression Number} {p : VariablePair}
    (h : p ∈ e.quadratic.keys) :
    (env.labelOrder p).1 ∈ e.vars ∧ (env.labelOrder p).2 ∈ e.vars := by
  obtain ⟨hfirst, hsecond⟩ := mem_vars_of_mem_quadratic h
  unfold Environment.labelOrder
  split
  · exact ⟨hsecond, hfirst⟩
  · exact ⟨hfirst, hsecond⟩

theorem HasIdentifiers.tellsApart_quadratic {env : Environment Number} {e f : Expression Number}
    (h : HasIdentifiers env e f) : TellsApart (pairLabels env) e.quadratic f.quadratic := by
  have hmem : ∀ p ∈ e.quadratic.keys ++ f.quadratic.keys,
      (env.labelOrder p).1 ∈ e.vars ++ f.vars ∧ (env.labelOrder p).2 ∈ e.vars ++ f.vars := by
    intro p hp
    simp only [List.mem_append]
    rcases List.mem_append.1 hp with hp | hp
    · exact (mem_vars_of_labelOrder env hp).imp .inl .inl
    · exact (mem_vars_of_labelOrder env hp).imp .inr .inr
  intro p hp r hr hlabels
  obtain ⟨hfirst, hrest⟩ := List.cons.inj hlabels
  rw [← env.of_labelOrder p, ← env.of_labelOrder r,
    h.distinct _ (hmem p hp).1 _ (hmem r hr).1 hfirst,
    h.distinct _ (hmem p hp).2 _ (hmem r hr).2 (List.cons.inj hrest).1]

theorem legible_of_mem_told {env : Environment Number} {e : Expression Number}
    (h : ∀ v ∈ e.vars, isIdentifier (env.label v) = true) : ∀ t ∈ e.told env, Legible t := by
  intro t ht l hl
  rw [told, map_tell_sortedTerms] at ht
  rcases List.mem_append.1 ht with ht | ht
  · rcases List.mem_append.1 ht with ht | ht
    · obtain ⟨p, a, hp, hlabels, -⟩ := (mem_sorted_iff _ _ t).1 ht
      obtain ⟨hfirst, hsecond⟩ := mem_vars_of_labelOrder env (mem_keys_of_get? hp)
      rw [← hlabels, pairLabels] at hl
      rcases List.mem_cons.1 hl with rfl | hl
      · exact h _ hfirst
      · rw [List.mem_singleton.1 hl]
        exact h _ hsecond
    · obtain ⟨v, a, hv, hlabels, -⟩ := (mem_sorted_iff _ _ t).1 ht
      rw [← hlabels, variableLabels] at hl
      rw [List.mem_singleton.1 hl]
      exact h _ (mem_vars_of_mem_linear (mem_keys_of_get? hv))
  · split at ht
    · cases ht
    · rw [List.mem_singleton.1 ht] at hl
      cases hl

theorem told_ne_nil (env : Environment Number) (e : Expression Number) : e.told env ≠ [] := by
  rw [told]
  split
  · next h => simpa using h.2
  · simp

/-- Coefficients that are small whole numbers are equal exactly if they are the same whole numbers. -/
theorem get?_beq_iff {κ : Type} [DecidableEq κ] {m n : Coefficients κ Number}
    (hm : ∀ t ∈ m.entries, t.2.IsSmallWhole) (hn : ∀ t ∈ n.entries, t.2.IsSmallWhole) (k : κ) :
    (m.get? k == n.get? k) = true ↔
      (m.get? k).map Number.toInteger = (n.get? k).map Number.toInteger := by
  cases hk : m.get? k with
  | none =>
      cases hk' : n.get? k with
      | none => simp
      | some b => simp
  | some a =>
      cases hk' : n.get? k with
      | none => simp
      | some b =>
          have hbeq := (hm _ ((m.mem_entries_iff k a).2 hk)).beq_iff (hn _ ((n.mem_entries_iff k b).2 hk'))
          simpa using hbeq

/-- **Texts are the same exactly if coefficients are.** -/
theorem text_eq_text_iff {env : Environment Number} {e f : Expression Number} (he : e.HasSmallWholes)
    (hf : f.HasSmallWholes) (h : HasIdentifiers env e f) :
    e.text env = f.text env ↔ SameCoefficients e f := by
  have htold : e.text env = f.text env ↔ e.told env = f.told env := by
    rw [← String.toList_inj, toList_text he, toList_text hf]
    refine ⟨lead_injective (legible_of_mem_told fun v hv => ?_) (legible_of_mem_told fun v hv => ?_)
      (told_ne_nil env e) (told_ne_nil env f), congrArg lead⟩
    · exact h.identifier v (List.mem_append_left _ hv)
    · exact h.identifier v (List.mem_append_right _ hv)
  have hlinear := get?_beq_iff (fun t ht => (he.linear t ht).1) (fun t ht => (hf.linear t ht).1)
  have hquadratic := get?_beq_iff (fun t ht => (he.quadratic t ht).1)
    (fun t ht => (hf.quadratic t ht).1)
  rw [htold, told_eq_told_iff, sorted_eq_iff h.tellsApart_linear, sorted_eq_iff h.tellsApart_quadratic,
    ← he.constant.beq_iff hf.constant]
  constructor
  · rintro ⟨hc, hl, hq⟩
    exact ⟨hc, fun v => (hlinear v).2 (hl v), fun p => (hquadratic p).2 (hq p)⟩
  · intro hsame
    exact ⟨hsame.constant, fun v => (hlinear v).1 (hsame.linear v),
      fun p => (hquadratic p).1 (hsame.quadratic p)⟩

/-! ### Two orders of the same terms -/

/-- Two variables, of which the later one is called by the earlier name. -/
def twoNames : Environment Number where
  attributes v := ⟨.continuous, 0, 1, some (if v.slot = 0 then "y" else "x")⟩
  infinity _ := Scalar.infinity

/-- A polynomial in two variables. -/
def inOneOrder : Expression Number where
  constant := .whole 1
  linear := .ofList [(⟨0, 0⟩, .whole 3), (⟨0, 1⟩, .real (-2.0))]
  quadratic := .single (.of ⟨0, 0⟩ ⟨0, 1⟩) (.whole 5)

/-- The same polynomial, its terms and its product in another order and its numbers of other kinds. -/
def inOtherOrder : Expression Number where
  constant := .real 1.0
  linear := .ofList [(⟨0, 1⟩, .whole (-2)), (⟨0, 0⟩, .real 3.0)]
  quadratic := .single (.of ⟨0, 1⟩ ⟨0, 0⟩) (.real 5.0)

theorem hasSmallWholes_inOneOrder : inOneOrder.HasSmallWholes := by
  refine ⟨⟨1, rfl, by decide⟩, fun t ht => ?_, fun t ht => ?_⟩
  · change t ∈ [(_, _), (_, _)] at ht
    simp only [List.mem_cons, List.not_mem_nil, or_false] at ht
    rcases ht with rfl | rfl
    · exact ⟨⟨3, rfl, by decide⟩, by decide +kernel⟩
    · exact ⟨⟨-2, by decide +kernel, by decide⟩, by decide +kernel⟩
  · obtain rfl := List.mem_singleton.1 ht
    exact ⟨⟨5, rfl, by decide⟩, by decide +kernel⟩

theorem hasSmallWholes_inOtherOrder : inOtherOrder.HasSmallWholes := by
  refine ⟨⟨1, by decide +kernel, by decide⟩, fun t ht => ?_, fun t ht => ?_⟩
  · change t ∈ [(_, _), (_, _)] at ht
    simp only [List.mem_cons, List.not_mem_nil, or_false] at ht
    rcases ht with rfl | rfl
    · exact ⟨⟨-2, rfl, by decide⟩, by decide +kernel⟩
    · exact ⟨⟨3, by decide +kernel, by decide⟩, by decide +kernel⟩
  · obtain rfl := List.mem_singleton.1 ht
    exact ⟨⟨5, by decide +kernel, by decide⟩, by decide +kernel⟩

theorem hasIdentifiers_twoNames : HasIdentifiers twoNames inOneOrder inOtherOrder := by
  have hvars : ∀ v ∈ inOneOrder.vars ++ inOtherOrder.vars, v = ⟨0, 0⟩ ∨ v = ⟨0, 1⟩ := by
    have hone : inOneOrder.linear.keys = [⟨0, 0⟩, ⟨0, 1⟩] ∧
        inOneOrder.quadratic.keys = [.of ⟨0, 0⟩ ⟨0, 1⟩] := ⟨rfl, rfl⟩
    have hother : inOtherOrder.linear.keys = [⟨0, 1⟩, ⟨0, 0⟩] ∧
        inOtherOrder.quadratic.keys = [.of ⟨0, 0⟩ ⟨0, 1⟩] := ⟨rfl, rfl⟩
    have hpair : (VariablePair.of ⟨0, 0⟩ ⟨0, 1⟩).first = ⟨0, 0⟩ ∧
        (VariablePair.of ⟨0, 0⟩ ⟨0, 1⟩).second = ⟨0, 1⟩ := ⟨rfl, rfl⟩
    intro v hv
    simp only [List.mem_append, mem_vars_iff, hone, hother, List.mem_cons, List.not_mem_nil, or_false,
      exists_eq_left, hpair] at hv
    tauto
  constructor
  · intro v hv
    rcases hvars v hv with rfl | rfl <;> decide
  · intro v hv w hw
    rcases hvars v hv with rfl | rfl <;> rcases hvars w hw with rfl | rfl <;> decide

theorem sameCoefficients_inOtherOrder : SameCoefficients inOneOrder inOtherOrder := by
  refine ⟨by decide +kernel, fun v => ?_, fun p => ?_⟩
  · by_cases hy : v = ⟨0, 0⟩
    · subst hy
      decide +kernel
    · by_cases hx : v = ⟨0, 1⟩
      · subst hx
        decide +kernel
      · simp [inOneOrder, inOtherOrder, Coefficients.ofList, Coefficients.get?_insert, Ne.symm hy,
          Ne.symm hx]
  · have hpair : VariablePair.of ⟨0, 1⟩ ⟨0, 0⟩ = .of ⟨0, 0⟩ ⟨0, 1⟩ := rfl
    rw [inOneOrder, inOtherOrder, Coefficients.get?_single, Coefficients.get?_single, hpair]
    split
    · decide +kernel
    · rfl

/-- In whichever order its terms are, a polynomial has one text. -/
theorem text_eq_text_iff_in_other_order : inOneOrder.text twoNames = inOtherOrder.text twoNames :=
  (text_eq_text_iff hasSmallWholes_inOneOrder hasSmallWholes_inOtherOrder hasIdentifiers_twoNames).2
    sameCoefficients_inOtherOrder

end MixedInteger.Expression
