/-
**Kinds of variables.**

An engine may take some kinds of variables only, and a model refuses to declare a variable of another
kind.  It does not look again when the kind of a variable is changed.  So the kind of a variable is one
that the engine takes as long as it is the declared one, and whatever was asked for last afterwards.

Main definitions:

* `MixedInteger.Session.Request.kindFor` — the kind that a request asks for in a slot;
* `MixedInteger.Session.kindAfter` — the kind that requests leave a variable with;
* `MixedInteger.Session.Request.change` — what a request makes of the variable in a slot.

Main results:

* `MixedInteger.Session.slot_performIn` — **where a variable comes from**, for one request;
* `MixedInteger.Session.kind_perform` — where the kind of a variable comes from, for one request;
* `MixedInteger.Session.kind_run` — **for a run**: it was declared and taken, or asked for since;
* `MixedInteger.Session.kind_not_taken` — a variable of a kind that its engine does not take.
-/

import MixedInteger.Proofs.Capabilities

set_option autoImplicit false

namespace MixedInteger

variable {α : Type}

/-- A declaration that is not refused is of a kind that the engine takes, and adds a variable of this kind
and this name. -/
theorem Model.exists_of_declare [Scalar α] {m m' : Model α} {kind : Kind} {lower upper : Option α}
    {name : Option String} (h : m.declare kind lower upper name = .ok m') :
    kind ∈ m.capabilities.kinds ∧ ∃ a, a.kind = kind ∧ a.name = name ∧ m' = m.addVariable a := by
  unfold declare at h
  obtain ⟨u, hkind, h⟩ := exists_of_bind_eq_ok h
  unfold checkKind at hkind
  dsimp only at h
  split at hkind
  · next htaken =>
      split at h
      · cases h
      · cases h
        exact ⟨List.contains_iff_mem.1 htaken, _, rfl, rfl, rfl⟩
  · cases hkind

namespace Session

/-! ### Requests for a kind -/

/-- The last thing that is asked for, when there is one more request in front. -/
theorem getLast?_filterMap_cons {ρ β : Type} (f : ρ → Option β) (b : β) (r : ρ) (rest : List ρ) :
    ((r :: rest).filterMap f).getLast?.getD b = (rest.filterMap f).getLast?.getD ((f r).getD b) := by
  cases h : f r with
  | none => rw [List.filterMap_cons_none h, Option.getD_none]
  | some k => rw [List.filterMap_cons_some h, List.getLast?_cons, Option.getD_some, Option.getD_some]

/-- The kind that a request asks for in a slot. -/
def Request.kindFor (slot : Nat) : Request α → Option Kind
  | .setKind place kind => if place = slot then some kind else none
  | _ => none

/-- The kind of the variable in a slot after requests, if it was `kind` before them: the last one that
was asked for. -/
def kindAfter (slot : Nat) (kind : Kind) (requests : List (Request α)) : Kind :=
  (requests.filterMap (Request.kindFor slot)).getLast?.getD kind

theorem kindAfter_cons (slot : Nat) (kind : Kind) (r : Request α) (rest : List (Request α)) :
    kindAfter slot kind (r :: rest) = kindAfter slot ((r.kindFor slot).getD kind) rest :=
  getLast?_filterMap_cons _ kind r rest

/-- The kind that is left is the first one, or one that was asked for. -/
theorem kindAfter_eq_or_mem (slot : Nat) (kind : Kind) (requests : List (Request α)) :
    kindAfter slot kind requests = kind ∨
      .setKind slot (kindAfter slot kind requests) ∈ requests := by
  unfold kindAfter
  cases h : (requests.filterMap (Request.kindFor slot)).getLast? with
  | none => exact Or.inl rfl
  | some k =>
      right
      obtain ⟨r, hr, hk⟩ := List.mem_filterMap.1 (List.mem_of_getLast? h)
      unfold Request.kindFor at hk
      split at hk
      · next place kind' =>
          split at hk
          · next hplace =>
              cases hk
              rwa [← hplace]
          · cases hk
      · cases hk

/-! ### One request -/

/-- What a request makes of the attributes of the variable in a slot. -/
def Request.change (slot : Nat) : Request α → Attributes α → Attributes α
  | .setLower place bound, a => if place = slot then { a with lower := bound } else a
  | .setUpper place bound, a => if place = slot then { a with upper := bound } else a
  | .setKind place kind, a => if place = slot then { a with kind := kind } else a
  | .setName place name, a => if place = slot then { a with name := name } else a
  | _, a => a

/-- A change changes the kind to the one that is asked for, if any. -/
theorem Request.kind_change (r : Request α) (slot : Nat) (a : Attributes α) :
    (r.change slot a).kind = (r.kindFor slot).getD a.kind := by
  cases r with
  | setLower place | setUpper place | setKind place | setName place =>
      by_cases h : place = slot <;> simp [change, kindFor, h]
  | _ => rfl

variable [Scalar α] [Roots α] {s : Session α}

/-- Recording leaves the variables as they are, whatever is refused. -/
theorem slots_of_addition (env : Environment α) {r : Request α} (h : r.isAddition = true) :
    (s.performIn env r).2.model.slots = s.model.slots := by
  let P : Model α → Prop := fun m => m.slots = s.model.slots
  have hpost : ∀ (c : Constraint α) (m m' : Model α), P m → m.post c = .ok m' → P m' := by
    intro c m m' hm hpost
    rw [Model.eq_of_post hpost]
    exact hm
  have hnative : ∀ (i : Implication α) (m m' : Model α), P m →
      m.postImplication env i = .ok m' → P m' := by
    intro i m m' hm hpost
    rw [Model.eq_of_postImplication hpost]
    exact hm
  have hs : P s.model := rfl
  cases r with
  | add c => exact of_ensures (Posting.ensures_constraint (hpost _)) hs
  | addImplication i =>
      exact of_ensures (Posting.ensures_implication (fun _ _ c _ => hpost _) (hnative i)) hs
  | record c => exact of_change hs fun m' => hpost c _ m' hs
  | recordImplication i => exact of_change hs fun m' => hnative i _ m' hs
  | _ => cases h

omit [Scalar α] [Roots α] in
/-- An objective leaves the variables as they are. -/
theorem slots_of_setObjective (sense : Sense) (e : Expression α) :
    (s.post (Posting.change (·.setObjective sense e))).2.model.slots = s.model.slots := by
  refine of_change (P := fun m => m.slots = s.model.slots) rfl fun m' hm => ?_
  rw [Model.eq_of_setObjective hm]

omit [Scalar α] [Roots α] in
/-- A changed variable is the one that was in the slot before, changed if the slot is meant. -/
theorem exists_of_update {place slot : Nat} {f : Attributes α → Attributes α} {a : Attributes α}
    (h : (s.update place f).2.model.slots[slot]? = some a) :
    ∃ b, s.model.slots[slot]? = some b ∧ a = if place = slot then f b else b := by
  have hslots : (s.update place f).2.model.slots = s.model.slots.modify place f := rfl
  rw [hslots, List.getElem?_modify] at h
  obtain ⟨b, hb, rfl⟩ := Option.map_eq_some_iff.1 h
  exact ⟨b, hb, by split <;> rfl⟩

/-- **Where a variable comes from**: it was there and is changed as the request asks, or it is declared
now, of a kind that the engine takes. -/
theorem slot_performIn (env : Environment α) {r : Request α} {slot : Nat} {a : Attributes α}
    (h : (s.performIn env r).2.model.slots[slot]? = some a) :
    (∃ b, s.model.slots[slot]? = some b ∧ a = r.change slot b) ∨
      ∃ lower upper, r = .declare a.kind lower upper a.name ∧ (s.performIn env r).1 = .ok () ∧
        slot = s.model.size ∧ a.kind ∈ s.model.capabilities.kinds := by
  cases r with
  | declare kind lower upper name =>
      have hpost : s.performIn env (.declare kind lower upper name) =
          s.post (Posting.change (·.declare kind lower upper name)) := rfl
      rw [hpost, post, Posting.run_change, show s.state.model = s.model from rfl] at h ⊢
      cases hd : s.model.declare kind lower upper name with
      | error f =>
          rw [hd] at h
          exact Or.inl ⟨a, h, rfl⟩
      | ok m =>
          obtain ⟨htaken, b, rfl, rfl, rfl⟩ := Model.exists_of_declare hd
          rw [hd] at h
          have hslots : (s.model.slots ++ [b])[slot]? = some a := h
          rw [List.getElem?_append] at hslots
          split at hslots
          · exact Or.inl ⟨a, hslots, rfl⟩
          · next hle =>
              obtain ⟨hindex, rfl⟩ := List.getElem?_eq_some_iff.1 hslots
              rw [List.length_singleton] at hindex
              refine Or.inr ⟨lower, upper, by simp, rfl, ?_, by simpa using htaken⟩
              unfold Model.size
              omega
  | setLower | setUpper | setKind | setName => exact Or.inl (exists_of_update h)
  | configure options => exact Or.inl ⟨a, h, rfl⟩
  | setObjective sense e => exact Or.inl ⟨a, (slots_of_setObjective sense e) ▸ h, rfl⟩
  | add | addImplication | record | recordImplication =>
      rw [slots_of_addition env rfl] at h
      exact Or.inl ⟨a, h, rfl⟩

/-- A request is the declaration of the variable in a slot, of a kind that the engine takes. -/
structure Declares (s : Session α) (r : Request α) (slot : Nat) (kind : Kind) : Prop where
  request : ∃ lower upper name, r = .declare kind lower upper name
  accepted : (s.perform r).1 = .ok ()
  slot : slot = s.model.size
  taken : kind ∈ s.model.capabilities.kinds

/-- **Where the kind of a variable comes from**: the variable was there and nothing, or just this kind,
was asked for; or it is declared now. -/
theorem kind_perform {r : Request α} {slot : Nat} {a : Attributes α}
    (h : (s.perform r).2.model.slots[slot]? = some a) :
    (∃ b, s.model.slots[slot]? = some b ∧ a.kind = (r.kindFor slot).getD b.kind) ∨
      s.Declares r slot a.kind := by
  rw [← performIn_environment] at h
  rcases slot_performIn s.environment h with ⟨b, hb, rfl⟩ | ⟨lower, upper, hr, hok, hslot, htaken⟩
  · exact Or.inl ⟨b, hb, r.kind_change slot b⟩
  · rw [performIn_environment] at hok
    exact Or.inr ⟨⟨lower, upper, a.name, hr⟩, hok, hslot, htaken⟩

/-! ### Runs -/

/-- **Where the kind of a variable comes from**, for a run: the variable was there before it, or some
request of it declared the variable; and the kind is the last one that was asked for since. -/
theorem kind_run_from {requests : List (Request α)} {slot : Nat} {a : Attributes α}
    (h : (s.run requests).model.slots[slot]? = some a) :
    (∃ b, s.model.slots[slot]? = some b ∧ a.kind = kindAfter slot b.kind requests) ∨
      ∃ before r after kind, requests = before ++ r :: after ∧ (s.run before).Declares r slot kind ∧
        a.kind = kindAfter slot kind after := by
  induction requests generalizing s with
  | nil => exact Or.inl ⟨a, h, rfl⟩
  | cons r rest ih =>
      rcases ih h with ⟨b, hb, hkind⟩ | ⟨before, r', after, kind, rfl, hdeclares, hkind⟩
      · -- the variable is there after the first request, which may be the one that declares it
        rcases kind_perform hb with ⟨b', hb', hb⟩ | hdeclares
        · exact Or.inl ⟨b', hb', by rw [kindAfter_cons, hkind, hb]⟩
        · exact Or.inr ⟨[], r, rest, b.kind, rfl, hdeclares, hkind⟩
      · exact Or.inr ⟨r :: before, r', after, kind, rfl, hdeclares, hkind⟩

/-- No change of a model changes what its engine takes. -/
theorem capabilities_run (requests : List (Request α)) :
    (s.run requests).model.capabilities = s.model.capabilities := by
  have hstable : Model.Stable (fun m : Model α => m.capabilities = s.model.capabilities) :=
    { declare := by
        intro m m' kind lower upper name hm h
        obtain ⟨a, rfl⟩ := Model.eq_of_declare h
        exact hm
      update := fun slot f hm => hm
      post := by
        intro m m' c hm h
        rw [Model.eq_of_post h]
        exact hm
      postImplication := by
        intro env m m' i hm h
        rw [Model.eq_of_postImplication h]
        exact hm
      setObjective := by
        intro m m' sense e hm h
        rw [Model.eq_of_setObjective h]
        exact hm }
  exact hstable.run rfl requests

/-- **Every variable of a model was declared, of a kind that its engine takes**; and its kind is that
one, or the last one that has been asked for since.  So a kind that the engine does not take has been
asked for after the declaration. -/
theorem kind_run {engine : Engine} {capabilities : Capabilities} {infinity : α}
    {o : PostingOptions α} {requests : List (Request α)} {slot : Nat} {a : Attributes α}
    (h : ((start (Model.empty engine capabilities infinity) o).run requests).model.slots[slot]? =
      some a) :
    ∃ before r after kind, requests = before ++ r :: after ∧
      ((start (Model.empty engine capabilities infinity) o).run before).Declares r slot kind ∧
      kind ∈ capabilities.kinds ∧ a.kind = kindAfter slot kind after ∧
      (a.kind ∈ capabilities.kinds ∨ .setKind slot a.kind ∈ after) := by
  rcases kind_run_from h with ⟨b, hb, -⟩ | ⟨before, r, after, kind, hrequests, hdeclares, hkind⟩
  · exact absurd hb (by simp [start, model, Model.empty])
  · have htaken := hdeclares.taken
    rw [capabilities_run] at htaken
    refine ⟨before, r, after, kind, hrequests, hdeclares, htaken, hkind, ?_⟩
    rcases kindAfter_eq_or_mem slot kind after with hfirst | hasked
    · exact Or.inl (by rwa [hkind, hfirst])
    · exact Or.inr (by rwa [hkind])

/-- An engine that takes continuous variables only refuses a whole one, and then is given one by a
change of kind. -/
theorem kind_run_of_change :
    let requests : List (Request Float) :=
      [.declare .integer none none none, .declare .continuous none none (some "x"),
        .setKind 0 .binary, .setKind 0 .integer]
    let s := start (Model.empty .memory { kinds := [.continuous] } Scalar.infinity) ⟨.native, none⟩
    ∃ a, (s.run requests).model.slots[0]? = some a ∧
      ∃ before r after kind, requests = before ++ r :: after ∧ (s.run before).Declares r 0 kind ∧
        kind ∈ [Kind.continuous] ∧ a.kind = kindAfter 0 kind after ∧
        (a.kind ∈ [Kind.continuous] ∨ .setKind 0 a.kind ∈ after) := by
  intro requests s
  have hsome : (s.run requests).model.slots[0]?.isSome = true := by decide +kernel
  obtain ⟨a, ha⟩ := Option.isSome_iff_exists.1 hsome
  exact ⟨a, ha, kind_run ha⟩

/-- **A model may hold a variable of a kind that its engine does not take**: one that was declared
continuous, and of which whole values are asked for afterwards. -/
theorem kind_not_taken :
    ¬ ∀ (capabilities : Capabilities) (infinity : Float) (o : PostingOptions Float)
      (requests : List (Request Float)), 0 < infinity →
        ∀ a ∈ ((start (Model.empty .memory capabilities infinity) o).run requests).model.slots,
          a.kind ∈ capabilities.kinds := by
  intro htaken
  let requests : List (Request Float) :=
    [.declare .continuous (some 0) (some 1) (some "x"), .setKind 0 .integer]
  let s := start (Model.empty .memory { kinds := [.continuous] } (Scalar.infinity : Float))
    ⟨.native, none⟩
  have hkinds : (s.run requests).model.slots.map (·.kind) = [.integer] := by decide +kernel
  obtain ⟨a, ha, hkind⟩ : ∃ a ∈ (s.run requests).model.slots, a.kind = .integer :=
    List.mem_map.1 (hkinds ▸ List.mem_singleton_self _)
  have hmem := htaken { kinds := [.continuous] } Scalar.infinity ⟨.native, none⟩ requests
    (by decide +kernel) a ha
  rw [hkind] at hmem
  exact absurd hmem (by decide)

end Session

end MixedInteger
