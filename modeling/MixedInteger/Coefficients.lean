/-
**Coefficients by key, in the order of their first arrival.**

A finite map from keys to coefficients that remembers the order in which its keys came.  Adding to a
key keeps its place; a total that becomes zero removes the key.

Main definitions:

* `MixedInteger.Coefficients` — the map, its keys distinct by construction;
* `MixedInteger.Coefficients.insert`, `MixedInteger.Coefficients.erase`,
  `MixedInteger.Coefficients.accumulate` — setting, removing, and adding to a coefficient;
* `MixedInteger.Coefficients.map` — one function on every coefficient.

Main results:

* `MixedInteger.Coefficients.get?_insert`, `MixedInteger.Coefficients.get?_map` — what an operation does to
  a lookup;
* `MixedInteger.Coefficients.perm_of_get?_eq` — coefficients that look up alike differ in their order
  only.
-/

import MixedInteger.Scalar.Basic

set_option autoImplicit false

namespace MixedInteger

/-- Coefficients by key, in the order of their first arrival. -/
structure Coefficients (κ α : Type) where
  entries : List (κ × α)
  nodup : (entries.map Prod.fst).Nodup

namespace Coefficients

variable {κ α β : Type}

/-! ### Reading -/

/-- No coefficients. -/
def empty : Coefficients κ α := ⟨[], by simp⟩

/-- Whether there are no coefficients. -/
def isEmpty (m : Coefficients κ α) : Bool := m.entries.isEmpty

/-- The keys in order. -/
def keys (m : Coefficients κ α) : List κ := m.entries.map Prod.fst

/-- The coefficients in the order of their keys. -/
def values (m : Coefficients κ α) : List α := m.entries.map Prod.snd

/-- The coefficient of a key. -/
def get? [DecidableEq κ] (m : Coefficients κ α) (k : κ) : Option α :=
  (m.entries.find? fun e => decide (e.1 = k)).map Prod.snd

/-! ### Setting and removing -/

/-- The entries with the coefficient of `k` replaced. -/
def replaced [DecidableEq κ] (k : κ) (a : α) (es : List (κ × α)) : List (κ × α) :=
  es.map fun e => if e.1 = k then (e.1, a) else e

theorem replaced_keys [DecidableEq κ] (k : κ) (a : α) (es : List (κ × α)) :
    (replaced k a es).map Prod.fst = es.map Prod.fst := by
  simp only [replaced, List.map_map]
  apply List.map_congr_left
  intro e _
  by_cases h : e.1 = k <;> simp [h]

/-- Sets the coefficient of a key: a key that is there keeps its place, a new one comes last. -/
def insert [DecidableEq κ] (m : Coefficients κ α) (k : κ) (a : α) : Coefficients κ α :=
  if h : k ∈ m.entries.map Prod.fst then
    ⟨replaced k a m.entries, by rw [replaced_keys]; exact m.nodup⟩
  else
    ⟨m.entries ++ [(k, a)], by
      simp only [List.map_append, List.map_cons, List.map_nil]
      rw [List.nodup_append]
      refine ⟨m.nodup, by simp, ?_⟩
      intro x hx y hy
      simp only [List.mem_singleton] at hy
      rintro rfl
      exact h (hy ▸ hx)⟩

/-- Removes a key. -/
def erase [DecidableEq κ] (m : Coefficients κ α) (k : κ) : Coefficients κ α :=
  ⟨m.entries.filter fun e => decide (e.1 ≠ k),
    m.nodup.sublist (List.Sublist.map _ List.filter_sublist)⟩

/-- One function on every coefficient. -/
def map (f : α → β) (m : Coefficients κ α) : Coefficients κ β :=
  ⟨m.entries.map fun e => (e.1, f e.2), by
    have h : (m.entries.map fun e => (e.1, f e.2)).map Prod.fst = m.entries.map Prod.fst := by
      simp
    rw [h]; exact m.nodup⟩

/-- One function on every coefficient in front of the first one that fails a test. -/
def mapEntriesWhile (p : α → Bool) (f : α → α) : List (κ × α) → List (κ × α)
  | [] => []
  | e :: rest => if p e.2 then (e.1, f e.2) :: mapEntriesWhile p f rest else e :: rest

theorem mapEntriesWhile_keys (p : α → Bool) (f : α → α) (es : List (κ × α)) :
    (mapEntriesWhile p f es).map Prod.fst = es.map Prod.fst := by
  induction es with
  | nil => rfl
  | cons e rest ih => by_cases h : p e.2 = true <;> simp [mapEntriesWhile, h, ih]

theorem mapEntriesWhile_of_all {p : α → Bool} (f : α → α) {es : List (κ × α)}
    (h : ∀ e ∈ es, p e.2 = true) : mapEntriesWhile p f es = es.map fun e => (e.1, f e.2) := by
  induction es with
  | nil => rfl
  | cons e rest ih =>
      rw [mapEntriesWhile, if_pos (h e List.mem_cons_self), List.map_cons,
        ih fun x hx => h x (List.mem_cons_of_mem _ hx)]

/-- One function on every coefficient in front of the first one that fails a test. -/
def mapWhile (p : α → Bool) (f : α → α) (m : Coefficients κ α) : Coefficients κ α :=
  ⟨mapEntriesWhile p f m.entries, by rw [mapEntriesWhile_keys]; exact m.nodup⟩

/-- Whether all coefficients pass a test. -/
def all (p : α → Bool) (m : Coefficients κ α) : Bool := m.entries.all fun e => p e.2

theorem mapWhile_of_all {p : α → Bool} (f : α → α) {m : Coefficients κ α} (h : m.all p = true) :
    m.mapWhile p f = m.map f := by
  have he : mapEntriesWhile p f m.entries = m.entries.map fun e => (e.1, f e.2) :=
    mapEntriesWhile_of_all f (by simpa [all] using h)
  simp only [mapWhile, map, he]

/-- One coefficient. -/
def single (k : κ) (a : α) : Coefficients κ α := ⟨[(k, a)], by simp⟩

/-- The coefficients of a list of pairs; a repeated key keeps its first place and takes its last
value. -/
def ofList [DecidableEq κ] (es : List (κ × α)) : Coefficients κ α :=
  es.foldl (fun m e => m.insert e.1 e.2) empty

/-! ### Adding -/

/-- Adds to the coefficient of a key.  A total of zero removes the key. -/
def accumulate [DecidableEq κ] [Scalar α] (m : Coefficients κ α) (k : κ) (c : α) :
    Coefficients κ α :=
  let total := (m.get? k).getD 0 + c
  if total == 0 then m.erase k else m.insert k total

/-- Adds a list of coefficients one after the other. -/
def accumulateAll [DecidableEq κ] [Scalar α] (m : Coefficients κ α) (es : List (κ × α)) :
    Coefficients κ α :=
  es.foldl (fun m e => m.accumulate e.1 e.2) m

/-! ### Lookups -/

@[simp] theorem get?_empty [DecidableEq κ] (k : κ) : (empty : Coefficients κ α).get? k = none :=
  rfl

@[simp] theorem get?_single [DecidableEq κ] (k j : κ) (a : α) :
    (single k a).get? j = if k = j then some a else none := by
  by_cases h : k = j <;> simp [single, get?, h]

theorem find?_replaced [DecidableEq κ] (k j : κ) (a : α) (es : List (κ × α)) :
    (replaced k a es).find? (fun e => decide (e.1 = j)) =
      (es.find? fun e => decide (e.1 = j)).map fun e => if e.1 = k then (e.1, a) else e := by
  rw [replaced, List.find?_map]
  congr 2
  funext e
  by_cases h : e.1 = k <;> simp [h]

theorem get?_insert [DecidableEq κ] (m : Coefficients κ α) (k j : κ) (a : α) :
    (m.insert k a).get? j = if k = j then some a else m.get? j := by
  by_cases hk : k ∈ m.entries.map Prod.fst
  · have hi : (m.insert k a).entries = replaced k a m.entries := by simp [insert, hk]
    rw [get?, hi, find?_replaced, Option.map_map]
    cases hf : m.entries.find? fun e => decide (e.1 = j) with
    | none =>
        have hj : ¬ k = j := by
          rintro rfl
          obtain ⟨e, he, rfl⟩ := List.mem_map.1 hk
          simpa using List.find?_eq_none.1 hf e he
        simp [get?, hf, hj]
    | some e =>
        have he : e.1 = j := by simpa using List.find?_some hf
        by_cases hj : k = j
        · simp [he, hj]
        · simp [get?, hf, he, Ne.symm hj, hj]
  · have hi : (m.insert k a).entries = m.entries ++ [(k, a)] := by simp [insert, hk]
    rw [get?, hi, List.find?_append]
    by_cases hj : k = j
    · have hf : m.entries.find? (fun e => decide (e.1 = j)) = none := by
        simp only [List.find?_eq_none, decide_eq_true_eq]
        intro e he h
        exact hk (List.mem_map.2 ⟨e, he, h.trans hj.symm⟩)
      simp [hf, hj]
    · simp [get?, hj]

/-- After setting a coefficient, an entry is the new one or was there before. -/
theorem eq_or_mem_of_mem_insert [DecidableEq κ] {m : Coefficients κ α} {k : κ} {a : α} {t : κ × α}
    (h : t ∈ (m.insert k a).entries) : t = (k, a) ∨ t ∈ m.entries := by
  unfold insert at h
  split at h
  · obtain ⟨e, he, rfl⟩ := List.mem_map.1 h
    by_cases hk : e.1 = k
    · left
      simp [hk]
    · right
      simpa [hk] using he
  · rcases List.mem_append.1 h with h | h
    · exact Or.inr h
    · exact Or.inl (List.mem_singleton.1 h)

@[simp] theorem get?_map [DecidableEq κ] (f : α → β) (m : Coefficients κ α) (k : κ) :
    (m.map f).get? k = (m.get? k).map f := by
  obtain ⟨es, hes⟩ := m
  simp only [map, get?, List.find?_map, Option.map_map]
  rfl

@[simp] theorem keys_map (f : α → β) (m : Coefficients κ α) : (m.map f).keys = m.keys := by
  simp [map, keys]

@[simp] theorem isEmpty_map (f : α → β) (m : Coefficients κ α) :
    (m.map f).isEmpty = m.isEmpty := by
  simp [map, isEmpty]

/-- An entry is what its key looks up, keys being distinct. -/
theorem mem_entries_iff [DecidableEq κ] (m : Coefficients κ α) (k : κ) (a : α) :
    (k, a) ∈ m.entries ↔ m.get? k = some a := by
  obtain ⟨es, hes⟩ := m
  simp only [get?]
  induction es with
  | nil => simp
  | cons e rest ih =>
      simp only [List.map_cons, List.nodup_cons] at hes
      by_cases hk : e.1 = k
      · have hr : (k, a) ∉ rest := fun h => hes.1 (hk ▸ List.mem_map_of_mem (f := Prod.fst) h)
        obtain ⟨j, b⟩ := e
        obtain rfl : j = k := hk
        simp [hr, eq_comm]
      · have he : (k, a) ≠ e := fun h => hk (congrArg Prod.fst h).symm
        rw [List.mem_cons, List.find?_cons_of_neg (by simpa using hk), ih hes.2]
        simp [he]

/-- No entry comes twice. -/
theorem nodup_entries (m : Coefficients κ α) : m.entries.Nodup :=
  List.Pairwise.of_map Prod.fst (fun _ _ h he => h (congrArg Prod.fst he)) m.nodup

/-- Coefficients that look up alike are the same but for their order. -/
theorem perm_of_get?_eq [DecidableEq κ] {m n : Coefficients κ α} (h : ∀ k, m.get? k = n.get? k) :
    m.entries.Perm n.entries := by
  classical
  rw [List.perm_ext_iff_of_nodup m.nodup_entries n.nodup_entries]
  rintro ⟨k, a⟩
  rw [mem_entries_iff, mem_entries_iff, h]

/-- Adding to a coefficient brings in no other key. -/
theorem eq_or_mem_of_mem_accumulate [DecidableEq κ] [Scalar α] {m : Coefficients κ α} {k j : κ}
    {c : α} (h : j ∈ (m.accumulate k c).keys) : j = k ∨ j ∈ m.keys := by
  obtain ⟨t, ht, rfl⟩ := List.mem_map.1 h
  unfold accumulate at ht
  dsimp only at ht
  split at ht
  · exact Or.inr (List.mem_map_of_mem (List.mem_filter.1 ht).1)
  · rcases eq_or_mem_of_mem_insert ht with rfl | ht
    · exact Or.inl rfl
    · exact Or.inr (List.mem_map_of_mem ht)

theorem mem_or_mem_of_mem_accumulateAll [DecidableEq κ] [Scalar α] {m : Coefficients κ α}
    {es : List (κ × α)} {j : κ} (h : j ∈ (m.accumulateAll es).keys) :
    j ∈ m.keys ∨ j ∈ es.map Prod.fst := by
  induction es generalizing m with
  | nil => exact Or.inl h
  | cons t rest ih =>
      rcases ih h with h | h
      · rcases eq_or_mem_of_mem_accumulate h with rfl | h
        · exact Or.inr (List.mem_cons_self)
        · exact Or.inl h
      · exact Or.inr (List.mem_cons_of_mem _ h)

end Coefficients

end MixedInteger
