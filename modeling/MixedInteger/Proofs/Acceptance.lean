/-
**Which settings are accepted.**

The rules between the thresholds are told by comparisons that must not be true.  Of two numbers one is at
most the other, or greater, infinities included; so what must not be true of numbers says that the opposite
is.  But nothing compares with what is not a number, and a threshold that is none breaks no rule.  This is
the only way to settings that are accepted and cannot be used.

Main definitions:

* `MixedInteger.Settings.Usable` — the thresholds are ordered as they have to be;
* `MixedInteger.Settings.HasNumbers` — each threshold is a number.

Main results:

* `MixedInteger.Settings.exists_read_eq_ok_iff` — what keeps the rules is what is accepted;
* `MixedInteger.Settings.accepted_iff` — **which settings are accepted, and which of them can be used**;
* `MixedInteger.Settings.unusable_is_accepted` — **not all accepted settings can be used**.
-/

import MixedInteger.Proofs.Comparison
import MixedInteger.Settings.Basic

set_option autoImplicit false

namespace MixedInteger.Settings

/-- The thresholds are ordered as they have to be. -/
structure Usable (s : Settings) : Prop where
  positive : 0.0 < s.skipLower
  ordered : s.skipLower ≤ s.skipUpper
  wide : 1.0 < s.wideSpread

/-- Each threshold is a number. -/
structure HasNumbers (s : Settings) : Prop where
  skipLower : s.skipLower.isNaN = false
  skipUpper : s.skipUpper.isNaN = false
  wideSpread : s.wideSpread.isNaN = false

/-- The rules ask that some comparisons are not true. -/
theorem check_eq_ok_iff (s t : Settings) :
    check s = .ok t ↔ s = t ∧
      ¬ s.skipLower ≤ 0.0 ∧ ¬ s.skipUpper < s.skipLower ∧ ¬ s.wideSpread ≤ 1.0 := by
  constructor
  · intro h
    obtain ⟨u, hpositive, h⟩ := exists_of_bind_eq_ok h
    obtain ⟨v, hordered, h⟩ := exists_of_bind_eq_ok h
    simp only [Checked.require_eq_ok_iff, Bool.not_eq_true', decide_eq_false_iff_not] at hpositive hordered h
    exact ⟨h.2, hpositive.1, hordered.1, h.1⟩
  · rintro ⟨rfl, hpositive, hordered, hwide⟩
    simp [check, Checked.require, hpositive, hordered, hwide, bind, Except.bind]

/-! ### Documents -/

/-- What is read keeps the rules. -/
theorem check_of_read {d : Document} {s : Settings} (h : read d = .ok s) : check s = .ok s := by
  obtain ⟨fields, -, h⟩ := (Reader.record_eq_ok_iff _ d s).1 h
  obtain ⟨t, -, h⟩ := exists_of_bind_eq_ok h
  obtain rfl := ((check_eq_ok_iff _ s).1 h).1
  exact h

/-- What keeps the rules is read from its own document. -/
theorem read_toDocument {s : Settings} (h : check s = .ok s) : read s.toDocument = .ok s := by
  have hbool : ∀ b : Bool, Reader.bool (.bool b) = .ok b := fun b => rfl
  have hreal : ∀ x : Float, Reader.real (.real x) = .ok x := fun x => rfl
  rw [read, toDocument, Reader.record_eq_ok_iff]
  refine ⟨_, rfl, bind_eq_ok (b := (s.engine, s.policy, s.scaling, s.skipLower, s.skipUpper,
    s.wideSpread, s.ignoreInfinite)) ?_ h⟩
  simp only [Checked.both_eq_ok_iff, Reader.fieldOr_eq_ok_iff]
  simp [toFields, Document.lookup, Reader.word, Engine.ofWord?_word, Policy.ofWord?_word, hbool, hreal]

theorem exists_read_eq_ok_iff (s : Settings) : (∃ d, read d = .ok s) ↔ check s = .ok s :=
  ⟨fun ⟨_, h⟩ => check_of_read h, fun h => ⟨_, read_toDocument h⟩⟩

/-- **Which settings are accepted, and which of them can be used.**  Some document is accepted as these
settings exactly if each rule holds between numbers, or one of the thresholds that it compares is not a
number.  The settings that can be used are those of them whose thresholds are numbers, be they infinite. -/
theorem accepted_iff (s : Settings) :
    ((∃ d, read d = .ok s) ↔
      (0.0 < s.skipLower ∨ s.skipLower.isNaN = true) ∧
      (s.skipLower ≤ s.skipUpper ∨ s.skipUpper.isNaN = true ∨ s.skipLower.isNaN = true) ∧
      (1.0 < s.wideSpread ∨ s.wideSpread.isNaN = true)) ∧
    (s.Usable ↔ (∃ d, read d = .ok s) ∧ s.HasNumbers) := by
  have hzero : (0.0 : Float).isNaN = false := by decide +kernel
  have hone : (1.0 : Float).isNaN = false := by decide +kernel
  have haccepted : (∃ d, read d = .ok s) ↔
      (0.0 < s.skipLower ∨ s.skipLower.isNaN = true) ∧
      (s.skipLower ≤ s.skipUpper ∨ s.skipUpper.isNaN = true ∨ s.skipLower.isNaN = true) ∧
      (1.0 < s.wideSpread ∨ s.wideSpread.isNaN = true) := by
    rw [exists_read_eq_ok_iff, check_eq_ok_iff, Binary64.not_le_iff, Binary64.not_lt_iff,
      Binary64.not_le_iff]
    simp only [hzero, hone, Bool.false_eq_true, or_false, true_and]
  refine ⟨haccepted, ⟨fun h => ⟨haccepted.2 ⟨.inl h.positive, .inl h.ordered, .inl h.wide⟩, ?_⟩,
    fun ⟨h, hnumbers⟩ => ?_⟩⟩
  · exact ⟨(Binary64.isNaN_of_le h.ordered).1, (Binary64.isNaN_of_le h.ordered).2,
      (Binary64.isNaN_of_lt h.wide).2⟩
  · obtain ⟨hpositive, hordered, hwide⟩ := haccepted.1 h
    simp only [hnumbers.skipLower, hnumbers.skipUpper, hnumbers.wideSpread, Bool.false_eq_true,
      or_false] at hpositive hordered hwide
    exact ⟨hpositive, hordered, hwide⟩

/-- A document with words for what is not a number. -/
def numberless : Document :=
  .record [("scale_skip_lb", .string "nan"), ("amplitude_warning", .string "nan")]

/-- What is read from words for what is not a number. -/
def numberlessSettings : Settings where
  skipLower := 0.0 / 0.0
  wideSpread := 0.0 / 0.0

/-- **Not all accepted settings can be used**: these ones break no rule, and none of the comparisons is
true of them. -/
theorem unusable_is_accepted :
    read numberless = .ok numberlessSettings ∧ ¬ 0.0 < numberlessSettings.skipLower ∧
      ¬ numberlessSettings.skipLower ≤ numberlessSettings.skipUpper ∧
      ¬ 1.0 < numberlessSettings.wideSpread := by
  refine ⟨rfl, ?_, ?_, ?_⟩ <;> decide +kernel

end MixedInteger.Settings
