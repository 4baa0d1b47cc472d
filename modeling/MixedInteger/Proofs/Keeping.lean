/-
**Settings are kept.**

What is saved is a text with a line for each field.  It is plain: names and words of letters, and numbers
with a point.  So it is read as the record that was written, and settings that keep the rules are read
from their record.  The file stands where the surroundings say, and whoever could put it there can go there
again.

Main definitions:

* `MixedInteger.Settings.HasText` — a value is read from its text within a line.

Main results:

* `MixedInteger.Settings.isField_of_mem_toFields` — each field is read as it is written;
* `MixedInteger.Settings.document_text` — the text of settings stands for the record of their fields;
* `MixedInteger.Settings.ofBytes_text` — settings that keep the rules are read from their own bytes;
* `MixedInteger.Settings.Storage.load_of_save` — they are loaded from where they were saved;
* `MixedInteger.Script.Upkeep.load_after_save` — **what was saved is loaded**, whatever was stored before.
-/

import MixedInteger.Proofs.Acceptance
import MixedInteger.Proofs.Forgiveness
import MixedInteger.Proofs.RealTexts
import MixedInteger.Script.Upkeep

set_option autoImplicit false

namespace MixedInteger

namespace Settings

open Yaml (isOrdinary isPrintable IsWord IsKeyWord Means)
open Yaml.Making (IsField written)

/-! ### Fields -/

/-- A value is read from its text within a line. -/
structure HasText (d : Document) : Prop where
  isWord : IsWord (valueText d).toList
  means : Means (valueText d) d

theorem hasText_bool (b : Bool) : HasText (.bool b) := by
  have htag : ∀ b, Yaml.Tag.ofPlain (valueText (.bool b)) = .truth := by decide +kernel
  have hvalue : ∀ b, Yaml.Tag.truthWords.lookup (valueText (.bool b)).toLower = some b := by decide +kernel
  refine ⟨?_, ?_, ?_⟩
  · cases b <;> decide
  · rw [htag]
    rfl
  · rw [htag, Yaml.readScalar, hvalue]
    rfl

theorem hasText_engine (e : Engine) : HasText (.string e.word) := by
  cases e <;> exact ⟨by decide, Yaml.means_of_text (by decide +kernel)⟩

theorem hasText_policy (q : Policy) : HasText (.string q.word) := by
  cases q <;> exact ⟨by decide, Yaml.means_of_text (by decide +kernel)⟩

theorem hasText_real (x : Float) : HasText (.real x) := ⟨Yaml.isWord_settings x, Yaml.means_settings x⟩

/-- A field with a name of its own and a value that has a text. -/
theorem isField {name : String} {d : Document} (hkey : IsKeyWord name.toList)
    (htag : Yaml.Tag.ofPlain name = .text) (hd : HasText d) : IsField valueText (name, d) :=
  ⟨⟨hkey, hd.isWord⟩, htag, hd.means⟩

/-- **Each field of settings is read as it is written.** -/
theorem isField_of_mem_toFields (x : Settings) : ∀ f ∈ x.toFields, IsField valueText f := by
  intro f hf
  simp only [toFields, List.mem_cons, List.not_mem_nil, or_false] at hf
  rcases hf with rfl | rfl | rfl | rfl | rfl | rfl | rfl
  · exact isField (by decide) (by decide +kernel) (hasText_engine _)
  · exact isField (by decide) (by decide +kernel) (hasText_policy _)
  · exact isField (by decide) (by decide +kernel) (hasText_bool _)
  · exact isField (by decide) (by decide +kernel) (hasText_real _)
  · exact isField (by decide) (by decide +kernel) (hasText_real _)
  · exact isField (by decide) (by decide +kernel) (hasText_real _)
  · exact isField (by decide) (by decide +kernel) (hasText_bool _)

theorem nodup_names (x : Settings) : (x.toFields.map Prod.fst).Nodup := by
  simp [toFields]

/-! ### Texts -/

/-- The text of settings is a line for each field. -/
theorem toList_text (x : Settings) :
    x.text.toList = (x.toFields.map (written valueText)).flatMap Yaml.Lex.line := by
  rw [text, String.toList_join, List.flatMap_map, List.flatMap_map]
  refine List.flatMap_congr fun f _ => ?_
  simp [Yaml.Lex.line, written]

/-- **The text of settings stands for the record of their fields.** -/
theorem document_text (x : Settings) : Yaml.document ⟨x.text.toList, none⟩ = .ok (.record x.toFields) := by
  rw [toList_text]
  exact Yaml.document_lines (isField_of_mem_toFields x) (nodup_names x)

/-- Its characters are those of words, and what separates these. -/
theorem mem_text {x : Settings} {c : Char} (hc : c ∈ x.text.toList) :
    isOrdinary c = true ∨ c = ':' ∨ c = ' ' ∨ c = '\n' := by
  rw [toList_text] at hc
  obtain ⟨g, hg, hc⟩ := List.mem_flatMap.1 hc
  obtain ⟨f, hf, rfl⟩ := List.mem_map.1 hg
  obtain ⟨hkey, hword⟩ := (isField_of_mem_toFields x f hf).line
  simp only [Yaml.Lex.line, List.mem_append, List.mem_cons, List.not_mem_nil, or_false] at hc
  rcases hc with hc | rfl | rfl | hc | rfl
  · exact .inl (hkey.ordinary c hc)
  · exact .inr (.inl rfl)
  · exact .inr (.inr (.inl rfl))
  · exact .inl (hword.ordinary c hc)
  · exact .inr (.inr (.inr rfl))

/-- The bytes of settings are those of their text, whose lines are broken by line feeds. -/
theorem decode?_text (x : Settings) : decode? x.text.toUTF8 = some x.text := by
  have hbytes : String.fromUTF8? x.text.toUTF8 = some x.text := dif_pos x.text.isValidUTF8
  have hbreaks : ∀ cs : List Char, '\r' ∉ cs → Yaml.unifyBreaks cs = cs := by
    intro cs
    induction cs with
    | nil => exact fun _ => rfl
    | cons c cs ih =>
        intro h
        simp only [List.mem_cons, not_or] at h
        rw [Yaml.unifyBreaks, ih h.2]
        · exact fun _ h' => absurd h'.symm h.1
        · exact fun h' => absurd h'.symm h.1
  have hfeeds : '\r' ∉ x.text.toList := by
    intro h
    rcases mem_text h with h | h | h | h
    · exact absurd h (by decide)
    all_goals exact absurd h (by decide)
  rw [decode?, hbytes, Option.map_some, hbreaks _ hfeeds, String.ofList_toList]

/-- **Settings that keep the rules are read from their own bytes.** -/
theorem ofBytes_text {x : Settings} (h : check x = .ok x) : ofBytes x.text.toUTF8 = .ok x := by
  have hprintable : ∀ c ∈ x.text.toList, isPrintable c = true := by
    intro c hc
    rcases mem_text hc with h | rfl | rfl | rfl
    · exact Yaml.isPrintable_of_isOrdinary h
    all_goals decide
  have hread : read (.record x.toFields) = .ok x := read_toDocument h
  rw [ofBytes_of_decode? (decode?_text x), Yaml.Stream.ofChars_of_printable hprintable,
    ofStream_of_record (document_text x), ofRecord, hread]
  rfl

/-! ### Storages -/

namespace Storage

theorem find_put_of_ne (s : Storage) {p q : Place} (x : Stored) (h : q ≠ p) :
    (s.put p x).find q = s.find q := by
  have hpq : (p == q) = false := beq_eq_false_iff_ne.2 (Ne.symm h)
  have hfilter : (s.entries.filter fun e => e.1 != p).find? (fun e => e.1 == q) =
      s.entries.find? fun e => e.1 == q := by
    rw [List.find?_filter]
    congr 1
    funext e
    by_cases he : e.1 = q
    · simp [he, h]
    · simp [he]
  simp only [find, put, List.find?_cons, hpq, hfilter]

/-- What is put at a place does not stand in the way to it. -/
theorem obstacleFrom_put (s : Storage) (x : Stored) (reached : Place) (rest : List String) :
    (s.put (reached ++ rest) x).obstacleFrom reached rest = s.obstacleFrom reached rest := by
  induction rest generalizing reached with
  | nil => rfl
  | cons name rest ih =>
      have hne : reached ≠ reached ++ name :: rest := by simp
      have hrest := ih (reached ++ [name])
      rw [List.append_assoc, List.singleton_append] at hrest
      simp only [obstacleFrom, find_put_of_ne s x hne, hrest]

variable {s t : Storage} {p : Place} {x : Settings}

/-- The way to what was saved is free. -/
theorem obstacle?_of_save (h : s.save p x = .ok t) : t.obstacle? p = none := by
  obtain ⟨d, -, hfree, rfl⟩ := exists_of_write h
  have hput := obstacleFrom_put d (.file x.text.toUTF8) [] p
  rw [List.nil_append] at hput
  rw [obstacle?, hput]
  exact hfree

/-- Settings that keep the rules are loaded from where they were saved. -/
theorem load_of_save (hp : p ≠ []) (hx : check x = .ok x) (h : s.save p x = .ok t) : t.load p = .ok x := by
  rw [load_of_file (find_of_save hp h), ofBytes_text hx]

end Storage

theorem Surroundings.ne_nil_of_file? {u : Surroundings} {p : Place} (h : u.file? = some p) : p ≠ [] := by
  obtain ⟨d, -, rfl⟩ := Option.map_eq_some_iff.1 h
  simp

end Settings

namespace Script.Upkeep

variable {o : Office} {p : Settings.Place} {x : Settings}

/-! ### Steps -/

theorem run_get : (get : Upkeep Office).run.run o = pure (.ok o, o) := rfl

theorem run_file (h : o.surroundings.file? = some p) : file.run.run o = pure (.ok p, o) := by
  simp only [file, ExceptT.run_bind, StateT.run_bind, run_get, pure_bind, h]
  rfl

theorem run_file_of_none (h : o.surroundings.file? = none) :
    file.run.run o = pure (.error (.storage .unknownUser), o) := by
  simp only [file, ExceptT.run_bind, StateT.run_bind, run_get, pure_bind, h]
  rfl

/-- What could be stored is stored; else something may be left behind. -/
theorem run_store (directory : Settings.Place)
    (f : Settings.Storage → Except Settings.StorageFault Settings.Storage) :
    (store directory f).run.run o = pure (
      match f o.storage with
      | .ok t => (.ok (), { o with storage := t })
      | .error e => (.error (.storage e),
          if e == .tooLong then { o with storage := o.storage.leftBehind directory } else o)) := by
  simp only [store, ExceptT.run_bind, StateT.run_bind, run_get, pure_bind]
  cases f o.storage with
  | ok t => rfl
  | error e =>
      cases h : e == .tooLong
      · simp only [h]; rfl
      · simp only [h]; rfl

/-- Where settings are saved, they are put in the file that the surroundings name. -/
theorem exists_of_save {values : Document} {o' : Office} {v : View} (hx : Settings.read values = .ok x)
    (h : (perform (.save values)).run.run o = (.ok v, o')) :
    ∃ p t, o.surroundings.file? = some p ∧ o.storage.save p x = .ok t ∧ o' = { o with storage := t } := by
  have hread : (inWorkspace (Run.liftChecked (Settings.read values))).run.run o = pure (.ok x, o) := by
    rw [hx]
    rfl
  simp only [perform, ExceptT.run_bind, StateT.run_bind, hread, pure_bind] at h
  cases hfile : o.surroundings.file? with
  | none =>
      simp only [run_file_of_none hfile, pure_bind] at h
      cases h
  | some p =>
      simp only [run_file hfile, pure_bind, StateT.run_bind, run_store] at h
      cases hsave : o.storage.save p x with
      | error e =>
          simp only [hsave] at h
          cases h
      | ok t =>
          simp only [hsave] at h
          cases h
          exact ⟨p, t, rfl, hsave, rfl⟩

/-- What is at the file that the surroundings name is loaded, if the way to it is free. -/
theorem run_load (hfile : o.surroundings.file? = some p) (hfree : o.storage.obstacle? p = none)
    (hload : o.storage.load p = .ok x) : (perform .load).run.run o = (.ok (.settings x), o) := by
  have htext : (inWorkspace (Run.liftText (o.storage.load p))).run.run o = pure (.ok x, o) := by
    rw [hload]
    rfl
  have hlong : (none == some Settings.StorageFault.tooLong) = false := rfl
  simp only [perform, load, ExceptT.run_bind, StateT.run_bind, run_file hfile, run_get, pure_bind, hfree,
    hlong, Bool.false_eq_true, if_false, htext]
  rfl

/-- **What was saved is loaded.**  Whatever the surroundings are and whatever was stored before, settings
that could be saved are in force afterwards, each field as it was. -/
theorem load_after_save {values : Document} {o' : Office} {v : View} (hx : Settings.read values = .ok x)
    (h : (perform (.save values)).run.run o = (.ok v, o')) :
    (perform .load).run.run o' = (.ok (.settings x), o') := by
  obtain ⟨p, t, hfile, hsave, rfl⟩ := exists_of_save hx h
  exact run_load hfile (Settings.Storage.obstacle?_of_save hsave)
    (Settings.Storage.load_of_save (Settings.Surroundings.ne_nil_of_file? hfile)
      (Settings.check_of_read hx) hsave)

/-- Settings for which no coefficient is too great. -/
def unlimited : Settings where
  skipUpper := 1.0 / 0.0
  wideSpread := 1.0 / 0.0

/-- An office without any directory. -/
def bareOffice : Office := .initial ⟨none, none, [], ["root"], []⟩ []

/-- Infinite thresholds are kept, also where a directory has to be made for them. -/
theorem load_after_save_unlimited :
    Settings.read unlimited.toDocument = .ok unlimited ∧ ∃ o',
      (perform (.save unlimited.toDocument)).run.run bareOffice =
        (.ok (.text "/root/.miplib/config.yaml"), o') ∧
      (perform .load).run.run o' = (.ok (.settings unlimited), o') := by
  have hx : Settings.read unlimited.toDocument = .ok unlimited := by
    refine Settings.read_toDocument ((Settings.check_eq_ok_iff _ _).2 ⟨rfl, ?_, ?_, ?_⟩) <;> decide +kernel
  have hsave : (perform (.save unlimited.toDocument)).run.run bareOffice =
      (.ok (.text "/root/.miplib/config.yaml"), _) := rfl
  exact ⟨hx, _, hsave, load_after_save hx hsave⟩

end Script.Upkeep

end MixedInteger
