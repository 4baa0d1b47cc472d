/-
**Compact texts are read back.**

The text of a document without blanks says where each of its parts ends: a string at its quote, a list at
its bracket, a record at its brace, and a word or a numeral before the comma or the closing mark that
follows it.  So reading finds the parts again, each with less of the text than the whole.

Main definitions:

* `MixedInteger.Document.Plain` — documents whose text says everything about them;
* `MixedInteger.Document.ReadsAs` — texts of words and numerals.

Main results:

* `MixedInteger.Document.Parse.string_quoted` — a string is read back, whatever its characters;
* `MixedInteger.Document.documents_return` — so are values, items and fields, with fuel enough;
* `MixedInteger.Document.ofJson?_json` — **a document comes back from its compact text**.
-/

import MixedInteger.Document.Parse
import MixedInteger.Proofs.Numeral

set_option autoImplicit false

namespace MixedInteger.Document

namespace Parse

/-! ### Strings -/

/-- The four hexadecimal digits of a control character are read back. -/
theorem hexDigits_control {n : Nat} (hn : n < 32) : ∃ a b c d, Text.hexDigits 4 n = [a, b, c, d] ∧
    hexValue? [a, b, c, d] = some n := by
  have hall : ∀ n : Fin 32, (Text.hexDigits 4 n.val).length = 4 ∧
      hexValue? (Text.hexDigits 4 n.val) = some n.val := by decide +kernel
  obtain ⟨hlength, hvalue⟩ := hall ⟨n, hn⟩
  match h : Text.hexDigits 4 n, hlength with
  | [a, b, c, d], _ => exact ⟨a, b, c, d, rfl, h ▸ hvalue⟩

/-- A letter behind a backslash. -/
theorem string_backslash {x c : Char} (h : escaped? x = some c) (rest : List Char) :
    string ('\\' :: x :: rest) = (string rest).map fun p => (c :: p.1, p.2) := by
  have hu : x ≠ 'u' := by
    rintro rfl
    cases h
  rw [string]
  · rw [h]
    cases string rest <;> rfl
  · exact fun a b c d rest hx _ => hu hx

/-- A character that stands for itself. -/
theorem string_cons {c : Char} (hquote : c ≠ '"') (hback : c ≠ '\\') (rest : List Char) :
    string (c :: rest) = (string rest).map fun p => (c :: p.1, p.2) := by
  rw [string]
  · cases string rest <;> rfl
  · exact hquote
  · exact fun a b c d rest hc _ => hback hc
  · exact fun x rest hc _ => hback hc

/-- What stands for a character is read as that character. -/
theorem string_escapeCharacter (c : Char) (rest : List Char) :
    string (escapeCharacter c ++ rest) = (string rest).map fun p => (c :: p.1, p.2) := by
  unfold escapeCharacter
  split
  · next h => exact string_backslash (by rw [h]; rfl) rest
  split
  · next h => exact string_backslash (by rw [h]; rfl) rest
  split
  · next h => exact string_backslash (by rw [h]; rfl) rest
  split
  · next h => exact string_backslash (by rw [h]; rfl) rest
  split
  · next h => exact string_backslash (by rw [h]; rfl) rest
  split
  · next h =>
      have hc : c = Char.ofNat 8 := by rw [← h, Char.ofNat_toNat]
      exact string_backslash (by rw [hc]; rfl) rest
  split
  · next h =>
      have hc : c = Char.ofNat 12 := by rw [← h, Char.ofNat_toNat]
      exact string_backslash (by rw [hc]; rfl) rest
  split
  · next h =>
      obtain ⟨x, y, z, w, hdigits, hvalue⟩ := hexDigits_control h
      have hc : character? c.toNat = some c := by
        rw [character?, if_pos (show c.toNat.isValidChar from c.valid), Char.ofNat_toNat]
      rw [hdigits]
      simp only [List.cons_append, List.nil_append]
      rw [string, hvalue]
      simp only [Option.bind_eq_bind, Option.bind_some, hc]
      cases string rest <;> rfl
  · next hquote hback _ _ _ _ _ _ => exact string_cons hquote hback rest

/-- A quoted string is read back. -/
theorem string_quoted (s : List Char) (rest : List Char) :
    string (s.flatMap escapeCharacter ++ '"' :: rest) = some (s, rest) := by
  induction s with
  | nil => rw [List.flatMap_nil, List.nil_append, string]
  | cons c s ih =>
      rw [List.flatMap_cons, List.append_assoc, string_escapeCharacter, ih]
      rfl

theorem fieldName_quoted (name : String) (rest : List Char) :
    fieldName ((quoted name).toList ++ ':' :: rest) = some (name, rest) := by
  have hquoted : (quoted name).toList ++ ':' :: rest =
      '"' :: (name.toList.flatMap escapeCharacter ++ '"' :: ':' :: rest) := by
    simp [quoted]
  rw [hquoted, fieldName, string_quoted]
  simp

/-! ### Words and numerals -/

/-- What follows does not go on with a word or a numeral. -/
def Delimited (rest : List Char) : Prop := ∀ c ∈ rest.head?, inScalar c = false

theorem delimited_cons {c : Char} (h : inScalar c = false) (rest : List Char) :
    Delimited (c :: rest) := by
  intro x hx
  cases hx
  exact h

/-- A word or a numeral is read up to its end. -/
theorem value_scalar {cs : List Char} {d : Document} (h : scalar? cs = some d)
    (hcs : ∀ c ∈ cs, inScalar c = true) (hne : cs ≠ []) {rest : List Char}
    (hrest : Delimited rest) (fuel : Nat) : value (fuel + 1) (cs ++ rest) = some (d, rest) := by
  obtain ⟨htake, hdrop⟩ := Literal.takeWhile_append_of_stop hcs hrest
  obtain ⟨c, tail, rfl⟩ := List.exists_cons_of_ne_nil hne
  have hc : inScalar c = true := hcs c List.mem_cons_self
  rw [value]
  · rw [htake, hdrop, h]
    rfl
  all_goals
    intro _ hstart
    cases (List.cons.inj hstart).1
    exact absurd hc (by decide)

end Parse

/-! ### Compact texts -/

mutual

/-- A document that its text says everything about. -/
def Plain : Document → Prop
  | null | bool _ | whole _ | real _ | string _ => True
  | list items => PlainItems items
  | record fields => PlainFields fields
  | brokenString | bytes _ | foreign => False

/-- All items of a list are plain. -/
def PlainItems : List Document → Prop
  | [] => True
  | d :: rest => d.Plain ∧ PlainItems rest

/-- All fields of a record are plain. -/
def PlainFields : List (String × Document) → Prop
  | [] => True
  | (_, d) :: rest => d.Plain ∧ PlainFields rest

end

theorem plainItems_cons (d : Document) (rest : List Document) :
    PlainItems (d :: rest) ↔ d.Plain ∧ PlainItems rest := by
  rw [PlainItems]

theorem plainFields_cons (name : String) (d : Document) (rest : List (String × Document)) :
    PlainFields ((name, d) :: rest) ↔ d.Plain ∧ PlainFields rest := by
  rw [PlainFields]

/-- The text between the brackets of a list. -/
def itemsText (items : List Document) : List Char := (",".intercalate (jsonItems items)).toList

/-- The text between the braces of a record. -/
def fieldsText (fields : List (String × Document)) : List Char :=
  (",".intercalate (jsonFields fields)).toList

theorem itemsText_singleton (d : Document) : itemsText [d] = d.json.toList := by
  simp [itemsText, jsonItems]

theorem itemsText_cons (d e : Document) (rest : List Document) :
    itemsText (d :: e :: rest) = d.json.toList ++ ',' :: itemsText (e :: rest) := by
  simp [itemsText, jsonItems]

theorem fieldsText_singleton (name : String) (d : Document) :
    fieldsText [(name, d)] = (quoted name).toList ++ ':' :: d.json.toList := by
  simp [fieldsText, jsonFields]

theorem fieldsText_cons (name : String) (d : Document) (f : String × Document)
    (rest : List (String × Document)) :
    fieldsText ((name, d) :: f :: rest) =
      (quoted name).toList ++ ':' :: (d.json.toList ++ ',' :: fieldsText (f :: rest)) := by
  simp [fieldsText, jsonFields]

theorem json_list (items : List Document) :
    (list items).json.toList = '[' :: (itemsText items ++ [']']) := by
  simp [json, itemsText]

theorem json_record (fields : List (String × Document)) :
    (record fields).json.toList = '\x7b' :: (fieldsText fields ++ ['\x7d']) := by
  simp [json, fieldsText]

theorem toList_quoted (s : String) :
    (quoted s).toList = '"' :: (s.toList.flatMap escapeCharacter ++ ['"']) := by
  simp [quoted]

/-! ### Words and numerals -/

/-- A text that can be read as a scalar document: it is not empty, holds nothing but the characters of
words and numerals, and is read as the document. -/
structure ReadsAs (cs : List Char) (d : Document) : Prop where
  nonempty : cs ≠ []
  characters : ∀ c ∈ cs, Parse.inScalar c = true
  scalar : Parse.scalar? cs = some d

theorem readsAs_null : ReadsAs "null".toList null :=
  ⟨by decide, List.all_eq_true.1 rfl, rfl⟩

theorem readsAs_bool (b : Bool) : ReadsAs (if b then "true" else "false").toList (bool b) := by
  cases b
  · exact ⟨by decide, List.all_eq_true.1 rfl, rfl⟩
  · exact ⟨by decide, List.all_eq_true.1 rfl, rfl⟩

theorem inScalar_of_inNumeral {c : Char} (h : Literal.inNumeral c = true) : Parse.inScalar c = true := by
  simp only [Literal.inNumeral, Bool.or_eq_true, beq_iff_eq] at h
  rcases h with (((hdigit | rfl) | rfl) | rfl) | rfl
  · simp [Parse.inScalar, Char.isAlphanum, hdigit]
  all_goals rfl

/-- A text that is read as something else than a word is not that word. -/
theorem ne_of_read {β : Type} {read : List Char → Option β} {cs : List Char} {b : β}
    (h : read cs = some b) {word : List Char} (hword : read word = none) : cs ≠ word := by
  rintro rfl
  rw [hword] at h
  cases h

theorem readsAs_whole (n : Int) : ReadsAs (toString n).toList (whole n) := by
  have hread := Literal.whole?_toString n
  obtain ⟨hne, hcharacters⟩ := Literal.characters_of_whole? hread
  refine ⟨hne, fun c hc => inScalar_of_inNumeral ?_, ?_⟩
  · rcases hcharacters c hc with hdigit | rfl | rfl
    · exact Literal.inNumeral_of_isDigit hdigit
    · rfl
    · rfl
  · rw [Parse.scalar?, if_neg (ne_of_read hread rfl), if_neg (ne_of_read hread rfl),
      if_neg (ne_of_read hread rfl), hread]
    rfl

/-- The text of a double holds a character that no whole number has. -/
theorem whole?_snapshot (x : Float) : Literal.whole? (Notation.snapshot x).toList = none := by
  rcases Notation.snapshot_cases x with hword | ⟨s, d, hlayout⟩
  · generalize Notation.snapshot x = word at hword
    fin_cases hword <;> rfl
  · rw [hlayout, Option.eq_none_iff_forall_ne_some]
    intro n hn
    obtain ⟨c, hc, hmark⟩ := Notation.exists_mark_layout
      (show Notation.snapshotStyle.keepsPoint = true from rfl) d
    have hcharacter := (Literal.characters_of_whole? hn).2 c (by cases s <;> simp [hc])
    rcases hmark with rfl | rfl <;> exact absurd hcharacter (by decide)

theorem readsAs_real (x : Float) : ReadsAs (Notation.snapshot x).toList (real x) := by
  have hread := Notation.real?_snapshot x
  refine ⟨ne_of_read hread rfl, ?_, ?_⟩
  · rcases Notation.snapshot_cases x with hword | ⟨s, d, hlayout⟩
    · generalize Notation.snapshot x = word at hword
      fin_cases hword <;> exact List.all_eq_true.1 rfl
    · have hcharacters := (Notation.reads_layout Notation.snapshotStyle d).characters
      rw [hlayout]
      intro c hc
      cases s
      · exact inScalar_of_inNumeral (hcharacters c hc)
      · rcases List.mem_cons.1 hc with rfl | hc
        · rfl
        · exact inScalar_of_inNumeral (hcharacters c hc)
  · rw [Parse.scalar?, if_neg (ne_of_read hread rfl), if_neg (ne_of_read hread rfl),
      if_neg (ne_of_read hread rfl), whole?_snapshot x, hread]
    rfl

/-! ### Beginnings -/

/-- A word or a numeral begins with no closing bracket. -/
theorem ReadsAs.ne_bracket {cs : List Char} {d : Document} (h : ReadsAs cs d) (rest tail : List Char) :
    cs ++ rest ≠ ']' :: tail := by
  obtain ⟨c, cs, rfl⟩ := List.exists_cons_of_ne_nil h.nonempty
  intro hstart
  obtain rfl : c = ']' := (List.cons.inj hstart).1
  exact absurd (h.characters ']' List.mem_cons_self) (by decide)

/-- Nor does the text of any document that is plain. -/
theorem json_ne_bracket {d : Document} (hd : d.Plain) (rest tail : List Char) :
    d.json.toList ++ rest ≠ ']' :: tail := by
  cases d with
  | null => rw [json]; exact readsAs_null.ne_bracket rest tail
  | bool b => rw [json]; exact (readsAs_bool b).ne_bracket rest tail
  | whole n => rw [json]; exact (readsAs_whole n).ne_bracket rest tail
  | real x => rw [json]; exact (readsAs_real x).ne_bracket rest tail
  | string s => rw [json, toList_quoted]; exact fun h => absurd (List.cons.inj h).1 (by decide)
  | list items => rw [json_list]; exact fun h => absurd (List.cons.inj h).1 (by decide)
  | record fields => rw [json_record]; exact fun h => absurd (List.cons.inj h).1 (by decide)
  | brokenString => exact hd.elim
  | bytes b => exact hd.elim
  | foreign => exact hd.elim

theorem itemsText_ne_bracket {d : Document} (hd : d.Plain) (ds : List Document)
    (rest tail : List Char) : itemsText (d :: ds) ++ rest ≠ ']' :: tail := by
  cases ds with
  | nil =>
      rw [itemsText_singleton]
      exact json_ne_bracket hd rest tail
  | cons e ds =>
      rw [itemsText_cons, List.append_assoc]
      exact json_ne_bracket hd _ tail

theorem fieldsText_ne_brace (f : String × Document) (fs : List (String × Document))
    (rest tail : List Char) : fieldsText (f :: fs) ++ rest ≠ '\x7d' :: tail := by
  obtain ⟨name, d⟩ := f
  intro hstart
  cases fs with
  | nil =>
      rw [fieldsText_singleton, toList_quoted] at hstart
      exact absurd (List.cons.inj hstart).1 (by decide)
  | cons g fs =>
      rw [fieldsText_cons, toList_quoted] at hstart
      exact absurd (List.cons.inj hstart).1 (by decide)

/-! ### With fuel enough -/

section Fuel

/-- With that much fuel, values are read back, whatever follows them. -/
def ValuesReturn (fuel : Nat) : Prop :=
  ∀ d : Document, d.Plain → d.json.toList.length < fuel → ∀ rest, Parse.Delimited rest →
    Parse.value fuel (d.json.toList ++ rest) = some (d, rest)

/-- With that much fuel, the items of a list are read back up to the closing bracket. -/
def ItemsReturn (fuel : Nat) : Prop :=
  ∀ items : List Document, PlainItems items → items ≠ [] → (itemsText items).length + 1 < fuel →
    ∀ rest, Parse.items fuel (itemsText items ++ ']' :: rest) = some (items, rest)

/-- With that much fuel, the fields of a record are read back up to the closing brace. -/
def FieldsReturn (fuel : Nat) : Prop :=
  ∀ fields : List (String × Document), PlainFields fields → fields ≠ [] →
    (fieldsText fields).length + 1 < fuel →
      ∀ rest, Parse.fields fuel (fieldsText fields ++ '\x7d' :: rest) = some (fields, rest)

variable {fuel : Nat}

theorem valuesReturn_succ (hitems : ItemsReturn fuel) (hfields : FieldsReturn fuel) :
    ValuesReturn (fuel + 1) := by
  intro d hd hfuel rest hrest
  have hscalar : ∀ {cs : List Char}, ReadsAs cs d → d.json.toList = cs →
      Parse.value (fuel + 1) (d.json.toList ++ rest) = some (d, rest) := by
    rintro cs hcs rfl
    exact Parse.value_scalar hcs.scalar hcs.characters hcs.nonempty hrest fuel
  cases d with
  | null => exact hscalar readsAs_null (by rw [json])
  | bool b => exact hscalar (readsAs_bool b) (by rw [json])
  | whole n => exact hscalar (readsAs_whole n) (by rw [json])
  | real x => exact hscalar (readsAs_real x) (by rw [json])
  | string s =>
      rw [json, toList_quoted, List.cons_append, List.append_assoc, Parse.value,
        List.singleton_append, Parse.string_quoted]
      simp
  | list items =>
      -- what stands between the brackets is shorter than the whole, so less fuel is enough for it
      rw [json_list] at hfuel ⊢
      simp only [List.length_cons, List.length_append, List.length_nil] at hfuel
      cases items with
      | nil => rfl
      | cons d ds =>
          have hread := hitems (d :: ds) hd (List.cons_ne_nil d ds) (by omega) rest
          rw [List.cons_append, List.append_assoc, List.singleton_append, Parse.value, hread]
          · rfl
          · exact itemsText_ne_bracket ((plainItems_cons d ds).1 hd).1 ds _
  | record fields =>
      rw [json_record] at hfuel ⊢
      simp only [List.length_cons, List.length_append, List.length_nil] at hfuel
      cases fields with
      | nil => rfl
      | cons f fs =>
          have hread := hfields (f :: fs) hd (List.cons_ne_nil f fs) (by omega) rest
          rw [List.cons_append, List.append_assoc, List.singleton_append, Parse.value, hread]
          · rfl
          · exact fieldsText_ne_brace f fs _
  | brokenString => exact hd.elim
  | bytes b => exact hd.elim
  | foreign => exact hd.elim

theorem itemsReturn_succ (hvalues : ValuesReturn fuel) (hitems : ItemsReturn fuel) :
    ItemsReturn (fuel + 1) := by
  intro items hplain hne hfuel rest
  obtain ⟨d, ds, rfl⟩ := List.exists_cons_of_ne_nil hne
  obtain ⟨hd, hds⟩ := (plainItems_cons d ds).1 hplain
  cases ds with
  | nil =>
      rw [itemsText_singleton] at hfuel ⊢
      rw [Parse.items, hvalues d hd (by omega) _ (Parse.delimited_cons rfl rest)]
      rfl
  | cons e ds =>
      rw [itemsText_cons, List.length_append, List.length_cons] at hfuel
      have hread := hitems (e :: ds) hds (List.cons_ne_nil e ds) (by omega) rest
      rw [itemsText_cons, List.append_assoc, List.cons_append, Parse.items,
        hvalues d hd (by omega) _ (Parse.delimited_cons rfl _)]
      simp only [Option.bind_eq_bind, Option.bind_some, hread, Option.map_some]

theorem fieldsReturn_succ (hvalues : ValuesReturn fuel) (hfields : FieldsReturn fuel) :
    FieldsReturn (fuel + 1) := by
  intro fields hplain hne hfuel rest
  obtain ⟨⟨name, d⟩, fs, rfl⟩ := List.exists_cons_of_ne_nil hne
  obtain ⟨hd, hfs⟩ := (plainFields_cons name d fs).1 hplain
  cases fs with
  | nil =>
      rw [fieldsText_singleton, List.length_append, List.length_cons] at hfuel
      rw [fieldsText_singleton, List.append_assoc, List.cons_append, Parse.fields,
        Parse.fieldName_quoted]
      simp only [Option.bind_eq_bind, Option.bind_some]
      rw [hvalues d hd (by omega) _ (Parse.delimited_cons rfl rest)]
      rfl
  | cons f fs =>
      rw [fieldsText_cons, List.length_append, List.length_cons, List.length_append,
        List.length_cons] at hfuel
      have hread := hfields (f :: fs) hfs (List.cons_ne_nil f fs) (by omega) rest
      rw [fieldsText_cons, List.append_assoc, List.cons_append, List.append_assoc,
        List.cons_append, Parse.fields, Parse.fieldName_quoted]
      simp only [Option.bind_eq_bind, Option.bind_some]
      rw [hvalues d hd (by omega) _ (Parse.delimited_cons rfl _)]
      simp only [Option.bind_some, hread, Option.map_some]

/-- Every part of a document is read back with more fuel than its text has characters. -/
theorem documents_return (fuel : Nat) : ValuesReturn fuel ∧ ItemsReturn fuel ∧ FieldsReturn fuel := by
  -- each of the three kinds of reading calls the others with one unit of fuel less
  induction fuel with
  | zero =>
      refine ⟨fun d _ hfuel => ?_, fun items _ _ hfuel => ?_, fun fields _ _ hfuel => ?_⟩
      · exact absurd hfuel (Nat.not_lt_zero _)
      · exact absurd hfuel (Nat.not_lt_zero _)
      · exact absurd hfuel (Nat.not_lt_zero _)
  | succ fuel ih =>
      obtain ⟨hvalues, hitems, hfields⟩ := ih
      exact ⟨valuesReturn_succ hitems hfields, itemsReturn_succ hvalues hitems,
        fieldsReturn_succ hvalues hfields⟩

end Fuel

/-- **A document comes back from its compact text.** -/
theorem ofJson?_json {d : Document} (hd : d.Plain) : ofJson? d.json = some d := by
  have hread := (documents_return (d.json.toList.length + 1)).1 d hd (Nat.lt_succ_self _) []
    fun c hc => absurd hc (by simp)
  rw [List.append_nil] at hread
  rw [ofJson?, hread]

end MixedInteger.Document
