/-
**Reading typed values out of documents.**

A reader turns a document into a value, or says everything that is wrong with it, each problem with
the path to its place.  Scalars are read leniently: numbers from numerals, truth values from the usual
words, whole numbers from reals without a fraction.

Main definitions:

* `MixedInteger.Problem` — one thing that is wrong, and where;
* `MixedInteger.Checked` — a value, or all problems, and `MixedInteger.Checked.both` to join two;
* `MixedInteger.Reader` — readers; `Reader.bool`, `Reader.real`, `Reader.whole`, `Reader.word`,
  `Reader.optionalString`, `Reader.list`, `Reader.set`, `Reader.optional`;
* `MixedInteger.Reader.field`, `MixedInteger.Reader.fieldOr`, `MixedInteger.Reader.record` — fields of
  records.
-/

import MixedInteger.Document.Basic
import MixedInteger.Numeric.Typed

set_option autoImplicit false

namespace MixedInteger

/-! ### Problems -/

/-- What may be wrong with a place of a document. -/
inductive Problem.Cause where
  | missing
  | notRecord
  | notList
  | notSet
  | notString
  /-- A string that is no text, or bytes that are none. -/
  | brokenText
  | notListed
  | notBool
  | unreadableBool
  | notReal
  | unreadableReal
  | notWhole
  | unreadableWhole
  | fractional
  | notFinite
  | wholeTooLong
  /-- A rule between fields is broken. -/
  | rule (text : String)
  deriving Repr, DecidableEq

/-- One thing that is wrong, and the path to its place. -/
structure Problem where
  path : List String
  cause : Problem.Cause
  deriving Repr, DecidableEq

/-- A value, or everything that is wrong. -/
abbrev Checked (β : Type) := Except (List Problem) β

namespace Checked

variable {β γ : Type}

/-- One problem at the place itself. -/
def problem (cause : Problem.Cause) : Checked β := throw [⟨[], cause⟩]

/-- Both values, or the problems of both. -/
def both (x : Checked β) (y : Checked γ) : Checked (β × γ) :=
  match x, y with
  | .ok b, .ok c => .ok (b, c)
  | .ok _, .error q => .error q
  | .error p, .ok _ => .error p
  | .error p, .error q => .error (p ++ q)

@[simp] theorem both_eq_ok_iff (x : Checked β) (y : Checked γ) (b : β) (c : γ) :
    both x y = .ok (b, c) ↔ x = .ok b ∧ y = .ok c := by
  cases x <;> cases y <;> simp [both]

/-- All values of a list, or all problems. -/
def all : List (Checked β) → Checked (List β)
  | [] => .ok []
  | x :: rest => (both x (all rest)).map fun p => p.1 :: p.2

/-- Puts a step in front of the paths of problems. -/
def under (step : String) (x : Checked β) : Checked β :=
  x.mapError fun ps => ps.map fun p => { p with path := step :: p.path }

/-- Asks for a rule between fields. -/
def require (holds : Bool) (text : String) (b : β) : Checked β :=
  if holds then .ok b else problem (.rule text)

@[simp] theorem require_eq_ok_iff (holds : Bool) (text : String) (b c : β) :
    require holds text b = .ok c ↔ holds = true ∧ b = c := by
  cases holds <;> simp [require, problem, throw, throwThe, MonadExceptOf.throw]

@[simp] theorem under_eq_ok_iff (step : String) (x : Checked β) (b : β) :
    under step x = .ok b ↔ x = .ok b := by
  cases x with
  | error ps => exact iff_of_false (fun h => nomatch h) (fun h => nomatch h)
  | ok c => exact Iff.rfl

@[simp] theorem map_eq_ok_iff (f : β → γ) (x : Checked β) (c : γ) :
    x.map f = .ok c ↔ ∃ b, x = .ok b ∧ f b = c := by
  cases x <;> simp [Except.map]

/-- All values of a list are there if each of them is. -/
theorem all_eq_ok_iff (xs : List (Checked β)) (bs : List β) :
    all xs = .ok bs ↔ xs = bs.map .ok := by
  induction xs generalizing bs with
  | nil => cases bs <;> simp [all]
  | cons x rest ih =>
      cases bs with
      | nil => simp [all]
      | cons b bs => simp [all, ih]

end Checked

/-- A reader of values. -/
abbrev Reader (β : Type) := Document → Checked β

namespace Reader

open Checked

variable {β : Type}

/-! ### Scalars -/

/-- The words that stand for truth values, in any case. -/
def boolOfWord? (s : String) : Option Bool :=
  let w := String.ofList (s.toList.map Char.toLower)
  if ["1", "on", "t", "true", "y", "yes"].contains w then some true
  else if ["0", "off", "f", "false", "n", "no"].contains w then some false
  else none

/-- The truth value of a whole number. -/
def boolOfInt? (n : Int) : Option Bool :=
  if n = 0 then some false else if n = 1 then some true else none

/-- Whether a whole number has at most sixty-three binary digits. -/
def fitsWord (n : Int) : Bool := n.natAbs < twoPow 63

/-- Reads a truth value: one, zero, or a word for either.  A number beyond the machine's words does
not pass for a truth value at all. -/
def bool : Reader Bool
  | .bool b => .ok b
  | .whole n =>
    if isWord n then
      (boolOfInt? n).elim (problem .unreadableBool) .ok
    else problem .notBool
  | .string s => (boolOfWord? s).elim (problem .unreadableBool) .ok
  | .brokenString => problem .brokenText
  | .bytes b => ((String.fromUTF8? b).bind boolOfWord?).elim (problem .unreadableBool) .ok
  | .real x =>
    match (Binary64.ofFloat x).toInt? with
    | some n =>
      if fitsWord n then (boolOfInt? n).elim (problem .unreadableBool) .ok else problem .notBool
    | none => problem .notBool
  | _ => problem .notBool

/-- The real number that a text stands for.  Blanks around it do not count; single underscores within
it do not count either, but not both of them at once. -/
def realOfText? (s : String) : Option Float :=
  let cs := s.toList
  (Literal.real? (Text.trim cs)).orElse fun _ =>
    (Literal.withoutSeparators? cs).bind Literal.real?

/-- Reads a real number. -/
def real : Reader Float
  | .real x => .ok x
  | .whole n => (Binary64.ofInt? n).elim (problem .notReal) .ok
  | .bool b => .ok (if b then 1.0 else 0.0)
  | .string s => (realOfText? s).elim (problem .unreadableReal) .ok
  | .brokenString => problem .brokenText
  | .bytes b => ((String.fromUTF8? b).bind realOfText?).elim (problem .unreadableReal) .ok
  | _ => problem .notReal

/-- Drops a point that is followed by zeros only, at least one of them. -/
def dropZeroFraction (cs : List Char) : List Char :=
  match cs.dropWhile (· != '.') with
  | '.' :: zeros =>
    if !zeros.isEmpty && zeros.all (· == '0') then cs.takeWhile (· != '.') else cs
  | _ => cs

/-- Whether a number may begin with a character once leading zeros are gone. -/
def beginsNumber (c : Char) : Bool := c == '-' || ('1' ≤ c && c ≤ '9')

/-- Skips zeros and underscores behind a leading zero, `before` being the character in front.  One of
them stays in front of a point and at the end. -/
def skipZeros (before : Char) : List Char → Option (List Char)
  | [] => some [before]
  | c :: rest =>
    if c == '0' || c == '_' then skipZeros c rest
    else if beginsNumber c then some (c :: rest)
    else if c == '.' then some (before :: c :: rest)
    else none

/-- The digits of a number without leading zeros. -/
def withoutLeadingZeros? : List Char → Option (List Char)
  | [] => none
  | c :: rest =>
    if c == '0' then skipZeros c rest else if beginsNumber c then some (c :: rest) else none

/-- Whether digits make a natural number without a superfluous zero. -/
def areDigits : List Char → Bool
  | [] => false
  | ['0'] => true
  | c :: rest => '1' ≤ c && (c :: rest).all Char.isDigit

/-- The sign and the digits that a text stands for.  A sign may stand in front of all, and a minus
behind leading zeros, but not both of them. -/
def wholeParts? (s : String) : Option (Bool × List Char) := do
  let cs := Text.trim s.toList
  let (negative, rest) := Literal.splitSign cs
  if rest != cs && (rest.head? == some '-' || rest.head? == some '+') then none
  let body ← Literal.withoutSeparators? (dropZeroFraction (← withoutLeadingZeros? rest))
  match body with
  | '-' :: ds => if !negative && areDigits ds then some (true, ds) else none
  | ds => if areDigits ds then some (negative, ds) else none

/-- The whole number that a text stands for. -/
def wholeOfText (s : String) : Checked Int :=
  match wholeParts? s with
  | some (negative, ds) =>
    if Typed.maxDigits < ds.length then problem .wholeTooLong
    else .ok (Binary64.signed negative (Literal.natOfDigits ds))
  | none => problem .unreadableWhole

/-- Reads a whole number. -/
def whole : Reader Int
  | .whole n => .ok n
  | .bool b => .ok (if b then 1 else 0)
  | .string s => wholeOfText s
  | .brokenString => problem .brokenText
  | .bytes b => (String.fromUTF8? b).elim (problem .unreadableWhole) wholeOfText
  | .real x =>
    match Binary64.ofFloat x with
    | .finite sign m q =>
      match (Binary64.finite sign m q).toInt? with
      | some n => if fitsWord n then .ok n else problem .wholeTooLong
      | none => problem .fractional
    | _ => problem .notFinite
  | _ => problem .notWhole

/-- Reads a word of a fixed list. -/
def word (ofWord? : String → Option β) : Reader β
  | .string s => (ofWord? s).elim (problem .notListed) .ok
  | .brokenString => problem .brokenText
  | .bytes b => ((String.fromUTF8? b).bind ofWord?).elim (problem .notListed) .ok
  | _ => problem .notListed

/-- Reads a string or nothing. -/
def optionalString : Reader (Option String)
  | .null => .ok none
  | .string s => .ok (some s)
  | .brokenString => problem .brokenText
  | .bytes b => (String.fromUTF8? b).elim (problem .brokenText) fun s => .ok (some s)
  | _ => problem .notString

/-- Reads something or nothing. -/
def optional (r : Reader β) : Reader (Option β)
  | .null => .ok none
  | d => (r d).map some

/-- Something that is read where nothing might be is read as it is. -/
theorem eq_ok_of_optional {r : Reader β} {d : Document} {b : β}
    (h : optional r d = .ok (some b)) : r d = .ok b := by
  unfold optional at h
  split at h
  · cases h
  · obtain ⟨b', hb', hsome⟩ := (map_eq_ok_iff _ _ _).1 h
    cases hsome
    exact hb'

/-! ### Lists -/

/-- Reads items that are counted from `start`. -/
def itemsFrom (r : Reader β) (start : Nat) : List Document → List (Checked β)
  | [] => []
  | d :: rest => under (toString start) (r d) :: itemsFrom r (start + 1) rest

/-- Reads a list. -/
def list (r : Reader β) : Reader (List β)
  | .list items => all (itemsFrom r 0 items)
  | _ => problem .notList

/-- A list is read if each of its items is. -/
theorem list_eq_ok_iff (r : Reader β) (ds : List Document) (bs : List β) :
    list r (.list ds) = .ok bs ↔ ds.map r = bs.map .ok := by
  have hitems : ∀ start, itemsFrom r start ds = bs.map .ok ↔ ds.map r = bs.map .ok := by
    induction ds generalizing bs with
    | nil => simp [itemsFrom]
    | cons d rest ih =>
        cases bs with
        | nil => simp [itemsFrom]
        | cons b bs => simp [itemsFrom, ih]
  rw [list, all_eq_ok_iff, hitems]

/-- Every value of a list that is read is read from some item. -/
theorem exists_of_mem_of_list {r : Reader β} {d : Document} {bs : List β}
    (h : list r d = .ok bs) {b : β} (hb : b ∈ bs) : ∃ d', r d' = .ok b := by
  cases d with
  | list ds =>
      have hmem : (.ok b : Checked β) ∈ ds.map r := by
        rw [(list_eq_ok_iff r ds bs).1 h]
        exact List.mem_map_of_mem hb
      obtain ⟨d', -, hd'⟩ := List.mem_map.1 hmem
      exact ⟨d', hd'⟩
  | _ => cases h

/-- What is written item by item is read item by item. -/
theorem list_map_eq_ok {r : Reader β} {f : β → Document} {bs : List β}
    (h : ∀ b ∈ bs, r (f b) = .ok b) : list r (.list (bs.map f)) = .ok bs := by
  rw [list_eq_ok_iff, List.map_map]
  exact List.map_congr_left h

/-- Reads a set, given as a list. -/
def set [BEq β] (r : Reader β) : Reader (List β)
  | .list items => (all (itemsFrom r 0 items)).map List.eraseDups
  | _ => problem .notSet

/-! ### Records -/

/-- A record's fields, or the problem that it is no record. -/
def record (r : List (String × Document) → Checked β) : Reader β
  | .record fields => r fields
  | _ => problem .notRecord

/-- Reads a field that has to be there. -/
def field (name : String) (r : Reader β) (fields : List (String × Document)) : Checked β :=
  under name ((Document.lookup name fields).elim (problem .missing) r)

/-- Reads a field, or takes a default if it is not there. -/
def fieldOr (name : String) (default : β) (r : Reader β) (fields : List (String × Document)) :
    Checked β :=
  under name ((Document.lookup name fields).elim (.ok default) r)

theorem record_eq_ok_iff (r : List (String × Document) → Checked β) (d : Document) (b : β) :
    record r d = .ok b ↔ ∃ fields, d = .record fields ∧ r fields = .ok b := by
  cases d <;> simp [record, problem, throw, throwThe, MonadExceptOf.throw]

theorem field_eq_ok_iff (name : String) (r : Reader β) (fields : List (String × Document)) (b : β) :
    field name r fields = .ok b ↔ ∃ d, Document.lookup name fields = some d ∧ r d = .ok b := by
  rw [field, under_eq_ok_iff]
  cases Document.lookup name fields <;> simp [problem, throw, throwThe, MonadExceptOf.throw]

theorem fieldOr_eq_ok_iff (name : String) (default : β) (r : Reader β)
    (fields : List (String × Document)) (b : β) :
    fieldOr name default r fields = .ok b ↔
      Document.lookup name fields = none ∧ b = default ∨
        ∃ d, Document.lookup name fields = some d ∧ r d = .ok b := by
  rw [fieldOr, under_eq_ok_iff]
  cases Document.lookup name fields <;> simp [eq_comm]

end Reader

end MixedInteger
