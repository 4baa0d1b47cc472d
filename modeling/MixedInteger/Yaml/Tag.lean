/-
**Kinds of nodes.**

The text of a plain scalar tells what it is: a truth value, a number, a date, nothing, or else a
string.  Whole numbers are written to base two, eight, ten or sixteen, or in sixties with colons
between; reals have a point.  Underscores within numbers only group digits.  A line break at the very
end does not count.

Main definitions:

* `MixedInteger.Yaml.Tag` — the kinds;
* `MixedInteger.Yaml.Tag.ofPlain`, `MixedInteger.Yaml.Tag.ofName` — the kind of a plain text, and of a
  name;
* `MixedInteger.Yaml.Timestamp` — dates.
-/

import MixedInteger.Numeric.Literal

set_option autoImplicit false

namespace MixedInteger.Yaml

/-- The kinds of nodes. -/
inductive Tag where
  | null
  | truth
  | whole
  | real
  | text
  | timestamp
  | bytes
  | list
  | orderedMap
  | pairs
  | set
  | record
  /-- The entries of another mapping belong here too. -/
  | merge
  /-- What stands for the whole mapping. -/
  | standard
  /-- A kind that nobody knows. -/
  | unknown
  deriving Repr, DecidableEq

/-! ### Shapes of numbers -/

/-- Digits and what groups them. -/
def isGrouped (c : Char) : Bool := c.isDigit || c == '_'

/-- What follows a digit and further grouped digits. -/
def afterDigits? : List Char → Option (List Char)
  | c :: rest => if c.isDigit then some (rest.dropWhile isGrouped) else none
  | [] => none

/-- Whether a text is empty or a power of ten whose sign is written. -/
def isSignedExponent : List Char → Bool
  | [] => true
  | e :: sign :: ds =>
    (e == 'e' || e == 'E') && (sign == '-' || sign == '+') && !ds.isEmpty && ds.all Char.isDigit
  | _ => false

/-- Whether a text is a place below sixty. -/
def isSixtieth : List Char → Bool
  | [d] => d.isDigit
  | [t, d] => '0' ≤ t && t ≤ '5' && d.isDigit
  | _ => false

/-- The parts of a text between marks. -/
def splitAt (mark : Char) : List Char → List (List Char)
  | [] => [[]]
  | c :: rest =>
    if c == mark then [] :: splitAt mark rest
    else
      match splitAt mark rest with
      | part :: parts => (c :: part) :: parts
      | [] => [[c]]

/-- Whether a text is colons, each with a place below sixty behind it. -/
def areSixtieths (cs : List Char) : Bool :=
  match splitAt ':' cs with
  | [] :: part :: parts => (part :: parts).all isSixtieth
  | _ => false

/-- Whether a text is a real number. -/
def isReal (cs : List Char) : Bool :=
  let body := (Literal.splitSign cs).2
  let pointed := match (afterDigits? body) with
    | some ('.' :: rest) => isSignedExponent (rest.dropWhile isGrouped)
    | some rest =>
      areSixtieths (rest.takeWhile (· != '.')) &&
        (match rest.dropWhile (· != '.') with
          | '.' :: tail => tail.all isGrouped
          | _ => false)
    | none => false
  let fraction := match cs with
    | '.' :: rest => (afterDigits? rest).any isSignedExponent
    | _ => false
  pointed || fraction || [".inf", ".Inf", ".INF"].contains (String.ofList body) ||
    [".nan", ".NaN", ".NAN"].contains (String.ofList cs)

/-- Whether a text is a whole number. -/
def isWhole (cs : List Char) : Bool :=
  let rest := fun (p : Char → Bool) (ds : List Char) =>
    !ds.isEmpty && ds.all fun c => p c || c == '_'
  match (Literal.splitSign cs).2 with
  | ['0'] => true
  | '0' :: 'b' :: ds => rest (fun c => c == '0' || c == '1') ds
  | '0' :: 'x' :: ds => rest (fun c => (Literal.hexDigit? c).isSome) ds
  | '0' :: ds => rest (fun c => '0' ≤ c && c ≤ '7') ds
  | body =>
    match afterDigits? body with
    | some [] => true
    | some rest => areSixtieths rest
    | none => false

/-! ### Dates -/

/-- A number of `least` to `most` digits in front of a text. -/
def number? (least most : Nat) (cs : List Char) : Option (Nat × List Char) :=
  let ds := (cs.take most).takeWhile Char.isDigit
  if ds.length < least then none else some (Literal.natOfDigits ds, cs.drop ds.length)

/-- What follows a character that a text has to begin with. -/
def after? (c : Char) : List Char → Option (List Char)
  | d :: rest => if d == c then some rest else none
  | [] => none

/-- A point of time; the offset is in minutes. -/
structure Timestamp where
  year : Nat
  month : Nat
  day : Nat
  hour : Nat
  minute : Nat
  second : Nat
  offset : Nat
  deriving Repr, DecidableEq

namespace Timestamp

/-- The days of a month. -/
def daysOf (year month : Nat) : Nat :=
  if month == 2 then
    if (year % 4 == 0 && year % 100 != 0) || year % 400 == 0 then 29 else 28
  else if [4, 6, 9, 11].contains month then 30
  else 31

/-- Whether there is such a point of time. -/
def exists? (t : Timestamp) : Bool :=
  0 < t.year && 0 < t.month && t.month ≤ 12 && 0 < t.day && t.day ≤ daysOf t.year t.month &&
    t.hour < 24 && t.minute < 60 && t.second < 60 && t.offset < 24 * 60

/-- The offset behind a time of day. -/
def offset? (cs : List Char) : Option Nat :=
  if cs.isEmpty then some 0
  else
    match cs.dropWhile fun c => c == ' ' || c == '\t' with
    | ['Z'] => some 0
    | sign :: rest => do
      if sign != '-' && sign != '+' then none
      let (hours, rest) ← number? 1 2 rest
      if rest.isEmpty then return 60 * hours
      let (minutes, rest) ← number? 2 2 (← after? ':' rest)
      if rest.isEmpty then return 60 * hours + minutes else none
    | [] => none

/-- What separates a date from a time of day. -/
def afterDate? : List Char → Option (List Char)
  | [] => none
  | c :: rest =>
    if c == 'T' || c == 't' then some rest
    else if c == ' ' || c == '\t' then some (rest.dropWhile fun c => c == ' ' || c == '\t')
    else none

/-- A date, and possibly a time of day, in a line. -/
def ofLine? (cs : List Char) : Option Timestamp := do
  let (year, rest) ← number? 4 4 cs
  let (month, rest) ← number? 1 2 (← after? '-' rest)
  let (day, rest) ← number? 1 2 (← after? '-' rest)
  if rest.isEmpty then return ⟨year, month, day, 0, 0, 0, 0⟩
  let (hour, rest) ← number? 1 2 (← afterDate? rest)
  let (minute, rest) ← number? 2 2 (← after? ':' rest)
  let (second, rest) ← number? 2 2 (← after? ':' rest)
  let rest := match rest with
    | '.' :: tail => tail.dropWhile Char.isDigit
    | _ => rest
  return ⟨year, month, day, hour, minute, second, ← offset? rest⟩

/-- A date, and possibly a time of day; a line break behind it does not count. -/
def ofText? (cs : List Char) : Option Timestamp :=
  ofLine? (if cs.getLast? == some '\n' then cs.dropLast else cs)

/-- Whether a plain text is a date: without a time of day all its digits have to be written. -/
def isPlain (cs : List Char) : Bool :=
  (ofLine? cs).isSome && (cs.length == 10 || cs.contains ':')

end Timestamp

/-! ### Kinds -/

namespace Tag

/-- Words for truth values. -/
def truthWords : List (String × Bool) :=
  [("yes", true), ("no", false), ("true", true), ("false", false), ("on", true), ("off", false)]

/-- A word, the same with a capital, and the same in capitals. -/
def spellings (word : String) : List String := [word, word.capitalize, word.toUpper]

/-- A text without a line break at its end, unless that is all there is. -/
def withoutLastBreak (s : String) : String :=
  let cs := s.toList
  if cs.getLast? == some '\n' && 1 < cs.length then String.ofList cs.dropLast else s

/-- The kind of a plain scalar whose last line break is gone. -/
def ofLine (s : String) : Tag :=
  let cs := s.toList
  if (truthWords.flatMap fun w => spellings w.1).contains s then .truth
  else if isReal cs then .real
  else if isWhole cs then .whole
  else if s == "<<" then .merge
  else if s == "" || s == "~" || (spellings "null").contains s then .null
  else if Timestamp.isPlain cs then .timestamp
  else if s == "=" then .standard
  else if s == "!" || s == "&" || s == "*" then .unknown
  else .text

/-- The kind of a plain scalar. -/
def ofPlain (s : String) : Tag := ofLine (withoutLastBreak s)

/-- What all names of known kinds begin with. -/
def family : String := "tag:yaml.org,2002:"

/-- The kinds by the last parts of their names. -/
def names : List (String × Tag) :=
  [("null", .null), ("bool", .truth), ("int", .whole), ("float", .real), ("str", .text),
   ("timestamp", .timestamp), ("binary", .bytes), ("seq", .list), ("omap", .orderedMap),
   ("pairs", .pairs), ("set", .set), ("map", .record), ("merge", .merge), ("value", .standard)]

/-- The kind of a name. -/
def ofName (name : String) : Tag :=
  ((names.map fun n => (family ++ n.1, n.2)).lookup name).getD .unknown

/-- Whether values of a kind can be keys. -/
def isKey : Tag → Bool
  | .list | .orderedMap | .pairs | .set | .record => false
  | _ => true

end Tag

end MixedInteger.Yaml
