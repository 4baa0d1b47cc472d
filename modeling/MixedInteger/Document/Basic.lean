/-
**Documents.**

Data that comes from outside the program: the usual scalars, lists and records, and things that only a
file format knows, which are of no use here but have to be told apart from the rest.

Main definitions:

* `MixedInteger.Document` — the data;
* `MixedInteger.Document.field?` — a field of a record;
* `MixedInteger.Document.json` — the compact text of a document.
-/

import MixedInteger.Numeric.Notation
import MixedInteger.Text.Quoted

set_option autoImplicit false

namespace MixedInteger

/-- Data from outside. -/
inductive Document where
  | null
  | bool (value : Bool)
  | whole (value : Int)
  | real (value : Float)
  | string (value : String)
  /-- A string that holds halves of characters, so that it is no text. -/
  | brokenString
  | bytes (value : ByteArray)
  | list (items : List Document)
  /-- Fields by name, each name once. -/
  | record (fields : List (String × Document))
  /-- A value of a kind that nothing here accepts, such as a date. -/
  | foreign
  deriving Inhabited

namespace Document

/-- A field of a list of fields. -/
def lookup (name : String) (fields : List (String × Document)) : Option Document :=
  (fields.find? fun f => f.1 == name).map Prod.snd

/-- Sets a field: one that is there keeps its place. -/
def setField (name : String) (value : Document) :
    List (String × Document) → List (String × Document)
  | [] => [(name, value)]
  | f :: rest => if f.1 == name then (name, value) :: rest else f :: setField name value rest

/-- A field of a record; anything else has no fields. -/
def field? (name : String) : Document → Option Document
  | record fields => lookup name fields
  | _ => none

/-- Something that may be absent. -/
def ofOption {β : Type} (f : β → Document) : Option β → Document
  | none => null
  | some b => f b

/-! ### Compact text -/

/-- What stands for a character of a string between double quotes. -/
def escapeCharacter (c : Char) : List Char :=
  if c = '"' then ['\\', '"']
  else if c = '\\' then ['\\', '\\']
  else if c = '\n' then ['\\', 'n']
  else if c = '\r' then ['\\', 'r']
  else if c = '\t' then ['\\', 't']
  else if c.toNat = 8 then ['\\', 'b']
  else if c.toNat = 12 then ['\\', 'f']
  else if c.toNat < 32 then '\\' :: 'u' :: Text.hexDigits 4 c.toNat
  else [c]

/-- A string between double quotes. -/
def quoted (s : String) : String :=
  String.ofList ('"' :: s.toList.flatMap escapeCharacter ++ ['"'])

mutual

/-- The compact text of a document, without blanks and in the order of its fields. -/
def json : Document → String
  | null => "null"
  | bool b => if b then "true" else "false"
  | whole n => toString n
  | real x => Notation.snapshot x
  | string s => quoted s
  | list items => "[" ++ ",".intercalate (jsonItems items) ++ "]"
  | record fields => "\x7b" ++ ",".intercalate (jsonFields fields) ++ "\x7d"
  | brokenString => "null"
  | bytes _ => "null"
  | foreign => "null"

/-- The compact texts of list items. -/
def jsonItems : List Document → List String
  | [] => []
  | d :: rest => json d :: jsonItems rest

/-- The compact texts of fields. -/
def jsonFields : List (String × Document) → List String
  | [] => []
  | (name, d) :: rest => (quoted name ++ ":" ++ json d) :: jsonFields rest

end

end Document

end MixedInteger
