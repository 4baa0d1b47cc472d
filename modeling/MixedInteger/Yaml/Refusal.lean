/-
**Why a text has no value.**

Most texts that are refused are simply not in the format.  Some are in it and hold a numeral, a word or
a date that stands for nothing, and these cases are told apart.

Main definitions:

* `MixedInteger.Yaml.Refusal` — the reasons.
-/

set_option autoImplicit false

namespace MixedInteger.Yaml

/-- Why a text has no value. -/
inductive Refusal where
  /-- It is not in the format. -/
  | malformed
  /-- A numeral, a date or a code point that stands for nothing. -/
  | senseless
  /-- A number or a code point out of range. -/
  | outOfRange
  /-- A word that is no truth value. -/
  | unknownWord
  /-- A number without any digit. -/
  | noDigits
  /-- A text that is no date. -/
  | noDate
  /-- A mapping in the place of a text. -/
  | noText
  /-- Collections that are nested too deeply, or that stand for themselves. -/
  | tooDeep
  /-- Bytes that are no characters. -/
  | undecodable
  deriving Repr, DecidableEq

end MixedInteger.Yaml
