/-
**Scalars of settings files.**

A scalar has a value of its kind, or its text stands for nothing of the kind.

Main definitions:

* `MixedInteger.Yaml.readWhole`, `MixedInteger.Yaml.readReal` — numbers;
* `MixedInteger.Yaml.readScalar` — the value of a scalar of some kind.
-/

import MixedInteger.Document.Basic
import MixedInteger.Numeric.Typed
import MixedInteger.Text.Base64
import MixedInteger.Yaml.Refusal
import MixedInteger.Yaml.Tag

set_option autoImplicit false

namespace MixedInteger.Yaml

/-- The text of a scalar.  Where halves of characters were written, it is broken, and other characters
stand in for them. -/
structure ScalarText where
  text : String
  isBroken : Bool := false
  deriving Repr, DecidableEq, Inhabited

/-- A numeral to some base. -/
def numeral (base : Nat) (cs : List Char) : Except Refusal Int :=
  ((Typed.whole? base cs).map Except.ok).getD (throw .senseless)

/-- A whole number. -/
def readWhole (cs : List Char) : Except Refusal Int := do
  let (negative, body) := Literal.splitSign (cs.filter (· != '_'))
  let n ← match body with
    | [] => throw .noDigits
    | ['0'] => pure 0
    | '0' :: 'b' :: ds => numeral 2 ds
    | '0' :: 'x' :: ds => numeral 16 ds
    | '0' :: _ => numeral 8 body
    | _ => do
      let places ← (splitAt ':' body).mapM (numeral 10)
      pure (places.foldl (fun n d => 60 * n + d) 0)
  return if negative then -n else n

/-- A real number. -/
def readDecimal (cs : List Char) : Except Refusal Float :=
  ((Typed.real? cs).map Except.ok).getD (throw .senseless)

/-- The sum of places, the last one first, each of them worth sixty times the one before it.  What a
place is worth has to be a double. -/
def sumSixties (worth : Int) (sum : Float) : List Float → Except Refusal Float
  | [] => return sum
  | d :: rest =>
    match Binary64.ofInt? worth with
    | some w => sumSixties (60 * worth) (sum + d * w) rest
    | none => throw .outOfRange

/-- A real number with an optional sign. -/
def readReal (cs : List Char) : Except Refusal Float := do
  let cs := (cs.filter (· != '_')).map Char.toLower
  if cs.isEmpty then throw .noDigits
  let (negative, body) := Literal.splitSign cs
  let x ←
    if body == ".inf".toList then pure (1.0 / 0.0)
    else if body == ".nan".toList then pure (0.0 / 0.0)
    else if body.contains ':' then do
      let places ← (splitAt ':' body).mapM readDecimal
      sumSixties 1 0.0 places.reverse
    else readDecimal body
  return if negative then -x else x

/-- Bytes, written in plain characters. -/
def readBytes (cs : List Char) : Except Refusal Document :=
  if cs.all fun c => c.toNat < 128 then
    ((Text.ofBase64? cs).map fun b => Except.ok (.bytes b)).getD (throw .malformed)
  else throw .malformed

/-- The value of a scalar of some kind. -/
def readScalar (tag : Tag) (t : ScalarText) : Except Refusal Document :=
  let cs := t.text.toList
  match tag with
  | .null => return .null
  | .text => return if t.isBroken then .brokenString else .string t.text
  | .truth =>
    ((Tag.truthWords.lookup t.text.toLower).map fun b => Except.ok (.bool b)).getD
      (throw .unknownWord)
  | .whole => do return .whole (← readWhole cs)
  | .real => do return .real (← readReal cs)
  | .timestamp =>
    match Timestamp.ofText? cs with
    | some d => if d.exists? then return .foreign else throw .senseless
    | none => throw .noDate
  | .bytes => readBytes cs
  | _ => throw .malformed

end MixedInteger.Yaml
