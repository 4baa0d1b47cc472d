/-
**Settings.**

What a user may set once and for all: the engine, what to do with implications, and how constraints
are scaled.

Main definitions:

* `MixedInteger.Settings` — the settings, with their defaults;
* `MixedInteger.Settings.check` — the rules between the thresholds;
* `MixedInteger.Settings.read`, `MixedInteger.Settings.toDocument` — settings from and to documents;
* `MixedInteger.Settings.postingOptions` — what they mean for posting.
-/

import MixedInteger.Document.Reader
import MixedInteger.Model.Posting

set_option autoImplicit false

namespace MixedInteger

/-- What a user may set. -/
structure Settings where
  engine : Engine := .any
  policy : Policy := .replaceUnsupported
  /-- Whether constraints are scaled. -/
  scaling : Bool := false
  skipLower : Float := 0.0001
  skipUpper : Float := 10000.0
  wideSpread : Float := 100000000.0
  ignoreInfinite : Bool := false

namespace Settings

/-- The settings where nothing is set. -/
def standard : Settings := {}

/-- The rules between the thresholds, the first broken one being told. -/
def check (s : Settings) : Checked Settings := do
  Checked.require (!decide (s.skipLower ≤ 0.0)) "scale_skip_lb must be positive" ()
  Checked.require (!decide (s.skipUpper < s.skipLower)) "scale_skip_lb must not exceed scale_skip_ub"
    ()
  Checked.require (!decide (s.wideSpread ≤ 1.0)) "amplitude_warning must be greater than 1" s

/-- Reads settings from a record; what is not there keeps its default, and other fields do not
count. -/
def read : Reader Settings :=
  Reader.record fun fs => do
    let fields :=
      Checked.both (Reader.fieldOr "backend" standard.engine (Reader.word Engine.ofWord?) fs) <|
      Checked.both
        (Reader.fieldOr "indicator_policy" standard.policy (Reader.word Policy.ofWord?) fs) <|
      Checked.both (Reader.fieldOr "scale_constraints" standard.scaling Reader.bool fs) <|
      Checked.both (Reader.fieldOr "scale_skip_lb" standard.skipLower Reader.real fs) <|
      Checked.both (Reader.fieldOr "scale_skip_ub" standard.skipUpper Reader.real fs) <|
      Checked.both (Reader.fieldOr "amplitude_warning" standard.wideSpread Reader.real fs)
        (Reader.fieldOr "ignore_inf_var_bounds" standard.ignoreInfinite Reader.bool fs)
    let (engine, policy, scaling, skipLower, skipUpper, wideSpread, ignoreInfinite) ← fields
    check ⟨engine, policy, scaling, skipLower, skipUpper, wideSpread, ignoreInfinite⟩

/-- Settings as a record. -/
def toFields (s : Settings) : List (String × Document) :=
  [("backend", .string s.engine.word),
   ("indicator_policy", .string s.policy.word),
   ("scale_constraints", .bool s.scaling),
   ("scale_skip_lb", .real s.skipLower),
   ("scale_skip_ub", .real s.skipUpper),
   ("amplitude_warning", .real s.wideSpread),
   ("ignore_inf_var_bounds", .bool s.ignoreInfinite)]

/-- Settings as a document. -/
def toDocument (s : Settings) : Document := .record s.toFields

/-- The thresholds of the settings. -/
def thresholds (s : Settings) : Thresholds Number :=
  ⟨.real s.skipLower, .real s.skipUpper, s.ignoreInfinite, .real s.wideSpread⟩

/-- What the settings mean for posting under a policy. -/
def postingOptions (s : Settings) (policy : Policy) : PostingOptions Number :=
  ⟨policy, if s.scaling then some s.thresholds else none⟩

end Settings

/-- Reads what an engine takes from a record. -/
def Capabilities.read : Reader Capabilities :=
  Reader.record fun fs => do
    let fields :=
      Checked.both
        (Reader.fieldOr "variable_types" Kind.all (Reader.set (Reader.word Kind.ofWord?)) fs) <|
      Checked.both (Reader.fieldOr "indicator_constraints" false Reader.bool fs) <|
      Checked.both (Reader.fieldOr "quadratic_constraints" false Reader.bool fs)
        (Reader.fieldOr "quadratic_objective" false Reader.bool fs)
    let (kinds, implications, quadraticConstraints, quadraticObjective) ← fields
    return { kinds, implications, quadraticConstraints, quadraticObjective }

/-- The words of a list of kinds, sorted. -/
def Kind.sortedWords (kinds : List Kind) : List String :=
  (kinds.map Kind.word).eraseDups.mergeSort fun a b => decide (a ≤ b)

/-- What an engine takes, as a record. -/
def Capabilities.toDocument (c : Capabilities) : Document :=
  .record
    [("variable_types", .list ((Kind.sortedWords c.kinds).map .string)),
     ("indicator_constraints", .bool c.implications),
     ("quadratic_constraints", .bool c.quadraticConstraints),
     ("quadratic_objective", .bool c.quadraticObjective)]

end MixedInteger
