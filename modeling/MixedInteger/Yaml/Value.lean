/-
**Values of settings files.**

A graph becomes a document, one collection after the other: first the outermost one, then those in it,
and so on.  The first thing that is refused on the way counts.

Entries that are merged into a mapping stand in front of its own, which win; of equal keys the last one
wins.  A key must not be a collection.  Merging changes the mapping where it is kept, so that every
place which refers to it sees the change.

Only the fields of the outermost mapping are kept: a collection within it is of use to nobody here.

Main definitions:

* `MixedInteger.Yaml.Making` — the state of making values;
* `MixedInteger.Yaml.Making.flatten` — merges what is to be merged into a mapping;
* `MixedInteger.Yaml.document` — the document of a text.
-/

import MixedInteger.Yaml.Node

set_option autoImplicit false

namespace MixedInteger.Yaml

/-- What a node comes to. -/
inductive Made where
  | value (d : Document)
  /-- A collection; it cannot be a key. -/
  | collection

/-- A value as a part of a document. -/
def Made.document : Made → Document
  | value d => d
  | collection => .foreign

/-- What is known while values are made. -/
structure Making where
  nodes : Array Node
  /-- What was made already, by the places of the nodes. -/
  made : List (Nat × Made)
  /-- Collections that were met and are not filled yet, the latest first. -/
  open_ : List Nat

/-- Making values may be refused. -/
abbrev Make := StateT Making (Except Refusal)

namespace Making

/-- The node at a place. -/
def node (place : Nat) : Make Node := return (← get).nodes.getD place default

/-- Changes a node. -/
def setNode (place : Nat) (n : Node) : Make Unit :=
  modify fun s => { s with nodes := s.nodes.set! place n }

/-- More than all steps that lead along nodes without coming back. -/
def reach : Make Nat := return (← get).nodes.size + 1

/-! ### Merging -/

/-- The entries of a mapping. -/
def entries (place : Nat) : Make (List (Nat × Nat)) := do
  match ← node place with
  | .mapping _ es => return es
  | _ => return []

/-- Changes the entries of a mapping. -/
def setEntries (place : Nat) (es : List (Nat × Nat)) : Make Unit := do
  match ← node place with
  | .mapping tag _ => setNode place (.mapping tag es)
  | _ => return ()

/-- The value of the first entry that is to be merged, and the entries without it. -/
def firstMerge? : List (Nat × Nat) → Make (Option (Nat × List (Nat × Nat)))
  | [] => return none
  | (k, v) :: rest => do
    if (← node k).tag == .merge then return some (v, rest)
    else return (← firstMerge? rest).map fun m => (m.1, (k, v) :: m.2)

/-- Makes a string of a key that stood for the whole mapping. -/
def settleKey (place : Nat) : Make Unit := do
  match ← node place with
  | .scalar .standard t => setNode place (.scalar .text t)
  | .sequence .standard items => setNode place (.sequence .text items)
  | .mapping .standard es => setNode place (.mapping .text es)
  | _ => return ()

mutual

/-- Merges into the mapping at a place what its entries ask for; `merged` was found already. -/
def flatten (place : Nat) (merged : List (Nat × Nat)) : Nat → Make Unit
  | 0 => throw .tooDeep
  | fuel + 1 => do
    match ← firstMerge? (← entries place) with
    | none => do
      let own ← entries place
      own.forM fun e => settleKey e.1
      setEntries place (merged ++ own)
    | some (source, rest) => do
      setEntries place rest
      let found ← mergeable source fuel
      flatten place (merged ++ found) fuel

/-- The entries that a mapping, or a sequence of mappings, has to offer.  Of several mappings the
first one comes last, so that it wins. -/
def mergeable (source : Nat) : Nat → Make (List (Nat × Nat))
  | 0 => throw .tooDeep
  | fuel + 1 => do
    match ← node source with
    | .scalar .. => throw .malformed
    | .sequence _ items => return (← mergeableAll items fuel).reverse.flatten
    | .mapping .. =>
      flatten source [] fuel
      entries source

/-- The entries of mappings. -/
def mergeableAll : List Nat → Nat → Make (List (List (Nat × Nat)))
  | [], _ => return []
  | _ :: _, 0 => throw .tooDeep
  | source :: rest, fuel + 1 => do
    match ← node source with
    | .mapping .. =>
      flatten source [] fuel
      let es ← entries source
      return es :: (← mergeableAll rest fuel)
    | _ => throw .malformed

end

/-- Enough steps for all merging: every step leaves an entry behind, or takes an item. -/
def mergingSteps : Make Nat := do
  let nodes := (← get).nodes
  return nodes.foldl (fun n x => n + match x with
    | .scalar .. => 1
    | .sequence _ items => 4 * (items.length + 1)
    | .mapping _ es => 4 * (es.length + 1)) 4

/-! ### Scalars -/

/-- The value of the entry that stands for a whole mapping. -/
def standard? : List (Nat × Nat) → Make (Option Nat)
  | [] => return none
  | (k, v) :: rest => do if (← node k).tag == .standard then return some v else standard? rest

/-- The text of a scalar, or of the one that stands for a mapping. -/
def textOf (place : Nat) : Nat → Make ScalarText
  | 0 => throw .tooDeep
  | fuel + 1 => do
    match ← node place with
    | .scalar _ t => return t
    | .sequence .. => throw .malformed
    | .mapping _ es =>
      match ← standard? es with
      | some v => textOf v fuel
      | none => throw .malformed

/-- Whether a kind is one of texts that have values. -/
def isText : Tag → Bool
  | .null | .text | .truth | .whole | .real | .timestamp | .bytes => true
  | _ => false

/-- The value of a node of a kind of texts.  A mapping may have a text but is no date. -/
def read (place : Nat) (n : Node) : Make Document := do
  let t ← textOf place (← reach)
  match n with
  | .mapping .timestamp _ => throw .noText
  | n => (readScalar n.tag t : Except Refusal Document)

/-! ### Collections -/

/-- What the node at a place comes to.  A collection is filled later. -/
def make (place : Nat) : Make Made := do
  match (← get).made.lookup place with
  | some m => return m
  | none => do
    let n ← node place
    let m ←
      if n.tag.isKey then
        if isText n.tag then Made.value <$> read place n else throw .malformed
      else do
        modify fun s => { s with open_ := place :: s.open_ }
        pure Made.collection
    modify fun s => { s with made := (place, m) :: s.made }
    return m

/-- Makes the entries of a mapping: its fields are those whose keys are strings. -/
def makeEntries (fields : List (String × Document)) :
    List (Nat × Nat) → Make (List (String × Document))
  | [] => return fields
  | (k, v) :: rest => do
    match ← make k with
    | .collection => throw .malformed
    | .value key =>
      let value := (← make v).document
      match key with
      | .string name => makeEntries (Document.setField name value fields) rest
      | _ => makeEntries fields rest

/-- Makes a sequence whose items have to be mappings with one entry each. -/
def makePairs : List Nat → Make Unit
  | [] => return ()
  | item :: rest => do
    match ← node item with
    | .mapping _ [(k, v)] =>
      let _ ← make k
      let _ ← make v
      makePairs rest
    | _ => throw .malformed

/-- Fills the collection at a place; a mapping has fields. -/
def fill (place : Nat) : Make (List (String × Document)) := do
  match ← node place with
  | .sequence .list items =>
    items.forM fun i => do let _ ← make i
    return []
  | .sequence .orderedMap items => makePairs items; return []
  | .sequence .pairs items => makePairs items; return []
  | .mapping tag _ =>
    if tag == .record || tag == .set then
      flatten place [] (← mergingSteps)
      makeEntries [] (← entries place)
    else throw .malformed
  | _ => throw .malformed

/-- Fills collections, those first that were met first, then the ones met on the way. -/
def fillAll : Nat → List Nat → Make Unit
  | 0, _ => return ()
  | fuel + 1, [] => do
    match (← get).open_.reverse with
    | [] => return ()
    | met =>
      modify fun s => { s with open_ := [] }
      fillAll fuel met
  | fuel + 1, place :: rest => do
    let _ ← fill place
    fillAll fuel rest

/-- The document of the node at a place. -/
def document (root : Nat) : Make Document := do
  match ← make root with
  | .value d => return d
  | .collection => do
    modify fun s => { s with open_ := [] }
    let fields ← fill root
    fillAll (2 * (← reach)) []
    return if (← node root).tag == .record then .record fields else .foreign

end Making

/-- The document of a graph. -/
def Graph.document (g : Graph) : Except Refusal Document :=
  (Making.document g.root).run' ⟨g.nodes, [], []⟩

/-- The document that a text describes; the empty text describes nothing. -/
def document (s : Stream) : Except Refusal Document := do
  match ← Graph.ofStream s with
  | none => return .null
  | some g => g.document

end MixedInteger.Yaml
