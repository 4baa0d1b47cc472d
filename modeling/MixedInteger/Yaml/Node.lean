/-
**Nodes of settings files.**

The tokens of a text are put together to one graph of scalars, sequences and mappings.  Nodes are kept
in the order in which they begin and refer to each other by their places, so that an alias is nothing
but the place of the node that carries its anchor, also within that node.  A text holds one graph at
most, and the empty text none.

Main definitions:

* `MixedInteger.Yaml.Node`, `MixedInteger.Yaml.Graph` — nodes and graphs;
* `MixedInteger.Yaml.Graph.ofStream` — the graph that a text describes.
-/

import MixedInteger.Yaml.Token

set_option autoImplicit false

namespace MixedInteger.Yaml

/-- A node; other nodes are given by their places. -/
inductive Node where
  | scalar (tag : Tag) (text : ScalarText)
  | sequence (tag : Tag) (items : List Nat)
  | mapping (tag : Tag) (entries : List (Nat × Nat))

instance : Inhabited Node := ⟨.sequence .list []⟩

/-- The kind of a node. -/
def Node.tag : Node → Tag
  | scalar tag _ => tag
  | sequence tag _ => tag
  | mapping tag _ => tag

/-- Nodes, and the place of the one that holds all others. -/
structure Graph where
  nodes : Array Node
  root : Nat

namespace Graph

/-! ### Tokens that are left -/

/-- What is known while tokens are put together. -/
structure Builder where
  lexer : Lexer
  nodes : Array Node
  /-- The nodes that carry anchors. -/
  anchors : List (String × Nat)
  /-- What the handles of tags stand for. -/
  handles : List (String × String)
  /-- How many collections are open. -/
  depth : Nat

/-- Putting together may fail. -/
abbrev Build := StateT Builder (Except Refusal)

namespace Build

/-- The tokens do not make a graph. -/
def fail {β : Type} : Build β := throw .malformed

/-- Goes on only if a condition holds. -/
def ensure (b : Bool) : Build Unit := if b then return () else fail

/-- A step of the cutting of tokens. -/
def lift {β : Type} (x : Lex β) : Build β := do
  let (b, l) ← x.run (← get).lexer
  modify fun s => { s with lexer := l }
  return b

/-- The token ahead. -/
def peek : Build Token := lift Lex.peek

/-- Behind the token ahead. -/
def skip : Build Unit := lift Lex.skip

/-- Whether a token is ahead. -/
def sees (t : Token) : Build Bool := return (← peek) == t

/-- Whether one of some tokens is ahead. -/
def seesAny (ts : List Token) : Build Bool := return ts.contains (← peek)

/-- Takes a token, which has to be ahead. -/
def expect (t : Token) : Build Unit := do
  ensure (← sees t)
  skip

/-- Takes a token if it is ahead; says whether it was. -/
def accept (t : Token) : Build Bool := do
  if ← sees t then
    skip
    return true
  else return false

/-! ### Directives -/

/-- What handles stand for where nothing else is said. -/
def standardHandles : List (String × String) := [("!", "!"), ("!!", Tag.family)]

/-- Takes the directives in front of a document, `version` telling whether the version was given and
`handles` what was said of handles. -/
def directives (version : Bool) (handles : List (String × String)) : Nat → Build Unit
  | 0 => fail
  | fuel + 1 => do
    match ← peek with
    | .version major =>
      skip
      ensure (!version && major == 1)
      directives true handles fuel
    | .handle name target =>
      skip
      ensure ((handles.lookup name).isNone)
      directives version ((name, target) :: handles) fuel
    | .directive =>
      skip
      directives version handles fuel
    | _ => modify fun s => { s with handles := handles ++ standardHandles }

/-- Whether a directive is ahead. -/
def seesDirective : Build Bool := do
  match ← peek with
  | .version _ => return true
  | .handle _ _ => return true
  | .directive => return true
  | _ => return false

/-! ### Anchors and tags -/

/-- An anchor, if one is ahead. -/
def anchor? : Build (Option String) := do
  match ← peek with
  | .anchor name =>
    skip
    return some name
  | _ => return none

/-- A tag, if one is ahead: its handle and what follows that. -/
def tag? : Build (Option (Option String × String)) := do
  match ← peek with
  | .tag handle suffix =>
    skip
    return some (handle, suffix)
  | _ => return none

/-- The name that a tag stands for; its handle has to be known. -/
def tagName (handle : Option String) (suffix : String) : Build String := do
  match handle with
  | none => return suffix
  | some h =>
    match (← get).handles.lookup h with
    | some target => return target ++ suffix
    | none => fail

/-- An anchor and the name of a tag, in either order. -/
def properties : Build (Option String × Option String) := do
  let before ← anchor?
  let tag ← tag?
  let anchor ← if before.isNone && tag.isSome then anchor? else pure before
  match tag with
  | none => return (anchor, none)
  | some (handle, suffix) => return (anchor, some (← tagName handle suffix))

/-! ### Nodes -/

/-- The name that says that a node is of the kind which its shape or its text tells. -/
def unspecific : String := "!"

/-- The kind of a sequence or a mapping that is of kind `usual` unless a tag says otherwise. -/
def collectionTag (usual : Tag) (name : Option String) : Tag :=
  (name.filter (· != unspecific)).elim usual Tag.ofName

/-- The kind of a scalar. -/
def scalarTag (name : Option String) (text : String) (isPlain : Bool) : Tag :=
  match name with
  | none => if isPlain then Tag.ofPlain text else .text
  | some n => if n == unspecific then Tag.ofPlain text else Tag.ofName n

/-- The place of a new node, which carries an anchor if one is given.  No anchor may be used twice. -/
def add (anchor : Option String) (n : Node) : Build Nat := do
  let place := (← get).nodes.size
  if let some name := anchor then
    ensure ((← get).anchors.lookup name).isNone
    modify fun s => { s with anchors := (name, place) :: s.anchors }
  modify fun s => { s with nodes := s.nodes.push n }
  return place

/-- The node where nothing is written. -/
def addEmpty : Build Nat := add none (.scalar (Tag.ofPlain "") ⟨"", false⟩)

/-- A node of which nothing but an anchor or a tag is written. -/
def addBare (anchor name : Option String) : Build Nat := do
  ensure (anchor.isSome || name.isSome)
  add anchor (.scalar (scalarTag name "" true) ⟨"", false⟩)

/-- How many collections may be open at once. -/
def maxDepth : Nat := 485

/-- A collection: its node is there before its content is, so that the content may refer to it. -/
def addCollection {β : Type} (anchor : Option String) (node : List β → Node)
    (content : Build (List β)) : Build Nat := do
  let place ← add anchor (node [])
  let depth := (← get).depth
  if maxDepth ≤ depth then throw .tooDeep
  modify fun s => { s with depth := depth + 1 }
  let items ← content
  modify fun s => { s with depth := depth, nodes := s.nodes.set! place (node items) }
  return place

mutual

/-- A node.  Blocks are allowed where `block` holds, and sequences that are not indented where
`indentless` holds. -/
def node (block indentless : Bool) : Nat → Build Nat
  | 0 => fail
  | fuel + 1 => do
    match ← peek with
    | .alias name =>
      skip
      match (← get).anchors.lookup name with
      | some n => return n
      | none => fail
    | _ =>
      let (anchor, name) ← properties
      let sequenceOf := fun (items : Build (List Nat)) =>
        addCollection anchor (.sequence (collectionTag .list name)) items
      let mappingOf := fun (entries : Build (List (Nat × Nat))) =>
        addCollection anchor (.mapping (collectionTag .record name)) entries
      match ← peek with
      | .item => if indentless then sequenceOf (looseItems fuel) else addBare anchor name
      | .scalar t isPlain =>
        skip
        add anchor (.scalar (scalarTag name t.text isPlain) t)
      | .openSequence =>
        sequenceOf do
          skip
          flowItems true fuel
      | .openMapping =>
        mappingOf do
          skip
          flowEntries true fuel
      | .blockSequence =>
        if block then
          sequenceOf do
            skip
            blockItems fuel
        else addBare anchor name
      | .blockMapping =>
        if block then
          mappingOf do
            skip
            blockEntries fuel
        else addBare anchor name
      | _ => addBare anchor name

/-- A node, or the empty one if one of the tokens that may follow is ahead. -/
def nodeBefore (after : List Token) (block indentless : Bool) : Nat → Build Nat
  | 0 => fail
  | fuel + 1 => do if ← seesAny after then addEmpty else node block indentless fuel

/-- The items of an indented sequence. -/
def blockItems : Nat → Build (List Nat)
  | 0 => fail
  | fuel + 1 => do
    if ← accept .item then
      let n ← nodeBefore [.item, .blockEnd] true false fuel
      return n :: (← blockItems fuel)
    else
      expect .blockEnd
      return []

/-- The items of a sequence that is not indented. -/
def looseItems : Nat → Build (List Nat)
  | 0 => fail
  | fuel + 1 => do
    if ← accept .item then
      let n ← nodeBefore [.item, .key, .value, .blockEnd] true false fuel
      return n :: (← looseItems fuel)
    else return []

/-- The entries of an indented mapping. -/
def blockEntries : Nat → Build (List (Nat × Nat))
  | 0 => fail
  | fuel + 1 => do
    if ← accept .key then
      let key ← nodeBefore [.key, .value, .blockEnd] true true fuel
      let value ←
        if ← accept .value then nodeBefore [.key, .value, .blockEnd] true true fuel else addEmpty
      return (key, value) :: (← blockEntries fuel)
    else
      expect .blockEnd
      return []

/-- The items of a sequence in brackets, from the first one or from a comma on. -/
def flowItems (first : Bool) : Nat → Build (List Nat)
  | 0 => fail
  | fuel + 1 => do
    if ← accept .closeSequence then return []
    else
      if !first then expect .entry
      if ← accept .closeSequence then return []
      else if ← sees .key then
        let pair ← addCollection none (.mapping .record) do
          skip
          let key ← nodeBefore [.value, .entry, .closeSequence] false false fuel
          let value ←
            if ← accept .value then nodeBefore [.entry, .closeSequence] false false fuel
            else addEmpty
          return [(key, value)]
        return pair :: (← flowItems false fuel)
      else
        let n ← node false false fuel
        return n :: (← flowItems false fuel)

/-- The entries of a mapping in braces, from the first one or from a comma on. -/
def flowEntries (first : Bool) : Nat → Build (List (Nat × Nat))
  | 0 => fail
  | fuel + 1 => do
    if ← accept .closeMapping then return []
    else
      if !first then expect .entry
      if ← accept .closeMapping then return []
      else if ← accept .key then
        let key ← nodeBefore [.value, .entry, .closeMapping] false false fuel
        let value ←
          if ← accept .value then nodeBefore [.entry, .closeMapping] false false fuel
          else addEmpty
        return (key, value) :: (← flowEntries false fuel)
      else
        let key ← node false false fuel
        let value ← addEmpty
        return (key, value) :: (← flowEntries false fuel)

end

/-! ### Documents -/

/-- Behind the marks of ended documents. -/
def skipDocumentEnds : Nat → Build Unit
  | 0 => return ()
  | fuel + 1 => do if ← accept .documentEnd then skipDocumentEnds fuel

/-- The root of the only document. -/
def document (fuel : Nat) : Build (Option Nat) := do
  if ← sees .streamEnd then return none
  let isMarked := (← seesDirective) || (← sees .documentStart)
  let root ←
    if isMarked then do
      directives false [] fuel
      expect .documentStart
      if (← seesDirective) || (← seesAny [.documentStart, .documentEnd, .streamEnd])
      then addEmpty
      else node true false fuel
    else node true false fuel
  skipDocumentEnds fuel
  if !(← sees .streamEnd) then
    directives false [] fuel
    fail
  return some root

end Build

/-- The graph that a text describes, if it describes one at all. -/
def ofStream (s : Stream) : Except Refusal (Option Graph) := do
  let fuel := 16 * (s.text.length + 4)
  if let (some r, true) := (s.trouble, s.text.isEmpty) then throw r
  let (root, b) ← (Build.document fuel).run
    ⟨.start s, #[], [], Build.standardHandles, 0⟩
  return root.map fun place => ⟨b.nodes, place⟩

end Graph

end MixedInteger.Yaml
