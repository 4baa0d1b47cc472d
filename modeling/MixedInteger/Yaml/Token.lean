/-
**Tokens of settings files.**

The text of a settings file is cut into tokens.  Nesting that is told by indentation becomes explicit:
a block opens where the indentation grows and closes where it shrinks.  A key is recognised only when
the colon behind it is seen, so that the place before every token that may be a key is remembered, and
a token that may begin a key waits in a queue until that is settled.

Tokens are cut only when they are asked for.  What is wrong with a text behind the place that is being
read does not count yet.

Main definitions:

* `MixedInteger.Yaml.Token` — tokens;
* `MixedInteger.Yaml.Lexer` — what is known while a text is cut;
* `MixedInteger.Yaml.Lex.peek`, `MixedInteger.Yaml.Lex.skip` — the token ahead, and going on behind it.
-/

import MixedInteger.Yaml.Cursor
import MixedInteger.Yaml.Scalar

set_option autoImplicit false

namespace MixedInteger.Yaml

/-- Tokens. -/
inductive Token where
  | streamEnd
  /-- The version of the format, its major part. -/
  | version (major : Nat)
  /-- What a handle of tags stands for. -/
  | handle (name target : String)
  /-- A directive that means nothing here. -/
  | directive
  | documentStart
  | documentEnd
  | blockSequence
  | blockMapping
  | blockEnd
  | openSequence
  | openMapping
  | closeSequence
  | closeMapping
  | entry
  | item
  | key
  | value
  | alias (name : String)
  | anchor (name : String)
  | tag (handle : Option String) (suffix : String)
  | scalar (text : ScalarText) (isPlain : Bool)
  deriving Repr, DecidableEq

/-- A place where a key may have begun. -/
structure PendingKey where
  /-- How many flow collections are open around it. -/
  depth : Nat
  /-- How many tokens came before it. -/
  place : Nat
  /-- Nothing but a key can stand there. -/
  required : Bool
  index : Nat
  line : Nat
  column : Nat

/-- What is known while a text is cut. -/
structure Lexer where
  cursor : Cursor
  /-- Tokens that have not been asked for yet. -/
  queue : List Token
  /-- How many tokens have been taken from the queue. -/
  taken : Nat
  /-- Whether the last token has been cut. -/
  isDone : Bool
  /-- How many flow collections are open. -/
  depth : Nat
  indent : Int
  /-- Indentations around the current one, the innermost first. -/
  outer : List Int
  /-- Whether a key may begin here. -/
  keyAllowed : Bool
  pending : List PendingKey

/-- Before the first token of a text.  A byte order mark in front does not count. -/
def Lexer.start (s : Stream) : Lexer :=
  let text := match s.text with
    | '\ufeff' :: rest => rest
    | cs => cs
  ⟨.start { s with text := text }, [], 0, false, 0, -1, [], true, []⟩

/-- Cutting may fail. -/
abbrev Lex := StateT Lexer (Except Refusal)

namespace Lex

/-- Refuses a text at the place that is being read.  Where that is the end of what could be loaded, the
reason for which nothing more could be loaded comes first. -/
def refuse {β : Type} (r : Refusal) : Lex β := do throw ((← get).cursor.trouble?.getD r)

/-- The text is not in the format. -/
def fail {β : Type} : Lex β := refuse .malformed

/-- Goes on only if a condition holds. -/
def ensure (b : Bool) : Lex Unit := if b then return () else fail

/-- The place of the moment. -/
def cursor : Lex Cursor := return (← get).cursor

/-- Goes on from another place. -/
def setCursor (c : Cursor) : Lex Unit := modify fun s => { s with cursor := c }

/-- Some characters on. -/
def advance (n : Nat) : Lex Unit := do setCursor ((← cursor).advance n)

/-- Adds a token. -/
def emit (t : Token) : Lex Unit := modify fun s => { s with queue := s.queue ++ [t] }

/-- Puts a token before the one at a place. -/
def emitAt (place : Nat) (t : Token) : Lex Unit :=
  modify fun s => { s with queue := s.queue.insertIdx (place - s.taken) t }

/-- Says whether a key may begin from here on. -/
def allowKey (b : Bool) : Lex Unit := modify fun s => { s with keyAllowed := b }

/-! ### Keys and indentation -/

/-- The place of a key at the present depth, if one is pending. -/
def pendingHere : Lex (Option PendingKey) := do
  let s ← get
  return s.pending.find? fun k => k.depth == s.depth

/-- Forgets the pending key at the present depth. -/
def dropPending : Lex Unit :=
  modify fun s => { s with pending := s.pending.filter fun k => k.depth != s.depth }

/-- Gives up the pending key at the present depth, which must not have been required. -/
def cancelKey : Lex Unit := do
  if let some k ← pendingHere then ensure !k.required
  dropPending

/-- Remembers that a key may begin here. -/
def rememberKey : Lex Unit := do
  let s ← get
  let required := s.depth == 0 && s.indent == (s.cursor.column : Int)
  if s.keyAllowed then
    cancelKey
    let k : PendingKey :=
      ⟨s.depth, s.taken + s.queue.length, required, s.cursor.index, s.cursor.line, s.cursor.column⟩
    modify fun s => { s with pending := s.pending ++ [k] }

/-- The greatest distance between the beginning of a key and its colon. -/
def keyReach : Nat := 1024

/-- Gives up keys that begin on an earlier line or too far back. -/
def dropStale : Lex Unit := do
  let s ← get
  let isStale := fun (k : PendingKey) =>
    k.line != s.cursor.line || decide (keyReach < s.cursor.index - k.index)
  ensure (!s.pending.any fun k => isStale k && k.required)
  modify fun s => { s with pending := s.pending.filter fun k => !isStale k }

/-- Closes blocks until the indentation is at most `column`; `outer` lists what lies around. -/
def closeBlocks (column : Int) (indent : Int) : List Int → Lex Unit
  | [] => return ()
  | i :: rest => do
    if column < indent then
      emit .blockEnd
      modify fun s => { s with indent := i, outer := rest }
      closeBlocks column i rest

/-- Closes the blocks that are indented deeper than `column`, unless a flow collection is open. -/
def unwind (column : Int) : Lex Unit := do
  let s ← get
  if s.depth == 0 then closeBlocks column s.indent s.outer

/-- Opens a block at a column that is deeper than the indentation; says whether it did. -/
def openBlock (column : Nat) : Lex Bool := do
  let s ← get
  if s.indent < (column : Int) then
    set { s with indent := (column : Int), outer := s.indent :: s.outer }
    return true
  else return false

/-! ### Between tokens -/

/-- Skips blanks, comments and line breaks.  After a line break outside flow collections a key may
begin. -/
def skipGaps : Nat → Lex Unit
  | 0 => return ()
  | fuel + 1 => do
    let c := (← cursor).skipBlanks.skipComment
    setCursor c
    if let some (_, after) := c.lineBreak? then
      setCursor after
      if (← get).depth == 0 then allowKey true
      skipGaps fuel

/-! ### Directives, anchors, tags -/

/-- Behind the rest of a line, which may hold a comment only. -/
def finishLine : Lex Unit := do
  let c := (← cursor).skipBlanks.skipComment
  ensure (isLineEnd c.head)
  setCursor ((c.lineBreak?.map Prod.snd).getD c)

/-- Reads characters of a class, at least one of them. -/
def readRun (p : Char → Bool) : Lex String := do
  let (run, c) := (← cursor).takeWhile p
  ensure !run.isEmpty
  setCursor c
  return String.ofList run

/-- The characters of tags, escapes apart. -/
def isTagChar (c : Char) : Bool :=
  c.isAlphanum || "-;/?:@&=+$,_.!~*'()[]".toList.contains c

/-- The value of hexadecimal digits. -/
def hexValue? (ds : List Char) : Option Nat :=
  ds.foldlM (fun n d => (Literal.hexDigit? d).map (16 * n + ·)) 0

/-- The value of so many hexadecimal digits, which have to be ahead. -/
def readHex (width : Nat) : Lex Nat := do
  let ds := (← cursor).rest.take width
  ensure (ds.length == width)
  match hexValue? ds with
  | some n =>
    advance width
    return n
  | none => fail

/-- The bytes of escapes in a tag, each of which is a percent sign and two digits. -/
def readEscapedBytes : Nat → Lex (List UInt8)
  | 0 => return []
  | fuel + 1 => do
    if (← cursor).head == '%' then
      advance 1
      let n ← readHex 2
      return UInt8.ofNat n :: (← readEscapedBytes fuel)
    else return []

/-- The characters of a tag. -/
def tagCharacters : Nat → Lex (List Char)
  | 0 => fail
  | fuel + 1 => do
    let (run, c) := (← cursor).takeWhile isTagChar
    setCursor c
    if c.head == '%' then
      let bytes ← readEscapedBytes fuel
      match String.fromUTF8? ⟨bytes.toArray⟩ with
      | some s => return run ++ s.toList ++ (← tagCharacters fuel)
      | none => fail
    else return run

/-- The text of a tag, which must not be empty. -/
def readTagText : Lex String := do
  let c ← cursor
  ensure (isTagChar c.head || c.head == '%')
  return String.ofList (← tagCharacters (c.rest.length + 1))

/-- The handle of a tag: one mark before a blank, or a name between two. -/
def readHandle : Lex String := do
  let c ← cursor
  ensure (c.head == '!')
  if c.peek 1 == ' ' then
    advance 1
    return "!"
  else
    let (name, after) := c.next.takeWhile isNameChar
    setCursor after
    ensure (after.head == '!')
    advance 1
    return String.ofList (('!' :: name) ++ ['!'])

/-- A decimal number. -/
def readNumber : Lex Nat := do
  let ds ← readRun Char.isDigit
  if Typed.maxDigits < ds.length then refuse .senseless
  return Literal.natOfDigits ds.toList

/-- A directive behind its percent sign. -/
def readDirective : Lex Token := do
  advance 1
  let name ← readRun isNameChar
  ensure (isLineEnd (← cursor).head || (← cursor).head == ' ')
  if name == "YAML" then
    setCursor (← cursor).skipBlanks
    let major ← readNumber
    ensure ((← cursor).head == '.')
    advance 1
    let _ ← readNumber
    ensure (isLineEnd (← cursor).head || (← cursor).head == ' ')
    finishLine
    return .version major
  else if name == "TAG" then
    setCursor (← cursor).skipBlanks
    let handle ← readHandle
    ensure ((← cursor).head == ' ')
    setCursor (← cursor).skipBlanks
    let target ← readTagText
    ensure (isLineEnd (← cursor).head || (← cursor).head == ' ')
    finishLine
    return .handle handle target
  else
    setCursor ((← cursor).skipWhile fun ch => !isLineEnd ch)
    finishLine
    return .directive

/-- The name of an anchor or an alias behind its mark. -/
def readAnchorName : Lex String := do
  advance 1
  let name ← readRun isNameChar
  let ch := (← cursor).head
  ensure (isGap ch || "?:,]\x7d%@`".toList.contains ch)
  return name

/-- Whether a second mark comes before the next gap, so that a tag has a handle. -/
def hasHandle (c : Cursor) : Bool :=
  (c.rest.drop 1 |>.takeWhile fun ch => !(ch == ' ' || isLineEnd ch)).contains '!'

/-- A tag. -/
def readTag : Lex Token := do
  let c ← cursor
  let t ←
    if c.peek 1 == '<' then do
      advance 2
      let suffix ← readTagText
      ensure ((← cursor).head == '>')
      advance 1
      pure (Token.tag none suffix)
    else if isGap (c.peek 1) then do
      advance 1
      pure (Token.tag none "!")
    else if hasHandle c then do
      let handle ← readHandle
      pure (Token.tag (some handle) (← readTagText))
    else do
      advance 1
      pure (Token.tag (some "!") (← readTagText))
  ensure (isLineEnd (← cursor).head || (← cursor).head == ' ')
  return t

/-! ### Scalars in quotes -/

/-- The characters that single letters stand for behind a backslash. -/
def escapedLetters : List (Char × Char) :=
  [('0', '\x00'), ('a', '\x07'), ('b', '\x08'), ('t', '\t'), ('\t', '\t'), ('n', '\n'),
   ('v', '\x0b'), ('f', '\x0c'), ('r', '\r'), ('e', '\x1b'), (' ', ' '), ('"', '"'),
   ('\\', '\\'), ('/', '/'), ('N', '\u0085'), ('_', '\u00a0'), ('L', '\u2028'), ('P', '\u2029')]

/-- How many hexadecimal digits follow a letter behind a backslash. -/
def escapedWidths : List (Char × Nat) := [('x', 2), ('u', 4), ('U', 8)]

/-- What stands in for half a character in a broken text. -/
def halfCharacter : Char := '\ufffd'

/-- A part of a scalar in quotes, and whether it is broken. -/
abbrev Piece := List Char × Bool

/-- Two parts one after the other. -/
def Piece.append (p q : Piece) : Piece := (p.1 ++ q.1, p.2 || q.2)

/-- The character of a code point. -/
def readCodePoint (n : Nat) : Lex Piece :=
  if twoPow 31 ≤ n then refuse .outOfRange
  else if 0x110000 ≤ n then refuse .senseless
  else if 0xd800 ≤ n && n < 0xe000 then return ([halfCharacter], true)
  else return ([Char.ofNat n], false)

/-- Line breaks and the blanks around them within quotes.  A document mark must not stand there. -/
def quotedBreaks : Nat → Lex (List Char)
  | 0 => return []
  | fuel + 1 => do
    ensure !(← cursor).atDocumentMark
    let c := (← cursor).skipWhile fun ch => ch == ' ' || ch == '\t'
    setCursor c
    match c.lineBreak? with
    | some (b, after) =>
      setCursor after
      return b :: (← quotedBreaks fuel)
    | none => return []

/-- What a line break and the empty lines behind it come to: the first one folds into a blank unless
another follows. -/
def folded (first : Char) (breaks : List Char) : List Char :=
  if first != '\n' then first :: breaks
  else if breaks.isEmpty then [' ']
  else breaks

/-- Blanks and line breaks within quotes. -/
def quotedGap (fuel : Nat) : Lex (List Char) := do
  let (blanks, c) := (← cursor).takeWhile fun ch => ch == ' ' || ch == '\t'
  setCursor c
  ensure (c.head != endMark)
  match c.lineBreak? with
  | some (b, after) =>
    setCursor after
    return folded b (← quotedBreaks fuel)
  | none => return blanks

/-- An escape within double quotes, behind its backslash. -/
def readEscape (fuel : Nat) : Lex Piece := do
  let c ← cursor
  let ch := c.head
  match escapedLetters.lookup ch, escapedWidths.lookup ch, c.lineBreak? with
  | some r, _, _ =>
    advance 1
    return ([r], false)
  | none, some width, _ => do
    advance 1
    let n ← readHex width
    readCodePoint n
  | none, none, some (_, after) =>
    setCursor after
    return (← quotedBreaks fuel, false)
  | none, none, none => fail

/-- A scalar in quotes up to its closing mark. -/
def quotedBody (mark : Char) : Nat → Lex Piece
  | 0 => fail
  | fuel + 1 => do
    let isDouble := mark == '"'
    let (run, c) := (← cursor).takeWhile fun ch => !(ch == '\'' || ch == '"' || ch == '\\' || isGap ch)
    setCursor c
    let ch := c.head
    let before := fun (cs : List Char) (rest : Piece) => Piece.append (run ++ cs, false) rest
    if !isDouble && ch == '\'' && c.peek 1 == '\'' then
      advance 2
      return before ['\''] (← quotedBody mark fuel)
    else if ch == mark then
      advance 1
      return (run, false)
    else if (isDouble && ch == '\'') || (!isDouble && (ch == '"' || ch == '\\')) then
      advance 1
      return before [ch] (← quotedBody mark fuel)
    else if isDouble && ch == '\\' then
      advance 1
      let escaped ← readEscape fuel
      return before [] (escaped.append (← quotedBody mark fuel))
    else
      let gap ← quotedGap fuel
      return before gap (← quotedBody mark fuel)

/-- A scalar in quotes. -/
def readQuoted (mark : Char) (fuel : Nat) : Lex Token := do
  advance 1
  let (cs, isBroken) ← quotedBody mark fuel
  return .scalar ⟨String.ofList cs, isBroken⟩ false

/-! ### Plain scalars -/

/-- Whether a plain scalar cannot go on with the character ahead. -/
def endsPlain (depth : Nat) (ch next : Char) : Bool :=
  isGap ch ||
    (ch == ':' && (isGap next || (depth != 0 && ",[]\x7b\x7d".toList.contains next))) ||
    (depth != 0 && ",?[]\x7b\x7d".toList.contains ch)

/-- The characters of a plain scalar up to a gap or an indicator. -/
def plainRun (depth : Nat) : List Char → List Char
  | [] => []
  | ch :: rest =>
    if endsPlain depth ch (rest.headD endMark) then [] else ch :: plainRun depth rest

/-- The empty lines and blanks behind a line break within a plain scalar; nothing if a document mark
ends the scalar. -/
def plainBreaks : Nat → Lex (Option (List Char))
  | 0 => return some []
  | fuel + 1 => do
    let c := (← cursor).skipBlanks
    setCursor c
    match c.lineBreak? with
    | some (b, after) =>
      setCursor after
      if after.atDocumentMark then return none
      else return (← plainBreaks fuel).map (b :: ·)
    | none => return some []

/-- Blanks and line breaks within a plain scalar; nothing if they end it. -/
def plainGap (fuel : Nat) : Lex (List Char) := do
  let (blanks, c) := (← cursor).takeWhile (· == ' ')
  setCursor c
  match c.lineBreak? with
  | some (b, after) =>
    setCursor after
    allowKey true
    if after.atDocumentMark then return []
    else
      match ← plainBreaks fuel with
      | some breaks => return folded b breaks
      | none => return []
  | none => return blanks

/-- The characters of a plain scalar, `gap` standing before the next run. -/
def plainBody (gap : List Char) : Nat → Lex (List Char)
  | 0 => return []
  | fuel + 1 => do
    let s ← get
    let run := if s.cursor.head == '#' then [] else plainRun s.depth s.cursor.rest
    if run.isEmpty then return []
    allowKey false
    advance run.length
    let next ← plainGap fuel
    let c ← cursor
    if next.isEmpty || c.head == '#' || (s.depth == 0 && decide ((c.column : Int) < s.indent + 1))
    then return gap ++ run
    else return gap ++ run ++ (← plainBody next fuel)

/-- A plain scalar. -/
def readPlain (fuel : Nat) : Lex Token := do
  return .scalar ⟨String.ofList (← plainBody [] fuel), false⟩ true

/-- Whether a plain scalar begins ahead. -/
def atPlain (depth : Nat) (c : Cursor) : Bool :=
  let ch := c.head
  !(isGap ch || "-?:,[]\x7b\x7d#&*!|>'\"%@`".toList.contains ch) ||
    (!isGap (c.peek 1) && (ch == '-' || (depth == 0 && (ch == '?' || ch == ':'))))

/-! ### Block scalars -/

/-- What is said of a block scalar in front of it: what becomes of the last line breaks, and how deep
it is indented. -/
structure BlockHeader where
  /-- True keeps all final line breaks, false none; else one is kept. -/
  keep : Option Bool
  depth : Option Nat

/-- The header of a block scalar. -/
def readHeader : Lex BlockHeader := do
  let sign := fun (ch : Char) =>
    if ch == '+' then some true else if ch == '-' then some false else none
  let digit := fun (ch : Char) => if ch.isDigit then some (ch.toNat - '0'.toNat) else none
  let first := (← cursor).peek 0
  let second := (← cursor).peek 1
  let header ← match sign first, digit first with
    | some k, _ =>
      match digit second with
      | some n => advance 2; pure (BlockHeader.mk (some k) (some n))
      | none => advance 1; pure (BlockHeader.mk (some k) none)
    | none, some n =>
      match sign second with
      | some k => advance 2; pure (BlockHeader.mk (some k) (some n))
      | none => advance 1; pure (BlockHeader.mk none (some n))
    | none, none => pure (BlockHeader.mk none none)
  ensure (header.depth != some 0)
  ensure (isLineEnd (← cursor).head || (← cursor).head == ' ')
  return header

/-- Blanks up to a column. -/
def skipIndent (column : Nat) (c : Cursor) : Cursor :=
  c.advance ((c.rest.take (column - c.column)).takeWhile (· == ' ')).length

/-- Empty lines, and blanks up to a column. -/
def blockBreaks (column : Nat) : Nat → Lex (List Char)
  | 0 => return []
  | fuel + 1 => do
    let c := skipIndent column (← cursor)
    setCursor c
    match c.lineBreak? with
    | some (b, after) =>
      setCursor after
      return b :: (← blockBreaks column fuel)
    | none => return []

/-- Empty lines and blanks in front of a block scalar, and the deepest column reached. -/
def blockIndentation : Nat → Lex (List Char × Nat)
  | 0 => return ([], 0)
  | fuel + 1 => do
    let c := (← cursor).skipBlanks
    setCursor c
    match c.lineBreak? with
    | some (b, after) =>
      setCursor after
      let (breaks, deepest) ← blockIndentation fuel
      return (b :: breaks, max c.column deepest)
    | none => return ([], c.column)

/-- The lines of a block scalar at a column, `breaks` being empty lines before the next one; the line
break and the empty lines behind the last line are given apart. -/
def blockLines (isFolded : Bool) (column : Nat) (breaks : List Char) :
    Nat → Lex (List Char × List Char × List Char)
  | 0 => return ([], [], breaks)
  | fuel + 1 => do
    let c ← cursor
    if c.column != column || c.head == endMark then return ([], [], breaks)
    let startsBlank := c.head == ' ' || c.head == '\t'
    let (line, c) := c.takeWhile fun ch => !isLineEnd ch
    let (last, c) := match c.lineBreak? with
      | some (b, after) => ([b], after)
      | none => ([], c)
    setCursor c
    let next ← blockBreaks column fuel
    let c ← cursor
    if c.column == column && c.head != endMark then
      let joint :=
        if isFolded && last == ['\n'] && !startsBlank && !(c.head == ' ' || c.head == '\t') then
          (if next.isEmpty then [' '] else [])
        else last
      let (lines, final, after) ← blockLines isFolded column next fuel
      return (breaks ++ line ++ joint ++ lines, final, after)
    else return (breaks ++ line, last, next)

/-- A block scalar. -/
def readBlock (isFolded : Bool) (fuel : Nat) : Lex Token := do
  advance 1
  let header ← readHeader
  finishLine
  let least := max 1 ((← get).indent + 1).toNat
  let (breaks, column) ← match header.depth with
    | some n => do
      let column := least + n - 1
      pure (← blockBreaks column fuel, column)
    | none => do
      let (breaks, deepest) ← blockIndentation fuel
      pure (breaks, max least deepest)
  let (body, final, after) ← blockLines isFolded column breaks fuel
  let text := match header.keep with
    | some false => body
    | some true => body ++ final ++ after
    | none => body ++ final
  return .scalar ⟨String.ofList text, false⟩ false

/-! ### One token after the other -/

/-- The mark between documents, or behind one. -/
def documentMark (t : Token) : Lex Unit := do
  unwind (-1)
  cancelKey
  allowKey false
  advance 3
  emit t

/-- Opens a flow collection. -/
def openFlow (t : Token) : Lex Unit := do
  rememberKey
  modify fun s => { s with depth := s.depth + 1 }
  allowKey true
  advance 1
  emit t

/-- Closes a flow collection, of which one has to be open. -/
def closeFlow (t : Token) : Lex Unit := do
  cancelKey
  ensure ((← get).depth != 0)
  modify fun s => { s with depth := s.depth - 1 }
  allowKey false
  advance 1
  emit t

/-- An entry of a block sequence. -/
def blockItem : Lex Unit := do
  let s ← get
  if s.depth == 0 then
    ensure s.keyAllowed
    if ← openBlock s.cursor.column then emit .blockSequence
  allowKey true
  cancelKey
  advance 1
  emit .item

/-- A key with a mark of its own. -/
def explicitKey : Lex Unit := do
  let s ← get
  if s.depth == 0 then
    ensure s.keyAllowed
    if ← openBlock s.cursor.column then emit .blockMapping
  allowKey (s.depth == 0)
  cancelKey
  advance 1
  emit .key

/-- The colon between a key and its value. -/
def valueMark : Lex Unit := do
  let s ← get
  match ← pendingHere with
  | some k =>
    dropPending
    emitAt k.place .key
    if s.depth == 0 then
      if ← openBlock k.column then emitAt k.place .blockMapping
    allowKey false
  | none =>
    if s.depth == 0 then
      ensure s.keyAllowed
      if ← openBlock s.cursor.column then emit .blockMapping
    allowKey (s.depth == 0)
    cancelKey
  advance 1
  emit .value

/-- A token that may begin a key. -/
def keyLike (read : Lex Token) : Lex Unit := do
  rememberKey
  allowKey false
  emit (← read)

/-- A block scalar, which never is a key. -/
def blockScalar (isFolded : Bool) (fuel : Nat) : Lex Unit := do
  allowKey true
  cancelKey
  emit (← readBlock isFolded fuel)

/-- Cuts the next token, or several that begin together. -/
def cut (fuel : Nat) : Lex Unit := do
  skipGaps fuel
  dropStale
  let s ← get
  unwind s.cursor.column
  let c := s.cursor
  let ch := c.head
  let gapAfter := isGap (c.peek 1)
  if ch == endMark then
    unwind (-1)
    cancelKey
    emit .streamEnd
    modify fun s => { s with isDone := true }
  else if c.column == 0 && ch == '%' then
    unwind (-1)
    cancelKey
    allowKey false
    emit (← readDirective)
  else if c.column == 0 && c.atMark '-' then documentMark .documentStart
  else if c.column == 0 && c.atMark '.' then documentMark .documentEnd
  else if ch == '[' then openFlow .openSequence
  else if ch == '\x7b' then openFlow .openMapping
  else if ch == ']' then closeFlow .closeSequence
  else if ch == '\x7d' then closeFlow .closeMapping
  else if ch == ',' then
    allowKey true
    cancelKey
    advance 1
    emit .entry
  else if ch == '-' && gapAfter then blockItem
  else if ch == '?' && (s.depth != 0 || gapAfter) then explicitKey
  else if ch == ':' && (s.depth != 0 || gapAfter) then valueMark
  else if ch == '*' then keyLike (do return .alias (← readAnchorName))
  else if ch == '&' then keyLike (do return .anchor (← readAnchorName))
  else if ch == '!' then keyLike readTag
  else if ch == '|' && s.depth == 0 then blockScalar false fuel
  else if ch == '>' && s.depth == 0 then blockScalar true fuel
  else if ch == '\'' || ch == '"' then keyLike (readQuoted ch fuel)
  else if atPlain s.depth c then keyLike (readPlain fuel)
  else fail

/-- Nothing may be wrong with the loading of what was looked at. -/
def checkLoaded : Lex Unit := do
  match (← get).cursor.trouble? with
  | some r => throw r
  | none => return ()

/-! ### Asking for tokens -/

/-- Whether the token ahead may still get a key in front of it, or is not there at all. -/
def isUnsettled : Lex Bool := do
  if (← get).isDone then return false
  if (← get).queue.isEmpty then return true
  dropStale
  let s ← get
  return s.pending.any fun k => k.place == s.taken

/-- Cuts tokens until the one ahead is settled. -/
def settle : Nat → Lex Unit
  | 0 => fail
  | fuel + 1 => do
    if ← isUnsettled then
      cut ((← cursor).rest.length + 1)
      checkLoaded
      settle fuel

/-- The token ahead; behind the last one there is nothing but the end. -/
def peek : Lex Token := do
  settle ((← cursor).rest.length + 2)
  return (← get).queue.headD .streamEnd

/-- Behind the token ahead. -/
def skip : Lex Unit := modify fun s => { s with queue := s.queue.tail, taken := s.taken + 1 }

end Lex

end MixedInteger.Yaml
