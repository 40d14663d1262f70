import PlanSearch.Document.Yaml.Property
import PlanSearch.Document.Yaml.Scalar

/-!
# Tokens of a block text

A text is cut into tokens, among them the beginnings and ends of blocks, which no character stands
for but only the indentation. Whether something is the key of a mapping shows only at the colon
after it, so a place where a key may have begun is remembered, one for each level of brackets. A key
is written on one line and is no longer than 1024 characters.
-/

namespace PlanSearch.Document.Yaml

/-- The smallest part of a text that has a meaning. -/
inductive Token where
  | directive (d : Directive)
  | documentStart
  | documentEnd
  | sequenceStart
  | mappingStart
  | blockEnd
  | listOpen
  | listClose
  | tableOpen
  | tableClose
  | comma
  | dash
  | key
  | value
  | reference (name : String)
  | anchor (name : String)
  | tag (mark : TagMark)
  | scalar (style : Style) (s : String)
  deriving Inhabited

/-- A place where a key may have begun. -/
structure KeyStart where
  /-- The number of tokens before the key. -/
  count : Nat
  place : Cursor
  /-- Nothing but a key can stand there. -/
  isRequired : Bool

/-- A text that has been cut into tokens up to some place. -/
structure Cutting where
  cursor : Cursor
  /-- The tokens, the last one first. -/
  tokens : List Token := []
  /-- The columns of the blocks that are open, the innermost first. -/
  blocks : List Nat := []
  /-- Where the key of the current level may have begun, and of the levels around it. -/
  keyStart : Option KeyStart := none
  outer : List (Option KeyStart) := []
  /-- A key may begin here. -/
  isKeyAllowed : Bool := true

/-- A computation that cuts a text and may fail. -/
abbrev Cut (α : Type) := StateT Cutting Option α

namespace Cutting

/-- The place is inside brackets. -/
def inFlow (s : Cutting) : Bool := !s.outer.isEmpty

/-- The first column that belongs to the innermost block but not to those around it. -/
def indent (s : Cutting) : Nat := s.blocks.head?.elim 0 (· + 1)

/-- Puts tokens in front of those that came after the first ones. -/
def insert (s : Cutting) (count : Nat) (tokens : List Token) : Cutting :=
  let later := s.tokens.length - count
  { s with tokens := s.tokens.take later ++ tokens.reverse ++ s.tokens.drop later }

end Cutting

namespace Cut

/-- Reads characters. -/
def scan {α : Type} (reader : Scan α) : Cut α := do
  let s ← get
  let (a, cursor) ← (reader.run s.cursor : Option _)
  set { s with cursor }
  return a

def emit (t : Token) : Cut Unit := modify fun s => { s with tokens := t :: s.tokens }

def allowKey (isKeyAllowed : Bool) : Cut Unit := modify ({ · with isKeyAllowed })

/-! ## Blocks -/

/-- Begins a block at a column that is further in than the innermost one. The token for it comes
after the given number of tokens. -/
def openBlock (column count : Nat) (t : Token) : Cut Unit := modify fun s =>
  if s.inFlow || !s.blocks.head?.all (· < column) then s
  else { s.insert count [t] with blocks := column :: s.blocks }

/-- Ends the blocks that are further in than a column. -/
def closeBlocks (isClosed : Nat → Bool) : Cut Unit := modify fun s =>
  if s.inFlow then s
  else
    let closed := s.blocks.takeWhile isClosed
    { s with
      tokens := List.replicate closed.length .blockEnd ++ s.tokens
      blocks := s.blocks.drop closed.length }

/-! ## Keys -/

/-- Gives up the place where a key may have begun. -/
def dropKey : Cut Unit := do
  if (← get).keyStart.any (·.isRequired) then failure
  modify ({ · with keyStart := none })

/-- Remembers a place where a key may begin. In a block, nothing else can stand at its column. -/
def saveKey : Cut Unit := do
  let s ← get
  if s.isKeyAllowed then
    dropKey
    let isRequired := !s.inFlow && s.blocks.head? = some s.cursor.column
    set { s with keyStart := some ⟨s.tokens.length, s.cursor, isRequired⟩ }

/-- Gives up the places that are on another line or too far back. -/
def dropStaleKeys : Cut Unit := do
  let s ← get
  let isStale (k : KeyStart) : Bool :=
    k.place.line < s.cursor.line || k.place.index + 1024 < s.cursor.index
  if (s.keyStart :: s.outer).any fun k => k.any fun k => isStale k && k.isRequired then failure
  let fresh (k : Option KeyStart) : Option KeyStart := k.filter (!isStale ·)
  set { s with keyStart := fresh s.keyStart, outer := s.outer.map fresh }

/-! ## Tokens -/

/-- Passes over blanks, comments and line ends. A tabulator cannot stand where a key may begin,
except in brackets. After a line end a key may begin. -/
def skipGaps : Nat → Cut Unit
  | 0 => failure
  | rounds + 1 => do
    let s ← get
    if s.cursor.column = 0 && s.cursor.rest.head? = some '\ufeff' then scan (Scan.advance 1)
    let withTabs := s.inFlow || !s.isKeyAllowed
    scan (Scan.skipWhile fun c => c == ' ' || (withTabs && c == '\t'))
    scan Scan.skipComment
    if !(← scan Scan.takeLineEnd).isEmpty then
      if !s.inFlow then allowKey true
      skipGaps rounds

/-- A token that stands between documents. -/
def cutBetween (t : Scan Token) : Cut Unit := do
  closeBlocks fun _ => true
  dropKey
  allowKey false
  emit (← scan t)

/-- A token of one character. -/
def mark (t : Token) : Cut Unit := do
  scan (Scan.advance 1)
  emit t

def cutOpen (t : Token) : Cut Unit := do
  saveKey
  modify fun s => { s with keyStart := none, outer := s.keyStart :: s.outer }
  allowKey true
  mark t

def cutClose (t : Token) : Cut Unit := do
  dropKey
  modify fun s =>
    match s.outer with
    | [] => s
    | keyStart :: outer => { s with keyStart, outer }
  allowKey false
  mark t

def cutComma : Cut Unit := do
  dropKey
  allowKey true
  mark .comma

/-- A block that a mark begins where it stands. -/
def cutBlock (t : Token) : Cut Unit := do
  let s ← get
  if !s.inFlow && !s.isKeyAllowed then failure
  openBlock s.cursor.column s.tokens.length t

def cutDash : Cut Unit := do
  cutBlock .sequenceStart
  dropKey
  allowKey true
  mark .dash

def cutKey : Cut Unit := do
  cutBlock .mappingStart
  dropKey
  allowKey !(← get).inFlow
  mark .key

/-- The colon after a key. If the key has no mark of its own, it gets one where it began. -/
def cutValue : Cut Unit := do
  match (← get).keyStart with
  | some k =>
    modify (·.insert k.count [.key])
    openBlock k.place.column k.count .mappingStart
    modify ({ · with keyStart := none })
    allowKey false
  | none =>
    cutBlock .mappingStart
    allowKey !(← get).inFlow
  mark .value

/-- A token that may be a key or begin one. -/
def cutWord (t : Scan Token) : Cut Unit := do
  saveKey
  allowKey false
  emit (← scan t)

def cutBlockScalar (style : Style) : Cut Unit := do
  dropKey
  allowKey true
  let indent := (← get).indent
  emit (.scalar style (← scan (blockScalar (style = .folded) indent)))

def cutPlain : Cut Unit := do
  saveKey
  let place ← get
  let (s, endsLine) ← scan (plainScalar place.inFlow place.indent)
  allowKey endsLine
  emit (.scalar .plain s)

/-- A character that no plain scalar begins with, or only if another one follows. -/
def isIndicator (c : Char) : Bool := "-?:,[]\x7b\x7d#&*!|>'\"%@\x60".toList.contains c

/-- Cuts the next token off. At the end of the text there is none. -/
def next : Cut Bool := do
  skipGaps ((← get).cursor.rest.length + 1)
  dropStaleKeys
  let s ← get
  closeBlocks (s.cursor.column < ·)
  let isFirst := s.cursor.column = 0
  match s.cursor.rest with
  | [] =>
    closeBlocks fun _ => true
    dropKey
    return false
  | c :: rest =>
    if isFirst && c = '%' then cutBetween (.directive <$> directive)
    else if s.cursor.isBoundary then
      cutBetween do
        Scan.advance 3
        return if c = '-' then .documentStart else .documentEnd
    else match c with
      | '[' => cutOpen .listOpen
      | '\x7b' => cutOpen .tableOpen
      | ']' => cutClose .listClose
      | '\x7d' => cutClose .tableClose
      | ',' => cutComma
      | '*' => cutWord (.reference <$> anchorName)
      | '&' => cutWord (.anchor <$> anchorName)
      | '!' => cutWord (.tag <$> tagMark s.inFlow)
      | '\'' => cutWord (.scalar .quoted <$> quotedScalar)
      | '"' => cutWord (.scalar .quoted <$> quotedScalar)
      | _ =>
        if c = '-' && isAtGap rest then cutDash
        else if c = '?' && (s.inFlow || isAtGap rest) then cutKey
        else if c = ':' && (s.inFlow || isAtGap rest) then cutValue
        else if c = '|' && !s.inFlow then cutBlockScalar .literal
        else if c = '>' && !s.inFlow then cutBlockScalar .folded
        else if !isGap c && !(isIndicator c && c ≠ '-' && c ≠ '?' && c ≠ ':') then cutPlain
        else failure
    return true

/-- Cuts all tokens off. -/
def all : Nat → Cut Unit
  | 0 => failure
  | rounds + 1 => do
    if ← next then all rounds

end Cut

/-- The tokens of a text. -/
def Token.ofText? (s : String) : Option (List Token) := do
  let cs := match s.toList with
    | '\ufeff' :: rest => rest
    | cs => cs
  if !cs.all isPrintable then failure
  let cs := unifyLineEnds cs
  let (_, s) ← (Cut.all (cs.length + 1)).run { cursor := { rest := cs } }
  return s.tokens.reverse

end PlanSearch.Document.Yaml
