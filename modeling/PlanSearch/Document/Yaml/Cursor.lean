import PlanSearch.Document.Basic

/-!
# Characters of a block text and places in it

A block text is read character by character. A place in it is known by its line and column, since
the meaning of a character can depend on how far it is indented.
-/

namespace PlanSearch.Document.Yaml

/-- A character that may stand in a text: no control character but tabulators and line ends. -/
def isPrintable (c : Char) : Bool :=
  c == '\t' || c == '\n' || c == '\r' || (' ' ≤ c && c ≤ '~') || c == '\u0085' ||
  ('\u00a0' ≤ c && c ≤ '\ufffd') || 0x10000 ≤ c.toNat

/-- The line ends of a text in one form, except for those that only some scripts use. -/
def unifyLineEnds : List Char → List Char
  | [] => []
  | '\r' :: '\n' :: rest => '\n' :: unifyLineEnds rest
  | '\r' :: rest => '\n' :: unifyLineEnds rest
  | '\u0085' :: rest => '\n' :: unifyLineEnds rest
  | c :: rest => c :: unifyLineEnds rest

def isSpace (c : Char) : Bool := c == ' ' || c == '\t'

/-- A character that ends a line. -/
def isLineEnd (c : Char) : Bool := c == '\n' || c == '\u2028' || c == '\u2029'

/-- A character between words. -/
def isGap (c : Char) : Bool := isSpace c || isLineEnd c

/-- A character of a name. -/
def isNameChar (c : Char) : Bool := c.isAlphanum || c == '_' || c == '-'

/-- A character that has a meaning of its own in brackets. -/
def isFlowMark (c : Char) : Bool := ",[]\x7b\x7d".toList.contains c

/-- No word goes on here. -/
def isAtGap (cs : List Char) : Bool := cs.head?.all isGap

/-- The text begins with a mark of three characters that parts documents. -/
def startsBoundary (cs : List Char) : Bool :=
  ["---".toList, "...".toList].any fun mark => mark.isPrefixOf cs && isAtGap (cs.drop 3)

/-- A place in a text and what follows it. -/
structure Cursor where
  rest : List Char
  index : Nat := 0
  line : Nat := 0
  column : Nat := 0

namespace Cursor

/-- The place after a number of characters on one line. -/
def advance (c : Cursor) (count : Nat) : Cursor :=
  { c with rest := c.rest.drop count, index := c.index + count, column := c.column + count }

/-- The place after one character, which may be a line end. -/
def step (c : Cursor) : Cursor :=
  match c.rest with
  | [] => c
  | d :: rest =>
    if isLineEnd d then { rest, index := c.index + 1, line := c.line + 1, column := 0 }
    else c.advance 1

/-- A boundary between documents begins here. -/
def isBoundary (c : Cursor) : Bool := c.column == 0 && startsBoundary c.rest

end Cursor

/-- A reader of characters that may fail. -/
abbrev Scan (α : Type) := StateT Cursor Option α

namespace Scan

def next? : Scan (Option Char) := return (← get).rest.head?

def advance (count : Nat) : Scan Unit := modify (·.advance count)

/-- Takes characters as long as they fit. None of them may be a line end. -/
def takeWhile (p : Char → Bool) : Scan (List Char) := do
  let cs := (← get).rest.takeWhile p
  advance cs.length
  return cs

/-- Passes over characters as long as they fit. -/
def skipWhile (p : Char → Bool) : Scan Unit := do
  let _ ← takeWhile p

/-- Takes a given character. -/
def expect (c : Char) : Scan Unit := do
  if (← next?) = some c then advance 1 else failure

/-- Takes all blanks and line ends. -/
def takeGap : Scan (List Char) := do
  let cs := (← get).rest.takeWhile isGap
  modify fun c => cs.foldl (fun c _ => c.step) c
  return cs

/-- Takes a line end, if there is one. -/
def takeLineEnd : Scan (List Char) := do
  let cs := ((← get).rest.take 1).filter isLineEnd
  modify fun c => if cs.isEmpty then c else c.step
  return cs

/-- Passes over a comment, if there is one. -/
def skipComment : Scan Unit := do
  if (← next?) = some '#' then skipWhile (!isLineEnd ·)

/-- Passes over the rest of a line that holds nothing more, except perhaps a comment. -/
def endLine : Scan Unit := do
  skipWhile isSpace
  skipComment
  if (← get).rest.isEmpty then return
  if (← takeLineEnd).isEmpty then failure

end Scan

end PlanSearch.Document.Yaml
