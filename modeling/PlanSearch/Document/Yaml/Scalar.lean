import PlanSearch.Document.Yaml.Cursor

/-!
# Scalars of a block text

The five styles of scalars: plain words, two kinds of quoted text, and two kinds of indented blocks.
Line ends in the first three are folded: a single one is a blank, and of several ones the first is
left out.
-/

namespace PlanSearch.Document.Yaml

/-- How a scalar is written. -/
inductive Style where
  | plain
  | quoted
  /-- A block whose line ends are kept. -/
  | literal
  | folded
  deriving DecidableEq

/-! ## Folding -/

/-- What the line ends in a gap stand for. Those that only some scripts use are kept. -/
def foldLineEnds : List Char → List Char
  | ['\n'] => [' ']
  | '\n' :: rest => rest
  | ends => ends

/-- What a gap between two words stands for. -/
def foldGap (gap : List Char) : List Char :=
  if gap.any isLineEnd then foldLineEnds (gap.filter isLineEnd) else gap

/-! ## Quoted scalars -/

/-- The character that a backslash and what follows stand for. -/
def escape : Scan Char := do
  let coded (count : Nat) : Scan Char := do
    let digits := (← get).rest.take count
    if digits.length < count then failure
    Scan.advance count
    (charOfDigits digits : Option Char)
  let c ← Scan.next?
  Scan.advance 1
  match c with
  | some '0' => return '\x00'
  | some 'a' => return '\x07'
  | some 'b' => return '\x08'
  | some 't' => return '\t'
  | some '\t' => return '\t'
  | some 'n' => return '\n'
  | some 'v' => return '\x0b'
  | some 'f' => return '\x0c'
  | some 'r' => return '\r'
  | some 'e' => return '\x1b'
  | some ' ' => return ' '
  | some '"' => return '"'
  | some '/' => return '/'
  | some '\\' => return '\\'
  | some 'N' => return '\u0085'
  | some '_' => return '\u00a0'
  | some 'L' => return '\u2028'
  | some 'P' => return '\u2029'
  | some 'x' => coded 2
  | some 'u' => coded 4
  | some 'U' => coded 8
  | _ => failure

/-- The rest of a scalar up to its closing mark. Within single marks only the mark itself has to be
doubled; within double ones a backslash begins an escape, also of a line end. -/
def quotedBody (mark : Char) : Nat → Scan (List Char)
  | 0 => failure
  | rounds + 1 => do
    let cursor ← get
    if cursor.isBoundary then failure
    match cursor.rest with
    | [] => failure
    | c :: rest =>
      if c = mark then
        Scan.advance 1
        if mark = '\'' && rest.head? = some mark then
          Scan.advance 1
          return mark :: (← quotedBody mark rounds)
        else return []
      else if mark = '"' && c = '\\' then
        Scan.advance 1
        if rest.head?.any isLineEnd then
          let _ ← Scan.takeLineEnd
          let gap ← Scan.takeGap
          return gap.filter isLineEnd ++ (← quotedBody mark rounds)
        else
          let c ← escape
          return c :: (← quotedBody mark rounds)
      else if isGap c then
        let gap ← Scan.takeGap
        return foldGap gap ++ (← quotedBody mark rounds)
      else
        let word ← Scan.takeWhile fun c => !isGap c && c != mark && !(mark == '"' && c == '\\')
        return word ++ (← quotedBody mark rounds)

/-- A scalar between marks. -/
def quotedScalar : Scan String := do
  let mark := (← Scan.next?).getD '"'
  Scan.advance 1
  return String.ofList (← quotedBody mark ((← get).rest.length + 1))

/-! ## Plain scalars -/

/-- The word that a text begins with. In brackets, a colon is not followed by a mark of theirs. -/
def plainWord (inFlow : Bool) : List Char → Option (List Char)
  | [] => some []
  | c :: rest =>
    if isGap c || (inFlow && isFlowMark c) then some []
    else if c == ':' then
      if inFlow && rest.head?.any (fun d => isFlowMark d || d == '?') then none
      else if isAtGap rest then some []
      else (plainWord inFlow rest).map (c :: ·)
    else (plainWord inFlow rest).map (c :: ·)

/-- A tabulator stands where lines have to be indented. The column is that of the first character,
if it is on a new line. -/
def hasTabIndent (indent : Nat) : Option Nat → List Char → Bool
  | _, [] => false
  | column, c :: rest =>
    if isLineEnd c then hasTabIndent indent (some 0) rest
    else column.any (fun k => c == '\t' && k < indent) ||
      hasTabIndent indent (column.map (· + 1)) rest

/-- The rest of a plain scalar after a gap, and whether a line ended after it. Its lines are
indented at least so much, except in brackets. -/
def plainBody (inFlow : Bool) (indent : Nat) : Nat → List Char → Scan (List Char × Bool)
  | 0, _ => failure
  | rounds + 1, gap => do
    let cursor ← get
    let ends : List Char × Bool := ([], gap.any isLineEnd)
    let isOut := !inFlow && cursor.column < indent && gap.any isLineEnd
    if isOut || cursor.isBoundary || cursor.rest.head? = some '#' then return ends
    let word ← (plainWord inFlow cursor.rest : Option _)
    if word.isEmpty then return ends
    Scan.advance word.length
    let next ← Scan.takeGap
    if hasTabIndent indent none next then failure
    let (more, endsLine) ← plainBody inFlow indent rounds next
    return (foldGap gap ++ word ++ more, endsLine)

/-- A scalar without quotes, and whether a line ended after it. -/
def plainScalar (inFlow : Bool) (indent : Nat) : Scan (String × Bool) := do
  let (body, endsLine) ← plainBody inFlow indent ((← get).rest.length + 1) []
  return (String.ofList body, endsLine)

/-! ## Block scalars -/

/-- What becomes of the line ends at the end of a block. -/
inductive Chomping where
  | clip
  | strip
  | keep

/-- The header of a block: chomping and, if it is given, the further indentation. -/
def blockHeader : Scan (Chomping × Option Nat) := do
  let marks ← Scan.takeWhile fun c => c == '+' || c == '-' || ('1' ≤ c && c ≤ '9')
  let chomping (c : Char) : Chomping := if c = '+' then .keep else .strip
  let width (c : Char) : Option Nat := digitIn 10 c
  let header ← match marks with
    | [] => pure (.clip, none)
    | [c] => pure (if c.isDigit then (.clip, width c) else (chomping c, none))
    | [c, d] =>
      if c.isDigit && !d.isDigit then pure (chomping d, width c)
      else if d.isDigit && !c.isDigit then pure (chomping c, width d)
      else failure
    | _ => failure
  Scan.endLine
  return header

/-- Passes over empty lines and the blanks that indent the next one. Gives the line ends and the
furthest column reached. An indentation of zero is one that is not known yet. -/
def emptyLines (indent : Nat) : Nat → Scan (List Char × Nat)
  | 0 => failure
  | rounds + 1 => do
    let column := (← get).column
    let spaces := (← get).rest.takeWhile (· == ' ')
    let count := if indent = 0 then spaces.length else min spaces.length (indent - column)
    Scan.advance count
    let furthest := (← get).column
    if (indent = 0 || furthest < indent) && (← Scan.next?) = some '\t' then failure
    let ends ← Scan.takeLineEnd
    if ends.isEmpty then return ([], furthest)
    let (more, further) ← emptyLines indent rounds
    return (ends ++ more, max furthest further)

/-- The lines of a block after the given line ends: the one of the line before and those of empty
lines. Gives the text and the line ends after it. Between two lines that begin with no blank, a
folded line end is a blank, or stands for the empty lines between them. -/
def blockBody (isFolded : Bool) (indent : Nat) :
    Nat → List Char → List Char → Bool → Scan (List Char × List Char × List Char)
  | 0, _, _, _ => failure
  | rounds + 1, last, empty, afterBlank => do
    let cursor ← get
    if cursor.column ≠ indent || cursor.rest.isEmpty then return ([], last, empty)
    let isBlank := cursor.rest.head?.any isSpace
    let last :=
      if isFolded && last = ['\n'] && !afterBlank && !isBlank then
        if empty.isEmpty then [' '] else []
      else last
    let line ← Scan.takeWhile (!isLineEnd ·)
    let next ← Scan.takeLineEnd
    let (ends, _) ← emptyLines indent rounds
    let (more, tail) ← blockBody isFolded indent rounds next ends isBlank
    return (last ++ empty ++ line ++ more, tail)

/-- A block. Its lines are indented at least so much, and further by as much as the header says, or
else the furthest of its first lines up to one that is not empty. -/
def blockScalar (isFolded : Bool) (indent : Nat) : Scan String := do
  Scan.advance 1
  let (chomping, further) ← blockHeader
  let rounds := (← get).rest.length + 2
  let given := match further with
    | some count => indent - 1 + count
    | none => 0
  let (empty, furthest) ← emptyLines given rounds
  let indent := if given = 0 then max furthest (max indent 1) else given
  let (body, last, empty) ← blockBody isFolded indent rounds [] empty false
  return String.ofList (body ++ match chomping with
    | .strip => []
    | .clip => last
    | .keep => last ++ empty)

end PlanSearch.Document.Yaml
