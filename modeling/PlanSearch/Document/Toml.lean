import PlanSearch.Document.Toml.Value

/-!
# Table documents

The TOML format: lines that give keys values, under headers that name tables. A table is defined at
most once, by a header or by dotted keys, and no key is given twice. Texts that break a rule have no
document.
-/

namespace PlanSearch.Document.Toml

/-- A reader of characters that may fail. -/
abbrev Scan (α : Type) := StateT (List Char) Option α

/-! ## Characters -/

/-- A character that may stand in texts and comments: no control character but the tabulator. -/
def isTextChar (c : Char) : Bool := c == '\t' || (32 ≤ c.toNat && c.toNat != 127)

def isSpace (c : Char) : Bool := c == ' ' || c == '\t'

def isKeyChar (c : Char) : Bool := c.isAlphanum || c == '_' || c == '-'

/-- A character of an unquoted value. -/
def isWordChar (c : Char) : Bool :=
  c.isAlphanum || c == '+' || c == '-' || c == '_' || c == '.' || c == ':'

/-- Takes characters as long as they fit. -/
def takeWhile (p : Char → Bool) : Scan (List Char) :=
  fun cs => some (cs.takeWhile p, cs.dropWhile p)

/-- Takes a given character. -/
def expect (c : Char) : Scan Unit := fun cs =>
  match cs with
  | d :: rest => if d = c then some ((), rest) else none
  | [] => none

/-- The next character, which is left in place. -/
def peek : Scan (Option Char) := fun cs => some (cs.head?, cs)

def skipSpaces : Scan Unit := do
  let _ ← takeWhile isSpace

/-- Passes over a comment, up to the end of its line. -/
def skipComment : Scan Unit := do
  if (← peek) = some '#' then
    let body ← takeWhile (· != '\n')
    if !body.all isTextChar then failure

/-- Ends a line. -/
def endLine : Scan Unit := do
  skipSpaces
  skipComment
  match ← peek with
  | none => return
  | some _ => expect '\n'

/-- Passes over blanks, comments and line ends. -/
def skipLines : Nat → Scan Unit
  | 0 => failure
  | rounds + 1 => do
    let _ ← takeWhile fun c => isSpace c || c == '\n'
    if (← peek) = some '#' then
      skipComment
      skipLines rounds

/-! ## Texts -/

/-- The character that a backslash and what follows stand for. -/
def escape : Scan Char := fun cs =>
  match cs with
  | 'b' :: rest => some ('\x08', rest)
  | 't' :: rest => some ('\t', rest)
  | 'n' :: rest => some ('\n', rest)
  | 'f' :: rest => some ('\x0c', rest)
  | 'r' :: rest => some ('\r', rest)
  | '"' :: rest => some ('"', rest)
  | '\\' :: rest => some ('\\', rest)
  | 'u' :: rest => coded 4 rest
  | 'U' :: rest => coded 8 rest
  | _ => none
where
  /-- The character with a code of so many digits. -/
  coded (count : Nat) (cs : List Char) : Option (Char × List Char) :=
    if cs.length < count then none
    else (charOfDigits (cs.take count)).map (·, cs.drop count)

/-- The rest of a text on one line, up to its closing mark. -/
def lineText (mark : Char) (escapes : Bool) : Nat → Scan (List Char)
  | 0 => failure
  | rounds + 1 => fun cs =>
    match cs with
    | [] => none
    | c :: rest =>
      if c = mark then some ([], rest)
      else if escapes && c = '\\' then
        (do
          let c ← escape
          return c :: (← lineText mark escapes rounds)).run rest
      else if isTextChar c then
        (do return c :: (← lineText mark escapes rounds)).run rest
      else none

/-- The rest of a text over several lines, up to three closing marks. One or two further marks
before those belong to the text. A backslash at the end of a line takes all blanks after it away. -/
def linesText (mark : Char) (escapes : Bool) : Nat → Scan (List Char)
  | 0 => failure
  | rounds + 1 => fun cs =>
    match cs with
    | [] => none
    | c :: rest =>
      if [mark, mark, mark].isPrefixOf cs then
        let extra := min 2 ((cs.drop 3).takeWhile (· == mark)).length
        some (List.replicate extra mark, cs.drop (3 + extra))
      else if escapes && c = '\\' then
        if (rest.dropWhile isSpace).head? = some '\n' then
          (linesText mark escapes rounds).run (rest.dropWhile fun c => isSpace c || c == '\n')
        else
          (do
            let c ← escape
            return c :: (← linesText mark escapes rounds)).run rest
      else if isTextChar c || c = '\n' then
        (do return c :: (← linesText mark escapes rounds)).run rest
      else none

/-- A text between marks on one line. -/
def quotedLine (mark : Char) : Scan String := do
  expect mark
  let cs ← lineText mark (mark == '"') ((← get).length + 1)
  return String.ofList cs

/-- A text between marks, single or tripled. -/
def quotedText (mark : Char) : Scan String := do
  let cs ← get
  if [mark, mark, mark].isPrefixOf cs then
    let body := cs.drop 3
    set (if body.head? = some '\n' then body.drop 1 else body)
    let cs ← linesText mark (mark == '"') (cs.length + 1)
    return String.ofList cs
  else quotedLine mark

/-! ## Numbers, truth values and dates -/

/-- Digits that may be grouped by single underscores. -/
def ungroup (base : Nat) : List Char → Option (List Char)
  | [] => none
  | [c] => (digitIn base c).map fun _ => [c]
  | c :: '_' :: d :: rest => do
    let _ ← digitIn base c
    return c :: (← ungroup base (d :: rest))
  | c :: d :: rest => do
    let _ ← digitIn base c
    return c :: (← ungroup base (d :: rest))

/-- Digits of which the first is zero only if it is the only one. -/
def wholeDigits (cs : List Char) : Option (List Char) := do
  let ds ← ungroup 10 cs
  match ds with
  | '0' :: _ :: _ => none
  | _ => return ds

private def signed (cs : List Char) : Bool × List Char :=
  match cs with
  | '-' :: rest => (true, rest)
  | '+' :: rest => (false, rest)
  | _ => (false, cs)

private def inRange (n : Int) : Option Value :=
  if -0x8000000000000000 ≤ n ∧ n < 0x8000000000000000 then some (.integer n) else none

/-- An integer of 64 bits. -/
def integerOf (cs : List Char) : Option Value :=
  let based (base : Nat) (cs : List Char) : Option Value := do
    inRange (← natOfDigits base (← ungroup base cs))
  match cs with
  | '0' :: 'x' :: rest => based 16 rest
  | '0' :: 'o' :: rest => based 8 rest
  | '0' :: 'b' :: rest => based 2 rest
  | _ => do
    let (negative, digits) := signed cs
    let n ← natOfDigits 10 (← wholeDigits digits)
    inRange (if negative then -(n : Int) else n)

/-- A float: an integer with a fraction, an exponent, or both. -/
def realOf (cs : List Char) : Option Value := do
  let (negative, cs) := signed cs
  let sign (x : Float) : Float := if negative then -x else x
  if cs == "inf".toList then return .real (sign (1.0 / 0.0))
  if cs == "nan".toList then return .real (sign (0.0 / 0.0))
  let mantissa := cs.takeWhile fun c => c != 'e' && c != 'E'
  let exponent := cs.drop mantissa.length
  let whole := mantissa.takeWhile (· != '.')
  let fraction := mantissa.drop whole.length
  if exponent.isEmpty && fraction.isEmpty then failure
  let wholePart ← wholeDigits whole
  let fractionPart ← if fraction.isEmpty then pure [] else ungroup 10 (fraction.drop 1)
  let exponentPart ←
    if exponent.isEmpty then pure []
    else
      let (negative, digits) := signed (exponent.drop 1)
      let ds ← ungroup 10 digits
      pure ('e' :: (if negative then '-' :: ds else ds))
  let x ← realOfNumeral (wholePart ++ '.' :: fractionPart ++ exponentPart)
  if x.isInf && !negative then failure
  return .real (sign x)

private def digitsOf (count : Nat) (cs : List Char) : Option (Nat × List Char) := do
  let ds := cs.take count
  if ds.length < count || !ds.all Char.isDigit then failure
  return (← natOfDigits 10 ds, cs.drop count)

private def daysIn (year month : Nat) : Nat :=
  if month = 2 then
    if year % 4 = 0 ∧ (year % 100 ≠ 0 ∨ year % 400 = 0) then 29 else 28
  else if month ∈ [4, 6, 9, 11] then 30 else 31

/-- A day, and what follows it. -/
def dateOf (cs : List Char) : Option (List Char) := do
  let (year, cs) ← digitsOf 4 cs
  let '-' :: cs := cs | none
  let (month, cs) ← digitsOf 2 cs
  let '-' :: cs := cs | none
  let (day, cs) ← digitsOf 2 cs
  if month < 1 || 12 < month || day < 1 || daysIn year month < day then failure
  return cs

/-- A time of day, and what follows it. -/
def timeOf (cs : List Char) : Option (List Char) := do
  let (hour, cs) ← digitsOf 2 cs
  let ':' :: cs := cs | none
  let (minute, cs) ← digitsOf 2 cs
  let ':' :: cs := cs | none
  let (second, cs) ← digitsOf 2 cs
  if 23 < hour || 59 < minute || 60 < second then failure
  match cs with
  | '.' :: rest =>
    if (rest.takeWhile Char.isDigit).isEmpty then failure
    return rest.dropWhile Char.isDigit
  | _ => return cs

/-- The distance of a clock from the common one. -/
def offsetOf (cs : List Char) : Option (List Char) := do
  match cs with
  | 'Z' :: rest => return rest
  | 'z' :: rest => return rest
  | sign :: rest =>
    if sign != '+' && sign != '-' then failure
    let (hour, rest) ← digitsOf 2 rest
    let ':' :: rest := rest | none
    let (minute, rest) ← digitsOf 2 rest
    if 23 < hour || 59 < minute then failure
    return rest
  | [] => return []

/-- A date, a time, or both. -/
def momentOf (cs : List Char) : Option Value := do
  let rest ← match dateOf cs with
    | none => timeOf cs
    | some [] => pure []
    | some (t :: rest) =>
      if t != 'T' && t != 't' && t != ' ' then failure
      offsetOf (← timeOf rest)
  if rest.isEmpty then return .moment (String.ofList cs) else none

/-- A value without quotes or brackets. -/
def word : Scan Value := fun cs =>
  let w := cs.takeWhile isWordChar
  let rest := cs.dropWhile isWordChar
  -- A blank may stand between a date and a time.
  let (w, rest) := match dateOf w, rest with
    | some [], ' ' :: after =>
      if (after.head?.map Char.isDigit).getD false then
        (w ++ ' ' :: after.takeWhile isWordChar, after.dropWhile isWordChar)
      else (w, rest)
    | _, _ => (w, rest)
  let value :=
    if w == "true".toList then some (.truth true)
    else if w == "false".toList then some (.truth false)
    else integerOf w <|> realOf w <|> momentOf w
  value.map (·, rest)

/-! ## Tables -/

/-- What a key of a table stands for while the document is read. -/
inductive Item where
  | leaf (v : Value)
  /-- A table; whether it came about only by being named before something inside it, and whether
  that was by a dotted key. -/
  | table (isImplicit isDotted : Bool) (entries : List (String × Item))
  /-- The tables of one array, the last one first. -/
  | tables (items : List (List (String × Item)))

abbrev Entries := List (String × Item)

def find (key : String) (entries : Entries) : Option Item := entries.lookup key

def put (key : String) (item : Item) (entries : Entries) : Entries :=
  (key, item) :: entries.filter fun (k, _) => k != key

/-- Changes the table at a path. Tables on the way are made if they are not there. Dotted keys do
not lead into tables that a header defines; other paths lead into the last table of an array. -/
def within (byDots : Bool) (change : Bool → Entries → Option Entries) :
    List String → Bool → Entries → Option Entries
  | [], isDotted, entries => change isDotted entries
  | key :: path, _, entries =>
    match find key entries with
    | none => do
      let inner ← within byDots change path byDots []
      return put key (.table true byDots inner) entries
    | some (.leaf _) => none
    | some (.table isImplicit isDotted inner) => do
      if byDots && !isImplicit then failure
      let inner ← within byDots change path isDotted inner
      return put key (.table isImplicit isDotted inner) entries
    | some (.tables []) => none
    | some (.tables (last :: others)) => do
      let last ← within byDots change path false last
      return put key (.tables (last :: others)) entries

/-- Gives a dotted key a value. -/
def assign (path : List String) (key : String) (v : Value) (entries : Entries) :
    Option Entries :=
  within true (fun isDotted entries =>
    if isDotted == path.isEmpty then none
    else match find key entries with
      | some _ => none
      | none => some (put key (.leaf v) entries)) path false entries

mutual

/-- The value that a key stands for. -/
def Item.value : Item → Value
  | .leaf v => v
  | .table _ _ entries => .table (values entries)
  | .tables items => .list (tableValues items).reverse

def values : List (String × Item) → List (String × Value)
  | [] => []
  | (key, item) :: rest => (key, item.value) :: values rest

def tableValues : List (List (String × Item)) → List Value
  | [] => []
  | entries :: rest => .table (values entries) :: tableValues rest

end

/-! ## Keys and values -/

def simpleKey : Scan String := do
  match ← peek with
  | some '"' => quotedLine '"'
  | some '\'' => quotedLine '\''
  | _ =>
    let cs ← takeWhile isKeyChar
    if cs.isEmpty then failure
    return String.ofList cs

/-- How deeply lists, tables and the parts of a key may be nested. -/
def nestingLimit : Nat := 79

/-- A key and those after it, with points between them; at most so many. -/
def keysWithin : Nat → Scan (List String)
  | 0 => failure
  | count + 1 => do
    skipSpaces
    let key ← simpleKey
    skipSpaces
    if (← peek) = some '.' then
      expect '.'
      return key :: (← keysWithin count)
    else return [key]

/-- A key, perhaps dotted. -/
def keyPath : Scan (List String) := keysWithin nestingLimit

/-- Splits a path into the part before its last key, and that key. -/
def splitLast (path : List String) : Option (List String × String) :=
  path.getLast?.map fun key => (path.dropLast, key)

mutual

/-- A value in which lists and tables are nested at most so deeply. -/
def value (depth : Nat) : Nat → Scan Value
  | 0 => failure
  | rounds + 1 => do
    match ← peek with
    | some '"' => return .text (← quotedText '"')
    | some '\'' => return .text (← quotedText '\'')
    | some '[' =>
      if depth = 0 then failure
      expect '['
      return .list (← items (depth - 1) rounds)
    | some '\x7b' =>
      if depth = 0 then failure
      expect '\x7b'
      skipSpaces
      if (← peek) = some '\x7d' then
        expect '\x7d'
        return .table []
      else return .table (values (← pairs (depth - 1) rounds []))
    | _ => word

/-- The rest of a list. -/
def items (depth : Nat) : Nat → Scan (List Value)
  | 0 => failure
  | rounds + 1 => do
    skipLines ((← get).length + 1)
    if (← peek) = some ']' then
      expect ']'
      return []
    else
      let d ← value depth rounds
      skipLines ((← get).length + 1)
      if (← peek) = some ',' then
        expect ','
        return d :: (← items depth rounds)
      else
        expect ']'
        return [d]

/-- The rest of a table on one line. -/
def pairs (depth : Nat) : Nat → Entries → Scan Entries
  | 0, _ => failure
  | rounds + 1, entries => do
    let path ← keyPath
    let (path, key) ← (splitLast path : Option _)
    expect '='
    skipSpaces
    let d ← value depth rounds
    let entries ← (assign path key d entries : Option _)
    skipSpaces
    if (← peek) = some ',' then
      expect ','
      pairs depth rounds entries
    else
      expect '\x7d'
      return entries

end

/-! ## Lines -/

/-- The document so far: all but the table that is being read, and that table with its path. -/
structure Reading where
  root : Entries := []
  path : List String := []
  isArray : Bool := false
  current : Entries := []

/-- Puts the table that was read in its place. -/
def Reading.close (r : Reading) : Option Entries :=
  match splitLast r.path with
  | none => some r.current
  | some (path, key) =>
    within false (fun _ entries =>
      if r.isArray then
        match find key entries with
        | some (.tables others) => some (put key (.tables (r.current :: others)) entries)
        | none => some (put key (.tables [r.current]) entries)
        | _ => none
      else some (put key (.table false false r.current) entries)) path false r.root

/-- Removes what a path leads to, for it to be read on, and returns it. -/
def openTable (path : List String) (key : String) (root : Entries) :
    Option (Entries × Entries) := do
  let root ← within false (fun _ entries =>
    match find key entries with
    | none => some entries
    | some (.table true false _) => some entries
    | _ => none) path false root
  let rec look : List String → Entries → Entries
    | [], entries =>
      match find key entries with
      | some (.table _ _ inner) => inner
      | _ => []
    | k :: path, entries =>
      match find k entries with
      | some (.table _ _ inner) => look path inner
      | some (.tables (last :: _)) => look path last
      | _ => []
  return (root, look path root)

/-- Begins a table, or another table of an array. -/
def Reading.header (r : Reading) (isArray : Bool) (full : List String) : Option Reading := do
  let root ← r.close
  let (path, key) ← splitLast full
  if isArray then
    let root ← within false (fun _ entries =>
      match find key entries with
      | none => some (put key (.tables []) entries)
      | some (.tables _) => some entries
      | _ => none) path false root
    return { root, path := full, isArray := true, current := [] }
  else
    let (root, current) ← openTable path key root
    return { root, path := full, isArray := false, current }

/-- One line, or a value over several lines. -/
def line (r : Reading) : Scan Reading := do
  skipSpaces
  match ← peek with
  | none => return r
  | some '\n' => return r
  | some '#' => return r
  | some '[' =>
    expect '['
    let isArray := (← peek) == some '['
    if isArray then expect '['
    let path ← keyPath
    expect ']'
    if isArray then expect ']'
    r.header isArray path
  | some _ =>
    let path ← keyPath
    let (path, key) ← (splitLast path : Option _)
    expect '='
    skipSpaces
    let d ← value nestingLimit ((← get).length + 1)
    let current ← (assign path key d r.current : Option _)
    return { r with current }

/-- All lines. -/
def lines : Nat → Reading → Scan Reading
  | 0, _ => failure
  | rounds + 1, r => do
    let r ← line r
    endLine
    if (← get).isEmpty then return r else lines rounds r

/-- Line ends of two characters become line ends of one. -/
def unifyLineEnds : List Char → List Char
  | '\r' :: '\n' :: rest => '\n' :: unifyLineEnds rest
  | c :: rest => c :: unifyLineEnds rest
  | [] => []

/-- Reads a document. -/
def read (s : String) : Option Value := do
  let cs := match s.toList with
    | '\ufeff' :: rest => rest
    | cs => cs
  let cs := unifyLineEnds cs
  let (r, _) ← (lines (cs.length + 1) {}).run cs
  return .table (values (← r.close))

end PlanSearch.Document.Toml
