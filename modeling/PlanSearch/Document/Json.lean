import PlanSearch.Document.Basic

/-!
# Bracketed documents

The JSON format: one value, with lists in brackets and tables in braces. A number with neither
fraction nor exponent is an integer if it fits a word; every other number, and the negative zero, is
a real one. Of two entries of a table under one key the later one counts.
-/

namespace PlanSearch.Document.Json

/-- A reader of characters that may fail. -/
abbrev Scan (α : Type) := StateT (List Char) Option α

def isBlank (c : Char) : Bool := c == ' ' || c == '\t' || c == '\n' || c == '\r'

def skipBlanks : Scan Unit := modify (·.dropWhile isBlank)

/-- Takes a given character. -/
def expect (c : Char) : Scan Unit := fun cs =>
  match cs with
  | d :: rest => if d = c then some ((), rest) else none
  | [] => none

/-- Takes a given word. -/
def expectWord (word : String) (d : Document) : Scan Document := fun cs =>
  if word.toList.isPrefixOf cs then some (d, cs.drop word.length) else none

/-! ## Numbers -/

/-- The integer of a sign and digits, or the nearest real number where no word holds it. -/
def integerOrReal (negative : Bool) (digits : List Char) : Option Document := do
  let n ← natOfDigits 10 digits
  let (least, bound) : Int × Int := (-0x8000000000000000, 0x10000000000000000)
  let value : Int := if negative then -(n : Int) else n
  if negative && n = 0 then return real (-0.0)
  else if least ≤ value && value < bound then return integer value
  else return real (Float.ofInt value)

/-- Takes a number. -/
def number : Scan Document := do
  let negative := (← get).head? = some '-'
  if negative then expect '-'
  let cs ← get
  let whole := cs.takeWhile Char.isDigit
  let numeral := cs.takeWhile fun c =>
    c.isDigit || c == '.' || c == 'e' || c == 'E' || c == '+' || c == '-'
  set (cs.drop numeral.length)
  if whole.isEmpty || hasLeadingZero whole then failure
  else if numeral.length = whole.length then integerOrReal negative whole
  else
    let hasPlaces := (cs.drop whole.length).head? = some '.'
    if hasPlaces && !((cs.drop (whole.length + 1)).head?.any Char.isDigit) then failure
    let x ← (realOfNumeral numeral : Option Float)
    if x.isFinite then return real (if negative then -x else x) else failure

/-! ## Texts -/

/-- Takes four digits of base sixteen. -/
def unit : Scan Nat := fun cs =>
  if cs.length < 4 then none else (natOfDigits 16 (cs.take 4)).map (·, cs.drop 4)

/-- The character that a backslash and what follows stand for. A character beyond the first plane is
written as two units. -/
def escape : Scan Char := fun cs =>
  match cs with
  | '"' :: rest => some ('"', rest)
  | '\\' :: rest => some ('\\', rest)
  | '/' :: rest => some ('/', rest)
  | 'b' :: rest => some ('\x08', rest)
  | 'f' :: rest => some ('\x0c', rest)
  | 'n' :: rest => some ('\n', rest)
  | 'r' :: rest => some ('\r', rest)
  | 't' :: rest => some ('\t', rest)
  | 'u' :: rest => (do
      let high ← unit
      if high < 0xD800 || 0xDFFF < high then return Char.ofNat high
      expect '\\'
      expect 'u'
      let low ← unit
      if high < 0xDC00 && 0xDC00 ≤ low && low < 0xE000 then
        return Char.ofNat (0x10000 + (high - 0xD800) * 0x400 + (low - 0xDC00))
      else failure).run rest
  | _ => none

/-- The rest of a text, up to its closing mark. -/
def textBody : Nat → Scan (List Char)
  | 0 => failure
  | rounds + 1 => fun cs =>
    match cs with
    | [] => none
    | '"' :: rest => some ([], rest)
    | '\\' :: rest => (do
        let c ← escape
        return c :: (← textBody rounds)).run rest
    | c :: rest =>
      if c.toNat < 32 then none else (do return c :: (← textBody rounds)).run rest

def quoted : Scan String := do
  expect '"'
  return String.ofList (← textBody ((← get).length + 1))

/-! ## Values -/

/-- The entries that no later one replaces. -/
def latest : List (String × Document) → List (String × Document)
  | [] => []
  | (key, d) :: rest =>
    if rest.any fun (k, _) => k == key then latest rest else (key, d) :: latest rest

mutual

/-- Takes a value and the blanks after it. -/
def value : Nat → Scan Document
  | 0 => failure
  | rounds + 1 => do
    let d ← match (← get).head? with
      | some '"' => text <$> quoted
      | some '[' => do
        expect '['
        skipBlanks
        if (← get).head? = some ']' then
          expect ']'
          pure (list [])
        else list <$> items rounds
      | some '\x7b' => do
        expect '\x7b'
        skipBlanks
        if (← get).head? = some '\x7d' then
          expect '\x7d'
          pure (table [])
        else (table <| latest ·) <$> entries rounds
      | some 'n' => expectWord "null" null
      | some 't' => expectWord "true" (truth true)
      | some 'f' => expectWord "false" (truth false)
      | _ => number
    skipBlanks
    return d

/-- Takes the rest of a list that has another item. -/
def items : Nat → Scan (List Document)
  | 0 => failure
  | rounds + 1 => do
    let d ← value rounds
    if (← get).head? = some ',' then
      expect ','
      skipBlanks
      return d :: (← items rounds)
    else
      expect ']'
      return [d]

/-- Takes the rest of a table that has another entry. -/
def entries : Nat → Scan (List (String × Document))
  | 0 => failure
  | rounds + 1 => do
    let key ← quoted
    skipBlanks
    expect ':'
    skipBlanks
    let d ← value rounds
    if (← get).head? = some ',' then
      expect ','
      skipBlanks
      return (key, d) :: (← entries rounds)
    else
      expect '\x7d'
      return [(key, d)]

end

/-- Reads the value of a text. -/
def read (s : String) : Option Document := do
  let cs := s.toList.dropWhile isBlank
  let (d, rest) ← (value (2 * cs.length + 2)).run cs
  if rest.isEmpty then return d else none

end PlanSearch.Document.Json
