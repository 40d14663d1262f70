/-!
# Documents

Data as it is exchanged and kept in files: numbers, texts, lists and tables. Numbers are written by
digits in a base; what is no numeral has no value.
-/

namespace PlanSearch

/-- A piece of data. -/
inductive Document where
  | null
  | truth (b : Bool)
  | integer (n : Int)
  | real (x : Float)
  | text (s : String)
  | list (items : List Document)
  | table (entries : List (String × Document))
  deriving Inhabited

namespace Document

mutual

/-- How deeply lists and tables are nested. -/
def depth : Document → Nat
  | list items => depthOfAll items + 1
  | table entries => depthOfEntries entries + 1
  | _ => 0

def depthOfAll : List Document → Nat
  | [] => 0
  | d :: rest => max (depth d) (depthOfAll rest)

def depthOfEntries : List (String × Document) → Nat
  | [] => 0
  | (_, d) :: rest => max (depth d) (depthOfEntries rest)

end

/-! ## Numerals -/

/-- The value of a digit in a base of at most sixteen. -/
def digitIn (base : Nat) (c : Char) : Option Nat :=
  let value :=
    if '0' ≤ c ∧ c ≤ '9' then some (c.toNat - 48)
    else if 'a' ≤ c ∧ c ≤ 'f' then some (c.toNat - 87)
    else if 'A' ≤ c ∧ c ≤ 'F' then some (c.toNat - 55)
    else none
  value.filter (· < base)

/-- The number written by digits, at least one. -/
def natOfDigits (base : Nat) (cs : List Char) : Option Nat :=
  if cs.isEmpty then none
  else cs.foldl (fun acc c => do return base * (← acc) + (← digitIn base c)) (some 0)

/-- Digits after a zero. Most formats do not take them for a number. -/
def hasLeadingZero (cs : List Char) : Bool :=
  match cs with
  | '0' :: c :: rest => (c :: rest).all Char.isDigit
  | _ => false

/-- The character with a code in base sixteen. Halves of a pair are no characters. -/
def charOfDigits (cs : List Char) : Option Char := do
  let n ← natOfDigits 16 cs
  if n < 0xD800 || (0xDFFF < n && n < 0x110000) then return Char.ofNat n else none

/-- Digits, perhaps with a point among or beside them, and perhaps an exponent. -/
def realOfNumeral (cs : List Char) : Option Float := do
  let whole := cs.takeWhile Char.isDigit
  let rest := cs.dropWhile Char.isDigit
  let (places, rest) := match rest with
    | '.' :: rest => (rest.takeWhile Char.isDigit, rest.dropWhile Char.isDigit)
    | _ => ([], rest)
  let digits ← natOfDigits 10 (whole ++ places)
  let exponent : Int ← match rest with
    | [] => some 0
    | e :: rest =>
      if e != 'e' && e != 'E' then none
      else match rest with
        | '-' :: rest => (natOfDigits 10 rest).map fun n => -(n : Int)
        | '+' :: rest => (natOfDigits 10 rest).map Int.ofNat
        | _ => (natOfDigits 10 rest).map Int.ofNat
  -- Powers beyond these are infinite or zero whatever the digits are.
  let power := min (exponent - places.length) 400
  if power < -(digits.log2 + 1200 : Int) then return 0.0
  return Float.ofScientific digits (power < 0) power.natAbs

end Document

end PlanSearch
