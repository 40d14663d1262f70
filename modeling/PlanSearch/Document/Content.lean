import PlanSearch.Document.Basic

/-!
# Content

The content of an element apart from the format it was written in. It is kept where the kind of a
record stands among its fields, so that the fields have to be held until the kind is known.
-/

namespace PlanSearch

/-- What stands in front of a value in a table. -/
inductive Key where
  | name (s : String)
  | number (n : Nat)
  /-- A key that names no field: a list, a table, or a value of another kind. -/
  | odd
  deriving DecidableEq, Inhabited

/-- The content of an element. -/
inductive Content where
  | null
  | truth (b : Bool)
  /-- A number that counts: it can also say a place in a row. -/
  | number (n : Nat)
  /-- A whole number with a sign, perhaps the positive one. -/
  | signed (n : Int)
  | real (x : Float)
  | text (s : String)
  | list (items : List Content)
  | table (entries : List (Key × Content))
  deriving Inhabited

namespace Content

mutual

/-- How deeply lists and tables are nested. -/
def depth : Content → Nat
  | list items => depthOfAll items + 1
  | table entries => depthOfEntries entries + 1
  | _ => 0

def depthOfAll : List Content → Nat
  | [] => 0
  | d :: rest => max (depth d) (depthOfAll rest)

def depthOfEntries : List (Key × Content) → Nat
  | [] => 0
  | (_, d) :: rest => max (depth d) (depthOfEntries rest)

end

/-- The key that an element in front of a value is. -/
def key : Content → Key
  | text s => .name s
  | number n => .number n
  | _ => .odd

/-- The place of an alternative: by its name, or said by a number. -/
def place (names : List String) : Content → Option Nat
  | text s => names.idxOf? s
  | number n => if n < names.length then some n else none
  | _ => none

end Content

mutual

/-- The content of a piece of data. -/
def Document.content : Document → Content
  | .null => .null
  | .truth b => .truth b
  | .integer n => if 0 ≤ n then .number n.toNat else .signed n
  | .real x => .real x
  | .text s => .text s
  | .list items => .list (contentOfAll items)
  | .table entries => .table (contentOfEntries entries)

def contentOfAll : List Document → List Content
  | [] => []
  | d :: rest => d.content :: contentOfAll rest

def contentOfEntries : List (String × Document) → List (Key × Content)
  | [] => []
  | (key, d) :: rest => (.name key, d.content) :: contentOfEntries rest

end

end PlanSearch
