import PlanSearch.Document.Readable

/-!
# Values of table documents

Values as TOML knows them. A whole number always has a sign, and a moment counts as a table with one
entry whose name no field has.
-/

namespace PlanSearch.Document.Toml

/-- A value. -/
inductive Value where
  | truth (b : Bool)
  | integer (n : Int)
  | real (x : Float)
  | text (s : String)
  /-- A date, a time, or both. -/
  | moment (s : String)
  | list (items : List Value)
  | table (entries : List (String × Value))
  deriving Inhabited

namespace Value

mutual

/-- How deeply lists and tables are nested. -/
def depth : Value → Nat
  | list items => depthOfAll items + 1
  | table entries => depthOfEntries entries + 1
  | _ => 0

def depthOfAll : List Value → Nat
  | [] => 0
  | v :: rest => max (depth v) (depthOfAll rest)

def depthOfEntries : List (String × Value) → Nat
  | [] => 0
  | (_, v) :: rest => max (depth v) (depthOfEntries rest)

end

mutual

/-- The content of a value. -/
def content : Value → Content
  | truth b => .truth b
  | integer n => .signed n
  | real x => .real x
  | text s => .text s
  | moment s => .table [(.name "", .text s)]
  | list items => .list (contentOfAll items)
  | table entries => .table (contentOfEntries entries)

def contentOfAll : List Value → List Content
  | [] => []
  | v :: rest => content v :: contentOfAll rest

def contentOfEntries : List (String × Value) → List (Key × Content)
  | [] => []
  | (key, v) :: rest => (.name key, content v) :: contentOfEntries rest

end

/-- The value holds nothing. -/
def isEmpty : Value → Bool
  | list items => items.isEmpty
  | table entries => entries.isEmpty
  | _ => false

end Value

open Readable

/-- Nothing stands for a missing value. A list can hold more values than a record has fields. -/
instance Value.readable : Readable Value Option where
  count
    | .integer n => if 0 ≤ n then some n.toNat else none
    | _ => none
  real
    | .integer n => some (Float.ofInt n)
    | .real x => some x
    | _ => none
  truth
    | .truth b => some b
    | _ => none
  text
    | .text s => some s
    | _ => none
  choice names
    | .text s => names.idxOf? s
    | .table [(s, v)] => if v.isEmpty then names.idxOf? s else none
    | _ => none
  present v := some (some v)
  items
    | .list items => some items
    | _ => none
  fields names
    | .table entries => fieldsAt names.length (entries.map fun (key, v) => (names.idxOf? key, v))
    | .list items => fieldsOfItems names.length (items.take names.length)
    | .moment _ => some (names.map fun _ => none)
    | _ => none
  kind field names
    | .table entries => do
      let (v, rest) ← splitEntry field entries
      let .text s := v | none
      return (← names.idxOf? s, .table (Value.contentOfEntries rest))
    | .list (.text s :: rest) => do
      return (← names.idxOf? s, .list (Value.contentOfAll rest))
    | _ => none
  depth := Value.depth

end PlanSearch.Document.Toml
