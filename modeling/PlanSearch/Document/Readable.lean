import PlanSearch.Document.Content

/-!
# Elements that settings are read from

Settings are read from elements of several formats. An element is asked for a value of a wanted
kind, and each format has its own rules for what can stand for it. The rules here are those of
documents and of content.
-/

namespace PlanSearch

/-- Elements that can be asked for values of a wanted kind. Asking is a computation of kind `m`,
which fails if the element cannot stand for such a value. -/
class Readable (δ : Type) (m : outParam (Type → Type)) where
  /-- A count that fits a word. -/
  count : δ → m Nat
  real : δ → m Float
  truth : δ → m Bool
  text : δ → m String
  /-- One of the alternatives with the given names, by its place among them. -/
  choice : List String → δ → m Nat
  /-- The element, unless it stands for a value that is missing. -/
  present : δ → m (Option δ)
  /-- The elements of a list. -/
  items : δ → m (List δ)
  /-- The values of a record by the names of its fields. Unknown names are passed over; a name must
  not be given twice. -/
  fields : List String → δ → m (List (Option δ))
  /-- The kind of a record that says it in the given field, as a place among the names of kinds, and
  the rest of the record. -/
  kind : String → List String → δ → m (Nat × Content)
  /-- No element has lists and tables nested more deeply inside. -/
  depth : δ → Nat

namespace Readable

/-- The limit of what a word holds. -/
def wordBound : Nat := 0x10000000000000000

/-- The values of fields by the places of the fields. What has no place is passed over; no place may
be taken twice. -/
def fieldsAt {α : Type} (count : Nat) (entries : List (Option Nat × α)) :
    Option (List (Option α)) :=
  (List.range count).mapM fun i =>
    match entries.filter fun (place, _) => place == some i with
    | [] => some none
    | [(_, a)] => some (some a)
    | _ => none

/-- The values of fields in their order. Those at the end may be missing. -/
def fieldsOfItems {α : Type} (count : Nat) (items : List α) : Option (List (Option α)) :=
  if items.length ≤ count then
    some (items.map some ++ List.replicate (count - items.length) none)
  else none

/-- Splits the only entry under a key off the others. -/
def splitEntry {κ α : Type} [BEq κ] (key : κ) (entries : List (κ × α)) :
    Option (α × List (κ × α)) :=
  match entries.partition fun (k, _) => k == key with
  | ([(_, a)], rest) => some (a, rest)
  | _ => none

end Readable

open Readable

/-- An alternative is named by a text, or by the only key of a table that holds nothing. -/
instance Document.readable : Readable Document Option where
  count
    | .integer n => if 0 ≤ n ∧ n < wordBound then some n.toNat else none
    | _ => none
  real
    | .integer n => some (Float.ofInt n)
    | .real x => some x
    | _ => none
  truth
    | .truth b => some b
    | _ => none
  text
    | .text s => some s
    | _ => none
  choice names
    | .text s => names.idxOf? s
    | .table [(s, .null)] => names.idxOf? s
    | _ => none
  present
    | .null => some none
    | d => some (some d)
  items
    | .list items => some items
    | _ => none
  fields names
    | .table entries => fieldsAt names.length (entries.map fun (key, d) => (names.idxOf? key, d))
    | .list items => fieldsOfItems names.length items
    | _ => none
  kind field names
    | .table entries => do
      let (d, rest) ← splitEntry field entries
      let .text s := d | none
      return (← names.idxOf? s, .table (contentOfEntries rest))
    | .list (.text s :: rest) => do return (← names.idxOf? s, .list (contentOfAll rest))
    | _ => none
  depth := Document.depth

/-- Fields and alternatives may also be said by their numbers. An empty table holds nothing. -/
instance Content.readable : Readable Content Option where
  count
    | .number n => some n
    | .signed n => if 0 ≤ n then some n.toNat else none
    | _ => none
  real
    | .number n => some (Float.ofNat n)
    | .signed n => some (Float.ofInt n)
    | .real x => some x
    | _ => none
  truth
    | .truth b => some b
    | _ => none
  text
    | .text s => some s
    | _ => none
  choice names
    | .text s => names.idxOf? s
    | .table [(.name s, .null)] => names.idxOf? s
    | .table [(.name s, .table [])] => names.idxOf? s
    | .table [(.number n, .null)] => (Content.number n).place names
    | .table [(.number n, .table [])] => (Content.number n).place names
    | _ => none
  present
    | .null => some none
    | d => some (some d)
  items
    | .list items => some items
    | _ => none
  fields names
    | .table entries => do
      let places ← entries.mapM fun (key, d) =>
        match key with
        | .name s => some (names.idxOf? s, d)
        | .number n => some (some n, d)
        | .odd => none
      fieldsAt names.length places
    | .list items => fieldsOfItems names.length items
    | _ => none
  kind field names
    | .table entries => do
      let (d, rest) ← splitEntry (Key.name field) entries
      return (← d.place names, .table rest)
    | .list (d :: rest) => do return (← d.place names, .list rest)
    | _ => none
  depth := Content.depth

end PlanSearch
