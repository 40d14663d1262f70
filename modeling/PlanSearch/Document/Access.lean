import PlanSearch.Document.Basic

/-!
# Reading documents without refusal

What is missing from a document, or has another form than the wanted one, counts as nothing: as an
empty list, an empty text, zero, or a no.
-/

namespace PlanSearch.Document

/-- The entry of a table. -/
def entry (d : Document) (key : String) : Document :=
  match d with
  | table entries => (entries.lookup key).getD null
  | _ => null

/-- The table with another entry under a key. -/
def put (d : Document) (key : String) (x : Document) : Document :=
  match d with
  | table entries => table ((key, x) :: entries.filter fun (name, _) => name != key)
  | _ => table [(key, x)]

instance : CoeFun Document fun _ => String → Document := ⟨entry⟩

/-- The elements of a list. -/
def items : Document → List Document
  | list items => items
  | _ => []

/-- The table with another element at the end of the list under a key. -/
def push (d : Document) (key : String) (x : Document) : Document :=
  d.put key (list ((d.entry key).items ++ [x]))

instance : GetElem Document Nat Document fun _ _ => True := ⟨fun d i _ => d.items.getD i null⟩

def int : Document → Int
  | integer n => n
  | _ => 0

def nat (d : Document) : Nat := d.int.toNat

def level (d : Document) : Int64 := Int64.ofInt d.int

def string : Document → String
  | text s => s
  | _ => ""

def flag : Document → Bool
  | truth b => b
  | _ => false

/-- A real number. Words stand for those that have no numeral; the negative zero stands for a number
that is missing. -/
def float : Document → Float
  | integer n => Float.ofInt n
  | real x => x
  | text "nan" => 0.0 / 0.0
  | text "inf" => 1.0 / 0.0
  | text "-inf" => -1.0 / 0.0
  | _ => -0.0

/-- The document, unless it is null. -/
def present : Document → Option Document
  | null => none
  | d => some d

def nat? (d : Document) : Option Nat := d.present.map nat

end PlanSearch.Document
