import PlanSearch.Document.Content

/-!
# Plain words

What a scalar without quotes stands for: nothing, a truth value, a number, or itself.
-/

namespace PlanSearch.Document.Yaml.Word

/-- A word that stands for nothing. -/
def isNull (s : String) : Bool := s == "~" || s == "null" || s == "Null" || s == "NULL"

/-- The words for truth values. -/
def truth (s : String) : Option Bool :=
  if s == "true" || s == "True" || s == "TRUE" then some true
  else if s == "false" || s == "False" || s == "FALSE" then some false
  else none

/-- A number in one of four bases, without a sign. -/
def magnitude (cs : List Char) : Option Nat :=
  match cs with
  | '0' :: 'x' :: rest => natOfDigits 16 rest
  | '0' :: 'o' :: rest => natOfDigits 8 rest
  | '0' :: 'b' :: rest => natOfDigits 2 rest
  | _ => if hasLeadingZero cs then none else natOfDigits 10 cs

/-- A number without a sign, or with a plus. -/
def count (s : String) : Option Nat :=
  match s.toList with
  | '+' :: rest => magnitude rest
  | cs => magnitude cs

/-- What follows a minus. -/
def deficit (s : String) : Option Nat :=
  match s.toList with
  | '-' :: rest => magnitude rest
  | _ => none

/-- A number with a fraction, an exponent, or neither. Only words of their own stand for those that
are not finite. -/
def real (s : String) : Option Float :=
  let finite (cs : List Char) : Option Float := (realOfNumeral cs).filter Float.isFinite
  let isInfinite (cs : List Char) : Bool :=
    [".inf", ".Inf", ".INF"].contains (String.ofList cs)
  match s.toList with
  | '-' :: rest => if isInfinite rest then some (-(1.0 / 0.0)) else (finite rest).map fun x => -x
  | '+' :: rest => if isInfinite rest then some (1.0 / 0.0) else finite rest
  | cs =>
    if isInfinite cs then some (1.0 / 0.0)
    else if [".nan", ".NaN", ".NAN"].contains s then some (0.0 / 0.0)
    else finite cs

/-- Digits after a zero, perhaps with a sign: a word that looks like a number but is none. -/
def hasIdleZero (s : String) : Bool :=
  match s.toList with
  | '-' :: rest => hasLeadingZero rest
  | '+' :: rest => hasLeadingZero rest
  | cs => hasLeadingZero cs

/-- The whole number that a word stands for. One that takes two words to hold has no content, and a
still longer one is no whole number. -/
def whole (s : String) : Option (Option Content) :=
  match count s, deficit s with
  | some n, _ =>
    if n < 0x10000000000000000 then some (some (.number n))
    else if n < 0x100000000000000000000000000000000 then some none
    else none
  | _, some n =>
    if n ≤ 0x8000000000000000 then some (some (.signed (-(n : Int))))
    else if n ≤ 0x80000000000000000000000000000000 then some none
    else none
  | _, _ => none

/-- The content of a word. -/
def content (s : String) : Option Content :=
  if s.isEmpty || isNull s then some .null
  else match truth s, whole s with
    | some b, _ => some (.truth b)
    | _, some c => c
    | _, _ =>
      if hasIdleZero s then some (.text s)
      else match real s with
        | some x => some (.real x)
        | none => some (.text s)

end PlanSearch.Document.Yaml.Word
