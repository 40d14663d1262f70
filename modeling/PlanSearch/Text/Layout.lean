/-!
# Layout of descriptions

Values are described by the name of their kind, followed by named fields in braces or by plain
components in parentheses. Lists stand in brackets and texts in quotes. A duration is counted in
nanoseconds; its text is a decimal number of the largest unit that it fills, without trailing zeros.
-/

namespace PlanSearch.Text

/-- Items separated by commas. -/
def commaSeparated (items : List String) : String := ", ".intercalate items

/-- A kind with named fields. -/
def record (kind : String) (fields : List (String × String)) : String :=
  let entries := fields.map fun (name, value) => name ++ ": " ++ value
  kind ++ " \x7b " ++ commaSeparated entries ++ " \x7d"

/-- A kind with components. -/
def applied (kind : String) (components : List String) : String :=
  kind ++ "(" ++ commaSeparated components ++ ")"

/-- A list of described items. -/
def bracketed (items : List String) : String := "[" ++ commaSeparated items ++ "]"

/-- A value that may be absent. -/
def optional : Option String → String
  | none => "None"
  | some text => applied "Some" [text]

/-- A truth value. -/
def truth (b : Bool) : String := if b then "true" else "false"

private def hexDigits (n : Nat) : List Char := Nat.toDigits 16 n

private def quotedChar (c : Char) : List Char :=
  match c with
  | '"' => ['\\', '"']
  | '\\' => ['\\', '\\']
  | '\n' => ['\\', 'n']
  | '\r' => ['\\', 'r']
  | '\t' => ['\\', 't']
  | c =>
    if c.toNat = 0 then ['\\', '0']
    else if c.toNat < 32 || c.toNat = 127 then
      ['\\', 'u', '\x7b'] ++ hexDigits c.toNat ++ ['\x7d']
    else [c]

/-- A text in quotes, with the characters that would end it or do not show escaped. -/
def quoted (text : String) : String :=
  String.ofList ('"' :: (text.toList.flatMap quotedChar) ++ ['"'])

/-! ## Durations -/

/-- The digits of a fraction with the given number of places, without trailing zeros. -/
private def places (fraction width : Nat) : String :=
  let digits := (toString fraction).toList
  let padded := List.replicate (width - digits.length) '0' ++ digits
  let kept := (padded.reverse.dropWhile (· == '0')).reverse
  if kept.isEmpty then "" else String.ofList ('.' :: kept)

/-- Whole units and a fraction with so many places. -/
private def inUnits (total width : Nat) (unit : String) : String :=
  toString (total / Nat.pow 10 width) ++ places (total % Nat.pow 10 width) width ++ unit

/-- A duration in seconds, or in thousandths, millionths or billionths of one. -/
def duration (nanoseconds : Nat) : String :=
  if 1000000000 ≤ nanoseconds then inUnits nanoseconds 9 "s"
  else if 1000000 ≤ nanoseconds then inUnits nanoseconds 6 "ms"
  else if 1000 ≤ nanoseconds then inUnits nanoseconds 3 "µs"
  else toString nanoseconds ++ "ns"

end PlanSearch.Text
