import PlanSearch.Fault

/-!
# Lists of numbers

The plainest solutions that selectors can look at: a few lists of numbers. Tests, keys, weights and
distances for them go by names; among the keys and distances are some that are infinite, negative or
no number at all.
-/

namespace PlanSearch.Example

abbrev Lists := List (List Int64)

namespace Lists

private def noNumber : Float := 0.0 / 0.0

private def infinite : Float := 1.0 / 0.0

private def isEven (x : Int64) : Bool := x % 2 == 0

/-- The test of a name. -/
def filter (name : String) (s : Lists) (x : Int64) : Bool :=
  match name with
  | "even" => isEven x
  | "all" => true
  | "positive" => decide (0 < x)
  | "in_list_3" => (s.getD 3 []).contains x
  | _ => false

/-- The sort key or weight of a name. -/
def key (name : String) (s : Lists) (x : Int64) : Except Fault Float :=
  let v := x.toFloat
  .ok <| match name with
    | "value" => v
    | "neg" => -v
    | "parity" => if isEven x then 0.0 else 1.0
    | "one" => 1.0
    | "tenth" => v * 0.1
    | "signed_zero" => if x < 0 then -0.0 else 0.0
    | "nan_odd" => if isEven x then v else noNumber
    | "inf_big" => if 100 < x then infinite else v
    | "list_3_len" => v * Float.ofNat (s.getD 3 []).length
    | _ => 0.0

/-- The distance of a name. -/
def meter (name : String) (a b : Int64) : Except Fault Float :=
  let gap := (a.toFloat - b.toFloat).abs
  .ok <| match name with
    | "gap" => gap
    | "neg" => -gap
    | "asym" => if a ≤ b then gap else gap + 10.0
    | "nan_far" => if 10.0 < gap then noNumber else gap
    | _ => 0.0

end Lists

end PlanSearch.Example
