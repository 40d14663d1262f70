import PlanSearch.Decimal.Notation
import PlanSearch.Nearby.IncompleteBeta
import PlanSearch.Random.Generator
import PlanSearch.Selector.Order
import PlanSearch.Text.Layout

/-!
# How near is near

A distribution draws the rank of a destination among those of an origin, low ranks more often than
high ones. A uniform draw is mapped to a share of the ranks; the rank stays below the number of
destinations whatever the rounding of floats does.
-/

namespace PlanSearch.Nearby

/-- The probability of ranks. -/
inductive Distribution where
  /-- Falls linearly to zero. -/
  | linear (sizeMaximum : Nat)
  /-- Falls to zero with its slope. -/
  | parabolic (sizeMaximum : Nat)
  | beta (alpha beta : Float)
  /-- Uniform over a block of the lowest ranks, and now and then over all of them. -/
  | block (sizeMinimum sizeMaximum : Nat) (sizeRatio uniformProbability : Float)

namespace Distribution

/-! ## Admissible parameters -/

private def refuse {α : Type} (reason : String) : Except SelectorError α :=
  .error (.invalidDistribution reason)

private def unitInterval (x : Float) : Bool := 0.0 ≤ x && x ≤ 1.0

private def positive (x : Float) : Bool := x.isFinite && 0.0 < x

private def checkSizeMaximum (family : String) (sizeMaximum : Nat) : Except SelectorError Unit :=
  if sizeMaximum < 1 then refuse (family ++ " distribution needs a size maximum of at least 1")
  else .ok ()

def ofLinear (sizeMaximum : Nat) : Except SelectorError Distribution := do
  checkSizeMaximum "linear" sizeMaximum
  return linear sizeMaximum

def ofParabolic (sizeMaximum : Nat) : Except SelectorError Distribution := do
  checkSizeMaximum "parabolic" sizeMaximum
  return parabolic sizeMaximum

def ofBeta (a b : Float) : Except SelectorError Distribution :=
  if positive a && positive b then .ok (beta a b)
  else refuse ("beta distribution needs finite alpha (" ++ Decimal.plain a ++ ") and beta (" ++
    Decimal.plain b ++ ") above 0")

def ofBlock (sizeMinimum sizeMaximum : Nat) (sizeRatio uniformProbability : Float) :
    Except SelectorError Distribution :=
  if sizeMaximum < sizeMinimum then
    refuse ("block size maximum (" ++ toString sizeMaximum ++ ") is below its minimum (" ++
      toString sizeMinimum ++ ")")
  else if !unitInterval sizeRatio then
    refuse ("block size ratio (" ++ Decimal.plain sizeRatio ++ ") must be within [0, 1]")
  else if !unitInterval uniformProbability then
    refuse ("block uniform probability (" ++ Decimal.plain uniformProbability ++
      ") must be within [0, 1]")
  else .ok (block sizeMinimum sizeMaximum sizeRatio uniformProbability)

/-- Linear over all ranks. -/
def standard : Distribution := linear Count.max

/-! ## Ranks -/

private def count (n : Nat) : Float := n.toUInt64.toFloat

/-- How many of so many ranks can be drawn, uniform draws over all of them aside. -/
def size (d : Distribution) (bound : Nat) : Nat :=
  match d with
  | linear sizeMaximum | parabolic sizeMaximum => min sizeMaximum bound
  | beta .. => bound
  | block sizeMinimum sizeMaximum sizeRatio _ =>
    let share := (sizeRatio * count bound).round.toUInt64.toNat
    max (min (max share sizeMinimum) (min sizeMaximum bound)) 1

/-- The share of the ranks below the one that a uniform draw stands for. -/
def share (d : Distribution) (drawn : Float) : Float :=
  match d with
  | linear _ => 1.0 - (1.0 - drawn).sqrt
  | parabolic _ => 1.0 - (1.0 - drawn).cbrt
  | beta a b => if a == 1.0 && b == 1.0 then drawn else IncompleteBeta.inverse a b drawn
  | block .. => drawn

/-- The rank at a share of `size` ranks. -/
def rankAt (size : Nat) (share : Float) : Nat :=
  let place := (count size * share).floor
  if place ≤ 0.0 then 0 else min place.toUInt64.toNat (size - 1)

/-- The rank that a uniform draw stands for. -/
def rankOf (d : Distribution) (drawn : Float) (bound : Nat) : Nat :=
  let size := d.size bound
  if size = 0 then 0 else rankAt size (d.share drawn)

/-- Draws one of so many ranks. -/
def draw (d : Distribution) (bound : Nat) (g : Random.Generator) :
    Except Fault (Nat × Random.Generator) :=
  if bound = 0 then .ok (0, g)
  else match d with
    | block _ _ _ uniformProbability =>
      if 0.0 < uniformProbability then
        let (chance, g) := g.nextUnit
        if chance < uniformProbability then g.below bound else g.below (d.size bound)
      else g.below (d.size bound)
    | _ =>
      let (drawn, g) := g.nextUnit
      .ok (d.rankOf drawn bound, g)

/-- The family and the parameters. -/
def describe : Distribution → String
  | linear sizeMaximum => Text.record "Linear" [("size_maximum", toString sizeMaximum)]
  | parabolic sizeMaximum => Text.record "Parabolic" [("size_maximum", toString sizeMaximum)]
  | beta a b => Text.applied "Beta" [Text.record "Beta"
      [("shape_a", Decimal.describe a), ("shape_b", Decimal.describe b)]]
  | block sizeMinimum sizeMaximum sizeRatio uniformProbability => Text.record "Block"
      [("size_minimum", toString sizeMinimum), ("size_maximum", toString sizeMaximum),
       ("size_ratio", Decimal.describe sizeRatio),
       ("uniform_probability", Decimal.describe uniformProbability)]

end Distribution

end PlanSearch.Nearby
