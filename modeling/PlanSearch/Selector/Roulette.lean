import PlanSearch.Decimal.Notation
import PlanSearch.Scale
import PlanSearch.Selector.Cached

/-!
# Drawing by weight

A selector over a kept list can draw its candidates like a roulette wheel on which each has a share
as wide as its weight. The running totals of the weights are kept beside the list, and a binary
search finds the share in which a drawn number lies.
-/

namespace PlanSearch

variable {α : Type}

/-! ## Binary search -/

/-- Halves the places from `base` on among which a list stops satisfying `p`, until one is left. -/
def narrow (p : α → Bool) (items : Array α) (base size : Nat) : Nat :=
  if size ≤ 1 then if items[base]?.any p then base + 1 else base
  else if items[base + size / 2]?.any p then narrow p items (base + size / 2) (size - size / 2)
  else narrow p items base (size - size / 2)
termination_by size

/-- The number of items that satisfy `p`, of a list in which these come first. -/
def partitionPoint (p : α → Bool) (items : Array α) : Nat := narrow p items 0 items.size

namespace Selector

variable {M S C : Type} [Scale α]

/-! ## Weights -/

/-- Adds up weights from the left. What is no number or negative counts as zero. -/
def runningTotals : α → List α → List α
  | _, [] => []
  | total, weight :: rest =>
    let total := total + (if Scale.ofCount 0 < weight then weight else Scale.ofCount 0)
    total :: runningTotals total rest

/-- The running totals of the weights of some candidates. -/
def totalsOf (weight : C → Except Fault α) (candidates : Array C) : Except Fault (Array α) := do
  let weights ← candidates.toList.mapM weight
  return (runningTotals (Scale.ofCount 0) weights).toArray

/-- The sum of all weights. -/
def totalWeight (totals : Array α) : α := totals.back?.getD (Scale.ofCount 0)

/-- The number of the candidate whose share a drawn number lies in. -/
def placeOf (totals : Array α) (drawn : α) : Nat :=
  partitionPoint (fun total => decide (total ≤ drawn)) totals

/-! ## The selector -/

/-- A wheel that stops anywhere below a total weight. -/
structure Wheel (α : Type) where
  below : α → Random.Generator → Except Fault (α × Random.Generator)
  describe : α → String

/-- The wheel of floating-point numbers. -/
def Wheel.floats : Wheel Float where
  below total g := g.belowFloat total
  describe := Decimal.describe

/-- A kept list with the running totals of its weights. -/
structure Weighing (child : Selector M S C) (α : Type) where
  kept : Kept child C
  totals : Array α := #[]

/-- Draws from a kept list, each candidate as often as its weight says. Nothing is drawn where all
weights are zero. -/
def weighted (child : Selector M S C) (wheel : Wheel α) (cache : CacheType)
    (weight : S → C → Except Fault α) : Selector M S C where
  State := Weighing child α
  start := { kept := { child := child.start } }
  cacheType := cache
  neverEnding := true
  size s st := if st.kept.filled then .ok st.kept.items.size else child.size s st.kept.child
  handle hook set st := do
    let kept ← (child.keeping cache (.asTheyCome cache false)).handle hook set st.kept
    match hook, cache with
    | .phaseStarted, .phase | .stepStarted, .step =>
      return { kept, totals := ← Draw.lift (totalsOf (weight set.solution) kept.items) }
    | .stepEnded, _ => return { kept, totals := if kept.filled then st.totals else #[] }
    | .phaseEnded, _ => return { kept, totals := #[] }
    | _, _ => return { st with kept }
  restart _ st := pure st
  next _ st := do
    let total := totalWeight st.totals
    if total ≤ Scale.ofCount 0 then return (none, st)
    let drawn ← Draw.generate (wheel.below total)
    return (st.kept.items[placeOf st.totals drawn]?, st)
  describe st := Text.record "ProbabilitySelector"
    [("child", child.describe st.kept.child), ("cache_type", cache.describe),
     ("total_weight", wheel.describe (totalWeight st.totals))]

/-- Draws by weight from the candidates of a selector that ends. -/
def roulette (child : Selector M S C) (wheel : Wheel α) (cache : CacheType)
    (weight : S → C → Except Fault α) : Except SelectorError (Selector M S C) :=
  andThen (checkCacheable "probability selector" .probabilistic cache child.neverEnding) fun _ =>
    .ok <| child.weighted wheel cache weight

/-- Draws by weights that are floating-point numbers. -/
def probability (child : Selector M S C) (cache : CacheType)
    (weight : S → C → Except Fault Float) : Except SelectorError (Selector M S C) :=
  child.roulette .floats cache weight

end Selector

end PlanSearch
