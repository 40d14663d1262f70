import PlanSearch.Chain.Plan
import PlanSearch.Selector.Basic
import PlanSearch.Variable

/-!
# Runs of chains as candidates

The candidates are the runs within the chains of a solution whose length lies between two bounds:
one after the other by chain, start and end, or by uniform draws of a chain and of a run in it.
-/

namespace PlanSearch

namespace SubChains

/-- How many runs of admissible length a chain has whose length is a word. -/
def count (length minimum maximum : Nat) : Except Fault Nat := do
  let length ← Count.checked length
  if length < minimum then return 0
  let n := length - minimum + 1
  let m := length - maximum
  let all ← Count.checked (n * (n + 1))
  let long ← Count.checked (m * (m + 1))
  return all / 2 - long / 2

/-- How many runs of admissible length chains of the given lengths have, added to a number. -/
def countAll (minimum maximum : Nat) : Nat → List Nat → Except Fault Nat
  | total, [] => .ok total
  | total, length :: rest => do
    let here ← count length minimum maximum
    let total ← Count.checked (total + here)
    countAll minimum maximum total rest

/-- The end of the longest admissible run from a position. -/
def lastEnd (length maximum start : Nat) : Nat :=
  min (Count.saturated (start + (maximum - 1))) (length - 1)

/-- The first and the last position of the run with the given index, searched from a position on. -/
def nthFrom (length minimum maximum : Nat) : Nat → Nat → Nat → Option (Nat × Nat)
  | 0, _, _ => none
  | rounds + 1, start, index =>
    let firstEnd := start + (minimum - 1)
    if length ≤ firstEnd then none
    else
      let here := lastEnd length maximum start - firstEnd + 1
      if index < here then some (start, firstEnd + index)
      else nthFrom length minimum maximum rounds (start + 1) (index - here)

/-- The first and the last position of the run with the given index. -/
def nth (length minimum maximum index : Nat) : Option (Nat × Nat) :=
  nthFrom length minimum maximum length 0 index

/-- The elements from a first to a last position. -/
def slice (chain : List Handle) (first last : Nat) : Option SubChain :=
  if first ≤ last ∧ last < chain.length then
    (SubChain.ofList ((chain.drop first).take (last - first + 1))).toOption
  else none

/-- Where the next run is looked for: the number of chains passed, and a start and an end. -/
structure Place where
  chain : Nat
  first : Nat
  last : Nat
  deriving DecidableEq, Repr

/-- The run at a place of a chain, or the next one in that chain. -/
def inChain (length minimum maximum first last : Nat) : Option (Nat × Nat) :=
  let at_ (first last : Nat) : Option (Nat × Nat) :=
    let firstEnd := first + (minimum - 1)
    let last := max last firstEnd
    if firstEnd < length ∧ last ≤ lastEnd length maximum first then some (first, last) else none
  at_ first last <|> at_ (first + 1) 0

/-- The run at a place, or the next one, and the place after it. -/
def nextRun (minimum maximum : Nat) : List (List Handle) → Nat → Nat → Nat →
    Option SubChain × Place
  | [], passed, first, last => (none, ⟨passed, first, last⟩)
  | chain :: rest, passed, first, last =>
    match inChain chain.length minimum maximum first last with
    | some (first, last) => (slice chain first last, ⟨passed, first, last + 1⟩)
    | none => nextRun minimum maximum rest (passed + 1) 0 (minimum - 1)

/-- The chains that were read, and the place in them. -/
structure Reading where
  chains : List (List Handle) := []
  place : Place := ⟨0, 0, 0⟩

/-- Reads the chains that are long enough. -/
def Reading.load (minimum : Nat) (g : ChainGraph) (st : Reading) : Reading :=
  { st with chains := (g.anchors.map g.trailing).filter fun chain => minimum ≤ chain.length }

end SubChains

namespace Selector

open SubChains

variable {M S : Type}

/-- Draws a chain and a run in it. -/
def drawRun (minimum maximum : Nat) (chains : List (List Handle)) : Draw M (Option SubChain) := do
  if chains.isEmpty then return none
  let chain := chains.getD (← Draw.below chains.length) []
  let total ← Draw.lift (count chain.length minimum maximum)
  if total = 0 then return none
  let index ← Draw.below total
  return do
    let (first, last) ← nth chain.length minimum maximum index
    slice chain first last

/-- The runs of the chains of a variable. -/
def subChains (v : ChainedVariable S) (minimum maximum : Nat) (cache : CacheType)
    (isRandom : Bool) : Except SelectorError (Selector M S SubChain) :=
  if minimum < 1 then
    .error (.invalid ("sub-chain minimum size (" ++ toString minimum ++ ") must be at least 1"))
  else if maximum < minimum then
    .error (.invalid ("sub-chain maximum size (" ++ toString maximum ++
      ") is below the minimum (" ++ toString minimum ++ ")"))
  else .ok
    { State := Reading
      start := {}
      cacheType := cache
      neverEnding := isRandom
      size := fun s _ =>
        let g := v.graph s
        countAll minimum maximum 0 (g.anchors.map fun a => (g.trailing a).length)
      handle := fun hook set st =>
        match hook, cache with
        | .phaseStarted, .phase | .stepStarted, .step =>
          pure (Reading.load minimum (v.graph set.solution) st)
        | .stepEnded, .step | .phaseEnded, _ => pure { st with chains := [] }
        | _, _ => pure st
      restart := fun set st =>
        let st := if cache.isCached then st
          else Reading.load minimum (v.graph set.solution) st
        pure { st with place := ⟨0, 0, minimum - 1⟩ }
      next := fun _ st => do
        if isRandom then return (← drawRun minimum maximum st.chains, st)
        else
          let rest := st.chains.drop st.place.chain
          let (run, place) :=
            nextRun minimum maximum rest st.place.chain st.place.first st.place.last
          return (run, { st with place })
      describe := fun _ => Text.record "SubChainSelector"
        [("variable", v.describe), ("minimum", toString minimum), ("maximum", toString maximum),
         ("cache_type", cache.describe), ("random", Text.truth isRandom)] }

end Selector

end PlanSearch
