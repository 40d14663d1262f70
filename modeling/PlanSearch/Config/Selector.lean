import PlanSearch.Config.Error
import PlanSearch.Fault
import PlanSearch.Nearby.Distribution

/-!
# Settings of selectors

Which candidates a selector yields, in which order, and how they are kept. A selector that repeats
the candidate of another one has no settings of its own.
-/

namespace PlanSearch.Config

/-- Settings of a selection by distance. -/
structure NearbySettings where
  origin : Option String := none
  meter : Option String := none
  blockMinimum : Option Nat := none
  blockMaximum : Option Nat := none
  blockRatio : Option Float := none
  blockUniform : Option Float := none
  linearMaximum : Option Nat := none
  parabolicMaximum : Option Nat := none
  betaAlpha : Option Float := none
  betaBeta : Option Float := none
  deriving Inhabited

namespace NearbySettings

/-- The families of which a parameter is given. -/
def families (c : NearbySettings) : List DistributionFamily :=
  (if c.blockMinimum.isSome || c.blockMaximum.isSome || c.blockRatio.isSome ||
      c.blockUniform.isSome then [.block] else []) ++
  (if c.linearMaximum.isSome then [.linear] else []) ++
  (if c.parabolicMaximum.isSome then [.parabolic] else []) ++
  (if c.betaAlpha.isSome || c.betaBeta.isSome then [.beta] else [])

/-- The family of the distribution, if one is given. -/
def family (c : NearbySettings) : Except Flaw (Option DistributionFamily) :=
  match c.families with
  | [] => .ok none
  | [family] => .ok (some family)
  | several => .error (.severalDistributions several)

private def checkShare (name : String) : Option Float → Except Flaw Unit
  | some x => if 0.0 ≤ x && x ≤ 1.0 then .ok () else .error (.outsideUnitInterval name x)
  | none => .ok ()

private def checkPositive (name : String) : Option Float → Except Flaw Unit
  | some x => if 0.0 < x then .ok () else .error (.notPositive name x)
  | none => .ok ()

/-- Checks the settings; a distribution is of use in random selection only. -/
def validate (c : NearbySettings) (isRandom : Bool) : Except Flaw Unit := do
  if c.origin.isNone then throw .missingOrigin
  if c.meter.isNone then throw .missingMeter
  let family ← c.family
  if family.isSome && !isRandom then throw .unusedDistribution
  checkShare "block_distribution_size_ratio" c.blockRatio
  checkShare "block_distribution_uniform_distribution_probability" c.blockUniform
  match c.blockMinimum, c.blockMaximum with
  | some minimum, some maximum => if maximum < minimum then throw (.blockBounds maximum minimum)
  | _, _ => pure ()
  checkNotZero "linear_distribution_size_maximum" c.linearMaximum
  checkNotZero "parabolic_distribution_size_maximum" c.parabolicMaximum
  checkNotZero "block_distribution_size_maximum" c.blockMaximum
  checkPositive "beta_distribution_alpha" c.betaAlpha
  checkPositive "beta_distribution_beta" c.betaBeta

open Nearby in
/-- The distribution that the settings describe. -/
def distribution (c : NearbySettings) : Except SelectorError Distribution :=
  match c.family with
  | .error flaw => .error (.invalidDistribution (ConfigError.invalid flaw).message)
  | .ok none => .ok .standard
  | .ok (some .linear) => Distribution.ofLinear (c.linearMaximum.getD Count.max)
  | .ok (some .parabolic) => Distribution.ofParabolic (c.parabolicMaximum.getD Count.max)
  | .ok (some .beta) => Distribution.ofBeta (c.betaAlpha.getD 1.0) (c.betaBeta.getD 5.0)
  | .ok (some .block) =>
    Distribution.ofBlock (c.blockMinimum.getD 1) (c.blockMaximum.getD Count.max)
      (c.blockRatio.getD 1.0)
      (c.blockUniform.getD 0.0)

end NearbySettings

/-- Settings of a selector of entities or values. -/
structure SelectorSettings where
  id : Option String := none
  mimic : Option String := none
  cacheType : Option CacheType := none
  order : Option SelectionOrder := none
  filter : Option String := none
  sorter : Option String := none
  sorterDirection : Option SortDirection := none
  weight : Option String := none
  limit : Option Nat := none
  nearby : Option NearbySettings := none
  deriving Inhabited

namespace SelectorSettings

def cache (c : SelectorSettings) : CacheType := c.cacheType.getD .justInTime

/-- The order of the selector inside another one. -/
def orderIn (c : SelectorSettings) (enclosing : SelectionOrder) : SelectionOrder :=
  (c.order.getD .inherit).resolve enclosing

/-- The names of the settings that are given, the reference to another selector aside. -/
def given (c : SelectorSettings) : List String :=
  [("id", c.id.isSome), ("cache_type", c.cacheType.isSome), ("selection_order", c.order.isSome),
   ("filter", c.filter.isSome), ("sorter", c.sorter.isSome),
   ("sorter_order", c.sorterDirection.isSome), ("probability_weight", c.weight.isSome),
   ("selected_count_limit", c.limit.isSome), ("nearby_selection", c.nearby.isSome)].filterMap
    fun (name, isGiven) => if isGiven then some name else none

private def checkSorter (order : SelectionOrder) (isGiven : Bool) : Except Flaw Unit :=
  match order, isGiven with
  | .sorted, false => .error .missingSorter
  | .sorted, true => .ok ()
  | order, true => .error (.unusedSorter order)
  | _, false => .ok ()

private def checkWeight (order : SelectionOrder) (isGiven : Bool) : Except Flaw Unit :=
  match order, isGiven with
  | .probabilistic, false => .error .missingWeight
  | .probabilistic, true => .ok ()
  | order, true => .error (.unusedWeight order)
  | _, false => .ok ()

private def checkNearby (order : SelectionOrder) (cache : CacheType) (nearby : NearbySettings) :
    Except Flaw Unit :=
  if cache.isCached then .error (.cachedNearby cache)
  else match order with
    | .listed => nearby.validate false
    | .random => nearby.validate true
    | order => .error (.nearbyOrder order)

/-- Checks the settings of a selector inside one of the given order. -/
def validate (c : SelectorSettings) (enclosing : SelectionOrder) : Except Flaw Unit :=
  match c.mimic with
  | some reference =>
    if c.given.isEmpty then .ok () else .error (.mimicWith reference c.given)
  | none => do
    let order := c.orderIn enclosing
    if order.needsCache && !c.cache.isCached then throw (.uncachedOrder order c.cache)
    checkSorter order c.sorter.isSome
    checkWeight order c.weight.isSome
    checkEach (checkNearby order c.cache) c.nearby.toList

end SelectorSettings

/-- Settings of moves that give an entity a value. -/
structure ChangeSettings where
  variableName : Option String := none
  entities : Option SelectorSettings := none
  values : Option SelectorSettings := none
  deriving Inhabited

/-- Settings of moves that relocate a run of a chain. -/
structure SubChainSettings where
  variableName : Option String := none
  minimumSize : Option Nat := none
  maximumSize : Option Nat := none
  reversingToo : Option Bool := none
  runs : Option SelectorSettings := none
  values : Option SelectorSettings := none
  deriving Inhabited

/-- Settings of a selector of moves. -/
inductive MoveSelectorSettings where
  | change (c : ChangeSettings)
  | subChainChange (c : SubChainSettings)
  | union (children : List MoveSelectorSettings)
  deriving Inhabited

def ChangeSettings.validate (c : ChangeSettings) (enclosing : SelectionOrder) :
    Except Flaw Unit := do
  checkEach (·.validate enclosing) c.entities.toList
  checkEach (·.validate enclosing) c.values.toList

namespace SubChainSettings

def minimum (c : SubChainSettings) : Nat := c.minimumSize.getD 1

def maximum (c : SubChainSettings) : Nat := c.maximumSize.getD Count.max

/-- A selector of runs has no use for these settings. -/
private def checkRuns (enclosing : SelectionOrder) (runs : SelectorSettings) : Except Flaw Unit :=
  if runs.mimic.isSome || runs.nearby.isSome || runs.weight.isSome || runs.sorter.isSome ||
      runs.filter.isSome then .error .subChainSelector
  else runs.validate enclosing

def validate (c : SubChainSettings) (enclosing : SelectionOrder) : Except Flaw Unit := do
  if c.minimum < 1 then throw (.zero "minimum_sub_chain_size")
  if c.maximum < c.minimum then throw (.subChainBounds c.maximum c.minimum)
  checkEach (checkRuns enclosing) c.runs.toList
  checkEach (·.validate enclosing) c.values.toList

end SubChainSettings

namespace MoveSelectorSettings

mutual

/-- Checks the settings of a selector of moves inside one of the given order. -/
def validate (enclosing : SelectionOrder) : MoveSelectorSettings → Except Flaw Unit
  | .change c => c.validate enclosing
  | .subChainChange c => c.validate enclosing
  | .union children =>
    if children.isEmpty then .error .emptyUnion else validateAll enclosing children

/-- Checks several selectors of moves. -/
def validateAll (enclosing : SelectionOrder) : List MoveSelectorSettings → Except Flaw Unit
  | [] => .ok ()
  | c :: rest =>
    match validate enclosing c with
    | .error e => .error e
    | .ok () => validateAll enclosing rest

end

end MoveSelectorSettings

end PlanSearch.Config
