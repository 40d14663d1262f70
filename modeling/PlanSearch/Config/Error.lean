import PlanSearch.Decimal.Notation
import PlanSearch.Selector.Order
import PlanSearch.Text.Layout

/-!
# What can be wrong with a configuration
-/

namespace PlanSearch.Config

/-- The families of nearby distributions. -/
inductive DistributionFamily where
  | block
  | linear
  | parabolic
  | beta
  deriving DecidableEq, Repr

def DistributionFamily.describe : DistributionFamily → String
  | block => "Block"
  | linear => "Linear"
  | parabolic => "Parabolic"
  | beta => "Beta"

/-- A setting, or a combination of settings, that makes no sense. -/
inductive Flaw where
  | emptyBestScoreLimit
  | missingOrigin
  | missingMeter
  | severalDistributions (families : List DistributionFamily)
  /-- A distribution without random selection. -/
  | unusedDistribution
  | outsideUnitInterval (name : String) (value : Float)
  | blockBounds (maximum minimum : Nat)
  | notPositive (name : String) (value : Float)
  /-- A count that is zero. -/
  | zero (name : String)
  /-- A reference to another selector together with settings of its own. -/
  | mimicWith (reference : String) (names : List String)
  | uncachedOrder (order : SelectionOrder) (cache : CacheType)
  | missingSorter
  | unusedSorter (order : SelectionOrder)
  | missingWeight
  | unusedWeight (order : SelectionOrder)
  | cachedNearby (cache : CacheType)
  | nearbyOrder (order : SelectionOrder)
  | emptyUnion
  | subChainBounds (maximum minimum : Nat)
  | subChainSelector

/-- The flaw in words. -/
def Flaw.message : Flaw → String
  | emptyBestScoreLimit => "best_score_limit must not be empty"
  | missingOrigin => "nearby selection needs an origin_selector_ref"
  | missingMeter => "nearby selection needs a distance_meter"
  | severalDistributions families =>
    "nearby selection configures more than one distribution: " ++
      Text.bracketed (families.map DistributionFamily.describe)
  | unusedDistribution => "a nearby distribution is only allowed with random selection"
  | outsideUnitInterval name value =>
    name ++ " (" ++ Decimal.plain value ++ ") must be within [0, 1]"
  | blockBounds maximum minimum =>
    "block_distribution_size_maximum (" ++ toString maximum ++ ") is below the minimum (" ++
      toString minimum ++ ")"
  | notPositive name value => name ++ " (" ++ Decimal.plain value ++ ") must be positive"
  | zero name => name ++ " must be at least 1"
  | mimicWith reference names =>
    "selector with mimic_selector_ref (" ++ reference ++ ") cannot also set " ++
      Text.commaSeparated names
  | uncachedOrder order cache =>
    "selection_order " ++ order.describe ++ " needs a cached selector, but cache_type is " ++
      cache.describe
  | missingSorter => "selection_order sorted needs a sorter"
  | unusedSorter order =>
    "sorter is only allowed with selection_order sorted, not " ++ order.describe
  | missingWeight => "selection_order probabilistic needs a probability_weight"
  | unusedWeight order =>
    "probability_weight is only allowed with selection_order probabilistic, not " ++ order.describe
  | cachedNearby cache => "nearby selection cannot be cached (cache_type " ++ cache.describe ++ ")"
  | nearbyOrder order =>
    "nearby selection needs selection_order original or random, not " ++ order.describe
  | emptyUnion => "union_move_selector needs at least one child selector"
  | subChainBounds maximum minimum =>
    "maximum_sub_chain_size (" ++ toString maximum ++ ") is below minimum_sub_chain_size (" ++
      toString minimum ++ ")"
  | subChainSelector => "sub_chain_selector only supports cache_type and selection_order"

/-- Refuses a count that is given and zero. -/
def checkNotZero (name : String) (count : Option Nat) : Except Flaw Unit :=
  if count = some 0 then .error (.zero name) else .ok ()

/-- Checks what is there. -/
def checkEach {α : Type} (check : α → Except Flaw Unit) : List α → Except Flaw Unit
  | [] => .ok ()
  | a :: rest =>
    match check a with
    | .error e => .error e
    | .ok () => checkEach check rest

/-- Why there is no configuration. -/
inductive ConfigError where
  /-- There is no text to read. -/
  | noText
  /-- The text is no table document with the expected content. -/
  | toml
  /-- The text is no block document with the expected content. -/
  | yaml
  | invalid (flaw : Flaw)

/-- The name of the error. -/
def ConfigError.kind : ConfigError → String
  | noText => "Io"
  | toml => "Toml"
  | yaml => "Yaml"
  | invalid _ => "Invalid"

/-- The reason in words. -/
def ConfigError.message : ConfigError → String
  | noText => "IO error"
  | toml => "TOML parse error"
  | yaml => "YAML parse error"
  | invalid flaw => "Invalid configuration: " ++ flaw.message

end PlanSearch.Config
