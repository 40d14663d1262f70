import PlanSearch.Config.Solver
import PlanSearch.Score.Literal
import PlanSearch.Termination.Gradient
import PlanSearch.Text.Layout

/-!
# When to stop

A termination is a tree of criteria. It tells from the progress of a search whether to stop, and how
far the search has come.
-/

namespace PlanSearch

/-- What a termination looks at. Durations are counted in nanoseconds. -/
structure Progress (sh : Shape) where
  elapsed : Nat := 0
  steps : Nat := 0
  /-- The steps since the best score last improved. -/
  unimproved : Nat := 0
  starting : Option (Score sh) := none
  best : Option (Score sh) := none

/-- A criterion, or several of them joined. -/
inductive Termination (sh : Shape) where
  /-- So many steps are completed. -/
  | stepCount (limit : Nat)
  /-- So many steps in a row did not improve the best score. -/
  | unimprovedStepCount (limit : Nat)
  /-- The best score is at least as good as the target. -/
  | scoreAttained (target : Score sh)
  | timeSpent (limit : Nat)
  /-- Every child stops, and there is one. -/
  | allOf (children : List (Termination sh))
  /-- A child stops. -/
  | anyOf (children : List (Termination sh))

namespace Termination

variable {sh : Shape}

/-- Joins criteria. A single one is left as it is. -/
def combine (style : Config.CompositionStyle) : List (Termination sh) → Termination sh
  | [only] => only
  | children =>
    match style with
    | .and => allOf children
    | .or => anyOf children

/-! ## The answer -/

mutual

/-- The search is to stop. -/
def isTerminated (p : Progress sh) : Termination sh → Bool
  | stepCount limit => limit ≤ p.steps
  | unimprovedStepCount limit => limit ≤ p.unimproved
  | scoreAttained target => p.best.any fun best => !decide (best < target)
  | timeSpent limit => limit ≤ p.elapsed
  | allOf children => !children.isEmpty && areAllTerminated p children
  | anyOf children => isAnyTerminated p children

/-- Every one of several terminations stops. -/
def areAllTerminated (p : Progress sh) : List (Termination sh) → Bool
  | [] => true
  | t :: rest => isTerminated p t && areAllTerminated p rest

/-- One of several terminations stops. -/
def isAnyTerminated (p : Progress sh) : List (Termination sh) → Bool
  | [] => false
  | t :: rest => isTerminated p t || isAnyTerminated p rest

end

/-! ## The gradient -/

mutual

/-- How far the search has come: by the slowest of all criteria that can tell. -/
def gradient {α : Type} [Scale α] (p : Progress sh) : Termination sh → α
  | stepCount limit => Gradient.ofSteps p.steps limit
  | unimprovedStepCount _ => Gradient.unsupported
  | scoreAttained target =>
    match p.starting, p.best with
    | some start, some best => Gradient.ofScore start target best
    | _, _ => Scale.ofCount 0
  | timeSpent limit => Gradient.ofTime p.elapsed limit
  | allOf children => Gradient.minimum (gradients p children)
  | anyOf children => Gradient.minimum (gradients p children)

/-- The gradients of several terminations. -/
def gradients {α : Type} [Scale α] (p : Progress sh) : List (Termination sh) → List α
  | [] => []
  | t :: rest => gradient p t :: gradients p rest

end

mutual

/-- The gradient can be told. -/
def supportsGradient : Termination sh → Bool
  | stepCount _ => true
  | unimprovedStepCount _ => false
  | scoreAttained _ => true
  | timeSpent _ => true
  | allOf children => isAnySupported children
  | anyOf children => isAnySupported children

/-- One of several gradients can be told. -/
def isAnySupported : List (Termination sh) → Bool
  | [] => false
  | t :: rest => supportsGradient t || isAnySupported rest

end

mutual

/-- The termination as a text. -/
def describe : Termination sh → String
  | stepCount limit => Text.applied "StepCount" [toString limit]
  | unimprovedStepCount limit => Text.applied "UnimprovedStepCount" [toString limit]
  | scoreAttained target => Text.applied "ScoreAttained" [target.literal]
  | timeSpent limit => Text.applied "TimeSpent" [Text.duration limit]
  | allOf children => Text.applied "And" [Text.bracketed (describeAll children)]
  | anyOf children => Text.applied "Or" [Text.bracketed (describeAll children)]

/-- Several terminations as texts. -/
def describeAll : List (Termination sh) → List String
  | [] => []
  | t :: rest => describe t :: describeAll rest

end

end Termination

end PlanSearch
