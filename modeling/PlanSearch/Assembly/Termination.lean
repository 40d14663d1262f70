import PlanSearch.Error
import PlanSearch.Termination.Basic

/-!
# Terminations from settings
-/

namespace PlanSearch.Assembly

variable {sh : Shape}

open Config

/-- The criterion of a score that is to be attained. -/
def scoreLimit (text : String) : Except BuildError (Termination sh) :=
  match Score.read sh text with
  | .ok target => .ok (.scoreAttained target)
  | .error e => .error (.literal "best_score_limit" text e)

/-- The criteria given at one node, in a fixed order. -/
def ownCriteria (limits : Limits) : Except BuildError (List (Termination sh)) := do
  let time ← limits.time.mapError .fault
  let target ← limits.bestScore.mapM scoreLimit
  return time.toList.map .timeSpent ++ limits.steps.toList.map .stepCount ++
    limits.unimprovedSteps.toList.map .unimprovedStepCount ++ target.toList

mutual

/-- Joins the criteria of a node and those of the nodes under it. -/
def joinCriteria : TerminationSettings → Except BuildError (Termination sh)
  | .node limits children =>
    match ownCriteria limits with
    | .error e => .error e
    | .ok own =>
      match nestedCriteria children with
      | .error e => .error e
      | .ok nested => .ok (.combine (limits.style.getD .or) (own ++ nested))

/-- The terminations of those nodes that have a criterion. -/
def nestedCriteria : List TerminationSettings → Except BuildError (List (Termination sh))
  | [] => .ok []
  | c :: rest =>
    match c.isEmpty with
    | .error e => .error (.fault e)
    | .ok true => nestedCriteria rest
    | .ok false =>
      match joinCriteria c with
      | .error e => .error e
      | .ok t =>
        match nestedCriteria rest with
        | .error e => .error e
        | .ok ts => .ok (t :: ts)

end

/-- The termination that settings describe; none if they have no criterion. -/
def termination (c : TerminationSettings) : Except BuildError (Option (Termination sh)) := do
  c.validate.mapError fun flaw => .config (.invalid flaw)
  if ← c.isEmpty.mapError .fault then return none
  else return some (← joinCriteria c)

end PlanSearch.Assembly
