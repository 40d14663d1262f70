import PlanSearch.Exchange.Form
import PlanSearch.Termination.Basic

/-!
# Terminations as documents

A termination is a list of a name and of its limit or its parts.
-/

namespace PlanSearch.Termination

variable {sh : Shape}

/-- The termination of a name with a limit or with parts. Times are in milliseconds. -/
def ofName (name : String) (limit : Document) (parts : List (Termination sh)) : Termination sh :=
  match name with
  | "steps" => .stepCount limit.nat
  | "unimproved" => .unimprovedStepCount limit.nat
  | "score" => .scoreAttained (limit.score sh)
  | "time_ms" => .timeSpent (limit.nat * 1000000)
  | "and" => .allOf parts
  | "or" => .anyOf parts
  | "combine_and" => .combine .and parts
  | _ => .combine .or parts

mutual

/-- The termination that a document describes. -/
def ofDocument : Document → Termination sh
  | .list [name, .list parts] => ofName name.string (.list parts) (ofDocuments parts)
  | .list (name :: limit) => ofName name.string (limit.headD .null) []
  | _ => .anyOf []

def ofDocuments : List Document → List (Termination sh)
  | [] => []
  | d :: rest => ofDocument d :: ofDocuments rest

end

/-- The progress that a document describes. Times are in milliseconds. -/
def progressOf (sh : Shape) (d : Document) : Progress sh where
  elapsed := (d "elapsed_ms").nat * 1000000
  steps := (d "steps").nat
  unimproved := (d "unimproved").nat
  starting := (d "start").score? sh
  best := (d "best").score? sh

end PlanSearch.Termination
