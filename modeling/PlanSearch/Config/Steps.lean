import PlanSearch.Config.Read
import PlanSearch.Document.Access

/-!
# Settings step by step

Settings can be put together by a list of steps. A step is a list of a word and values for the
fields whose names begin with the word, or hold it where no name begins so. A few words stand for
parts with steps of their own, or for fields that take one more value with every step.
-/

namespace PlanSearch.Config

open Document

/-- The fields of a part of the settings. -/
def fieldsOf : String → List String
  | "termination" => TerminationSettings.fields
  | "nearby" => NearbySettings.fields
  | "selector" => SelectorSettings.fields
  | "acceptor" => AcceptorSettings.fields
  | "local_search" => LocalSearchSettings.fields
  | _ => SolverSettings.fields

/-- The fields that a word stands for. -/
def fieldsNamed (part word : String) : List String :=
  if word == "new" then NearbySettings.fields
  else
    let word := if word == "steps" then "step" else word
    let fields := (fieldsOf part).filter fun name => name.startsWith word
    if fields.isEmpty then (fieldsOf part).filter fun name => 1 < (name.splitOn word).length
    else fields

/-- The words that begin a part anew. -/
def isFresh (word : String) : Bool := word == "new" || word == "mimic"

/-- The value of a step. Beside names, the words among the values of a distribution are numbers. -/
def stepValue (part word : String) (d : Document) : Document :=
  match d with
  | text _ => if part == "nearby" && word != "new" then real d.float else d
  | d => d

/-- The settings after a list of steps that are nested less deeply than the given number. -/
def ofNestedSteps : Nat → String → List Document → Document
  | 0, _, _ => table []
  | depth + 1, part, steps =>
    let step (d a : Document) : Document :=
      let word := a[0].string
      let nested (part : String) := ofNestedSteps depth part a[1].items
      match part, word with
      | "solver", "seconds" =>
        d.put "termination" ((d "termination").put "seconds_spent_limit" a[1])
      | _, "child" => d.push "terminations" (nested part)
      | _, "phase" => d.push "phases" a[1]
      | _, "acceptor" => d.put word (nested word)
      | _, "termination" => d.put word (nested word)
      | _, "nearby" => d.put "nearby_selection" (nested word)
      | _, _ =>
        let values := a.items.tail.map (stepValue part word)
        ((fieldsNamed part word).zip values).foldl (fun d (key, x) => d.put key x)
          (if isFresh word then table [] else d)
    steps.foldl step (table [])

/-- The part of the settings that a list of steps leads to. -/
def ofSteps (part : String) (steps : Document) : Document :=
  ofNestedSteps (steps.depth + 1) part steps.items

end PlanSearch.Config
