import PlanSearch.Acceptor.Basic
import PlanSearch.Config.Solver

/-!
# The best of the accepted moves

A forager gathers the accepted moves of a step until it has enough of them, and then picks the best
one. Among equal ones the earliest is picked.
-/

namespace PlanSearch

open Config

/-- The accepted moves of a step, of which only the best one is kept. -/
structure Forager (S : Type) (sh : Shape) where
  /-- So many moves are enough; at least one. -/
  limit : Nat
  /-- A move that is good enough to end the step at once. -/
  pickEarly : PickEarly
  count : Nat := 0
  best : Option (Move S × Score sh) := none
  /-- The latest move was good enough to end the step. -/
  pickedEarly : Bool := false

namespace Forager

variable {S : Type} {sh : Shape}

/-- A limit of zero is raised to one. -/
def ofLimit (limit : Nat) (pickEarly : PickEarly) : Forager S sh :=
  { limit := max limit 1, pickEarly }

/-- Begins a step. -/
def stepStarted (f : Forager S sh) : Forager S sh :=
  { f with count := 0, best := none, pickedEarly := false }

/-- A move with the given score ends the step at once. -/
def isEarly (f : Forager S sh) (score : Score sh) (step : StepContext sh) : Bool :=
  match f.pickEarly with
  | .never => false
  | .firstBestScoreImproving => decide (step.best < score)
  | .firstLastStepScoreImproving => decide (step.lastStep < score)

/-- Adds an accepted move. -/
def add (f : Forager S sh) (move : Move S) (score : Score sh) (step : StepContext sh) :
    Forager S sh :=
  let early := f.isEarly score step
  let improves := match f.best with
    | none => true
    | some (_, best) => decide (best < score)
  { f with
    count := f.count + 1
    pickedEarly := early
    best := if improves || early then some (move, score) else f.best }

/-- There are enough moves. -/
def hasEnough (f : Forager S sh) : Bool := f.pickedEarly || decide (f.limit ≤ f.count)

/-- Takes the best move out. -/
def pick (f : Forager S sh) : Option (Move S × Score sh) × Forager S sh :=
  (f.best, { f with best := none })

def describe (f : Forager S sh) : String :=
  Text.record "AcceptedCountForager"
    [("accepted_count_limit", toString f.limit), ("pick_early_type", f.pickEarly.describe),
     ("accepted_count", toString f.count)]

end Forager

end PlanSearch
