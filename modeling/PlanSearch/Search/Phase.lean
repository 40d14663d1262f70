import PlanSearch.Search.Scope

/-!
# The state of a phase
-/

namespace PlanSearch

/-- What is counted in a phase. -/
structure PhaseContext (sh : Shape) where
  index : Nat
  kind : String
  startedAt : Nat
  starting : Option (Score sh)
  steps : Nat := 0
  /-- The number of steps when the best score last improved. -/
  bestStep : Nat := 0
  /-- The score after the last step, or the starting score. -/
  last : Option (Score sh)

namespace PhaseContext

variable {S : Type} {sh : Shape}

/-- A phase that begins with the given score. -/
def ofStart (index : Nat) (kind : String) (startedAt : Nat) (starting : Option (Score sh)) :
    PhaseContext sh :=
  { index, kind, startedAt, starting, last := starting }

/-- The steps since the best score last improved. -/
def unimproved (p : PhaseContext sh) : Nat := p.steps - p.bestStep

/-- The phase after another step. -/
def completeStep (p : PhaseContext sh) (score : Score sh) (improved : Bool) : PhaseContext sh :=
  { p with
    steps := p.steps + 1
    last := some score
    bestStep := if improved then p.steps + 1 else p.bestStep }

/-- The progress of the phase. The best score is that of the whole search. -/
def progress (c : Conditions S sh) (p : PhaseContext sh) : Search S sh (Progress sh) := do
  let reading ← Search.now c
  return { elapsed := reading - p.startedAt, steps := p.steps, unimproved := p.unimproved
           starting := p.starting, best := Search.bestScore (← get) }

/-- The phase is to stop: by its own termination or with the whole search. -/
def isTerminated (c : Conditions S sh) (own : Option (Termination sh)) (p : PhaseContext sh) :
    Search S sh Bool := do
  if ← Search.isTerminated c then return true
  match own with
  | none => return false
  | some t => return t.isTerminated (← p.progress c)

/-- How far the phase has come, in the numbers of a scale: by the slower of its own termination and
that of the search. -/
def share (α : Type) [Scale α] (c : Conditions S sh) (own : Option (Termination sh))
    (p : PhaseContext sh) : Search S sh α := do
  let ownShares ← own.toList.mapM fun t => do return t.gradient (← p.progress c)
  let whole ← Search.share α c
  return Gradient.minimum (ownShares ++ [whole])

/-- How far the phase has come. -/
def gradient (c : Conditions S sh) (own : Option (Termination sh)) (p : PhaseContext sh) :
    Search S sh Float := p.share Float c own

end PhaseContext

end PlanSearch
