import PlanSearch.Search.Phase
import PlanSearch.Search.Placer

/-!
# Construction

A construction phase gives every entity of a variable a value, one entity per step. Each gets the
value with the best score as long as later entities are not considered; of equal ones the first.
-/

namespace PlanSearch

/-- A construction phase. -/
structure Construction (S : Type) (sh : Shape) where
  placer : Placer S
  termination : Option (Termination sh) := none

namespace Construction

variable {S : Type} {sh : Shape}

/-- The kind of phase. -/
def kind : String := "construction_heuristic"

/-- The place of the first of the best moves that change something. Each move comes with its place. -/
def bestOf (c : Conditions S sh) (last : Score sh) :
    List (Move S × Nat) → Option (Nat × Score sh) → Attempt S sh (Option (Nat × Score sh))
  | [], winner => return winner
  | (m, place) :: rest, winner => do
    if m.isDoable (← getThe (Scope S sh)).director.solution then
      let score ← Search.evaluate c m last
      let improves := match winner with
        | none => true
        | some (_, best) => decide (best < score)
      bestOf c last rest (if improves then some (place, score) else winner)
    else bestOf c last rest winner

/-- The move at a place of a placement. -/
def takeMove (placement : Placement S) (place : Nat) : Search S sh (Move S) := do
  let (m, _) ← placement.take place
  return m

/-- Completes a step after which the working solution has the given score. -/
def complete (c : Conditions S sh) (phase : PhaseContext sh) (score : Score sh) :
    Search S sh (PhaseContext sh) := do
  Search.countStep
  let improved ← Search.offer c score
  Search.fire c (.stepEnded phase.steps score)
  return phase.completeStep score improved

/-- Places one entity. -/
def step (c : Conditions S sh) (phase : PhaseContext sh) (placement : Placement S)
    (last : Score sh) : Attempt S sh (PhaseContext sh) := do
  Search.fire c (.stepStarted phase.steps)
  match ← bestOf c last placement.moves.toList.zipIdx none with
  | none => throw (.noPlacement phase.index placement.entity)
  | some (place, score) =>
    let m ← ExceptT.lift (takeMove placement place)
    let _ ← Search.apply m
    Search.assertScore c score
    complete c phase score

/-- Places entities until none is left or the phase is to stop. -/
def steps (c : Conditions S sh) (p : Construction S sh) (starting : Score sh) :
    Nat → PhaseContext sh → Attempt S sh Unit
  | 0, _ => ExceptT.lift (throw .exhausted)
  | rounds + 1, phase => do
    if ← PhaseContext.isTerminated c p.termination phase then return
    match p.placer.next (← getThe (Scope S sh)).director.solution with
    | none => return
    | some placement =>
      let phase ← step c phase placement (phase.last.getD starting)
      steps c p starting rounds phase

/-- Runs the phase. -/
def run (c : Conditions S sh) (p : Construction S sh) (index : Nat) : Attempt S sh Unit := do
  let starting ← Search.calculate c
  let phase := PhaseContext.ofStart index kind (← Search.now c) (some starting)
  Search.fire c (.phaseStarted index kind)
  steps c p starting c.patience phase
  Search.fire c (.phaseEnded index kind)

def describe (p : Construction S sh) : String :=
  Text.record "ConstructionHeuristicPhase"
    [("placer", p.placer.describe),
     ("termination", Text.optional (p.termination.map Termination.describe))]

end Construction

end PlanSearch
