import PlanSearch.Acceptor.Annealing
import PlanSearch.Acceptor.LateAcceptance
import PlanSearch.Acceptor.Tabu
import PlanSearch.Move.Basic

/-!
# Which moves may be picked

An acceptor judges every move that a step has tried by its score. Several acceptors together accept
what each of them accepts.
-/

namespace PlanSearch

open PlanSearch.Random

/-- What is known about the step that is under way. -/
structure StepContext (sh : Shape) where
  index : Nat
  /-- How far the phase has come, or a negative number. -/
  gradient : Float
  /-- The score when the step began. -/
  lastStep : Score sh
  best : Score sh
  /-- The moves that were tried. -/
  selected : Nat := 0
  /-- The moves that were accepted. -/
  accepted : Nat := 0

/-- A policy of accepting moves, with what it remembers. -/
inductive Acceptor (S : Type) (sh : Shape) where
  /-- A move must not be worse than the last step. -/
  | hillClimbing
  /-- A move must not touch an entity that was moved lately. -/
  | entityTabu (t : Tabu PlanningRef)
  /-- A move must not assign a value that was assigned lately. -/
  | valueTabu (t : Tabu PlanningRef)
  /-- A move must not be one that was made lately. -/
  | moveTabu (t : Tabu (Move S))
  /-- A move must not take back one that was made lately. -/
  | undoMoveTabu (t : Tabu (Move S))
  | annealing (a : Annealing sh)
  | lateAcceptance (a : LateAcceptance sh)
  /-- A move must be accepted by every part. -/
  | composite (parts : List (Acceptor S sh))

namespace Acceptor

variable {S : Type} {sh : Shape}

/-- Joins acceptors. None at all stand for hill climbing, a single one is left as it is. -/
def combine : List (Acceptor S sh) → Acceptor S sh
  | [] => hillClimbing
  | [only] => only
  | parts => composite parts

/-! ## Properties -/

mutual

/-- The acceptor has to know how far the search has come. -/
def needsGradient : Acceptor S sh → Bool
  | annealing _ => true
  | composite parts => doesAnyNeedGradient parts
  | hillClimbing | entityTabu _ | valueTabu _ | moveTabu _ | undoMoveTabu _
  | lateAcceptance _ => false

/-- One of several acceptors has to know how far the search has come. -/
def doesAnyNeedGradient : List (Acceptor S sh) → Bool
  | [] => false
  | a :: rest => needsGradient a || doesAnyNeedGradient rest

end

mutual

/-- The acceptor refuses what was done lately. -/
def hasTabu : Acceptor S sh → Bool
  | entityTabu _ | valueTabu _ | moveTabu _ | undoMoveTabu _ => true
  | composite parts => hasAnyTabu parts
  | hillClimbing | annealing _ | lateAcceptance _ => false

/-- One of several acceptors refuses what was done lately. -/
def hasAnyTabu : List (Acceptor S sh) → Bool
  | [] => false
  | a :: rest => hasTabu a || hasAnyTabu rest

end

/-! ## The course of a phase -/

mutual

/-- Begins a phase from a solution with the given score. -/
def phaseStarted (starting : Score sh) : Acceptor S sh → Except Fault (Acceptor S sh)
  | hillClimbing => .ok hillClimbing
  | entityTabu t => .ok (entityTabu t.clear)
  | valueTabu t => .ok (valueTabu t.clear)
  | moveTabu t => .ok (moveTabu t.clear)
  | undoMoveTabu t => .ok (undoMoveTabu t.clear)
  | annealing a => .ok (annealing a.phaseStarted)
  | lateAcceptance a => (a.phaseStarted starting).map lateAcceptance
  | composite parts => (allPhaseStarted starting parts).map composite

/-- Begins a phase for several acceptors. -/
def allPhaseStarted (starting : Score sh) :
    List (Acceptor S sh) → Except Fault (List (Acceptor S sh))
  | [] => .ok []
  | a :: rest => do
    let a ← phaseStarted starting a
    let rest ← allPhaseStarted starting rest
    return a :: rest

end

mutual

/-- Begins a step. -/
def stepStarted (step : StepContext sh) : Acceptor S sh → Acceptor S sh
  | hillClimbing => hillClimbing
  | entityTabu t => entityTabu (t.stepStarted step.index)
  | valueTabu t => valueTabu (t.stepStarted step.index)
  | moveTabu t => moveTabu (t.stepStarted step.index)
  | undoMoveTabu t => undoMoveTabu (t.stepStarted step.index)
  | annealing a => annealing (a.stepStarted step.gradient)
  | lateAcceptance a => lateAcceptance a
  | composite parts => composite (allStepStarted step parts)

/-- Begins a step for several acceptors. -/
def allStepStarted (step : StepContext sh) : List (Acceptor S sh) → List (Acceptor S sh)
  | [] => []
  | a :: rest => stepStarted step a :: allStepStarted step rest

end

mutual

/-- Decides whether a move with the given score may be picked. -/
def accepts (move : Move S) (score : Score sh) (step : StepContext sh) (g : Generator) :
    Acceptor S sh → Except Fault (Bool × Generator)
  | hillClimbing => .ok (!decide (score < step.lastStep), g)
  | entityTabu t => .ok (t.accepts move.planningEntities (decide (step.best < score)), g)
  | valueTabu t => .ok (t.accepts move.planningValues (decide (step.best < score)), g)
  | moveTabu t => .ok (t.accepts [move] (decide (step.best < score)), g)
  | undoMoveTabu t => .ok (t.accepts [move] (decide (step.best < score)), g)
  | annealing a => a.accepts step.lastStep score g
  | lateAcceptance a => .ok (a.accepts step.lastStep score, g)
  | composite parts => doAllAccept move score step g parts

/-- Decides whether all of several acceptors accept a move. After a refusal none is asked. -/
def doAllAccept (move : Move S) (score : Score sh) (step : StepContext sh) (g : Generator) :
    List (Acceptor S sh) → Except Fault (Bool × Generator)
  | [] => .ok (true, g)
  | a :: rest =>
    match accepts move score step g a with
    | .error e => .error e
    | .ok (true, g) => doAllAccept move score step g rest
    | .ok (false, g) => .ok (false, g)

end

/-- What is remembered of a step. -/
structure Made (S : Type) (sh : Shape) where
  index : Nat
  move : Move S
  /-- The move that takes it back. -/
  undo : Move S
  /-- The score after the step. -/
  score : Option (Score sh)

mutual

/-- Takes note of the move that was made. -/
def stepEnded (made : Made S sh) : Acceptor S sh → Acceptor S sh
  | hillClimbing => hillClimbing
  | entityTabu t => entityTabu (t.record made.move.planningEntities made.index)
  | valueTabu t => valueTabu (t.record made.move.planningValues made.index)
  | moveTabu t => moveTabu (t.record [made.move] made.index)
  | undoMoveTabu t => undoMoveTabu (t.record [made.undo] made.index)
  | annealing a => annealing a
  | lateAcceptance a =>
    lateAcceptance (match made.score with
      | some score => a.stepEnded score
      | none => a)
  | composite parts => composite (allStepEnded made parts)

/-- Takes note of the move that was made in several acceptors. -/
def allStepEnded (made : Made S sh) : List (Acceptor S sh) → List (Acceptor S sh)
  | [] => []
  | a :: rest => stepEnded made a :: allStepEnded made rest

end

mutual

/-- Ends a phase. -/
def phaseEnded : Acceptor S sh → Acceptor S sh
  | hillClimbing => hillClimbing
  | entityTabu t => entityTabu t.clear
  | valueTabu t => valueTabu t.clear
  | moveTabu t => moveTabu t.clear
  | undoMoveTabu t => undoMoveTabu t.clear
  | annealing a => annealing a
  | lateAcceptance a => lateAcceptance a.phaseEnded
  | composite parts => composite (allPhaseEnded parts)

/-- Ends a phase for several acceptors. -/
def allPhaseEnded : List (Acceptor S sh) → List (Acceptor S sh)
  | [] => []
  | a :: rest => phaseEnded a :: allPhaseEnded rest

end

mutual

/-- The acceptor as a text. -/
def describe : Acceptor S sh → String
  | hillClimbing => "HillClimbing"
  | entityTabu t => Text.applied "EntityTabu" [t.describe]
  | valueTabu t => Text.applied "ValueTabu" [t.describe]
  | moveTabu t => Text.applied "MoveTabu" [t.describe]
  | undoMoveTabu t => Text.applied "UndoMoveTabu" [t.describe]
  | annealing a => Text.applied "SimulatedAnnealing" [a.describe]
  | lateAcceptance a => Text.applied "LateAcceptance" [a.describe]
  | composite parts => Text.applied "Composite" [Text.bracketed (describeAll parts)]

/-- Several acceptors as texts. -/
def describeAll : List (Acceptor S sh) → List String
  | [] => []
  | a :: rest => describe a :: describeAll rest

end

end Acceptor

end PlanSearch
