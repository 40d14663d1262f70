import PlanSearch.Fault
import PlanSearch.Score.Basic

/-!
# Late acceptance

A move is compared with the score of the working solution some steps ago. The last scores stand in a
ring that is filled with the starting score at the beginning of a phase; each new score takes the
place of the oldest one.
-/

namespace PlanSearch

/-- The last scores of a phase. -/
structure LateAcceptance (sh : Shape) where
  /-- How many steps back a move is compared; at least one. -/
  size : Nat
  /-- A move that is as good as the last step is accepted, too. -/
  hillClimbing : Bool
  /-- As many scores as the size says; none outside of phases. -/
  history : Array (Score sh) := #[]
  /-- Where the oldest score stands. -/
  index : Nat := 0

namespace LateAcceptance

variable {sh : Shape}

/-- A size of zero is raised to one. -/
def ofSize (size : Nat) (hillClimbing : Bool) : LateAcceptance sh :=
  { size := max size 1, hillClimbing }

/-- The score that moves are compared with. -/
def lateScore (a : LateAcceptance sh) : Option (Score sh) := a.history[a.index]?

/-- Begins a phase. So many scores must fit the memory of a machine. -/
def phaseStarted (a : LateAcceptance sh) (starting : Score sh) : Except Fault (LateAcceptance sh) :=
  if 0x8000000000000000 ≤ a.size * sh.levelCount * 8 then .error .overflow
  else .ok { a with history := .replicate a.size starting, index := 0 }

/-- A move with the given score may be picked. -/
def accepts (a : LateAcceptance sh) (lastStep move : Score sh) : Bool :=
  match a.lateScore with
  | none => true
  | some late => !decide (move < late) || (a.hillClimbing && !decide (move < lastStep))

/-- Puts the score of a step in the place of the oldest one. -/
def stepEnded (a : LateAcceptance sh) (score : Score sh) : LateAcceptance sh :=
  if within : a.index < a.history.size then
    { a with history := a.history.set a.index score, index := (a.index + 1) % a.size }
  else a

def phaseEnded (a : LateAcceptance sh) : LateAcceptance sh :=
  { a with history := #[], index := 0 }

def describe (a : LateAcceptance sh) : String :=
  Text.record "LateAcceptanceAcceptor"
    [("late_acceptance_size", toString a.size), ("hill_climbing", Text.truth a.hillClimbing),
     ("late_score", Text.optional (a.lateScore.map Score.describe))]

end LateAcceptance

end PlanSearch
