import PlanSearch.Score.Basic

/-!
# What happens during a search

A search leaves a log of events. Those who watch it can subscribe to the events of the whole search,
of its phases, or of its steps.
-/

namespace PlanSearch

/-- Something that happens during a search. -/
inductive Event (S : Type) (sh : Shape) where
  | bestChanged (solution : S) (score : Score sh)
  | solvingStarted (solution : S)
  /-- The search is over; it may have been asked to stop. -/
  | solvingEnded (solution : S) (early : Bool)
  | phaseStarted (index : Nat) (kind : String)
  | phaseEnded (index : Nat) (kind : String)
  | stepStarted (index : Nat)
  | stepEnded (index : Nat) (score : Score sh)

/-- The kinds of events. -/
inductive EventKind where
  | bestChanged
  | solvingStarted
  | solvingEnded
  | phaseStarted
  | phaseEnded
  | stepStarted
  | stepEnded
  deriving DecidableEq, Repr

namespace EventKind

/-- All kinds of events. -/
def all : List EventKind :=
  [bestChanged, solvingStarted, solvingEnded, phaseStarted, phaseEnded, stepStarted, stepEnded]

theorem mem_all (k : EventKind) : k ∈ all := by cases k <;> decide

end EventKind

namespace Event

variable {S : Type} {sh : Shape}

def kind : Event S sh → EventKind
  | bestChanged .. => .bestChanged
  | solvingStarted _ => .solvingStarted
  | solvingEnded .. => .solvingEnded
  | phaseStarted .. => .phaseStarted
  | phaseEnded .. => .phaseEnded
  | stepStarted _ => .stepStarted
  | stepEnded .. => .stepEnded

/-- How many events of a kind there are. -/
def count (k : EventKind) (events : List (Event S sh)) : Nat :=
  events.countP fun e => e.kind = k

end Event

/-- Who watches which events. -/
structure Subscriptions (L : Type) where
  solver : List L := []
  phase : List L := []
  step : List L := []

namespace Subscriptions

variable {L : Type}

/-- Adds someone who watches everything. -/
def add (s : Subscriptions L) (l : L) : Subscriptions L :=
  { solver := s.solver ++ [l], phase := s.phase ++ [l], step := s.step ++ [l] }

/-- Nobody watches anything. -/
def isEmpty (s : Subscriptions L) : Bool := s.solver.isEmpty && s.phase.isEmpty && s.step.isEmpty

/-- Those who are told of an event of a kind, in the order in which they subscribed. -/
def receivers (s : Subscriptions L) : EventKind → List L
  | .bestChanged | .solvingStarted | .solvingEnded => s.solver
  | .phaseStarted | .phaseEnded => s.phase
  | .stepStarted | .stepEnded => s.step

def describe (s : Subscriptions L) : String :=
  Text.record "SolverEventSupport"
    [("solver_listeners", toString s.solver.length), ("phase_listeners", toString s.phase.length),
     ("step_listeners", toString s.step.length)]

end Subscriptions

end PlanSearch
