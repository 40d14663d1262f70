import PlanSearch.Director
import PlanSearch.Error
import PlanSearch.Random.Generator
import PlanSearch.Search.Event
import PlanSearch.Termination.Basic

/-!
# The state of a search

All phases of a search work on one scope: the working solution, the best solution so far, the
generator and the counts that terminations look at. Whatever comes from outside is among the
conditions of the search: the readings of a clock, and whether those who watch ask it to stop.
-/

namespace PlanSearch

open PlanSearch.Random

/-- What a search is given from outside. -/
structure Surroundings (S : Type) (sh : Shape) where
  problem : Problem S sh
  /-- The readings of the clock in nanoseconds, in their order. -/
  clock : Nat → Nat := fun _ => 0
  /-- The events upon which the search is asked to stop. -/
  interrupts : Event S sh → Bool := fun _ => false
  /-- The number of rounds after which a loop counts as endless. -/
  patience : Nat

/-- The surroundings, and what the solver adds to them. -/
structure Conditions (S : Type) (sh : Shape) extends Surroundings S sh where
  termination : Option (Termination sh) := none
  mode : Config.EnvironmentMode := .nonReproducible

/-- The best solution so far. -/
structure Best (S : Type) (sh : Shape) where
  solution : S
  score : Score sh
  isInitialized : Bool

/-- The state of a search. -/
structure Scope (S : Type) (sh : Shape) where
  director : Director S sh
  generator : Generator
  best : Option (Best S sh) := none
  /-- The score of the first initialized working solution. -/
  starting : Option (Score sh) := none
  /-- The number of steps when the best solution last changed. -/
  bestStep : Nat := 0
  steps : Nat := 0
  startedAt : Option Nat := none
  /-- How often the clock was read. -/
  readings : Nat := 0
  /-- The search was asked to stop. -/
  interrupted : Bool := false
  events : Array (Event S sh) := #[]

/-- A computation on the state of a search. A fault keeps the state that it found. -/
abbrev Search (S : Type) (sh : Shape) (α : Type) := ExceptT Fault (StateM (Scope S sh)) α

/-- A computation that may end the search with an error. The state is kept. -/
abbrev Attempt (S : Type) (sh : Shape) (α : Type) := ExceptT PlanError (Search S sh) α

namespace Search

variable {S : Type} {sh : Shape}

/-- Announces an event. -/
def fire (c : Conditions S sh) (e : Event S sh) : Search S sh Unit := modify fun s =>
  { s with events := s.events.push e, interrupted := s.interrupted || c.interrupts e }

/-- Reads the clock. -/
def now (c : Conditions S sh) : Search S sh Nat := modifyGet fun s =>
  (c.clock s.readings, { s with readings := s.readings + 1 })

/-- The time since the search began; none has passed before that. -/
def elapsed (c : Conditions S sh) : Search S sh Nat := do
  let reading ← now c
  return match (← get).startedAt with
    | none => 0
    | some start => reading - start

/-- The score of the working solution. -/
def calculate (c : Conditions S sh) : Search S sh (Score sh) := do
  let (score, director) ← (← get).director.calculate c.problem
  modify fun s => { s with director }
  return score

/-- Every variable of the working solution has a value. -/
def isInitialized (c : Conditions S sh) : Search S sh Bool := do
  return c.problem.isInitialized (← get).director.solution

/-- The working solution with a score, as the best one. -/
def asBest (c : Conditions S sh) (score : Score sh) : Search S sh (Best S sh) := do
  return { solution := c.problem.withScore (← get).director.solution (some score), score
           isInitialized := ← isInitialized c }

/-- Begins the search with the working solution as the best one. -/
def start (c : Conditions S sh) : Search S sh Unit := do
  let reading ← now c
  let score ← calculate c
  let best ← asBest c score
  modify fun s => { s with
    startedAt := some reading
    steps := 0
    bestStep := 0
    best := some best
    starting := if best.isInitialized then some score else none }
  fire c (.solvingStarted (← get).director.solution)

/-- An initialized solution beats every other one; else the score decides. -/
def beats (score : Score sh) (isInitialized : Bool) : Option (Best S sh) → Bool
  | none => true
  | some best =>
    if isInitialized = best.isInitialized then decide (best.score < score) else isInitialized

/-- Offers the working solution with the given score as the best one. -/
def offer (c : Conditions S sh) (score : Score sh) : Search S sh Bool := do
  let best ← asBest c score
  modify fun s => { s with
    starting := if best.isInitialized && s.starting.isNone then some score else s.starting }
  if beats score best.isInitialized (← get).best then
    fire c (.bestChanged best.solution score)
    modify fun s => { s with best := some best, bestStep := s.steps }
    return true
  else return false

/-- Counts a completed step. -/
def countStep : Search S sh Unit := modify fun s => { s with steps := s.steps + 1 }

/-! ## Progress -/

/-- The score of the best solution, if that is initialized. -/
def bestScore (s : Scope S sh) : Option (Score sh) :=
  match s.best with
  | some best => if best.isInitialized then some best.score else none
  | none => none

/-- The progress of the whole search. -/
def progress (c : Conditions S sh) : Search S sh (Progress sh) := do
  let elapsed ← elapsed c
  let s ← get
  return { elapsed, steps := s.steps, unimproved := s.steps - s.bestStep, starting := s.starting
           best := bestScore s }

/-- The search as a whole is to stop. -/
def isTerminated (c : Conditions S sh) : Search S sh Bool := do
  if (← get).interrupted then return true
  match c.termination with
  | none => return false
  | some t => return t.isTerminated (← progress c)

/-- How far the search as a whole has come, in the numbers of a scale. -/
def share (α : Type) [Scale α] (c : Conditions S sh) : Search S sh α := do
  match c.termination with
  | none => return Gradient.unsupported
  | some t => return t.gradient (← progress c)

/-- How far the search as a whole has come. -/
def gradient (c : Conditions S sh) : Search S sh Float := share Float c

/-! ## Moves -/

/-- Applies a move to the working solution. -/
def apply (m : Move S) : Attempt S sh (Move S) := ExceptT.mk do
  let (director, _, result) := (← get).director.applyMove m
  modify fun s => { s with director }
  return result.mapError .chain

/-- The score that a move leads to. The move is applied and taken back; where everything is checked,
that has to restore the given score. -/
def evaluate (c : Conditions S sh) (m : Move S) (restored : Score sh) :
    Attempt S sh (Score sh) := do
  let undo ← apply m
  let score ← calculate c
  let _ ← apply undo
  if c.mode.isAsserted then
    let again ← calculate c
    if again ≠ restored then
      throw (.undoMismatch m.describe again.literal restored.literal)
  return score

/-- Where everything is checked, the working solution has to have the given score. -/
def assertScore (c : Conditions S sh) (expected : Score sh) : Attempt S sh Unit := do
  if c.mode.isAsserted then
    let actual ← calculate c
    if actual ≠ expected then throw (.stepMismatch actual.literal expected.literal)

end Search

end PlanSearch
