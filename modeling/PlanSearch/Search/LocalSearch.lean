import PlanSearch.Acceptor.Forager
import PlanSearch.Search.Phase
import PlanSearch.Selector.Basic

/-!
# Local search

A local search makes one move per step. It tries candidates, each of which is applied, scored and
taken back; the acceptor says which of them may be picked, and the forager picks one. A step in
which nothing is accepted counts, and the next step tries again.
-/

namespace PlanSearch

/-- A local search phase with a memory of type `M` that its selectors share. -/
structure LocalSearch (M S : Type) (sh : Shape) where
  moves : Selector M S (Move S)
  memory : M
  acceptor : Acceptor S sh
  forager : Forager S sh
  /-- How many candidates are looked at in a step. -/
  selectedLimit : Option Nat := none
  termination : Option (Termination sh) := none

namespace LocalSearch

variable {M S : Type} {sh : Shape}

/-- What a local search keeps. -/
structure State (p : LocalSearch M S sh) where
  moves : p.moves.State
  memory : M
  acceptor : Acceptor S sh
  forager : Forager S sh

/-- What a local search begins with. -/
def start (p : LocalSearch M S sh) : p.State :=
  { moves := p.moves.start, memory := p.memory, acceptor := p.acceptor, forager := p.forager }

/-- The kind of phase. -/
def kind : String := "local_search"

/-- A limit of zero is raised to one. -/
def withSelectedLimit (p : LocalSearch M S sh) (limit : Option Nat) : LocalSearch M S sh :=
  { p with selectedLimit := limit.map fun n => max n 1 }

/-- The state of the search together with that of the phase. -/
structure Running (p : LocalSearch M S sh) where
  scope : Scope S sh
  own : p.State

/-- A computation of the phase. A fault keeps the state that it found. -/
abbrev Stepping (p : LocalSearch M S sh) (α : Type) := ExceptT Fault (StateM p.Running) α

/-- A computation of the phase that may end the search with an error. The state is kept. -/
abbrev Trying (p : LocalSearch M S sh) (α : Type) := ExceptT PlanError p.Stepping α

variable (p : LocalSearch M S sh)

/-- A computation on the state of the search. -/
def onScope {α : Type} (f : Search S sh α) : p.Stepping α := ExceptT.mk fun r =>
  let (a, scope) := f.run r.scope
  (a, { r with scope })

/-- Does something that cannot end the search. -/
def perform {α : Type} (f : p.Stepping α) : p.Trying α := ExceptT.lift f

/-- Does something on the state of the search that may end it. -/
def attempt {α : Type} (f : Attempt S sh α) : p.Trying α := ExceptT.mk (p.onScope f.run)

/-- Changes what the phase keeps. -/
def modifyOwn (f : p.State → p.State) : p.Stepping Unit := modify fun r => { r with own := f r.own }

/-- Uses the selector of moves, which draws from the generator of the search. -/
def select {α : Type} (c : Conditions S sh)
    (f : Setting S → p.moves.State → Draw M (α × p.moves.State)) : p.Stepping α := do
  let r ← get
  let setting : Setting S := ⟨r.scope.director.solution, c.patience⟩
  let ((a, moves), w) ← (f setting r.own.moves).run ⟨r.scope.generator, r.own.memory⟩
  set { r with
    scope := { r.scope with generator := w.generator }
    own := { r.own with moves, memory := w.memory } }
  return a

/-- Announces something to the selector of moves. -/
def announce (c : Conditions S sh) (hook : Hook) : p.Stepping Unit :=
  p.select c fun set st => do return ((), ← p.moves.handle hook set st)

/-! ## One step -/

def phaseStarted (c : Conditions S sh) (starting : Score sh) : p.Stepping Unit := do
  p.announce c .phaseStarted
  let acceptor ← (← get).own.acceptor.phaseStarted starting
  p.modifyOwn fun st => { st with acceptor }

def stepStarted (c : Conditions S sh) (step : StepContext sh) : p.Stepping Unit := do
  p.announce c .stepStarted
  p.modifyOwn fun st => { st with
    acceptor := st.acceptor.stepStarted step
    forager := st.forager.stepStarted }

/-- How many candidates may be looked at. From a selector that never ends, as many as it has
distinct ones unless there is a limit; all of them from one that ends. -/
def budget : p.Stepping (Option Nat) := do
  match p.selectedLimit with
  | some limit => return some limit
  | none =>
    if p.moves.neverEnding then
      let r ← get
      let size ← p.moves.size r.scope.director.solution r.own.moves
      return some (max size 1)
    else return none

/-- The next candidate. -/
def nextCandidate (c : Conditions S sh) : p.Stepping (Option (Move S)) := p.select c p.moves.next

/-- The working solution. -/
def working : p.Stepping S := do return (← get).scope.director.solution

/-- Asks the acceptor about a move. -/
def accept (m : Move S) (score : Score sh) (step : StepContext sh) : p.Stepping Bool := do
  let r ← get
  let (accepted, generator) ← r.own.acceptor.accepts m score step r.scope.generator
  set { r with scope := { r.scope with generator } }
  return accepted

/-- Gives an accepted move to the forager, and asks whether it has enough. -/
def forage (m : Move S) (score : Score sh) (step : StepContext sh) : p.Stepping Bool := do
  let forager := (← get).own.forager.add m score step
  p.modifyOwn fun st => { st with forager }
  return forager.hasEnough

/-- Tries candidates until there are no more, the budget is used up, or the forager has enough. -/
def tryCandidates (c : Conditions S sh) :
    Nat → Option Nat → StepContext sh → p.Trying (StepContext sh)
  | 0, _, _ => p.perform (throw .exhausted)
  | rounds + 1, left, step => do
    if left = some 0 then return step
    match ← p.perform (p.nextCandidate c) with
    | none => return step
    | some m =>
      let left := left.map (· - 1)
      if m.isDoable (← p.perform p.working) then
        let step := { step with selected := step.selected + 1 }
        let score ← p.attempt (Search.evaluate c m step.lastStep)
        if ← p.perform (p.accept m score step) then
          let step := { step with accepted := step.accepted + 1 }
          if ← p.perform (p.forage m score step) then return step
          else tryCandidates c rounds left step
        else tryCandidates c rounds left step
      else tryCandidates c rounds left step

/-- Takes the move that the forager picks. -/
def pick : p.Stepping (Option (Move S × Score sh)) := do
  let (picked, forager) := (← get).own.forager.pick
  p.modifyOwn fun st => { st with forager }
  return picked

/-- Decides which move to make, if any. -/
def decide (c : Conditions S sh) (step : StepContext sh) :
    p.Trying (Option (Move S × Score sh) × StepContext sh) := do
  let budget ← p.perform p.budget
  p.perform (p.select c fun set st => do return ((), ← p.moves.restart set st))
  let step ← p.tryCandidates c c.patience budget step
  return (← p.perform p.pick, step)

/-- Ends a step, in which a move may have been made. -/
def stepEnded (c : Conditions S sh) (made : Option (Acceptor.Made S sh)) : p.Stepping Unit := do
  match made with
  | none => pure ()
  | some made => p.modifyOwn fun st => { st with acceptor := st.acceptor.stepEnded made }
  p.announce c .stepEnded

def phaseEnded (c : Conditions S sh) : p.Stepping Unit := do
  p.announce c .phaseEnded
  p.modifyOwn fun st => { st with acceptor := st.acceptor.phaseEnded }

/-! ## The phase -/

/-- Makes a move. -/
def make (c : Conditions S sh) (phase : PhaseContext sh) (step : StepContext sh) (m : Move S)
    (score : Score sh) : p.Trying (PhaseContext sh) := do
  let undo ← p.attempt (Search.apply m)
  p.attempt (Search.assertScore c score)
  p.perform do
    p.onScope Search.countStep
    let improved ← p.onScope (Search.offer c score)
    p.stepEnded c (some { index := step.index, move := m, undo, score := some score })
    p.onScope (Search.fire c (.stepEnded step.index score))
    return phase.completeStep score improved

/-- Ends a step in which nothing was accepted. -/
def skip (c : Conditions S sh) (phase : PhaseContext sh) (step : StepContext sh) :
    p.Stepping (PhaseContext sh) := do
  p.onScope Search.countStep
  p.stepEnded c none
  p.onScope (Search.fire c (.stepEnded step.index step.lastStep))
  return phase.completeStep step.lastStep false

/-- Begins the next step. -/
def beginStep (c : Conditions S sh) (phase : PhaseContext sh) (starting : Score sh) :
    p.Stepping (StepContext sh) := do
  let lastStep := phase.last.getD starting
  let best := match (← get).scope.best with
    | some best => best.score
    | none => lastStep
  let gradient ← p.onScope (PhaseContext.gradient c p.termination phase)
  let step : StepContext sh := { index := phase.steps, gradient, lastStep, best }
  p.onScope (Search.fire c (.stepStarted step.index))
  p.stepStarted c step
  return step

/-- Makes steps until the phase is to stop, there is no move to make, or nothing is accepted
although no termination would ever end the phase. -/
def steps (c : Conditions S sh) (starting : Score sh) : Nat → PhaseContext sh → p.Trying Unit
  | 0, _ => p.perform (throw .exhausted)
  | rounds + 1, phase => do
    if ← p.perform (p.onScope (PhaseContext.isTerminated c p.termination phase)) then return
    let step ← p.perform (p.beginStep c phase starting)
    match ← p.decide c step with
    | (some (m, score), step) =>
      let phase ← p.make c phase step m score
      steps c starting rounds phase
    | (none, step) =>
      if step.selected = 0 then
        p.perform (p.stepEnded c none)
        if ← p.perform (p.onScope (Search.isInitialized c)) then return
        p.perform (p.phaseEnded c)
        throw (.noDoableMove phase.index)
      else if p.termination.isNone && c.termination.isNone then p.perform (p.stepEnded c none)
      else
        let phase ← p.perform (p.skip c phase step)
        steps c starting rounds phase

/-- Begins the phase. -/
def begin (c : Conditions S sh) (index : Nat) : p.Stepping (Score sh × PhaseContext sh) := do
  let starting ← p.onScope (Search.calculate c)
  let startedAt ← p.onScope (Search.now c)
  p.phaseStarted c starting
  p.onScope (Search.fire c (.phaseStarted index kind))
  return (starting, .ofStart index kind startedAt (some starting))

/-- Runs the phase. -/
def run (c : Conditions S sh) (index : Nat) : p.Trying Unit := do
  let (starting, phase) ← p.perform (p.begin c index)
  p.steps c starting c.patience phase
  p.perform do
    p.phaseEnded c
    p.onScope (Search.fire c (.phaseEnded index kind))

def describe (st : p.State) : String :=
  let decider := Text.record "LocalSearchDecider"
    [("move_selector", p.moves.describe st.moves), ("acceptor", st.acceptor.describe),
     ("forager", st.forager.describe),
     ("selected_count_limit", Text.optional (p.selectedLimit.map toString))]
  Text.record "LocalSearchPhase"
    [("decider", decider), ("termination", Text.optional (p.termination.map Termination.describe))]

end LocalSearch

end PlanSearch
