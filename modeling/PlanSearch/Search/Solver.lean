import PlanSearch.Search.Construction
import PlanSearch.Search.LocalSearch

/-!
# Solvers

A solver runs its phases one after the other on one working solution and answers with the best
solution. It can be used again; what its phases keep stays with it.
-/

namespace PlanSearch

/-- A phase of either kind. -/
inductive Phase (M S : Type) (sh : Shape) where
  | construction (p : Construction S sh)
  | localSearch (p : LocalSearch M S sh)

namespace Phase

variable {M S : Type} {sh : Shape}

/-- The kind of phase. -/
def kind : Phase M S sh → String
  | construction _ => Construction.kind
  | localSearch _ => LocalSearch.kind

/-- What a phase keeps. -/
def State : Phase M S sh → Type
  | construction _ => Unit
  | localSearch p => p.State

/-- What a phase begins with. -/
def start : (p : Phase M S sh) → p.State
  | construction _ => ()
  | localSearch p => p.start

/-- How a phase ends: with a fault, with an error or with neither, in new states. -/
structure Ended (p : Phase M S sh) where
  result : Except Fault (Except PlanError Unit)
  scope : Scope S sh
  own : p.State

/-- Runs a phase. -/
def run (c : Conditions S sh) (index : Nat) (scope : Scope S sh) :
    (p : Phase M S sh) → p.State → p.Ended
  | construction p, own =>
    let (result, scope) := (p.run c index).run.run scope
    ⟨result, scope, own⟩
  | localSearch p, own =>
    let (result, r) := (p.run c index).run.run ⟨scope, own⟩
    ⟨result, r.scope, r.own⟩

def describe : (p : Phase M S sh) → p.State → String
  | construction p, _ => p.describe
  | localSearch p, own => p.describe own

end Phase

/-- The phases of a solver and when it is to stop. -/
structure Solver (M S : Type) (sh : Shape) where
  phases : List (Phase M S sh)
  termination : Option (Termination sh) := none
  mode : Config.EnvironmentMode := .nonReproducible
  /-- The seed of every run; without one it comes from outside. -/
  seed : Option Nat := none

namespace Solver

variable {M S : Type} {sh : Shape}

/-- What several phases keep. -/
def PhaseStates : List (Phase M S sh) → Type
  | [] => Unit
  | p :: rest => p.State × PhaseStates rest

/-- What several phases begin with. -/
def startAll : (phases : List (Phase M S sh)) → PhaseStates phases
  | [] => ()
  | p :: rest => (p.start, startAll rest)

/-- Several phases as texts. -/
def describeAll : (phases : List (Phase M S sh)) → PhaseStates phases → List String
  | [], _ => []
  | p :: rest, (st, sts) => p.describe st :: describeAll rest sts

/-- How several phases end. -/
structure AllEnded (phases : List (Phase M S sh)) where
  result : Except Fault (Except PlanError Unit)
  scope : Scope S sh
  own : PhaseStates phases

/-- Runs phases until one fails or the search is to stop. -/
def runAll (c : Conditions S sh) : (phases : List (Phase M S sh)) → Nat → Scope S sh →
    PhaseStates phases → AllEnded phases
  | [], _, scope, _ => ⟨.ok (.ok ()), scope, ()⟩
  | p :: rest, index, scope, (st, sts) =>
    match (Search.isTerminated c).run scope with
    | (.error f, scope) => ⟨.error f, scope, (st, sts)⟩
    | (.ok true, scope) => ⟨.ok (.ok ()), scope, (st, sts)⟩
    | (.ok false, scope) =>
      let ended := p.run c index scope st
      match ended.result with
      | .ok (.ok ()) =>
        let others := runAll c rest (index + 1) ended.scope sts
        ⟨others.result, others.scope, (ended.own, others.own)⟩
      | failed => ⟨failed, ended.scope, (ended.own, sts)⟩

/-- What a solver keeps between runs. -/
structure State (solver : Solver M S sh) where
  phases : PhaseStates solver.phases
  /-- The next run, or the one under way, was asked to stop. -/
  interrupted : Bool := false

/-- What a solver begins with. -/
def start (solver : Solver M S sh) : solver.State := { phases := startAll solver.phases }

/-- What a run leads to. -/
structure Outcome (S : Type) (sh : Shape) where
  result : Except PlanError S
  events : List (Event S sh)

/-- A run that broke off, and what it had announced by then. -/
structure Collapse (S : Type) (sh : Shape) where
  fault : Fault
  events : List (Event S sh)

/-- Ends a run all of whose phases are done. A request to stop is done with as well; one upon the
last event holds for the next run. -/
def finish {solver : Solver M S sh} (c : Conditions S sh) (scope : Scope S sh) (st : solver.State) :
    Outcome S sh × solver.State :=
  match scope.best with
  | none => (⟨.ok scope.director.solution, scope.events.toList⟩, st)
  | some best =>
    let (_, last) := (Search.fire c (.solvingEnded best.solution scope.interrupted)).run
      { scope with interrupted := false }
    (⟨.ok best.solution, last.events.toList⟩, { st with interrupted := last.interrupted })

/-- Runs the solver on a solution. The seed from outside is used unless the solver has its own. A
run that was asked to stop before it began is cancelled, and then the request is done with. -/
def solve (solver : Solver M S sh) (around : Surroundings S sh) (entropy : Nat) (solution : S)
    (st : solver.State) : Except (Collapse S sh) (Outcome S sh × solver.State) :=
  if st.interrupted then
    .ok (⟨.error .cancelled, []⟩, { st with interrupted := false })
  else
    let c : Conditions S sh :=
      { around with termination := solver.termination, mode := solver.mode }
    let seed := solver.seed.getD entropy
    let (started, scope) := (Search.start c).run
      { director := { solution }, generator := Random.Generator.ofSeed seed.toUInt64 }
    match started with
    | .error fault => .error ⟨fault, scope.events.toList⟩
    | .ok () =>
      let ended := runAll c solver.phases 0 scope st.phases
      let st : solver.State := { phases := ended.own }
      match ended.result with
      | .error fault => .error ⟨fault, ended.scope.events.toList⟩
      | .ok (.error e) => .ok (⟨.error e, ended.scope.events.toList⟩, st)
      | .ok (.ok ()) => .ok (finish c ended.scope st)

def describe (solver : Solver M S sh) (st : solver.State) : String :=
  Text.record "Solver"
    [("phases", Text.bracketed (describeAll solver.phases st.phases)),
     ("termination", Text.optional (solver.termination.map Termination.describe)),
     ("environment_mode", solver.mode.describe),
     ("random_seed", Text.optional (solver.seed.map toString))]

end Solver

end PlanSearch
