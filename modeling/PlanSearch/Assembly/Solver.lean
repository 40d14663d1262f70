import PlanSearch.Assembly.Acceptor
import PlanSearch.Assembly.Selector
import PlanSearch.Assembly.Termination
import PlanSearch.Config.Read
import PlanSearch.Search.Solver

/-!
# Solvers from settings

Settings without phases stand for a construction of every variable and a local search after that.
-/

namespace PlanSearch.Assembly

open Config

variable {S : Type} {sh : Shape}

/-- The placer of a variable. -/
def placer : RegisteredVariable S → Placer S
  | .plain v entityCount valueCount => .plain v entityCount valueCount
  | .chained v _ _ => .chained v

/-- A termination, if there are settings of one. -/
def terminationIfAny (c : Option TerminationSettings) :
    Except BuildError (Option (Termination sh)) :=
  match c with
  | none => .ok none
  | some c => termination c

def construction (r : Registry S) (c : ConstructionSettings) :
    Except BuildError (Construction S sh) := do
  let variable_ ← r.find c.variableName
  return { placer := placer variable_, termination := ← terminationIfAny c.termination }

/-- An acceptor that has to know how far the search has come needs a termination that can tell. -/
def checkGradient (a : Acceptor S sh) (own whole : Option (Termination sh)) :
    Except BuildError Unit :=
  let isTold := own.any Termination.supportsGradient || whole.any Termination.supportsGradient
  if a.needsGradient && !isTold then .error .noGradient else .ok ()

/-- The acceptor and the forager of a local search that runs under the given terminations. -/
def acceptance (c : LocalSearchSettings) (own whole : Option (Termination sh)) :
    Except BuildError (Acceptor S sh × Forager S sh) := do
  let a ← acceptor (c.acceptor.getD {})
  checkGradient a own whole
  return (a, ← forager (c.forager.getD {}) a)

/-- A local search in a solver with the given termination. -/
def localSearch (r : Registry S) (whole : Option (Termination sh)) (c : LocalSearchSettings) :
    Except BuildError (LocalSearch Memory S sh) :=
  andThen (c.validate.mapError fun flaw => BuildError.config (.invalid flaw)) fun _ =>
  andThen (terminationIfAny c.termination) fun own =>
  andThen (moveSelector r c.moveSelector .random) fun moves =>
  andThen (acceptance c own whole) fun (a, f) =>
  .ok (LocalSearch.withSelectedLimit
    { moves, memory := {}, acceptor := a, forager := f, termination := own } c.selectedLimit)

def phase (r : Registry S) (whole : Option (Termination sh)) :
    PhaseSettings → Except BuildError (Phase Memory S sh)
  | .construction c => andThen (construction r c) fun p => .ok (.construction p)
  | .localSearch c => andThen (localSearch r whole c) fun p => .ok (.localSearch p)

/-- The phases that settings describe, in order. -/
def phases (r : Registry S) (whole : Option (Termination sh)) :
    List PhaseSettings → Except BuildError (List (Phase Memory S sh))
  | [] => .ok []
  | c :: rest =>
    andThen (phase r whole c) fun p => andThen (phases r whole rest) fun ps => .ok (p :: ps)

/-- A construction of every variable and a local search. -/
def defaultPhases (r : Registry S) (whole : Option (Termination sh)) :
    Except BuildError (List (Phase Memory S sh)) :=
  andThen (localSearch r whole {}) fun p =>
  .ok (r.vars.map (fun v => .construction { placer := placer v }) ++ [.localSearch p])

/-- The solver that settings describe. -/
def solver (r : Registry S) (c : SolverSettings) : Except BuildError (Solver Memory S sh) :=
  andThen (c.validate.mapError fun flaw => BuildError.config (.invalid flaw)) fun _ =>
  andThen (terminationIfAny c.termination) fun termination =>
  andThen (if c.phases.isEmpty then defaultPhases r termination else phases r termination c.phases)
    fun phases => .ok { phases, termination, mode := c.mode, seed := c.effectiveSeed }

/-- Solves a problem with a solver made of settings. -/
def solve (r : Registry S) (around : Surroundings S sh) (entropy : Nat) (c : SolverSettings)
    (solution : S) : Except Fault (Except PlanError S) :=
  let made : Except BuildError (Solver Memory S sh) := solver r c
  match made with
  | .error (.fault e) => .error e
  | .error e => .ok (.error (.build e))
  | .ok solver => match solver.solve around entropy solution solver.start with
    | .error collapse => .error collapse.fault
    | .ok (o, _) => .ok o.result

/-- Solves a problem with the settings of a file, or with the default ones if there is no file. -/
def solveWithFile (r : Registry S) (around : Surroundings S sh) (entropy : Nat)
    (text : Option String) (solution : S) : Except Fault (Except PlanError S) :=
  match SolverSettings.ofFile SolverSettings.ofToml text with
  | .ok c => solve r around entropy c solution
  | .error .noText => solve r around entropy {} solution
  | .error e => .ok (.error (.build (.config e)))

end PlanSearch.Assembly
