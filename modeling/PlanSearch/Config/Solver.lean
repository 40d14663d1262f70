import PlanSearch.Config.Selector
import PlanSearch.Text.Split

/-!
# Settings of a solver

When to stop, which phases to run and how each of them searches. Durations are counted in
nanoseconds.
-/

namespace PlanSearch.Config

/-- How several criteria are joined. -/
inductive CompositionStyle where
  /-- All of them have to be met. -/
  | and
  /-- One of them suffices. -/
  | or
  deriving DecidableEq, Repr, Inhabited

/-- The criteria given at one node. -/
structure Limits where
  seconds : Option Nat := none
  milliseconds : Option Nat := none
  steps : Option Nat := none
  unimprovedSteps : Option Nat := none
  bestScore : Option String := none
  style : Option CompositionStyle := none
  deriving Inhabited

/-- When to stop: criteria, and nested ones. -/
inductive TerminationSettings where
  | node (limits : Limits) (children : List TerminationSettings)

namespace TerminationSettings

instance : Inhabited TerminationSettings := ⟨.node {} []⟩

def limits : TerminationSettings → Limits
  | .node limits _ => limits

def children : TerminationSettings → List TerminationSettings
  | .node _ children => children

def style (c : TerminationSettings) : CompositionStyle := c.limits.style.getD .or

end TerminationSettings

/-- The longest duration: so many whole seconds fit a word. -/
def maxDuration : Nat := 0x10000000000000000 * 1000000000 - 1

/-- The time limit, seconds and milliseconds added. -/
def Limits.time (c : Limits) : Except Fault (Option Nat) :=
  match c.seconds, c.milliseconds with
  | none, none => .ok none
  | s, m =>
    let total := s.getD 0 * 1000000000 + m.getD 0 * 1000000
    if total ≤ maxDuration then .ok (some total) else .error .overflow

namespace TerminationSettings

mutual

/-- No criterion is given anywhere. -/
def isEmpty : TerminationSettings → Except Fault Bool
  | .node limits children =>
    match limits.time with
    | .error e => .error e
    | .ok time =>
      if time.isNone && limits.steps.isNone && limits.unimprovedSteps.isNone &&
          limits.bestScore.isNone then areEmpty children
      else .ok false

/-- No criterion is given anywhere in a list. -/
def areEmpty : List TerminationSettings → Except Fault Bool
  | [] => .ok true
  | c :: rest =>
    match isEmpty c with
    | .ok true => areEmpty rest
    | other => other

end

mutual

/-- Checks the settings. -/
def validate : TerminationSettings → Except Flaw Unit
  | .node limits children =>
    if limits.bestScore.any fun s => (Text.trim s.toList).isEmpty then .error .emptyBestScoreLimit
    else validateAll children

/-- Checks a list of settings. -/
def validateAll : List TerminationSettings → Except Flaw Unit
  | [] => .ok ()
  | c :: rest =>
    match validate c with
    | .error e => .error e
    | .ok () => validateAll rest

end

end TerminationSettings

/-- Which moves a local search accepts. -/
structure AcceptorSettings where
  entityTabu : Option Nat := none
  valueTabu : Option Nat := none
  moveTabu : Option Nat := none
  undoMoveTabu : Option Nat := none
  aspiration : Option Bool := none
  startingTemperature : Option String := none
  lateAcceptance : Option Nat := none
  lateAcceptanceHillClimbing : Option Bool := none
  deriving Inhabited

namespace AcceptorSettings

def aspirationEnabled (c : AcceptorSettings) : Bool := c.aspiration.getD true

def hillClimbing (c : AcceptorSettings) : Bool := c.lateAcceptanceHillClimbing.getD true

def validate (c : AcceptorSettings) : Except Flaw Unit := do
  checkNotZero "entity_tabu_size" c.entityTabu
  checkNotZero "value_tabu_size" c.valueTabu
  checkNotZero "move_tabu_size" c.moveTabu
  checkNotZero "undo_move_tabu_size" c.undoMoveTabu
  checkNotZero "late_acceptance_size" c.lateAcceptance

end AcceptorSettings

/-- When a forager stops looking for a better move. -/
inductive PickEarly where
  | never
  | firstBestScoreImproving
  | firstLastStepScoreImproving
  deriving DecidableEq, Repr, Inhabited

def PickEarly.describe : PickEarly → String
  | never => "Never"
  | firstBestScoreImproving => "FirstBestScoreImproving"
  | firstLastStepScoreImproving => "FirstLastStepScoreImproving"

/-- How a local search picks among accepted moves. -/
structure ForagerSettings where
  acceptedLimit : Option Nat := none
  pickEarly : Option PickEarly := none
  deriving Inhabited

def ForagerSettings.validate (c : ForagerSettings) : Except Flaw Unit :=
  checkNotZero "accepted_count_limit" c.acceptedLimit

/-- The kinds of construction heuristics. -/
inductive ConstructionKind where
  | firstFit
  deriving DecidableEq, Repr, Inhabited

structure ConstructionSettings where
  kind : ConstructionKind := .firstFit
  variableName : Option String := none
  termination : Option TerminationSettings := none
  deriving Inhabited

structure LocalSearchSettings where
  acceptor : Option AcceptorSettings := none
  forager : Option ForagerSettings := none
  moveSelector : Option MoveSelectorSettings := none
  termination : Option TerminationSettings := none
  selectedLimit : Option Nat := none
  deriving Inhabited

def LocalSearchSettings.validate (c : LocalSearchSettings) : Except Flaw Unit := do
  checkEach AcceptorSettings.validate c.acceptor.toList
  checkEach ForagerSettings.validate c.forager.toList
  checkEach (MoveSelectorSettings.validate .random) c.moveSelector.toList
  checkEach TerminationSettings.validate c.termination.toList
  checkNotZero "selected_count_limit" c.selectedLimit

/-- Settings of a phase. -/
inductive PhaseSettings where
  | construction (c : ConstructionSettings)
  | localSearch (c : LocalSearchSettings)

namespace PhaseSettings

def termination : PhaseSettings → Option TerminationSettings
  | construction c => c.termination
  | localSearch c => c.termination

def validate : PhaseSettings → Except Flaw Unit
  | construction c => checkEach TerminationSettings.validate c.termination.toList
  | localSearch c => c.validate

end PhaseSettings

/-- What a solver promises about its runs. -/
inductive EnvironmentMode where
  | nonReproducible
  /-- Equal seeds lead to equal runs. -/
  | reproducible
  /-- Besides, every score is checked by calculating it anew. -/
  | fullAssert
  deriving DecidableEq, Repr, Inhabited

namespace EnvironmentMode

def isAsserted (m : EnvironmentMode) : Bool := m == fullAssert

def describe : EnvironmentMode → String
  | nonReproducible => "NonReproducible"
  | reproducible => "Reproducible"
  | fullAssert => "FullAssert"

end EnvironmentMode

structure SolverSettings where
  mode : EnvironmentMode := .nonReproducible
  seed : Option Nat := none
  termination : Option TerminationSettings := none
  phases : List PhaseSettings := []
  deriving Inhabited

namespace SolverSettings

def timeLimit (c : SolverSettings) : Except Fault (Option Nat) :=
  match c.termination with
  | none => .ok none
  | some t => t.limits.time

def validate (c : SolverSettings) : Except Flaw Unit := do
  checkEach TerminationSettings.validate c.termination.toList
  checkEach PhaseSettings.validate c.phases

/-- The seed of the runs; none if it is to come from outside. -/
def effectiveSeed (c : SolverSettings) : Option Nat :=
  match c.seed, c.mode with
  | some seed, _ => some seed
  | none, .nonReproducible => none
  | none, _ => some 0

end SolverSettings

end PlanSearch.Config
