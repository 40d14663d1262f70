import PlanSearch.Acceptor.Forager

/-!
# Acceptors and foragers from settings
-/

namespace PlanSearch.Assembly

open Config

variable {S : Type} {sh : Shape}

/-- Annealing from a temperature that is given as a text. -/
def annealing (text : String) : Except BuildError (Acceptor S sh) :=
  match Score.read sh text with
  | .error e => .error (.literal "simulated_annealing_starting_temperature" text e)
  | .ok temperature => (Annealing.ofTemperature temperature).map .annealing

/-- One acceptor per setting that is given, joined. -/
def acceptor (c : AcceptorSettings) : Except BuildError (Acceptor S sh) := do
  c.validate.mapError fun flaw => .config (.invalid flaw)
  let tabu {K : Type} (size : Nat) : Tabu K := { size, aspiration := c.aspirationEnabled }
  let annealings ← c.startingTemperature.toList.mapM annealing
  return .combine <|
    c.entityTabu.toList.map (fun size => .entityTabu (tabu size)) ++
    c.valueTabu.toList.map (fun size => .valueTabu (tabu size)) ++
    c.moveTabu.toList.map (fun size => .moveTabu (tabu size)) ++
    c.undoMoveTabu.toList.map (fun size => .undoMoveTabu (tabu size)) ++
    annealings ++
    c.lateAcceptance.toList.map fun size => .lateAcceptance (.ofSize size c.hillClimbing)

/-- How many moves a step with tabu gathers unless told otherwise. -/
def tabuLimit : Nat := 1000

/-- A forager for an acceptor. Without tabu the first accepted move is enough unless told
otherwise. -/
def forager (c : ForagerSettings) (a : Acceptor S sh) : Except BuildError (Forager S sh) := do
  c.validate.mapError fun flaw => .config (.invalid flaw)
  return .ofLimit (c.acceptedLimit.getD (if a.hasTabu then tabuLimit else 1))
    (c.pickEarly.getD .never)

end PlanSearch.Assembly
