import PlanSearch.Config.Read

/-!
# Writing settings as documents

Every field is written, those without a value as nothing. Floats that are infinite or no number are
written as nothing, too.
-/

namespace PlanSearch.Config

open Document

/-- A value, or nothing. -/
def writeOption {α : Type} (write : α → Document) : Option α → Document
  | none => null
  | some a => write a

def writeCount (n : Nat) : Document := integer n

def writeReal (x : Float) : Document := if x.isFinite then real x else null

def NearbySettings.write (c : NearbySettings) : Document :=
  table (fields.zip [
    writeOption text c.origin, writeOption text c.meter,
    writeOption writeCount c.blockMinimum, writeOption writeCount c.blockMaximum,
    writeOption writeReal c.blockRatio, writeOption writeReal c.blockUniform,
    writeOption writeCount c.linearMaximum, writeOption writeCount c.parabolicMaximum,
    writeOption writeReal c.betaAlpha, writeOption writeReal c.betaBeta])

def SelectorSettings.write (c : SelectorSettings) : Document :=
  table (fields.zip [
    writeOption text c.id, writeOption text c.mimic,
    writeOption (text ∘ nameOf cacheNames) c.cacheType,
    writeOption (text ∘ nameOf orderNames) c.order,
    writeOption text c.filter, writeOption text c.sorter,
    writeOption (text ∘ nameOf directionNames) c.sorterDirection,
    writeOption text c.weight, writeOption writeCount c.limit,
    writeOption NearbySettings.write c.nearby])

def ChangeSettings.entries (c : ChangeSettings) : List (String × Document) :=
  fields.zip [
    writeOption text c.variableName, writeOption SelectorSettings.write c.entities,
    writeOption SelectorSettings.write c.values]

def SubChainSettings.entries (c : SubChainSettings) : List (String × Document) :=
  fields.zip [
    writeOption text c.variableName, writeOption writeCount c.minimumSize,
    writeOption writeCount c.maximumSize, writeOption truth c.reversingToo,
    writeOption SelectorSettings.write c.runs, writeOption SelectorSettings.write c.values]

mutual

def MoveSelectorSettings.write : MoveSelectorSettings → Document
  | .change c => table (("type", text "change_move_selector") :: c.entries)
  | .subChainChange c => table (("type", text "sub_chain_change_move_selector") :: c.entries)
  | .union children =>
    table [("type", text "union_move_selector"),
      ("selectors", list (MoveSelectorSettings.writeAll children))]

def MoveSelectorSettings.writeAll : List MoveSelectorSettings → List Document
  | [] => []
  | c :: rest => MoveSelectorSettings.write c :: MoveSelectorSettings.writeAll rest

end

mutual

def TerminationSettings.write : TerminationSettings → Document
  | .node c children =>
    table (TerminationSettings.fields.zip [
      writeOption writeCount c.seconds, writeOption writeCount c.milliseconds,
      writeOption writeCount c.steps, writeOption writeCount c.unimprovedSteps,
      writeOption text c.bestScore, writeOption (text ∘ nameOf styleNames) c.style,
      list (TerminationSettings.writeAll children)])

def TerminationSettings.writeAll : List TerminationSettings → List Document
  | [] => []
  | c :: rest => TerminationSettings.write c :: TerminationSettings.writeAll rest

end

def AcceptorSettings.write (c : AcceptorSettings) : Document :=
  table (fields.zip [
    writeOption writeCount c.entityTabu, writeOption writeCount c.valueTabu,
    writeOption writeCount c.moveTabu, writeOption writeCount c.undoMoveTabu,
    writeOption truth c.aspiration, writeOption text c.startingTemperature,
    writeOption writeCount c.lateAcceptance, writeOption truth c.lateAcceptanceHillClimbing])

def ForagerSettings.write (c : ForagerSettings) : Document :=
  table (fields.zip [
    writeOption writeCount c.acceptedLimit,
    writeOption (text ∘ nameOf pickEarlyNames) c.pickEarly])

def ConstructionSettings.entries (c : ConstructionSettings) : List (String × Document) :=
  fields.zip [
    text (nameOf constructionNames c.kind), writeOption text c.variableName,
    writeOption TerminationSettings.write c.termination]

def LocalSearchSettings.entries (c : LocalSearchSettings) : List (String × Document) :=
  fields.zip [
    writeOption AcceptorSettings.write c.acceptor, writeOption ForagerSettings.write c.forager,
    writeOption MoveSelectorSettings.write c.moveSelector,
    writeOption TerminationSettings.write c.termination, writeOption writeCount c.selectedLimit]

def PhaseSettings.write : PhaseSettings → Document
  | construction c => table (("type", text "construction_heuristic") :: c.entries)
  | localSearch c => table (("type", text "local_search") :: c.entries)

def SolverSettings.write (c : SolverSettings) : Document :=
  table (fields.zip [
    text (nameOf modeNames c.mode), writeOption writeCount c.seed,
    writeOption TerminationSettings.write c.termination, list (c.phases.map PhaseSettings.write)])

end PlanSearch.Config
