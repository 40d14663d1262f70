import PlanSearch.Chain.Basic
import PlanSearch.Config.Error
import PlanSearch.Fault
import PlanSearch.Move.Basic
import PlanSearch.Score.Literal

/-!
# Why a search fails

Either it cannot be built from its settings, or it stops with an error.
-/

namespace PlanSearch

/-- Why something cannot be built from its settings. -/
inductive BuildError where
  | config (e : Config.ConfigError)
  | selector (e : SelectorError)
  /-- The text given for a setting is no score. -/
  | literal (setting text : String) (e : LiteralError)
  | negativeTemperature (temperature : String)
  | zeroTemperature (temperature : String)
  | noVariable
  /-- No variable is named although there are several. -/
  | ambiguousVariable (count : Nat)
  /-- Runs of a chain are to be moved by a variable without chains. -/
  | plainVariable (name : Option String)
  /-- Annealing without a termination that tells how far the search has come. -/
  | noGradient
  | fault (f : Fault)

/-- The reason in words. -/
def BuildError.message : BuildError → String
  | config e => e.message
  | selector e => e.message
  | literal setting text e => setting ++ " (" ++ text ++ "): " ++ e.message
  | negativeTemperature temperature =>
    "simulated annealing starting temperature (" ++ temperature ++ ") cannot have a negative level"
  | zeroTemperature temperature =>
    "simulated annealing starting temperature (" ++ temperature ++ ") must be above zero"
  | noVariable => "no planning variable is registered"
  | ambiguousVariable count =>
    "variable_name is required when " ++ toString count ++ " variables are registered"
  | plainVariable name =>
    "sub_chain_change_move_selector needs a chained variable, got " ++
      Text.optional (name.map Text.quoted)
  | noGradient =>
    "simulated annealing needs a phase or solver termination with a time gradient, such as a " ++
      "time, step count or best score limit"
  | fault _ => "no answer"

/-- Why a search stops without a solution. -/
inductive PlanError where
  | build (e : BuildError)
  | chain (e : ChainError)
  /-- A local search on an uninitialized solution has no move to make. -/
  | noDoableMove (phase : Nat)
  /-- An entity cannot be given a value. -/
  | noPlacement (phase : Nat) (entity : PlanningRef)
  /-- The search was asked to stop before it began. -/
  | cancelled
  /-- Taking a move back did not restore the score. -/
  | undoMismatch (move restored expected : String)
  /-- A move has another score than it had when it was tried. -/
  | stepMismatch (actual expected : String)

/-- The name of the error. -/
def PlanError.kind : PlanError → String
  | build _ => "Config"
  | chain e => e.kind
  | noDoableMove _ => "Stall"
  | noPlacement .. => "Stall"
  | cancelled => "Cancelled"
  | undoMismatch .. => "Internal"
  | stepMismatch .. => "Internal"

/-- The reason in words. -/
def PlanError.message : PlanError → String
  | build e => "configuration error: " ++ e.message
  | chain e => e.message
  | noDoableMove phase =>
    "stalled: local search phase " ++ toString phase ++ " found no doable move on an " ++
      "uninitialized solution; run a construction heuristic first"
  | noPlacement phase entity =>
    "stalled: construction heuristic phase " ++ toString phase ++ " found no doable move for " ++
      entity.describe
  | cancelled => "solver was cancelled"
  | undoMismatch move restored expected =>
    "internal error: undo of " ++ move ++ " restored score " ++ restored ++ ", expected " ++
      expected
  | stepMismatch actual expected =>
    "internal error: step score " ++ actual ++ " differs from the evaluated score " ++ expected

end PlanSearch
