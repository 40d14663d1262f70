import PlanSearch.Decimal.Notation
import PlanSearch.Error
import PlanSearch.Random.Generator
import PlanSearch.Score.Arithmetic
import PlanSearch.Termination.Gradient

/-!
# Simulated annealing

A move that makes things worse is accepted by chance. The chance depends on a temperature per level
of the score, and temperatures fall while the search goes on.
-/

namespace PlanSearch

open PlanSearch.Random

/-- The temperatures, one per level. -/
structure Annealing (sh : Shape) where
  starting : List Float
  temperatures : List Float

namespace Annealing

variable {sh : Shape}

/-- Annealing from a temperature given as a score, of which no level is negative and some level is
not zero. -/
def ofTemperature (temperature : Score sh) : Except BuildError (Annealing sh) :=
  if temperature.toList.any fun level => decide (level < 0) then
    .error (.negativeTemperature temperature.literal)
  else if temperature.toList.all fun level => level == 0 then
    .error (.zeroTemperature temperature.literal)
  else
    let starting := temperature.toList.map Int64.toFloat
    .ok { starting, temperatures := starting }

/-- Annealing can be made from a score exactly if no level is negative and some level is not zero, and
it begins at those levels. -/
theorem ofTemperature_eq_ok {temperature : Score sh} {a : Annealing sh} :
    ofTemperature temperature = .ok a ↔
      (∀ level ∈ temperature.toList, 0 ≤ level) ∧ (∃ level ∈ temperature.toList, level ≠ 0) ∧
        a.starting = temperature.toList.map Int64.toFloat ∧ a.temperatures = a.starting := by
  obtain ⟨starting, temperatures⟩ := a
  rw [ofTemperature]
  split
  · rename_i negative
    obtain ⟨level, member, below⟩ := List.any_eq_true.1 negative
    refine iff_of_false nofun fun valid => ?_
    exact Int64.not_lt.2 (valid.1 level member) (of_decide_eq_true below)
  rename_i nonneg
  split
  · rename_i zero
    refine iff_of_false nofun fun valid => ?_
    obtain ⟨level, member, some⟩ := valid.2.1
    exact some (by simpa using List.all_eq_true.1 zero level member)
  · rename_i some
    simp only [Bool.not_eq_true, List.any_eq_false, decide_eq_true_eq, Int64.not_lt] at nonneg
    simp only [Bool.not_eq_true, List.all_eq_false, beq_iff_eq] at some
    simp only [Except.ok.injEq, mk.injEq]
    constructor
    · rintro ⟨rfl, rfl⟩
      exact ⟨nonneg, some, rfl, rfl⟩
    · rintro ⟨-, -, rfl, rfl⟩
      exact ⟨rfl, rfl⟩

section Cooling

variable {α : Type} [Scale α] [OfScientific α]

/-- No temperature falls below this one. -/
def minimum : α := 1.0e-100

/-- A share between zero and one. -/
def clamped (x : α) : α := if x < 0.0 then 0.0 else if 1.0 < x then 1.0 else x

/-- The temperature that is left of a starting one. -/
def cooled (gradient starting : α) : α :=
  let left := starting * (1.0 - clamped gradient)
  if minimum < left then left else minimum

/-- The chance of a worsening, level by level. -/
def chanceOf [Neg α] (exp : α → α) (worsening : List Int64) (temperatures : List α) : α :=
  (worsening.zip temperatures).foldl
    (fun chance (delta, temperature) =>
      if 0 < delta then chance * exp (-Scale.ofLevel delta / temperature) else chance) 1.0

end Cooling

def phaseStarted (a : Annealing sh) : Annealing sh := { a with temperatures := a.starting }

/-- Cools down to how far the search has come. -/
def stepStarted (a : Annealing sh) (gradient : Float) : Annealing sh :=
  { a with temperatures := a.starting.map (cooled gradient) }

/-- The chance that a move is accepted. -/
def chance (a : Annealing sh) (lastStep move : Score sh) : Except Fault Float :=
  if move < lastStep then do
    let worsening ← lastStep.sub move
    return chanceOf Float.exp worsening.toList a.temperatures
  else .ok 1.0

/-- Decides whether a move may be picked. Nothing is drawn for a move that is good enough. -/
def accepts (a : Annealing sh) (lastStep move : Score sh) (g : Generator) :
    Except Fault (Bool × Generator) :=
  if move < lastStep then
    let (drawn, g) := g.nextUnit
    (a.chance lastStep move).map fun chance => (decide (drawn < chance), g)
  else .ok (true, g)

def describe (a : Annealing sh) : String :=
  let floats (xs : List Float) := Text.bracketed (xs.map Decimal.describe)
  Text.record "SimulatedAnnealingAcceptor"
    [("starting_temperatures", floats a.starting), ("temperatures", floats a.temperatures)]

end Annealing

end PlanSearch
