import PlanSearch.Scale
import PlanSearch.Score.Basic

/-!
# How far a search has come

A gradient is a share between zero and one, or minus one where there is nothing to go by.
-/

namespace PlanSearch

namespace Gradient

open Scale

variable {α : Type} [Scale α]

/-- What stands for a share that cannot be told. -/
def unsupported : α := ofCount 0 - ofCount 1

/-- The smaller of two numbers, and the second one of two zeros. -/
def least (a b : α) : α := if a < b then a else b

/-- At most the whole. -/
def capped (a : α) : α := least a (ofCount 1)

/-- The least of the shares that can be told. -/
def minimum (gradients : List α) : α :=
  match gradients.filter fun g => ofCount 0 ≤ g with
  | [] => unsupported
  | g :: rest => capped (rest.foldl least g)

/-- The share of a way that is done, where every part of the way is given by its start, its target
and the place that was reached. All parts but the last take three quarters of the weight that is
left. A place beyond its target settles all later parts as done, one before its start as not. -/
def along : α → α → List (α × α × α) → α
  | done, _, [] => done
  | done, weight, (start, target, level) :: rest =>
    let width := if rest.isEmpty then weight else weight * (ofCount 3 / ofCount 4)
    let left := weight - width
    if target < level then done + (width + left)
    else if level < target then
      if level < start then done
      else along (done + width * (level - start) / (target - start)) left rest
    else along (done + width) left rest

/-- How far a score has come from a start to a target, level by level. -/
def ofScore {sh : Shape} (start target score : Score sh) : α :=
  let levels (s : Score sh) : List α := s.toList.map ofLevel
  capped (along (ofCount 0) (ofCount 1) ((levels start).zip ((levels target).zip (levels score))))

/-- How much of a count is done. -/
def ofSteps (steps limit : Nat) : α :=
  if limit = 0 then ofCount 1 else capped (ofCount steps / ofCount limit)

/-- A duration in seconds. -/
def seconds (nanoseconds : Nat) : α :=
  ofCount (nanoseconds / 1000000000) + ofCount (nanoseconds % 1000000000) / ofCount (1000000000)

/-- How much of a duration has passed. -/
def ofTime (elapsed limit : Nat) : α :=
  if limit = 0 then ofCount 1 else capped (seconds elapsed / seconds limit)

end Gradient

end PlanSearch
