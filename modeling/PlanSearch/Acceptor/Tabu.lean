import PlanSearch.Fault
import PlanSearch.Text.Layout

/-!
# What recent steps did

A list of keys remembers, for a number of steps, what was done in a step. Keys that are remembered
are tabu. A key that is recorded again is remembered from then on.
-/

namespace PlanSearch

/-- The keys of the latest steps. -/
structure Tabu (K : Type) where
  /-- How many steps a key is remembered for. -/
  size : Nat
  /-- What is tabu is let through if it beats the best score. -/
  aspiration : Bool
  /-- The step in which each key was recorded last. -/
  latest : List (K × Nat) := []
  /-- Every recording, the oldest first. -/
  sequence : List (K × Nat) := []

namespace Tabu

variable {K : Type} [BEq K]

/-- The number of keys that are tabu. -/
def length (t : Tabu K) : Nat := t.latest.length

/-- One of the keys is tabu. -/
def isTabu (t : Tabu K) (keys : List K) : Bool :=
  keys.any fun key => t.latest.any fun (other, _) => key == other

/-- A candidate with the given keys may be picked. -/
def accepts (t : Tabu K) (keys : List K) (beatsBest : Bool) : Bool :=
  !t.isTabu keys || (t.aspiration && beatsBest)

/-- Records keys in a step. -/
def record (t : Tabu K) (keys : List K) (step : Nat) : Tabu K :=
  { t with
    latest := keys.foldl
      (fun latest key => (key, step) :: latest.filter fun (other, _) => !(key == other)) t.latest
    sequence := t.sequence ++ keys.map fun key => (key, step) }

/-- Forgets what was recorded before the latest steps. -/
def expire (size step : Nat) : List (K × Nat) → List (K × Nat) → List (K × Nat) × List (K × Nat)
  | latest, [] => (latest, [])
  | latest, (key, recorded) :: rest =>
    if step ≤ Count.saturated (recorded + size) then (latest, (key, recorded) :: rest)
    else expire size step (latest.filter fun (other, n) => !(key == other && recorded == n)) rest

/-- Begins a step. -/
def stepStarted (t : Tabu K) (step : Nat) : Tabu K :=
  let (latest, sequence) := expire t.size step t.latest t.sequence
  { t with latest, sequence }

/-- Forgets everything. -/
def clear (t : Tabu K) : Tabu K := { t with latest := [], sequence := [] }

def describe (t : Tabu K) : String :=
  Text.record "TabuAcceptor"
    [("tabu_size", toString t.size), ("aspiration_enabled", Text.truth t.aspiration),
     ("tabu_len", toString t.length)]

end Tabu

end PlanSearch
