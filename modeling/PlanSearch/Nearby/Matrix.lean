import PlanSearch.Fault
import PlanSearch.Scale
import PlanSearch.Text.Layout

/-!
# Destinations by distance

For every origin that was asked about, the destinations are kept in the order of their distance from
it. Destinations at the same distance keep their order, and a limit cuts the rows off.
-/

namespace PlanSearch.Nearby

/-- The destinations, and those nearest to the origins asked about so far. -/
structure Matrix (C : Type) where
  destinations : Array C
  limit : Option Nat
  rows : List (C × Array C) := []

/-- The distance from an origin to a destination. -/
abbrev Meter (C : Type) := C → C → Except Fault Float

namespace Matrix

variable {C : Type}

/-- How many destinations a row has. -/
def rowLength (m : Matrix C) : Nat :=
  match m.limit with
  | some limit => min limit m.destinations.size
  | none => m.destinations.size

/-- All destinations, the nearest first. -/
def ranking (destinations : List C) (meter : Meter C) (origin : C) : Except Fault (List C) := do
  let measured ← destinations.mapM fun d => do return (← meter origin d, d)
  return (measured.mergeSort fun a b => Decimal.notAfter a.1 b.1).map Prod.snd

variable [DecidableEq C]

/-- The row of an origin, if it is there. -/
def row? (m : Matrix C) (origin : C) : Option (Array C) := m.rows.lookup origin

/-- Makes the row of an origin, in place of one that is there. -/
def addRow (m : Matrix C) (meter : Meter C) (origin : C) : Except Fault (Matrix C) := do
  let ranked ← ranking m.destinations.toList meter origin
  let others := m.rows.filter fun (o, _) => o ≠ origin
  return { m with rows := (origin, (ranked.take m.rowLength).toArray) :: others }

/-- The matrix with a row for an origin. -/
def ensureRow (m : Matrix C) (meter : Meter C) (origin : C) : Except Fault (Matrix C) :=
  if (m.row? origin).isSome then .ok m else m.addRow meter origin

/-- The destination of a rank, where the nearest one has rank zero. -/
def destination (m : Matrix C) (meter : Meter C) (origin : C) (rank : Nat) :
    Except Fault (Option C × Matrix C) := do
  let m ← m.ensureRow meter origin
  return ((m.row? origin).bind fun row => row[rank]?, m)

omit [DecidableEq C] in
/-- The sizes of the matrix. -/
def describe (m : Matrix C) : String :=
  Text.record "NearbyDistanceMatrix"
    [("destinations", toString m.destinations.size), ("rows", toString m.rows.length),
     ("limit", Text.optional (m.limit.map toString))]

end Matrix

end PlanSearch.Nearby
