import PlanSearch.Nearby.Distribution
import PlanSearch.Nearby.Matrix
import PlanSearch.Selector.Mimic

/-!
# Nearby candidates

The candidates of another selector by their distance from a remembered one: from the nearest to the
farthest, or by drawn ranks. The destinations are collected once per phase.
-/

namespace PlanSearch

namespace Selector

variable {M S C : Type}

/-- What a nearby selector keeps. -/
structure NearbyState (child : Selector M S C) where
  child : child.State
  matrix : Option (Nearby.Matrix C) := none
  /-- What was remembered when the pass began. -/
  origin : Option C := none
  rank : Nat := 0

/-- Collects the destinations. -/
def NearbyState.collect {child : Selector M S C} (limit : Option Nat) (set : Setting S)
    (st : NearbyState child) : Draw M (NearbyState child) := do
  let (destinations, inner) ← child.pass set st.child
  return { st with child := inner, matrix := some { destinations, limit } }

variable [DecidableEq C]

/-- The destination of a rank. -/
def NearbyState.destination {child : Selector M S C} (meter : S → Nearby.Meter C) (s : S)
    (origin : C) (rank : Nat) (st : NearbyState child) : Draw M (Option C × NearbyState child) :=
  match st.matrix with
  | none => pure (none, st)
  | some matrix => do
    let (c, matrix) ← Draw.lift (matrix.destination (meter s) origin rank)
    return (c, { st with matrix := some matrix })

/-- The next destination: that of the next rank, or that of a drawn one. -/
def NearbyState.next {child : Selector M S C} (recorder : Recorder M C) (meter : S → Nearby.Meter C)
    (distribution : Option Nearby.Distribution) (s : S) (st : NearbyState child) :
    Draw M (Option C × NearbyState child) := do
  match distribution with
  | none =>
    match st.origin with
    | none => return (none, st)
    | some origin =>
      let (c, st) ← st.destination meter s origin st.rank
      return (c, if c.isSome then { st with rank := st.rank + 1 } else st)
  | some distribution =>
    match ← recorder.get, st.matrix with
    | some origin, some matrix =>
      if matrix.rowLength = 0 then return (none, st)
      let rank ← Draw.generate (distribution.draw matrix.rowLength)
      st.destination meter s origin rank
    | _, _ => return (none, st)

/-- The candidates of a selector whose passes end by their distance from a remembered one. -/
def byDistance (child : Selector M S C) (recorder : Recorder M C) (meter : S → Nearby.Meter C)
    (distribution : Option Nearby.Distribution) (limit : Option Nat) : Selector M S C where
  State := NearbyState child
  start := { child := child.start }
  neverEnding := distribution.isSome
  size s st :=
    match st.matrix with
    | some matrix => .ok matrix.rowLength
    | none => do
      let size ← child.size s st.child
      return match limit with
        | some limit => min limit size
        | none => size
  handle hook set st := do
    let inner ← child.handle hook set st.child
    let st := { st with child := inner }
    match hook with
    | .phaseStarted => st.collect limit set
    | .phaseEnded => return { st with matrix := none, origin := none }
    | .stepStarted | .stepEnded => return st
  restart set st := do
    let st ← if st.matrix.isNone then st.collect limit set else pure st
    let origin ← recorder.get
    return { st with rank := 0, origin }
  next set st := st.next recorder meter distribution set.solution
  describe st := Text.record "NearbySelector"
    [("child", child.describe st.child), ("origin", recorder.describe),
     ("random", Text.optional (distribution.map Nearby.Distribution.describe)),
     ("limit", Text.optional (limit.map toString))]

/-- The candidates of a selector by their distance from a remembered one; its passes have to end. -/
def nearby (child : Selector M S C) (recorder : Recorder M C) (meter : S → Nearby.Meter C)
    (distribution : Option Nearby.Distribution) (limit : Option Nat) :
    Except SelectorError (Selector M S C) :=
  if child.neverEnding then .error (.neverEndingChild "nearby selector")
  else .ok (child.byDistance recorder meter distribution limit)

end Selector

end PlanSearch
