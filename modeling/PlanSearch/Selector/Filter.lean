import PlanSearch.Selector.Basic

/-!
# Fewer candidates

A filter passes over candidates that a test refuses; a limit ends a pass early.
-/

namespace PlanSearch

namespace Selector

variable {M S C : Type}

/-- Draws until a candidate is accepted. With a limit, so many refusals end the search. -/
def nextAccepted (child : Selector M S C) (accepts : S → C → Bool) (set : Setting S)
    (limit : Option Nat) : Nat → Nat → child.State → Draw M (Option C × child.State)
  | 0, _, _ => Draw.fail .exhausted
  | rounds + 1, refused, st => do
    let (candidate, st) ← child.next set st
    match candidate with
    | none => return (none, st)
    | some c =>
      if accepts set.solution c then return (some c, st)
      else if limit.any fun limit => limit ≤ refused + 1 then return (none, st)
      else nextAccepted child accepts set limit rounds (refused + 1) st

/-- The candidates that a test accepts. From a child that never ends, ten times as many refusals in
a row as it has candidates count as the end. -/
def filtering (child : Selector M S C) (accepts : S → C → Bool) : Selector M S C where
  State := child.State
  start := child.start
  cacheType := child.cacheType
  neverEnding := child.neverEnding
  size := child.size
  handle := child.handle
  restart := child.restart
  next set st := do
    let limit ←
      if child.neverEnding then do
        let size ← Draw.lift (child.size set.solution st)
        let limit ← Draw.lift (Count.checked (size * 10))
        pure (some (max limit 1))
      else pure none
    child.nextAccepted accepts set limit set.patience 0 st
  describe st := Text.record "FilteringSelector" [("child", child.describe st)]

/-- At most a given number of candidates per pass. -/
def limited (child : Selector M S C) (limit : Nat) : Selector M S C where
  State := child.State × Nat
  start := (child.start, 0)
  cacheType := child.cacheType
  neverEnding := false
  size s st := do return min (← child.size s st.1) limit
  handle hook set st := do return (← child.handle hook set st.1, st.2)
  restart set st := do return (← child.restart set st.1, 0)
  next set st := do
    if limit ≤ st.2 then return (none, st)
    let (candidate, inner) ← child.next set st.1
    return (candidate, inner, if candidate.isSome then st.2 + 1 else st.2)
  describe st := Text.record "SelectedCountLimitSelector"
    [("child", child.describe st.1), ("limit", toString limit)]

end Selector

end PlanSearch
