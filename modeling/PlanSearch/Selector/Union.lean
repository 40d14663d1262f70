import PlanSearch.Selector.Basic

/-!
# Several selectors as one

A union yields the candidates of its children one child after the other, or draws a child for every
candidate, each with a weight that is its size.
-/

namespace PlanSearch

namespace Selector

variable {M S C : Type}

/-- The states of several selectors. -/
def States : List (Selector M S C) → Type
  | [] => Unit
  | child :: rest => child.State × States rest

namespace States

/-- The states at the start. -/
def start : (children : List (Selector M S C)) → States children
  | [] => ()
  | child :: rest => (child.start, start rest)

/-- Changes every state in turn. -/
def mapM (f : (child : Selector M S C) → child.State → Draw M child.State) :
    (children : List (Selector M S C)) → States children → Draw M (States children)
  | [], _ => pure ()
  | child :: rest, (st, sts) => do
    let st ← f child st
    let sts ← mapM f rest sts
    return (st, sts)

/-- The sizes of all selectors. -/
def sizes (s : S) : (children : List (Selector M S C)) → States children → Except Fault (List Nat)
  | [], _ => .ok []
  | child :: rest, (st, sts) => do
    let size ← child.size s st
    let others ← sizes s rest sts
    return size :: others

/-- All selectors, each as a text. -/
def describe : (children : List (Selector M S C)) → States children → List String
  | [], _ => []
  | child :: rest, (st, sts) => child.describe st :: describe rest sts

/-- Does something with the selector at an index, if there is one. -/
def visit {α : Type} (f : (child : Selector M S C) → child.State → Draw M (α × child.State)) :
    (children : List (Selector M S C)) → Nat → States children →
    Draw M (Option α × States children)
  | [], _, sts => return (none, sts)
  | child :: _, 0, (st, sts) => do
    let (a, st) ← f child st
    return (some a, st, sts)
  | _ :: rest, i + 1, (st, sts) => do
    let (a, sts) ← visit f rest i sts
    return (a, st, sts)

/-- A candidate of the selector at an index. A pass of it that is over is followed by another. -/
def nextAt (set : Setting S) (children : List (Selector M S C)) (i : Nat) (sts : States children) :
    Draw M (Option C × States children) := do
  let (candidate, sts) ← visit (fun child st => child.nextOrRestart set st) children i sts
  return (candidate.join, sts)

/-- A candidate of the first of the selectors at the given indices that has one. -/
def nextAmong (set : Setting S) (children : List (Selector M S C)) : List Nat → States children →
    Draw M (Option C × States children)
  | [], sts => return (none, sts)
  | i :: rest, sts => do
    let (candidate, sts) ← nextAt set children i sts
    match candidate with
    | some c => return (some c, sts)
    | none => nextAmong set children rest sts

/-- The next candidate in order, from the selector at an index on, and the index of the selector it
came from. -/
def nextFrom (set : Setting S) : (children : List (Selector M S C)) → Nat → States children →
    Draw M (Option C × Nat × States children)
  | [], _, sts => return (none, 0, sts)
  | _ :: rest, i + 1, (st, sts) => do
    let (candidate, i, sts) ← nextFrom set rest i sts
    return (candidate, i + 1, st, sts)
  | child :: rest, 0, (st, sts) => do
    let (candidate, st) ← child.next set st
    match candidate with
    | some c => return (some c, 0, st, sts)
    | none =>
      let (candidate, i, sts) ← nextFrom set rest 0 sts
      return (candidate, i + 1, st, sts)

end States

/-- The sum of sizes, as far as it fits a word. -/
def totalSize : Nat → List Nat → Except Fault Nat
  | total, [] => .ok total
  | total, size :: rest => do
    let total ← Count.checked (total + size)
    totalSize total rest

/-- The index of the child that a draw below the total size stands for. -/
def childAt : List Nat → Nat → Nat
  | [], _ => 0
  | size :: rest, r => if r < size then 0 else childAt rest (r - size) + 1

/-- The candidates of several selectors. -/
def union (children : List (Selector M S C)) (isRandom : Bool) : Selector M S C where
  State := Nat × States children
  start := (0, States.start children)
  neverEnding := isRandom || children.any Selector.neverEnding
  size s st := do totalSize 0 (← States.sizes s children st.2)
  handle hook set st := do
    return (st.1, ← States.mapM (fun child => child.handle hook set) children st.2)
  restart set st := do
    return (0, ← States.mapM (fun child => child.restart set) children st.2)
  next set st := do
    if isRandom then
      let sizes ← Draw.lift (States.sizes set.solution children st.2)
      let total ← Draw.lift (totalSize 0 sizes)
      if total = 0 then return (none, st)
      let picked := childAt sizes (← Draw.below total)
      -- The picked child may come up empty this time; then the others stand in for it.
      let others := (List.range children.length).filter (· != picked)
      let (candidate, sts) ← States.nextAmong set children (picked :: others) st.2
      return (candidate, st.1, sts)
    else States.nextFrom set children st.1 st.2
  describe st := Text.record "UnionSelector"
    [("children", Text.bracketed (States.describe children st.2)),
     ("random", Text.truth isRandom)]

end Selector

end PlanSearch
