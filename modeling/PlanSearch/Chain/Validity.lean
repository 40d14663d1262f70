import PlanSearch.Chain.Basic

/-!
# The law of chains

Anchors are placed after nothing, at most one entity is placed after an element, every placed entity
leads to an anchor, and the index says exactly who is placed after whom. The law is stated once as a
proposition and once as a check that names the first breach it meets.
-/

namespace PlanSearch

namespace ChainGraph

/-- The path towards the anchor from one element leads to another. -/
inductive Leads (g : ChainGraph) : Handle → Handle → Prop
  | refl (h : Handle) : Leads g h h
  | step {h before root : Handle} :
    g.predecessor h = some before → Leads g before root → Leads g h root

/-- The law of chains. -/
structure Valid (g : ChainGraph) : Prop where
  anchor_free : ∀ h, g.kind? h = some .anchor → g.predecessor h = none
  unique_successor : ∀ h₁ h₂ before,
    g.predecessor h₁ = some before → g.predecessor h₂ = some before → h₁ = h₂
  index_exact : ∀ before h, g.successor before = some h ↔ g.predecessor h = some before
  anchored : ∀ h, (g.predecessor h).isSome →
    ∃ root, g.kind? root = some .anchor ∧ g.Leads h root

/-- The links of the graph as pairs of an element and what is placed after it. The first breach
among anchors with a link and elements with two successors ends the search. -/
def collectLinks (g : ChainGraph) (seen : List (Handle × Handle)) :
    List Handle → Except ChainError (List (Handle × Handle))
  | [] => .ok seen
  | h :: rest =>
    match g.predecessor h with
    | none => g.collectLinks seen rest
    | some before =>
      if g.isAnchor h then .error (.anchorWithPredecessor h)
      else if seen.any fun (b, _) => b = before then .error (.duplicateSuccessor before)
      else g.collectLinks (seen ++ [(before, h)]) rest

/-- Every link is in the index and leads to an anchor. -/
def checkLinks (g : ChainGraph) : List (Handle × Handle) → Except ChainError Unit
  | [] => .ok ()
  | (before, h) :: rest =>
    if g.successor before ≠ some h then .error (.staleSuccessor before)
    else if (g.anchorOf h).isNone then .error (.detached h)
    else g.checkLinks rest

/-- Checks the law of chains. -/
def validate (g : ChainGraph) : Except ChainError Unit := do
  let links ← g.collectLinks [] g.handles
  g.checkLinks links
  match g.handles.find? fun b => (g.successor b).isSome && !links.any fun (b', _) => b' = b with
  | some stale => .error (.staleSuccessor stale)
  | none => .ok ()

end ChainGraph

end PlanSearch
