/-!
# Chains of entities

A chain starts at an anchor, and every further element of it is an entity placed after another
element. A chain graph stores, for every element, the one it is placed after and, as an index for
the opposite direction, the one placed after it. Elements are addressed by handles, which are their
positions and never change.

The index follows every write. It is exact whenever no two entities are placed after the same
element; between the writes of one move this may fail for a while.
-/

namespace PlanSearch

/-- The address of an element of a chain graph. -/
structure Handle where
  index : Nat
  deriving DecidableEq, Repr, Inhabited, Hashable

/-- The written form of a handle. -/
def Handle.text (h : Handle) : String := "#" ++ toString h.index

/-- What an element of a chain graph is. -/
inductive NodeKind where
  /-- The fixed start of a chain. -/
  | anchor
  /-- An element that can be placed in a chain. -/
  | entity
  deriving DecidableEq, Repr

/-- Why a chain operation is refused, or which law of chains is broken. -/
inductive ChainError where
  | unknownHandle (h : Handle)
  | anchorNotMovable (h : Handle)
  | cycle (moving destination : Handle)
  | detached (h : Handle)
  | nonContiguous (h : Handle)
  | emptySubChain
  | duplicateSuccessor (h : Handle)
  | staleSuccessor (h : Handle)
  | anchorWithPredecessor (h : Handle)
  deriving DecidableEq, Repr

/-- The name of the error. -/
def ChainError.kind : ChainError → String
  | unknownHandle _ => "UnknownHandle"
  | anchorNotMovable _ => "AnchorNotMovable"
  | cycle .. => "Cycle"
  | detached _ => "Detached"
  | nonContiguous _ => "NonContiguous"
  | emptySubChain => "EmptySubChain"
  | duplicateSuccessor _ => "DuplicateSuccessor"
  | staleSuccessor _ => "StaleSuccessor"
  | anchorWithPredecessor _ => "AnchorWithPredecessor"

/-- The reason in words. -/
def ChainError.message : ChainError → String
  | unknownHandle h => "unknown handle " ++ h.text
  | anchorNotMovable h => "anchor " ++ h.text ++ " cannot be moved"
  | cycle moving destination =>
    "placing " ++ moving.text ++ " after " ++ destination.text ++ " would create a cycle"
  | detached h => h.text ++ " is not connected to an anchor"
  | nonContiguous h => "sub-chain is not contiguous at " ++ h.text
  | emptySubChain => "sub-chain is empty"
  | duplicateSuccessor h => h.text ++ " has more than one successor"
  | staleSuccessor h => "successor index is stale at " ++ h.text
  | anchorWithPredecessor h => "anchor " ++ h.text ++ " has a predecessor"

/-- An element with its links in both directions. -/
structure Node where
  kind : NodeKind
  predecessor : Option Handle := none
  successor : Option Handle := none
  deriving DecidableEq, Repr

/-- Anchors and entities with the links between them. -/
structure ChainGraph where
  nodes : Array Node := #[]
  deriving DecidableEq, Repr, Inhabited

namespace ChainGraph

/-- The graph without elements. -/
def empty : ChainGraph := {}

def size (g : ChainGraph) : Nat := g.nodes.size

def node? (g : ChainGraph) (h : Handle) : Option Node := g.nodes[h.index]?

def contains (g : ChainGraph) (h : Handle) : Bool := decide (h.index < g.nodes.size)

def kind? (g : ChainGraph) (h : Handle) : Option NodeKind := (g.node? h).map Node.kind

def isAnchor (g : ChainGraph) (h : Handle) : Bool := g.kind? h == some .anchor

/-- The element a handle is placed after. -/
def predecessor (g : ChainGraph) (h : Handle) : Option Handle := (g.node? h).bind Node.predecessor

/-- The element placed after a handle, by the index. -/
def successor (g : ChainGraph) (h : Handle) : Option Handle := (g.node? h).bind Node.successor

/-- All handles, in order. -/
def handles (g : ChainGraph) : List Handle := (List.range g.size).map Handle.mk

def anchors (g : ChainGraph) : List Handle := g.handles.filter fun h => g.kind? h == some .anchor

def entities (g : ChainGraph) : List Handle := g.handles.filter fun h => g.kind? h == some .entity

/-- How many entities are in no chain. -/
def unassignedCount (g : ChainGraph) : Nat :=
  (g.entities.filter fun h => (g.predecessor h).isNone).length

/-! ## Growing -/

private def push (g : ChainGraph) (kind : NodeKind) : Handle × ChainGraph :=
  (⟨g.size⟩, ⟨g.nodes.push { kind }⟩)

/-- Adds the start of a new chain. -/
def addAnchor (g : ChainGraph) : Handle × ChainGraph := g.push .anchor

/-- Adds an entity that is in no chain yet. -/
def addEntity (g : ChainGraph) : Handle × ChainGraph := g.push .entity

/-! ## Walking -/

/-- Follows links towards the anchor, visiting at most the given number of elements. -/
def anchorWithin (g : ChainGraph) : Nat → Handle → Option Handle
  | 0, _ => none
  | count + 1, h =>
    match g.node? h with
    | none => none
    | some node =>
      match node.kind with
      | .anchor => some h
      | .entity => node.predecessor.bind (g.anchorWithin count)

/-- The anchor of the chain that an element belongs to. An anchor is its own; an entity without a
link towards an anchor has none. -/
def anchorOf (g : ChainGraph) (h : Handle) : Option Handle := g.anchorWithin (g.size + 1) h

/-- Follows the index away from the anchor, over at most the given number of elements. -/
def trailingWithin (g : ChainGraph) : Nat → Handle → List Handle
  | 0, _ => []
  | count + 1, h =>
    match g.successor h with
    | none => []
    | some next => next :: g.trailingWithin count next

/-- The elements placed after one, nearest first. -/
def trailing (g : ChainGraph) (h : Handle) : List Handle := g.trailingWithin g.size h

/-! ## Writing -/

/-- Changes one element. -/
def modify (g : ChainGraph) (h : Handle) (f : Node → Node) : ChainGraph :=
  ⟨g.nodes.modify h.index f⟩

/-- Forgets in the index that `entity` is placed after `before`, if that is what it says. -/
def clearSuccessor (g : ChainGraph) (before entity : Handle) : ChainGraph :=
  if g.successor before = some entity then g.modify before ({ · with successor := none }) else g

/-- Places an entity after another element, or after none, and returns what it was placed after.
Nothing is checked but that the elements exist and that the entity is none of the anchors. -/
def setPredecessor (g : ChainGraph) (entity : Handle) (target : Option Handle) :
    Except ChainError (Option Handle × ChainGraph) :=
  match target.filter fun h => !g.contains h with
  | some missing => .error (.unknownHandle missing)
  | none =>
    match g.node? entity with
    | none => .error (.unknownHandle entity)
    | some ⟨.anchor, _, _⟩ => .error (.anchorNotMovable entity)
    | some ⟨.entity, old, _⟩ =>
      let g := g.modify entity ({ · with predecessor := target })
      let g := match old with
        | none => g
        | some before => g.clearSuccessor before entity
      let g := match target with
        | none => g
        | some after => g.modify after ({ · with successor := some entity })
      .ok (old, g)

end ChainGraph

end PlanSearch
