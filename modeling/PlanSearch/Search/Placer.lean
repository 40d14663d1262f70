import PlanSearch.Fault
import PlanSearch.Move.Basic

/-!
# Entities without a value

A placer goes through the entities of one variable that have no value, in their order, and lists the
moves that would give them one.
-/

namespace PlanSearch

/-- An entity without a value, and the moves that would give it one. -/
structure Placement (S : Type) where
  entity : PlanningRef
  moves : Array (Move S)

namespace Placement

variable {S : Type}

/-- Takes a move out. The last move fills its place. -/
def take (p : Placement S) (i : Nat) : Except Fault (Move S × Placement S) :=
  match p.moves[i]?, p.moves.back? with
  | some move, some last => .ok (move, { p with moves := (p.moves.setIfInBounds i last).pop })
  | _, _ => .error .broken

def describe (p : Placement S) : String :=
  Text.record "Placement"
    [("entity", p.entity.describe), ("move_count", toString p.moves.size)]

end Placement

/-- Places the entities of a variable. -/
inductive Placer (S : Type) where
  /-- Every index below the second count may be given to every entity below the first one. -/
  | plain (var : PlainVariable S) (entityCount valueCount : S → Nat)
  /-- An entity may be placed after every anchor and every entity that is connected to one. -/
  | chained (var : ChainedVariable S)

namespace Placer

variable {S : Type}

def name : Placer S → String
  | plain v _ _ => v.name
  | chained v => v.name

/-- The entities without a value, in their order. -/
def openEntities (s : S) : Placer S → List Nat
  | plain v entityCount _ => (List.range (entityCount s)).filter fun e => (v.get s e).isNone
  | chained v =>
    let graph := v.graph s
    (graph.entities.filter fun h => (graph.predecessor h).isNone).map Handle.index

/-- The elements that an entity can be placed after: the anchors, then the entities connected to
one. -/
def destinations (graph : ChainGraph) (entity : Handle) : List Handle :=
  graph.anchors ++ graph.entities.filter fun h => h != entity && (graph.anchorOf h).isSome

/-- The moves that give an entity a value. -/
def movesFor (s : S) (entity : Nat) : Placer S → List (Move S)
  | plain v _ valueCount => (List.range (valueCount s)).map fun x => .change v entity (some x)
  | chained v =>
    (destinations (v.graph s) ⟨entity⟩).map fun h => .chainedChange v ⟨entity⟩ (some h)

/-- The class of the entities. -/
def descriptorIndex : Placer S → Nat
  | plain v _ _ => v.descriptorIndex
  | chained v => v.descriptorIndex

/-- The first entity without a value. -/
def next (s : S) (p : Placer S) : Option (Placement S) :=
  (p.openEntities s).head?.map fun entity =>
    { entity := ⟨p.descriptorIndex, entity⟩, moves := (p.movesFor s entity).toArray }

def describe : Placer S → String
  | plain v _ _ => Text.applied "Plain" [v.describe]
  | chained v => Text.applied "Chained" [v.describe]

end Placer

end PlanSearch
