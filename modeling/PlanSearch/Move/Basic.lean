import PlanSearch.Variable

/-!
# Moves

A move is a value that says which variables are to get which values. Applying it is described in
`PlanSearch.Move.Apply`.
-/

namespace PlanSearch

/-- A change of a solution that can be taken back. -/
inductive Move (S : Type) where
  /-- Gives a plain variable a value, or none. -/
  | change (var : PlainVariable S) (entity : Nat) (target : Option Nat)
  /-- Places one entity after another element, or outside all chains. -/
  | chainedChange (var : ChainedVariable S) (entity : Handle) (target : Option Handle)
  /-- Places a run after an element, head first. -/
  | changePart (var : ChainedVariable S) (run : SubChain) (target : Option Handle)
  /-- Places a run after an element, tail first. -/
  | reverseChangePart (var : ChainedVariable S) (run : SubChain) (target : Option Handle)
  /-- Applies its parts in order. -/
  | composite (parts : List (Move S))

/-- An entity or a value, for the memory of recent moves. -/
structure PlanningRef where
  descriptorIndex : Nat
  index : Nat
  deriving DecidableEq, Repr

/-- The class and the index of the entity or value. -/
def PlanningRef.describe (r : PlanningRef) : String :=
  Text.record "PlanningRef"
    [("descriptor_index", toString r.descriptorIndex), ("index", toString r.index)]

namespace Move

variable {S : Type}

/-! ## Equality -/

mutual

/-- The same kind of move, with the same variables, entities and values. -/
def same : Move S → Move S → Bool
  | .change v e x, .change w f y => v == w && e == f && x == y
  | .chainedChange v e x, .chainedChange w f y => v == w && e == f && x == y
  | .changePart v r x, .changePart w q y => v == w && r == q && x == y
  | .reverseChangePart v r x, .reverseChangePart w q y => v == w && r == q && x == y
  | .composite as, .composite bs => sameList as bs
  | _, _ => false

/-- The same moves in the same order. -/
def sameList : List (Move S) → List (Move S) → Bool
  | [], [] => true
  | a :: as, b :: bs => same a b && sameList as bs
  | _, _ => false

end

instance : BEq (Move S) := ⟨same⟩

/-! ## What a move touches -/

mutual

/-- The entities whose variables the move writes. -/
def planningEntities : Move S → List PlanningRef
  | .change v e _ => [⟨v.descriptorIndex, e⟩]
  | .chainedChange v e _ => [⟨v.descriptorIndex, e.index⟩]
  | .changePart v run _ => run.entities.map fun h => ⟨v.descriptorIndex, h.index⟩
  | .reverseChangePart v run _ => run.entities.map fun h => ⟨v.descriptorIndex, h.index⟩
  | .composite parts => entitiesOfAll parts

/-- The entities of several moves. -/
def entitiesOfAll : List (Move S) → List PlanningRef
  | [] => []
  | m :: rest => planningEntities m ++ entitiesOfAll rest

end

mutual

/-- The values that the move assigns. -/
def planningValues : Move S → List PlanningRef
  | .change v _ target => target.toList.map fun x => ⟨v.descriptorIndex, x⟩
  | .chainedChange v _ target => target.toList.map fun h => ⟨v.descriptorIndex, h.index⟩
  | .changePart v _ target => target.toList.map fun h => ⟨v.descriptorIndex, h.index⟩
  | .reverseChangePart v _ target => target.toList.map fun h => ⟨v.descriptorIndex, h.index⟩
  | .composite parts => valuesOfAll parts

/-- The values of several moves. -/
def valuesOfAll : List (Move S) → List PlanningRef
  | [] => []
  | m :: rest => planningValues m ++ valuesOfAll rest

end

/-! ## Names -/

/-- The kind of move. -/
def kind : Move S → String
  | .change .. => "change"
  | .chainedChange .. => "chained_change"
  | .changePart .. => "change_part"
  | .reverseChangePart .. => "reverse_change_part"
  | .composite _ => "composite"

private def describeWith (kind variable_ subject text : String) (target : Option String) : String :=
  Text.record kind
    [("variable", Text.quoted variable_), (subject, text), ("to", Text.optional target)]

mutual

/-- The move with its variables, entities and values. -/
def describe : Move S → String
  | .change v e target => describeWith "Change" v.name "entity" (toString e) (target.map toString)
  | .chainedChange v e target =>
    describeWith "ChainedChange" v.name "entity" e.text (target.map Handle.text)
  | .changePart v run target =>
    describeWith "ChangePart" v.name "sub_chain" run.describe (target.map Handle.text)
  | .reverseChangePart v run target =>
    describeWith "ReverseChangePart" v.name "sub_chain" run.describe (target.map Handle.text)
  | .composite parts => Text.applied "Composite" [Text.bracketed (describeAll parts)]

/-- Several moves, each described. -/
def describeAll : List (Move S) → List String
  | [] => []
  | m :: rest => describe m :: describeAll rest

end

/-! ## Nesting -/

mutual

/-- How deeply composites are nested. -/
def depth : Move S → Nat
  | .composite parts => depthOfAll parts + 1
  | _ => 0

/-- The greatest depth among several moves. -/
def depthOfAll : List (Move S) → Nat
  | [] => 0
  | m :: rest => max (depth m) (depthOfAll rest)

end

end Move

end PlanSearch
