import PlanSearch.Chain.Plan

/-!
# Planning variables

A variable names a place in every entity that the search may write. Plain variables hold the index
of a value; a chained variable lives in a chain graph. Two variables are the same when they have the
same name and belong to the same class of entities.
-/

namespace PlanSearch

/-- A variable that holds the index of a value, or nothing. -/
structure PlainVariable (S : Type) where
  name : String
  /-- The class of entities the variable belongs to. -/
  descriptorIndex : Nat
  get : S → Nat → Option Nat
  set : S → Nat → Option Nat → S

/-- A variable that places an entity after another element of a chain graph. -/
structure ChainedVariable (S : Type) where
  name : String
  /-- The class of entities the variable belongs to. -/
  descriptorIndex : Nat
  graph : S → ChainGraph
  withGraph : S → ChainGraph → S

namespace PlainVariable

variable {S : Type}

instance : BEq (PlainVariable S) :=
  ⟨fun v w => v.descriptorIndex == w.descriptorIndex && v.name == w.name⟩

/-- The variable with its name and class. -/
def describe (v : PlainVariable S) : String :=
  Text.record "PlainVariable"
    [("name", Text.quoted v.name), ("descriptor_index", toString v.descriptorIndex)]

/-- For the entities that the variable ranges over a read returns the last write, and writing the
old value back restores the solution. Nothing is asked of any other index, such as one beyond the
end of an array. -/
structure Lawful (v : PlainVariable S) (ranges : Nat → Prop) : Prop where
  get_set : ∀ s e x, ranges e → v.get (v.set s e x) e = x
  set_get : ∀ s e x, ranges e → v.set (v.set s e x) e (v.get s e) = s

end PlainVariable

namespace ChainedVariable

variable {S : Type}

instance : BEq (ChainedVariable S) :=
  ⟨fun v w => v.descriptorIndex == w.descriptorIndex && v.name == w.name⟩

/-- The variable with its name and class. -/
def describe (v : ChainedVariable S) : String :=
  Text.record "ChainedVariable"
    [("name", Text.quoted v.name), ("descriptor_index", toString v.descriptorIndex)]

/-- The accessors look at one part of the solution and replace nothing but that. -/
structure Lawful (v : ChainedVariable S) : Prop where
  graph_withGraph : ∀ s g, v.graph (v.withGraph s g) = g
  withGraph_graph : ∀ s, v.withGraph s (v.graph s) = s
  withGraph_withGraph : ∀ s g g', v.withGraph (v.withGraph s g) g' = v.withGraph s g'

end ChainedVariable

end PlanSearch
