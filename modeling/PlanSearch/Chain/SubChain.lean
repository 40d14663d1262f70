import PlanSearch.Chain.Basic
import PlanSearch.Text.Layout

/-!
# Runs of entities

A sub-chain lists entities in chain order, and at least one. Whether they really follow one another
is a question to a graph, asked when the run is moved.
-/

namespace PlanSearch

/-- A run of entities, head first. -/
structure SubChain where
  entities : List Handle
  entities_ne_nil : entities ≠ []
  deriving DecidableEq

namespace SubChain

/-- The run of the given entities; there has to be one. -/
def ofList (entities : List Handle) : Except ChainError SubChain :=
  if h : entities = [] then .error .emptySubChain else .ok ⟨entities, h⟩

/-- A run of one entity. -/
def single (entity : Handle) : SubChain := ⟨[entity], by simp⟩

instance : Inhabited SubChain := ⟨single default⟩

/-- The head of the run. -/
def first (run : SubChain) : Handle := run.entities.head run.entities_ne_nil

/-- The tail of the run. -/
def last (run : SubChain) : Handle := run.entities.getLast run.entities_ne_nil

def length (run : SubChain) : Nat := run.entities.length

def contains (run : SubChain) (h : Handle) : Bool := run.entities.contains h

/-- The same entities, tail first. -/
def reversed (run : SubChain) : SubChain :=
  ⟨run.entities.reverse, by simpa using run.entities_ne_nil⟩

/-- The run as a list of handles. -/
def describe (run : SubChain) : String := Text.bracketed (run.entities.map Handle.text)

@[simp]
theorem reversed_reversed (run : SubChain) : run.reversed.reversed = run := by
  simp [reversed]

end SubChain

end PlanSearch
