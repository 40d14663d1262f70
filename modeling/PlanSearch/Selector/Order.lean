/-!
# Orders and caches of selection
-/

namespace PlanSearch

/-- How long the candidates of a selector are kept. -/
inductive CacheType where
  /-- They are read from the solution whenever one is asked for. -/
  | justInTime
  | step
  | phase
  deriving DecidableEq, Repr, Inhabited

/-- The order in which a selector yields its candidates. -/
inductive SelectionOrder where
  /-- The order of the enclosing selector. -/
  | inherit
  | listed
  /-- Every candidate is drawn anew. -/
  | random
  /-- One random arrangement per pass. -/
  | shuffled
  | sorted
  /-- Every candidate is drawn anew, by weight. -/
  | probabilistic
  deriving DecidableEq, Repr, Inhabited

/-- The direction of a sorted selection. -/
inductive SortDirection where
  | ascending
  | descending
  deriving DecidableEq, Repr, Inhabited

namespace CacheType

/-- Candidates are kept at all. -/
def isCached (c : CacheType) : Bool := c != justInTime

def describe : CacheType → String
  | justInTime => "JustInTime"
  | step => "Step"
  | phase => "Phase"

end CacheType

namespace SelectionOrder

/-- The order itself, or the enclosing selector's. -/
def resolve (order enclosing : SelectionOrder) : SelectionOrder :=
  match order with
  | inherit => enclosing
  | order => order

/-- The order of a selection that is random or not. -/
def ofRandom (isRandom : Bool) : SelectionOrder := if isRandom then random else listed

/-- The order is a property of the whole list of candidates. -/
def needsCache : SelectionOrder → Bool
  | shuffled | sorted | probabilistic => true
  | inherit | listed | random => false

def describe : SelectionOrder → String
  | inherit => "Inherit"
  | listed => "Original"
  | random => "Random"
  | shuffled => "Shuffled"
  | sorted => "Sorted"
  | probabilistic => "Probabilistic"

end SelectionOrder

def SortDirection.describe : SortDirection → String
  | ascending => "Ascending"
  | descending => "Descending"

/-- Why a selector cannot be built. -/
inductive SelectorError where
  /-- An order over whole lists without a cache. -/
  | uncachedOrder (order : SelectionOrder) (cache : CacheType)
  /-- A list is to be made of candidates that never end. -/
  | neverEndingChild (owner : String)
  | invalidDistribution (reason : String)
  /-- Something is repeated that no selector remembers. -/
  | unknownMimicId (id : String)
  /-- Two selectors remember under one name. -/
  | duplicateMimicId (id : String)
  | unknownPlugin (kind name : String)
  | invalid (reason : String)
  deriving DecidableEq, Repr

/-- The name of the error. -/
def SelectorError.kind : SelectorError → String
  | uncachedOrder .. => "UncachedOrder"
  | neverEndingChild _ => "NeverEndingChild"
  | invalidDistribution _ => "InvalidDistribution"
  | unknownMimicId _ => "UnknownMimicId"
  | duplicateMimicId _ => "DuplicateMimicId"
  | unknownPlugin .. => "UnknownPlugin"
  | invalid _ => "Invalid"

/-- The reason in words. -/
def SelectorError.message : SelectorError → String
  | uncachedOrder order cache =>
    "selection order " ++ order.describe ++ " needs a step or phase cache, not " ++ cache.describe
  | neverEndingChild owner => owner ++ " cannot cache a never-ending child selector"
  | invalidDistribution reason => "invalid nearby distribution: " ++ reason
  | unknownMimicId id => "no selector records mimic id '" ++ id ++ "'"
  | duplicateMimicId id => "mimic id '" ++ id ++ "' is recorded by more than one selector"
  | unknownPlugin kind name => "no " ++ kind ++ " registered under '" ++ name ++ "'"
  | invalid reason => "invalid selector configuration: " ++ reason

end PlanSearch
