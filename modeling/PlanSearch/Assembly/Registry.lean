import PlanSearch.Error
import PlanSearch.Nearby.Matrix
import PlanSearch.Selector.Mimic
import PlanSearch.Variable

/-!
# What settings refer to by name

A registry lists the variables of a kind of solution and the functions that selectors may use:
tests, sort keys, weights and distances. Candidates are indices for plain variables and handles for
chained ones. Candidates that selectors share are remembered under names, too.
-/

namespace PlanSearch.Assembly

/-- The named functions over candidates of one type. -/
structure Plugins (S C : Type) where
  filters : List (String × (S → C → Bool)) := []
  sorters : List (String × (S → C → Except Fault Float)) := []
  weights : List (String × (S → C → Except Fault Float)) := []
  meters : List (String × (S → Nearby.Meter C)) := []

namespace Plugins

variable {S C : Type}

/-- The function of a name. -/
def find {α : Type} (kind : String) (table : List (String × α)) (name : String) :
    Except SelectorError α :=
  match table.lookup name with
  | some a => .ok a
  | none => .error (.unknownPlugin kind name)

def filter (p : Plugins S C) (name : String) : Except SelectorError (S → C → Bool) :=
  find "filter" p.filters name

def sorter (p : Plugins S C) (name : String) : Except SelectorError (S → C → Except Fault Float) :=
  find "sorter" p.sorters name

def weight (p : Plugins S C) (name : String) : Except SelectorError (S → C → Except Fault Float) :=
  find "probability weight" p.weights name

def meter (p : Plugins S C) (name : String) : Except SelectorError (S → Nearby.Meter C) :=
  find "distance meter" p.meters name

end Plugins

/-- A variable and what it ranges over. -/
inductive RegisteredVariable (S : Type) where
  /-- Entities and values are the indices below the two counts. -/
  | plain (var : PlainVariable S) (entityCount valueCount : S → Nat)
  /-- The entities that can be placed and the elements that they can be placed after. -/
  | chained (var : ChainedVariable S) (entities values : S → List Handle)

namespace RegisteredVariable

variable {S : Type}

def name : RegisteredVariable S → String
  | plain v _ _ => v.name
  | chained v _ _ => v.name

def describe : RegisteredVariable S → String
  | plain v _ _ => Text.applied "Plain" [v.describe]
  | chained v _ _ => Text.applied "Chained" [v.describe]

end RegisteredVariable

structure Registry (S : Type) where
  vars : List (RegisteredVariable S) := []
  indices : Plugins S Nat := {}
  handles : Plugins S Handle := {}

namespace Registry

variable {S : Type}

/-- The variable of a name, or the only one where none is named. -/
def find (r : Registry S) : Option String → Except BuildError (RegisteredVariable S)
  | some name =>
    match r.vars.find? fun v => v.name == name with
    | some v => .ok v
    | none => .error (.selector (.unknownPlugin "variable" name))
  | none =>
    match r.vars with
    | [only] => .ok only
    | [] => .error .noVariable
    | several => .error (.ambiguousVariable several.length)

def describe (r : Registry S) : String :=
  Text.record "SelectorRegistry"
    [("variables", Text.bracketed (r.vars.map RegisteredVariable.describe))]

end Registry

/-! ## Shared candidates -/

/-- The candidates that the selectors of a phase share. -/
structure Memory where
  indices : Recordings Nat := {}
  handles : Recordings Handle := {}

/-- The names under which the selectors built so far remember candidates. -/
structure Recorders where
  indices : List String := []
  handles : List String := []

/-- A type of candidates. -/
class Candidate (C : Type) where
  decEq : DecidableEq C
  plugins {S : Type} : Registry S → Plugins S C
  recorder : String → Recorder Memory C
  ids : Recorders → List String
  withId : String → Recorders → Recorders

instance {C : Type} [Candidate C] : DecidableEq C := Candidate.decEq

instance : Candidate Nat where
  decEq := inferInstance
  plugins := Registry.indices
  recorder id :=
    { id
      recorded := fun m => m.indices.get id
      record := fun c m => { m with indices := m.indices.set id c } }
  ids := Recorders.indices
  withId id rs := { rs with indices := id :: rs.indices }

instance : Candidate Handle where
  decEq := inferInstance
  plugins := Registry.handles
  recorder id :=
    { id
      recorded := fun m => m.handles.get id
      record := fun c m => { m with handles := m.handles.set id c } }
  ids := Recorders.handles
  withId id rs := { rs with handles := id :: rs.handles }

namespace Recorders

variable {C : Type} [Candidate C]

/-- A new name, which must not be in use for any candidates. -/
def create (rs : Recorders) (id : String) : Except SelectorError (Recorder Memory C × Recorders) :=
  if rs.indices.contains id || rs.handles.contains id then .error (.duplicateMimicId id)
  else .ok (Candidate.recorder id, Candidate.withId C id rs)

/-- A name that is in use for candidates of the wanted type. -/
def find (rs : Recorders) (id : String) : Except SelectorError (Recorder Memory C) :=
  if (Candidate.ids C rs).contains id then .ok (Candidate.recorder id)
  else .error (.unknownMimicId id)

def describe (rs : Recorders) : String :=
  let ids := (rs.indices ++ rs.handles).mergeSort fun a b => !decide (b < a)
  Text.record "MimicRecorders" [("ids", Text.bracketed (ids.map Text.quoted))]

end Recorders

end PlanSearch.Assembly
