import PlanSearch.Chain.SubChain

/-!
# Planned relocations

A relocation takes a run out of its chain and places it after another element, in its order or in
the opposite one, or leaves it outside all chains. It is planned before anything is written: the
plan lists the links that change, each once, in the order in which they are to be written.
-/

namespace PlanSearch

/-- One link to write. -/
structure LinkChange where
  entity : Handle
  /-- What the entity is placed after when the plan is made. -/
  old : Option Handle
  /-- What it is to be placed after. -/
  new : Option Handle
  deriving DecidableEq, Repr

/-- The links to write for a relocation. -/
structure SplicePlan where
  /-- What the head of the run is placed after when the plan is made. -/
  oldPredecessor : Option Handle
  links : List LinkChange
  deriving DecidableEq, Repr

/-- Nothing would change. -/
def SplicePlan.isEmpty (p : SplicePlan) : Bool := p.links.isEmpty

namespace ChainGraph

/-- Links to write, later values standing in for earlier ones of the same entity. -/
def putLink (writes : List (Handle × Option Handle)) (entity : Handle) (value : Option Handle) :
    List (Handle × Option Handle) :=
  match writes with
  | [] => [(entity, value)]
  | (e, v) :: rest =>
    if e = entity then (e, value) :: rest else (e, v) :: putLink rest entity value

/-- The first entity of a run that cannot be moved at all. -/
def checkMovable (g : ChainGraph) : List Handle → Except ChainError Unit
  | [] => .ok ()
  | h :: rest =>
    match g.kind? h with
    | none => .error (.unknownHandle h)
    | some .anchor => .error (.anchorNotMovable h)
    | some .entity => g.checkMovable rest

/-- The first entity that is not placed after the one listed before it. -/
def checkContiguous (g : ChainGraph) : List Handle → Except ChainError Unit
  | a :: b :: rest =>
    if g.predecessor b = some a then g.checkContiguous (b :: rest) else .error (.nonContiguous b)
  | _ => .ok ()

/-- A destination exists, is outside the run, and is in a chain. -/
def checkDestination (g : ChainGraph) (run : SubChain) : Option Handle → Except ChainError Unit
  | none => .ok ()
  | some d =>
    if !g.contains d then .error (.unknownHandle d)
    else if run.contains d then .error (.cycle run.first d)
    else if (g.anchorOf d).isNone then .error (.detached d)
    else .ok ()

/-- The writes inside a run that is inserted tail first, from the tail on. -/
def reversingWrites (writes : List (Handle × Option Handle)) : List Handle →
    List (Handle × Option Handle)
  | a :: b :: rest => putLink (reversingWrites writes (b :: rest)) a (some b)
  | _ => writes

/-- The writes of a relocation that passed all checks, among them those that change nothing. -/
def writesOf (g : ChainGraph) (run : SubChain) (target : Option Handle) (reversing : Bool) :
    List (Handle × Option Handle) :=
  let oldPredecessor := g.predecessor run.first
  let oldTrailing := g.successor run.last
  let newTrailing := match target with
    | none => none
    | some d => if target = oldPredecessor then oldTrailing else g.successor d
  let closing := match oldTrailing with
    | none => []
    | some t => putLink [] t oldPredecessor
  let (writes, insertedLast) :=
    if reversing then (reversingWrites (putLink closing run.last target) run.entities, run.first)
    else (putLink closing run.first target, run.last)
  let writes := match newTrailing with
    | none => writes
    | some t => putLink writes t (some insertedLast)
  -- Undoing an in-place reversal is an in-place reversal. The link of the entity behind the run
  -- goes first or last depending on the orientation, so that the undo writes in opposite order.
  if reversing ∧ target = oldPredecessor ∧ oldTrailing.isSome ∧
      run.last.index < run.first.index then
    writes.rotateLeft 1
  else writes

/-- The links that a relocation of `run` after `to` changes. The links of the entity behind the
run's old place come first, then those of the run, then that of the entity behind its new place.
Nothing is planned for a run that does not consist of entities in chain order, and for a destination
in the run or outside all chains. -/
def planMove (g : ChainGraph) (run : SubChain) (target : Option Handle) (reversing : Bool) :
    Except ChainError SplicePlan := do
  g.checkMovable run.entities
  g.checkContiguous run.entities
  g.checkDestination run target
  let oldPredecessor := g.predecessor run.first
  if reversing = false ∧ target = oldPredecessor then return ⟨oldPredecessor, []⟩
  let links := (g.writesOf run target reversing).filterMap fun (entity, value) =>
    if g.predecessor entity = value then none else some ⟨entity, g.predecessor entity, value⟩
  return ⟨oldPredecessor, links⟩

/-- Writes links in order. -/
def writeLinks (g : ChainGraph) : List LinkChange → Except ChainError ChainGraph
  | [] => .ok g
  | link :: rest => do
    let (_, g) ← g.setPredecessor link.entity link.new
    g.writeLinks rest

/-- Writes the links of a plan. -/
def applyPlan (g : ChainGraph) (p : SplicePlan) : Except ChainError ChainGraph :=
  g.writeLinks p.links

/-- Places entities one after the other, the first of them after `last`. The graph holds what was
placed before a refusal. -/
def appendAfter (g : ChainGraph) (last : Handle) : List Handle → ChainGraph × Except ChainError Unit
  | [] => (g, .ok ())
  | entity :: rest =>
    match (g.planMove (.single entity) (some last) false).bind g.applyPlan with
    | .error e => (g, .error e)
    | .ok g => g.appendAfter entity rest

/-- Places entities at the end of the chain that `start` belongs to. -/
def append (g : ChainGraph) (start : Handle) (entities : List Handle) :
    ChainGraph × Except ChainError Unit :=
  g.appendAfter ((g.trailing start).getLast?.getD start) entities

end ChainGraph

end PlanSearch
