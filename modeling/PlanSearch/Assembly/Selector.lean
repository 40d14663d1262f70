import PlanSearch.Assembly.Registry
import PlanSearch.Config.Selector
import PlanSearch.Selector.Change
import PlanSearch.Selector.Filter
import PlanSearch.Selector.Nearby
import PlanSearch.Selector.Roulette
import PlanSearch.Selector.SubChains
import PlanSearch.Selector.Union

/-!
# Selectors from settings

A selector of entities or values is put together in layers: the candidates of the solution, by their
distance from another candidate where that is asked for; a filter; the order or the cache; the
limit; and last the recording under a name, so that what is remembered is what the selector yields.
A selector can refer to what an earlier one remembers.
-/

namespace PlanSearch.Assembly

open Config

/-- A part that is built while names are given to shared candidates. -/
def Building (α : Type u) : Type u := Recorders → Except BuildError (α × Recorders)

namespace Building

def pure {α : Type u} (a : α) : Building α := fun rs => .ok (a, rs)

/-- Builds a part that depends on one built before. -/
def andThen {α : Type u} {β : Type v} (x : Building α) (f : α → Building β) : Building β :=
  fun rs =>
  match x rs with
  | .error e => .error e
  | .ok (a, rs) => f a rs

/-- A part that needs no names. -/
def lift {α : Type u} : Except BuildError α → Building α
  | .error e => fun _ => .error e
  | .ok a => pure a

/-- A part that a selector may refuse. -/
def ofSelector {α : Type u} : Except SelectorError α → Building α
  | .error e => fun _ => .error (.selector e)
  | .ok a => pure a

/-- Refuses settings that make no sense. -/
def check (x : Except Flaw Unit) : Building Unit :=
  lift (x.mapError fun flaw => .config (.invalid flaw))

/-- Builds several parts in order. -/
def each {α : Type u} {β : Type v} (f : α → Building β) : List α → Building (List β)
  | [] => pure []
  | a :: rest => (f a).andThen fun b => (each f rest).andThen fun bs => pure (b :: bs)

end Building

variable {S C : Type}

/-! ## Entities and values -/

section Leaf

variable [Candidate C]

/-- The candidates of a selector by their distance from a remembered one. -/
def ranked (r : Registry S) (listed : Selector Memory S C) (c : NearbySettings) (isRandom : Bool) :
    Building (Selector Memory S C) :=
  let plugins : Plugins S C := Candidate.plugins r
  Building.andThen (fun rs => match rs.find (c.origin.getD "") with
    | .error e => .error (.selector e)
    | .ok recorder => .ok (recorder, rs)) fun recorder =>
  (Building.ofSelector (plugins.meter (c.meter.getD ""))).andThen fun meter =>
  (Building.ofSelector (if isRandom then c.distribution.map some else .ok none)).andThen
    fun distribution =>
  Building.ofSelector (listed.nearby recorder meter distribution none)

/-- The candidates that a named test accepts. -/
def filtered (plugins : Plugins S C) (name : Option String) (sel : Selector Memory S C) :
    Except SelectorError (Selector Memory S C) :=
  match name with
  | none => .ok sel
  | some name => andThen (plugins.filter name) fun accepts => .ok (sel.filtering accepts)

/-- The candidates in the given order, kept as the settings say. -/
def ordered (plugins : Plugins S C) (c : SelectorSettings) (order : SelectionOrder)
    (sel : Selector Memory S C) : Except SelectorError (Selector Memory S C) :=
  match order with
  | .sorted => andThen (plugins.sorter (c.sorter.getD "")) fun key =>
      sel.sorting c.cache key (c.sorterDirection.getD .ascending)
  | .probabilistic => andThen (plugins.weight (c.weight.getD "")) fun weight =>
      sel.probability c.cache weight
  | .shuffled => sel.shuffling c.cache
  | .inherit | .listed | .random =>
    if c.cache.isCached then sel.caching c.cache (order = .random) else .ok sel

/-- A selector whose candidates are remembered under a name. -/
def recorded (id : Option String) (sel : Selector Memory S C) : Building (Selector Memory S C) :=
  match id with
  | none => .pure sel
  | some id =>
    Building.andThen (fun rs => match rs.create id with
      | .error e => .error (.selector e)
      | .ok made => .ok made) fun recorder =>
    .pure (sel.recording recorder)

/-- A selector of entities or values inside one of the given order, over a source that reads them in
their order or by uniform draws. -/
def leafOver (r : Registry S) (source : Bool → Selector Memory S C) (c : SelectorSettings)
    (enclosing : SelectionOrder) : Building (Selector Memory S C) :=
  (Building.check (c.validate enclosing)).andThen fun _ =>
  match c.mimic with
  | some id => fun rs => match rs.find id with
    | .error e => .error (.selector e)
    | .ok recorder => .ok (.replaying recorder, rs)
  | none =>
    let plugins : Plugins S C := Candidate.plugins r
    let order := c.orderIn enclosing
    let isRandom := decide (order = .random)
    let base := match c.nearby with
      | some nearby => ranked r (source false) nearby isRandom
      | none => .pure (source (isRandom && !c.cache.isCached))
    base.andThen fun sel =>
    (Building.ofSelector (filtered plugins c.filter sel)).andThen fun sel =>
    (Building.ofSelector (ordered plugins c order sel)).andThen fun sel =>
    recorded c.id (match c.limit with
      | none => sel
      | some limit => sel.limited limit)

/-- A selector of the entities or values in a list. -/
def leaf (r : Registry S) (items : S → Array C) (c : SelectorSettings)
    (enclosing : SelectionOrder) : Building (Selector Memory S C) :=
  leafOver r (Selector.source items) c enclosing

end Leaf

theorem leafOver_indices (r : Registry S) (count : S → Nat) (c : SelectorSettings)
    (enclosing : SelectionOrder) :
    leafOver r (Selector.indices count) c enclosing =
      leaf r (fun s => Array.range (count s)) c enclosing :=
  congrArg (fun source => leafOver r source c enclosing)
    (funext fun isRandom => Selector.indices_eq_source count isRandom)

/-! ## Moves -/

/-- The moves that give an entity of a variable a value. -/
def changeSelector (r : Registry S) (variable_ : RegisteredVariable S)
    (entities values : SelectorSettings) (enclosing : SelectionOrder) :
    Building (Selector Memory S (Move S)) :=
  let isRandom := decide (enclosing = .random)
  match variable_ with
  | .plain v entityCount valueCount =>
    (leafOver r (Selector.indices entityCount) entities enclosing).andThen fun es =>
    (leafOver r (Selector.indices valueCount) values enclosing).andThen fun vs =>
    .pure (.changes es vs isRandom (fun e x => .change v e (some x)) v.describe)
  | .chained v entityHandles valueHandles =>
    (leaf r (fun s => (entityHandles s).toArray) entities enclosing).andThen fun es =>
    (leaf r (fun s => (valueHandles s).toArray) values enclosing).andThen fun vs =>
    .pure (.changes es vs isRandom (fun e x => .chainedChange v e (some x)) v.describe)

/-- Entities and values of a plain variable are the numbers below two counts. -/
theorem changeSelector_plain (r : Registry S) (v : PlainVariable S) (entityCount valueCount : S → Nat)
    (entities values : SelectorSettings) (enclosing : SelectionOrder) :
    changeSelector r (.plain v entityCount valueCount) entities values enclosing =
      (leaf r (fun s => Array.range (entityCount s)) entities enclosing).andThen fun es =>
      (leaf r (fun s => Array.range (valueCount s)) values enclosing).andThen fun vs =>
      .pure (.changes es vs (decide (enclosing = .random)) (fun e x => .change v e (some x))
        v.describe) := by
  simp only [changeSelector, leafOver_indices]

/-- The runs of chains that are to be moved. -/
def runSelector (v : ChainedVariable S) (c : SubChainSettings) (enclosing : SelectionOrder) :
    Except SelectorError (Selector Memory S SubChain) :=
  let settings := c.runs.getD {}
  let order := settings.orderIn enclosing
  let runs (isRandom : Bool) : Except SelectorError (Selector Memory S SubChain) :=
    Selector.subChains v c.minimum c.maximum settings.cache isRandom
  if order = .shuffled then andThen (runs false) fun sel => sel.shuffling settings.cache
  else runs (order = .random)

/-- The moves that relocate a run of a chain. -/
def subChainSelector (r : Registry S) (c : SubChainSettings) (enclosing : SelectionOrder) :
    Building (Selector Memory S (Move S)) :=
  (Building.lift (r.find c.variableName)).andThen fun variable_ =>
  match variable_ with
  | .plain .. => .lift (.error (.plainVariable c.variableName))
  | .chained v _ valueHandles =>
    (Building.ofSelector (runSelector v c enclosing)).andThen fun runs =>
    (leaf r (fun s => (valueHandles s).toArray) (c.values.getD {}) enclosing).andThen fun values =>
    .pure (.subChainChanges v runs values (c.reversingToo.getD true) (enclosing = .random))

mutual

/-- The moves that settings describe, inside a selector of the given order. -/
def movesOf (r : Registry S) (enclosing : SelectionOrder) :
    MoveSelectorSettings → Building (Selector Memory S (Move S))
  | .change c =>
    (Building.lift (r.find c.variableName)).andThen fun variable_ =>
    changeSelector r variable_ (c.entities.getD {}) (c.values.getD {}) enclosing
  | .subChainChange c => subChainSelector r c enclosing
  | .union children =>
    (movesOfAll r enclosing children).andThen fun children =>
    .pure (.union children (enclosing = .random))

/-- The moves of several settings, one selector for each. -/
def movesOfAll (r : Registry S) (enclosing : SelectionOrder) :
    List MoveSelectorSettings → Building (List (Selector Memory S (Move S)))
  | [] => .pure []
  | c :: rest =>
    (movesOf r enclosing c).andThen fun sel =>
    (movesOfAll r enclosing rest).andThen fun sels => .pure (sel :: sels)

end

/-- A change of every variable. -/
def defaultMoves (r : Registry S) (enclosing : SelectionOrder) :
    Building (Selector Memory S (Move S)) :=
  (Building.each (fun v => changeSelector r v {} {} enclosing) r.vars).andThen fun children =>
  match children with
  | [] => .lift (.error .noVariable)
  | [only] => .pure only
  | children => .pure (.union children (enclosing = .random))

/-- The selector of moves for a phase: as the settings say, or else changes of all variables. -/
def moveSelector (r : Registry S) (c : Option MoveSelectorSettings) (enclosing : SelectionOrder) :
    Except BuildError (Selector Memory S (Move S)) :=
  let building := match c with
    | none => defaultMoves r enclosing
    | some c => (Building.check (c.validate enclosing)).andThen fun _ => movesOf r enclosing c
  andThen (building {}) fun (sel, _) => .ok sel

end PlanSearch.Assembly
