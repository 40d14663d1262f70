import PlanSearch.Example.Queens
import PlanSearch.Example.Routing
import PlanSearch.Exchange.Move

/-!
# The examples as documents

Problems with all that is needed to state, solve and show them.
-/

namespace PlanSearch.Example

/-- A kind of problem, and how its solutions are shown. -/
structure Domain (S : Type) (sh : Shape) where
  problem : Problem S sh
  registry : Assembly.Registry S
  document : S → Document
  /-- The variable that is meant where none is named. -/
  mainVariable : String

namespace Domain

variable {S : Type} {sh : Shape}

/-- The variable that a text names, or the main one. -/
def find (x : Domain S sh) (name : Document) : Option (Assembly.RegisteredVariable S) :=
  let name := match name with
    | .text name => name
    | _ => x.mainVariable
  x.registry.vars.find? fun v => v.name == name

/-- The registry with those variables that are named, or with the main one. -/
def registryOf (x : Domain S sh) (names : Document) : Assembly.Registry S :=
  let names := match names with
    | .null => [Document.null]
    | names => names.items
  { x.registry with vars := names.filterMap x.find }

/-- The move that a document describes. -/
def move (x : Domain S sh) (d : Document) : Except ChainError (Move S) := Move.ofDocument x.find d

end Domain

/-- The queens of a document; the board has as many rows as queens unless their number is given. -/
def Queens.ofDocument (d : Document) : Queens :=
  let s := ofRows ((d "rows").items.map Document.nat?)
  { s with rowCount := (d "n").nat?.getD s.rowCount }

def Queens.domain : Domain Queens .simple where
  problem := problem
  registry := { vars := vars, indices := plugins }
  document s := .table [("rows", form s.rows), ("columns", form s.columns), ("score", form s.score)]
  mainVariable := row.name

/-- The depots, customers and routes of a document. -/
def Routing.ofDocument (d : Document) : Except Fault Routing :=
  let points (places : Document) := places.items.map fun p => (p[0].level, p[1].level)
  let s := ofLocations (points (d "depots")) (points (d "customers"))
  s.withRoutes s.depots ((d "routes").items.map fun route => route.items.map Document.nat)

def Routing.domain : Domain Routing .hardSoft where
  problem := problem
  registry := { vars := vars, indices := indexPlugins, handles := plugins }
  document s := .table
    [("routes", form s.routes), ("unassigned", form s.graph.unassignedCount),
     ("depot_x", form (s.depots.map fun h => s.locations[h.index]?.map fun (x, _) => x)),
     ("score", form s.score), ("valid", Form.validity s.graph)]
  mainVariable := previous.name

end PlanSearch.Example
