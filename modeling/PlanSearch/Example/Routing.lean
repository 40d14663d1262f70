import PlanSearch.Assembly.Registry
import PlanSearch.Problem

/-!
# Routes from depots to customers

Depots are anchors and customers are chained entities: every customer is visited right after a depot
or another customer. Customers outside all routes count against the hard level, the length of the
routes against the soft one.
-/

namespace PlanSearch.Example

structure Routing where
  graph : ChainGraph
  depots : List Handle
  customers : List Handle
  /-- Indexed by handles. -/
  locations : Array (Int64 × Int64)
  score : Option (Score .hardSoft)

namespace Routing

/-- Depots and customers at the given locations, without routes. -/
def ofLocations (depots customers : List (Int64 × Int64)) : Routing :=
  let graph := depots.foldl (fun g _ => g.addAnchor.2) .empty
  let graph := customers.foldl (fun g _ => g.addEntity.2) graph
  { graph
    depots := (List.range depots.length).map Handle.mk
    customers := (List.range customers.length).map fun i => ⟨depots.length + i⟩
    locations := (depots ++ customers).toArray
    score := none }

/-- Depots and customers with routes, each a list of customers by position. -/
def withRoutes (s : Routing) : List Handle → List (List Nat) → Except Fault Routing
  | _, [] => .ok s
  | depots, route :: routes =>
    match route.mapM fun i => s.customers[i]? with
    | none => .error .broken
    | some customers =>
      match depots with
      | [] => s.withRoutes [] routes
      | depot :: depots =>
        match s.graph.append depot customers with
        | (_, .error _) => .error .broken
        | (graph, .ok ()) => { s with graph }.withRoutes depots routes

/-- The customers visited from every depot, by position. -/
def routes (s : Routing) : List (List Nat) :=
  s.depots.map fun depot => (s.graph.trailing depot).filterMap fun h =>
    s.customers.findIdx? (· == h)

/-- The horizontal and the vertical distance of two places, added. -/
def manhattan (s : Routing) (a b : Handle) : Except Fault Int64 :=
  match s.locations[a.index]?, s.locations[b.index]? with
  | some (ax, ay), some (bx, by_) => do
    let dx ← Level.checked (ax.toInt - bx.toInt)
    let dx ← Level.checked dx.toInt.natAbs
    let dy ← Level.checked (ay.toInt - by_.toInt)
    let dy ← Level.checked dy.toInt.natAbs
    Level.checked (dx.toInt + dy.toInt)
  | _, _ => .error .broken

/-- How many customers are on no route, and the length of the way to the others. -/
def tally (s : Routing) : List Handle → Nat → Int64 → Except Fault (Nat × Int64)
  | [], unassigned, length => .ok (unassigned, length)
  | customer :: rest, unassigned, length =>
    match s.graph.predecessor customer with
    | none => s.tally rest (unassigned + 1) length
    | some previous => do
      let link ← s.manhattan previous customer
      let length ← Level.checked (length.toInt + link.toInt)
      s.tally rest unassigned length

/-- Few customers without a route, then short routes. -/
def problem : Problem Routing .hardSoft where
  score := Routing.score
  withScore s x := { s with score := x }
  isInitialized s := s.graph.unassignedCount == 0
  calculate s := do
    let (unassigned, length) ← s.tally s.customers 0 0
    let hard ← Level.checked (-(unassigned : Int))
    let soft ← Level.checked (-length.toInt)
    return Score.ofHardSoft hard soft

/-- Depots, then customers: what a customer can be visited after. -/
def stops (s : Routing) : List Handle := s.depots ++ s.customers

/-- What a customer is visited after. -/
def previous : ChainedVariable Routing where
  name := "previous"
  descriptorIndex := 0
  graph := Routing.graph
  withGraph s graph := { s with graph }

/-- The first coordinate of a depot, or zero where it is negative. -/
def depotX : PlainVariable Routing where
  name := "depot_x"
  descriptorIndex := 1
  get s i := (s.depots[i]?).bind fun h => (s.locations[h.index]?).map fun (x, _) => x.toInt.toNat
  set s i target := match target, s.depots[i]? with
    | some x, some h =>
      { s with locations := s.locations.modify h.index fun (_, y) => (Int64.ofNat x, y) }
    | _, _ => s

/-! ## Names for settings -/

private def gap (a b : Nat) : Float := Float.ofNat ((a - b) + (b - a))

/-- The named functions over depots and customers. -/
def plugins : Assembly.Plugins Routing Handle where
  filters :=
    [("even", fun _ h => h.index % 2 == 0), ("none", fun _ _ => false), ("all", fun _ _ => true),
     ("customers", fun s h => !s.graph.isAnchor h)]
  sorters :=
    [("value", fun _ h => .ok (Float.ofNat h.index)),
     ("reverse", fun _ h => .ok (-Float.ofNat h.index)),
     ("parity", fun _ h => .ok (Float.ofNat (h.index % 2))),
     ("x", fun s h => match s.locations[h.index]? with
        | some (x, _) => .ok x.toFloat
        | none => .error .broken)]
  weights :=
    [("value", fun _ h => .ok (Float.ofNat h.index)), ("one", fun _ _ => .ok 1.0),
     ("negative", fun _ _ => .ok (-1.0))]
  meters :=
    [("manhattan", fun s a b => (s.manhattan a b).map Int64.toFloat),
     ("gap", fun _ a b => .ok (gap a.index b.index)), ("zero", fun _ _ _ => .ok 0.0)]

/-- The named functions over indices. -/
def indexPlugins : Assembly.Plugins Routing Nat where
  filters := [("even", fun _ x => x % 2 == 0)]
  meters := [("gap", fun _ a b => .ok (gap a b))]

/-- All variables: the places of the customers, and the depots' coordinates below four. -/
def vars : List (Assembly.RegisteredVariable Routing) :=
  [.chained previous Routing.customers Routing.stops,
   .plain depotX (fun s => s.depots.length) fun _ => 4]

end Routing

end PlanSearch.Example
