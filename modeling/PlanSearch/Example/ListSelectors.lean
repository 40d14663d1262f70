import PlanSearch.Config.Read
import PlanSearch.Example.Lists
import PlanSearch.Exchange.Form
import PlanSearch.Selector.Filter
import PlanSearch.Selector.Nearby
import PlanSearch.Selector.Roulette
import PlanSearch.Selector.Union

/-!
# Selectors over lists as documents

Every table names one kind of selector and holds the selectors under it.
-/

namespace PlanSearch.Example

/-- A selector of numbers out of lists. -/
abbrev ListSelector := Selector (Recordings Int64) Lists Int64

namespace Lists

/-- A cache that is none unless it is named. -/
def cacheOf (d : Document) : CacheType := (Config.readNamed Config.cacheNames d).getD .justInTime

private def recorderOf (d : Document) : Recorder (Recordings Int64) Int64 :=
  Recordings.recorder d.string

/-- The selector of a document that is nested less deeply than the given number. -/
def nestedSelector {ε : Type} (refuse : SelectorError → ε)
    (distribution : Document → Except ε Nearby.Distribution) :
    Nat → Document → Except ε ListSelector
  | 0, _ => .ok (.source (fun _ => #[]) false)
  | depth + 1, d =>
    let child (f : ListSelector → Except SelectorError ListSelector) : Except ε ListSelector := do
      let c ← nestedSelector refuse distribution depth (d "child")
      (f c).mapError refuse
    let cache := cacheOf (d "cache")
    let isRandom := (d "random").flag
    match (d "t").string with
    | "leaf" => .ok (.source (fun s => (s.getD (d "k").nat []).toArray) isRandom)
    | "caching" => child (·.caching cache isRandom)
    | "shuffling" => child (·.shuffling cache)
    | "sorting" => child (·.sorting cache (key (d "key").string)
        ((Config.readNamed Config.directionNames (d "order")).getD .ascending))
    | "probability" => child (·.probability cache (key (d "weight").string))
    | "filtering" => child fun c => .ok (c.filtering (filter (d "filter").string))
    | "limit" => child fun c => .ok (c.limited (d "limit").nat)
    | "union" => do
      let children ← (d "children").items.mapM (nestedSelector refuse distribution depth)
      return .union children isRandom
    | "record" => child fun c => .ok (c.recording (recorderOf (d "id")))
    | "replay" => .ok (.replaying (recorderOf (d "id")))
    | _ => andThen ((d "distribution").present.mapM distribution) fun chosen => child fun c =>
        c.nearby (recorderOf (d "origin")) (fun _ => meter (d "meter").string) chosen
          (d "limit").nat?

/-- The selector that a document describes. -/
def selector {ε : Type} (refuse : SelectorError → ε)
    (distribution : Document → Except ε Nearby.Distribution) (d : Document) :
    Except ε ListSelector :=
  nestedSelector refuse distribution (d.depth + 1) d

/-- The lists of a document. -/
def ofDocument (d : Document) : Lists := d.items.map fun l => l.items.map Document.level

end Lists

end PlanSearch.Example
