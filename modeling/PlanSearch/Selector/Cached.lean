import PlanSearch.Scale
import PlanSearch.Selector.Basic

/-!
# Selectors over a kept list

These selectors make a list of the candidates of another selector, at the start of a step or of a
phase, and drop it at its end. They differ in how they arrange the list, what they do with it at the
start of a pass, and how they pick from it.
-/

namespace PlanSearch

namespace Selector

variable {M S C : Type}

/-- An order over whole lists needs a list, and a list needs an end. -/
def checkCacheable (owner : String) (order : SelectionOrder) (cache : CacheType)
    (childNeverEnding : Bool) : Except SelectorError Unit :=
  if !cache.isCached then .error (.uncachedOrder order cache)
  else if childNeverEnding then .error (.neverEndingChild owner)
  else .ok ()

/-- A list of candidates that is made and dropped with a step or a phase. -/
structure Kept (child : Selector M S C) (D : Type) where
  child : child.State
  items : Array D := #[]
  /-- The list has been made and not been dropped. -/
  filled : Bool := false
  /-- How many items of the list were picked in this pass. -/
  cursor : Nat := 0

/-- What distinguishes the selectors over a kept list of items of type `D`. -/
structure Arrangement (M S C D : Type) where
  neverEnding : Bool
  /-- The list that is made of the candidates. -/
  arrange : S → Array C → Except Fault (Array D)
  /-- What becomes of the list at the start of a pass. -/
  shuffle : Array D → Draw M (Array D)
  /-- The candidate that comes after so many others of the pass. -/
  pick : Array D → Nat → Draw M (Option C)
  describe : String → Array D → String

variable {D : Type}

/-- Makes the list anew. -/
def Kept.fill {child : Selector M S C} (how : Arrangement M S C D) (set : Setting S)
    (st : Kept child D) : Draw M (Kept child D) := do
  let (candidates, inner) ← child.pass set st.child
  let items ← Draw.lift (how.arrange set.solution candidates)
  return { st with child := inner, items, filled := true }

/-- Drops the list. -/
def Kept.drop {child : Selector M S C} (st : Kept child D) : Kept child D :=
  { st with items := #[], filled := false }

/-- A selector over a kept list. -/
def keeping (child : Selector M S C) (cache : CacheType) (how : Arrangement M S C D) :
    Selector M S C where
  State := Kept child D
  start := { child := child.start }
  cacheType := cache
  neverEnding := how.neverEnding
  size s st := if st.filled then .ok st.items.size else child.size s st.child
  handle hook set st := do
    let inner ← child.handle hook set st.child
    let st := { st with child := inner }
    match hook, cache with
    | .phaseStarted, .phase => st.fill how set
    | .stepStarted, .step => st.fill how set
    | .stepEnded, .step => return st.drop
    | .phaseEnded, _ => return st.drop
    | _, _ => return st
  restart _ st := do
    let items ← how.shuffle st.items
    return { st with items, cursor := 0 }
  next _ st := do
    let candidate ← how.pick st.items st.cursor
    match candidate with
    | none => return (none, st)
    | some c => return (some c, { st with cursor := st.cursor + 1 })
  describe st := how.describe (child.describe st.child) st.items

private def pickInOrder (items : Array C) (cursor : Nat) : Draw M (Option C) := pure items[cursor]?

private def pickAny (items : Array C) (_ : Nat) : Draw M (Option C) :=
  if items.isEmpty then pure none else do return items[← Draw.below items.size]?

/-- The candidates as they come, picked in order or by uniform draws. -/
def Arrangement.asTheyCome (cache : CacheType) (isRandom : Bool) : Arrangement M S C C where
  neverEnding := isRandom
  arrange _ items := .ok items
  shuffle := pure
  pick := if isRandom then pickAny else pickInOrder
  describe inner items := Text.record "CachingSelector"
    [("child", inner), ("cache_type", cache.describe), ("random", Text.truth isRandom),
     ("cached", toString items.size)]

/-- The candidates as they are, in order or by uniform draws. -/
def caching (child : Selector M S C) (cache : CacheType) (isRandom : Bool) :
    Except SelectorError (Selector M S C) :=
  andThen (checkCacheable "caching selector" (.ofRandom isRandom) cache child.neverEnding) fun _ =>
    .ok <| child.keeping cache (.asTheyCome cache isRandom)

/-- The candidates in a new random arrangement in every pass. -/
def shuffling (child : Selector M S C) (cache : CacheType) :
    Except SelectorError (Selector M S C) :=
  andThen (checkCacheable "shuffling selector" .shuffled cache child.neverEnding) fun _ =>
    .ok <| child.keeping cache
      { neverEnding := false
        arrange := fun _ items => .ok items
        shuffle := fun items => Draw.generate (·.shuffle items)
        pick := pickInOrder
        describe := fun inner _ => Text.record "ShufflingSelector"
          [("child", inner), ("cache_type", cache.describe)] }

/-- The pairs of a key and a candidate, by key; equal keys keep their order. -/
def sortByKey (direction : SortDirection) (keyed : List (Float × C)) : List (Float × C) :=
  match direction with
  | .ascending => keyed.mergeSort fun a b => Decimal.notAfter a.1 b.1
  | .descending => keyed.mergeSort fun a b => Decimal.notAfter b.1 a.1

/-- The candidates by a key. -/
def sorting (child : Selector M S C) (cache : CacheType) (key : S → C → Except Fault Float)
    (direction : SortDirection) : Except SelectorError (Selector M S C) :=
  andThen (checkCacheable "sorting selector" .sorted cache child.neverEnding) fun _ =>
    .ok <| child.keeping cache
      { neverEnding := false
        arrange := fun s items => do
          let keyed ← items.toList.mapM fun c => do return (← key s c, c)
          return ((sortByKey direction keyed).map Prod.snd).toArray
        shuffle := pure
        pick := pickInOrder
        describe := fun inner _ => Text.record "SortingSelector"
          [("child", inner), ("cache_type", cache.describe), ("order", direction.describe)] }

end Selector

end PlanSearch
