import PlanSearch.Move.Basic
import PlanSearch.Selector.Basic

/-!
# Moves as candidates

Moves are made of an entity or a run of entities and a value. In their own order every entity is
combined with all values, and a pass over the values begins anew for every entity. In random order
both are drawn for every move.
-/

namespace PlanSearch

namespace Selector

variable {M S E V : Type}

/-- The next candidate to combine with values and what to combine it with: the states of the two
selectors and the candidate in use. -/
structure Pairing (entities : Selector M S E) (values : Selector M S V) where
  entities : entities.State
  values : values.State
  current : Option E := none

/-- Announces something to both selectors. -/
def Pairing.handle {entities : Selector M S E} {values : Selector M S V} (hook : Hook)
    (set : Setting S) (st : Pairing entities values) : Draw M (Pairing entities values) := do
  let es ← entities.handle hook set st.entities
  let vs ← values.handle hook set st.values
  return ⟨es, vs, if hook = .phaseEnded then none else st.current⟩

/-- Begins with the first entity again. -/
def Pairing.restart {entities : Selector M S E} {values : Selector M S V}
    (set : Setting S) (st : Pairing entities values) : Draw M (Pairing entities values) := do
  return ⟨← entities.restart set st.entities, st.values, none⟩

/-- Draws an entity and a value. -/
def Pairing.drawPair {entities : Selector M S E} {values : Selector M S V} (set : Setting S)
    (st : Pairing entities values) : Draw M (Option (E × V) × Pairing entities values) := do
  let (entity, es) ← entities.nextOrRestart set st.entities
  let st := { st with entities := es }
  match entity with
  | none => return (none, st)
  | some e =>
    let (value, vs) ← values.nextOrRestart set st.values
    return (value.map fun v => (e, v), { st with values := vs })

/-- The next pair in order: the next value for the entity in use or, when there is none, the first
one for the next entity that has one. -/
def Pairing.nextPair {entities : Selector M S E} {values : Selector M S V} (set : Setting S) :
    Nat → Pairing entities values → Draw M (Option (E × V) × Pairing entities values)
  | 0, _ => Draw.fail .exhausted
  | rounds + 1, st => do
    let (entity, st) ← match st.current with
      | some e => pure (some e, st)
      | none => do
        let (entity, es) ← entities.next set st.entities
        match entity with
        | none => pure (none, { st with entities := es })
        | some e => do
          let vs ← values.restart set st.values
          pure (some e, ⟨es, vs, some e⟩)
    match entity with
    | none => return (none, st)
    | some e =>
      let (value, vs) ← values.next set st.values
      match value with
      | some v => return (some (e, v), { st with values := vs })
      | none => nextPair set rounds { st with values := vs, current := none }

/-- The number of pairs, or the largest count. -/
def pairCount (entities values : Nat) : Nat := Count.saturated (entities * values)

/-- Moves that give an entity a value. -/
def changes (entities : Selector M S E) (values : Selector M S V) (isRandom : Bool)
    (move : E → V → Move S) (variable_ : String) : Selector M S (Move S) where
  State := Pairing entities values
  start := { entities := entities.start, values := values.start }
  neverEnding := isRandom || entities.neverEnding || values.neverEnding
  size s st := do
    let es ← entities.size s st.entities
    let vs ← values.size s st.values
    return pairCount es vs
  handle hook set st := st.handle hook set
  restart set st := st.restart set
  next set st := do
    let (pair, st) ← if isRandom then st.drawPair set else st.nextPair set set.patience
    return (pair.map fun (e, v) => move e v, st)
  describe st := Text.record "ChangeMoveSelector"
    [("variable", variable_), ("entities", entities.describe st.entities),
     ("values", values.describe st.values), ("random", Text.truth isRandom)]

/-- The move that places a run after an element. -/
def partMove (v : ChainedVariable S) (run : SubChain) (target : Handle) (reversing : Bool) :
    Move S :=
  if reversing then .reverseChangePart v run (some target) else .changePart v run (some target)

/-- Moves that place a run of a chain after an element, in its order and, where asked for, also in
the opposite one if that makes a difference. -/
def subChainChanges (v : ChainedVariable S) (runs : Selector M S SubChain)
    (values : Selector M S Handle) (reversingToo isRandom : Bool) : Selector M S (Move S) where
  State := Pairing runs values × Option (Move S)
  start := ({ entities := runs.start, values := values.start }, none)
  neverEnding := isRandom || runs.neverEnding || values.neverEnding
  size s st := do
    let rs ← runs.size s st.1.entities
    let vs ← values.size s st.1.values
    let pairs := pairCount rs vs
    return if reversingToo then Count.saturated (pairs * 2) else pairs
  handle hook set st := do
    return (← st.1.handle hook set, if hook = .phaseEnded then none else st.2)
  restart set st := do return (← st.1.restart set, none)
  next set st := do
    let reverses (run : SubChain) : Bool := reversingToo && decide (1 < run.length)
    if isRandom then
      let (pair, pairing) ← st.1.drawPair set
      match pair with
      | none => return (none, pairing, st.2)
      | some (run, target) =>
        let reversing ← if reverses run then Draw.generate (fun g => .ok g.coin) else pure false
        return (some (partMove v run target reversing), pairing, st.2)
    else match st.2 with
      | some reverse => return (some reverse, st.1, none)
      | none =>
        let (pair, pairing) ← st.1.nextPair set set.patience
        match pair with
        | none => return (none, pairing, none)
        | some (run, target) =>
          let pending := if reverses run then some (partMove v run target true) else none
          return (some (partMove v run target false), pairing, pending)
  describe st := Text.record "SubChainChangeMoveSelector"
    [("variable", v.describe), ("sub_chains", runs.describe st.1.entities),
     ("values", values.describe st.1.values),
     ("select_reversing_move_too", Text.truth reversingToo), ("random", Text.truth isRandom)]

end Selector

end PlanSearch
