import PlanSearch.Proofs.Selector.Driven
import PlanSearch.Selector.Change

/-!
# The passes that values are drawn from

A selector of moves drives the selector of its values by itself. To see how, the calls are written
down. In its own order, every value that is drawn in a step is from a pass that began in that step.
In random order the selector of moves begins a pass over the values only where the last one has
come to its end, so that a step goes on with the pass in which the step before it stopped.
-/

namespace PlanSearch

namespace Selector

variable {M S C E V α β : Type}

/-! ## Calls -/

/-- A call of a selector. -/
inductive Call where
  | announced (hook : Hook)
  | restarted
  /-- A candidate was asked for, and there was one or none. -/
  | drawn (found : Bool)
  deriving DecidableEq

/-- The selector with the list of all calls so far, the last one first. -/
def traced (sel : Selector M S C) : Selector M S C where
  State := sel.State × List Call
  start := (sel.start, [])
  cacheType := sel.cacheType
  neverEnding := sel.neverEnding
  size s st := sel.size s st.1
  handle hook set st := do return (← sel.handle hook set st.1, .announced hook :: st.2)
  restart set st := do return (← sel.restart set st.1, .restarted :: st.2)
  next set st := do
    let (candidate, inner) ← sel.next set st.1
    return (candidate, inner, .drawn candidate.isSome :: st.2)
  describe st := sel.describe st.1

/-- Writing down the calls changes nothing. -/
theorem mirrors_traced (sel : Selector M S C) : Mirrors sel.traced sel Prod.fst where
  start := rfl
  handle hook set st := by
    simp only [traced, map_bind, map_pure, bind_pure]
  restart set st := by
    simp only [traced, map_bind, map_pure, bind_pure]
  next set st := by
    simp only [traced, map_bind, map_pure]
    exact bind_pure _

/-- The calls since the last step began. -/
def sinceStep (calls : List Call) : List Call := calls.takeWhile (· ≠ .announced .stepStarted)

/-- Every candidate that was drawn is from a pass that began in the same step, provided, in random
order, that a draw in that step had found the pass before at its end. -/
def FromNewPasses (isRandom : Bool) (calls : List Call) : Prop :=
  ∀ later earlier, calls = later ++ .drawn true :: earlier →
    (.restarted ∈ sinceStep earlier ↔ (isRandom = true → .drawn false ∈ sinceStep earlier))

section Calls

variable {call : Call} {calls : List Call} {isRandom : Bool}

@[simp] theorem sinceStep_nil : sinceStep [] = [] := rfl

@[simp] theorem sinceStep_stepStarted : sinceStep (.announced .stepStarted :: calls) = [] := rfl

@[simp] theorem sinceStep_restarted :
    sinceStep (.restarted :: calls) = .restarted :: sinceStep calls := rfl

@[simp] theorem sinceStep_drawn (found : Bool) :
    sinceStep (.drawn found :: calls) = .drawn found :: sinceStep calls := rfl

theorem sinceStep_announced {hook : Hook} (other : hook ≠ .stepStarted) :
    sinceStep (.announced hook :: calls) = .announced hook :: sinceStep calls := by
  cases hook with
  | stepStarted => exact absurd rfl other
  | _ => rfl

theorem FromNewPasses.nil : FromNewPasses isRandom [] := by
  intro later earlier same
  cases later <;> cases same

/-- All that matters is what came before a candidate was drawn. -/
theorem FromNewPasses.cons (before : FromNewPasses isRandom calls)
    (new : call = .drawn true →
      (.restarted ∈ sinceStep calls ↔ (isRandom = true → .drawn false ∈ sinceStep calls))) :
    FromNewPasses isRandom (call :: calls) := by
  intro later earlier same
  cases later with
  | nil =>
    obtain ⟨rfl, rfl⟩ := List.cons.inj same
    exact new rfl
  | cons first later =>
    obtain ⟨-, rfl⟩ := List.cons.inj same
    exact before later earlier rfl

end Calls

/-! ### The passes of a selector of moves in random order -/

/-- A pass was begun in this step if and only if one was found at its end in this step. -/
structure Renewing (calls : List Call) : Prop where
  fresh : FromNewPasses true calls
  ended : .restarted ∈ sinceStep calls ↔ .drawn false ∈ sinceStep calls

namespace Renewing

variable {calls : List Call}

theorem nil : Renewing [] := ⟨.nil, by simp⟩

theorem announced (renewing : Renewing calls) (hook : Hook) :
    Renewing (.announced hook :: calls) := by
  refine ⟨renewing.fresh.cons (by simp), ?_⟩
  by_cases started : hook = .stepStarted
  · subst started
    simp
  · rw [sinceStep_announced started]
    simpa using renewing.ended

theorem drawn (renewing : Renewing calls) : Renewing (.drawn true :: calls) := by
  refine ⟨renewing.fresh.cons fun _ => ?_, ?_⟩
  · simpa using renewing.ended
  · simpa using renewing.ended

/-- The end of a pass is followed by the beginning of another one. -/
theorem renewed (renewing : Renewing calls) (found : Bool) :
    Renewing (.drawn found :: .restarted :: .drawn false :: calls) := by
  have ended : FromNewPasses true (.restarted :: .drawn false :: calls) :=
    (renewing.fresh.cons (by simp)).cons (by simp)
  exact ⟨ended.cons fun _ => by simp, by simp⟩

end Renewing

theorem Renewing.of_nextOrRestart {values : Selector M S V} {set : Setting S}
    {st st' : values.traced.State} {v : Option V} {w w' : World M} (renewing : Renewing st.2)
    (ran : values.traced.nextOrRestart set st w = .ok ((v, st'), w')) : Renewing st'.2 := by
  obtain ⟨⟨candidate, first⟩, _, drawn, ran⟩ := exists_of_draw_bind ran
  obtain ⟨⟨_, inner⟩, _, -, same⟩ := exists_of_draw_bind drawn
  cases same
  cases candidate with
  | some c =>
    cases ran
    exact renewing.drawn
  | none =>
    obtain ⟨second, _, restarted, ran⟩ := exists_of_draw_bind ran
    obtain ⟨_, _, -, same⟩ := exists_of_draw_bind restarted
    cases same
    obtain ⟨⟨_, _⟩, _, -, same⟩ := exists_of_draw_bind ran
    cases same
    exact renewing.renewed _

/-! ### Moves made of entities and values -/

/-- The entity in use or, where there is none, the next one, for which a pass over the values
begins. -/
def Pairing.advance {entities : Selector M S E} {values : Selector M S V} (set : Setting S)
    (st : Pairing entities values) : Draw M (Option E × Pairing entities values) :=
  match st.current with
  | some e => pure (some e, st)
  | none => do
    let (entity, es) ← entities.next set st.entities
    match entity with
    | none => return (none, { st with entities := es })
    | some e => return (some e, ⟨es, ← values.restart set st.values, some e⟩)

variable {entities : Selector M S E} {values : Selector M S V} {set : Setting S}

/-- The next pair in order is that of the entity in use and the next value. -/
theorem Pairing.nextPair_succ (rounds : Nat) (st : Pairing entities values) :
    st.nextPair set (rounds + 1) = (do
      let (entity, st) ← st.advance set
      match entity with
      | none => return (none, st)
      | some e =>
        let (value, vs) ← values.next set st.values
        match value with
        | some v => return (some (e, v), { st with values := vs })
        | none => nextPair set rounds { st with values := vs, current := none }) := by
  rw [nextPair, advance]
  cases st.current with
  | some e => rfl
  | none =>
    simp only [bind_assoc]
    congr
    funext found
    obtain ⟨_ | e, es⟩ := found
    · rfl
    · exact (bind_assoc (values.restart set st.values) _ _).symm

/-- What is known of the calls between two calls of the selector of moves. In its own order, an
entity in use within a pass has had its values begun with in this step. -/
def Pairing.Tracked : (isRandom inPass : Bool) → Pairing entities values.traced → Prop
  | true, _, st => Renewing st.values.2
  | false, inPass, st => FromNewPasses false st.values.2 ∧
      (inPass = true → st.current = none ∨ .restarted ∈ sinceStep st.values.2)

namespace Pairing.Tracked

variable {isRandom inPass : Bool} {st st' : Pairing entities values.traced} {w w' : World M}

theorem fresh (tracked : st.Tracked isRandom inPass) : FromNewPasses isRandom st.values.2 := by
  cases isRandom with
  | true => exact Renewing.fresh tracked
  | false => exact And.left tracked

theorem start (isRandom inPass : Bool) :
    Tracked isRandom inPass (⟨entities.start, values.traced.start, none⟩ : Pairing _ _) := by
  cases isRandom with
  | true => exact Renewing.nil
  | false => exact ⟨.nil, fun _ => .inl rfl⟩

theorem handle (tracked : st.Tracked isRandom inPass) {hook : Hook}
    (ran : st.handle hook set w = .ok (st', w')) : st'.Tracked isRandom false := by
  obtain ⟨es, _, -, ran⟩ := exists_of_draw_bind ran
  obtain ⟨_, _, announced, same⟩ := exists_of_draw_bind ran
  obtain ⟨vs, _, -, same'⟩ := exists_of_draw_bind announced
  cases same'
  cases same
  cases isRandom with
  | true => exact Renewing.announced tracked hook
  | false => exact ⟨tracked.fresh.cons nofun, nofun⟩

theorem restart (tracked : st.Tracked isRandom inPass) (ran : st.restart set w = .ok (st', w')) :
    st'.Tracked isRandom true := by
  obtain ⟨es, _, -, same⟩ := exists_of_draw_bind ran
  cases same
  cases isRandom with
  | true => exact tracked
  | false => exact ⟨tracked.fresh, fun _ => .inl rfl⟩

/-- In random order an entity is drawn, and then a value. -/
theorem drawPair (tracked : st.Tracked true inPass) {pair : Option (E × V)}
    (ran : st.drawPair set w = .ok ((pair, st'), w')) : st'.Tracked true true := by
  obtain ⟨⟨entity, es⟩, _, -, ran⟩ := exists_of_draw_bind ran
  cases entity with
  | none =>
    cases ran
    exact tracked
  | some e =>
    obtain ⟨⟨value, vs⟩, _, drawn, same⟩ := exists_of_draw_bind ran
    cases same
    have renewing : Renewing st.values.2 := tracked
    exact renewing.of_nextOrRestart drawn

/-- In its own order an entity that is in use has had its values begun with in this step. -/
theorem advance (tracked : st.Tracked false true) {entity : Option E}
    (ran : st.advance set w = .ok ((entity, st'), w')) :
    FromNewPasses false st'.values.2 ∧
      (entity.isSome → .restarted ∈ sinceStep st'.values.2) ∧
      (entity.isNone → st'.current = none) := by
  obtain ⟨fresh, begun⟩ := tracked
  unfold Pairing.advance at ran
  cases inUse : st.current with
  | some e =>
    rw [inUse] at ran begun
    cases ran
    exact ⟨fresh, fun _ => (begun rfl).resolve_left (Option.some_ne_none e), nofun⟩
  | none =>
    rw [inUse] at ran
    obtain ⟨⟨candidate, es⟩, _, -, ran⟩ := exists_of_draw_bind ran
    cases candidate with
    | none =>
      cases ran
      exact ⟨fresh, nofun, fun _ => rfl⟩
    | some e =>
      obtain ⟨vs, _, restarted, same⟩ := exists_of_draw_bind ran
      obtain ⟨_, _, -, same'⟩ := exists_of_draw_bind restarted
      cases same'
      cases same
      exact ⟨fresh.cons nofun, fun _ => by simp, nofun⟩

/-- In its own order the values are those for the entity in use. -/
theorem nextPair (rounds : Nat) (tracked : st.Tracked false true) {pair : Option (E × V)}
    (ran : st.nextPair set rounds w = .ok ((pair, st'), w')) : st'.Tracked false true := by
  induction rounds generalizing st w with
  | zero => cases ran
  | succ rounds ih =>
    rw [nextPair_succ] at ran
    obtain ⟨⟨entity, next⟩, _, found, ran⟩ := exists_of_draw_bind ran
    obtain ⟨fresh, begun, ended⟩ := tracked.advance found
    cases entity with
    | none =>
      cases ran
      exact ⟨fresh, fun _ => .inl (ended rfl)⟩
    | some e =>
      obtain ⟨⟨value, vs⟩, _, drawn, ran⟩ := exists_of_draw_bind ran
      obtain ⟨⟨candidate, inner⟩, _, -, same⟩ := exists_of_draw_bind drawn
      cases same
      have fresh : FromNewPasses false (.drawn value.isSome :: next.values.2) :=
        fresh.cons fun _ => by simpa using begun rfl
      cases value with
      | some x =>
        cases ran
        exact ⟨fresh, fun _ => .inr (by simpa using begun rfl)⟩
      | none => exact ih ⟨fresh, fun _ => .inl rfl⟩ ran

end Pairing.Tracked

/-- The calls of a selector of changes. -/
theorem Reached.tracked_changes {isRandom : Bool} {move : E → V → Move S} {variable_ : String}
    {shown : Point S → Setting S → Prop} {p : Point S} {inPass : Bool}
    {st : (changes entities values.traced isRandom move variable_).State}
    (reached : Reached _ shown p inPass st) : Pairing.Tracked isRandom inPass st := by
  induction reached with
  | start => exact .start isRandom false
  | announced before due shows ran ih => exact ih.handle ran
  | restarted before shows ran ih => exact ih.restart ran
  | drawn before shows ran ih =>
    cases isRandom with
    | true =>
      obtain ⟨⟨pair, next⟩, _, drawn, same⟩ := exists_of_draw_bind ran
      cases same
      exact ih.drawPair drawn
    | false =>
      obtain ⟨⟨pair, next⟩, _, drawn, same⟩ := exists_of_draw_bind ran
      cases same
      exact ih.nextPair _ drawn

/-- The calls of a selector of moves of runs. -/
theorem Reached.tracked_subChainChanges {v : ChainedVariable S} {runs : Selector M S SubChain}
    {values : Selector M S Handle} {reversingToo isRandom : Bool}
    {shown : Point S → Setting S → Prop} {p : Point S} {inPass : Bool}
    {st : (subChainChanges v runs values.traced reversingToo isRandom).State}
    (reached : Reached _ shown p inPass st) : Pairing.Tracked isRandom inPass st.1 := by
  induction reached with
  | start => exact .start isRandom false
  | announced before due shows ran ih =>
    obtain ⟨next, _, announced, same⟩ := exists_of_draw_bind ran
    cases same
    exact ih.handle announced
  | restarted before shows ran ih =>
    obtain ⟨next, _, restarted, same⟩ := exists_of_draw_bind ran
    cases same
    exact ih.restart restarted
  | @drawn _ _ st st' set c w w' before shows ran ih =>
    cases isRandom with
    | true =>
      obtain ⟨⟨pair, next⟩, _, drawn, ran⟩ := exists_of_draw_bind ran
      have tracked := ih.drawPair drawn
      cases pair with
      | none =>
        cases ran
        exact tracked
      | some pair =>
        dsimp only at ran
        split at ran
        · obtain ⟨_, _, -, same⟩ := exists_of_draw_bind ran
          cases same
          exact tracked
        · cases ran
          exact tracked
    | false =>
      obtain ⟨pairing, pending⟩ := st
      cases pending with
      | some reverse =>
        cases ran
        exact ih
      | none =>
        obtain ⟨⟨pair, next⟩, _, drawn, ran⟩ := exists_of_draw_bind ran
        have tracked := ih.nextPair _ drawn
        cases pair with
        | none =>
          cases ran
          exact tracked
        | some pair =>
          cases ran
          exact tracked

/-! ### The runs of a selector of moves -/

section Mirrored

variable {values' : Selector M S V} {forget : values'.State → values.State}

/-- The state of a selector of moves, of whose values a part is forgotten. -/
def Pairing.forgetting (forget : values'.State → values.State) (st : Pairing entities values') :
    Pairing entities values := ⟨st.entities, forget st.values, st.current⟩

variable (mirrors : Mirrors values' values forget)
include mirrors

theorem Mirrors.nextOrRestart (set : Setting S) (st : values'.State) :
    Prod.map id forget <$> values'.nextOrRestart set st =
      values.nextOrRestart set (forget st) := by
  refine draw_map_bind (mirrors.next set st) ?_
  rintro ⟨_ | c, first⟩
  · exact draw_map_bind (mirrors.restart set first) fun second => mirrors.next set second
  · rfl

theorem Mirrors.handlePair (hook : Hook) (st : Pairing entities values') :
    Pairing.forgetting forget <$> st.handle hook set =
      (st.forgetting forget).handle hook set := by
  refine draw_map_bind (id_map _) fun es => ?_
  exact draw_map_bind (mirrors.handle hook set st.values) fun vs => rfl

theorem Mirrors.drawPair (st : Pairing entities values') :
    Prod.map id (Pairing.forgetting forget) <$> st.drawPair set =
      (st.forgetting forget).drawPair set := by
  refine draw_map_bind (id_map _) ?_
  rintro ⟨_ | e, es⟩
  · rfl
  · exact draw_map_bind (mirrors.nextOrRestart set st.values) fun drawn => rfl

theorem Mirrors.advance (st : Pairing entities values') :
    Prod.map id (Pairing.forgetting forget) <$> st.advance set =
      (st.forgetting forget).advance set := by
  obtain ⟨es, vs, current⟩ := st
  cases current with
  | some e => rfl
  | none =>
    refine draw_map_bind (id_map _) ?_
    rintro ⟨_ | e, es⟩
    · rfl
    · exact draw_map_bind (mirrors.restart set vs) fun vs => rfl

theorem Mirrors.nextPair (rounds : Nat) (st : Pairing entities values') :
    Prod.map id (Pairing.forgetting forget) <$> st.nextPair set rounds =
      (st.forgetting forget).nextPair set rounds := by
  induction rounds generalizing st with
  | zero => rfl
  | succ rounds ih =>
    rw [Pairing.nextPair_succ, Pairing.nextPair_succ]
    refine draw_map_bind (mirrors.advance st) ?_
    rintro ⟨_ | e, next⟩
    · rfl
    · refine draw_map_bind (mirrors.next set next.values) ?_
      rintro ⟨_ | v, vs⟩
      · exact ih _
      · rfl

theorem Mirrors.changes (isRandom : Bool) (move : E → V → Move S) (variable_ : String) :
    Mirrors (changes entities values' isRandom move variable_)
      (changes entities values isRandom move variable_) (Pairing.forgetting forget) where
  start := by
    change Pairing.mk _ (forget values'.start) none = _
    rw [mirrors.start]
    rfl
  handle hook set st := mirrors.handlePair hook st
  restart set st := draw_map_bind (id_map _) fun es => rfl
  next set st := by
    cases isRandom with
    | true => exact draw_map_bind (mirrors.drawPair st) fun drawn => rfl
    | false => exact draw_map_bind (mirrors.nextPair set.patience st) fun drawn => rfl

end Mirrored

theorem Mirrors.subChainChanges {v : ChainedVariable S} {runs : Selector M S SubChain}
    {values values' : Selector M S Handle} {forget : values'.State → values.State}
    (mirrors : Mirrors values' values forget) (reversingToo isRandom : Bool) :
    Mirrors (subChainChanges v runs values' reversingToo isRandom)
      (subChainChanges v runs values reversingToo isRandom)
      (Prod.map (Pairing.forgetting forget) id) where
  start := by
    change (Pairing.mk _ (forget values'.start) none, none) = _
    rw [mirrors.start]
    rfl
  handle hook set st := draw_map_bind (mirrors.handlePair hook st.1) fun next => rfl
  restart set st := by
    refine draw_map_bind (f := Pairing.forgetting forget) ?_ fun next => rfl
    exact draw_map_bind (id_map _) fun es => rfl
  next set st := by
    cases isRandom with
    | true =>
      refine draw_map_bind (mirrors.drawPair st.1) ?_
      rintro ⟨_ | ⟨run, target⟩, next⟩
      · rfl
      · dsimp only [Prod.map_apply, id]
        split
        · exact draw_map_bind (id_map _) fun reversing => rfl
        · rfl
    | false =>
      obtain ⟨pairing, _ | reverse⟩ := st
      · refine draw_map_bind (mirrors.nextPair set.patience pairing) ?_
        rintro ⟨_ | ⟨run, target⟩, next⟩
        · rfl
        · rfl
      · rfl

/-- The passes from which a selector of moves draws its values, in whatever way it is driven: its
runs are those in which the calls of the selector of values are written down. In its own order, all
values that are drawn in a step are from passes begun in that step. In random order, a value is from
such a pass if and only if an earlier pass was found at its end in that step. -/
theorem values_fromNewPasses (isRandom : Bool) (shown : Point S → Setting S → Prop) :
    (∀ (entities : Selector M S E) (values : Selector M S V) (move : E → V → Move S)
        (variable_ : String),
      let real := changes entities values isRandom move variable_
      let traced := changes entities values.traced isRandom move variable_
      (∀ p inPass st, real.Reached shown p inPass st ↔
        ∃ st', traced.Reached shown p inPass st' ∧ st'.forgetting Prod.fst = st) ∧
      ∀ p inPass st, traced.Reached shown p inPass st → FromNewPasses isRandom st.values.2) ∧
    (∀ (v : ChainedVariable S) (runs : Selector M S SubChain) (values : Selector M S Handle)
        (reversingToo : Bool),
      let real := subChainChanges v runs values reversingToo isRandom
      let traced := subChainChanges v runs values.traced reversingToo isRandom
      (∀ p inPass st, real.Reached shown p inPass st ↔
        ∃ st', traced.Reached shown p inPass st' ∧
          (st'.1.forgetting Prod.fst, st'.2) = st) ∧
      ∀ p inPass st, traced.Reached shown p inPass st → FromNewPasses isRandom st.1.values.2) := by
  constructor
  · intro entities values move variable_ real traced
    refine ⟨fun p inPass st => ?_, fun p inPass st reached => ?_⟩
    · exact (values.mirrors_traced.changes isRandom move variable_).reached_iff
    · exact (Reached.tracked_changes reached).fresh
  · intro v runs values reversingToo real traced
    refine ⟨fun p inPass st => ?_, fun p inPass st reached => ?_⟩
    · exact (values.mirrors_traced.subChainChanges reversingToo isRandom).reached_iff
    · exact (Reached.tracked_subChainChanges reached).fresh

/-- Moves of one entity, whose two values are taken in turn, in random order. -/
def toggles : Selector Unit Unit (Move Unit) :=
  changes (source (fun _ => #[0]) false) (source (fun _ => #[0, 1]) false).traced true
    (fun e x => .change { name := "", descriptorIndex := 0, get := fun _ _ => none
                          set := fun s _ _ => s } e (some x)) ""

/-- The second step goes on with the pass that the first one began: it draws the second value,
although no pass has begun since. -/
theorem values_fromNewPasses_toggles (w : World Unit) :
    ∃ st, toggles.Reached (fun _ _ => True) (.step () ()) true st ∧ st.values.1 = (2 : Nat) ∧
      FromNewPasses true st.values.2 ∧
      ∃ earlier, st.values.2 = .drawn true :: earlier ∧ .restarted ∉ sinceStep earlier := by
  let set : Setting Unit := ⟨(), 0⟩
  -- the calls of two steps in which one move each is drawn, and the states that they lead to
  let cursor (entity value : Nat) (calls : List Call) : toggles.State :=
    ⟨entity, (value, calls), none⟩
  let begun : List Call := [.announced .stepStarted, .announced .phaseStarted]
  let ended : List Call := .announced .stepEnded :: .drawn true :: begun
  have hook₁ : toggles.handle .phaseStarted set toggles.start w =
    .ok (cursor 0 0 [.announced .phaseStarted], w) := rfl
  have hook₂ : toggles.handle .stepStarted set (cursor 0 0 [.announced .phaseStarted]) w =
    .ok (cursor 0 0 begun, w) := rfl
  have pass₁ : toggles.restart set (cursor 0 0 begun) w = .ok (cursor 0 0 begun, w) := rfl
  have draw₁ : toggles.next set (cursor 0 0 begun) w =
    .ok ((_, cursor 1 1 (.drawn true :: begun)), w) := rfl
  have hook₃ : toggles.handle .stepEnded set (cursor 1 1 (.drawn true :: begun)) w =
    .ok (cursor 1 1 ended, w) := rfl
  have hook₄ : toggles.handle .stepStarted set (cursor 1 1 ended) w =
    .ok (cursor 1 1 (.announced .stepStarted :: ended), w) := rfl
  have pass₂ : toggles.restart set (cursor 1 1 (.announced .stepStarted :: ended)) w =
    .ok (cursor 0 1 (.announced .stepStarted :: ended), w) := rfl
  have draw₂ : toggles.next set (cursor 0 1 (.announced .stepStarted :: ended)) w =
    .ok ((_, cursor 1 2 (.drawn true :: .announced .stepStarted :: ended)), w) := rfl
  have step₁ : toggles.Reached (fun _ _ => True) (.step () ()) true (cursor 1 1 _) :=
    .drawn (.restarted (.announced (.announced .start rfl trivial hook₁) rfl trivial hook₂) trivial
      pass₁) trivial draw₁
  have step₂ : toggles.Reached (fun _ _ => True) (.step () ()) true (cursor 1 2 _) :=
    .drawn (.restarted (.announced (.announced step₁ rfl trivial hook₃) rfl trivial hook₄) trivial
      pass₂) trivial draw₂
  have passes := (((values_fromNewPasses true fun _ _ => True).1 _ _ _ _).2 _ _ _ step₂)
  exact ⟨_, step₂, rfl, passes, _, rfl, by decide⟩

end Selector

end PlanSearch
