import PlanSearch.Proofs.Assembly.Passes
import PlanSearch.Proofs.Selector.Repeated
import PlanSearch.Proofs.Selector.Runs

/-!
# Moves of runs from settings

In its own order a selector of moves goes through the runs of chains, as they were when the pass, the
step or the phase began, and for each run through the values. Of the settings of the runs, the check
lets pass the order and the cache, which are followed, and the name, the limit and the direction of
sorting, which nothing reads.
-/

namespace PlanSearch

namespace Selector

variable {M S E V I : Type}

/-! ## Where a search leads the parts -/

section Led

variable {entities : Selector M S E} {values : Selector M S V} {shown : Point S → Setting S → Prop}
variable {p p' : Point S} {inPass : Bool} {set : Setting S} {w w' : World M}

/-- Both parts are in states to which the calls of a search lead them. Within a pass they are in
passes of their own, the values as long as an entity is in use. -/
structure Pairing.Led (shown : Point S → Setting S → Prop) (p : Point S) (inPass : Bool)
    (st : Pairing entities values) : Prop where
  entities : ∃ within, entities.Reached shown p within st.entities ∧ (inPass = true → within = true)
  values : ∃ within, values.Reached shown p within st.values ∧
    (inPass = true → st.current.isSome → within = true)

namespace Pairing.Led

variable {st st' : Pairing entities values}

theorem handle (led : st.Led shown p inPass) {hook : Hook}
    (due : p.after hook set.solution = some p') (shows : shown p' set)
    (ran : st.handle hook set w = .ok (st', w')) : st'.Led shown p' false := by
  obtain ⟨⟨_, entities, -⟩, ⟨_, values, -⟩⟩ := led
  obtain ⟨es, _, ranE, ran⟩ := exists_of_draw_bind ran
  obtain ⟨vs, _, ranV, same⟩ := exists_of_draw_bind ran
  cases same
  exact ⟨⟨_, .announced entities due shows ranE, nofun⟩, ⟨_, .announced values due shows ranV, nofun⟩⟩

variable {first now : S}

theorem restart (led : st.Led shown (.step first now) inPass) (shows : shown (.step first now) set)
    (ran : st.restart set w = .ok (st', w')) : st'.Led shown (.step first now) true := by
  obtain ⟨⟨_, entities, -⟩, ⟨_, values, -⟩⟩ := led
  obtain ⟨es, _, ranE, same⟩ := exists_of_draw_bind ran
  cases same
  exact ⟨⟨_, .restarted entities shows ranE, fun _ => rfl⟩, ⟨_, values, nofun⟩⟩

/-- The values are begun with for an entity before any is drawn for it. -/
theorem advance (led : st.Led shown (.step first now) true) (shows : shown (.step first now) set)
    {e : Option E} (ran : st.advance set w = .ok ((e, st'), w')) :
    st'.Led shown (.step first now) true ∧
      (e.isSome → values.Reached shown (.step first now) true st'.values) := by
  obtain ⟨⟨_, entities, within⟩, ⟨_, values, withinV⟩⟩ := led
  obtain rfl := within rfl
  unfold Pairing.advance at ran
  cases inUse : st.current with
  | some e =>
    rw [inUse] at ran
    cases ran
    obtain rfl := withinV rfl (by rw [inUse]; rfl)
    exact ⟨⟨⟨_, entities, fun _ => rfl⟩, ⟨_, values, fun _ _ => rfl⟩⟩, fun _ => values⟩
  | none =>
    rw [inUse] at ran
    obtain ⟨⟨candidate, es⟩, _, ranE, ran⟩ := exists_of_draw_bind ran
    have entities := Reached.drawn entities shows ranE
    cases candidate with
    | none =>
      cases ran
      exact ⟨⟨⟨_, entities, fun _ => rfl⟩, ⟨_, values, nofun⟩⟩, nofun⟩
    | some e =>
      obtain ⟨vs, _, ranV, same⟩ := exists_of_draw_bind ran
      cases same
      have values := Reached.restarted values shows ranV
      exact ⟨⟨⟨_, entities, fun _ => rfl⟩, ⟨_, values, fun _ _ => rfl⟩⟩, fun _ => values⟩

theorem nextPair (led : st.Led shown (.step first now) true) (shows : shown (.step first now) set)
    {rounds : Nat} {pair : Option (E × V)}
    (ran : st.nextPair set rounds w = .ok ((pair, st'), w')) :
    st'.Led shown (.step first now) true := by
  induction rounds generalizing st w with
  | zero => cases ran
  | succ rounds ih =>
    rw [Pairing.nextPair_succ] at ran
    obtain ⟨⟨e, next⟩, _, advanced, ran⟩ := exists_of_draw_bind ran
    obtain ⟨led, begun⟩ := led.advance shows advanced
    cases e with
    | none =>
      cases ran
      exact led
    | some e =>
      obtain ⟨⟨v, vs⟩, _, drawn, ran⟩ := exists_of_draw_bind ran
      have values := Reached.drawn (begun rfl) shows drawn
      cases v with
      | some v =>
        cases ran
        exact ⟨led.entities, ⟨_, values, fun _ _ => rfl⟩⟩
      | none =>
        have led : Pairing.Led shown (.step first now) true ⟨next.entities, vs, none⟩ :=
          ⟨led.entities, ⟨_, values, nofun⟩⟩
        exact ih led ran

end Pairing.Led

end Led

/-! ## Passes over the moves of runs -/

section Runs

variable {v : ChainedVariable S} {runs : Selector M S SubChain} {values : Selector M S Handle}
variable {reversingToo : Bool} {shown : Point S → Setting S → Prop} {p p' : Point S} {inPass : Bool}
variable {st : (subChainChanges v runs values reversingToo false).State} {set : Setting S}

theorem Reached.led_subChainChanges
    (reached : (subChainChanges v runs values reversingToo false).Reached shown p inPass st) :
    Pairing.Led shown p inPass st.1 := by
  induction reached with
  | start => exact ⟨⟨_, .start, nofun⟩, ⟨_, .start, nofun⟩⟩
  | announced before due shows ran led =>
    obtain ⟨_, _, handled, same⟩ := exists_of_draw_bind ran
    cases same
    exact led.handle due shows handled
  | restarted before shows ran led =>
    obtain ⟨_, _, restarted, same⟩ := exists_of_draw_bind ran
    cases same
    exact led.restart shows restarted
  | @drawn first now st st' set c w w' before shows ran led =>
    obtain ⟨pairing, pending⟩ := st
    simp only [subChainChanges, Bool.false_eq_true, if_false] at ran
    cases pending with
    | some reverse =>
      cases ran
      exact led
    | none =>
      obtain ⟨⟨pair, next⟩, _, drawn, ran⟩ := exists_of_draw_bind ran
      have led := led.nextPair shows drawn
      cases pair with
      | none =>
        cases ran
        exact led
      | some pair =>
        cases ran
        exact led

variable {listR : Point S → S → M → List SubChain → Prop} {held : I → M → Prop}
variable {listV : Point S → S → I → List Handle}
variable (serves : runs.Serves shown listR) (repeatable : values.Repeatable shown held listV)
include serves repeatable

/-- What is announced to both parts is accepted by both. -/
theorem accepts_subChainChanges {hook : Hook}
    (reached : (subChainChanges v runs values reversingToo false).Reached shown p inPass st)
    (due : p.after hook set.solution = some p') (shows : shown p' set) (w : World M) :
    ∃ st' w', (subChainChanges v runs values reversingToo false).handle hook set st w =
      .ok (st', w') := by
  obtain ⟨⟨_, reachedR, -⟩, ⟨_, reachedV, -⟩⟩ := reached.led_subChainChanges
  have known : serves.Inv p st.1.entities := serves.inv_of_reached .refl reachedR
  obtain ⟨rs, g, handledR, -⟩ := serves.handle known due shows w
  obtain ⟨vs, w', handledV⟩ := repeatable.accepts reachedV due shows ⟨g, w.memory⟩
  let pairing : Pairing runs values := ⟨rs, vs, if hook = .phaseEnded then none else st.1.current⟩
  have handled : st.1.handle hook set w = .ok (pairing, w') := by
    rw [Pairing.handle, draw_bind_eq handledR, draw_bind_eq handledV]
    rfl
  refine ⟨(pairing, if hook = .phaseEnded then none else st.2), w', ?_⟩
  simp only [subChainChanges]
  rw [draw_bind_eq handled]
  rfl

/-- For each run of the list of the pass and each value, the run is placed as it is, and then the
other way round where that is asked for and makes a difference. -/
theorem exists_pass_subChainChanges {first now : S}
    (few : ∀ m L, listR (.step first now) set.solution m L → L.length < set.patience)
    (reached : (subChainChanges v runs values reversingToo false).Reached shown (.step first now)
      inPass st) (shows : shown (.step first now) set) {i : I} {w : World M}
    (holds : held i w.memory) :
    ∃ L st' w', listR (.step first now) set.solution w.memory L ∧
      (subChainChanges v runs values reversingToo false).restart set st w = .ok (st', w') ∧
      ∀ n, ∃ st'' w'', (subChainChanges v runs values reversingToo false).take set n st' w' =
        .ok (((L.flatMap fun run => (listV (.step first now) set.solution i).flatMap fun target =>
          placements v reversingToo run target).take n, st''), w'') := by
  obtain ⟨⟨_, reachedR, -⟩, ⟨_, reachedV, -⟩⟩ := reached.led_subChainChanges
  have known : serves.Inv (.step first now) st.1.entities := serves.inv_of_reached .refl reachedR
  obtain ⟨rs, g, L, restarted, listed, known, supplies⟩ := serves.restart known rfl shows w
  let parts : Parts I runs values set :=
    { recorder := none, held, known := serves.Inv (.step first now)
      list := fun x => listV (.step first now) set.solution x.1
      knownV := fun st => ∃ inPass, values.Reached shown (.step first now) inPass st
      repeats := by
        rw [whileRecorded_none]
        exact fun x => repeatable.repeats shows x.1 }
  obtain ⟨st', restarted, known, offers⟩ := Parts.restart_subChainChanges (i := i) v
    reversingToo parts restarted known ⟨_, reachedV⟩ (few _ L listed) fun m holds =>
      supplies.offers (fun _ _ _ _ _ known drawn => serves.next known rfl shows drawn) known holds
  refine ⟨L, st', _, listed, restarted, fun n => ?_⟩
  obtain ⟨st'', w'', taken, -, -⟩ := (offers _ holds).take known holds n g
  exact ⟨st'', w'', taken⟩

end Runs

end Selector

namespace Assembly

open Config Selector SubChains

variable {S : Type} {v : ChainedVariable S} {c : SubChainSettings}

/-! ## Runs from settings -/

/-- The settings for the runs. -/
def runSettings (c : SubChainSettings) : SelectorSettings := c.runs.getD {}

/-- The list of a pass: the runs of the solution with which the cache was filled, or of the present
one, as they are or rearranged. -/
def RunsListed (v : ChainedVariable S) (c : SubChainSettings) (p : Point S) (now : S)
    (L : List SubChain) : Prop :=
  let all := runsIn c.minimum c.maximum (v.graph (((runSettings c).cache.filledWith p).getD now))
  if (runSettings c).orderIn .listed = .shuffled then L.Perm all else L = all

theorem RunsListed.length_eq {p : Point S} {now : S} {L : List SubChain}
    (listed : RunsListed v c p now L) : L.length = (runsIn c.minimum c.maximum
      (v.graph (((runSettings c).cache.filledWith p).getD now))).length := by
  unfold RunsListed at listed
  dsimp only at listed
  split at listed
  · exact listed.length_eq
  · exact congrArg List.length listed

theorem serves_runSelector {runs : Selector Memory S SubChain} {shown : Point S → Setting S → Prop}
    (plain : (runSettings c).orderIn .listed = .listed ∨ (runSettings c).orderIn .listed = .shuffled)
    (fits : ∀ p set, shown p set →
      (runsIn c.minimum c.maximum (v.graph set.solution)).length < set.patience)
    (built : runSelector v c .listed = .ok runs) :
    Nonempty (runs.Serves shown fun p now _ L => ∀ first began, p = .step first began →
      RunsListed v c p now L) := by
  change (if (runSettings c).orderIn .listed = .shuffled then
    andThen (subChains v c.minimum c.maximum (runSettings c).cache false) fun sel =>
      sel.shuffling (runSettings c).cache
    else subChains v c.minimum c.maximum (runSettings c).cache
      ((runSettings c).orderIn .listed = .random)) = .ok runs at built
  unfold RunsListed
  rcases plain with order | order
  · rw [order, if_neg nofun] at built
    obtain ⟨serves⟩ := serves_subChains shown built
    refine ⟨serves.mono fun p now m L listed first began at_ => ?_⟩
    rw [order, if_neg nofun]
    subst at_
    cases cached : (runSettings c).cache.isCached with
    | false =>
      rw [filledWith_of_uncached cached]
      exact listed.1 cached
    | true =>
      obtain ⟨s, filled⟩ := CacheType.exists_filledWith cached first began
      rw [filled]
      exact listed.2 s filled
  · rw [order, if_pos rfl] at built
    obtain ⟨base, read, built⟩ := PlanSearch.andThen_eq_ok.1 built
    obtain ⟨serves⟩ := serves_subChains shown read
    obtain ⟨cached, ⟨serves⟩⟩ := serves_shuffling
      (serves.mono fun p now m L listed filled => listed.2 now filled) fits built
    refine ⟨serves.mono fun p now m L listed first began at_ => ?_⟩
    rw [order, if_pos rfl]
    subst at_
    obtain ⟨s, filled⟩ := CacheType.exists_filledWith cached first began
    rw [filled]
    exact listed s filled

/-! ## What the check lets pass -/

/-- The settings repeat, rank, weigh, sort and filter nothing. -/
structure Bare (s : SelectorSettings) : Prop where
  mimic : s.mimic = none
  nearby : s.nearby = none
  weight : s.weight = none
  sorter : s.sorter = none
  filter : s.filter = none

theorem validate_subChain_eq_ok {enclosing : SelectionOrder} : c.validate enclosing = .ok () ↔
    (1 ≤ c.minimum ∧ c.minimum ≤ c.maximum) ∧
      (∀ s ∈ c.runs, Bare s ∧ s.validate enclosing = .ok ()) ∧
      ∀ s ∈ c.values, s.validate enclosing = .ok () := by
  have bare (s : SelectorSettings) : (if s.mimic.isSome || s.nearby.isSome || s.weight.isSome ||
      s.sorter.isSome || s.filter.isSome then .error .subChainSelector else s.validate enclosing) =
        .ok () ↔ Bare s ∧ s.validate enclosing = .ok () := by
    split
    · rename_i used
      refine ⟨nofun, fun ⟨bare, _⟩ => ?_⟩
      simp [bare.mimic, bare.nearby, bare.weight, bare.sorter, bare.filter] at used
    · rename_i unused
      simp only [Bool.or_eq_true, not_or, Bool.not_eq_true, Option.isSome_eq_false_iff,
        Option.isNone_iff_eq_none] at unused
      obtain ⟨⟨⟨⟨mimic, nearby⟩, weight⟩, sorter⟩, filter⟩ := unused
      exact ⟨fun checked => ⟨⟨mimic, nearby, weight, sorter, filter⟩, checked⟩, And.right⟩
  constructor
  · intro checked
    obtain ⟨positive, ordered, -, values⟩ := SubChainSettings.of_validate checked
    simp only [SubChainSettings.validate, if_neg (Nat.not_lt.2 positive),
      if_neg (Nat.not_lt.2 ordered)] at checked
    obtain ⟨_, runs, -⟩ := bind_eq_ok.1 checked
    exact ⟨⟨positive, ordered⟩, fun s given =>
      (bare s).1 (checkEach_eq_ok.1 runs s (Option.mem_toList.2 given)), values⟩
  · rintro ⟨⟨positive, ordered⟩, runs, values⟩
    simp only [SubChainSettings.validate, if_neg (Nat.not_lt.2 positive),
      if_neg (Nat.not_lt.2 ordered)]
    refine bind_eq_ok.2 ⟨(), checkEach_eq_ok.2 fun s member => (bare s).2 ?_,
      checkEach_eq_ok.2 fun s member => values s (Option.mem_toList.1 member)⟩
    exact runs s (Option.mem_toList.1 member)

/-- The same settings with another name, limit and direction of sorting for the runs. -/
def withUnread (c : SubChainSettings) (id : Option String) (limit : Option Nat)
    (direction : Option SortDirection) : SubChainSettings :=
  { c with runs := some { runSettings c with id, limit, sorterDirection := direction } }

theorem validate_withUnread (id : Option String) (limit : Option Nat)
    (direction : Option SortDirection) (checked : c.validate .listed = .ok ()) :
    (withUnread c id limit direction).validate .listed = .ok () := by
  obtain ⟨bounds, runs, values⟩ := validate_subChain_eq_ok.1 checked
  have same : Bare (runSettings c) ∧ (runSettings c).validate .listed = .ok () := by
    unfold runSettings
    cases given : c.runs with
    | none => exact ⟨⟨rfl, rfl, rfl, rfl, rfl⟩, rfl⟩
    | some s => exact runs s given
  refine validate_subChain_eq_ok.2 ⟨bounds, fun s given => ?_, values⟩
  obtain rfl := Option.some.inj given
  obtain ⟨bare, valid⟩ := same
  refine ⟨⟨bare.mimic, bare.nearby, bare.weight, bare.sorter, bare.filter⟩, ?_⟩
  unfold SelectorSettings.validate at valid ⊢
  rw [bare.mimic] at valid
  dsimp only
  rw [bare.mimic]
  exact valid

theorem movesOf_withUnread (r : Registry S) (enclosing : SelectionOrder) (c : SubChainSettings)
    (id : Option String) (limit : Option Nat) (direction : Option SortDirection) :
    movesOf r enclosing (.subChainChange (withUnread c id limit direction)) =
      movesOf r enclosing (.subChainChange c) := rfl

/-! ## The moves -/

/-- Settings of moves of runs that are checked and built inside a selector in its own order, with the
runs in their own order or rearranged. Wherever a search leads the selector, it accepts what is
announced to it, and a pass places each run of its list by each value, as it is and then, where that
is asked for and the run has two entities or more, the other way round. The list of runs is that of
the solution of the pass, the step or the phase, as the cache says. The check has refused all
settings for the runs but order, cache, name, limit and direction of sorting; the last three make no
difference, so that the list is a whole one under a limit, too. -/
theorem subChainChange_passes {r : Registry S} {rs rs' : Recorders}
    {sel : Selector Memory S (Move S)} (checked : c.validate .listed = .ok ())
    (built : movesOf r .listed (.subChainChange c) rs = .ok (sel, rs'))
    (plain : (runSettings c).orderIn .listed = .listed ∨
      (runSettings c).orderIn .listed = .shuffled) :
    (∀ s ∈ c.runs, Bare s) ∧
    (∀ id limit direction, (withUnread c id limit direction).validate .listed = .ok () ∧
      movesOf r .listed (.subChainChange (withUnread c id limit direction)) rs = .ok (sel, rs')) ∧
    ∃ v handles targets runs values, r.find c.variableName = .ok (.chained v handles targets) ∧
      leaf r (fun s => (targets s).toArray) (c.values.getD {}) .listed rs = .ok (values, rs') ∧
      sel = subChainChanges v runs values (c.reversingToo.getD true) false ∧
      ∀ (I : Type) (shown : Point S → Setting S → Prop) (held : I → Memory → Prop)
        (list : Point S → S → I → List Handle), values.Repeatable shown held list →
        (∀ p set s, shown p set → s = set.solution ∨ s ∈ (runSettings c).cache.filledWith p →
          (runsIn c.minimum c.maximum (v.graph s)).length < set.patience) →
        ∀ p inPass st set, sel.Reached shown p inPass st →
          (∀ hook p' w, p.after hook set.solution = some p' → shown p' set →
            ∃ st' w', sel.handle hook set st w = .ok (st', w')) ∧
          ∀ first now i w, p = .step first now → shown p set → held i w.memory →
            ∃ L st' w', RunsListed v c p set.solution L ∧
              sel.restart set st w = .ok (st', w') ∧ ∀ n, ∃ st'' w'',
                sel.take set n st' w' = .ok (((L.flatMap fun run =>
                  (list p set.solution i).flatMap fun target =>
                    placements v (c.reversingToo.getD true) run target).take n, st''), w'') := by
  refine ⟨fun s given => ((validate_subChain_eq_ok.1 checked).2.1 s given).1,
    fun id limit direction => ⟨validate_withUnread id limit direction checked,
      (movesOf_withUnread r .listed c id limit direction).symm ▸ built⟩, ?_⟩
  change subChainSelector r c .listed rs = .ok (sel, rs') at built
  obtain ⟨v, handles, targets, runs, values, found, builtR, builtV, rfl⟩ :=
    exists_of_subChainSelector built
  refine ⟨v, handles, targets, runs, values, found, builtV, rfl, ?_⟩
  intro I shown held list repeatable few p inPass st set reached
  obtain ⟨serves⟩ := serves_runSelector plain
    (fun p set shows => few p set set.solution shows (.inl rfl)) builtR
  refine ⟨fun hook p' w due shows =>
    accepts_subChainChanges serves repeatable reached due shows w, ?_⟩
  rintro first now i w rfl shows holds
  have short (m : Memory) (L : List SubChain) (listed : ∀ first' began,
      Point.step first now = .step first' began →
        RunsListed v c (.step first now) set.solution L) : L.length < set.patience := by
    rw [(listed first now rfl).length_eq]
    refine few (.step first now) set _ shows ?_
    cases filled : (runSettings c).cache.filledWith (.step first now) with
    | none => exact .inl rfl
    | some s => exact .inr rfl
  obtain ⟨L, st', w', listed, pass⟩ :=
    exists_pass_subChainChanges serves repeatable short reached shows holds
  exact ⟨L, st', w', listed first now rfl, pass⟩

/-- The beads of a necklace, which can be placed after all elements. -/
def strung : Registry Necklace where
  vars := [.chained Necklace.previous (fun s => s.graph.entities) fun s => s.graph.handles]

/-- Runs of one or two beads, in another arrangement in every pass, with a limit. -/
def rearranged : SubChainSettings where
  variableName := some "previous"
  maximumSize := some 2
  runs := some { cacheType := some .phase, order := some .shuffled, limit := some 1 }

/-- The necklace stays as it is. -/
def ShowsPlain (p : Point Necklace) (set : Setting Necklace) : Prop :=
  set = ⟨Necklace.plain, 9⟩ ∧ ∀ s ∈ p.first, s = Necklace.plain

theorem subChainChange_passes_rearranged : ∃ sel rs',
    movesOf strung .listed (.subChainChange rearranged) {} = .ok (sel, rs') ∧
    ∀ inPass st w, sel.Reached ShowsPlain (.step Necklace.plain Necklace.plain) inPass st →
      ∃ (L : List SubChain) (st' : sel.State) (w' : World Memory),
        L.Perm (runsIn 1 2 Necklace.plain.graph) ∧
        sel.restart ⟨Necklace.plain, 9⟩ st w = .ok (st', w') ∧ ∀ n, ∃ st'' w'',
          sel.take ⟨Necklace.plain, 9⟩ n st' w' = .ok (((L.flatMap fun run =>
            Necklace.plain.graph.handles.flatMap fun target =>
              placements Necklace.previous true run target).take n, st''), w'') := by
  obtain ⟨sel, rs', built⟩ : ∃ sel rs',
      movesOf strung .listed (.subChainChange rearranged) {} = .ok (sel, rs') := ⟨_, _, rfl⟩
  obtain ⟨-, -, v, handles, targets, runs, values, found, builtV, -, passes⟩ :=
    subChainChange_passes (c := rearranged) rfl built (.inr rfl)
  obtain ⟨rfl, rfl, rfl⟩ := RegisteredVariable.chained.inj (Except.ok.inj found)
  have repeatable : values.Repeatable ShowsPlain (fun (_ : Unit) _ => True)
      fun _ s _ => s.graph.handles := by
    refine ((leaf_passes builtV rfl (.inl rfl) ⟨?_, ?_⟩).of_shown
      fun p set shows => ⟨?_, ?_⟩).repeatable (fun _ _ _ _ _ _ => trivial) ?_
    · rintro ⟨⟩
    · rintro n ⟨⟩
    · rw [shows.1]
      decide
    · rintro n ⟨⟩
    · rintro first now set - m L - - ⟨_, _, _, rfl, rfl, rfl, rfl⟩
      rfl
  have few (p : Point Necklace) (set : Setting Necklace) (s : Necklace) (shows : ShowsPlain p set)
      (listed : s = set.solution ∨ s ∈ (runSettings rearranged).cache.filledWith p) :
      (runsIn rearranged.minimum rearranged.maximum s.graph).length < set.patience := by
    obtain ⟨rfl, first⟩ := shows
    obtain rfl : s = Necklace.plain := listed.elim id (first s)
    decide
  refine ⟨sel, rs', built, fun inPass st w reached => ?_⟩
  obtain ⟨-, pass⟩ := passes Unit ShowsPlain _ _ repeatable few _ inPass st ⟨Necklace.plain, 9⟩ reached
  obtain ⟨L, st', w', listed, begun, taken⟩ :=
    pass Necklace.plain Necklace.plain () w rfl ⟨rfl, by rintro s ⟨⟩; rfl⟩ trivial
  exact ⟨L, st', w', listed, begun, taken⟩

end Assembly

end PlanSearch
