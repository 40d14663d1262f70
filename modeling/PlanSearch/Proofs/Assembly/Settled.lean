import PlanSearch.Proofs.Assembly.Small

/-!
# Built selectors come to an end

Every selector of entities or values that is built from settings is settled. A selector of moves is
settled if wherever it goes through pairs in order the entities or runs end: a call passes over the
entities without a value, and there is no end to it if the entities never end and no value is found
for any of them.
-/

namespace PlanSearch

/-! ## Settings whose passes end -/

namespace Config

/-- The passes of the selector end: what was recorded is repeated, the candidates are counted, or
they are drawn neither at random nor by weight. -/
def SelectorSettings.Ends (c : SelectorSettings) (enclosing : SelectionOrder) : Prop :=
  c.mimic.isSome ∨ c.limit.isSome ∨
    c.orderIn enclosing ≠ .random ∧ c.orderIn enclosing ≠ .probabilistic

namespace MoveSelectorSettings

mutual

/-- Wherever pairs are gone through in order, the entities or runs end. -/
def PairsEnd (enclosing : SelectionOrder) : MoveSelectorSettings → Prop
  | .change c => enclosing = .random ∨ (c.entities.getD {}).Ends enclosing
  | .subChainChange c => enclosing = .random ∨ (c.runs.getD {}).orderIn enclosing ≠ .random
  | .union children => AllPairsEnd enclosing children

/-- Wherever pairs are gone through in one of several selectors, the entities or runs end. -/
def AllPairsEnd (enclosing : SelectionOrder) : List MoveSelectorSettings → Prop
  | [] => True
  | c :: rest => PairsEnd enclosing c ∧ AllPairsEnd enclosing rest

end

end MoveSelectorSettings

end Config

namespace Assembly

open Config Selector

variable {S C : Type} {faults : Fault → Prop} {enclosing : SelectionOrder}

/-! ## Entities and values -/

section Leaf

variable [Candidate C] {r : Registry S} {items : S → Array C} {rs rs' : Recorders}
variable {sel made : Selector Memory S C} {c : SelectorSettings}

theorem settled_ranked (tame : (Candidate.plugins r : Plugins S C).Tame faults) {n : NearbySettings}
    {isRandom : Bool} (built : ranked r (.source items false) n isRandom rs = .ok (sel, rs')) :
    sel.Settled faults ∧ (isRandom = false → sel.neverEnding = false) := by
  obtain ⟨-, -, meter, distribution, found, drawn, made⟩ := exists_of_ranked built
  obtain ⟨key, member⟩ := Plugins.mem_of_find found
  refine ⟨settled_nearby (settled_source items false) (tame.meters _ member) made, ?_⟩
  rintro rfl
  obtain rfl := Option.isNone_iff_eq_none.1 (Option.isSome_eq_false_iff.1 drawn)
  unfold nearby at made
  split at made
  · cases made
  · obtain rfl := Except.ok.inj made
    rfl

omit [Candidate C] in
theorem settled_filtered {plugins : Plugins S C} {name : Option String}
    (settled : sel.Settled faults)
    (overflow : faults .overflow) (built : filtered plugins name sel = .ok made) :
    made.Settled faults ∧ made.neverEnding = sel.neverEnding := by
  obtain ⟨-, rfl⟩ | ⟨-, accepts, -, -, rfl⟩ := cases_of_filtered built
  · exact ⟨settled, rfl⟩
  · exact ⟨settled_filtering settled accepts overflow, rfl⟩

omit [Candidate C] in
theorem settled_ordered {plugins : Plugins S C} (tame : plugins.Tame faults)
    {order : SelectionOrder}
    (settled : sel.Settled faults) (built : ordered plugins c order sel = .ok made) :
    made.Settled faults ∧ (order ≠ .random → order ≠ .probabilistic →
      (c.cache.isCached = false → sel.neverEnding = false) → made.neverEnding = false) := by
  have kept (built : (if c.cache.isCached then sel.caching c.cache (order = .random) else .ok sel) =
      .ok made) : made.Settled faults ∧ (order ≠ .random →
        (c.cache.isCached = false → sel.neverEnding = false) → made.neverEnding = false) := by
    split at built
    · refine ⟨settled_caching settled built, fun listed _ => ?_⟩
      obtain ⟨-, -, built⟩ := PlanSearch.andThen_eq_ok.1 built
      obtain rfl := Except.ok.inj built
      exact decide_eq_false listed
    · rename_i uncached
      obtain rfl := Except.ok.inj built
      exact ⟨settled, fun _ ends => ends (Bool.eq_false_iff.2 uncached)⟩
  cases order with
  | sorted =>
    obtain ⟨key, found, built⟩ := PlanSearch.andThen_eq_ok.1 built
    obtain ⟨name, member⟩ := Plugins.mem_of_find found
    refine ⟨settled_sorting settled (tame.sorters _ member) built, fun _ _ _ => ?_⟩
    obtain ⟨-, -, built⟩ := PlanSearch.andThen_eq_ok.1 built
    obtain rfl := Except.ok.inj built
    rfl
  | probabilistic =>
    obtain ⟨weight, found, built⟩ := PlanSearch.andThen_eq_ok.1 built
    obtain ⟨name, member⟩ := Plugins.mem_of_find found
    obtain ⟨breaks, broken⟩ := tame.weights _ member
    exact ⟨settled_probability settled breaks broken built, fun _ other => absurd rfl other⟩
  | shuffled =>
    refine ⟨settled_shuffling settled built, fun _ _ _ => ?_⟩
    obtain ⟨-, -, built⟩ := PlanSearch.andThen_eq_ok.1 built
    obtain rfl := Except.ok.inj built
    rfl
  | inherit => exact ⟨(kept built).1, fun listed _ => (kept built).2 listed⟩
  | listed => exact ⟨(kept built).1, fun listed _ => (kept built).2 listed⟩
  | random => exact ⟨(kept built).1, fun other => absurd rfl other⟩

theorem settled_recorded {id : Option String} (settled : sel.Settled faults)
    (built : recorded id sel rs = .ok (made, rs')) :
    made.Settled faults ∧ made.neverEnding = sel.neverEnding := by
  obtain ⟨-, rfl⟩ | ⟨name, -, rfl, -⟩ := exists_of_recorded built
  · exact ⟨settled, rfl⟩
  · exact ⟨settled_recording settled _, rfl⟩

/-- A built selector of entities or values is settled, and its passes end if the settings say so. -/
theorem settled_leaf (tame : (Candidate.plugins r : Plugins S C).Tame faults)
    (overflow : faults .overflow) (built : leaf r items c enclosing rs = .ok (sel, rs')) :
    sel.Settled faults ∧ (c.Ends enclosing → sel.neverEnding = false) := by
  obtain ⟨id, mimic, rfl⟩ | ⟨mimic, base, rs₁, fewer, kept, based, accepted, arranged, built⟩ :=
    cases_of_leaf built
  · exact ⟨settled_replaying _, fun _ => rfl⟩
  · obtain ⟨base_, ends⟩ : base.Settled faults ∧
        (c.orderIn enclosing ≠ .random → base.neverEnding = false) := by
      cases nearby : c.nearby with
      | some n =>
        rw [nearby] at based
        obtain ⟨settled, ends⟩ := settled_ranked tame based
        exact ⟨settled, fun other => ends (decide_eq_false other)⟩
      | none =>
        rw [nearby] at based
        obtain ⟨rfl, -⟩ := Building.pure_eq_ok.1 based
        refine ⟨settled_source items _, fun other => ?_⟩
        simp [source, enumerated, other]
    obtain ⟨fewer_, same⟩ := settled_filtered base_ overflow accepted
    obtain ⟨kept_, ends'⟩ := settled_ordered tame fewer_ arranged
    cases limit : c.limit with
    | some n =>
      rw [limit] at built
      obtain ⟨settled, same⟩ := settled_recorded (settled_limited kept_ n) built
      exact ⟨settled, fun _ => same⟩
    | none =>
      rw [limit] at built
      obtain ⟨settled, same'⟩ := settled_recorded kept_ built
      refine ⟨settled, fun e => ?_⟩
      rcases e with repeated | counted | ⟨other, other'⟩
      · simp [mimic] at repeated
      · simp [limit] at counted
      · rw [same']
        exact ends' other other' fun _ => same.trans (ends other)

end Leaf

/-! ## Moves -/

section Moves

variable {r : Registry S} {rs rs' : Recorders} {sel : Selector Memory S (Move S)}
variable (tame : r.Tame faults) (overflow : faults .overflow)
include tame overflow

theorem settled_changeSelector {v : RegisteredVariable S} {entities values : SelectorSettings}
    (built : changeSelector r v entities values enclosing rs = .ok (sel, rs'))
    (ends : sel.neverEnding = false ∨ enclosing = .random ∨ entities.Ends enclosing) :
    sel.Settled faults := by
  cases v with
  | plain v entityCount valueCount =>
    obtain ⟨es, rs₁, vs, builtE, builtV, rfl⟩ := exists_of_changeSelector_plain built
    obtain ⟨settledE, endsE⟩ := settled_leaf tame.indices overflow builtE
    refine settled_changes settledE (settled_leaf tame.indices overflow builtV).1 ?_ _ _
    rcases ends with ends | random | ends
    · simp only [changes, Bool.or_eq_false_iff] at ends
      exact .inr ends.1.2
    · exact .inl (decide_eq_true random)
    · exact .inr (endsE ends)
  | chained v entityHandles valueHandles =>
    obtain ⟨es, rs₁, vs, builtE, builtV, rfl⟩ := exists_of_changeSelector_chained built
    obtain ⟨settledE, endsE⟩ := settled_leaf tame.handles overflow builtE
    refine settled_changes settledE (settled_leaf tame.handles overflow builtV).1 ?_ _ _
    rcases ends with ends | random | ends
    · simp only [changes, Bool.or_eq_false_iff] at ends
      exact .inr ends.1.2
    · exact .inl (decide_eq_true random)
    · exact .inr (endsE ends)

omit tame in
theorem settled_runSelector {v : ChainedVariable S} {c : SubChainSettings}
    {runs : Selector Memory S SubChain} (built : runSelector v c enclosing = .ok runs) :
    runs.Settled faults ∧
      ((c.runs.getD {}).orderIn enclosing ≠ .random → runs.neverEnding = false) := by
  rcases cases_of_runSelector built with ⟨-, base, read, built⟩ | ⟨-, built⟩
  · refine ⟨settled_shuffling (settled_subChains overflow read) built, fun _ => ?_⟩
    obtain ⟨-, -, built⟩ := PlanSearch.andThen_eq_ok.1 built
    obtain rfl := Except.ok.inj built
    rfl
  · exact ⟨settled_subChains overflow built,
      fun other => (neverEnding_subChains built).trans (decide_eq_false other)⟩

theorem settled_subChainSelector {c : SubChainSettings}
    (built : subChainSelector r c enclosing rs = .ok (sel, rs'))
    (ends : sel.neverEnding = false ∨ enclosing = .random ∨
      (c.runs.getD {}).orderIn enclosing ≠ .random) : sel.Settled faults := by
  obtain ⟨v, _, _, runs, values, -, builtR, builtV, rfl⟩ := exists_of_subChainSelector built
  obtain ⟨settledR, endsR⟩ := settled_runSelector overflow builtR
  refine settled_subChainChanges settledR (settled_leaf tame.handles overflow builtV).1 ?_ _
  rcases ends with ends | random | ends
  · simp only [subChainChanges, Bool.or_eq_false_iff] at ends
    exact .inr ends.1.2
  · exact .inl (decide_eq_true random)
  · exact .inr (endsR ends)

end Moves

mutual

theorem settled_movesOf {r : Registry S} (tame : r.Tame faults) (overflow : faults .overflow)
    (c : MoveSelectorSettings) {rs rs' : Recorders} {sel : Selector Memory S (Move S)}
    (built : movesOf r enclosing c rs = .ok (sel, rs'))
    (ends : sel.neverEnding = false ∨ c.PairsEnd enclosing) : sel.Settled faults := by
  cases c with
  | change c =>
    obtain ⟨v, rs₁, -, built⟩ := Building.andThen_eq_ok.1 built
    exact settled_changeSelector tame overflow built ends
  | subChainChange c => exact settled_subChainSelector tame overflow built ends
  | union children =>
    rw [movesOf] at built
    obtain ⟨sels, rs₁, each, built⟩ := Building.andThen_eq_ok.1 built
    obtain ⟨rfl, -⟩ := Building.pure_eq_ok.1 built
    refine settled_union _ (settled_movesOfAll tame overflow children each ?_) overflow
    refine ends.imp_left fun ends => ?_
    simp only [union, Bool.or_eq_false_iff, List.any_eq_false] at ends
    exact fun sel member => Bool.eq_false_iff.2 (ends.2 sel member)

theorem settled_movesOfAll {r : Registry S} (tame : r.Tame faults) (overflow : faults .overflow)
    (cs : List MoveSelectorSettings) {rs rs' : Recorders} {sels : List (Selector Memory S (Move S))}
    (built : movesOfAll r enclosing cs rs = .ok (sels, rs'))
    (ends : (∀ sel ∈ sels, sel.neverEnding = false) ∨
      MoveSelectorSettings.AllPairsEnd enclosing cs) :
    ∀ sel ∈ sels, sel.Settled faults := by
  cases cs with
  | nil =>
    obtain ⟨rfl, -⟩ := Building.pure_eq_ok.1 built
    simp
  | cons c rest =>
    obtain ⟨sel, rs₁, sels, first, others, rfl⟩ := movesOfAll_cons_eq_ok.1 built
    rw [List.forall_mem_cons] at ends
    exact List.forall_mem_cons.2
      ⟨settled_movesOf tame overflow c first (ends.imp And.left And.left),
        settled_movesOfAll tame overflow rest others (ends.imp And.right And.right)⟩

end

section Defaults

variable {r : Registry S} {rs rs' : Recorders} {sel : Selector Memory S (Move S)}
variable (tame : r.Tame faults) (overflow : faults .overflow)
include tame overflow

/-- A change of a variable without further settings goes through entities that end, or draws
them. -/
theorem settled_defaultChange {v : RegisteredVariable S}
    (built : changeSelector r v {} {} enclosing rs = .ok (sel, rs')) : sel.Settled faults := by
  refine settled_changeSelector tame overflow built (.inr ?_)
  cases enclosing with
  | random => exact .inl rfl
  -- An order by weight is refused where no list is kept.
  | probabilistic => cases v <;> cases built
  | _ => exact .inr (.inr (.inr ⟨nofun, nofun⟩))

theorem settled_defaultMoves (built : defaultMoves r enclosing rs = .ok (sel, rs')) :
    sel.Settled faults :=
  of_defaultMoves (settled_defaultChange tame overflow)
    (fun settled => settled_union _ settled overflow) built

/-- A built selector of moves is settled if it is not never-ending or if, wherever it goes through
pairs in order, the entities or runs end. -/
theorem settled_moveSelector {c : Option MoveSelectorSettings}
    (built : moveSelector r c enclosing = .ok sel)
    (ends : sel.neverEnding = false ∨ ∀ m ∈ c, m.PairsEnd enclosing) : sel.Settled faults := by
  rcases cases_of_moveSelector built with ⟨-, _, _, made⟩ | ⟨c, _, _, rfl, made⟩
  · exact settled_defaultMoves tame overflow made
  · exact settled_movesOf tame overflow c made (ends.imp_right fun h => h c rfl)

end Defaults

/-! ## Pairs in order whose entities never end -/

section Endless

variable {r : Registry S}

/-- Entities that are drawn at random, without further settings, are read from the solution. -/
theorem leaf_random [Candidate C] (items : S → Array C) (rs : Recorders) :
    leaf r items { order := some .random } enclosing rs = .ok (source items true, rs) := rfl

/-- Values without settings are those of the solution in their order, unless their order needs a
list that is not kept. -/
theorem leaf_plain [Candidate C] {items : S → Array C} {rs rs' : Recorders}
    {sel : Selector Memory S C} (listed : enclosing ≠ .random)
    (built : leaf r items {} enclosing rs = .ok (sel, rs')) : sel = source items false := by
  cases enclosing with
  | random => exact absurd rfl listed
  | inherit | listed => exact (Prod.mk.inj (Except.ok.inj built)).1.symm
  | _ => cases built

/-- There is no end to the search for a value that does not exist, if the entities are drawn anew
all the time. -/
theorem next_exhausted (tireless : ¬faults .exhausted) {v : PlainVariable S}
    {entityCount valueCount : S → ℕ} {rs rs' : Recorders} {sel : Selector Memory S (Move S)}
    (listed : enclosing ≠ .random)
    (built : changeSelector r (.plain v entityCount valueCount) { order := some .random } {}
      enclosing rs = .ok (sel, rs')) {s : S} (some : entityCount s ≠ 0) (none : valueCount s = 0) (n : ℕ)
    (st : sel.State) (w : World Memory) : sel.next ⟨s, n⟩ st w = .error .exhausted := by
  obtain ⟨es, rs₁, vs, builtE, builtV, rfl⟩ := exists_of_changeSelector_plain built
  obtain ⟨rfl, -⟩ := Prod.mk.inj (Except.ok.inj (builtE.symm.trans (leaf_random _ rs)))
  obtain rfl := leaf_plain listed builtV
  have empty (n : ℕ) (cursor : ℕ) (w : World Memory) : (source (fun s => Array.range (valueCount s))
      false : Selector Memory S ℕ).next ⟨s, n⟩ cursor w = .ok ((.none, cursor), w) := by
    simp [source_next, none]
    rfl
  have goes (cursor : ℕ) (w : World Memory) : ∃ n e cursor' w',
      (source (fun s => Array.range (entityCount s)) true : Selector Memory S ℕ).next ⟨s, n⟩ cursor w =
        .ok ((Option.some e, cursor'), w') := by
    have many : (Array.range (entityCount s)).size = entityCount s := Array.size_range
    obtain ⟨⟨i, g⟩, drawn⟩ := Random.Generator.below_eq some w.generator
    have small := Random.Generator.lt_of_below drawn
    refine ⟨0, i, cursor, ⟨g, w.memory⟩, ?_⟩
    simp only [source_next, if_true, Array.isEmpty, many, some, decide_false, Bool.false_eq_true,
      if_false]
    rw [draw_bind]
    simp only [Draw.below, Draw.generate, drawn]
    simp [small]
    rfl
  have searched := Pairing.nextPair_exhausted (settled_source _ _)
    (settled_source _ _) tireless goes (fun _ _ w => ⟨(0 : ℕ), w, rfl⟩)
    (fun n cursor w => ⟨cursor, w, empty n cursor w⟩) n st w
  simp only [changes, decide_eq_false listed, Bool.false_eq_true, if_false]
  rw [draw_bind, searched]

end Endless

/-- Every call of a built selector of moves comes to its end after finitely many draws, and so does
every pass of one that is not never-ending, unless a selector goes through pairs in order whose
entities or runs never end. Of those no call may come to an end: not one, if there are entities and
no values. In searches about solutions that are small for the number of its parts, none breaks off
with a number that is too large. -/
theorem moveSelector_settles (r : Registry S) (c : Option MoveSelectorSettings)
    (enclosing : SelectionOrder) (sel : Selector Memory S (Move S))
    (built : moveSelector r c enclosing = .ok sel) (faults : Fault → Prop) (tame : r.Tame faults)
    (overflow : faults .overflow) (tireless : ¬faults .exhausted) :
    (sel.neverEnding = false ∨ (∀ m ∈ c, m.PairsEnd enclosing) → ∀ s st,
      (∀ hook, Draw.Settles faults fun n => sel.handle hook ⟨s, n⟩ st) ∧
        (Draw.Settles faults fun n => sel.restart ⟨s, n⟩ st) ∧
          Draw.Settles faults fun n => sel.next ⟨s, n⟩ st) ∧
    (sel.neverEnding = false → ∀ s st, Draw.Settles faults fun n => sel.pass ⟨s, n⟩ st) ∧
    (∀ k v entityCount valueCount, c = some (.change k) →
      r.find k.variableName = .ok (.plain v entityCount valueCount) →
      k.entities = some { order := some .random } → k.values = none → enclosing ≠ .random →
      ∀ s, entityCount s ≠ 0 → valueCount s = 0 →
      ∀ n st w, sel.next ⟨s, n⟩ st w = .error .exhausted) ∧
    ∀ inside n, r.Tame (· ≠ .overflow) → r.AtMost n inside → r.parts c * most n ≤ Count.max →
      sel.FitsAmong inside {} := by
  refine ⟨fun ends s st => ?_, fun ends s st => ?_, ?_, fun inside n tame few fits => ?_⟩
  · have settled := settled_moveSelector tame overflow built ends
    exact ⟨fun hook => settled.handle hook s st, settled.restart s st, settled.next s st⟩
  · exact (settled_moveSelector tame overflow built (.inl ends)).pass ends s st
  · rintro ⟨name, entities, values⟩ v entityCount valueCount rfl found rfl rfl listed s some none
    obtain ⟨⟨⟩, -⟩ | ⟨_, rs, rs', ⟨⟩, built⟩ := cases_of_moveSelector built
    obtain ⟨v', rs₁, found', built⟩ := Building.andThen_eq_ok.1 built
    obtain rfl := Except.ok.inj ((Building.lift_eq_ok.1 found').1.symm.trans found)
    exact next_exhausted tireless listed built some none
  · exact (small_moveSelector tame few fits built).elim fun small => small.fitsAmong {}

end Assembly

namespace ScoredNecklace

open Assembly Selector

/-- Colours of which there are none. -/
def uncoloured : Registry ScoredNecklace where
  vars := [.plain colour (fun _ => 4) (fun _ => 0)]

theorem tame_uncoloured (faults : Fault → Prop) : uncoloured.Tame faults where
  indices := ⟨nofun, nofun, nofun⟩
  handles := ⟨nofun, nofun, nofun⟩

/-- Going through the entities in their order ends without a move; drawing them does not end. -/
theorem moveSelector_settles_uncoloured :
    ∃ ordered drawn : Selector Memory ScoredNecklace (Move ScoredNecklace),
      moveSelector uncoloured none .listed = .ok ordered ∧
      moveSelector uncoloured (some (.change { entities := some { order := some .random } }))
        .listed = .ok drawn ∧
      (∀ s st, Draw.Settles (· = .overflow) fun n => ordered.next ⟨s, n⟩ st) ∧
      (∀ s st, Draw.Settles (· = .overflow) fun n => ordered.pass ⟨s, n⟩ st) ∧
      ordered.FitsAmong (fun _ => True) {} ∧
      ∀ s n st w, drawn.next ⟨s, n⟩ st w = .error .exhausted := by
  obtain ⟨ordered, built⟩ : ∃ ordered, moveSelector uncoloured none .listed = .ok ordered := ⟨_, rfl⟩
  obtain ⟨drawn, built'⟩ : ∃ drawn, moveSelector uncoloured
      (some (.change { entities := some { order := some .random } })) .listed = .ok drawn := ⟨_, rfl⟩
  have ends : ordered.neverEnding = false := by
    obtain rfl := Except.ok.inj built
    rfl
  have few : uncoloured.AtMost 4 fun _ => True :=
    List.forall_mem_singleton.2 fun _ _ => ⟨le_rfl, Nat.zero_le 4⟩
  obtain ⟨settles, passes, -, fits⟩ := moveSelector_settles uncoloured none .listed ordered built
    (· = .overflow) (tame_uncoloured _) rfl nofun
  obtain ⟨-, -, endless, -⟩ := moveSelector_settles uncoloured _ .listed drawn built'
    (· = .overflow) (tame_uncoloured _) rfl nofun
  exact ⟨ordered, drawn, built, built', fun s st => (settles (.inl ends) s st).2.2, passes ends,
    fits _ 4 (tame_uncoloured _) few (by decide),
    fun s => endless _ colour (fun _ => 4) (fun _ => 0) rfl rfl rfl rfl nofun s nofun rfl⟩

end ScoredNecklace

end PlanSearch
