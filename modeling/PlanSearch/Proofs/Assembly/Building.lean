import PlanSearch.Assembly.Solver
import PlanSearch.Proofs.Fault

/-!
# What is built

A part that was built tells what it was built from. The moves of a selector that is built from
settings are those of the registered variables.
-/

namespace PlanSearch.Assembly

open Config

namespace Building

variable {α : Type u} {β : Type v} {rs rs' : Recorders} {a : α} {b : β}

theorem pure_eq_ok {a' : α} : pure a rs = .ok (a', rs') ↔ a' = a ∧ rs' = rs := by
  unfold pure
  constructor
  · rintro ⟨⟩
    exact ⟨rfl, rfl⟩
  · rintro ⟨rfl, rfl⟩
    rfl

theorem andThen_eq_ok {x : Building α} {f : α → Building β} :
    x.andThen f rs = .ok (b, rs') ↔ ∃ a rs₁, x rs = .ok (a, rs₁) ∧ f a rs₁ = .ok (b, rs') := by
  unfold andThen
  cases x rs with
  | error e => simp
  | ok made => exact ⟨fun h => ⟨made.1, made.2, rfl, h⟩, by rintro ⟨_, _, ⟨⟩, h⟩; exact h⟩

theorem lift_eq_ok {x : Except BuildError α} : lift x rs = .ok (a, rs') ↔ x = .ok a ∧ rs' = rs := by
  cases x with
  | error e => simp [lift]
  | ok made => simp [lift, pure, eq_comm]

theorem ofSelector_eq_ok {x : Except SelectorError α} :
    ofSelector x rs = .ok (a, rs') ↔ x = .ok a ∧ rs' = rs := by
  cases x with
  | error e => simp [ofSelector]
  | ok made => simp [ofSelector, pure, eq_comm]

theorem each_cons_eq_ok {f : α → Building β} {first : α} {rest : List α} {bs : List β} :
    each f (first :: rest) rs = .ok (bs, rs') ↔ ∃ b rs₁ bs',
      f first rs = .ok (b, rs₁) ∧ each f rest rs₁ = .ok (bs', rs') ∧ bs = b :: bs' := by
  simp only [each, andThen_eq_ok, pure_eq_ok]
  constructor
  · rintro ⟨b, rs₁, built, bs', _, others, rfl, rfl⟩
    exact ⟨b, rs₁, bs', built, others, rfl⟩
  · rintro ⟨b, rs₁, bs', built, others, rfl⟩
    exact ⟨b, rs₁, built, bs', rs', others, rfl, rfl⟩

/-- What holds of all that is built in one way holds of each part of a list that is so built. -/
theorem of_each {f : α → Building β} {holds : β → Prop}
    (built_holds : ∀ {a b rs rs'}, f a rs = .ok (b, rs') → holds b) {l : List α} {bs : List β}
    (built : each f l rs = .ok (bs, rs')) : ∀ b ∈ bs, holds b := by
  induction l generalizing rs bs with
  | nil =>
    obtain ⟨rfl, -⟩ := pure_eq_ok.1 built
    exact List.forall_mem_nil _
  | cons a rest ih =>
    obtain ⟨b, rs₁, bs', first, others, rfl⟩ := each_cons_eq_ok.1 built
    exact List.forall_mem_cons.2 ⟨built_holds first, ih others⟩

end Building

variable {S : Type}

/-! ## What is registered -/

/-- Nothing but the given faults comes of the functions over candidates, and of draws below a sum of
weights. -/
structure Plugins.Tame {C : Type} (p : Plugins S C) (faults : Fault → Prop) : Prop where
  sorters : ∀ f ∈ p.sorters, ∀ s c, Breaks faults (f.2 s c)
  weights : ∀ f ∈ p.weights, (∀ s c, Breaks faults (f.2 s c)) ∧ faults .broken
  meters : ∀ f ∈ p.meters, ∀ s a b, Breaks faults (f.2 s a b)

/-- Nothing but the given faults comes of what is registered. -/
structure Registry.Tame (r : Registry S) (faults : Fault → Prop) : Prop where
  indices : r.indices.Tame faults
  handles : r.handles.Tame faults

/-! ## What names stand for -/

theorem Plugins.mem_of_find {α : Type} {kind name : String} {table : List (String × α)} {a : α}
    (found : Plugins.find kind table name = .ok a) : ∃ key, (key, a) ∈ table := by
  unfold find at found
  split at found
  · rename_i known
    obtain rfl := Except.ok.inj found
    rw [List.lookup_eq_some_iff] at known
    obtain ⟨before, after, rfl, -⟩ := known
    exact ⟨name, by simp⟩
  · cases found

theorem Registry.mem_of_find {r : Registry S} {name : Option String} {v : RegisteredVariable S}
    (found : r.find name = .ok v) : v ∈ r.vars := by
  unfold find at found
  split at found
  · split at found
    · rename_i known
      obtain rfl := Except.ok.inj found
      exact List.mem_of_find?_eq_some known
    · cases found
  · split at found
    · rename_i only
      obtain rfl := Except.ok.inj found
      simp [only]
    · cases found
    · cases found

theorem Recorders.eq_of_find {C : Type} [Candidate C] {rs : Recorders} {id : String}
    {recorder : Recorder Memory C} (found : rs.find id = .ok recorder) :
    recorder = Candidate.recorder id := by
  unfold find at found
  split at found
  · exact (Except.ok.inj found).symm
  · cases found

theorem Recorders.eq_of_create {C : Type} [Candidate C] {rs rs' : Recorders} {id : String}
    {recorder : Recorder Memory C} (made : rs.create id = .ok (recorder, rs')) :
    recorder = Candidate.recorder id := by
  unfold create at made
  split at made
  · cases made
  · exact (Prod.mk.inj (Except.ok.inj made)).1.symm

theorem Recorders.not_mem_of_create {C : Type} [Candidate C] {rs rs' : Recorders} {id : String}
    {recorder : Recorder Memory C} (made : rs.create id = .ok (recorder, rs')) :
    ¬(id ∈ rs.indices ∨ id ∈ rs.handles) := by
  unfold Recorders.create at made
  split at made
  · cases made
  · rename_i new
    simpa using new

/-! ## Entities and values -/

section Leaf

variable {C : Type} {r : Registry S} {items : S → Array C} {c : SelectorSettings}
variable {enclosing : SelectionOrder} {rs rs' : Recorders} {sel made : Selector Memory S C}

/-- Candidates are accepted by a test that is registered under the name, if there is one. -/
theorem cases_of_filtered {plugins : Plugins S C} {name : Option String}
    (built : filtered plugins name sel = .ok made) :
    name = none ∧ made = sel ∨ ∃ test accepts, name = some test ∧
      plugins.filter test = .ok accepts ∧ made = sel.filtering accepts := by
  unfold filtered at built
  cases name with
  | none => exact .inl ⟨rfl, (Except.ok.inj built).symm⟩
  | some test =>
    obtain ⟨accepts, found, built⟩ := PlanSearch.andThen_eq_ok.1 built
    exact .inr ⟨test, accepts, rfl, found, (Except.ok.inj built).symm⟩

variable [Candidate C]

/-- What ranks candidates knows the name of those that they are ranked by. -/
theorem exists_of_ranked {n : NearbySettings} {isRandom : Bool}
    (built : ranked r (.source items false) n isRandom rs = .ok (sel, rs')) :
    rs' = rs ∧ n.origin.getD "" ∈ Candidate.ids C rs ∧ ∃ meter distribution,
      (Candidate.plugins r : Plugins S C).meter (n.meter.getD "") = .ok meter ∧
      (distribution : Option Nearby.Distribution).isSome = isRandom ∧
      (Selector.source items false).nearby (Candidate.recorder (n.origin.getD "")) meter
        distribution none = .ok sel := by
  unfold ranked at built
  obtain ⟨recorder, rs₁, found, rest⟩ := Building.andThen_eq_ok.1 built
  obtain ⟨meter, rs₂, first, rest⟩ := Building.andThen_eq_ok.1 rest
  obtain ⟨distribution, rs₃, second, last⟩ := Building.andThen_eq_ok.1 rest
  obtain ⟨chosen, same₁⟩ := Building.ofSelector_eq_ok.1 first
  obtain ⟨drawn, same₂⟩ := Building.ofSelector_eq_ok.1 second
  obtain ⟨made, same₃⟩ := Building.ofSelector_eq_ok.1 last
  have known : rs₁ = rs ∧ n.origin.getD "" ∈ Candidate.ids C rs ∧
      recorder = Candidate.recorder (n.origin.getD "") := by
    unfold Recorders.find at found
    split at found
    · cases found
    · rename_i known
      split at known
      · rename_i member
        cases known
        cases found
        exact ⟨rfl, by simpa using member, rfl⟩
      · cases known
  obtain ⟨same₀, known, rfl⟩ := known
  refine ⟨same₃.trans (same₂.trans (same₁.trans same₀)), known, meter, distribution, chosen, ?_, made⟩
  cases isRandom with
  | false =>
    obtain rfl := Except.ok.inj drawn
    rfl
  | true =>
    simp only [if_true] at drawn
    cases found : n.distribution with
    | error e =>
      rw [found] at drawn
      cases drawn
    | ok d =>
      rw [found] at drawn
      obtain rfl := Except.ok.inj drawn
      rfl

/-- What is remembered gets a name that is new. -/
theorem exists_of_recorded {id : Option String} {rs rs' : Recorders}
    {sel made : Selector Memory S C} (built : recorded id sel rs = .ok (made, rs')) :
    id = none ∧ made = sel ∨ ∃ name, id = some name ∧
      made = sel.recording (Candidate.recorder name) ∧ ¬(name ∈ rs.indices ∨ name ∈ rs.handles) := by
  unfold recorded at built
  cases id with
  | none => exact .inl ⟨rfl, (Building.pure_eq_ok.1 built).1⟩
  | some name =>
    obtain ⟨recorder, rs₁, created, built⟩ := Building.andThen_eq_ok.1 built
    obtain ⟨rfl, -⟩ := Building.pure_eq_ok.1 built
    split at created
    · cases created
    · rename_i made
      obtain rfl := Except.ok.inj created
      obtain rfl := Recorders.eq_of_create made
      exact .inr ⟨name, rfl, rfl, Recorders.not_mem_of_create made⟩

/-- A selector of entities or values replays what is remembered under a name, or it is made in
layers: of the candidates a filter leaves some, which are put in order, cut off at a limit, and
remembered under a name of their own. -/
theorem cases_of_leaf (built : leaf r items c enclosing rs = .ok (sel, rs')) :
    (∃ id, c.mimic = some id ∧ sel = .replaying (Candidate.recorder id)) ∨
    c.mimic = none ∧ ∃ base rs₁ fewer kept,
      (match c.nearby with
        | some n => ranked r (.source items false) n
            (decide (c.orderIn enclosing = SelectionOrder.random))
        | none => .pure (.source items
            (decide (c.orderIn enclosing = SelectionOrder.random) && !c.cache.isCached))) rs =
          .ok (base, rs₁) ∧
      filtered (Candidate.plugins r) c.filter base = .ok fewer ∧
      ordered (Candidate.plugins r) c (c.orderIn enclosing) fewer = .ok kept ∧
      recorded c.id (match c.limit with
        | none => kept
        | some limit => kept.limited limit) rs₁ = .ok (sel, rs') := by
  unfold leaf at built
  obtain ⟨_, _, checked, rest⟩ := Building.andThen_eq_ok.1 built
  obtain ⟨-, rfl⟩ := Building.lift_eq_ok.1 checked
  cases mimic : c.mimic with
  | some id =>
    simp only [mimic] at rest
    split at rest
    · cases rest
    · rename_i found
      obtain ⟨rfl, -⟩ := Prod.mk.inj (Except.ok.inj rest)
      obtain rfl := Recorders.eq_of_find found
      exact .inl ⟨id, rfl, rfl⟩
  | none =>
    simp only [mimic] at rest
    obtain ⟨base, rs₁, based, rest⟩ := Building.andThen_eq_ok.1 rest
    obtain ⟨fewer, _, filtered, rest⟩ := Building.andThen_eq_ok.1 rest
    obtain ⟨kept, _, ordered, last⟩ := Building.andThen_eq_ok.1 rest
    obtain ⟨accepted, rfl⟩ := Building.ofSelector_eq_ok.1 filtered
    obtain ⟨arranged, rfl⟩ := Building.ofSelector_eq_ok.1 ordered
    exact .inr ⟨rfl, base, _, fewer, kept, based, accepted, arranged, last⟩

end Leaf

/-! ## Selectors of moves -/

section Moves

variable {r : Registry S} {enclosing : SelectionOrder} {rs rs' : Recorders}
variable {sel : Selector Memory S (Move S)} {sels : List (Selector Memory S (Move S))}

/-- Changes of a plain variable are made of two selectors of numbers. -/
theorem exists_of_changeSelector_plain {v : PlainVariable S} {entityCount valueCount : S → Nat}
    {entities values : SelectorSettings}
    (built : changeSelector r (.plain v entityCount valueCount) entities values enclosing rs =
      .ok (sel, rs')) :
    ∃ es rs₁ vs, leaf r (fun s => Array.range (entityCount s)) entities enclosing rs = .ok (es, rs₁) ∧
      leaf r (fun s => Array.range (valueCount s)) values enclosing rs₁ = .ok (vs, rs') ∧
      sel = .changes es vs (decide (enclosing = .random)) (fun e x => .change v e (some x))
        v.describe := by
  rw [changeSelector_plain] at built
  obtain ⟨es, rs₁, builtE, built⟩ := Building.andThen_eq_ok.1 built
  obtain ⟨vs, rs₂, builtV, built⟩ := Building.andThen_eq_ok.1 built
  obtain ⟨rfl, rfl⟩ := Building.pure_eq_ok.1 built
  exact ⟨es, rs₁, vs, builtE, builtV, rfl⟩

/-- Changes of a chained variable are made of two selectors of handles. -/
theorem exists_of_changeSelector_chained {v : ChainedVariable S}
    {entityHandles valueHandles : S → List Handle} {entities values : SelectorSettings}
    (built : changeSelector r (.chained v entityHandles valueHandles) entities values enclosing rs =
      .ok (sel, rs')) :
    ∃ es rs₁ vs, leaf r (fun s => (entityHandles s).toArray) entities enclosing rs = .ok (es, rs₁) ∧
      leaf r (fun s => (valueHandles s).toArray) values enclosing rs₁ = .ok (vs, rs') ∧
      sel = .changes es vs (decide (enclosing = .random)) (fun e x => .chainedChange v e (some x))
        v.describe := by
  obtain ⟨es, rs₁, builtE, built⟩ := Building.andThen_eq_ok.1 built
  obtain ⟨vs, rs₂, builtV, built⟩ := Building.andThen_eq_ok.1 built
  obtain ⟨rfl, rfl⟩ := Building.pure_eq_ok.1 built
  exact ⟨es, rs₁, vs, builtE, builtV, rfl⟩

/-- Runs are shuffled in a list of their own, or yielded by their selector. -/
theorem cases_of_runSelector {v : ChainedVariable S} {c : SubChainSettings}
    {runs : Selector Memory S SubChain} (built : runSelector v c enclosing = .ok runs) :
    let settings := c.runs.getD {}
    (settings.orderIn enclosing = .shuffled ∧ ∃ listed,
      Selector.subChains v c.minimum c.maximum settings.cache false = .ok listed ∧
      listed.shuffling settings.cache = .ok runs) ∨
    (settings.orderIn enclosing ≠ .shuffled ∧
      Selector.subChains v c.minimum c.maximum settings.cache
        (decide (settings.orderIn enclosing = .random)) = .ok runs) := by
  unfold runSelector at built
  dsimp only at built
  split at built
  · obtain ⟨listed, read, built⟩ := PlanSearch.andThen_eq_ok.1 built
    exact .inl ⟨‹_›, listed, read, built⟩
  · exact .inr ⟨‹_›, built⟩

/-- Runs are only moved in a chained variable. -/
theorem exists_of_subChainSelector {c : SubChainSettings}
    (built : subChainSelector r c enclosing rs = .ok (sel, rs')) :
    ∃ v entityHandles valueHandles runs values,
      r.find c.variableName = .ok (.chained v entityHandles valueHandles) ∧
      runSelector v c enclosing = .ok runs ∧
      leaf r (fun s => (valueHandles s).toArray) (c.values.getD {}) enclosing rs =
        .ok (values, rs') ∧
      sel = .subChainChanges v runs values (c.reversingToo.getD true)
        (decide (enclosing = .random)) := by
  unfold subChainSelector at built
  obtain ⟨v, rs₁, looked, rest⟩ := Building.andThen_eq_ok.1 built
  obtain ⟨found, same₁⟩ := Building.lift_eq_ok.1 looked
  cases v with
  | plain v entityCount valueCount => cases (Building.lift_eq_ok.1 rest).1
  | chained v entityHandles valueHandles =>
    obtain ⟨runs, rs₂, made, rest⟩ := Building.andThen_eq_ok.1 rest
    obtain ⟨builtR, same₂⟩ := Building.ofSelector_eq_ok.1 made
    obtain ⟨values, rs₃, builtV, last⟩ := Building.andThen_eq_ok.1 rest
    obtain ⟨rfl, rfl⟩ := Building.pure_eq_ok.1 last
    obtain rfl := same₂.trans same₁
    exact ⟨v, entityHandles, valueHandles, runs, values, found, builtR, builtV, rfl⟩

theorem movesOfAll_cons_eq_ok {c : MoveSelectorSettings} {rest : List MoveSelectorSettings} :
    movesOfAll r enclosing (c :: rest) rs = .ok (sels, rs') ↔ ∃ sel rs₁ sels',
      movesOf r enclosing c rs = .ok (sel, rs₁) ∧
      movesOfAll r enclosing rest rs₁ = .ok (sels', rs') ∧ sels = sel :: sels' := by
  simp only [movesOfAll, Building.andThen_eq_ok, Building.pure_eq_ok]
  constructor
  · rintro ⟨sel, rs₁, first, sels', _, others, rfl, rfl⟩
    exact ⟨sel, rs₁, sels', first, others, rfl⟩
  · rintro ⟨sel, rs₁, sels', first, others, rfl⟩
    exact ⟨sel, rs₁, first, sels', rs', others, rfl, rfl⟩

/-- Without settings there is a change of every variable; several of them are united. -/
theorem of_defaultMoves {holds : Selector Memory S (Move S) → Prop}
    (change_holds : ∀ {v sel rs rs'},
      changeSelector r v {} {} enclosing rs = .ok (sel, rs') → holds sel)
    (union_holds : ∀ {sels}, (∀ sel ∈ sels, holds sel) →
      holds (.union sels (enclosing = .random)))
    (built : defaultMoves r enclosing rs = .ok (sel, rs')) : holds sel := by
  unfold defaultMoves at built
  obtain ⟨sels, rs₁, each, built⟩ := Building.andThen_eq_ok.1 built
  have all : ∀ sel ∈ sels, holds sel := Building.of_each change_holds each
  split at built
  · cases (Building.lift_eq_ok.1 built).1
  · obtain ⟨rfl, -⟩ := Building.pure_eq_ok.1 built
    exact all _ (List.mem_singleton.2 rfl)
  · obtain ⟨rfl, -⟩ := Building.pure_eq_ok.1 built
    exact union_holds all

/-- The moves of a phase are those of its settings, or the default. -/
theorem cases_of_moveSelector {c : Option MoveSelectorSettings}
    (built : moveSelector r c enclosing = .ok sel) :
    (c = none ∧ ∃ rs rs', defaultMoves r enclosing rs = .ok (sel, rs')) ∨
      ∃ settings rs rs', c = some settings ∧ movesOf r enclosing settings rs = .ok (sel, rs') := by
  obtain ⟨⟨_, rs'⟩, building, made⟩ := PlanSearch.andThen_eq_ok.1 built
  obtain rfl := Except.ok.inj made
  cases c with
  | none => exact .inl ⟨rfl, _, rs', building⟩
  | some settings =>
    obtain ⟨-, rs, -, building⟩ := Building.andThen_eq_ok.1 building
    exact .inr ⟨settings, rs, rs', rfl, building⟩

end Moves

/-! ## Moves of variables -/

/-- The indices that moves are made of: those below the number of entities, or of values, of a plain
variable. What is recorded of the one may be repeated as the other. -/
def Registry.Ranges (r : Registry S) (i : Nat) : Prop :=
  ∃ v entityCount valueCount, RegisteredVariable.plain v entityCount valueCount ∈ r.vars ∧
    ∃ s, i < entityCount s ∨ i < valueCount s

/-- The moves that give an entity of the variable a value, or relocate a run of its chains. -/
def RegisteredVariable.Offers (ranges : Nat → Prop) : RegisteredVariable S → Move S → Prop
  | .plain v _ _, m => ∃ e x, ranges e ∧ m = .change v e (some x)
  | .chained v _ _, m => (∃ e x, m = .chainedChange v e (some x)) ∨
    ∃ run target reversing, m = Selector.partMove v run target reversing

/-- The moves of all variables. -/
def Registry.Offers (r : Registry S) (m : Move S) : Prop := ∃ v ∈ r.vars, v.Offers r.Ranges m

/-! ## Solvers -/

section Solvers

variable {sh : Shape} {r : Registry S}

/-- A local search is made of settings that are valid. It remembers nothing when it begins, and tries
at least one candidate. -/
theorem of_localSearch {whole : Option (Termination sh)} {c : LocalSearchSettings}
    {p : LocalSearch Memory S sh} (built : localSearch r whole c = .ok p) :
    (c.validate.mapError fun flaw => BuildError.config (.invalid flaw)) = .ok () ∧
      terminationIfAny c.termination = .ok p.termination ∧
      moveSelector r c.moveSelector .random = .ok p.moves ∧ p.memory = {} ∧
      p.selectedLimit = c.selectedLimit.map (max · 1) := by
  obtain ⟨_, checked, built⟩ := andThen_eq_ok.1 built
  obtain ⟨own, ends, built⟩ := andThen_eq_ok.1 built
  obtain ⟨moves, selected, built⟩ := andThen_eq_ok.1 built
  obtain ⟨⟨a, f⟩, -, built⟩ := andThen_eq_ok.1 built
  obtain rfl := Except.ok.inj built
  exact ⟨checked, ends, selected, rfl, rfl⟩

theorem acceptor_of_localSearch {whole : Option (Termination sh)} {c : LocalSearchSettings}
    {p : LocalSearch Memory S sh} (built : localSearch r whole c = .ok p) :
    acceptor (c.acceptor.getD {}) = .ok p.acceptor := by
  obtain ⟨_, -, built⟩ := andThen_eq_ok.1 built
  obtain ⟨own, -, built⟩ := andThen_eq_ok.1 built
  obtain ⟨moves, -, built⟩ := andThen_eq_ok.1 built
  obtain ⟨⟨a, f⟩, accepts, built⟩ := andThen_eq_ok.1 built
  obtain rfl := Except.ok.inj built
  obtain ⟨a', made, accepts⟩ := bind_eq_ok.1 accepts
  obtain ⟨_, -, accepts⟩ := bind_eq_ok.1 accepts
  obtain ⟨_, -, accepts⟩ := bind_eq_ok.1 accepts
  cases accepts
  exact made

theorem exists_mem_of_forall₂ {α : Type u} {β : Type v} {related : α → β → Prop} {l : List α}
    {l' : List β} (each : List.Forall₂ related l l') : ∀ b ∈ l', ∃ a ∈ l, related a b := by
  induction each with
  | nil => simp
  | cons first _ ih =>
    intro b member
    rcases List.mem_cons.1 member with rfl | later
    · exact ⟨_, List.mem_cons_self, first⟩
    · obtain ⟨a, there, others⟩ := ih b later
      exact ⟨a, List.mem_cons_of_mem _ there, others⟩

/-- The phases are built one by one. -/
theorem forall₂_of_phases {whole : Option (Termination sh)} {cs : List PhaseSettings}
    {ps : List (Phase Memory S sh)} (built : phases r whole cs = .ok ps) :
    List.Forall₂ (fun c p => phase r whole c = .ok p) cs ps := by
  induction cs generalizing ps with
  | nil =>
    obtain rfl := Except.ok.inj built
    exact .nil
  | cons c rest ih =>
    obtain ⟨p, first, built⟩ := andThen_eq_ok.1 built
    obtain ⟨others, made, built⟩ := andThen_eq_ok.1 built
    obtain rfl := Except.ok.inj built
    exact .cons first (ih made)

/-- A solver has its own termination and phases: those of its settings, or the default ones if the
settings have none. -/
theorem of_solver {c : SolverSettings} {made : Solver Memory S sh}
    (built : solver r c = .ok made) :
    terminationIfAny c.termination = .ok made.termination ∧
      (c.phases = [] ∧ (∃ p, localSearch r made.termination {} = .ok p ∧ made.phases =
          r.vars.map (fun v => .construction { placer := placer v }) ++ [.localSearch p]) ∨
        c.phases ≠ [] ∧
          List.Forall₂ (fun c p => phase r made.termination c = .ok p) c.phases made.phases) := by
  obtain ⟨-, -, built⟩ := andThen_eq_ok.1 built
  obtain ⟨whole, ends, built⟩ := andThen_eq_ok.1 built
  obtain ⟨ps, phased, built⟩ := andThen_eq_ok.1 built
  obtain rfl := Except.ok.inj built
  refine ⟨ends, ?_⟩
  split at phased
  · rename_i none
    obtain ⟨p, search, phased⟩ := andThen_eq_ok.1 phased
    exact .inl ⟨List.isEmpty_iff.1 none, p, search, (Except.ok.inj phased).symm⟩
  · rename_i some_
    exact .inr ⟨mt List.isEmpty_iff.2 some_, forall₂_of_phases phased⟩

end Solvers

/-! ## Answers -/

/-- What is answered with settings is the answer of the solver that is built from them. -/
theorem exists_solver_of_solve {sh : Shape} {r : Registry S} {around : Surroundings S sh}
    {entropy : Nat} {c : SolverSettings} {solution best : S}
    (solved : Assembly.solve r around entropy c solution = .ok (.ok best)) :
    ∃ solver : Solver Memory S sh, Assembly.solver r c = .ok solver ∧
      ∃ o st, solver.solve around entropy solution solver.start = .ok (o, st) ∧
        o.result = .ok best := by
  unfold Assembly.solve at solved
  cases built : (Assembly.solver r c : Except BuildError (Solver Memory S sh)) with
  | error e =>
    rw [built] at solved
    cases e <;> cases solved
  | ok solver =>
    rw [built] at solved
    cases ran : solver.solve around entropy solution solver.start with
    | error collapse =>
      simp only [ran] at solved
      cases solved
    | ok ended =>
      simp only [ran] at solved
      exact ⟨solver, rfl, ended.1, ended.2, ran, Except.ok.inj solved⟩

end PlanSearch.Assembly
