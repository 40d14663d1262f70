import PlanSearch.Proofs.Assembly.Building
import PlanSearch.Proofs.Lockstep.Layers
import PlanSearch.Proofs.Lockstep.Moves
import PlanSearch.Proofs.Lockstep.Nearby
import PlanSearch.Proofs.Lockstep.Leaf

/-!
# Gaits of built selectors

Every selector that is built from settings has a gait, if what is registered looks the same about
solutions that do. Its candidates are drawn anew if the settings of the values say so.
-/

namespace PlanSearch

/-! ## What is registered -/

namespace Assembly

variable {S : Type}

/-- The functions over candidates are the same about solutions of the same looks, and nothing but
the given faults comes of them. -/
structure Plugins.Even {C : Type} (p : Plugins S C) (Same : S → S → Prop) (faults : Fault → Prop) :
    Prop where
  filters : ∀ f ∈ p.filters, ∀ s s', Same s s' → f.2 s = f.2 s'
  sorters : ∀ f ∈ p.sorters,
    (∀ s s', Same s s' → f.2 s = f.2 s') ∧ ∀ s c, Breaks faults (f.2 s c)
  weights : ∀ f ∈ p.weights,
    (∀ s s', Same s s' → f.2 s = f.2 s') ∧ (∀ s c, Breaks faults (f.2 s c)) ∧
      ∀ s candidates totals, Selector.totalsOf (f.2 s) candidates = .ok totals →
        Selector.Drawable faults (Selector.totalWeight totals)
  meters : ∀ f ∈ p.meters,
    (∀ s s', Same s s' → f.2 s = f.2 s') ∧ ∀ s a b, Breaks faults (f.2 s a b)

/-- The variable ranges over the same things in solutions of the same looks. -/
def RegisteredVariable.Even (Same : S → S → Prop) : RegisteredVariable S → Prop
  | .plain v entityCount valueCount => ∀ s s', Same s s' →
    v.get s = v.get s' ∧ entityCount s = entityCount s' ∧ valueCount s = valueCount s'
  | .chained v entities values => ∀ s s', Same s s' →
    v.graph s = v.graph s' ∧ entities s = entities s' ∧ values s = values s'

/-- Everything that is registered is the same about solutions of the same looks. -/
structure Registry.Even (r : Registry S) (Same : S → S → Prop) (faults : Fault → Prop) : Prop where
  vars : ∀ v ∈ r.vars, v.Even Same
  indices : r.indices.Even Same faults
  handles : r.handles.Even Same faults

theorem Plugins.even_empty {C : Type} {Same : S → S → Prop} {faults : Fault → Prop} :
    ({} : Plugins S C).Even Same faults := ⟨nofun, nofun, nofun, nofun⟩

theorem Plugins.Even.more {C : Type} {p : Plugins S C} {Same : S → S → Prop}
    {faults' : Fault → Prop} (even : p.Even Same faults) (more : ∀ e, faults e → faults' e) :
    p.Even Same faults' where
  filters := even.filters
  sorters f member := (even.sorters f member).imp_right fun breaks s c e failed =>
    more e (breaks s c e failed)
  weights f member := by
    obtain ⟨same, breaks, drawable⟩ := even.weights f member
    refine ⟨same, fun s c e failed => more e (breaks s c e failed),
      fun s candidates totals known => ?_⟩
    exact (drawable s candidates totals known).imp_right fun draws g e failed =>
      more e (draws g e failed)
  meters f member := (even.meters f member).imp_right fun breaks s a b e failed =>
    more e (breaks s a b e failed)

theorem Registry.Even.more {r : Registry S} {Same : S → S → Prop} {faults' : Fault → Prop}
    (even : r.Even Same faults) (more : ∀ e, faults e → faults' e) : r.Even Same faults' :=
  ⟨even.vars, even.indices.more more, even.handles.more more⟩

/-- Functions are the same about the same solution. -/
theorem Registry.even_eq (r : Registry S) : r.Even (· = ·) (fun _ => True) := by
  have plugins {C : Type} (p : Plugins S C) : p.Even (· = ·) (fun _ => True) :=
    ⟨fun _ _ _ _ same => same ▸ rfl,
      fun _ _ => ⟨fun _ _ same => same ▸ rfl, fun _ _ _ _ => trivial⟩,
      fun _ _ => ⟨fun _ _ same => same ▸ rfl, fun _ _ _ _ => trivial,
        fun _ _ _ _ => .inr fun _ _ _ => trivial⟩,
      fun _ _ => ⟨fun _ _ same => same ▸ rfl, fun _ _ _ _ _ => trivial⟩⟩
  refine ⟨fun v _ => ?_, plugins _, plugins _⟩
  cases v with
  | plain v entityCount valueCount =>
    rintro s _ rfl
    exact ⟨rfl, rfl, rfl⟩
  | chained v entities values =>
    rintro s _ rfl
    exact ⟨rfl, rfl, rfl⟩

end Assembly

/-! ## Settings that draw anew -/

namespace Config

/-- The candidates are drawn without regard to passes: what was recorded is repeated, or candidates
are drawn at random, by weight, or by their distance from what was recorded, and are not counted. -/
def SelectorSettings.DrawsAnew (c : SelectorSettings) (enclosing : SelectionOrder) : Prop :=
  c.mimic.isSome ∨ c.limit = none ∧ (c.orderIn enclosing = .random ∨
    c.orderIn enclosing = .probabilistic ∨
    c.orderIn enclosing = .listed ∧ c.nearby.isSome ∧ c.cache.isCached = false)

namespace MoveSelectorSettings

mutual

/-- The values are drawn anew in all selectors of moves. -/
def DrawsAnew : MoveSelectorSettings → Prop
  | .change c => (c.values.getD {}).DrawsAnew .random
  | .subChainChange c => (c.values.getD {}).DrawsAnew .random
  | .union children => AllDrawAnew children

/-- The values are drawn anew in all of several selectors of moves. -/
def AllDrawAnew : List MoveSelectorSettings → Prop
  | [] => True
  | c :: rest => DrawsAnew c ∧ AllDrawAnew rest

end

end MoveSelectorSettings

end Config

namespace Selector

open Assembly Config

variable {S C : Type} {Same : S → S → Prop} {range : Nat → Prop} {faults : Fault → Prop}
variable {cyc steady : Prop}

/-- The selector has a gait with indices in the range, and a steady one if `steady` holds. -/
def Paced [Candidate C] [HasSlots C] (sel : Selector Memory S C) (Same : S → S → Prop)
    (range : Nat → Prop) (faults : Fault → Prop) (cyc steady : Prop) : Prop :=
  ∃ (own : Set Slot) (gait : sel.Gait Same (HasSlots.InRange range) range faults own cyc),
    steady → gait.Steady

/-! ## Entities and values -/

section Leaf

variable [Candidate C] [HasSlots C] {r : Registry S} {items : S → Array C} {rs rs' : Recorders}
variable {sel made : Selector Memory S C} {c : SelectorSettings}
variable (even : (Candidate.plugins r : Plugins S C).Even Same faults)
variable (exhausted : faults .exhausted) (overflow : faults .overflow)
variable (sees : ∀ s s', Same s s' → items s = items s')
variable (inRange : ∀ s, ∀ c ∈ items s, HasSlots.InRange range c)
include even

variable (cyc) in
include exhausted sees inRange in
theorem paced_ranked {n : NearbySettings} {isRandom : Bool}
    (built : ranked r (.source items false) n isRandom rs = .ok (sel, rs')) :
    sel.Paced Same range faults cyc True := by
  obtain ⟨-, -, meter, distribution, chosen, -, made⟩ := exists_of_ranked built
  obtain ⟨key, member⟩ := Plugins.mem_of_find chosen
  obtain ⟨looks, breaks⟩ := even.meters _ member
  obtain ⟨gait, steady⟩ := gait_nearby (sourceGait items false sees inRange) exhausted looks
    breaks made
  exact ⟨∅, gait, fun _ => steady⟩

include exhausted overflow in
theorem paced_filtered {name : Option String} (paced : sel.Paced Same range faults cyc steady)
    (built : filtered (Candidate.plugins r) name sel = .ok made) :
    made.Paced Same range faults cyc steady := by
  obtain ⟨-, rfl⟩ | ⟨test, accepts, -, found, rfl⟩ := cases_of_filtered built
  · exact paced
  · obtain ⟨key, member⟩ := Plugins.mem_of_find found
    obtain ⟨own, gait, h⟩ := paced
    exact ⟨own, filteringGait gait exhausted overflow (even.filters _ member),
      fun holds => steady_filtering gait exhausted overflow _ (h holds)⟩

include exhausted in
theorem paced_ordered {order : SelectionOrder} (paced : sel.Paced Same range faults cyc steady)
    (built : ordered (Candidate.plugins r) c order sel = .ok made) :
    made.Paced Same range faults cyc (order = .random ∧ c.cache.isCached ∨ order = .probabilistic ∨
      steady ∧ order.needsCache = false ∧ c.cache.isCached = false) := by
  obtain ⟨own, gait, h⟩ := paced
  have kept (built : (if c.cache.isCached then sel.caching c.cache (order = .random) else .ok sel) =
      .ok made) : made.Paced Same range faults cyc (order = .random ∧ c.cache.isCached ∨
        steady ∧ c.cache.isCached = false) := by
    split at built
    · rename_i cached
      obtain ⟨gait, random⟩ := gait_caching gait exhausted built
      refine ⟨own, gait, ?_⟩
      rintro (⟨rfl, -⟩ | ⟨-, uncached⟩)
      · exact random (by decide)
      · exact absurd cached (by simp [uncached])
    · rename_i uncached
      obtain rfl := Except.ok.inj built
      refine ⟨own, gait, ?_⟩
      rintro (⟨-, cached⟩ | ⟨holds, -⟩)
      · exact absurd cached uncached
      · exact h holds
  have weaken (kept : made.Paced Same range faults cyc (order = .random ∧ c.cache.isCached ∨
      steady ∧ c.cache.isCached = false)) (other : order ≠ .probabilistic) :
      made.Paced Same range faults cyc (order = .random ∧ c.cache.isCached ∨ order = .probabilistic ∨
        steady ∧ order.needsCache = false ∧ c.cache.isCached = false) := by
    obtain ⟨own, gait, h⟩ := kept
    refine ⟨own, gait, ?_⟩
    rintro (random | drawn | ⟨holds, -, uncached⟩)
    · exact h (.inl random)
    · exact absurd drawn other
    · exact h (.inr ⟨holds, uncached⟩)
  cases order with
  | sorted =>
    obtain ⟨key, found, built⟩ := PlanSearch.andThen_eq_ok.1 built
    obtain ⟨name, member⟩ := Plugins.mem_of_find found
    obtain ⟨looks, breaks⟩ := even.sorters _ member
    obtain ⟨gait⟩ := gait_sorting gait exhausted looks breaks built
    exact ⟨own, gait, by simp [SelectionOrder.needsCache]⟩
  | probabilistic =>
    obtain ⟨weight, found, built⟩ := PlanSearch.andThen_eq_ok.1 built
    obtain ⟨name, member⟩ := Plugins.mem_of_find found
    obtain ⟨looks, breaks, drawable⟩ := even.weights _ member
    obtain ⟨gait, steady⟩ := gait_probability gait exhausted looks breaks drawable built
    exact ⟨own, gait, fun _ => steady⟩
  | shuffled =>
    obtain ⟨gait⟩ := gait_shuffling gait exhausted built
    exact ⟨own, gait, by simp [SelectionOrder.needsCache]⟩
  | inherit => exact weaken (kept built) nofun
  | listed => exact weaken (kept built) nofun
  | random => exact weaken (kept built) nofun

omit even in
theorem paced_limited {limit : Option Nat} (paced : sel.Paced Same range faults cyc steady) :
    (match limit with
      | none => sel
      | some limit => sel.limited limit).Paced Same range faults cyc (limit = none ∧ steady) := by
  obtain ⟨own, gait, h⟩ := paced
  cases limit with
  | none => exact ⟨own, gait, fun holds => h holds.2⟩
  | some limit => exact ⟨own, limitedGait gait limit, nofun⟩

omit even in
theorem paced_recorded {id : Option String} (paced : sel.Paced Same range faults cyc steady)
    (built : recorded id sel rs = .ok (made, rs')) : made.Paced Same range faults cyc steady := by
  obtain ⟨own, gait, h⟩ := paced
  obtain ⟨-, rfl⟩ | ⟨name, -, rfl, -⟩ := exists_of_recorded built
  · exact ⟨own, gait, h⟩
  · exact ⟨_, recordingGait gait name fun _ inRange => inRange, fun holds =>
      steady_recording gait name (fun _ inRange => inRange) (h holds)⟩

variable (cyc) in
include exhausted overflow sees inRange in
/-- The selectors of entities and values have gaits. -/
theorem gait_leaf {enclosing : SelectionOrder}
    (built : leaf r items c enclosing rs = .ok (sel, rs')) :
    ∃ (own : Set Slot) (gait : sel.Gait Same (HasSlots.InRange range) range faults own cyc),
      cyc → c.DrawsAnew enclosing → gait.Anew := by
  obtain ⟨id, mimic, rfl⟩ | ⟨mimic, base, rs₁, fewer, kept, based, accepted, arranged, built⟩ :=
    cases_of_leaf built
  · exact ⟨∅, replayingGait id, fun _ _ => anew_replaying id⟩
  · have basePaced : base.Paced Same range faults cyc (c.nearby.isSome ∨
        c.orderIn enclosing = .random ∧ c.cache.isCached = false) := by
      cases nearby : c.nearby with
      | some n =>
        rw [nearby] at based
        obtain ⟨own, gait, steady⟩ := paced_ranked cyc even exhausted sees inRange based
        exact ⟨own, gait, fun _ => steady trivial⟩
      | none =>
        rw [nearby] at based
        obtain ⟨rfl, -⟩ := Building.pure_eq_ok.1 based
        refine ⟨∅, sourceGait items _ sees inRange, ?_⟩
        rintro (h | ⟨random, uncached⟩)
        · cases h
        · exact steady_source items (by simp [random, uncached]) sees inRange
    have fewerPaced := paced_filtered even exhausted overflow basePaced accepted
    have keptPaced := paced_ordered even exhausted fewerPaced arranged
    obtain ⟨own, gait, steady⟩ := paced_recorded (paced_limited keptPaced) built
    refine ⟨own, gait, fun h anew => Gait.Steady.anew (steady ?_) h⟩
    obtain mimicked | ⟨unlimited, order⟩ := anew
    · rw [mimic] at mimicked
      cases mimicked
    refine ⟨unlimited, ?_⟩
    rcases order with random | weighed | ⟨listed, nearby, uncached⟩
    · cases cached : c.cache.isCached with
      | true => exact .inl ⟨random, rfl⟩
      | false => exact .inr (.inr ⟨.inr ⟨random, rfl⟩, by rw [random]; rfl, rfl⟩)
    · exact .inr (.inl weighed)
    · exact .inr (.inr ⟨.inl nearby, by rw [listed]; rfl, uncached⟩)

end Leaf

/-! ## Moves -/

section Moves

variable {r : Registry S} {rs rs' : Recorders} {sel : Selector Memory S (Move S)}
variable (even : r.Even Same faults) (exhausted : faults .exhausted) (overflow : faults .overflow)
include even exhausted overflow

theorem gait_changeSelector {v : RegisteredVariable S} (member : v ∈ r.vars)
    {entities values : SelectorSettings} (anew : cyc → values.DrawsAnew .random)
    (built : changeSelector r v entities values .random rs = .ok (sel, rs')) :
    ∃ own, Nonempty (sel.Gait Same r.Offers r.Ranges faults own cyc) := by
  cases v with
  | plain v entityCount valueCount =>
    have looks := even.vars _ member
    obtain ⟨es, rs₁, vs, builtE, builtV, rfl⟩ := exists_of_changeSelector_plain built
    have entities (s : S) : ∀ e ∈ Array.range (entityCount s), r.Ranges e := fun e here =>
      ⟨v, _, _, member, s, .inl (Array.mem_range.1 here)⟩
    have targets (s : S) : ∀ x ∈ Array.range (valueCount s), r.Ranges x := fun x here =>
      ⟨v, _, _, member, s, .inr (Array.mem_range.1 here)⟩
    obtain ⟨ownE, gaitE, -⟩ := gait_leaf cyc even.indices exhausted overflow
      (fun s s' same => by rw [(looks s s' same).2.1]) entities builtE
    obtain ⟨ownV, gaitV, anewV⟩ := gait_leaf cyc even.indices exhausted overflow
      (fun s s' same => by rw [(looks s s' same).2.2]) targets builtV
    exact ⟨_, ⟨changesGait gaitE gaitV (fun h => anewV h (anew h))
      (fun e x ranges => ⟨_, member, e, x, ranges, rfl⟩) v.describe⟩⟩
  | chained v entityHandles valueHandles =>
    have looks := even.vars _ member
    obtain ⟨es, rs₁, vs, builtE, builtV, rfl⟩ := exists_of_changeSelector_chained built
    obtain ⟨ownE, gaitE, -⟩ := gait_leaf cyc even.handles exhausted overflow
      (fun s s' same => by rw [(looks s s' same).2.1]) (fun _ _ _ => trivial) builtE
    obtain ⟨ownV, gaitV, anewV⟩ := gait_leaf cyc even.handles exhausted overflow
      (fun s s' same => by rw [(looks s s' same).2.2]) (fun _ _ _ => trivial) builtV
    exact ⟨_, ⟨changesGait gaitE gaitV (fun h => anewV h (anew h))
      (fun e x _ => ⟨_, member, .inl ⟨e, x, rfl⟩⟩) v.describe⟩⟩

variable (range cyc) in
omit even in
theorem gait_runSelector {v : ChainedVariable S} {c : SubChainSettings}
    {enclosing : SelectionOrder} {runs : Selector Memory S SubChain}
    (sees : ∀ s s', Same s s' → v.graph s = v.graph s')
    (built : runSelector v c enclosing = .ok runs) :
    Nonempty (runs.Gait Same (fun _ => True) range faults ∅ cyc) := by
  rcases cases_of_runSelector built with ⟨-, listed, read, built⟩ | ⟨-, built⟩
  · obtain ⟨gait⟩ := gait_subChains faults range cyc overflow sees read
    exact gait_shuffling gait exhausted built
  · exact gait_subChains _ _ _ overflow sees built

theorem gait_subChainSelector {c : SubChainSettings}
    (anew : cyc → (c.values.getD {}).DrawsAnew .random)
    (built : subChainSelector r c .random rs = .ok (sel, rs')) :
    ∃ own, Nonempty (sel.Gait Same r.Offers r.Ranges faults own cyc) := by
  obtain ⟨v, _, _, runs, values, found, builtR, builtV, rfl⟩ := exists_of_subChainSelector built
  have member := Registry.mem_of_find found
  have looks := even.vars _ member
  obtain ⟨gaitR⟩ := gait_runSelector r.Ranges cyc exhausted overflow
    (fun s s' same => (looks s s' same).1) builtR
  obtain ⟨ownV, gaitV, anewV⟩ := gait_leaf cyc even.handles exhausted overflow
    (fun s s' same => by rw [(looks s s' same).2.2]) (fun _ _ _ => trivial) builtV
  exact ⟨_, ⟨subChainChangesGait gaitR gaitV (fun h => anewV h (anew h))
    (fun run target reversing => ⟨_, member, .inr ⟨run, target, reversing, rfl⟩⟩)
    (c.reversingToo.getD true)⟩⟩

end Moves

mutual

theorem gait_movesOf {r : Registry S} (even : r.Even Same faults) (exhausted : faults .exhausted)
    (overflow : faults .overflow) (c : MoveSelectorSettings) {rs rs' : Recorders}
    {sel : Selector Memory S (Move S)} (anew : cyc → c.DrawsAnew)
    (built : movesOf r .random c rs = .ok (sel, rs')) :
    ∃ own, Nonempty (sel.Gait Same r.Offers r.Ranges faults own cyc) := by
  cases c with
  | change c =>
    obtain ⟨v, rs₁, found, built⟩ := Building.andThen_eq_ok.1 built
    have member := Registry.mem_of_find (Building.lift_eq_ok.1 found).1
    exact gait_changeSelector even exhausted overflow member anew built
  | subChainChange c => exact gait_subChainSelector even exhausted overflow anew built
  | union children =>
    rw [movesOf] at built
    obtain ⟨children, rs₁, each, built⟩ := Building.andThen_eq_ok.1 built
    obtain ⟨rfl, -⟩ := Building.pure_eq_ok.1 built
    obtain ⟨own, ⟨gaits⟩⟩ := gaits_movesOfAll even exhausted overflow _ anew each
    exact ⟨own, ⟨unionGait gaits overflow⟩⟩

theorem gaits_movesOfAll {r : Registry S} (even : r.Even Same faults)
    (exhausted : faults .exhausted) (overflow : faults .overflow) (cs : List MoveSelectorSettings)
    {rs rs' : Recorders}
    {sels : List (Selector Memory S (Move S))}
    (anew : cyc → MoveSelectorSettings.AllDrawAnew cs)
    (built : movesOfAll r .random cs rs = .ok (sels, rs')) :
    ∃ own, Nonempty (Gaits Same r.Offers r.Ranges faults cyc sels own) := by
  cases cs with
  | nil =>
    obtain ⟨rfl, -⟩ := Building.pure_eq_ok.1 built
    exact ⟨∅, ⟨.nil⟩⟩
  | cons c rest =>
    obtain ⟨sel, rs₁, sels, first, others, rfl⟩ := movesOfAll_cons_eq_ok.1 built
    obtain ⟨own, ⟨gait⟩⟩ := gait_movesOf even exhausted overflow c (fun h => (anew h).1) first
    obtain ⟨ownRest, ⟨gaits⟩⟩ :=
      gaits_movesOfAll even exhausted overflow rest (fun h => (anew h).2) others
    exact ⟨_, ⟨.cons gait gaits⟩⟩

end

section Defaults

variable {r : Registry S} {rs rs' : Recorders} {sel : Selector Memory S (Move S)}
variable (even : r.Even Same faults) (exhausted : faults .exhausted) (overflow : faults .overflow)
include even exhausted overflow

variable (cyc) in
/-- The selectors of all variables have gaits. -/
theorem gaits_each (vars : List (RegisteredVariable S)) (sub : ∀ v ∈ vars, v ∈ r.vars)
    {sels : List (Selector Memory S (Move S))}
    (built : Building.each (fun v => changeSelector r v {} {} .random) vars rs = .ok (sels, rs')) :
    ∃ own, Nonempty (Gaits Same r.Offers r.Ranges faults cyc sels own) := by
  induction vars generalizing rs rs' sels with
  | nil =>
    obtain ⟨rfl, -⟩ := Building.pure_eq_ok.1 built
    exact ⟨∅, ⟨.nil⟩⟩
  | cons v rest ih =>
    obtain ⟨sel, rs₁, sels, first, others, rfl⟩ := Building.each_cons_eq_ok.1 built
    have anew : cyc → SelectorSettings.DrawsAnew {} .random := fun _ => .inr ⟨rfl, .inl rfl⟩
    obtain ⟨own, ⟨gait⟩⟩ := gait_changeSelector even exhausted overflow
      (sub v (List.mem_cons_self ..)) anew first
    obtain ⟨ownRest, ⟨gaits⟩⟩ := ih (fun w member => sub w (List.mem_cons_of_mem _ member)) others
    exact ⟨_, ⟨.cons gait gaits⟩⟩

theorem gait_defaultMoves (built : defaultMoves r .random rs = .ok (sel, rs')) :
    ∃ own, Nonempty (sel.Gait Same r.Offers r.Ranges faults own cyc) := by
  unfold defaultMoves at built
  obtain ⟨children, rs₁, each, built⟩ := Building.andThen_eq_ok.1 built
  obtain ⟨own, ⟨gaits⟩⟩ := gaits_each cyc even exhausted overflow r.vars
    (fun _ => id) each
  cases gaits with
  | nil => cases (Building.lift_eq_ok.1 built).1
  | cons gait rest =>
    cases rest with
    | nil =>
      obtain ⟨rfl, -⟩ := Building.pure_eq_ok.1 built
      exact ⟨_, ⟨gait⟩⟩
    | cons gait' rest =>
      obtain ⟨rfl, -⟩ := Building.pure_eq_ok.1 built
      exact ⟨_, ⟨unionGait (.cons gait (.cons gait' rest)) overflow⟩⟩

/-- The selector of moves of a built local search has a gait. -/
theorem gait_moveSelector {c : Option MoveSelectorSettings}
    (anew : cyc → ∀ m ∈ c, MoveSelectorSettings.DrawsAnew m)
    (built : moveSelector r c .random = .ok sel) :
    ∃ own, Nonempty (sel.Gait Same r.Offers r.Ranges faults own cyc) := by
  rcases cases_of_moveSelector built with ⟨-, _, _, made⟩ | ⟨c, _, _, rfl, made⟩
  · exact gait_defaultMoves even exhausted overflow made
  · exact gait_movesOf even exhausted overflow c (fun h => anew h c rfl) made

end Defaults

end Selector

end PlanSearch
