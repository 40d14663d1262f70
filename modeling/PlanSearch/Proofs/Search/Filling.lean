import PlanSearch.Proofs.Assembly.Registered
import PlanSearch.Proofs.Chain.Inverse
import PlanSearch.Proofs.Score.Order
import PlanSearch.Proofs.Search.Director
import PlanSearch.Search.Placer

/-!
# Giving an entity a value

An entity of a plain variable may be given every index below the number of values. An entity of a
chained variable may be placed after every anchor and every entity that is in a chain itself. In
either case every other entity keeps its value, or its lack of one. Of the values that lead to the
best score, the first one is the best choice.
-/

namespace PlanSearch

variable {S : Type} {sh : Shape}

/-- Whatever plain variable an entity has a value of, it keeps that value. -/
def Variables.Keeps (vars : Variables S) (s s' : S) : Prop :=
  ∀ v ∈ vars.plain, ∀ e, (v.get s e).isSome → v.get s' e = v.get s e

/-- Who keeps their values from one solution to the next keeps them to the end. -/
instance {vars : Variables S} : Trans vars.Keeps vars.Keeps vars.Keeps where
  trans {s t u} first second v member e assigned := by
    have same := first v member e assigned
    rw [← same] at assigned
    exact (second v member e assigned).trans same

namespace Placer

/-! ## Values -/

/-- The values that can be given to an entity without one: every index below the number of values,
or every anchor and then every entity that is connected to one. -/
def values (s : S) : Placer S → List ℕ
  | plain _ _ valueCount => List.range (valueCount s)
  | chained v =>
    let graph := v.graph s
    (graph.anchors ++ graph.entities.filter fun h => (graph.anchorOf h).isSome).map Handle.index

/-- The move that gives an entity a value. -/
def giving (e x : ℕ) : Placer S → Move S
  | plain v _ _ => .change v e (some x)
  | chained v => .chainedChange v ⟨e⟩ (some ⟨x⟩)

/-- Giving an entity a value leads from one solution to the other: the value is written, or the
entity is placed after an element of the graph, before what was placed after that. -/
def Gives (s : S) (e x : ℕ) (s' : S) : Placer S → Prop
  | plain v _ _ => s' = v.set s e (some x)
  | chained v => ∃ g, (v.graph s).Relocated (.single ⟨e⟩) (some ⟨x⟩) false g ∧ s' = v.withGraph s g

/-- The variable is one of those of the solution, and a plain one ranges over all its entities.
Neither what is given to entities nor the stored score shows in how many entities there are, and the
latter not in how many values there are. -/
inductive Suits (vars : Variables S) (problem : Problem S sh) : Placer S → Prop
  | plain {v : PlainVariable S} {entityCount valueCount : S → ℕ} (member : v ∈ vars.plain)
    (ranges : ∀ s, ∀ e < entityCount s, vars.ranges v e)
    (counts : ∀ s e x, entityCount (v.set s e x) = entityCount s)
    (scored : ∀ s y, entityCount (problem.withScore s y) = entityCount s ∧
      valueCount (problem.withScore s y) = valueCount s) :
    Suits vars problem (.plain v entityCount valueCount)
  | chained {v : ChainedVariable S} (member : v ∈ vars.chained) : Suits vars problem (.chained v)

variable {vars : Variables S} {problem : Problem S sh} {p : Placer S} {s s' : S} {e x : ℕ}

theorem mem_openEntities_plain {v : PlainVariable S} {entityCount valueCount : S → ℕ} :
    e ∈ (plain v entityCount valueCount).openEntities s ↔ e < entityCount s ∧ v.get s e = none := by
  rw [openEntities, List.mem_filter, List.mem_range, Option.isNone_iff_eq_none]

theorem mem_openEntities_chained {v : ChainedVariable S} :
    e ∈ (chained v).openEntities s ↔
      (v.graph s).kind? ⟨e⟩ = some .entity ∧ (v.graph s).predecessor ⟨e⟩ = none := by
  rw [openEntities, List.mem_map]
  constructor
  · rintro ⟨h, member, rfl⟩
    obtain ⟨member, free⟩ := List.mem_filter.1 member
    exact ⟨eq_of_beq (List.mem_filter.1 member).2, Option.isNone_iff_eq_none.1 free⟩
  · rintro ⟨kind, free⟩
    have known : (v.graph s).contains ⟨e⟩ := ChainGraph.contains_iff_kind?_isSome.2 (by rw [kind]; rfl)
    have member : (⟨e⟩ : Handle) ∈ (v.graph s).handles :=
      List.mem_map.2 ⟨e, List.mem_range.2 (of_decide_eq_true known), rfl⟩
    exact ⟨⟨e⟩, List.mem_filter.2 ⟨List.mem_filter.2 ⟨member, beq_of_eq kind⟩,
      Option.isNone_iff_eq_none.2 free⟩, rfl⟩

theorem nodup_openEntities (p : Placer S) (s : S) : (p.openEntities s).Nodup := by
  cases p with
  | plain v entityCount valueCount => exact List.nodup_range.filter _
  | chained v =>
    have handles : ((v.graph s).handles.map Handle.index).Nodup := by
      rw [ChainGraph.handles, List.map_map]
      exact (List.map_id _).symm ▸ List.nodup_range
    exact handles.sublist ((List.filter_sublist.trans List.filter_sublist).map _)

/-- The values of a chained variable are in a chain. -/
theorem isSome_anchorOf_of_mem {v : ChainedVariable S} (valid : (v.graph s).Valid)
    (known : x ∈ (chained v).values s) : ((v.graph s).anchorOf ⟨x⟩).isSome := by
  obtain ⟨h, member, rfl⟩ := List.mem_map.1 known
  rcases List.mem_append.1 member with anchor | connected
  · exact valid.isSome_anchorOf.2 (.inl (eq_of_beq (List.mem_filter.1 anchor).2))
  · exact (List.mem_filter.1 connected).2

theorem anchorOf_of_open {v : ChainedVariable S} (valid : (v.graph s).Valid)
    (open_ : e ∈ (chained v).openEntities s) : (v.graph s).anchorOf ⟨e⟩ = none := by
  obtain ⟨kind, free⟩ := mem_openEntities_chained.1 open_
  rw [← Option.not_isSome_iff_eq_none, valid.isSome_anchorOf, kind, free]
  rintro (⟨⟨⟩⟩ | ⟨⟨⟩⟩)

/-! ## Placements -/

/-- The moves of a placement give the entity one value after the other. -/
theorem movesFor_eq (valid : vars.Valid s) (suits : p.Suits vars problem)
    (open_ : e ∈ p.openEntities s) : p.movesFor s e = (p.values s).map fun x => p.giving e x := by
  cases suits with
  | plain member ranges counts scored => rfl
  | @chained v member =>
    have none_ := anchorOf_of_open (ChainGraph.validate_eq_ok_iff.1 (valid v member)) open_
    have others : destinations (v.graph s) ⟨e⟩ = (v.graph s).anchors ++
        (v.graph s).entities.filter fun h => ((v.graph s).anchorOf h).isSome := by
      refine congrArg _ (List.filter_congr fun h _ => ?_)
      by_cases self : h = ⟨e⟩
      · rw [self, none_, Option.isSome_none, Bool.and_false]
      · rw [bne_iff_ne.2 self, Bool.true_and]
    rw [movesFor, others, values, List.map_map]
    rfl

/-- The next entity to be placed is the first one without a value. -/
theorem next_eq (valid : vars.Valid s) (suits : p.Suits vars problem) :
    p.next s = (p.openEntities s).head?.map fun e =>
      ⟨⟨p.descriptorIndex, e⟩, ((p.values s).map fun x => p.giving e x).toArray⟩ := by
  rw [next]
  cases open_ : p.openEntities s with
  | nil => rfl
  | cons e rest =>
    have first : e ∈ p.openEntities s := open_ ▸ List.mem_cons_self
    rw [List.head?_cons, Option.map_some, Option.map_some, movesFor_eq valid suits first]

theorem Suits.openEntities_withScore (suits : p.Suits vars problem) (blind : vars.Blind problem)
    (s : S) (y : Option (Score sh)) :
    p.openEntities (problem.withScore s y) = p.openEntities s := by
  cases suits with
  | plain member ranges counts scored => simp only [openEntities, (scored s y).1, blind.get _ member]
  | chained member => simp only [openEntities, blind.graph _ member]

/-- The stored score does not show in a placement. -/
theorem Suits.next_withScore (suits : p.Suits vars problem) (blind : vars.Blind problem) (s : S)
    (y : Option (Score sh)) : p.next (problem.withScore s y) = p.next s := by
  rw [next, next, suits.openEntities_withScore blind]
  cases suits with
  | plain member ranges counts scored => simp only [movesFor, (scored s y).2]
  | chained member => simp only [movesFor, blind.graph _ member]

theorem Suits.openEntities_holds (suits : p.Suits vars problem) (lawful : problem.Lawful)
    (blind : vars.Blind problem) {d : Director S sh} (holds : d.Holds problem s) :
    p.openEntities d.solution = p.openEntities s := by
  rw [holds.solution_eq lawful, suits.openEntities_withScore blind]

theorem Suits.next_holds (suits : p.Suits vars problem) (lawful : problem.Lawful)
    (blind : vars.Blind problem) {d : Director S sh} (holds : d.Holds problem s) :
    p.next d.solution = p.next s := by
  rw [holds.solution_eq lawful, suits.next_withScore blind]

/-! ## Moves -/

theorem Suits.over_giving (suits : p.Suits vars problem) (open_ : e ∈ p.openEntities s) (x : ℕ) :
    (p.giving e x).Over vars := by
  cases suits with
  | plain member ranges counts scored =>
    exact .change (some x) member (ranges s e (mem_openEntities_plain.1 open_).1)
  | chained member => exact .chainedChange ⟨e⟩ (some ⟨x⟩) member

theorem keepsRuns_giving (p : Placer S) (e x : ℕ) : (p.giving e x).KeepsRuns := by
  cases p with
  | plain v entityCount valueCount => exact .change v e (some x)
  | chained v => exact .chainedChange v ⟨e⟩ (some ⟨x⟩)

section

variable (lawful : vars.Lawful) (valid : vars.Valid s) (suits : p.Suits vars problem)
variable (open_ : e ∈ p.openEntities s) (known : x ∈ p.values s)

theorem placeable_of_open {v : ChainedVariable S} (valid : (v.graph s).Valid)
    (open_ : e ∈ (chained v).openEntities s) (known : x ∈ (chained v).values s) :
    (v.graph s).Placeable (.single ⟨e⟩) (some ⟨x⟩) := by
  have top := isSome_anchorOf_of_mem valid known
  refine ⟨?_, .singleton _, ?_⟩
  · intro h member
    rw [List.mem_singleton.1 member]
    exact (mem_openEntities_chained.1 open_).1
  · rintro _ ⟨⟩
    refine ⟨?_, fun member => ?_, top⟩
    · obtain ⟨root, found⟩ := Option.isSome_iff_exists.1 top
      obtain ⟨anchor, leads⟩ := (ChainGraph.anchorOf_eq_some_iff valid.anchor_free).1 found
      exact leads.contains anchor
    · rw [List.mem_singleton.1 member, anchorOf_of_open valid open_] at top
      cases top

include lawful valid suits open_ known

/-- An entity without a value can be given every one of the values. -/
theorem giving_spec : (p.giving e x).isDoable s = true ∧
    (∃ undo, ((p.giving e x).apply s).result = .ok undo) ∧
    p.Gives s e x ((p.giving e x).apply s).solution := by
  cases suits with
  | plain member ranges counts scored =>
    have free := (mem_openEntities_plain.1 open_).2
    rw [giving, Move.isDoable, free, Move.apply_change, free, if_neg (Option.some_ne_none x).symm]
    exact ⟨rfl, ⟨_, rfl⟩, rfl⟩
  | @chained v member =>
    have valid := ChainGraph.validate_eq_ok_iff.1 (valid v member)
    have placeable := placeable_of_open valid open_ known
    have planned : (v.graph s).planMove (.single ⟨e⟩) (some ⟨x⟩) false = .ok _ :=
      ChainGraph.planMove_eq_ok.2 ⟨placeable, rfl⟩
    obtain ⟨-, g, written, moved⟩ := valid.applyPlan planned
    have applied := (Move.apply_chainedChange v ⟨e⟩ (some ⟨x⟩) s).trans
      (Move.relocate_eq (lawful.chained v member) (fun old => .chainedChange v ⟨e⟩ old) planned written)
    refine ⟨?_, ⟨_, congrArg Applied.result applied⟩, g, moved, congrArg Applied.solution applied⟩
    -- without a link to write the entity would stay where it is, after nothing
    rw [giving, Move.isDoable, Move.relocates, planned, Bool.not_eq_true', SplicePlan.isEmpty,
      List.isEmpty_eq_false_iff]
    intro none_
    rw [ChainGraph.applyPlan, none_] at written
    have link := moved.predecessor_of_mem (List.mem_singleton_self (⟨e⟩ : Handle))
    rw [← Except.ok.inj written, (mem_openEntities_chained.1 open_).2] at link
    exact absurd (link.trans ChainGraph.predecessorIn_cons_self) (Option.some_ne_none _).symm

end

/-! ## Solutions -/

/-- There is one solution that giving an entity a value leads to. -/
theorem Gives.unique {t : S} (gives : p.Gives s e x s') (gives' : p.Gives s e x t) : t = s' := by
  cases p with
  | plain v entityCount valueCount => exact gives'.trans gives.symm
  | chained v =>
    obtain ⟨g, moved, rfl⟩ := gives
    obtain ⟨g', moved', rfl⟩ := gives'
    have same : g' = g := moved.linked.ext moved'.linked
      (fun h => (moved'.kind h).trans (moved.kind h).symm)
      (moved'.predecessor.trans moved.predecessor.symm)
    rw [same]

/-- Who is given a value has one, and nobody else gets or loses one. -/
theorem Gives.openEntities_eq (gives : p.Gives s e x s') (lawful : vars.Lawful) (valid : vars.Valid s)
    (apart : vars.Apart) (suits : p.Suits vars problem) (open_ : e ∈ p.openEntities s)
    (known : x ∈ p.values s) : p.openEntities s' = (p.openEntities s).filter (· ≠ e) := by
  cases suits with
  | plain member ranges counts scored =>
    obtain rfl := gives
    rw [openEntities, openEntities, counts, List.filter_filter]
    refine List.filter_congr fun e' _ => ?_
    by_cases self : e' = e
    · have law := lawful.plain _ member
      rw [self, law.get_set _ _ _ (ranges _ e (mem_openEntities_plain.1 open_).1)]
      simp
    · rw [apart.set _ member _ member _ _ _ _ fun _ => self]
      simp [self]
  | @chained v member =>
    obtain ⟨g, moved, rfl⟩ := gives
    have valid := ChainGraph.validate_eq_ok_iff.1 (valid v member)
    have placeable := placeable_of_open valid open_ known
    simp only [openEntities, (lawful.chained v member).graph_withGraph, List.filter_map,
      List.filter_filter]
    rw [ChainGraph.entities_congr moved.kind]
    refine congrArg _ (List.filter_congr fun h _ => ?_)
    by_cases self : h = ⟨e⟩
    · have inside : ⟨e⟩ ∈ ((SubChain.single ⟨e⟩).oriented false).entities := List.mem_singleton_self _
      have placed := ChainGraph.isSome_predecessorIn (x := ⟨x⟩) inside
      rw [self, moved.predecessor_of_mem inside]
      simpa using placed
    · have outside : h ∉ (SubChain.single ⟨e⟩).entities := fun inside =>
        self (List.mem_singleton.1 inside)
      have same := moved.isSome_predecessor valid placeable outside
      have other : h.index ≠ e := fun index => self (congrArg Handle.mk index)
      rw [← Option.not_isSome, same, Option.not_isSome]
      simp [other]

theorem Gives.keeps (gives : p.Gives s e x s') (apart : vars.Apart) (suits : p.Suits vars problem)
    (open_ : e ∈ p.openEntities s) : vars.Keeps s s' := by
  intro w among e' assigned
  cases suits with
  | plain member ranges counts scored =>
    obtain rfl := gives
    refine apart.set _ member w among s e (some x) e' ?_
    rintro rfl rfl
    rw [(mem_openEntities_plain.1 open_).2] at assigned
    cases assigned
  | chained member =>
    obtain ⟨g, -, rfl⟩ := gives
    exact apart.withGraph _ member w among s g e'

end Placer

/-! ## The best value -/

/-- Of the values that were tried, each of which reaches a score, the given one reaches the best: those
before it are worse, and those after it are no better. -/
def FirstBest (reaches : ℕ → Score sh → Prop) (tried : List ℕ) (x : ℕ) (y : Score sh) : Prop :=
  ∃ before after, tried = before ++ x :: after ∧ reaches x y ∧
    (∀ x' ∈ before, ∃ z < y, reaches x' z) ∧ ∀ x' ∈ after, ∃ z ≤ y, reaches x' z

namespace FirstBest

variable {reaches : ℕ → Score sh → Prop} {tried : List ℕ} {x x' : ℕ} {y z : Score sh}

theorem singleton (reached : reaches x y) : FirstBest reaches [x] x y :=
  ⟨[], [], rfl, reached, List.forall_mem_nil _, List.forall_mem_nil _⟩

/-- Another value that reaches no better score changes nothing. -/
theorem concat_of_le (best : FirstBest reaches tried x y) (reached : reaches x' z) (le : z ≤ y) :
    FirstBest reaches (tried ++ [x']) x y := by
  obtain ⟨before, after, rfl, reaches_, worse, others⟩ := best
  refine ⟨before, after ++ [x'], by rw [List.append_assoc, List.cons_append], reaches_, worse, ?_⟩
  exact List.forall_mem_append.2 ⟨others, List.forall_mem_singleton.2 ⟨z, le, reached⟩⟩

/-- A value that reaches a better score than the best so far is better than all so far. -/
theorem concat_of_lt (best : FirstBest reaches tried x y) (reached : reaches x' z) (lt : y < z) :
    FirstBest reaches (tried ++ [x']) x' z := by
  obtain ⟨before, after, rfl, reaches_, worse, others⟩ := best
  refine ⟨before ++ x :: after, [], rfl, reached, ?_, List.forall_mem_nil _⟩
  refine List.forall_mem_append.2 ⟨fun a member => ?_, List.forall_mem_cons.2 ⟨⟨y, lt, reaches_⟩,
    fun a member => ?_⟩⟩
  · obtain ⟨u, below, there⟩ := worse a member
    exact ⟨u, below.trans lt, there⟩
  · obtain ⟨u, below, there⟩ := others a member
    exact ⟨u, below.trans_lt lt, there⟩

theorem mem (best : FirstBest reaches tried x y) : x ∈ tried := by
  obtain ⟨before, after, rfl, -⟩ := best
  exact List.mem_append_right _ List.mem_cons_self

theorem reached (best : FirstBest reaches tried x y) : reaches x y := by
  obtain ⟨before, after, -, reached, -⟩ := best
  exact reached

end FirstBest

namespace Placer

variable {vars : Variables S} {problem : Problem S sh} {p : Placer S} {s s' : S} {e x : ℕ}

/-- Giving an entity a value leads to a solution with the given score. -/
def Reaches (problem : Problem S sh) (p : Placer S) (s : S) (e x : ℕ) (y : Score sh) : Prop :=
  ∃ s', p.Gives s e x s' ∧ problem.calculate s' = .ok y

/-- The score is that of the solution. -/
theorem Reaches.calculate_eq {y : Score sh} (reached : p.Reaches problem s e x y)
    (gives : p.Gives s e x s') : problem.calculate s' = .ok y := by
  obtain ⟨t, gives', scored⟩ := reached
  rwa [gives.unique gives'] at scored

/-- The first entity without a value is given the first of the values that reach the best score. -/
def Fills (problem : Problem S sh) (p : Placer S) (s s' : S) : Prop :=
  ∃ e rest x y, p.openEntities s = e :: rest ∧
    FirstBest (p.Reaches problem s e) (p.values s) x y ∧
    p.Gives s e x s' ∧ problem.calculate s' = .ok y

section

variable (fills : p.Fills problem s s') (apart : vars.Apart) (suits : p.Suits vars problem)
include fills apart suits

/-- There is one entity less without a value. -/
theorem Fills.openEntities_eq (lawful : vars.Lawful) (valid : vars.Valid s) :
    p.openEntities s' = (p.openEntities s).tail := by
  obtain ⟨e, rest, x, y, open_, best, gives, -⟩ := fills
  have first : e ∈ p.openEntities s := open_ ▸ List.mem_cons_self
  have fresh : e ∉ rest := (List.nodup_cons.1 (open_ ▸ p.nodup_openEntities s)).1
  rw [gives.openEntities_eq lawful valid apart suits first best.mem, open_, List.tail_cons,
    List.filter_cons_of_neg (by simp), List.filter_eq_self]
  exact fun e' member => decide_eq_true (ne_of_mem_of_not_mem member fresh)

theorem Fills.keeps : vars.Keeps s s' := by
  obtain ⟨e, rest, x, y, open_, -, gives, -⟩ := fills
  exact gives.keeps apart suits (open_ ▸ List.mem_cons_self)

omit apart in
theorem Fills.valid (lawful : vars.Lawful) (valid : vars.Valid s) : vars.Valid s' := by
  obtain ⟨e, rest, x, y, open_, best, gives, -⟩ := fills
  have first : e ∈ p.openEntities s := open_ ▸ List.mem_cons_self
  obtain ⟨-, ⟨undo, applied⟩, gives'⟩ := giving_spec lawful valid suits first best.mem
  rw [← gives.unique gives']
  exact (Move.reverts lawful (suits.over_giving first x) (p.keepsRuns_giving e x) valid applied).valid

end

end Placer

end PlanSearch
