import PlanSearch.Proofs.Lockstep.Assembly
import PlanSearch.Proofs.Lockstep.Solver

/-!
# Guides for built solvers

The phases of a solver that is built from settings can be guided in two ways: from one run to the
next if all values are drawn anew, and for runs from the same state in any case.
-/

namespace PlanSearch

open Assembly Config

variable {S : Type} {sh : Shape} {Same : S → S → Prop} {faults : Fault → Prop} {cyc : Prop}

/-- The phase goes through the same entities and selects the same moves about solutions of the same
looks. -/
def Phase.Gaited (Same : S → S → Prop) (good : Move S → Prop) (faults : Fault → Prop) (cyc : Prop) :
    Phase Memory S sh → Prop
  | .construction p => p.placer.Places Same good
  | .localSearch p => p.memory = {} ∧
    ∃ range own, Nonempty (p.moves.Gait Same good range faults own cyc)

/-- The values are drawn anew in all local searches. -/
def Config.SolverSettings.DrawsAnew (c : SolverSettings) : Prop :=
  ∀ p ∈ c.phases, match p with
    | .construction _ => True
    | .localSearch p => ∀ m ∈ p.moveSelector, m.DrawsAnew

namespace Assembly

/-! ## Built phases -/

section Built

variable {r : Registry S} (even : r.Even Same faults) (exhausted : faults .exhausted)
variable (overflow : faults .overflow)

/-- The moves that are listed for an entity are moves of the variable. -/
theorem offers_of_next {v : RegisteredVariable S} (member : v ∈ r.vars) {s : S}
    {placement : Placement S} (found : (placer v).next s = some placement) {m : Move S}
    (listed : m ∈ placement.moves) : v.Offers r.Ranges m := by
  obtain ⟨entity, first, rfl⟩ := Option.map_eq_some_iff.1 found
  rw [List.mem_toArray] at listed
  cases v with
  | plain v entityCount valueCount =>
    have among := (List.mem_filter.1 (List.mem_of_head? first)).1
    obtain ⟨x, -, rfl⟩ := List.mem_map.1 listed
    exact ⟨entity, x, ⟨v, _, _, member, s, .inl (List.mem_range.1 among)⟩, rfl⟩
  | chained v entities values =>
    obtain ⟨h, -, rfl⟩ := List.mem_map.1 listed
    exact .inl ⟨⟨entity⟩, h, rfl⟩

include even in
theorem places_placer {v : RegisteredVariable S} (member : v ∈ r.vars) :
    (placer v).Places Same r.Offers := by
  intro a b same
  refine ⟨?_, fun placement found m listed => ⟨v, member, offers_of_next member found listed⟩⟩
  have looks := even.vars v member
  cases v with
  | plain v entityCount valueCount =>
    obtain ⟨values, entities, choices⟩ := looks a b same
    simp only [placer, Placer.next, Placer.openEntities, Placer.movesFor, values, entities, choices]
  | chained v entities values =>
    obtain ⟨graph, -, -⟩ := looks a b same
    simp only [placer, Placer.next, Placer.openEntities, Placer.movesFor, graph]

include even in
theorem gaited_construction {c : ConstructionSettings} {p : Construction S sh}
    (built : construction r c = .ok p) :
    (Phase.construction p).Gaited Same r.Offers faults cyc := by
  unfold construction at built
  cases found : r.find c.variableName with
  | error e =>
    rw [found] at built
    cases built
  | ok v =>
    rw [found] at built
    cases own : (terminationIfAny c.termination :
        Except BuildError (Option (Termination sh))) with
    | error e =>
      rw [own] at built
      cases built
    | ok termination =>
      rw [own] at built
      obtain rfl := Except.ok.inj built
      exact places_placer even (Registry.mem_of_find found)

include even exhausted overflow

theorem gaited_localSearch {whole : Option (Termination sh)} {c : LocalSearchSettings}
    {p : LocalSearch Memory S sh} (anew : cyc → ∀ m ∈ c.moveSelector, m.DrawsAnew)
    (built : localSearch r whole c = .ok p) :
    (Phase.localSearch p).Gaited Same r.Offers faults cyc := by
  obtain ⟨-, -, selected, empty, -⟩ := of_localSearch built
  exact ⟨empty, _, Selector.gait_moveSelector even exhausted overflow anew selected⟩

theorem gaited_phase {whole : Option (Termination sh)} {c : PhaseSettings} {p : Phase Memory S sh}
    (anew : cyc → SolverSettings.DrawsAnew { phases := [c] }) (built : phase r whole c = .ok p) :
    p.Gaited Same r.Offers faults cyc := by
  cases c with
  | construction c =>
    obtain ⟨p, constructed, built⟩ := andThen_eq_ok.1 built
    obtain rfl := Except.ok.inj built
    exact gaited_construction even constructed
  | localSearch c =>
    obtain ⟨p, search, built⟩ := andThen_eq_ok.1 built
    obtain rfl := Except.ok.inj built
    exact gaited_localSearch even exhausted overflow
      (fun h => anew h _ (List.mem_singleton_self _)) search

variable (cyc) in
theorem gaited_solver {c : SolverSettings} {solver : Solver Memory S sh}
    (anew : cyc → c.DrawsAnew) (built : Assembly.solver r c = .ok solver) :
    ∀ p ∈ solver.phases, p.Gaited Same r.Offers faults cyc := by
  obtain ⟨-, ⟨-, p, search, phases⟩ | ⟨-, each⟩⟩ := of_solver built
  · rw [phases]
    intro q member
    rcases List.mem_append.1 member with first | last
    · obtain ⟨v, known, rfl⟩ := List.mem_map.1 first
      exact places_placer even known
    · obtain rfl := List.mem_singleton.1 last
      exact gaited_localSearch even exhausted overflow (fun _ _ none => by cases none) search
  · intro p member
    obtain ⟨c, given, made⟩ := exists_mem_of_forall₂ each p member
    exact gaited_phase even exhausted overflow
      (fun h => List.forall_mem_singleton.2 (anew h c given)) made

end Built

end Assembly

/-! ## Guides -/

open Solver

variable {good : Move S → Prop} {phases : List (Phase Memory S sh)}

/-- If all values are drawn anew, then all states between runs are related to each other. -/
theorem exists_guides_cyclic (h : cyc) (gaited : ∀ p ∈ phases, p.Gaited Same good faults cyc)
    (overflow : faults .overflow) :
    ∃ guides : Guides Same good faults True phases,
      guides.Resting (startAll phases) (startAll phases) ∧
      ∀ a a' b b', guides.Resting a b → guides.Resting a' b' → guides.Resting a b' := by
  induction phases with
  | nil => exact ⟨.nil, trivial, fun _ _ _ _ _ _ => trivial⟩
  | cons p rest ih =>
    obtain ⟨first, others⟩ := List.forall_mem_cons.1 gaited
    obtain ⟨guides, begins, rectangular⟩ := ih others
    cases p with
    | construction p =>
      exact ⟨.cons (.construction first) guides, ⟨trivial, begins⟩, fun a a' b b' h h' =>
        ⟨trivial, rectangular _ _ _ _ h.2 h'.2⟩⟩
    | localSearch p =>
      obtain ⟨empty, range, own, ⟨gait⟩⟩ := first
      have calm := p.calm_of_overflow overflow
      refine ⟨.cons (.localSearch (gait.cyclic h) calm) guides,
        ⟨⟨⟨gait.start (.inr trivial), ?_⟩, .refl p, .refl p⟩, begins⟩, fun a a' b b' h h' =>
          ⟨⟨⟨?_, ?_⟩, h.1.left, h'.1.right⟩, rectangular _ _ _ _ h.2 h'.2⟩⟩
      · change Memory.Recall _ _ p.memory p.memory
        rw [empty]
        exact Memory.recall_start
      · exact gait.idle h.1.selector.1 h'.1.selector.1
      · exact Memory.Recall.of_empty h.1.selector.2 h'.1.selector.2

/-- States that are the same are related in every run, however it ends. -/
theorem exists_guides_constant (gaited : ∀ p ∈ phases, p.Gaited Same good faults cyc)
    (overflow : faults .overflow) :
    ∃ guides : Guides Same good faults True phases,
      guides.Resting (startAll phases) (startAll phases) ∧
      ∀ e a b, guides.Left e a b → guides.Resting a b := by
  refine Guides.exists_of_each fun p member => ?_
  cases p with
  | construction p => exact ⟨.construction (gaited _ member), trivial, fun _ _ _ => trivial⟩
  | localSearch p =>
    obtain ⟨empty, range, own, ⟨gait⟩⟩ := gaited _ member
    refine ⟨.localSearch gait.constant (p.calm_of_overflow overflow),
      ⟨⟨gait.start (.inl rfl), ?_⟩, .refl p, .refl p⟩,
      fun a b searching => ⟨searching.selector, searching.left, searching.right⟩⟩
    change Memory.Recall _ _ p.memory p.memory
    rw [empty]
    exact Memory.recall_start.mono (Set.empty_subset _)

end PlanSearch
