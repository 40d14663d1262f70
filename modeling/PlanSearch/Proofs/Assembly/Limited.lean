import PlanSearch.Proofs.Assembly.Settled
import PlanSearch.Proofs.Config.Valid
import PlanSearch.Proofs.Lockstep.Confined
import PlanSearch.Proofs.Search.Halting

/-!
# Built solvers with a limit of steps

The local searches of a built solver draw their moves at random. A call of their selectors comes to
an end, no matter which settings they have, and a step has a budget of candidates. So a limit of
steps for the solver as a whole is all that a run needs to come to an end.
-/

namespace PlanSearch

open Config

variable {S : Type} {sh : Shape} {faults : Fault → Prop}

/-! ## Moves that are drawn at random -/

namespace Config.MoveSelectorSettings

mutual

/-- Nothing is gone through in order where pairs are drawn. -/
theorem pairsEnd_random : ∀ c : MoveSelectorSettings, c.PairsEnd .random
  | .change _ => .inl rfl
  | .subChainChange _ => .inl rfl
  | .union children => allPairsEnd_random children

theorem allPairsEnd_random : ∀ cs : List MoveSelectorSettings, AllPairsEnd .random cs
  | [] => trivial
  | c :: rest => ⟨pairsEnd_random c, allPairsEnd_random rest⟩

end

end Config.MoveSelectorSettings

namespace Assembly

open Selector

section Endless

variable {r : Registry S} {rs rs' : Recorders} {sel : Selector Memory S (Move S)}

theorem neverEnding_changeSelector {v : RegisteredVariable S} {entities values : SelectorSettings}
    (built : changeSelector r v entities values .random rs = .ok (sel, rs')) :
    sel.neverEnding = true := by
  cases v with
  | plain v entityCount valueCount =>
    obtain ⟨_, _, _, -, -, rfl⟩ := exists_of_changeSelector_plain built
    rfl
  | chained v entityHandles valueHandles =>
    obtain ⟨_, _, _, -, -, rfl⟩ := exists_of_changeSelector_chained built
    rfl

theorem neverEnding_movesOf (c : MoveSelectorSettings)
    (built : movesOf r .random c rs = .ok (sel, rs')) : sel.neverEnding = true := by
  cases c with
  | change c =>
    obtain ⟨v, rs₁, -, built⟩ := Building.andThen_eq_ok.1 built
    exact neverEnding_changeSelector built
  | subChainChange c =>
    obtain ⟨_, _, _, _, _, -, -, -, rfl⟩ := exists_of_subChainSelector built
    rfl
  | union children =>
    rw [movesOf] at built
    obtain ⟨sels, rs₁, -, built⟩ := Building.andThen_eq_ok.1 built
    obtain ⟨rfl, -⟩ := Building.pure_eq_ok.1 built
    rfl

theorem neverEnding_defaultMoves (built : defaultMoves r .random rs = .ok (sel, rs')) :
    sel.neverEnding = true :=
  of_defaultMoves neverEnding_changeSelector (fun _ => rfl) built

/-- The moves of a selector in random order never come to an end. -/
theorem neverEnding_moveSelector {c : Option MoveSelectorSettings}
    (built : moveSelector r c .random = .ok sel) : sel.neverEnding = true := by
  rcases cases_of_moveSelector built with ⟨-, _, _, made⟩ | ⟨c, _, _, -, made⟩
  · exact neverEnding_defaultMoves made
  · exact neverEnding_movesOf c made

end Endless

/-! ## What is registered -/

theorem Plugins.Even.tame {C : Type} {p : Plugins S C} {faults' : Fault → Prop}
    (even : p.Even (· = ·) faults) (more : ∀ e, faults e → faults' e) (broken : faults' .broken) :
    p.Tame faults' where
  sorters f member s c e failed := more e ((even.sorters f member).2 s c e failed)
  weights f member :=
    ⟨fun s c e failed => more e ((even.weights f member).2.1 s c e failed), broken⟩
  meters f member s a b e failed := more e ((even.meters f member).2 s a b e failed)

end Assembly

/-! ## Local searches of built solvers -/

/-- The settings of a local search. -/
def Config.PhaseSettings.search? : PhaseSettings → Option LocalSearchSettings
  | .construction _ => none
  | .localSearch c => some c

/-- The settings of all local searches: a single one without any settings if there are no phases. -/
def Config.SolverSettings.searches (c : SolverSettings) : List LocalSearchSettings :=
  if c.phases.isEmpty then [{}] else c.phases.filterMap PhaseSettings.search?

namespace Assembly

section Searches

variable {r : Registry S} {whole : Option (Termination sh)}

theorem forall₂_search? {cs : List PhaseSettings} {ps : List (Phase Memory S sh)}
    (each : List.Forall₂ (fun c p => phase r whole c = .ok p) cs ps) :
    List.Forall₂ (fun c p => localSearch r whole c = .ok p) (cs.filterMap PhaseSettings.search?)
      (ps.filterMap Phase.search?) := by
  induction each with
  | nil => exact .nil
  | @cons c _ _ _ first _ ih =>
    cases c with
    | construction c =>
      obtain ⟨p, -, ended⟩ := andThen_eq_ok.1 first
      obtain rfl := Except.ok.inj ended
      exact ih
    | localSearch c =>
      obtain ⟨p, search, ended⟩ := andThen_eq_ok.1 first
      obtain rfl := Except.ok.inj ended
      exact .cons search ih

/-- The local searches of a built solver are made of those of its settings. -/
theorem searches_of_solver {c : SolverSettings} {solver : Solver Memory S sh}
    (built : Assembly.solver r c = .ok solver) :
    List.Forall₂ (fun c p => localSearch r solver.termination c = .ok p) c.searches
      solver.searches := by
  obtain ⟨-, ⟨none, p, search, phases⟩ | ⟨some_, each⟩⟩ := of_solver built
  · have constructions : (r.vars.map fun v => (Phase.construction { placer := placer v } :
        Phase Memory S sh)).filterMap Phase.search? = [] := by
      rw [List.filterMap_eq_nil_iff]
      exact List.forall_mem_map.2 fun _ _ => rfl
    rw [SolverSettings.searches, if_pos (List.isEmpty_iff.2 none), Solver.searches, phases,
      List.filterMap_append, constructions]
    exact .cons search .nil
  · rw [SolverSettings.searches, if_neg (mt List.isEmpty_iff.1 some_)]
    exact forall₂_search? each

end Searches

/-- Every step of a built solver comes to an end. -/
theorem halting_solver {r : Registry S} (tame : r.Tame (· ≠ .exhausted)) {c : SolverSettings}
    {solver : Solver Memory S sh} (built : Assembly.solver r c = .ok solver) :
    ∀ p ∈ solver.phases, p.Halting := by
  have searches : List.Forall₂ (fun (p : LocalSearch Memory S sh) (c : LocalSearchSettings) =>
      p.Halting ∧ localSearch r solver.termination c = .ok p) solver.searches c.searches := by
    refine (searches_of_solver built).flip.imp fun p c made => ⟨?_, made⟩
    obtain ⟨-, -, selected, -⟩ := of_localSearch made
    exact ⟨settled_moveSelector tame nofun selected
      (.inr fun m _ => m.pairsEnd_random), .inr (neverEnding_moveSelector selected)⟩
  intro p member
  cases p with
  | construction p => trivial
  | localSearch p =>
    exact ((List.forall₂_and_left _ _).1 searches).1 p (List.mem_filterMap.2 ⟨_, member, rfl⟩)

/-! ## Solvers for which nothing is too large -/

/-- What late acceptance looks back on fits the memory of a machine if the settings say so. -/
theorem fitsMemory_of_acceptor {c : AcceptorSettings} {a : Acceptor S sh}
    (built : acceptor c = .ok a)
    (fits : ∀ size ∈ c.lateAcceptance, max size 1 * sh.levelCount * 8 < 0x8000000000000000) :
    a.FitsMemory := by
  obtain ⟨_, -, built⟩ := bind_eq_ok.1 built
  obtain ⟨annealings, cooled, built⟩ := bind_eq_ok.1 built
  obtain rfl := Except.ok.inj built
  have cools : ∀ a ∈ annealings, a.FitsMemory := by
    intro a member
    obtain ⟨text, -, made⟩ := exists_mem_of_forall₂ (mapM_eq_ok_iff.1 cooled) a member
    unfold annealing at made
    split at made
    · cases made
    · rename_i temperature _
      cases ofTemperature : (Annealing.ofTemperature temperature) <;>
        rw [ofTemperature] at made <;> cases made
      trivial
  refine Acceptor.fitsMemory_combine ?_
  simp only [List.forall_mem_append, List.forall_mem_map]
  exact ⟨⟨⟨⟨⟨fun _ _ => trivial, fun _ _ => trivial⟩, fun _ _ => trivial⟩, fun _ _ => trivial⟩,
    cools⟩, fun size given => fits size (Option.mem_toList.1 given)⟩

/-- If the solutions are small for the number of parts that the selectors of moves have, then no size
is too large. -/
theorem sizes_of_small {r : Registry S} {settings : SolverSettings} {solver : Solver Memory S sh}
    (built : Assembly.solver r settings = .ok solver) (tame : r.Tame (· ≠ .overflow))
    {inside : S → Prop} {n : ℕ} (few : r.AtMost n inside)
    (rooms : ∀ c ∈ settings.searches, r.parts c.moveSelector * most n ≤ Count.max) :
    ∀ q ∈ solver.searches, q.moves.FitsAmong inside q.memory := by
  intro q member
  obtain ⟨c, given, made⟩ := exists_mem_of_forall₂ (searches_of_solver built) q member
  obtain ⟨-, -, selected, empty, -⟩ := of_localSearch made
  obtain ⟨small⟩ := small_moveSelector tame few (rooms c given) selected
  exact empty ▸ small.fitsAmong {}

/-- If late acceptance is for so many scores as fit a memory, then there is room for its history. -/
theorem memory_of_settings {r : Registry S} {settings : SolverSettings}
    {solver : Solver Memory S sh} (built : Assembly.solver r settings = .ok solver)
    (fits : ∀ c ∈ settings.searches, ∀ size ∈ (c.acceptor.getD {}).lateAcceptance,
      max size 1 * sh.levelCount * 8 < 0x8000000000000000) :
    ∀ q ∈ solver.searches, q.acceptor.FitsMemory := by
  intro q member
  obtain ⟨c, given, made⟩ := exists_mem_of_forall₂ (searches_of_solver built) q member
  exact fitsMemory_of_acceptor (acceptor_of_localSearch made) (fits c given)

/-- Where nothing is too large, a built solver with a limit of steps answers or comes to a stall. -/
theorem answers_of_limit {r : Registry S} {settings : SolverSettings}
    {solver : Solver Memory S sh} (built : Assembly.solver r settings = .ok solver)
    (returns : r.Even (· = ·) fun _ => False) {whole : Termination sh}
    (known : solver.termination = some whole) {limit : ℕ} (stops : whole.StopsBy limit)
    {around : Surroundings S sh} (problemLawful : around.problem.Lawful)
    (lawful : r.written.Lawful) (blind : r.written.Blind around.problem)
    (tireless : ∀ s, Tireless (around.problem.calculate s)) {inside : S → Prop}
    (fits : solver.FitsAmong around.problem inside) (entropy : ℕ) {solution : S}
    (valid : r.written.Valid solution) (within : inside solution) {st : solver.State}
    (history : solver.Reached (fun _ => True) st) (led : st.Led inside) :
    ∃ o st',
      (∃ enough, ∀ n ≥ enough,
        solver.solve (around.patient n) entropy solution st = .ok (o, st')) ∧
      (∀ n, solver.solve (around.patient n) entropy solution st = .ok (o, st') ∨
        ∃ collapse, solver.solve (around.patient n) entropy solution st = .error collapse ∧
          collapse.fault = .exhausted) ∧
      ∀ e, o.result = .error e → e.kind = "Stall" ∨ e = .cancelled ∧ st.interrupted := by
  have tame : r.Tame (· ≠ .exhausted) :=
    ⟨returns.indices.tame (fun _ => False.elim) nofun,
      returns.handles.tame (fun _ => False.elim) nofun⟩
  obtain ⟨outcome, ends, only, stays⟩ := Solver.endsIn_solve known stops
    (halting_solver tame built) tireless entropy solution st
  obtain ⟨n, same⟩ := stays.exists
  rcases returns_of_fits built returns (around.patient n) problemLawful lawful blind fits history led
    entropy valid within with ⟨o, st', answered, -, stall⟩ | ⟨collapse, broke, tired⟩
  · obtain rfl := same.symm.trans answered
    exact ⟨o, st', Filter.eventually_atTop.1 stays,
      fun n => (only n).imp_right Solver.fault?_eq_error.1, stall⟩
  · obtain rfl := same.symm.trans broke
    exact absurd tired (ends collapse.fault rfl)

end Assembly

namespace ScoredNecklace

open Assembly

/-- The chains are valid, with two strings and two beads. -/
def Small (s : ScoredNecklace) : Prop := s.necklace.graph.Valid ∧ s.necklace.graph.size = 4

theorem small_plain : Small plain := ⟨ChainGraph.validate_eq_ok_iff.1 (by decide), rfl⟩

theorem returns_calculate (s : ScoredNecklace) : Breaks (fun _ => False) (problem.calculate s) := by
  have few : (List.range 4).countP (fun e => s.necklace.colour e = some 1) ≤ 4 :=
    List.countP_le_length
  have top : ((4 : ℕ) : Int) ≤ Int64.maxValue.toInt := by decide
  refine .map _ ?_
  rw [Level.checked, if_pos ⟨(by decide : Int64.minValue.toInt ≤ 0).trans (Int.natCast_nonneg _),
    (Int.ofNat_le.2 few).trans top⟩]
  exact .ok _

/-- Neither colours nor runs that are placed elsewhere change how many strings and beads there
are. -/
theorem Small.apply {m : Move ScoredNecklace} {s : ScoredNecklace} {undo : Move ScoredNecklace}
    (small : Small s) (offered : registry.Offers m) (applied : (m.apply s).result = .ok undo) :
    Small (m.apply s).solution := by
  obtain ⟨v, _, _, e, x, member, -, rfl⟩ | ⟨v, _, _, run, d, reversing, member, by_⟩ :=
    offered.cases
  · rcases List.mem_cons.1 member with same | chained
    · obtain ⟨rfl, -, -⟩ := RegisteredVariable.plain.inj same
      rw [Move.apply_change]
      split <;> exact small
    · cases List.mem_singleton.1 chained
  · rcases List.mem_cons.1 member with plain | same
    · cases plain
    · obtain ⟨rfl, -, -⟩ := RegisteredVariable.chained.inj (List.mem_singleton.1 same)
      have lawful := lawful_written.chained previous (Registry.mem_chained member)
      cases planned : s.necklace.graph.planMove run (some d) reversing with
      | error e =>
        obtain ⟨back, apply⟩ := by_.apply
        rw [apply, Move.relocate_refused back planned] at applied
        cases applied
      | ok plan =>
        obtain ⟨g', undo, solution, -, placeable, moved⟩ := by_.apply_eq lawful small.1 planned
        rw [solution]
        exact ⟨moved.valid small.1 placeable nofun,
          (ChainGraph.size_congr moved.kind).trans small.2⟩

theorem atMost_small : registry.AtMost 4 Small := by
  refine List.forall_mem_cons.2 ⟨fun s _ => ⟨le_rfl, (by decide : 2 ≤ 4)⟩,
    List.forall_mem_singleton.2 fun s small => ?_⟩
  have handles : s.necklace.graph.handles.length = 4 := by
    simp [ChainGraph.handles, small.2]
  exact ⟨small.2.le, (List.length_filter_le ..).trans handles.le, handles.le⟩

/-- The moves of a solver of necklaces do not lead out of the small ones, and all scores are in range
there. -/
theorem confined_small {settings : SolverSettings} {solver : Solver Memory ScoredNecklace .simple}
    (built : Assembly.solver registry settings = .ok solver)
    (cold : ∀ q ∈ solver.searches, q.acceptor.needsGradient = false) :
    problem.Confined (solver.Tries Small) (fun _ => False)
      (∃ q ∈ solver.searches, q.acceptor.needsGradient = true) Small := by
  refine ⟨fun _ _ => id, fun m s undo tried small _ => small.apply (offers_of_tries built tried),
    fun s _ => returns_calculate s, fun ⟨q, member, anneals⟩ => ?_⟩
  rw [cold q member] at anneals
  cases anneals

/-- No size is too large for a solver of necklaces whose selectors of moves have few parts. -/
theorem sizes_small {settings : SolverSettings} {solver : Solver Memory ScoredNecklace .simple}
    (built : Assembly.solver registry settings = .ok solver)
    (rooms : ∀ c ∈ settings.searches, registry.parts c.moveSelector * most 4 ≤ Count.max) :
    ∀ q ∈ solver.searches, q.moves.FitsAmong Small q.memory := by
  have returns := even_registry (fun a b (same : a = b) => by rw [same]) fun _ => False
  exact sizes_of_small built
    ⟨returns.indices.tame nofun nofun, returns.handles.tame nofun nofun⟩ atMost_small rooms

/-- Late acceptance that looks back further than any memory reaches. -/
def farsighted : LocalSearchSettings :=
  { restringing with acceptor := some { lateAcceptance := some 0x1000000000000000 } }

end ScoredNecklace

end PlanSearch
