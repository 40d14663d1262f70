import PlanSearch.Proofs.Lockstep.Ground
import PlanSearch.Proofs.Lockstep.Yields

/-!
# The best solution

A search answers with the best solution that it came across: initialized solutions are better than
all others, and otherwise the score decides. The answer carries its score. What is announced as the
best solution gets better with every announcement.
-/

namespace PlanSearch

open Solver

variable {M S : Type} {sh : Shape}

/-- A run that answers has calculated the score of the solution that it began with. -/
theorem Solver.exists_calculate {solver : Solver M S sh} {around : Surroundings S sh}
    (lawful : around.problem.Lawful) {entropy : Nat} {solution best : S} {st st' : solver.State}
    {o : Outcome S sh} (ran : solver.solve around entropy solution st = .ok (o, st'))
    (answer : o.result = .ok best) : ∃ x, around.problem.calculate solution = .ok x := by
  rw [solve_eq] at ran
  split at ran
  · obtain ⟨rfl, -⟩ := Prod.mk.inj (Except.ok.inj ran)
    cases answer
  · have holds := Director.holds_new around.problem solution
    rcases holds.calculate_eq lawful with ⟨e, -, ended⟩ | ⟨x, -, scored, -, -⟩
    · have started : (Search.start (solver.conditions around)).run
          (solver.opening entropy solution) = (.error e, _) :=
        (Grounds.run_start _ _).trans (by rw [opening, conditions, ended])
      rw [started] at ran
      cases ran
    · exact ⟨x, (lawful.calculate_bare solution).symm.trans scored⟩

/-- What ranks no lower than an initialized solution is initialized. -/
theorem Problem.isInitialized_of_rank_le {p : Problem S sh} {s s' : S} {x x' : Score sh}
    (ranks : p.rank s x ≤ p.rank s' x') (initialized : p.isInitialized s = true) :
    p.isInitialized s' = true := by
  rw [rank, rank, Prod.Lex.toLex_le_toLex, initialized] at ranks
  rcases ranks with below | ⟨same, -⟩
  · exact absurd below (not_lt.2 (Bool.le_true _))
  · exact same.symm

namespace Grounds

variable {c : Conditions S sh} {mode : Config.EnvironmentMode} {good : Move S → Prop}
variable {G : Grounds c mode good}

/-- The working solution after a step ranks no higher than the best solution at the end. -/
theorem rank_le_of_passes {i k : Mark S sh} {a b : Milestone S sh}
    (passes : G.lockstep.Passes i k a b) :
    ∃ y, c.problem.calculate a.2.director.solution = .ok y ∧
      c.problem.rank a.2.director.solution y ≤ k.best.rank c.problem := by
  have lawful := G.problemLawful
  obtain ⟨j, y, -, goes, -, -, stands, knows, beaten⟩ := passes
  refine ⟨y, ?_, ?_⟩
  · rw [← lawful.calculate_bare, stands.left.bare]
    exact knows.score
  · have initialized := stands.left.isInitialized_solution lawful
    rw [Problem.rank, initialized]
    exact beaten.trans goes.1

end Grounds

/-- The answer of a run is stored with its score, which is the one that it deserves. It ranks no
lower than the solution that the run began with and than any that it worked on after a step, and it
is initialized if one of them is. The solutions that were announced as the best ones rank higher and
higher, and the answer is the last of them. -/
theorem Solver.solve_best (solver : Solver M S sh) (vars : Variables S)
    (yields : ∀ p ∈ solver.phases, p.Yields fun m => m.Over vars ∧ m.KeepsRuns)
    (around : Surroundings S sh) (problemLawful : around.problem.Lawful) (lawful : vars.Lawful)
    (blind : vars.Blind around.problem) (st : solver.State)
    (history : solver.Reached (fun _ => True) st) (entropy : Nat) (solution : S)
    (valid : vars.Valid solution) (o : Outcome S sh) (st' : solver.State)
    (ran : solver.solve around entropy solution st = .ok (o, st')) (best : S)
    (answer : o.result = .ok best) :
    let seen := solution :: (solver.trail around entropy solution st).map fun a =>
      a.2.director.solution
    ∃ x, around.problem.score best = some x ∧ around.problem.calculate best = .ok x ∧
      (∀ s ∈ seen, ∃ y, around.problem.calculate s = .ok y ∧
        around.problem.rank s y ≤ around.problem.rank best x) ∧
      (∀ s ∈ seen, around.problem.isInitialized s = true →
        around.problem.isInitialized best = true) ∧
      ((Event.bests o.events).map around.problem.rankOf).IsChain (· < ·) ∧
      ∀ last ∈ (Event.bests o.events).getLast?, last = (best, x) := by
  let G : Grounds (solver.conditions around) solver.mode fun m => m.Over vars ∧ m.KeepsRuns :=
    .unrestricted problemLawful lawful blind
  obtain ⟨guides, begins, closed⟩ := exists_guides_yields yields
  have resting := history.resting begins closed
  obtain ⟨x, scored⟩ := exists_calculate problemLawful ran answer
  obtain ⟨k, along, answers⟩ := G.course_alone trivial guides (fun _ _ => rfl) resting valid trivial
    (fun y same => (Except.ok.inj (scored.symm.trans same)).symm) entropy
  obtain ⟨z, s, t, st₀, ⟨stands, knows, -⟩, rfl⟩ := answers.solved_of_ok ran answer
  rw [finish_eq _ _ _ knows.best] at answer ⊢
  obtain rfl : k.best.solution = best := Except.ok.inj answer
  have bests : Event.bests (s.events.toList ++ [.solvingEnded k.best.solution s.interrupted]) =
      Event.bests s.events.toList := by
    rw [Event.bests, List.filterMap_append]
    exact List.append_nil _
  dsimp only
  rw [bests]
  have ranks : ∀ s ∈ solution :: (solver.trail around entropy solution st).map
      (fun a => a.2.director.solution), ∃ y, around.problem.calculate s = .ok y ∧
        around.problem.rank s y ≤ k.best.rank around.problem := by
    refine List.forall_mem_cons.2 ⟨⟨x, scored, ?_⟩, List.forall_mem_map.2 fun a member => ?_⟩
    · have begins : (Grounds.opening around.problem solution x).best.rank around.problem =
          around.problem.rank solution x :=
        congrArg (fun b => toLex (b, x)) (problemLawful.isInitialized_withScore ..)
      rw [← begins]
      exact along.goes.1
    · exact Grounds.rank_le_of_passes (List.forall₂_same.1 along.forall₂ a member)
  refine ⟨k.best.score, knows.sound.stored, knows.sound.deserved, ranks, ?_, knows.rising,
    knows.latest⟩
  intro s member initialized
  obtain ⟨y, -, ranked⟩ := ranks s member
  exact Problem.isInitialized_of_rank_le ranked initialized

/-- The answer for a necklace carries its score. -/
theorem ScoredNecklace.solve_best_plain :
    ∃ best x, Assembly.solve registry around 0 settings plain = .ok (.ok best) ∧
      problem.score best = some x ∧ problem.calculate best = .ok x := by
  obtain ⟨best, solved⟩ := exists_answer
  obtain ⟨solver, built, o, st, ran, answer⟩ := Assembly.exists_solver_of_solve solved
  have yields (p) (member : p ∈ solver.phases) :
      p.Yields fun m => m.Over registry.written ∧ m.KeepsRuns :=
    (Assembly.yields_solver built p member).mono fun m offered => ⟨offered.over, offered.keepsRuns⟩
  obtain ⟨x, stored, deserved, -⟩ := Solver.solve_best solver registry.written yields around
    lawful_problem lawful_written blind_written solver.start .start 0 plain valid_plain o st ran
    best answer
  exact ⟨best, x, solved, stored, deserved⟩

namespace ScoredNecklace

/-- Nothing is worth more than a bead of the second colour on no string. -/
def longing : Problem ScoredNecklace .simple where
  score := ScoredNecklace.score
  withScore s score := { s with score }
  isInitialized := problem.isInitialized
  calculate s :=
    let linked (e : Nat) := (s.necklace.graph.predecessor ⟨e⟩).isSome
    .ok <| .ofLevel <| (if linked 2 then 0 else if s.necklace.colour 2 = some 1 then 11 else 1) +
      if linked 3 then 2 else 0

/-- Takes both beads off their string, or colours the first one, or strings it. -/
def restrung : Array (Move ScoredNecklace) :=
  #[.changePart previous Necklace.beads none, .change colour 2 (some 1),
    .chainedChange previous ⟨2⟩ (some ⟨0⟩)]

/-- Tries all three in each of two steps. -/
def unstringer : Solver Unit ScoredNecklace .simple where
  phases := [.localSearch {
    moves := Selector.source (fun _ => restrung) false
    memory := ()
    acceptor := .hillClimbing
    forager := .ofLimit 4 .never
    termination := some (.stepCount 2) }]

/-- Taking a run out of all chains leaves its beads linked to one another, and taking back a later
move cuts that link. The better candidate before it was scored with the link, so that the answer is
stored with a score that it does not deserve. -/
theorem undeserved_unstringer :
    longing.Lawful ∧ registry.written.Lawful ∧ registry.written.Blind longing ∧
      registry.written.Valid plain ∧ (∀ m ∈ restrung, m.Over registry.written) ∧
      ∃ o st best, unstringer.solve { problem := longing, patience := 20 } 0 plain unstringer.start =
          .ok (o, st) ∧ o.result = .ok best ∧ longing.score best = some (.ofLevel 13) ∧
        longing.calculate best = .ok (.ofLevel 11) := by
  have own : ∀ m ∈ restrung, m.Over registry.written := by
    have strings : previous ∈ registry.written.chained := List.mem_singleton_self _
    have colours : colour ∈ registry.written.plain := List.mem_singleton_self _
    intro m member
    have ranges : registry.written.ranges colour 2 :=
      ⟨colour, _, _, .head _, plain, .inl (by decide : 2 < 4)⟩
    exact List.forall_mem_cons.2 ⟨.changePart _ _ strings,
      List.forall_mem_cons.2 ⟨.change _ colours ranges,
        List.forall_mem_singleton.2 (.chainedChange _ _ strings)⟩⟩
      m (Array.mem_def.1 member)
  have ran : (unstringer.solve { problem := longing, patience := 20 } 0 plain
      unstringer.start).toOption.any (fun ended => ended.1.result.toOption.any fun best =>
        longing.score best = some (.ofLevel 13) &&
          (longing.calculate best).toOption = some (.ofLevel 11)) = true := by
    decide +kernel
  obtain ⟨⟨o, st⟩, solved, ran⟩ := (Option.any_eq_true ..).1 ran
  obtain ⟨best, answer, ran⟩ := (Option.any_eq_true ..).1 ran
  obtain ⟨stored, deserved⟩ := Bool.and_eq_true_iff.1 ran
  exact ⟨{ lawful_problem with calculate_withScore := fun _ _ => rfl }, lawful_written,
    { blind_written with }, valid_plain, own, o, st, best, toOption_eq_some.1 solved,
    toOption_eq_some.1 answer, of_decide_eq_true stored,
    toOption_eq_some.1 (of_decide_eq_true deserved)⟩

end ScoredNecklace

end PlanSearch
