import PlanSearch.Proofs.Assembly.Limited

/-!
# Searches that keep a solution feasible

A built solver tries no move that is not doable, and doable moves are not refused, no matter which
chains they were selected for. So the chains of the working solution stay valid, no entity loses its
value, and nothing but a lack of moves stops a search with an error. Where no number gets too large
there is an answer.
-/

namespace PlanSearch

open Assembly Config Solver

variable {S : Type} {sh : Shape}

/-- Wherever a built solver completes a step, the chains of the working solution are valid, and no
entity is without a value that had one before. A run ends with an answer or for lack of a move, or
it was cancelled before it began. If what is registered returns and nothing is too large among
solutions that the moves do not lead out of, then it does end so, unless it goes on for longer than
there is patience; and with a limit of steps there is some patience that is enough. -/
theorem Assembly.solve_feasible (r : Registry S) (settings : SolverSettings)
    (solver : Solver Memory S sh) (built : Assembly.solver r settings = .ok solver)
    (around : Surroundings S sh) (problemLawful : around.problem.Lawful)
    (lawful : r.written.Lawful) (blind : r.written.Blind around.problem) (st : solver.State)
    (history : solver.Reached (fun _ => True) st) (entropy : Nat) (solution : S)
    (valid : r.written.Valid solution) :
    let working := (solver.trail around entropy solution st).map fun a => a.2.director.solution
    (∀ s ∈ working, r.written.Valid s) ∧
      (r.Framed around.problem → (solution :: working).Pairwise r.Keeps) ∧
      (∀ o st', solver.solve around entropy solution st = .ok (o, st') → ∀ e,
        o.result = .error e → e.kind = "Stall" ∨ e = .cancelled ∧ st.interrupted) ∧
      ∀ inside, solver.FitsAmong around.problem inside → r.Even (· = ·) (fun _ => False) →
        inside solution → st.Led inside →
        ((∃ o st', solver.solve around entropy solution st = .ok (o, st') ∧ st'.Led inside) ∨
          ∃ collapse, solver.solve around entropy solution st = .error collapse ∧
            collapse.fault = .exhausted) ∧
        ∀ whole limit, solver.termination = some whole → whole.StopsBy limit →
          (∀ s, Tireless (around.problem.calculate s)) →
          ∃ o st' enough, ∀ n ≥ enough,
            solver.solve (around.patient n) entropy solution st = .ok (o, st') := by
  let c := solver.conditions around
  let G : Grounds c solver.mode r.Offers := r.grounds (fun _ => id) problemLawful lawful blind True
    (fun _ => rfl) (fun s s' => r.Framed around.problem → r.Keeps s s') (fun _ _ _ _ => .refl _)
    (fun _ _ _ first second framed v member =>
      (second framed v member).trans (first framed v member))
    (fun m w undo offered valid applied framed => offered.keeps lawful framed valid applied)
    (around.problem.confined_anywhere _ True) trivial
  obtain ⟨guides, begins, closed⟩ := exists_guides_constant
    (gaited_solver False r.even_eq trivial trivial False.elim built) trivial
  have resting := history.resting begins closed
  obtain ⟨x, known⟩ := Grounds.exists_score around.problem solution
  obtain ⟨k, along, answers⟩ :=
    G.course_alone trivial guides (fun _ _ => rfl) resting valid trivial known entropy
  have passes := List.forall₂_same.1 along.forall₂
  refine ⟨?_, fun framed => List.pairwise_cons.2 ⟨?_, ?_⟩, fun o st' ran e failed => ?_,
    fun inside fits returns within led => ⟨?_, fun whole limit known stops tireless => ?_⟩⟩
  · refine List.forall_mem_map.2 fun a member => ?_
    obtain ⟨j, y, -, -, -, -, stands, knows, -⟩ := passes a member
    have valid := knows.valid
    rw [← stands.left.bare] at valid
    exact (blind.valid_withScore _ _).1 valid
  · refine List.forall_mem_map.2 fun a member => ?_
    obtain ⟨j, y, goes, -, -, -, stands, -⟩ := passes a member
    have kept : r.Keeps (around.problem.bare solution) j.working := goes.2 framed
    rw [← stands.left.bare] at kept
    exact (framed.keeps_bare blind).1 kept
  · refine List.pairwise_map.2 (along.pairwise.imp fun {a b} later => ?_)
    obtain ⟨j, j', y, y', t, t', goes, here, there⟩ := later
    have kept : r.Keeps j.working j'.working := goes.2 framed
    rw [← here.1.left.bare, ← there.1.left.bare] at kept
    exact (framed.keeps_bare blind).1 kept
  · exact (answers.error ran failed).imp_left fun h => h.resolve_left id
  · exact (returns_of_fits built returns around problemLawful lawful blind fits history led entropy
      valid within).imp_left fun ⟨o, st', answered, after, _⟩ => ⟨o, st', answered, after⟩
  · obtain ⟨o, st', ⟨enough, stays⟩, -, -⟩ := answers_of_limit built returns known stops
      problemLawful lawful blind tireless fits entropy valid within history led
    exact ⟨o, st', enough, stays⟩

/-- On a necklace nothing but a lack of time can keep a solver from an answer or a stall. -/
theorem ScoredNecklace.solve_feasible_plain :
    ∃ solver : Solver Memory ScoredNecklace .simple,
      Assembly.solver registry settings = .ok solver ∧
      let working := (solver.trail around 0 plain solver.start).map fun a => a.2.director.solution
      (∀ s ∈ working, registry.written.Valid s) ∧ (plain :: working).Pairwise registry.Keeps ∧
        ((∃ o st', solver.solve around 0 plain solver.start = .ok (o, st') ∧ st'.Led Small) ∨
          ∃ collapse, solver.solve around 0 plain solver.start = .error collapse ∧
            collapse.fault = .exhausted) := by
  obtain ⟨solver, built⟩ : ∃ solver : Solver Memory ScoredNecklace .simple,
    Assembly.solver registry settings = .ok solver := ⟨_, rfl⟩
  have cold : ∀ q ∈ solver.searches, q.acceptor.needsGradient = false := by
    obtain rfl := Except.ok.inj built
    exact List.forall_mem_singleton.2 rfl
  have fits : solver.FitsAmong problem Small :=
    ⟨confined_small built cold, sizes_small built (List.forall_mem_singleton.2 (by decide)),
      memory_of_settings built (List.forall_mem_singleton.2 nofun)⟩
  have looks (a b : ScoredNecklace) (same : a = b) : a.necklace = b.necklace := by rw [same]
  obtain ⟨valid, keeps, -, returns⟩ := Assembly.solve_feasible registry settings solver built around
    lawful_problem lawful_written blind_written solver.start .start 0 plain valid_plain
  exact ⟨solver, built, valid, keeps framed_registry,
    (returns Small fits (even_registry looks _) small_plain solver.led_start).1⟩

/-- A search about valid chains, in which no score and no size is too large, ends with neither an
answer nor a stall if there is no room for the history of late acceptance: it breaks off where that
phase would begin, after the colours were given. -/
theorem ScoredNecklace.collapses_coloured :
    ∃ solver : Solver Memory ScoredNecklace .simple,
      Assembly.solver registry { settings with
        phases := [.construction { variableName := some "colour" }, .localSearch farsighted] } =
          .ok solver ∧
      registry.written.Lawful ∧ registry.written.Blind problem ∧ registry.written.Valid plain ∧
      problem.Lawful ∧ (registry.Even (· = ·) fun _ => False) ∧
      problem.Confined (solver.Tries Small) (fun _ => False)
        (∃ q ∈ solver.searches, q.acceptor.needsGradient = true) Small ∧
      (∀ q ∈ solver.searches, q.moves.FitsAmong Small q.memory) ∧ Small plain ∧
      (solver.trail around 0 plain solver.start).length = 4 ∧
      ∃ collapse, solver.solve around 0 plain solver.start = .error collapse ∧
        collapse.fault = .overflow := by
  obtain ⟨solver, built⟩ : ∃ solver : Solver Memory ScoredNecklace .simple,
    Assembly.solver registry { settings with
      phases := [.construction { variableName := some "colour" }, .localSearch farsighted] } =
        .ok solver := ⟨_, rfl⟩
  have cold : ∀ q ∈ solver.searches, q.acceptor.needsGradient = false := by
    obtain rfl := Except.ok.inj built
    exact List.forall_mem_singleton.2 rfl
  have coloured : (solver.trail around 0 plain solver.start).length = 4 := by
    obtain rfl := Except.ok.inj built
    decide +kernel
  have breaks : Solver.fault? (solver.solve around 0 plain solver.start) = .error .overflow := by
    obtain rfl := Except.ok.inj built
    decide +kernel
  exact ⟨solver, built, lawful_written, blind_written, valid_plain, lawful_problem,
    even_registry (fun a b same => by rw [same]) _, confined_small built cold,
    sizes_small built (List.forall_mem_singleton.2 (by decide)), small_plain, coloured,
    Solver.fault?_eq_error.1 breaks⟩

end PlanSearch
