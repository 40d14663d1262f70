import PlanSearch.Proofs.Lockstep.Built
import PlanSearch.Proofs.Lockstep.History
import PlanSearch.Proofs.Lockstep.Ground

/-!
# Solvers that are used again

A solver with a seed of its own takes the same course on a solution whatever it was used for before,
if its local searches draw their values anew. What else differs after a phase was dropped when the
phase ended. Values that are selected in an order of passes go on from where an earlier run left
them, because no pass over the values is ever begun for moves that are drawn at random.
-/

namespace PlanSearch

open Assembly Config

variable {S : Type} {sh : Shape}

/-- The run came to an answer, or to an error after which no phase was under way. -/
def Solver.Settled (result : Except PlanError S) : Prop := ∀ e, result = .error e → e.IsSettled

/-- A solver with a seed has no use for one from outside. -/
theorem Solver.solve_of_seed {M : Type} {solver : Solver M S sh} (seeded : solver.seed.isSome)
    (around : Surroundings S sh) (entropy entropy' : Nat) (solution : S) (st : solver.State) :
    solver.solve around entropy solution st = solver.solve around entropy' solution st ∧
      solver.trail around entropy solution st = solver.trail around entropy' solution st := by
  obtain ⟨seed, known⟩ := Option.isSome_iff_exists.1 seeded
  have opening : solver.opening entropy solution = solver.opening entropy' solution := by
    simp only [opening, known, Option.getD_some]
  rw [solve_eq, solve_eq, trail, trail, opening]
  exact ⟨rfl, rfl⟩

/-- Whatever a solver was used for before, it completes the same steps on a solution as a new one,
announces the same events and comes to the same result, if its values are drawn anew and the earlier
runs ended with an answer, a stall or a cancellation. -/
theorem Assembly.solve_after_history (r : Registry S) (settings : SolverSettings)
    (solver : Solver Memory S sh) (built : Assembly.solver r settings = .ok solver)
    (seeded : solver.seed.isSome) (anew : settings.DrawsAnew) (st : solver.State)
    (history : solver.Reached Solver.Settled st) (around : Surroundings S sh)
    (entropy entropy' : Nat) (solution : S) (interrupted : Bool) :
    solver.trail around entropy solution { st with interrupted } =
        solver.trail around entropy' solution { solver.start with interrupted } ∧
      (solver.solve around entropy solution { st with interrupted }).map Prod.fst =
        (solver.solve around entropy' solution { solver.start with interrupted }).map Prod.fst := by
  have gaited := gaited_solver True r.even_eq trivial trivial (fun _ => anew) built
  obtain ⟨guides, begins, rectangular⟩ := exists_guides_cyclic trivial gaited trivial
  have resting := Lockstep.resting_start begins rectangular
    (fun e a b settled known left => left.resting ((or_iff_right ?_).1 known)) history
  · obtain ⟨same, answers⟩ := Lockstep.course_itself guides around entropy solution
      { st with interrupted } { solver.start with interrupted } resting rfl
    obtain ⟨solves, trails⟩ := Solver.solve_of_seed seeded around entropy entropy' solution
      { solver.start with interrupted }
    exact ⟨same.trans trails, answers.outcome_eq_itself.trans (congrArg _ solves)⟩
  · exact not_not_intro (settled e rfl)

/-- A second run on a necklace repeats the first one. -/
theorem ScoredNecklace.solve_after_history_plain :
    ∃ solver : Solver Memory ScoredNecklace .simple,
      Assembly.solver registry settings = .ok solver ∧ ∃ o st,
        solver.solve around 0 plain solver.start = .ok (o, st) ∧
          (solver.solve around 0 plain { st with interrupted := false }).map Prod.fst = .ok o := by
  obtain ⟨best, solved⟩ := exists_answer
  obtain ⟨solver, built, o, st, ran, answer⟩ := exists_solver_of_solve solved
  have seeded : solver.seed = some 2 := by
    obtain ⟨-, -, built⟩ := andThen_eq_ok.1 built
    obtain ⟨-, -, built⟩ := andThen_eq_ok.1 built
    obtain ⟨-, -, built⟩ := andThen_eq_ok.1 built
    obtain rfl := Except.ok.inj built
    rfl
  have anew : settings.DrawsAnew := by
    refine List.forall_mem_cons.2 ⟨trivial, List.forall_mem_singleton.2 fun m member => ?_⟩
    obtain rfl := Option.mem_some.1 member
    exact .inr ⟨rfl, .inl rfl⟩
  have history : solver.Reached Solver.Settled st :=
    .solved .start ran (by rw [answer]; exact nofun)
  obtain ⟨-, same⟩ := Assembly.solve_after_history registry settings solver built
    (Option.isSome_of_eq_some seeded) anew st history around 0 0 plain false
  exact ⟨solver, built, o, st, ran, same.trans (congrArg (Except.map Prod.fst) ran)⟩

end PlanSearch
