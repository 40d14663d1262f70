import PlanSearch.Proofs.Lockstep.Answers
import PlanSearch.Proofs.Lockstep.Built
import PlanSearch.Proofs.Lockstep.Ground

/-!
# Searches that check everything

Where everything is checked, the scores of the working solution are calculated again after every
candidate and every step. The checks never fail, and apart from the stored score and what the
director remembers they leave no trace: the same steps are completed, the same events are announced
and the same result is reached as without them.
-/

namespace PlanSearch

open Assembly Config Solver

variable {S : Type} {sh : Shape}

/-- Two searches completed the same step on working solutions that differ at most in the stored
score. -/
structure Milestone.Agree (p : Problem S sh) (a b : Milestone S sh) : Prop where
  phase : a.1 = b.1
  scope : a.2.Twin b.2
  working : p.bare a.2.director.solution = p.bare b.2.director.solution

/-- The phase goes by the score of the working solution, and a doable move that is tried on it is
taken back again. -/
def Milestone.Checked (c : Conditions S sh) (offered : Move S → Prop) (a : Milestone S sh) : Prop :=
  ∃ x, a.1.last = some x ∧ c.problem.calculate a.2.director.solution = .ok x ∧
    ∀ m, offered m → m.isDoable a.2.director.solution = true → ∀ result s,
      (Search.evaluate c m x).run.run.run a.2 = (.ok result, s) → (∃ y, result = .ok y) ∧
        c.problem.bare s.director.solution = c.problem.bare a.2.director.solution

/-- What is checked has no influence on what is built from settings with a fixed seed. -/
theorem Assembly.solver_mode (r : Registry S) (settings : SolverSettings) :
    (Assembly.solver r { settings with mode := .fullAssert } :
        Except BuildError (Solver Memory S sh)) =
      (Assembly.solver r { settings with mode := .reproducible }).map
        fun solver => solver.under .fullAssert := by
  have seed : SolverSettings.effectiveSeed { settings with mode := .fullAssert } =
      SolverSettings.effectiveSeed { settings with mode := .reproducible } := by
    unfold SolverSettings.effectiveSeed
    cases settings.seed <;> rfl
  have validate : SolverSettings.validate { settings with mode := .fullAssert } =
      SolverSettings.validate { settings with mode := .reproducible } := rfl
  unfold Assembly.solver
  rw [seed, validate]
  dsimp only
  cases (SolverSettings.validate { settings with mode := .reproducible }).mapError fun flaw =>
      BuildError.config (.invalid flaw) with
  | error e => rfl
  | ok _ =>
    dsimp only [andThen]
    cases (terminationIfAny settings.termination :
        Except BuildError (Option (Termination sh))) with
    | error e => rfl
    | ok whole =>
      dsimp only
      generalize (if settings.phases.isEmpty then defaultPhases r whole
        else phases r whole settings.phases) = built
      cases built <;> rfl

namespace Grounds

variable {c : Conditions S sh} {mode : EnvironmentMode} {good : Move S → Prop}
variable {G : Grounds c mode good} {i j k : Mark S sh} {x : Score sh} {a b : Milestone S sh}

theorem agree_of_passes (passes : G.lockstep.Passes i k a b) : Milestone.Agree c.problem a b := by
  obtain ⟨j, x, -, -, phase, -, stands, -⟩ := passes
  exact ⟨phase, stands.twin, stands.left.bare.trans stands.right.bare.symm⟩

theorem checked_of_passes (passes : G.lockstep.Passes i k a b)
    (silent : ∀ e, ¬G.errors e) : Milestone.Checked (c.under mode) good b := by
  obtain ⟨j, x, -, -, phase, last, stands, knows, -⟩ := passes
  have lawful := G.problemLawful
  have holds := stands.right
  refine ⟨x, phase ▸ last, ?_, fun m isGood doable result s tried => ?_⟩
  · have same := lawful.calculate_bare b.2.director.solution
    rw [holds.bare] at same
    exact same.symm.trans knows.score
  · have own := G.isOver m isGood
    rw [isDoable_bare own holds] at doable
    obtain ⟨t, ended, -, left⟩ := Search.turns_evaluate (c := c.under mode) lawful holds G.blind
      G.varsLawful own (G.keepsRuns m isGood) knows.valid knows.score
    rw [tried] at ended
    obtain ⟨found, rfl⟩ := Prod.mk.inj ended
    refine ⟨?_, (left result found.symm).bare.trans holds.bare.symm⟩
    cases applied : (m.apply j.working).result with
    | error e => exact absurd (G.refused m _ e isGood knows.valid doable applied) (silent _)
    | ok undo =>
      rw [applied] at found
      cases scored : c.problem.calculate (m.apply j.working).solution with
      | error e =>
        rw [Conditions.under_problem, scored] at found
        cases found
      | ok y =>
        rw [Conditions.under_problem, scored] at found
        exact ⟨y, Except.ok.inj found⟩

end Grounds

/-- A solver that checks everything completes the same steps as one that checks nothing, announces
the same events and comes to the same end. Its checks never fail: at the beginning of every step the
score that the phase goes by is that of the working solution, and every move that is tried is taken
back. -/
theorem Assembly.solve_fullAssert (r : Registry S) (settings : SolverSettings)
    (asserted plain : Solver Memory S sh)
    (builtAsserted : Assembly.solver r { settings with mode := .fullAssert } = .ok asserted)
    (builtPlain : Assembly.solver r { settings with mode := .reproducible } = .ok plain)
    (around : Surroundings S sh) (problemLawful : around.problem.Lawful)
    (lawful : r.written.Lawful) (blind : r.written.Blind around.problem)
    (even : r.Even (fun a b => around.problem.bare a = around.problem.bare b) fun _ => True)
    (entropy : Nat) (solution : S) (valid : r.written.Valid solution) (interrupted : Bool) :
    List.Forall₂ (fun a b => Milestone.Agree around.problem a b ∧
          Milestone.Checked (asserted.conditions around) r.Offers b)
        (plain.trail around entropy solution { plain.start with interrupted })
        (asserted.trail around entropy solution { asserted.start with interrupted }) ∧
      (asserted.solve around entropy solution { asserted.start with interrupted }).map Prod.fst =
        (plain.solve around entropy solution { plain.start with interrupted }).map Prod.fst ∧
      ∀ o st e, asserted.solve around entropy solution { asserted.start with interrupted } =
        .ok (o, st) → o.result = .error e → e.kind ≠ "Internal" := by
  rw [solver_mode, builtPlain] at builtAsserted
  obtain rfl := Except.ok.inj builtAsserted
  let c := plain.conditions around
  let G : Grounds c .fullAssert r.Offers := r.grounds (fun _ => id) problemLawful lawful blind False
    False.elim (fun _ _ => True) (fun _ => trivial) (fun _ _ _ _ _ => trivial)
    (fun _ _ _ _ _ _ => trivial) (c.problem.confined_anywhere _ True) trivial
  obtain ⟨guides, begins, -⟩ := exists_guides_constant
    (gaited_solver False even trivial trivial False.elim builtPlain) trivial
  let guides' : Guides G.lockstep.Same r.Offers G.lockstep.faults True plain.phases :=
    guides.weaken (fun _ _ same => same.bare) (fun _ => id) id
  have resting : guides'.Resting plain.start.phases plain.start.phases :=
    Guides.resting_weaken.2 begins
  obtain ⟨x, known⟩ := Grounds.exists_score c.problem solution
  obtain ⟨k, along, answers⟩ := Lockstep.course_solve (L := G.lockstep) around rfl guides'
    { plain.start with interrupted } { plain.start with interrupted } resting rfl
    (Grounds.together_start (G := G) (s := plain.opening entropy solution) rfl rfl valid trivial known)
  have outcomes := answers.outcome_eq fun z s t here => Option.isSome_of_eq_some here.2.1.best
  refine ⟨along.forall₂.imp fun _ _ passes => ⟨Grounds.agree_of_passes passes,
    Grounds.checked_of_passes passes fun _ => id⟩, outcomes.symm, fun o st e ran failed => ?_⟩
  replace outcomes := outcomes.trans (congrArg (Except.map Prod.fst) ran)
  cases ran' : plain.solve around entropy solution { plain.start with interrupted } with
  | error collapse =>
    rw [ran'] at outcomes
    cases outcomes
  | ok ended =>
    rw [ran'] at outcomes
    obtain rfl : ended.1 = o := Except.ok.inj outcomes
    rcases answers.error ran' failed with (impossible | stalled) | ⟨rfl, -⟩
    · exact impossible.elim
    · simp [stalled]
    · simp [PlanError.kind]

/-- Checking everything makes no difference to the run on a necklace. -/
theorem ScoredNecklace.solve_fullAssert_plain :
    ∃ asserted plainly : Solver Memory ScoredNecklace .simple,
      Assembly.solver registry { settings with mode := .fullAssert } = .ok asserted ∧
      Assembly.solver registry { settings with mode := .reproducible } = .ok plainly ∧
      (asserted.solve around 0 plain asserted.start).map Prod.fst =
        (plainly.solve around 0 plain plainly.start).map Prod.fst := by
  obtain ⟨plainly, built⟩ : ∃ plainly : Solver Memory ScoredNecklace .simple,
    Assembly.solver registry { settings with mode := .reproducible } = .ok plainly := ⟨_, rfl⟩
  obtain ⟨asserted, built'⟩ : ∃ asserted : Solver Memory ScoredNecklace .simple,
    Assembly.solver registry { settings with mode := .fullAssert } = .ok asserted := ⟨_, rfl⟩
  have looks (a b : ScoredNecklace) (same : problem.bare a = problem.bare b) :
      a.necklace = b.necklace := by
    have looks := congrArg ScoredNecklace.necklace same
    exact looks
  obtain ⟨-, same, -⟩ := Assembly.solve_fullAssert registry settings asserted plainly built' built
    around lawful_problem lawful_written blind_written (even_registry looks _) 0 plain valid_plain
    false
  exact ⟨asserted, plainly, built', built, same⟩

namespace ScoredNecklace

/-- Lets a test of entities look at the stored score. -/
def peeking : Registry ScoredNecklace :=
  { registry with indices := { filters := [("single", fun s _ => s.score = some (.ofLevel 1))] } }

/-- Picks the better of two changes of entities that pass the test. -/
def peeks : SolverSettings where
  seed := some 0
  phases := [.localSearch {
    moveSelector := some (.change {
      variableName := some "colour"
      entities := some { order := some .listed, filter := some "single" }
      values := some { order := some .listed } })
    forager := some { acceptedLimit := some 2 }
    termination := some (.node { steps := some 1 } [])
    selectedLimit := some 2 }]

/-- The first string has the second colour. -/
def dotted : ScoredNecklace := colour.set plain 0 (some 1)

theorem valid_dotted : registry.written.Valid dotted := by
  intro c member
  obtain rfl := List.mem_singleton.1 member
  exact valid_plain previous member

/-- A check stores the score of the working solution after every move that is taken back, where
otherwise the score of that move stays. A test that sees the stored score lets other moves pass. -/
theorem checks_matter_peeking :
    problem.Lawful ∧ peeking.written.Lawful ∧ peeking.written.Blind problem ∧
      peeking.written.Valid dotted ∧ (∀ s, ∃ x, problem.calculate s = .ok x) ∧
      ∃ s s', Assembly.solve peeking around 0 { peeks with mode := .fullAssert } dotted =
          .ok (.ok s) ∧
        Assembly.solve peeking around 0 { peeks with mode := .reproducible } dotted = .ok (.ok s') ∧
        problem.calculate s = .ok (.ofLevel 2) ∧ problem.calculate s' = .ok (.ofLevel 1) := by
  have calculates (s) : ∃ x, problem.calculate s = .ok x := by
    have few : (List.range 4).countP (fun e => s.necklace.colour e = some 1) ≤ 4 :=
      List.countP_le_length
    have low : Int64.minValue.toInt ≤ 0 := by decide
    have high : (4 : Nat) ≤ Int64.maxValue.toInt := by decide
    exact ⟨_, congrArg (Except.map Score.ofLevel) (if_pos ⟨low.trans (Int.natCast_nonneg _),
      (Int.ofNat_le.2 few).trans high⟩)⟩
  have answers (mode : EnvironmentMode) (x : Int64)
      (ran : ((Assembly.solve peeking around 0 { peeks with mode } dotted).toOption.bind
        Except.toOption).any (fun s => (problem.calculate s).toOption = some (.ofLevel x)) = true) :
      ∃ s, Assembly.solve peeking around 0 { peeks with mode } dotted = .ok (.ok s) ∧
        problem.calculate s = .ok (.ofLevel x) := by
    obtain ⟨s, answer, deserved⟩ := (Option.any_eq_true ..).1 ran
    obtain ⟨result, ran, answer⟩ := Option.bind_eq_some_iff.1 answer
    rw [toOption_eq_some] at ran answer
    exact ⟨s, answer ▸ ran, toOption_eq_some.1 (of_decide_eq_true deserved)⟩
  obtain ⟨s, asserted, deserves⟩ := answers .fullAssert 2 (by decide +kernel)
  obtain ⟨s', plainly, deserves'⟩ := answers .reproducible 1 (by decide +kernel)
  exact ⟨lawful_problem, lawful_written, blind_written, valid_dotted, calculates, s, s',
    asserted, plainly, deserves, deserves'⟩

end ScoredNecklace

end PlanSearch
