import PlanSearch.Proofs.Search.Untouched

/-!
# The candidates of a step

A step draws one candidate after the other and judges each of them, until there are no more, it has
found enough, or its budget is used up.
-/

namespace PlanSearch.LocalSearch

variable {M S : Type} {sh : Shape} (p : LocalSearch M S sh) (c : Conditions S sh)

/-- Tries a candidate, and says whether the step has enough. -/
def judge (m : Move S) (step : StepContext sh) : p.Trying (Bool × StepContext sh) := do
  if m.isDoable (← p.perform p.working) then
    let step := { step with selected := step.selected + 1 }
    let score ← p.attempt (Search.evaluate c m step.lastStep)
    if ← p.perform (p.accept m score step) then
      let step := { step with accepted := step.accepted + 1 }
      return (← p.perform (p.forage m score step), step)
    else return (false, step)
  else return (false, step)

/-- The candidates that are drawn in at most so many rounds, of which so many are left. -/
def drawn : ℕ → Option ℕ → StepContext sh → p.Running → List (Move S)
  | 0, _, _, _ => []
  | rounds + 1, left, step, r =>
    if left = some 0 then []
    else match (p.nextCandidate c).run.run r with
      | (.ok (some m), r) => m :: match (p.judge c m step).run.run.run r with
        | (.ok (.ok (false, step)), r) => drawn rounds (left.map (· - 1)) step r
        | _ => []
      | _ => []

/-- The candidates that are drawn in a step. -/
def candidates (step : StepContext sh) (r : p.Running) : List (Move S) :=
  match p.budget.run.run r with
  | (.ok budget, r) =>
    match (p.select c fun set st => do return ((), ← p.moves.restart set st)).run.run r with
    | (.ok (), r) => p.drawn c c.patience budget step r
    | _ => []
  | _ => []

/-- Candidates are drawn and judged. -/
theorem tryCandidates_succ (rounds : ℕ) (left : Option ℕ) (step : StepContext sh) :
    p.tryCandidates c (rounds + 1) left step =
      if left = some 0 then pure step
      else p.perform (p.nextCandidate c) >>= fun candidate =>
        candidate.elim (pure step) fun m => p.judge c m step >>= fun judged =>
          if judged.1 then pure judged.2
          else p.tryCandidates c rounds (left.map (· - 1)) judged.2 := by
  rw [tryCandidates]
  congr
  funext candidate
  cases candidate with
  | none => rfl
  | some m =>
    simp only [Option.elim_some, judge, bind_assoc]
    congr
    funext working
    split
    · simp only [bind_assoc]
      congr
      funext score
      congr
      funext accepted
      cases accepted with
      | true => simp
      | false => simp
    · simp

/-- How trying candidates comes to an end: none is wanted, none is found, or one after the other is
judged until the step has enough. -/
inductive Tried : ℕ → Option ℕ → StepContext sh → p.Running → StepContext sh → p.Running → Prop
  | full {rounds : ℕ} {step : StepContext sh} {r : p.Running} :
    Tried (rounds + 1) (some 0) step r step r
  | ended {rounds : ℕ} {left : Option ℕ} {step : StepContext sh} {r r' : p.Running}
    (some_ : left ≠ some 0) (found : (p.nextCandidate c).run.run r = (.ok none, r')) :
    Tried (rounds + 1) left step r step r'
  | enough {rounds : ℕ} {left : Option ℕ} {step last : StepContext sh} {r u r' : p.Running}
    {m : Move S} (some_ : left ≠ some 0)
    (found : (p.nextCandidate c).run.run r = (.ok (some m), u))
    (judged : (p.judge c m step).run.run.run u = (.ok (.ok (true, last)), r')) :
    Tried (rounds + 1) left step r last r'
  | further {rounds : ℕ} {left : Option ℕ} {step next last : StepContext sh} {r u v r' : p.Running}
    {m : Move S} (some_ : left ≠ some 0)
    (found : (p.nextCandidate c).run.run r = (.ok (some m), u))
    (judged : (p.judge c m step).run.run.run u = (.ok (.ok (false, next)), v))
    (others : Tried rounds (left.map (· - 1)) next v last r') :
    Tried (rounds + 1) left step r last r'

variable {p c}

theorem tried_of_tryCandidates {rounds : ℕ} {left : Option ℕ} {step last : StepContext sh}
    {r r' : p.Running}
    (ran : (p.tryCandidates c rounds left step).run.run.run r = (.ok (.ok last), r')) :
    p.Tried c rounds left step r last r' := by
  induction rounds generalizing left step r with
  | zero => cases ran
  | succ rounds ih =>
    rw [tryCandidates_succ] at ran
    split at ran
    · rename_i none_
      cases ran
      exact none_ ▸ .full
    · rename_i some_
      obtain ⟨_ | m, u, found, ran⟩ := exists_of_lift_bind ran
      · cases ran
        exact .ended some_ found
      · obtain ⟨⟨enough, next⟩, v, judged, ran⟩ := exists_of_try_bind ran
        cases enough with
        | true =>
          cases ran
          exact .enough some_ found judged
        | false => exact .further some_ found judged (ih ran)

section Decide

variable {step last : StepContext sh} {picked : Option (Move S × Score sh)} {r r' : p.Running}

/-- A step is decided by the candidates of a selector that has begun anew: the forager picks from
them. -/
theorem exists_stages_of_decide
    (decided : (p.decide c step).run.run.run r = (.ok (.ok (picked, last)), r')) :
    ∃ budget u₁ u₂ u₃, p.budget.run.run r = (.ok budget, u₁) ∧
      (p.select c fun set st => do return ((), ← p.moves.restart set st)).run.run u₁ =
        (.ok (), u₂) ∧
      (p.tryCandidates c c.patience budget step).run.run.run u₂ = (.ok (.ok last), u₃) ∧
      p.pick.run.run u₃ = (.ok picked, r') := by
  obtain ⟨budget, u₁, known, decided⟩ := exists_of_lift_bind decided
  obtain ⟨_, u₂, restarted, decided⟩ := exists_of_lift_bind decided
  obtain ⟨_, u₃, tried, decided⟩ := exists_of_try_bind decided
  obtain ⟨_, _, taken, decided⟩ := exists_of_lift_bind decided
  cases decided
  exact ⟨budget, u₁, u₂, u₃, known, restarted, tried, taken⟩

end Decide

variable (p c)

end PlanSearch.LocalSearch
