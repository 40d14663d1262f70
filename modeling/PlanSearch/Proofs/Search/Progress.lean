import PlanSearch.Proofs.Search.Telling

/-!
# Progress

A phase that decides whether to go on looks at two snapshots: the progress of the search as a whole
and its own. Either of them is what a state says, and takes one reading of the clock.
-/

namespace PlanSearch

variable {S : Type} {sh : Shape} {c : Conditions S sh}

/-- The state after so many more readings of the clock. -/
def Scope.read (n : ℕ) (s : Scope S sh) : Scope S sh := { s with readings := s.readings + n }

namespace Search

/-- The progress of the whole search that is found in a state. -/
def progressAt (c : Conditions S sh) (s : Scope S sh) : Progress sh where
  elapsed := s.startedAt.elim 0 fun start => c.clock s.readings - start
  steps := s.steps
  unimproved := s.steps - s.bestStep
  starting := s.starting
  best := bestScore s

theorem run_progress (s : Scope S sh) :
    (progress c).run.run s = (.ok (progressAt c s), s.read 1) := by
  rcases s with ⟨d, g, best, starting, bestStep, steps, _ | start, n, interrupted, events⟩ <;> rfl

/-- When nothing tells the search to stop, its termination has read the clock once. -/
theorem of_isTerminated_false {s t : Scope S sh}
    (looked : (isTerminated c).run.run s = (.ok false, t)) :
    (∀ whole ∈ c.termination, whole.isTerminated (progressAt c s) = false) ∧
      t = s.read c.termination.toList.length := by
  obtain ⟨_, _, ⟨⟩, looked⟩ := exists_of_run_bind looked
  split at looked
  · cases looked
  · cases known : c.termination with
    | none =>
      rw [known] at looked
      cases looked
      exact ⟨nofun, rfl⟩
    | some whole =>
      rw [known] at looked
      obtain ⟨_, _, progressed, looked⟩ := exists_of_run_bind looked
      rw [run_progress] at progressed
      cases progressed
      obtain ⟨stays, rfl⟩ := Prod.mk.inj looked
      refine ⟨?_, rfl⟩
      rintro _ ⟨⟩
      exact Except.ok.inj stays

end Search

namespace PhaseContext

variable {phase : PhaseContext sh}

/-- The progress of the phase that is found in a state. -/
def progressAt (c : Conditions S sh) (phase : PhaseContext sh) (s : Scope S sh) : Progress sh where
  elapsed := c.clock s.readings - phase.startedAt
  steps := phase.steps
  unimproved := phase.unimproved
  starting := phase.starting
  best := Search.bestScore s

theorem run_progress (s : Scope S sh) : (phase.progress c).run.run s =
    (.ok (phase.progressAt c s), s.read 1) := rfl

/-- When nothing tells a phase to stop, each of the terminations has read the clock once, that of the
search as a whole before its own one. -/
theorem of_isTerminated_false {own : Option (Termination sh)} {s t : Scope S sh}
    (looked : (phase.isTerminated c own).run.run s = (.ok false, t)) :
    (∀ whole ∈ c.termination, whole.isTerminated (Search.progressAt c s) = false) ∧
      (∀ criterion ∈ own, criterion.isTerminated (phase.progressAt c
        (s.read c.termination.toList.length)) = false) ∧
      t = s.read (c.termination.toList.length + own.toList.length) := by
  obtain ⟨stop, u, searched, looked⟩ := exists_of_run_bind looked
  cases stop with
  | true => cases looked
  | false =>
    obtain ⟨goes, rfl⟩ := Search.of_isTerminated_false searched
    refine ⟨goes, ?_⟩
    cases own with
    | none =>
      cases looked
      exact ⟨nofun, rfl⟩
    | some criterion =>
      obtain ⟨_, _, progressed, looked⟩ := exists_of_run_bind looked
      rw [run_progress] at progressed
      cases progressed
      obtain ⟨stays, rfl⟩ := Prod.mk.inj looked
      refine ⟨?_, rfl⟩
      rintro _ ⟨⟩
      exact Except.ok.inj stays

end PhaseContext

end PlanSearch
