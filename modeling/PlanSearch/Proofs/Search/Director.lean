import PlanSearch.Director
import PlanSearch.Proofs.Move.Stored

/-!
# What a director holds

Between moves all brackets are closed, and the score that a director has kept is that of its
solution. The solution is looked at without its stored score, because calculating a score changes
nothing else.
-/

namespace PlanSearch

variable {S : Type} {sh : Shape}

namespace Director

/-- The director holds a solution, all of its brackets are closed, and the score that it has kept is
that of the solution. -/
structure Holds (p : Problem S sh) (d : Director S sh) (w : S) : Prop where
  closed : d.openBrackets = 0
  bare : p.bare d.solution = w
  kept : ∀ x, d.dirty = false → d.cached = some x → p.calculate w = .ok x

variable {p : Problem S sh} {d : Director S sh} {w : S}

/-- A director that was just made. -/
theorem holds_new (p : Problem S sh) (s : S) :
    ({ solution := s } : Director S sh).Holds p (p.bare s) where
  closed := rfl
  bare := rfl
  kept := by rintro _ ⟨⟩

namespace Holds

variable (lawful : p.Lawful) (holds : d.Holds p w)
include lawful holds

theorem solution_eq : d.solution = p.withScore w (p.score d.solution) := by
  rw [← holds.bare, lawful.withScore_bare]

theorem bare_self : p.bare w = w := by rw [← holds.bare, lawful.bare_bare]

theorem isInitialized_solution : p.isInitialized d.solution = p.isInitialized w := by
  rw [← holds.bare, lawful.isInitialized_bare]

/-- The score is that of the solution, and where that has none there is no answer. -/
theorem calculate_eq :
    (∃ e, p.calculate w = .error e ∧ d.calculate p = .error e) ∨
      ∃ x d', p.calculate w = .ok x ∧ d.calculate p = .ok (x, d') ∧ d'.Holds p w := by
  have anew : p.calculate d.solution = p.calculate w := by
    rw [← holds.bare, lawful.calculate_bare]
  rw [calculate, if_neg (not_not.2 holds.closed)]
  split
  · rename_i x clean kept
    exact .inr ⟨x, d, holds.kept x clean kept, rfl, holds⟩
  · rw [anew]
    cases calculated : p.calculate w with
    | error e => exact .inl ⟨e, rfl, rfl⟩
    | ok x =>
      refine .inr ⟨x, _, rfl, rfl, holds.closed, (lawful.bare_withScore _ _).trans holds.bare, ?_⟩
      rintro _ - ⟨⟩
      exact calculated

end Holds

/-! ## Moves -/

/-- Closed brackets do nothing but soil the director, if there are any. -/
theorem foldl_notify_bracketLog (brackets : List (Nat × Nat × String)) (d : Director S sh) :
    (Move.bracketLog brackets).foldl notify d =
      { d with dirty := d.dirty || !(Move.bracketLog brackets).isEmpty } := by
  induction brackets generalizing d with
  | nil => simp [Move.bracketLog]
  | cons b rest ih =>
    change (Move.bracketLog rest).foldl notify ((d.notify _).notify _) = _
    rw [ih]
    simp [notify, Notification.isBefore, Move.bracketLog, Move.bracket]

theorem applyMove_eq (d : Director S sh) (m : Move S) :
    d.applyMove m =
      ({ d with
          solution := (m.apply d.solution).solution
          dirty := d.dirty || !(m.apply d.solution).notifications.isEmpty },
        (m.apply d.solution).notifications, (m.apply d.solution).result) := by
  obtain ⟨brackets, log⟩ := Move.isBracketLog_applyWithin m.depth m d.solution
  change (m.apply d.solution).notifications = _ at log
  rw [applyMove, log, foldl_notify_bracketLog]

variable {vars : Variables S} {m : Move S}

/-- Applying a move leaves a director that holds what the move leads to. -/
theorem Holds.applyMove (lawful : p.Lawful) (blind : vars.Blind p) (holds : d.Holds p w)
    (own : m.Over vars) :
    (d.applyMove m).1.Holds p (m.apply w).solution ∧ (d.applyMove m).2.2 = (m.apply w).result := by
  have applied : m.apply d.solution =
      (m.apply w).mapSolution fun s => p.withScore s (p.score d.solution) := by
    rw [← Move.apply_withScore blind _ own, ← holds.solution_eq lawful]
  have bare : p.bare (m.apply w).solution = (m.apply w).solution := by
    have same := congrArg Applied.solution (Move.apply_withScore blind none own w)
    have unscored : p.withScore w none = w := holds.bare_self lawful
    rw [unscored] at same
    exact same.symm
  rw [applyMove_eq, applied]
  refine ⟨⟨holds.closed, ?_, ?_⟩, rfl⟩
  · exact (lawful.bare_withScore _ _).trans bare
  · intro x clean kept
    obtain ⟨clean, silent⟩ := Bool.or_eq_false_iff.1 clean
    have silent : (m.apply w).notifications = [] := by
      simpa [Applied.mapSolution] using silent
    rw [Move.solution_of_silent silent]
    exact holds.kept x clean kept

end Director

end PlanSearch
