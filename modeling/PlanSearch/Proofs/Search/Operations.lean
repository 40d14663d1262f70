import PlanSearch.Proofs.Lockstep.Basic
import PlanSearch.Proofs.Move.Refusal
import PlanSearch.Proofs.Search.Director

/-!
# Operations on the working solution

Scores are calculated, and moves are tried and made, on the solution that the director holds. What
comes of it depends on that solution alone: neither on the stored score, nor on what the director
has kept, nor on whether everything is checked.
-/

namespace PlanSearch

variable {S : Type} {sh : Shape} {α β : Type}

namespace Search

/-- An operation on a scope ended with a result and changed nothing but the director. With a value
it left a director that holds a solution. -/
def Turns (p : Problem S sh) (s : Scope S sh) (result : Except Fault α) (w : S)
    (ended : Except Fault α × Scope S sh) : Prop :=
  ∃ t, ended = (result, t) ∧ s.Twin t ∧ ∀ a, result = .ok a → t.director.Holds p w

variable {p : Problem S sh} {c : Conditions S sh} {vars : Variables S} {s : Scope S sh} {v w : S}

namespace Turns

theorem pure (a : α) (holds : s.director.Holds p w) :
    Turns p s (.ok a) w ((Pure.pure a : Search S sh α).run.run s) :=
  ⟨s, rfl, .refl s, fun _ _ => holds⟩

theorem bind {f : Search S sh α} {k : α → Search S sh β} {a : α} {result : Except Fault β}
    (first : Turns p s (.ok a) v (f.run.run s))
    (rest : ∀ t, t.director.Holds p v → Turns p t result w ((k a).run.run t)) :
    Turns p s result w ((f >>= k).run.run s) := by
  obtain ⟨t, ended, twin, holds⟩ := first
  obtain ⟨u, ended', twin', holds'⟩ := rest t (holds a rfl)
  refine ⟨u, ?_, twin.trans twin', holds'⟩
  rw [run_bind, ended]
  exact ended'

theorem bind_fault {f : Search S sh α} {k : α → Search S sh β} {e : Fault}
    (first : Turns p s (.error e) v (f.run.run s)) :
    Turns p s (.error e) w ((f >>= k).run.run s) := by
  obtain ⟨t, ended, twin, -⟩ := first
  refine ⟨t, ?_, twin, by rintro _ ⟨⟩⟩
  rw [run_bind, ended]

variable {f : Attempt S sh α} {k : α → Attempt S sh β}

theorem try_bind {a : α} {result : Except Fault (Except PlanError β)}
    (first : Turns p s (.ok (.ok a)) v (f.run.run.run s))
    (rest : ∀ t, t.director.Holds p v → Turns p t result w ((k a).run.run.run t)) :
    Turns p s result w ((f >>= k).run.run.run s) := by
  rw [ExceptT.run_bind]
  exact bind first rest

theorem try_bind_error {e : PlanError} (first : Turns p s (.ok (.error e)) w (f.run.run.run s)) :
    Turns p s (.ok (.error e)) w ((f >>= k).run.run.run s) := by
  rw [ExceptT.run_bind]
  exact bind first fun _ holds => pure _ holds

theorem lift {g : Search S sh α} {a : α} (h : Turns p s (.ok a) w (g.run.run s)) :
    Turns p s (.ok (.ok a)) w ((ExceptT.lift g : Attempt S sh α).run.run.run s) :=
  bind h fun _ holds => pure _ holds

theorem lift_fault {g : Search S sh α} {e : Fault} (h : Turns p s (.error e) w (g.run.run s)) :
    Turns p s (.error e) w ((ExceptT.lift g : Attempt S sh α).run.run.run s) := bind_fault h

end Turns

theorem run_calculate (c : Conditions S sh) (s : Scope S sh) :
    (calculate c).run.run s = match s.director.calculate c.problem with
      | .error e => (.error e, s)
      | .ok (score, director) => (.ok score, { s with director }) := by
  change StateT.run (ExceptT.run ((do
    let found ← s.director.calculate c.problem
    modify fun s => { s with director := found.2 }
    return found.1) : Search S sh (Score sh))) s = _
  cases s.director.calculate c.problem <;> rfl

theorem run_apply (m : Move S) (s : Scope S sh) : (apply m).run.run.run s =
    (.ok ((s.director.applyMove m).2.2.mapError .chain),
      { s with director := (s.director.applyMove m).1 }) := rfl

/-- The working solution of a scope with a score, as the best one. -/
def bestOf (c : Conditions S sh) (score : Score sh) (s : Scope S sh) : Best S sh :=
  { solution := c.problem.withScore s.director.solution (some score), score
    isInitialized := c.problem.isInitialized s.director.solution }

/-- The scope after a solution was offered. -/
def noted (best : Best S sh) (s : Scope S sh) : Scope S sh :=
  { s with starting := if best.isInitialized && s.starting.isNone then some best.score else s.starting }

/-- The scope after a solution was taken as the best one. -/
def crowned (c : Conditions S sh) (best : Best S sh) (s : Scope S sh) : Scope S sh :=
  let e := Event.bestChanged best.solution best.score
  { noted best s with
    best := some best, bestStep := s.steps
    events := s.events.push e, interrupted := s.interrupted || c.interrupts e }

theorem run_offer (c : Conditions S sh) (score : Score sh) (s : Scope S sh) :
    (offer c score).run.run s =
      let best := bestOf c score s
      if beats score best.isInitialized s.best then (.ok true, crowned c best s)
      else (.ok false, noted best s) := by
  have made : (asBest c score).run.run s = (.ok (bestOf c score s), s) := rfl
  rw [offer, run_bind, made]
  dsimp only
  rw [run_bind]
  change StateT.run (ExceptT.run ((do
    if beats score (bestOf c score s).isInitialized (← get).best then _
    else _) : Search S sh Bool)) (noted (bestOf c score s) s) = _
  rw [run_bind]
  change StateT.run (ExceptT.run (if beats score (bestOf c score s).isInitialized s.best then _
    else _)) (noted (bestOf c score s) s) = _
  split <;> rfl

section

variable (lawful : c.problem.Lawful) (holds : s.director.Holds c.problem w)
include lawful holds

/-- The score is that of the solution that the director holds. -/
theorem turns_calculate :
    Turns c.problem s (c.problem.calculate w) w ((calculate c).run.run s) := by
  rw [run_calculate]
  rcases holds.calculate_eq lawful with ⟨e, known, ended⟩ | ⟨x, d, known, ended, holds'⟩
  · rw [known, ended]
    exact ⟨s, rfl, .refl s, by rintro _ ⟨⟩⟩
  · rw [known, ended]
    exact ⟨_, rfl, rfl, fun _ _ => holds'⟩

/-- Where everything is checked, a score that is right is found to be right. -/
theorem turns_assertScore {x : Score sh} (known : c.problem.calculate w = .ok x) :
    Turns c.problem s (.ok (.ok ())) w ((assertScore c x).run.run.run s) := by
  unfold assertScore
  split
  · have calculated := turns_calculate lawful holds
    rw [known] at calculated
    refine .try_bind (.lift calculated) fun t holds' => ?_
    rw [if_neg (not_not.2 rfl)]
    exact .pure _ holds'
  · exact .pure _ holds

variable (blind : vars.Blind c.problem) {m undo : Move S}
include blind

theorem turns_apply (own : m.Over vars) :
    Turns c.problem s (.ok ((m.apply w).result.mapError .chain)) (m.apply w).solution
      ((apply m).run.run.run s) := by
  obtain ⟨holds', result⟩ := holds.applyMove lawful blind own
  rw [run_apply, result]
  exact ⟨_, rfl, rfl, fun _ _ => holds'⟩

/-- Trying a move leaves the working solution as it was. What comes of it is the error with which
the move is refused, or the score of the solution that it leads to. -/
theorem turns_evaluate (varsLawful : vars.Lawful) (own : m.Over vars) (keeps : m.KeepsRuns)
    (valid : vars.Valid w) {x : Score sh} (known : c.problem.calculate w = .ok x) :
    Turns c.problem s
      (match (m.apply w).result with
        | .error e => .ok (.error (.chain e))
        | .ok _ => (c.problem.calculate (m.apply w).solution).map .ok)
      w ((evaluate c m x).run.run.run s) := by
  have applied := turns_apply lawful holds blind own
  unfold evaluate
  cases result : (m.apply w).result with
  | error e =>
    rw [result, Move.solution_of_refused varsLawful own keeps valid result] at applied
    exact .try_bind_error applied
  | ok undo =>
    rw [result] at applied
    refine .try_bind applied fun t holds₁ => ?_
    have calculated := turns_calculate lawful holds₁
    cases scored : c.problem.calculate (m.apply w).solution with
    | error e =>
      rw [scored] at calculated
      exact .bind_fault (.lift_fault calculated)
    | ok y =>
      rw [scored] at calculated
      refine .try_bind (.lift calculated) fun t holds₂ => ?_
      have taken := Move.reverts varsLawful own keeps valid result
      have back := turns_apply lawful holds₂ blind
        (Move.over_undo blind own result)
      rw [taken.result, taken.solution] at back
      refine .try_bind back fun t holds₃ => ?_
      change Turns _ _ (Except.ok (Except.ok y)) _ _
      dsimp only
      split
      · have again := turns_calculate lawful holds₃
        rw [known] at again
        refine .try_bind (.lift again) fun t holds₄ => ?_
        rw [if_neg (not_not.2 rfl)]
        exact .pure _ holds₄
      · exact .pure _ holds₃

end

end Search

end PlanSearch
