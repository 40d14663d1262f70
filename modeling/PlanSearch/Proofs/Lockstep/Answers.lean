import PlanSearch.Proofs.Lockstep.Solver

/-!
# Answers

What two runs that answer alike have in common: their outcomes, as far as the best solutions are the
same, their errors, and the states that they leave behind.
-/

namespace PlanSearch

namespace Solver

variable {M S : Type} {sh : Shape} {solver : Solver M S sh} (c : Conditions S sh) (s : Scope S sh)
variable (st : solver.State)

@[simp] theorem finish_phases : (finish c s st).2.phases = st.phases := by
  unfold finish
  split <;> rfl

/-- The answer is the best solution. The end of the search is the last event. -/
theorem finish_eq {best : Best S sh} (known : s.best = some best) :
    (finish c s st).1 = ⟨.ok best.solution,
      s.events.toList ++ [.solvingEnded best.solution s.interrupted]⟩ := by
  unfold finish
  rw [known]
  exact congrArg (Outcome.mk _) (Array.toList_push ..)

/-- The phases were run to their end. -/
theorem finish_ne_error (e : PlanError) : (finish c s st).1.result ≠ .error e := by
  unfold finish
  split <;> exact nofun

end Solver

namespace Lockstep

open Solver

variable {M S ι : Type} {sh : Shape} {c : Conditions S sh} {mode : Config.EnvironmentMode}
variable {good : Move S → Prop} {solver : Solver M S sh} {L : Lockstep c mode good ι} {j : ι}
variable {guides : Guides L.Same good L.faults L.anneals solver.phases}
variable {x : Except (Collapse S sh) (Outcome S sh × solver.State)}
variable {y : Except (Collapse S sh) (Outcome S sh × (solver.under mode).State)}
variable {o : Outcome S sh} {st : solver.State} {asked : Prop}

/-- Scopes that agree in everything but their directors lead to the same answer. -/
theorem finish_outcome {s t : Scope S sh} (twin : s.Twin t) (known : s.best.isSome)
    (st : solver.State) (st' : (solver.under mode).State) :
    (finish c s st).1 = (finish (c.under mode) t st').1 := by
  obtain ⟨best, known⟩ := Option.isSome_iff_exists.1 known
  rw [finish_eq c s st known, finish_eq (c.under mode) t st' (twin.best.trans known), twin.events,
    twin.interrupted]

/-- Two runs have the same outcome if a best solution is known all the time. -/
theorem Answers.outcome_eq (answers : L.Answers guides asked j x y)
    (known : ∀ z s t, L.At j z s t → s.best.isSome) : x.map Prod.fst = y.map Prod.fst := by
  cases answers with
  | solved here resting =>
    exact congrArg Except.ok (finish_outcome (L.twin here) (known _ _ _ here) _ _)
  | failed failed left =>
    refine congrArg Except.ok ?_
    rw [failed.1.events]
  | cancelled => rfl
  | collapsed broken => exact congrArg Except.error (congrArg _ (congrArg _ broken.1))

/-- A run that answers was in a situation at its end, and what it answers was made of it there. -/
theorem Answers.solved_of_ok (answers : L.Answers guides asked j x y) (ran : x = .ok (o, st))
    {best : S} (answer : o.result = .ok best) :
    ∃ z s t, ∃ st : solver.State, L.At j z s t ∧ o = (finish c s st).1 := by
  cases answers with
  | solved here resting =>
    obtain ⟨rfl, -⟩ := Prod.mk.inj (Except.ok.inj ran)
    exact ⟨_, _, _, _, here, rfl⟩
  | failed lost left =>
    obtain ⟨rfl, -⟩ := Prod.mk.inj (Except.ok.inj ran)
    cases answer
  | cancelled before resting =>
    obtain ⟨rfl, -⟩ := Prod.mk.inj (Except.ok.inj ran)
    cases answer
  | collapsed broken => cases ran

/-- The errors of a run are those of moves, stalls and cancellations. -/
theorem Answers.error (answers : L.Answers guides asked j x y) (ran : x = .ok (o, st)) {e : PlanError}
    (failed : o.result = .error e) :
    (L.errors e ∨ e.kind = "Stall") ∨ e = .cancelled ∧ asked := by
  cases answers with
  | solved here resting =>
    obtain ⟨rfl, -⟩ := Prod.mk.inj (Except.ok.inj ran)
    exact absurd failed (finish_ne_error _ _ _ e)
  | failed lost left =>
    obtain ⟨rfl, -⟩ := Prod.mk.inj (Except.ok.inj ran)
    obtain rfl := Except.error.inj failed
    exact .inl lost.2
  | cancelled before resting =>
    obtain ⟨rfl, -⟩ := Prod.mk.inj (Except.ok.inj ran)
    exact .inr ⟨(Except.error.inj failed).symm, before⟩
  | collapsed broken => cases ran

/-- A run that yields no outcome broke off with an allowed fault. -/
theorem Answers.fault {collapse : Collapse S sh} (answers : L.Answers guides asked j x y)
    (broke : x = .error collapse) : L.faults collapse.fault := by
  cases answers with
  | collapsed broken =>
    obtain rfl := Except.error.inj broke
    exact broken.2
  | _ => cases broke

/-- After two runs the states of the phases are related if they are so after an error. -/
theorem Answers.resting (answers : L.Answers guides asked j x y) (ran : x = .ok (o, st))
    (closed : ∀ e a b, o.result = .error e → L.errors e ∨ e.kind = "Stall" → guides.Left e a b →
      guides.Resting a b) :
    ∃ o' st', y = .ok (o', st') ∧ guides.Resting st.phases st'.phases := by
  cases answers with
  | @solved z s t a b here resting =>
    have first : st.phases = a :=
      (congrArg (fun r => r.2.phases) (Except.ok.inj ran)).symm.trans (finish_phases ..)
    let last : Outcome S sh × (solver.under mode).State := finish (c.under mode) t { phases := b }
    have second : last.2.phases = b := finish_phases ..
    refine ⟨last.1, last.2, rfl, ?_⟩
    rw [first, second]
    exact resting
  | failed failed left =>
    obtain ⟨rfl, rfl⟩ := Prod.mk.inj (Except.ok.inj ran)
    exact ⟨_, _, rfl, closed _ _ _ rfl failed.2 left⟩
  | cancelled before resting =>
    obtain ⟨-, rfl⟩ := Prod.mk.inj (Except.ok.inj ran)
    exact ⟨_, _, rfl, resting⟩
  | collapsed broken => cases ran

end Lockstep

end PlanSearch
