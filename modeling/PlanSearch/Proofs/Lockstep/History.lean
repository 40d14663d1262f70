import PlanSearch.Proofs.Lockstep.Answers

/-!
# Solvers with a history

A solver can be used again. What its phases keep after earlier runs is still bound to what a new
solver begins with, so that a run with a history takes the same course as one without.
-/

namespace PlanSearch

variable {M S : Type} {sh : Shape}

/-! ## One search beside itself

Two searches in the same state stay in the same state, whatever they work on. What is left to be
said is which errors their moves can lead to. -/

section Same

variable {α : Type} {c : Conditions S sh}

/-- An error after which all phases were ended or not begun. -/
def PlanError.IsSettled (e : PlanError) : Prop := e.kind = "Stall" ∨ e = .cancelled

/-- From the same state the same computation ends in the same state. -/
theorem RunTogether.same (f : Search S sh α) :
    RunTogether (· = ·) f f (fun _ s t => s = t) (fun _ s t => s = t) := by
  rintro s _ rfl
  rcases f.run.run s with ⟨_ | _, s⟩
  · exact .fault rfl
  · exact .value rfl

/-- From the same state the same attempt ends in the same state, and only certain errors come of
it. -/
def Throws (errors : PlanError → Prop) (f : Attempt S sh α) : Prop :=
  TryTogether (· = ·) f f (fun _ s t => s = t) (fun e s t => s = t ∧ errors e) (fun _ s t => s = t)

namespace Search

variable {errors : PlanError → Prop} (chain : ∀ e, errors (.chain e))

include chain in
theorem throws_apply (m : Move S) : Throws errors (apply m : Attempt S sh (Move S)) := by
  rintro s _ rfl
  change EndAlike _ _ (Except.ok _, { s with director := (s.director.applyMove m).1 })
    (Except.ok _, { s with director := (s.director.applyMove m).1 })
  refine .value ?_
  rw [Director.applyMove]
  cases (m.apply s.director.solution).result with
  | ok undo => exact rfl
  | error e => exact ⟨rfl, chain e⟩

theorem throws_assertScore (x : Score sh) (mismatch : ∀ a b, errors (.stepMismatch a b)) :
    Throws errors (assertScore c x) := by
  unfold assertScore
  split
  · refine .bind (.lift (.same _)) fun actual => ?_
    split
    · exact .throw _ fun _ _ same => ⟨same, mismatch _ _⟩
    · exact .pure _ fun _ _ => id
  · exact .pure _ fun _ _ => id

include chain in
theorem throws_evaluate (m : Move S) (x : Score sh) (mismatch : ∀ m a b, errors (.undoMismatch m a b)) :
    Throws errors (evaluate c m x) := by
  refine .bind (throws_apply chain m) fun undo => .bind (.lift (.same _)) fun score =>
    .bind (throws_apply chain undo) fun _ => ?_
  split
  · refine .bind (.lift (.same _)) fun again => ?_
    split
    · exact .bind (.throw _ fun _ _ same => ⟨same, mismatch _ _ _⟩) fun _ => .pure _ fun _ _ => id
    · exact .pure _ fun _ _ => id
  · exact .pure _ fun _ _ => id

end Search

/-- Where the states are the same, so is what was announced. -/
theorem RunTogether.beside (f : Search S sh α) :
    RunTogether (· = ·) f f (fun _ s t => s = t) (Scope.Broken fun _ => True) := by
  intro s t same
  exact (RunTogether.same f s t same).mono (fun _ _ _ => id) fun _ _ _ same =>
    ⟨congrArg Scope.events same, trivial⟩

theorem Throws.beside {errors : PlanError → Prop} {f : Attempt S sh α} (throws : Throws errors f) :
    TryTogether (· = ·) f f (fun _ s t => s = t) (Scope.Failed errors)
      (Scope.Broken fun _ => True) := by
  intro s t same
  refine (throws s t same).mono ?_ fun _ _ _ same => ⟨congrArg Scope.events same, trivial⟩
  rintro (e | a) s t related
  · obtain ⟨rfl, allowed⟩ := related
    exact ⟨.refl _, allowed⟩
  · exact related

namespace PlanError

theorem not_isSettled_chain (e : ChainError) : ¬(chain e).IsSettled := by
  rintro (stalled | cancelled)
  · cases e <;> simp [kind, ChainError.kind] at stalled
  · cases cancelled

theorem not_isSettled_undoMismatch (move restored expected : String) :
    ¬(undoMismatch move restored expected).IsSettled := by simp [IsSettled, kind]

theorem not_isSettled_stepMismatch (actual expected : String) :
    ¬(stepMismatch actual expected).IsSettled := by simp [IsSettled, kind]

end PlanError

namespace Lockstep

/-- Searches in the same state. -/
def itself (c : Conditions S sh) (good : Move S → Prop) : Lockstep c c.mode good Unit where
  At _ _ s t := s = t
  Made _ _ s t := s = t
  Leads _ _ _ := True
  Goes _ _ := True
  Same := (· = ·)
  errors e := ¬e.IsSettled
  faults _ := True
  anneals := True
  goes_refl _ := trivial
  goes_trans _ _ := trivial
  twin here := here ▸ .refl _
  same here := here ▸ rfl
  generator here _ := here ▸ rfl
  readings here _ := here ▸ rfl
  steps here _ := here ▸ rfl
  events here _ _ _ := here ▸ rfl
  isInitialized same := same ▸ rfl
  isDoable same _ := same ▸ rfl
  not_stalled unsettled stalled := unsettled (.inl stalled)
  exhausted := trivial
  differs _ _ _ _ _ _ _ _ _ _ _ := fun _ _ => trivial
  calculate _ _ := .beside _
  evaluate _ _ m _ :=
    (Search.throws_evaluate PlanError.not_isSettled_chain m _
      PlanError.not_isSettled_undoMismatch).beside.consequence
      (fun _ _ related => related.1) fun _ _ _ same => ⟨trivial, same⟩
  apply _ _ m _ _ _ := (Search.throws_apply PlanError.not_isSettled_chain m).beside.mono_post
    fun _ _ _ same => ⟨(), trivial, same⟩
  assertScore _ _ := (Search.throws_assertScore _ PlanError.not_isSettled_stepMismatch).beside
  countStep _ _ := .beside _
  offer _ _ := (RunTogether.beside _).mono_post fun _ _ _ same => ⟨(), trivial, same⟩

end Lockstep

end Same

variable {solver : Solver M S sh} {good : Move S → Prop}

/-- What a solver may keep after any number of runs with allowed results, each on a solution and
under conditions of its own. It may have been asked to stop meanwhile. -/
inductive Solver.Reached (solver : Solver M S sh) (allowed : Except PlanError S → Prop) :
    solver.State → Prop
  | start : Reached solver allowed solver.start
  | asked {st : solver.State} (before : Reached solver allowed st) (interrupted : Bool) :
    Reached solver allowed { st with interrupted }
  | solved {st st' : solver.State} {around : Surroundings S sh} {entropy : Nat} {solution : S}
    {o : Solver.Outcome S sh} (before : Reached solver allowed st)
    (run : solver.solve around entropy solution st = .ok (o, st')) (result : allowed o.result) :
    Reached solver allowed st'

namespace Lockstep

open Solver

/-! ## A run beside itself -/

section Itself

variable {c : Conditions S sh} {j : Unit} {asked : Prop}

/-- Searches in the same state complete the same steps. -/
theorem Along.trail_eq {i : Unit} {l l' : List (Milestone S sh)}
    (along : (itself c good).Along i l l' j) : l = l' := by
  induction along with
  | nil => rfl
  | cons goes last here rest ih => exact congrArg₂ _ (congrArg _ here) ih

theorem Answers.outcome_eq_itself {guides : Guides (· = ·) good (fun _ => True) True solver.phases}
    {x : Except (Collapse S sh) (Outcome S sh × solver.State)}
    {y : Except (Collapse S sh) (Outcome S sh × (solver.under c.mode).State)}
    (answers : (itself c good).Answers guides asked j x y) : x.map Prod.fst = y.map Prod.fst := by
  cases answers with
  | @solved z s t a b here resting =>
    obtain rfl : s = t := here
    refine congrArg Except.ok ?_
    unfold finish
    split <;> rfl
  | failed failed left =>
    refine congrArg Except.ok ?_
    rw [failed.1.events]
  | cancelled => rfl
  | collapsed broken => exact congrArg Except.error (congrArg _ (congrArg _ broken.1))

/-- Two runs from related states take the same course. -/
theorem course_itself (guides : Guides (· = ·) good (fun _ => True) True solver.phases)
    (around : Surroundings S sh) (entropy : Nat) (solution : S) (st st' : solver.State)
    (resting : guides.Resting st.phases st'.phases) (asked : st.interrupted = st'.interrupted) :
    solver.trail around entropy solution st = solver.trail around entropy solution st' ∧
      (itself (solver.conditions around) good).Answers guides (st.interrupted = true) ()
        (solver.solve around entropy solution st) (solver.solve around entropy solution st') := by
  have opens : RunTogether (fun s t => s = solver.opening entropy solution ∧
      t = solver.opening entropy solution) (Search.start (solver.conditions around))
      (Search.start (solver.conditions around)) (fun _ s t => ∃ _ : Score sh, s = t)
      (Scope.Broken fun _ => True) := by
    rintro s t ⟨rfl, rfl⟩
    exact (RunTogether.beside _ _ _ rfl).mono (fun _ _ _ same => ⟨default, same⟩) fun _ _ _ => id
  obtain ⟨j, along, answers⟩ := course_solve (L := itself (solver.conditions around) good)
    (i := ()) around rfl guides st st' resting asked opens
  exact ⟨along.trail_eq, answers⟩

/-! ## Histories -/

variable {guides : Guides (· = ·) good (fun _ => True) True solver.phases}
variable {allowed : Except PlanError S → Prop} {st : solver.State}

/-- If the states after an allowed result are related, then those after a history are related to
themselves. -/
theorem resting_self (guides : Guides (· = ·) good (fun _ => True) True solver.phases)
    (begins : guides.Resting solver.start.phases solver.start.phases)
    (closed : ∀ e a b, allowed (.error e) → ¬e.IsSettled ∨ e.kind = "Stall" → guides.Left e a b →
      guides.Resting a b) (reached : solver.Reached allowed st) :
    guides.Resting st.phases st.phases := by
  induction reached with
  | start => exact begins
  | asked before interrupted ih => exact ih
  | @solved st st' around entropy solution o before run result ih =>
    have answers := (course_itself guides around entropy solution st st ih rfl).2
    obtain ⟨o', st'', again, resting⟩ := answers.resting run fun e a b failed =>
      closed e a b (failed ▸ result)
    obtain rfl : st' = st'' := congrArg Prod.snd (Except.ok.inj (run.symm.trans again))
    exact resting

/-- If states that are related to anything are related to each other, then those after a history are
related to those at the start. -/
theorem resting_start (begins : guides.Resting solver.start.phases solver.start.phases)
    (rectangular : ∀ a a' b b', guides.Resting a b → guides.Resting a' b' → guides.Resting a b')
    (closed : ∀ e a b, allowed (.error e) → ¬e.IsSettled ∨ e.kind = "Stall" → guides.Left e a b →
      guides.Resting a b) (reached : solver.Reached allowed st) :
    guides.Resting st.phases solver.start.phases := by
  induction reached with
  | start => exact begins
  | asked before interrupted ih => exact ih
  | @solved st st' around entropy solution o before run result ih =>
    have answers := (course_itself guides around entropy solution st
      { solver.start with interrupted := st.interrupted } ih rfl).2
    obtain ⟨o', st'', -, resting⟩ := answers.resting run fun e a b failed =>
      closed e a b (failed ▸ result)
    exact rectangular _ _ _ _ resting begins

end Itself

end Lockstep

end PlanSearch
