import PlanSearch.Proofs.Lockstep.Ground
import PlanSearch.Proofs.Lockstep.Yields
import PlanSearch.Proofs.Search.Telling

/-!
# The log of a search

A search announces its beginning and its end, in between its phases, and within a phase its steps,
which are numbered from zero. A step that is completed is announced when it begins and when it ends,
with the score of the working solution at its end; in between, it may announce a better solution.

There is one kind of step that is announced when it begins and never again. A local search that
finds nothing to do in a step, or nothing that is accepted although there is no termination to wait
for, gives up without a word about the step.
-/

namespace PlanSearch

open Solver

variable {M S σ : Type} {sh : Shape}

/-! ## Steps -/

/-- What a completed step announces: the solution that it led to, if that is the best so far, and
its score in any case. -/
inductive StepLog (k : Nat) (x : Score sh) : List (Event S sh) → Prop
  | same : StepLog k x [.stepStarted k, .stepEnded k x]
  | better (best : S) : StepLog k x [.stepStarted k, .bestChanged best x, .stepEnded k x]

/-- What the steps announce that led to the given states, numbered from `k`. -/
inductive StepsLog : Nat → List (Milestone S sh) → List (Event S sh) → Prop
  | nil {k : Nat} : StepsLog k [] []
  | cons {k : Nat} {a : Milestone S sh} {x : Score sh} {rest : List (Milestone S sh)}
    {log more : List (Event S sh)} (last : a.1.last = some x) (step : StepLog k x log)
    (others : StepsLog (k + 1) rest more) : StepsLog k (a :: rest) (log ++ more)

/-- What a round announces that may complete a step. If it does not, it announces `open_`. -/
def RoundLog (phase : PhaseContext sh) (open_ : List (Event S sh)) :
    Option (PhaseContext sh) → List (Event S sh) → Prop
  | none, log => log = open_
  | some next, log =>
    next.steps = phase.steps + 1 ∧ ∃ x, next.last = some x ∧ StepLog phase.steps x log

/-- Every round announces what it should. What it says if it does not complete a step depends on
the state that it begins in. -/
def RoundTells (view : σ → Scope S sh)
    (open_ : PhaseContext sh → Scope S sh → List (Event S sh))
    (round : PhaseContext sh →
      ExceptT PlanError (ExceptT Fault (StateM σ)) (Option (PhaseContext sh))) : Prop :=
  ∀ phase s next t, (round phase).run.run.run s = (.ok (.ok next), t) →
    ∃ log, (view s).Adds (view t) log ∧ RoundLog phase (open_ phase (view s)) next log

/-- The rounds of a phase announce one step after the other, and in the end what the last round
announces. -/
theorem RoundTells.repeatRound {view : σ → Scope S sh}
    {open_ : PhaseContext sh → Scope S sh → List (Event S sh)}
    {round : PhaseContext sh →
      ExceptT PlanError (ExceptT Fault (StateM σ)) (Option (PhaseContext sh))}
    (once : RoundTells view open_ round) (rounds : Nat) (phase : PhaseContext sh) (s t : σ)
    (ran : (repeatRound round rounds phase).run.run.run s = (.ok (.ok ()), t)) :
    let trail := milestones round view rounds phase s
    let last := trail.getLastD (phase, view s)
    last.1.steps = phase.steps + trail.length ∧
      ∃ log, StepsLog phase.steps trail log ∧ (view s).Adds (view t) (log ++ open_ last.1 last.2) := by
  induction rounds generalizing phase s with
  | zero => cases ran
  | succ rounds ih =>
    rw [PlanSearch.repeatRound, try_bind] at ran
    rw [milestones]
    rcases reached : (round phase).run.run.run s with ⟨_ | _ | next, u⟩
    · rw [reached] at ran
      cases ran
    · rw [reached] at ran
      cases ran
    · obtain ⟨log, adds, said⟩ := once phase s next u reached
      rw [reached] at ran
      cases next with
      | none =>
        obtain ⟨-, rfl⟩ := Prod.mk.inj ran
        obtain rfl : log = _ := said
        exact ⟨rfl, [], .nil, adds⟩
      | some next =>
        obtain ⟨steps, x, last, step⟩ := said
        obtain ⟨count, more, others, adds'⟩ := ih next u ran
        dsimp only
        rw [List.getLastD_cons, List.length_cons]
        refine ⟨?_, log ++ more, .cons last step (steps ▸ others), ?_⟩
        · rw [count, steps]
          omega
        · rw [List.append_assoc]
          exact adds.trans adds'

/-! ## Construction -/

namespace Construction

variable (c : Conditions S sh) (p : Construction S sh)

/-- Trying values announces nothing. -/
theorem tryQuiet_bestMove (last : Score sh) (moves : List (Move S))
    (winner : Option (Move S × Score sh)) : TryQuiet id (bestMove c last moves winner) := by
  induction moves generalizing winner with
  | nil => exact .pure winner rfl
  | cons m rest ih =>
    refine TryTells.get_bind fun s => ?_
    split
    · exact (Search.tryQuiet_evaluate c m last).after_quiet fun score => ih _
    · exact ih winner

theorem tells_complete (phase : PhaseContext sh) (score : Score sh) :
    Tells id (complete c phase score) fun next log =>
      (next.steps = phase.steps + 1 ∧ next.last = some score) ∧
        StepLog phase.steps score (.stepStarted phase.steps :: log) := by
  refine Search.quiet_countStep.andThen fun _ => ?_
  refine (Search.tells_offer c score).bind fun improved log offered => ?_
  refine (Search.tells_fire c _).bind fun _ more ended => .pure _ ⟨⟨rfl, rfl⟩, ?_⟩
  obtain rfl := ended
  rcases offered with rfl | ⟨best, rfl⟩
  · exact .same
  · exact .better best

theorem tryTells_step (phase : PhaseContext sh) (placement : Placement S) (last : Score sh) :
    TryTells id (step c phase placement last) fun next => RoundLog phase [] (some next) := by
  rw [step_eq]
  refine TryTells.bind (.lift (Search.tells_fire c _)) fun _ log began => ?_
  obtain rfl := began
  refine (tryQuiet_bestMove c last _ none).after_quiet fun winner => ?_
  split
  · exact .throw _
  · rename_i m score
    refine (Search.tryQuiet_apply m).after_quiet fun _ => ?_
    refine (Search.tryQuiet_assertScore c score).after_quiet fun _ => ?_
    refine TryTells.lift ((tells_complete c phase score).mono fun next log told => ?_)
    exact ⟨told.1.1, score, told.1.2, told.2⟩

theorem tells_round (starting : Score sh) : RoundTells id (fun _ _ => []) (p.round c starting) := by
  intro phase s next t ran
  refine TryTells.exists_adds id ?_ ran
  have looked := (Search.Peeks.phaseIsTerminated c p.termination phase).quiet
  refine TryTells.after_quiet (.lift looked) fun stop => ?_
  cases stop with
  | true => exact .pure none rfl
  | false =>
    refine TryTells.get_bind fun s => ?_
    split
    · exact .pure none rfl
    · refine (tryTells_step c phase _ _).bind fun next log told => .pure (some next) ?_
      rwa [List.append_nil]

theorem tryTells_begin (index : Nat) :
    TryTells id (begin c index) fun began log =>
      log = [.phaseStarted index kind] ∧ began.2.steps = 0 := by
  refine TryTells.after_quiet (.lift (Search.quiet_calculate c)) fun starting => ?_
  refine TryTells.after_quiet (.lift (Search.Peeks.now c).quiet) fun reading => ?_
  refine TryTells.bind (.lift (Search.tells_fire c _)) fun _ log said => .pure _ ⟨?_, rfl⟩
  rw [said, List.append_nil]

end Construction

/-! ## Local search -/

namespace LocalSearch

variable (c : Conditions S sh) (p : LocalSearch M S sh) {α : Type}

section Parts

variable {p} {P : α → List (Event S sh) → Prop}

theorem run_onScope (f : Search S sh α) (r : p.Running) :
    (p.onScope f).run.run r =
      ((f.run.run r.scope).1, { r with scope := (f.run.run r.scope).2 }) := rfl

theorem tells_onScope {f : Search S sh α} (h : Tells id f P) :
    Tells Running.scope (p.onScope f) P := by
  intro r a r' ran
  obtain ⟨value, rfl⟩ := Prod.mk.inj ran
  exact h r.scope a _ (Prod.ext value rfl)

theorem tryTells_attempt {f : Attempt S sh α} (h : TryTells id f P) :
    TryTells Running.scope (p.attempt f) P := tells_onScope h

theorem tryTells_perform {f : p.Stepping α} (h : Tells Running.scope f P) :
    TryTells Running.scope (p.perform f) P := .lift h

theorem quiet_modifyOwn (f : p.State → p.State) : Quiet Running.scope (p.modifyOwn f) :=
  Quiet.modify (fun _ => rfl) fun _ => rfl

/-- Whatever the selector does, it announces nothing. -/
theorem quiet_select (f : Setting S → p.moves.State → Draw M (α × p.moves.State)) :
    Quiet Running.scope (p.select c f) := by
  intro r a r' ran
  rw [Lockstep.run_select] at ran
  split at ran
  · cases ran
  · obtain ⟨-, rfl⟩ := Prod.mk.inj ran
    exact ⟨[], .none rfl rfl, rfl⟩

end Parts

theorem quiet_phaseStarted (starting : Score sh) :
    Quiet Running.scope (p.phaseStarted c starting) := by
  refine (quiet_select c _).andThen fun _ => Tells.get_bind fun r => ?_
  exact (Quiet.liftM _).andThen fun acceptor => quiet_modifyOwn _

theorem quiet_stepStarted (step : StepContext sh) : Quiet Running.scope (p.stepStarted c step) :=
  (quiet_select c _).andThen fun _ => quiet_modifyOwn _

theorem quiet_stepEnded (made : Option (Acceptor.Made S sh)) :
    Quiet Running.scope (p.stepEnded c made) := by
  unfold stepEnded
  cases made with
  | none => exact quiet_select c _
  | some made => exact (quiet_modifyOwn _).andThen fun _ => quiet_select c _

theorem quiet_phaseEnded : Quiet Running.scope (p.phaseEnded c) :=
  (quiet_select c _).andThen fun _ => quiet_modifyOwn _

theorem quiet_budget : Quiet Running.scope p.budget := by
  unfold budget
  split
  · exact .pure _ rfl
  · split
    · exact Tells.get_bind fun r => (Quiet.liftM _).andThen fun size => .pure _ rfl
    · exact .pure _ rfl

theorem quiet_accept (m : Move S) (score : Score sh) (step : StepContext sh) :
    Quiet Running.scope (p.accept m score step) := by
  intro r a r' ran
  rw [run_accept] at ran
  split at ran
  · cases ran
  · obtain ⟨-, rfl⟩ := Prod.mk.inj ran
    exact ⟨[], .none rfl rfl, rfl⟩

theorem quiet_forage (m : Move S) (score : Score sh) (step : StepContext sh) :
    Quiet Running.scope (p.forage m score step) :=
  Tells.get_bind fun _ => (quiet_modifyOwn _).andThen fun _ => .pure _ rfl

theorem quiet_pick : Quiet Running.scope p.pick :=
  Tells.get_bind fun _ => (quiet_modifyOwn _).andThen fun _ => .pure _ rfl

/-- Trying candidates announces nothing. It changes what is counted in the step. -/
theorem tryTells_tryCandidates (rounds : Nat) (left : Option Nat) (step : StepContext sh) :
    TryTells Running.scope (p.tryCandidates c rounds left step) fun next log =>
      log = [] ∧ next.index = step.index ∧ next.lastStep = step.lastStep := by
  induction rounds generalizing left step with
  | zero => exact tryTells_perform (.throw _)
  | succ rounds ih =>
    unfold tryCandidates
    split
    · exact .pure step ⟨rfl, rfl, rfl⟩
    · refine TryTells.after_quiet (tryTells_perform (quiet_select c _)) fun candidate => ?_
      split
      · exact .pure step ⟨rfl, rfl, rfl⟩
      · rename_i m
        refine TryTells.after_quiet (tryTells_perform (.get_bind fun _ => .pure _ rfl)) fun s => ?_
        split
        · refine TryTells.after_quiet
            (tryTells_attempt (Search.tryQuiet_evaluate c m step.lastStep)) fun score => ?_
          refine TryTells.after_quiet (tryTells_perform (p.quiet_accept m score _)) fun ok => ?_
          split
          · refine TryTells.after_quiet (tryTells_perform (p.quiet_forage m score _))
              fun enough => ?_
            split
            · exact .pure _ ⟨rfl, rfl, rfl⟩
            · exact ih _ _
          · exact ih _ _
        · exact ih _ step

theorem tryTells_decide (step : StepContext sh) :
    TryTells Running.scope (p.decide c step) fun decided log =>
      log = [] ∧ decided.2.index = step.index ∧ decided.2.lastStep = step.lastStep := by
  refine TryTells.after_quiet (tryTells_perform p.quiet_budget) fun budget => ?_
  refine TryTells.after_quiet (tryTells_perform (quiet_select c _)) fun _ => ?_
  refine (tryTells_tryCandidates c p _ budget step).bind fun next log told => ?_
  refine TryTells.after_quiet (tryTells_perform p.quiet_pick) fun picked => .pure _ ?_
  rwa [List.append_nil]

/-- The next step is announced when it begins. -/
theorem tells_beginStep (phase : PhaseContext sh) (starting : Score sh) :
    Tells Running.scope (p.beginStep c phase starting) fun step log =>
      log = [.stepStarted phase.steps] ∧ step.index = phase.steps := by
  refine Tells.get_bind fun r => ?_
  have looked := (Search.Peeks.phaseGradient c p.termination phase).quiet
  refine Quiet.andThen (tells_onScope looked) fun gradient => ?_
  refine (tells_onScope (Search.tells_fire c _)).bind fun _ log began => ?_
  refine (p.quiet_stepStarted c _).andThen fun _ => .pure _ ⟨?_, rfl⟩
  rw [began, List.append_nil]

/-- A move that is made is announced with its score, after the solution that it leads to if that is
the best so far. -/
theorem tryTells_make (phase : PhaseContext sh) (step : StepContext sh) (m : Move S)
    (score : Score sh) (index : step.index = phase.steps) :
    TryTells Running.scope (p.make c phase step m score) fun next log =>
      RoundLog phase [] (some next) (.stepStarted phase.steps :: log) := by
  refine TryTells.after_quiet (tryTells_attempt (Search.tryQuiet_apply m)) fun undo => ?_
  refine TryTells.after_quiet (tryTells_attempt (Search.tryQuiet_assertScore c score)) fun _ => ?_
  refine tryTells_perform ?_
  refine Quiet.andThen (tells_onScope Search.quiet_countStep) fun _ => ?_
  refine (tells_onScope (Search.tells_offer c score)).bind fun improved log offered => ?_
  refine (p.quiet_stepEnded c _).andThen fun _ => ?_
  refine (tells_onScope (Search.tells_fire c _)).bind fun _ more ended => ?_
  refine .pure _ ⟨rfl, score, rfl, ?_⟩
  obtain rfl := ended
  rw [index]
  rcases offered with rfl | ⟨best, rfl⟩
  · exact .same
  · exact .better best

/-- A step without a move is announced with the score before it. -/
theorem tells_skip (phase : PhaseContext sh) (step : StepContext sh)
    (index : step.index = phase.steps) :
    Tells Running.scope (p.skip c phase step) fun next log =>
      RoundLog phase [] (some next) (.stepStarted phase.steps :: log) := by
  refine Quiet.andThen (tells_onScope Search.quiet_countStep) fun _ => ?_
  refine (p.quiet_stepEnded c none).andThen fun _ => ?_
  refine (tells_onScope (Search.tells_fire c _)).bind fun _ log ended => ?_
  refine .pure _ ⟨rfl, step.lastStep, rfl, ?_⟩
  obtain rfl := ended
  rw [index]
  exact .same

/-- Nothing tells the phase to stop: neither its own termination nor the search as a whole. -/
def goesOn (phase : PhaseContext sh) (scope : Scope S sh) : Bool :=
  match (PhaseContext.isTerminated c p.termination phase).run scope with
  | (.ok stop, _) => !stop
  | (.error _, _) => false

/-- What is announced of a step that is not completed. -/
def unfinished (phase : PhaseContext sh) (scope : Scope S sh) : List (Event S sh) :=
  if p.goesOn c phase scope then [.stepStarted phase.steps] else []

/-- A round that is not told to stop begins a step. -/
theorem tells_round (starting : Score sh) :
    RoundTells Running.scope (p.unfinished c) (p.round c starting) := by
  intro phase r next r' ran
  obtain ⟨stop, readings, looked⟩ := Search.Peeks.phaseIsTerminated c p.termination phase r.scope
  have looked : (PhaseContext.isTerminated c p.termination phase).run.run r.scope =
      (.ok stop, { r.scope with readings }) := looked r.scope.director
  have goesOn_eq : p.goesOn c phase r.scope = !stop :=
    congrArg (fun x => match x with | (.ok stop, _) => !stop | (.error _, _) => false) looked
  rw [round, perform_bind, run_onScope, looked] at ran
  rw [unfinished, goesOn_eq]
  cases stop with
  | true =>
    obtain ⟨same, rfl⟩ := Prod.mk.inj ran
    obtain rfl := Except.ok.inj (Except.ok.inj same)
    exact ⟨[], .none rfl rfl, rfl⟩
  | false =>
    suffices told : ∃ log, Scope.Adds { r.scope with readings } r'.scope log ∧
        RoundLog phase [.stepStarted phase.steps] next log by
      obtain ⟨log, adds, said⟩ := told
      exact ⟨log, ⟨adds.events, adds.best⟩, said⟩
    refine TryTells.exists_adds Running.scope ?_ ran
    refine TryTells.bind (tryTells_perform (p.tells_beginStep c phase starting)) ?_
    rintro step log ⟨rfl, index⟩
    refine TryTells.bind (p.tryTells_decide c step) ?_
    rintro ⟨_ | ⟨m, score⟩, step⟩ log ⟨rfl, index', -⟩
    · have index : step.index = phase.steps := index'.trans index
      dsimp only
      split
      · refine TryTells.after_quiet (tryTells_perform (p.quiet_stepEnded c none)) fun _ => ?_
        refine TryTells.after_quiet (tryTells_perform
          (tells_onScope (Search.quiet_isInitialized c))) fun initialized => ?_
        split
        · exact .pure none rfl
        · exact TryTells.after_quiet (tryTells_perform (p.quiet_phaseEnded c)) fun _ => .throw _
      · split
        · refine TryTells.after_quiet (tryTells_perform (p.quiet_stepEnded c none)) fun _ => ?_
          exact .pure none rfl
        · refine (tryTells_perform (p.tells_skip c phase step index)).bind fun next log told => ?_
          refine .pure (some next) ?_
          rwa [List.append_nil]
    · have index : step.index = phase.steps := index'.trans index
      refine (p.tryTells_make c phase step m score index).bind fun next log told => ?_
      refine .pure (some next) ?_
      rwa [List.append_nil]

/-- Begins the phase. -/
theorem tells_begin (index : Nat) :
    Tells Running.scope (p.begin c index) fun began log =>
      log = [.phaseStarted index kind] ∧ began.2.steps = 0 := by
  refine Quiet.andThen (tells_onScope (Search.quiet_calculate c)) fun starting => ?_
  refine Quiet.andThen (tells_onScope (Search.Peeks.now c).quiet) fun reading => ?_
  refine (p.quiet_phaseStarted c starting).andThen fun _ => ?_
  refine (tells_onScope (Search.tells_fire c _)).bind fun _ log said => .pure _ ⟨?_, rfl⟩
  rw [said, List.append_nil]

end LocalSearch

/-! ## Phases -/

/-- A phase in a run of a solver, with the states that it began in. -/
structure Stage (M S : Type) (sh : Shape) where
  phase : Phase M S sh
  scope : Scope S sh
  own : phase.State

namespace Stage

variable (c : Conditions S sh) (index : Nat)

/-- The states after the steps of the phase. -/
def trail (stage : Stage M S sh) : List (Milestone S sh) :=
  stage.phase.trail c index stage.scope stage.own

/-- The phase ended although nothing told it to stop: a local search gave up in a step. -/
def GivesUp : Stage M S sh → Prop
  | ⟨.construction _, _, _⟩ => False
  | ⟨.localSearch p, scope, own⟩ =>
    ∃ starting phase r, (p.begin c index).run.run ⟨scope, own⟩ = (.ok (starting, phase), r) ∧
      let last := (p.trail c index ⟨scope, own⟩).getLastD (phase, r.scope)
      p.goesOn c last.1 last.2 = true

/-- What the phase announces: its beginning, its steps, the beginning of the step in which it gave
up, if it did, and its end. -/
inductive Log (stage : Stage M S sh) : List (Event S sh) → Prop
  | stopped {log : List (Event S sh)} (stops : ¬stage.GivesUp c index)
    (steps : StepsLog 0 (stage.trail c index) log) :
    stage.Log (.phaseStarted index stage.phase.kind :: log ++ [.phaseEnded index stage.phase.kind])
  | gaveUp {log : List (Event S sh)} (givesUp : stage.GivesUp c index)
    (steps : StepsLog 0 (stage.trail c index) log) :
    stage.Log (.phaseStarted index stage.phase.kind :: log ++
      [.stepStarted (stage.trail c index).length, .phaseEnded index stage.phase.kind])

end Stage

theorem Construction.exists_log (c : Conditions S sh) (p : Construction S sh) (index : Nat)
    (s t : Scope S sh) (ran : (p.run c index).run.run.run s = (.ok (.ok ()), t)) :
    ∃ log, s.Adds t log ∧ Stage.Log c index (⟨.construction p, s, ()⟩ : Stage M S sh) log := by
  obtain ⟨starting, phase, u, v, begun, done, ended, trail⟩ := exists_stages ran
  obtain ⟨_, before, rfl, none⟩ := TryTells.exists_adds id (tryTells_begin c index) begun
  obtain ⟨_, after, rfl⟩ := Search.tells_fire c _ v () t ended
  obtain ⟨-, log, steps, adds⟩ :=
    (tells_round c p starting).repeatRound c.patience phase u v done
  rw [List.append_nil] at adds
  refine ⟨_, (before.trans adds).trans after, .stopped (fun givesUp => givesUp) ?_⟩
  change StepsLog 0 (p.trail c index s) log
  rw [trail, ← none]
  exact steps

theorem LocalSearch.exists_log (c : Conditions S sh) (p : LocalSearch M S sh) (index : Nat)
    (r r' : p.Running) (ran : (p.run c index).run.run.run r = (.ok (.ok ()), r')) :
    ∃ log, r.scope.Adds r'.scope log ∧ Stage.Log c index ⟨.localSearch p, r.scope, r.own⟩ log := by
  obtain ⟨starting, phase, u, v, w, begun, done, closed, ended, trail⟩ := exists_stages ran
  obtain ⟨_, before, rfl, none⟩ := p.tells_begin c index r _ u begun
  obtain ⟨_, told, rfl⟩ := p.quiet_phaseEnded c v _ w closed
  obtain ⟨_, after, rfl⟩ := tells_onScope (Search.tells_fire c _) w _ r' ended
  obtain ⟨count, log, steps, adds⟩ :=
    (p.tells_round c starting).repeatRound c.patience phase u v done
  rw [← trail, none] at steps
  rw [← trail, none, Nat.zero_add] at count
  rw [← trail] at adds
  have ends : v.scope.Adds r'.scope [.phaseEnded index kind] := told.trans after
  have added := (before.trans adds).trans ends
  rw [LocalSearch.unfinished, count] at added
  have givesUp : Stage.GivesUp c index ⟨.localSearch p, r.scope, r.own⟩ ↔
      let last := (p.trail c index r).getLastD (phase, u.scope)
      p.goesOn c last.1 last.2 = true := by
    constructor
    · rintro ⟨starting', phase', u', begun', goesOn⟩
      obtain ⟨same, rfl⟩ := Prod.mk.inj (begun.symm.trans begun')
      obtain ⟨-, rfl⟩ := Prod.mk.inj (Except.ok.inj same)
      exact goesOn
    · exact fun goesOn => ⟨starting, phase, u, begun, goesOn⟩
  by_cases goesOn : Stage.GivesUp c index ⟨.localSearch p, r.scope, r.own⟩
  · rw [if_pos (givesUp.1 goesOn), ← List.append_assoc, List.append_assoc _ [_]] at added
    exact ⟨_, added, .gaveUp goesOn steps⟩
  · rw [if_neg fun goes => goesOn (givesUp.2 goes), List.append_nil] at added
    exact ⟨_, added, .stopped goesOn steps⟩

theorem Phase.exists_log (c : Conditions S sh) (p : Phase M S sh) (index : Nat) (s : Scope S sh)
    (own : p.State) (ran : (p.run c index s own).result = .ok (.ok ())) :
    ∃ log, s.Adds (p.run c index s own).scope log ∧ Stage.Log c index ⟨p, s, own⟩ log := by
  cases p with
  | construction p =>
    exact p.exists_log c index s _ (Prod.ext ran rfl)
  | localSearch p =>
    exact p.exists_log c index ⟨s, own⟩ _ (Prod.ext ran rfl)

/-! ## Runs -/

namespace Stage

/-- What several phases announce, one after the other, that make the given steps. -/
inductive Logs (c : Conditions S sh) :
    Nat → List (Stage M S sh) → List (Milestone S sh) → List (Event S sh) → Prop
  | nil {index : Nat} : Logs c index [] [] []
  | cons {index : Nat} {stage : Stage M S sh} {rest : List (Stage M S sh)}
    {trail : List (Milestone S sh)} {log more : List (Event S sh)} (own : stage.Log c index log)
    (others : Logs c (index + 1) rest trail more) :
    Logs c index (stage :: rest) (stage.trail c index ++ trail) (log ++ more)

end Stage

namespace Solver

/-- The phases that are run. -/
def stagesAll (c : Conditions S sh) : (phases : List (Phase M S sh)) → Nat → Scope S sh →
    PhaseStates phases → List (Stage M S sh)
  | [], _, _, _ => []
  | p :: rest, index, scope, (st, sts) =>
    match (Search.isTerminated c).run scope with
    | (.ok false, scope) =>
      let ended := p.run c index scope st
      ⟨p, scope, st⟩ :: match ended.result with
        | .ok (.ok ()) => stagesAll c rest (index + 1) ended.scope sts
        | _ => []
    | _ => []

/-- The phases that are run in a run of a solver. -/
def stages (solver : Solver M S sh) (around : Surroundings S sh) (entropy : Nat) (solution : S)
    (st : solver.State) : List (Stage M S sh) :=
  if st.interrupted then []
  else match (Search.start (solver.conditions around)).run (solver.opening entropy solution) with
    | (.ok (), scope) => stagesAll (solver.conditions around) solver.phases 0 scope st.phases
    | _ => []

theorem stagesAll_prefix (c : Conditions S sh) (phases : List (Phase M S sh)) (index : Nat)
    (scope : Scope S sh) (sts : PhaseStates phases) :
    (stagesAll c phases index scope sts).map Stage.phase <+: phases := by
  induction phases generalizing index scope with
  | nil => exact List.nil_prefix
  | cons p rest ih =>
    obtain ⟨st, sts⟩ := sts
    rw [stagesAll]
    split
    · rw [List.map_cons, List.prefix_cons_inj]
      split
      · exact ih _ _ sts
      · exact List.nil_prefix
    · exact List.nil_prefix

theorem exists_logs (c : Conditions S sh) (phases : List (Phase M S sh)) (index : Nat)
    (scope : Scope S sh) (sts : PhaseStates phases)
    (ran : (runAll c phases index scope sts).result = .ok (.ok ())) :
    ∃ log, scope.Adds (runAll c phases index scope sts).scope log ∧
      Stage.Logs c index (stagesAll c phases index scope sts) (trailAll c phases index scope sts)
        log := by
  induction phases generalizing index scope with
  | nil => exact ⟨[], .none rfl rfl, .nil⟩
  | cons p rest ih =>
    obtain ⟨st, sts⟩ := sts
    have quiet := (Search.Peeks.isTerminated c).quiet scope
    rw [runAll] at ran ⊢
    rw [stagesAll, trailAll]
    rcases looked : (Search.isTerminated c).run scope with ⟨_ | _ | _, reached⟩
    · rw [looked] at ran
      cases ran
    · rw [looked] at ran
      obtain ⟨_, before, rfl⟩ := quiet false reached looked
      rcases done : (p.run c index reached st).result with _ | _ | ⟨⟩ <;>
        simp only [done] at ran ⊢
      · cases ran
      · cases ran
      · obtain ⟨log, adds, own⟩ := p.exists_log c index reached st done
        obtain ⟨more, adds', others⟩ := ih (index + 1) _ sts ran
        exact ⟨log ++ more, before.trans (adds.trans adds'), .cons own others⟩
    · obtain ⟨_, before, rfl⟩ := quiet true reached looked
      exact ⟨[], before, .nil⟩

/-- The state of a search that has announced the solution that it begins with. -/
def started (c : Conditions S sh) (solver : Solver M S sh) (entropy : Nat) (solution : S)
    (x : Score sh) : Scope S sh :=
  let held := c.problem.withScore solution (some x)
  let first := solver.opening entropy solution
  let director :=
    { first.director with solution := held, cached := some x, dirty := false, calculations := 1 }
  let best := Search.bestOf c x { first with director }
  { first with
    director, readings := 1, startedAt := some (c.clock 0), best := some best
    starting := if best.isInitialized then some x else none
    events := #[.solvingStarted held], interrupted := c.interrupts (.solvingStarted held) }

/-- A search begins with the announcement of the solution that it begins with. -/
theorem exists_start {c : Conditions S sh} {entropy : Nat} {solution : S} {solver : Solver M S sh}
    {t : Scope S sh}
    (ran : (Search.start c).run (solver.opening entropy solution) = (.ok (), t)) :
    ∃ x, c.problem.calculate solution = .ok x ∧ t = started c solver entropy solution x := by
  have begins := (Grounds.run_start c (solver.opening entropy solution)).symm.trans ran
  have calculated : (solver.opening entropy solution).director.calculate c.problem =
      (c.problem.calculate solution).bind fun x => .ok (x,
        { (solver.opening entropy solution).director with
          solution := c.problem.withScore solution (some x), cached := some x, dirty := false
          calculations := 1 }) := rfl
  rw [calculated] at begins
  cases scored : c.problem.calculate solution with
  | error e =>
    rw [scored] at begins
    cases begins
  | ok x =>
    rw [scored] at begins
    exact ⟨x, rfl, (congrArg Prod.snd begins).symm⟩

/-- The score that a step is announced with is the one that the working solution deserves. -/
theorem exists_score_of_mem_trail (solver : Solver M S sh) (vars : Variables S)
    (yields : ∀ p ∈ solver.phases, p.Yields fun m => m.Over vars ∧ m.KeepsRuns)
    (around : Surroundings S sh) (problemLawful : around.problem.Lawful) (lawful : vars.Lawful)
    (blind : vars.Blind around.problem) (st : solver.State)
    (history : solver.Reached (fun _ => True) st) (entropy : Nat) (solution : S)
    (valid : vars.Valid solution) (a : Milestone S sh)
    (member : a ∈ solver.trail around entropy solution st) :
    ∃ x, a.1.last = some x ∧ around.problem.calculate a.2.director.solution = .ok x := by
  let G : Grounds (solver.conditions around) solver.mode fun m => m.Over vars ∧ m.KeepsRuns :=
    .unrestricted problemLawful lawful blind
  obtain ⟨guides, begins, closed⟩ := exists_guides_yields yields
  have resting := history.resting begins closed
  obtain ⟨x, known⟩ := Grounds.exists_score around.problem solution
  obtain ⟨k, along, -⟩ := G.course_alone trivial guides (fun _ _ => rfl) resting valid trivial known
    entropy
  obtain ⟨j, y, -, -, -, last, stands, knows, -⟩ := List.forall₂_same.1 along.forall₂ a member
  have same : around.problem.bare a.2.director.solution = _ := stands.left.bare
  refine ⟨y, last, ?_⟩
  rw [← problemLawful.calculate_bare, same]
  exact knows.score

/-- The phases that are run are the first ones. -/
theorem stages_prefix (solver : Solver M S sh) (around : Surroundings S sh) (entropy : Nat)
    (solution : S) (st : solver.State) :
    (solver.stages around entropy solution st).map Stage.phase <+: solver.phases := by
  unfold stages
  split
  · exact List.nil_prefix
  · split
    · exact stagesAll_prefix ..
    · exact List.nil_prefix

/-- What a run announces that answers. -/
theorem exists_log (solver : Solver M S sh) (around : Surroundings S sh) (entropy : Nat)
    (solution : S) (st : solver.State) (o : Outcome S sh) (st' : solver.State)
    (ran : solver.solve around entropy solution st = .ok (o, st')) (best : S)
    (answer : o.result = .ok best) :
    ∃ x log early, around.problem.calculate solution = .ok x ∧
      Stage.Logs (solver.conditions around) 0 (solver.stages around entropy solution st)
        (solver.trail around entropy solution st) log ∧
      o.events = .solvingStarted (around.problem.withScore solution (some x)) ::
        log ++ [.solvingEnded best early] := by
  rw [solve_eq] at ran
  rw [stages, trail]
  split at ran
  · obtain ⟨rfl, -⟩ := Prod.mk.inj (Except.ok.inj ran)
    cases answer
  · rename_i fresh
    rw [if_neg fresh, if_neg fresh]
    split at ran
    · cases ran
    · rename_i scope begins
      obtain ⟨x, scored, rfl⟩ := exists_start begins
      dsimp only at ran
      split at ran
      · cases ran
      · obtain ⟨rfl, -⟩ := Prod.mk.inj (Except.ok.inj ran)
        cases answer
      · rename_i done
        obtain ⟨log, adds, own⟩ := exists_logs _ _ 0 _ st.phases done
        obtain ⟨last, ends⟩ := Option.isSome_iff_exists.1 (adds.best rfl)
        have outcome := (finish_eq _ _ { phases := _ } ends).symm.trans
          (congrArg Prod.fst (Except.ok.inj ran))
        subst outcome
        obtain rfl : last.solution = best := Except.ok.inj answer
        rw [begins]
        exact ⟨x, log, _, scored, own,
          congrArg (· ++ [Event.solvingEnded last.solution _]) adds.events⟩

/-- A run that answers has announced its beginning, the phases that were run with their steps, and
its end with the answer. Every completed step is announced when it begins and when it ends, with the
score of the working solution. A step that is begun is completed, except the last one of a local
search that gives up although nothing tells it to stop. -/
theorem solve_log (solver : Solver M S sh) (around : Surroundings S sh) (entropy : Nat)
    (solution : S) (st : solver.State) (o : Outcome S sh) (st' : solver.State)
    (ran : solver.solve around entropy solution st = .ok (o, st')) (best : S)
    (answer : o.result = .ok best) :
    let stages := solver.stages around entropy solution st
    let trail := solver.trail around entropy solution st
    stages.map Stage.phase <+: solver.phases ∧
      (∃ x log early, around.problem.calculate solution = .ok x ∧
        Stage.Logs (solver.conditions around) 0 stages trail log ∧
        o.events = .solvingStarted (around.problem.withScore solution (some x)) ::
          log ++ [.solvingEnded best early]) ∧
      ∀ vars : Variables S, (∀ p ∈ solver.phases, p.Yields fun m => m.Over vars ∧ m.KeepsRuns) →
        around.problem.Lawful → vars.Lawful → vars.Blind around.problem →
        solver.Reached (fun _ => True) st → vars.Valid solution →
        ∀ a ∈ trail, ∃ x, a.1.last = some x ∧
          around.problem.calculate a.2.director.solution = .ok x := by
  intro stages trail
  refine ⟨?_, ?_, ?_⟩
  · exact solver.stages_prefix around entropy solution st
  · exact solver.exists_log around entropy solution st o st' ran best answer
  · intro vars yields problemLawful lawful blind history valid
    exact solver.exists_score_of_mem_trail vars yields around problemLawful lawful blind st
      history entropy solution valid

end Solver

/-- A search with a necklace announces its steps with the scores that its solutions deserve. -/
theorem ScoredNecklace.solve_log_plain :
    ∃ (solver : Solver Assembly.Memory ScoredNecklace .simple) (o : Outcome ScoredNecklace .simple)
      (st' : solver.State),
      Assembly.solver registry settings = .ok solver ∧
      solver.solve around 0 plain solver.start = .ok (o, st') ∧
      (∃ x log early best, Stage.Logs (solver.conditions around) 0
          (solver.stages around 0 plain solver.start) (solver.trail around 0 plain solver.start)
          log ∧
        o.events = .solvingStarted (problem.withScore plain (some x)) ::
          log ++ [.solvingEnded best early]) ∧
      ∀ a ∈ solver.trail around 0 plain solver.start, ∃ x, a.1.last = some x ∧
        problem.calculate a.2.director.solution = .ok x := by
  obtain ⟨best, solved⟩ := exists_answer
  obtain ⟨solver, built, o, st, ran, answer⟩ := Assembly.exists_solver_of_solve solved
  have yields (p) (member : p ∈ solver.phases) :
      p.Yields fun m => m.Over registry.written ∧ m.KeepsRuns :=
    (Assembly.yields_solver built p member).mono fun m offered => ⟨offered.over, offered.keepsRuns⟩
  obtain ⟨-, ⟨x, log, early, -, logs, events⟩, scores⟩ := Solver.solve_log solver around 0 plain
    solver.start o st ran best answer
  have deserved := scores registry.written yields lawful_problem lawful_written blind_written .start
    valid_plain
  exact ⟨solver, o, st, built, ran, ⟨x, log, early, best, logs, events⟩, deserved⟩

end PlanSearch
