import PlanSearch.Proofs.Acceptor.Recent
import PlanSearch.Proofs.Search.Candidates
import PlanSearch.Proofs.Search.Rounds

/-!
# The chronicle of a local search

A local search is followed from step to step: which steps it completes, and which moves were made in
them. Its acceptor is told of the beginning and of the end of a step and looked at in between.
-/

namespace PlanSearch.LocalSearch

variable {M S : Type} {sh : Shape} (p : LocalSearch M S sh) (c : Conditions S sh)

/-- A step begins, because nothing tells the phase to stop. -/
def Begins (starting : Score sh) (phase : PhaseContext sh) (r : p.Running) (step : StepContext sh)
    (r' : p.Running) : Prop :=
  ∃ u, (p.onScope (PhaseContext.isTerminated c p.termination phase)).run.run r = (.ok false, u) ∧
    (p.beginStep c phase starting).run.run u = (.ok step, r')

/-- A step is completed. The move that was made in it, if any, is given with the move that takes it
back. -/
inductive Completes (starting : Score sh) (phase : PhaseContext sh) (r : p.Running) :
    Option (Acceptor.Made S sh) → PhaseContext sh → p.Running → Prop
  | made {step next v m score undo phase' w w' r'} (begins : p.Begins c starting phase r step v)
    (decided : (p.decide c step).run.run.run v = (.ok (.ok (some (m, score), next)), w))
    (applied : (p.attempt (Search.apply m)).run.run.run w = (.ok (.ok undo), w'))
    (made : (p.make c phase next m score).run.run.run w = (.ok (.ok phase'), r')) :
    Completes starting phase r (some { index := next.index, move := m, undo, score := some score })
      phase' r'
  | skipped {step next v phase' w r'} (begins : p.Begins c starting phase r step v)
    (decided : (p.decide c step).run.run.run v = (.ok (.ok (none, next)), w))
    (tried : next.selected ≠ 0) (waits : (p.termination.isNone && c.termination.isNone) = false)
    (skipped : (p.skip c phase next).run.run w = (.ok phase', r')) :
    Completes starting phase r none phase' r'

/-- A round completes no step: it is told to stop, or the step that it begins has nothing to do, or
accepts nothing although there is no termination to wait for. -/
inductive Rests (starting : Score sh) (phase : PhaseContext sh) (r : p.Running) : p.Running → Prop
  | stopped {r'} (looked :
    (p.onScope (PhaseContext.isTerminated c p.termination phase)).run.run r = (.ok true, r')) :
    Rests starting phase r r'
  | aimless {step next v w x r'} (begins : p.Begins c starting phase r step v)
    (decided : (p.decide c step).run.run.run v = (.ok (.ok (none, next)), w))
    (ended : (p.stepEnded c none).run.run w = (.ok (), x))
    (initialized : (p.onScope (Search.isInitialized c)).run.run x = (.ok true, r')) :
    Rests starting phase r r'
  | stuck {step next v w r'} (begins : p.Begins c starting phase r step v)
    (decided : (p.decide c step).run.run.run v = (.ok (.ok (none, next)), w))
    (ended : (p.stepEnded c none).run.run w = (.ok (), r')) : Rests starting phase r r'

/-- What was done in the steps of a phase that began in a state and has reached another one. -/
inductive Chronicle (index : ℕ) (r : p.Running) :
    List (Option (Acceptor.Made S sh)) → Score sh → PhaseContext sh → p.Running → Prop
  | begun {starting phase r'} (begun : (p.begin c index).run.run r = (.ok (starting, phase), r')) :
    Chronicle index r [] starting phase r'
  | step {history starting phase r' made next r''}
    (before : Chronicle index r history starting phase r')
    (completes : p.Completes c starting phase r' made next r'') :
    Chronicle index r (history ++ [made]) starting next r''

variable {p c} {starting : Score sh} {phase next : PhaseContext sh} {r r' : p.Running}
variable {step : StepContext sh} {α : Type}

/-- A round that comes to an end completes a step or does not. -/
theorem completes_or_rests {result : Option (PhaseContext sh)}
    (ran : (p.round c starting phase).run.run.run r = (.ok (.ok result), r')) :
    (∃ made next, result = some next ∧ p.Completes c starting phase r made next r') ∨
      result = none ∧ p.Rests c starting phase r r' := by
  obtain ⟨stop, u, looked, ran⟩ := exists_of_lift_bind ran
  cases stop with
  | true =>
    cases ran
    exact .inr ⟨rfl, .stopped looked⟩
  | false =>
    obtain ⟨step, v, begun, ran⟩ := exists_of_lift_bind ran
    obtain ⟨⟨_ | ⟨m, score⟩, last⟩, w, decided, ran⟩ := exists_of_try_bind ran
    · dsimp only at ran
      split at ran
      · obtain ⟨_, x, ended, ran⟩ := exists_of_lift_bind ran
        obtain ⟨initialized, y, known, ran⟩ := exists_of_lift_bind ran
        cases initialized with
        | true =>
          cases ran
          exact .inr ⟨rfl, .aimless ⟨u, looked, begun⟩ decided ended known⟩
        | false =>
          obtain ⟨_, _, -, ran⟩ := exists_of_lift_bind ran
          cases ran
      · rename_i tried
        split at ran
        · obtain ⟨_, x, ended, ran⟩ := exists_of_lift_bind ran
          cases ran
          exact .inr ⟨rfl, .stuck ⟨u, looked, begun⟩ decided ended⟩
        · rename_i waits
          obtain ⟨phase', w', skipped, ran⟩ := exists_of_lift_bind ran
          cases ran
          have waits := Bool.eq_false_iff.2 waits
          exact .inl ⟨none, _, rfl, .skipped ⟨u, looked, begun⟩ decided tried waits skipped⟩
    · obtain ⟨phase', w', made, ran⟩ := exists_of_try_bind ran
      cases ran
      obtain ⟨undo, w'', applied, -⟩ := exists_of_try_bind made
      exact .inl ⟨_, _, rfl, .made ⟨u, looked, begun⟩ decided applied made⟩

theorem exists_completes
    (ran : (p.round c starting phase).run.run.run r = (.ok (.ok (some next)), r')) :
    ∃ made, p.Completes c starting phase r made next r' := by
  obtain ⟨made, _, ⟨⟩, completes⟩ | ⟨⟨⟩, -⟩ := completes_or_rests ran
  exact ⟨made, completes⟩

theorem rests_of_round (ran : (p.round c starting phase).run.run.run r = (.ok (.ok none), r')) :
    p.Rests c starting phase r r' := by
  obtain ⟨_, _, ⟨⟩, -⟩ | ⟨-, rests⟩ := completes_or_rests ran
  exact rests

theorem Completes.round_eq {made : Option (Acceptor.Made S sh)}
    (done : p.Completes c starting phase r made next r') :
    (p.round c starting phase).run.run.run r = (.ok (.ok (some next)), r') := by
  cases done with
  | made begins decided applied made =>
    obtain ⟨u, looked, begun⟩ := begins
    rw [round, perform_bind, looked]
    dsimp only
    rw [if_neg Bool.false_ne_true, perform_bind, begun]
    dsimp only
    rw [try_bind, decided]
    dsimp only
    rw [try_bind, made]
    rfl
  | skipped begins decided tried waits skipped =>
    obtain ⟨u, looked, begun⟩ := begins
    rw [round, perform_bind, looked]
    dsimp only
    rw [if_neg Bool.false_ne_true, perform_bind, begun]
    dsimp only
    rw [try_bind, decided]
    dsimp only
    rw [if_neg tried, if_neg (Bool.eq_false_iff.1 waits), perform_bind, skipped]
    rfl

/-- The rounds of a phase that complete a step are those that the chronicle speaks of. -/
theorem round_eq_some_iff : (p.round c starting phase).run.run.run r = (.ok (.ok (some next)), r') ↔
    ∃ made, p.Completes c starting phase r made next r' :=
  ⟨exists_completes, fun h => h.elim fun _ done => done.round_eq⟩

variable (p c) in
/-- The step that begins in a state, if one does, with the state in which it is decided. -/
def opened (starting : Score sh) (phase : PhaseContext sh) (r : p.Running) :
    Option (StepContext sh × p.Running) :=
  match (p.onScope (PhaseContext.isTerminated c p.termination phase)).run.run r with
  | (.ok false, u) =>
    match (p.beginStep c phase starting).run.run u with
    | (.ok step, r') => some (step, r')
    | _ => none
  | _ => none

theorem begins_of_opened (begun : p.opened c starting phase r = some (step, r')) :
    p.Begins c starting phase r step r' := by
  rw [opened] at begun
  split at begun
  · rename_i u looked
    split at begun
    · rename_i started
      cases begun
      exact ⟨u, looked, started⟩
    · cases begun
  · cases begun

variable (p c) in
/-- What is counted after the step that is completed in a state, if one is, with the state after
it. -/
def completed (starting : Score sh) (phase : PhaseContext sh) (r : p.Running) :
    Option (PhaseContext sh × p.Running) :=
  match (p.round c starting phase).run.run.run r with
  | (.ok (.ok (some next)), r') => some (next, r')
  | _ => none

theorem exists_completes_of_completed (done : p.completed c starting phase r = some (next, r')) :
    ∃ made, p.Completes c starting phase r made next r' := by
  rw [completed] at done
  split at done
  · rename_i ran
    cases done
    exact exists_completes ran
  · cases done

theorem exists_chronicle_of_milestone {index : ℕ} {history : List (Option (Acceptor.Made S sh))}
    (chronicle : p.Chronicle c index r history starting phase r') {rounds k : ℕ}
    {a : Milestone S sh}
    (reached : (milestones (p.round c starting) Running.scope rounds phase r')[k]? = some a) :
    ∃ history' r'', p.Chronicle c index r history' starting a.1 r'' ∧ r''.scope = a.2 ∧
      history'.length = history.length + k + 1 := by
  induction rounds generalizing history phase r' k with
  | zero => cases reached
  | succ rounds ih =>
    rw [milestones] at reached
    split at reached
    · rename_i next r'' ran
      obtain ⟨made, completes⟩ := round_eq_some_iff.1 ran
      have longer := Chronicle.step chronicle completes
      have length : (history ++ [made]).length = history.length + 1 := List.length_append
      cases k with
      | zero =>
        obtain rfl := Option.some.inj reached
        exact ⟨_, r'', longer, rfl, length⟩
      | succ k =>
        obtain ⟨history', r₃, chronicle', same, length'⟩ := ih longer reached
        exact ⟨history', r₃, chronicle', same, by omega⟩
    · cases reached

/-- Every state in the trail of a phase is one that the chronicle leads to. -/
theorem exists_chronicle_of_trail {index k : ℕ} {a : Milestone S sh}
    (reached : (p.trail c index r)[k]? = some a) :
    ∃ history starting r', p.Chronicle c index r history starting a.1 r' ∧ r'.scope = a.2 ∧
      history.length = k + 1 := by
  rw [trail] at reached
  split at reached
  · rename_i starting phase r' begun
    obtain ⟨history, r'', chronicle, same, length⟩ :=
      exists_chronicle_of_milestone (.begun begun) reached
    exact ⟨history, starting, r'', chronicle, same, by simpa using length⟩
  · cases reached

/-! ## The stages of a step -/

/-- A phase begins with the score of the solution at hand. It is announced when it has taken that
up. -/
theorem exists_stages_of_begin {index : ℕ}
    (ran : (p.begin c index).run.run r = (.ok (starting, phase), r')) :
    ∃ reading u₁ u₂ u₃, (p.onScope (Search.calculate c)).run.run r = (.ok starting, u₁) ∧
      (p.onScope (Search.now c)).run.run u₁ = (.ok reading, u₂) ∧
      (p.phaseStarted c starting).run.run u₂ = (.ok (), u₃) ∧
      (p.onScope (Search.fire c (.phaseStarted index kind))).run.run u₃ = (.ok (), r') ∧
      phase = .ofStart index kind reading (some starting) := by
  obtain ⟨_, u₁, calculated, ran⟩ := exists_of_run_bind ran
  obtain ⟨reading, u₂, looked, ran⟩ := exists_of_run_bind ran
  obtain ⟨_, u₃, begun, ran⟩ := exists_of_run_bind ran
  obtain ⟨_, _, fired, ran⟩ := exists_of_run_bind ran
  cases ran
  exact ⟨reading, u₁, u₂, u₃, calculated, looked, begun, fired, rfl⟩

/-- A step begins after a look at the terminations. It goes by how far the search has come, and is
announced to those who listen before the phase takes it up. -/
theorem Begins.stages (begins : p.Begins c starting phase r step r') : ∃ u v w,
    (p.onScope (PhaseContext.isTerminated c p.termination phase)).run.run r = (.ok false, u) ∧
    (p.onScope (PhaseContext.gradient c p.termination phase)).run.run u =
      (.ok step.gradient, v) ∧
    (p.onScope (Search.fire c (.stepStarted phase.steps))).run.run v = (.ok (), w) ∧
    (p.stepStarted c step).run.run w = (.ok (), r') ∧
    step.index = phase.steps ∧ step.lastStep = phase.last.getD starting ∧
    ∀ best, u.scope.best = some best → step.best = best.score := by
  obtain ⟨u, looked, ran⟩ := begins
  obtain ⟨_, _, ⟨⟩, ran⟩ := exists_of_run_bind ran
  obtain ⟨gradient, v, measured, ran⟩ := exists_of_run_bind ran
  obtain ⟨_, w, fired, ran⟩ := exists_of_run_bind ran
  obtain ⟨_, _, started, ran⟩ := exists_of_run_bind ran
  cases ran
  refine ⟨u, v, w, looked, measured, fired, started, rfl, rfl, fun best there => ?_⟩
  dsimp only
  rw [there]

/-- A move is applied and its score asserted. Only then is the step counted, and what it has led to
is offered as the best solution. -/
theorem exists_stages_of_make {m : Move S} {score : Score sh}
    (ran : (p.make c phase step m score).run.run.run r = (.ok (.ok next), r')) :
    ∃ undo u₁ u₂ u₃ improved u₄ u₅,
      (p.attempt (Search.apply m)).run.run.run r = (.ok (.ok undo), u₁) ∧
      (p.attempt (Search.assertScore c score)).run.run.run u₁ = (.ok (.ok ()), u₂) ∧
      (p.onScope Search.countStep).run.run u₂ = (.ok (), u₃) ∧
      (p.onScope (Search.offer c score)).run.run u₃ = (.ok improved, u₄) ∧
      (p.stepEnded c (some ⟨step.index, m, undo, some score⟩)).run.run u₄ = (.ok (), u₅) ∧
      (p.onScope (Search.fire c (.stepEnded step.index score))).run.run u₅ = (.ok (), r') ∧
      next = phase.completeStep score improved := by
  obtain ⟨undo, u₁, applied, ran⟩ := exists_of_try_bind ran
  obtain ⟨_, u₂, asserted, ran⟩ := exists_of_try_bind ran
  obtain ⟨_, u₃, counted, ran⟩ := exists_of_run_bind (run_of_lift ran)
  obtain ⟨improved, u₄, offered, ran⟩ := exists_of_run_bind ran
  obtain ⟨_, u₅, ended, ran⟩ := exists_of_run_bind ran
  obtain ⟨_, _, fired, ran⟩ := exists_of_run_bind ran
  cases ran
  exact ⟨undo, u₁, u₂, u₃, improved, u₄, u₅, applied, asserted, counted, offered, ended, fired, rfl⟩

/-- A step without a move is counted all the same, with the score that it began with. -/
theorem exists_stages_of_skip (ran : (p.skip c phase step).run.run r = (.ok next, r')) :
    ∃ u₁ u₂, (p.onScope Search.countStep).run.run r = (.ok (), u₁) ∧
      (p.stepEnded c none).run.run u₁ = (.ok (), u₂) ∧
      (p.onScope (Search.fire c (.stepEnded step.index step.lastStep))).run.run u₂ = (.ok (), r') ∧
      next = phase.completeStep step.lastStep false := by
  obtain ⟨_, u₁, counted, ran⟩ := exists_of_run_bind ran
  obtain ⟨_, u₂, ended, ran⟩ := exists_of_run_bind ran
  obtain ⟨_, _, fired, ran⟩ := exists_of_run_bind ran
  cases ran
  exact ⟨u₁, u₂, counted, ended, fired, rfl⟩

/-! ## What the acceptor is told -/

variable (c) in
theorem keeps_judges_select (f : Setting S → p.moves.State → Draw M (α × p.moves.State)) :
    Keeps Running.judges (p.select c f) := keeps_select c f fun _ _ _ _ => rfl

theorem phaseStarted_ok (ran : (p.phaseStarted c starting).run.run r = (.ok (), r')) :
    r.own.acceptor.phaseStarted starting = .ok r'.own.acceptor := by
  obtain ⟨_, u, announced, ran⟩ := exists_of_run_bind ran
  obtain ⟨_, _, ⟨⟩, ran⟩ := exists_of_run_bind ran
  have same : u.own.acceptor = r.own.acceptor :=
    congrArg Prod.fst ((keeps_judges_select c _).ran announced)
  cases begun : u.own.acceptor.phaseStarted starting with
  | error e =>
    rw [begun] at ran
    cases ran
  | ok acceptor =>
    rw [begun] at ran
    cases ran
    rw [← same, begun]

/-- A phase begins with its acceptor anew, and no step is completed. -/
theorem begin_ok {index : ℕ} (ran : (p.begin c index).run.run r = (.ok (starting, phase), r')) :
    phase.steps = 0 ∧ r.own.acceptor.phaseStarted starting = .ok r'.own.acceptor := by
  obtain ⟨_, u₁, u₂, u₃, calculated, looked, begun, fired, rfl⟩ := exists_stages_of_begin ran
  have own₁ : u₁.own = r.own := (keeps_own_onScope _).ran calculated
  have own₂ : u₂.own = u₁.own := (keeps_own_onScope _).ran looked
  have own₃ : r'.own = u₃.own := (keeps_own_onScope _).ran fired
  refine ⟨rfl, ?_⟩
  rw [own₃, ← own₁, ← own₂]
  exact phaseStarted_ok begun

/-- A step is numbered by the steps completed before. The acceptor is told of its beginning, and the
forager holds nothing. -/
theorem Begins.ok (begins : p.Begins c starting phase r step r') :
    step.index = phase.steps ∧ (∀ best, r.scope.best = some best → step.best = best.score) ∧
      r'.own.acceptor = r.own.acceptor.stepStarted step ∧ r'.own.forager.best = none := by
  obtain ⟨u, u₁, u₂, looked, measured, fired, started, index, -, known⟩ := begins.stages
  obtain ⟨_, u₃, announced, set⟩ := exists_of_run_bind started
  cases set
  have own : u.own = r.own := (keeps_own_onScope _).ran looked
  have own₁ : u₁.own = u.own := (keeps_own_onScope _).ran measured
  have own₂ : u₂.own = u₁.own := (keeps_own_onScope _).ran fired
  have judges : u₃.own.acceptor = u₂.own.acceptor :=
    congrArg Prod.fst ((keeps_judges_select c _).ran announced)
  have best : u.scope.best = r.scope.best :=
    (keeps_scope_onScope ((Search.Peeks.phaseIsTerminated c _ phase).keeps
      fun _ _ => rfl)).ran looked
  refine ⟨index, fun known' there => known known' (best.trans there), ?_, rfl⟩
  dsimp only
  rw [judges, own₂, own₁, own]

/-! ## What the acceptor is asked -/

variable (p c) in
/-- While a step decides what to do, the acceptor stays what it was when the step began. -/
theorem keeps_acceptor_decide (step : StepContext sh) :
    TryKeeps (fun r => r.own.acceptor) (p.decide c step) :=
  (p.keeps_record_decide c step).map Prod.fst

/-- An acceptor has accepted a move in a step that began with the given best score. -/
def Passed (a : Acceptor S sh) (best : Score sh) (m : Move S) (score : Score sh) : Prop :=
  ∃ step g g', step.best = best ∧ a.accepts m score step g = .ok (true, g')

/-- The acceptor has accepted what the forager holds. -/
def Held (a : Acceptor S sh) (best : Score sh) (r : p.Running) : Prop :=
  r.own.acceptor = a ∧ ∀ m score, r.own.forager.best = some (m, score) → Passed a best m score

variable {a : Acceptor S sh} {best : Score sh} {m : Move S} {score : Score sh}

theorem Held.of_judges (held : Held a best r) (same : r'.judges = r.judges) : Held a best r' := by
  obtain ⟨acceptor, forager⟩ := Prod.mk.inj same
  exact ⟨acceptor.trans held.1, fun m score there => held.2 m score (forager ▸ there)⟩

theorem Held.accept {accepted : Bool} (held : Held a best r)
    (ran : (p.accept m score step).run.run r = (.ok accepted, r')) (same : step.best = best) :
    Held a best r' ∧ (accepted = true → Passed a best m score) := by
  have judges : r'.judges = r.judges := (keeps_accept m score step fun _ _ => rfl).ran ran
  refine ⟨held.of_judges judges, fun yes => ?_⟩
  subst yes
  rw [run_accept, held.1] at ran
  rcases asked : a.accepts m score step r.scope.generator with _ | ⟨yes, g'⟩
  · rw [asked] at ran
    cases ran
  · rw [asked] at ran
    cases ran
    exact ⟨step, _, g', same, asked⟩

theorem Held.forage {enough : Bool} (held : Held a best r) (passed : Passed a best m score)
    (ran : (p.forage m score step).run.run r = (.ok enough, r')) : Held a best r' := by
  obtain ⟨_, _, ⟨⟩, ran⟩ := exists_of_run_bind ran
  obtain ⟨_, _, ⟨⟩, ran⟩ := exists_of_run_bind ran
  cases ran
  refine ⟨held.1, fun m' score' there => ?_⟩
  rcases r.own.forager.best_add m score step with added | kept
  · obtain ⟨rfl, rfl⟩ := Prod.mk.inj (Option.some.inj (there.symm.trans added))
    exact passed
  · exact held.2 m' score' (kept.symm.trans there)

/-- A candidate that the forager takes was accepted. -/
theorem Held.judge {enough : Bool} {last : StepContext sh} (held : Held a best r)
    (ran : (p.judge c m step).run.run.run r = (.ok (.ok (enough, last)), r'))
    (same : step.best = best) : Held a best r' ∧ last.best = best := by
  obtain ⟨_, _, ⟨⟩, ran⟩ := exists_of_lift_bind ran
  split at ran
  · obtain ⟨score, v, tried, ran⟩ := exists_of_try_bind ran
    replace held := held.of_judges ((keeps_scoped_attempt _ fun _ _ => rfl).ran tried)
    obtain ⟨accepted, w, asked, ran⟩ := exists_of_lift_bind ran
    obtain ⟨held, passed⟩ := held.accept asked same
    split at ran
    · rename_i accepted
      obtain ⟨enough, x, foraged, ran⟩ := exists_of_lift_bind ran
      cases ran
      exact ⟨held.forage (passed accepted) foraged, same⟩
    · cases ran
      exact ⟨held, same⟩
  · cases ran
    exact ⟨held, same⟩

theorem Held.tried {rounds : ℕ} {left : Option ℕ} {last : StepContext sh} (held : Held a best r)
    (tried : p.Tried c rounds left step r last r') (same : step.best = best) :
    Held a best r' := by
  induction tried with
  | full => exact held
  | ended _ found => exact held.of_judges ((keeps_judges_select c _).ran found)
  | enough _ found judged =>
    exact ((held.of_judges ((keeps_judges_select c _).ran found)).judge judged same).1
  | further _ found judged _ ih =>
    obtain ⟨held, same⟩ :=
      (held.of_judges ((keeps_judges_select c _).ran found)).judge judged same
    exact ih held same

/-- The picked move was accepted in the step that began with nothing in the forager. -/
theorem passed_of_decide {last : StepContext sh} (none : r.own.forager.best = none)
    (ran : (p.decide c step).run.run.run r = (.ok (.ok (some (m, score), last)), r')) :
    Passed r.own.acceptor step.best m score := by
  obtain ⟨budget, u₁, u₂, u₃, known, restarted, tried, taken⟩ := exists_stages_of_decide ran
  have held : Held r.own.acceptor step.best r := by
    refine ⟨rfl, fun m score there => ?_⟩
    rw [none] at there
    cases there
  replace held := held.of_judges (keeps_budget.ran known)
  replace held := held.of_judges ((keeps_judges_select c _).ran restarted)
  replace held := held.tried (tried_of_tryCandidates tried) rfl
  obtain ⟨_, _, ⟨⟩, taken⟩ := exists_of_run_bind taken
  obtain ⟨_, _, ⟨⟩, taken⟩ := exists_of_run_bind taken
  obtain ⟨there, -⟩ := Prod.mk.inj taken
  exact held.2 m score (Except.ok.inj there)

/-! ## What a completed step leaves -/

theorem stepEnded_ok {made : Acceptor.Made S sh}
    (ran : (p.stepEnded c (some made)).run.run r = (.ok (), r')) :
    r'.own.acceptor = r.own.acceptor.stepEnded made := by
  obtain ⟨_, _, ⟨⟩, announced⟩ := exists_of_run_bind ran
  exact congrArg Prod.fst ((keeps_judges_select c _).ran announced)

/-- The acceptor is told of the move that is made. -/
theorem make_ok {undo : Move S} {u : p.Running}
    (applied : (p.attempt (Search.apply m)).run.run.run r = (.ok (.ok undo), u))
    (ran : (p.make c phase step m score).run.run.run r = (.ok (.ok next), r')) :
    next.steps = phase.steps + 1 ∧ r'.own.acceptor = r.own.acceptor.stepEnded
      { index := step.index, move := m, undo, score := some score } := by
  obtain ⟨undo', u', u₁, u₂, improved, u₃, u₄, applied', asserted, counted, offered, ended, fired,
    rfl⟩ := exists_stages_of_make ran
  rw [applied] at applied'
  cases applied'
  have own : u.own = r.own := (keeps_scoped_attempt _ fun _ _ => rfl).ran applied
  have own₁ : u₁.own = u.own := (keeps_scoped_attempt _ fun _ _ => rfl).ran asserted
  have own₂ : u₂.own = u₁.own := (keeps_own_onScope _).ran counted
  have own₃ : u₃.own = u₂.own := (keeps_own_onScope _).ran offered
  have own₄ : r'.own = u₄.own := (keeps_own_onScope _).ran fired
  refine ⟨rfl, ?_⟩
  rw [own₄, stepEnded_ok ended, own₃, own₂, own₁, own]

/-- A step without a move leaves the acceptor as it is. -/
theorem skip_ok (ran : (p.skip c phase step).run.run r = (.ok next, r')) :
    next.steps = phase.steps + 1 ∧ r'.own.acceptor = r.own.acceptor := by
  obtain ⟨u₁, u₂, counted, ended, fired, rfl⟩ := exists_stages_of_skip ran
  have own₁ : u₁.own = r.own := (keeps_own_onScope _).ran counted
  have announced : (p.announce c .stepEnded).run.run u₁ = (.ok (), u₂) := ended
  have acceptor : u₂.own.acceptor = u₁.own.acceptor :=
    congrArg Prod.fst ((keeps_judges_select c _).ran announced)
  have own₃ : r'.own = u₂.own := (keeps_own_onScope _).ran fired
  refine ⟨rfl, ?_⟩
  rw [own₃, acceptor, own₁]

end PlanSearch.LocalSearch
