import PlanSearch.Proofs.Search.Chronicle

/-!
# Limits of steps

A termination that counts steps puts a limit to them, alone or as one of several that each suffice.
The search as a whole counts the steps of all its phases; a phase counts its own. Nothing changes
either count but a step that is completed.
-/

namespace PlanSearch

variable {M S σ : Type} {sh : Shape}

/-! ## Terminations that count steps -/

namespace Termination

/-- The termination stops at the latest when so many steps are completed: it counts them, or one of
those that suffice does. -/
inductive StopsBy (limit : ℕ) : Termination sh → Prop
  | stepCount : StopsBy limit (.stepCount limit)
  | anyOf {children : List (Termination sh)} {t : Termination sh} (member : t ∈ children)
    (stops : StopsBy limit t) : StopsBy limit (.anyOf children)

variable {t : Termination sh} {p : Progress sh} {limit : ℕ}

theorem isAnyTerminated_of_mem {children : List (Termination sh)} (member : t ∈ children)
    (stops : t.isTerminated p = true) : isAnyTerminated p children = true := by
  induction children with
  | nil => cases member
  | cons first rest ih =>
    rw [isAnyTerminated, Bool.or_eq_true]
    rcases List.mem_cons.1 member with rfl | member
    · exact .inl stops
    · exact .inr (ih member)

theorem StopsBy.isTerminated (stops : t.StopsBy limit) (reached : limit ≤ p.steps) :
    t.isTerminated p = true := by
  induction stops with
  | stepCount => exact decide_eq_true reached
  | anyOf member _ ih => exact isAnyTerminated_of_mem member ih

/-- A search that goes on has not reached the limit. -/
theorem StopsBy.steps_lt (stops : t.StopsBy limit) (goesOn : t.isTerminated p = false) :
    p.steps < limit := by
  refine Nat.lt_of_not_le fun reached => ?_
  rw [stops.isTerminated reached] at goesOn
  cases goesOn

end Termination

/-! ## Searches that go on -/

namespace Search

variable {c : Conditions S sh} {s s' : Scope S sh} {limit : ℕ} {t : Termination sh}

/-- A search as a whole that goes on has not reached its limit. -/
theorem steps_lt_of_isTerminated (whole : c.termination = some t) (stops : t.StopsBy limit)
    (goesOn : (isTerminated c).run.run s = (.ok false, s')) : s.steps < limit := by
  unfold isTerminated at goesOn
  obtain ⟨_, _, ⟨⟩, goesOn⟩ := exists_of_run_bind goesOn
  split at goesOn
  · cases goesOn
  · rw [whole] at goesOn
    obtain ⟨progress, s₁, looked, goesOn⟩ := exists_of_run_bind goesOn
    obtain ⟨elapsed, s₂, read, looked⟩ := exists_of_run_bind looked
    obtain ⟨_, _, ⟨⟩, looked⟩ := exists_of_run_bind looked
    cases looked
    obtain ⟨same, -⟩ := Prod.mk.inj goesOn
    rw [← (keeps_steps_peek (Peeks.elapsed c)).ran read]
    exact stops.steps_lt (Except.ok.inj same)

end Search

namespace PhaseContext

variable {c : Conditions S sh} {own : Option (Termination sh)} {phase : PhaseContext sh}
variable {s s' : Scope S sh} {limit : ℕ} {t : Termination sh}

/-- A phase that goes on has not reached its own limit, and neither has the search as a whole. -/
theorem of_goesOn (goesOn : (isTerminated c own phase).run.run s = (.ok false, s')) :
    (∀ t limit, c.termination = some t → t.StopsBy limit → s.steps < limit) ∧
      ∀ t limit, own = some t → t.StopsBy limit → phase.steps < limit := by
  obtain ⟨stop, s₁, looked, goesOn⟩ := exists_of_run_bind goesOn
  cases stop with
  | true => cases goesOn
  | false =>
    refine ⟨fun t limit whole stops => Search.steps_lt_of_isTerminated whole stops looked, ?_⟩
    rintro t limit rfl stops
    obtain ⟨progress, s₂, looked', goesOn⟩ := exists_of_run_bind goesOn
    obtain ⟨reading, s₃, read, looked'⟩ := exists_of_run_bind looked'
    obtain ⟨_, _, ⟨⟩, looked'⟩ := exists_of_run_bind looked'
    cases looked'
    obtain ⟨same, -⟩ := Prod.mk.inj goesOn
    exact stops.steps_lt (Except.ok.inj same)

end PhaseContext

/-! ## Rounds -/

/-- A round that completes a step is not begun beyond the limits, and it is counted once in the
phase and once in the search as a whole. Other rounds are not counted. -/
structure CountsRounds (c : Conditions S sh) (own : Option (Termination sh)) (view : σ → Scope S sh)
    (round : PhaseContext sh →
      ExceptT PlanError (ExceptT Fault (StateM σ)) (Option (PhaseContext sh))) : Prop where
  whole : ∀ phase s next s', (round phase).run.run.run s = (.ok (.ok (some next)), s') →
    (∀ t limit, c.termination = some t → t.StopsBy limit → (view s).steps < limit) ∧
      (view s').steps = (view s).steps + 1
  phase : ∀ phase s next s', (round phase).run.run.run s = (.ok (.ok (some next)), s') →
    (∀ t limit, own = some t → t.StopsBy limit → phase.steps < limit) ∧
      next.steps = phase.steps + 1
  ends : ∀ phase s s', (round phase).run.run.run s = (.ok (.ok none), s') →
    (view s').steps = (view s).steps

section Repeat

variable {view : σ → Scope S sh} {round : PhaseContext sh →
  ExceptT PlanError (ExceptT Fault (StateM σ)) (Option (PhaseContext sh))}

variable {c : Conditions S sh} {own : Option (Termination sh)} {t : Termination sh} {limit : ℕ}

namespace CountsRounds

variable (counts : CountsRounds c own view round)
include counts

end CountsRounds

end Repeat

/-! ## Construction -/

namespace Construction

variable (c : Conditions S sh) (p : Construction S sh) {s s' : Scope S sh}

theorem keeps_steps_bestMove (last : Score sh) (moves : List (Move S))
    (winner : Option (Move S × Score sh)) : TryKeeps Scope.steps (bestMove c last moves winner) := by
  induction moves generalizing winner with
  | nil => exact .pure winner
  | cons m rest ih =>
    refine TryKeeps.get_bind fun s => ?_
    split
    · exact TryKeeps.bind (Search.keeps_steps_evaluate c m last) fun score => ih _
    · exact ih winner

variable {c}

theorem steps_complete {phase next : PhaseContext sh} {score : Score sh}
    (ran : (complete c phase score).run.run s = (.ok next, s')) :
    next.steps = phase.steps + 1 ∧ s'.steps = s.steps + 1 := by
  obtain ⟨_, _, ⟨⟩, ran⟩ := exists_of_run_bind ran
  obtain ⟨improved, s₂, offered, ran⟩ := exists_of_run_bind ran
  obtain ⟨_, s₃, fired, ran⟩ := exists_of_run_bind ran
  cases ran
  refine ⟨rfl, ?_⟩
  rw [(Search.keeps_steps_fire c _).ran fired, (Search.keeps_steps_offer c _).ran offered]

theorem steps_step {phase next : PhaseContext sh} {placement : Placement S} {last : Score sh}
    (ran : (step c phase placement last).run.run.run s = (.ok (.ok next), s')) :
    next.steps = phase.steps + 1 ∧ s'.steps = s.steps + 1 := by
  rw [step_eq] at ran
  obtain ⟨_, s₁, fired, ran⟩ := exists_of_lift_bind ran
  obtain ⟨winner, s₂, tried, ran⟩ := exists_of_try_bind ran
  cases winner with
  | none => cases ran
  | some winner =>
    obtain ⟨undo, s₃, applied, ran⟩ := exists_of_try_bind ran
    obtain ⟨_, s₄, asserted, ran⟩ := exists_of_try_bind ran
    obtain ⟨count, total⟩ := steps_complete (run_of_lift ran)
    refine ⟨count, ?_⟩
    rw [total, (Search.keeps_steps_assertScore c _).ran asserted,
      (Search.keeps_steps_apply _).ran applied, (keeps_steps_bestMove c _ _ _).ran tried,
      (Search.keeps_steps_fire c _).ran fired]

variable (c) in
theorem countsRounds (starting : Score sh) :
    CountsRounds c p.termination id (p.round c starting) := by
  have completes (phase s next s')
      (ran : (p.round c starting phase).run.run.run s = (.ok (.ok (some next)), s')) :
      ∃ s₁, (PhaseContext.isTerminated c p.termination phase).run.run s = (.ok false, s₁) ∧
        next.steps = phase.steps + 1 ∧ s'.steps = s.steps + 1 := by
    obtain ⟨stop, s₁, looked, ran⟩ := exists_of_lift_bind ran
    cases stop with
    | true => cases ran
    | false =>
      obtain ⟨_, _, ⟨⟩, ran⟩ := exists_of_try_bind ran
      split at ran
      · cases ran
      · obtain ⟨_, s₂, stepped, ran⟩ := exists_of_try_bind ran
        cases ran
        have same := (Search.keeps_steps_peek (.phaseIsTerminated c p.termination phase)).ran looked
        rw [← same]
        exact ⟨s₁, looked, steps_step stepped⟩
  refine ⟨fun phase s next s' ran => ?_, fun phase s next s' ran => ?_, fun phase s s' ran => ?_⟩
  · obtain ⟨s₁, goesOn, -, total⟩ := completes phase s next s' ran
    exact ⟨(PhaseContext.of_goesOn goesOn).1, total⟩
  · obtain ⟨s₁, goesOn, count, -⟩ := completes phase s next s' ran
    exact ⟨(PhaseContext.of_goesOn goesOn).2, count⟩
  · obtain ⟨stop, s₁, looked, ran⟩ := exists_of_lift_bind ran
    have same := (Search.keeps_steps_peek (.phaseIsTerminated c p.termination phase)).ran looked
    cases stop with
    | true =>
      cases ran
      exact same
    | false =>
      obtain ⟨_, _, ⟨⟩, ran⟩ := exists_of_try_bind ran
      split at ran
      · cases ran
        exact same
      · obtain ⟨_, _, -, ran⟩ := exists_of_try_bind ran
        cases ran

end Construction

/-! ## Local search -/

namespace LocalSearch

variable {p : LocalSearch M S sh} (c : Conditions S sh) {r r' : p.Running}

/-- The steps completed in the search as a whole. -/
def Running.steps (r : p.Running) : ℕ := r.scope.steps

theorem keeps_steps_onScope {α : Type} {f : Search S sh α} (keeps : Keeps Scope.steps f) :
    Keeps Running.steps (p.onScope f) := keeps_scope_onScope keeps

theorem keeps_steps_select {α : Type}
    (f : Setting S → p.moves.State → Draw M (α × p.moves.State)) :
    Keeps Running.steps (p.select c f) := keeps_select c f fun _ _ _ _ => rfl

theorem keeps_steps_modifyOwn (u : p.State → p.State) : Keeps Running.steps (p.modifyOwn u) :=
  keeps_modifyOwn fun _ => rfl

variable (p)

theorem keeps_steps_stepStarted (step : StepContext sh) :
    Keeps Running.steps (p.stepStarted c step) :=
  (keeps_steps_select c _).bind fun _ => keeps_steps_modifyOwn _

theorem keeps_steps_stepEnded (made : Option (Acceptor.Made S sh)) :
    Keeps Running.steps (p.stepEnded c made) := by
  unfold stepEnded
  cases made with
  | none => exact keeps_steps_select c _
  | some made => exact (keeps_steps_modifyOwn _).bind fun _ => keeps_steps_select c _

theorem keeps_steps_beginStep (phase : PhaseContext sh) (starting : Score sh) :
    Keeps Running.steps (p.beginStep c phase starting) := by
  refine .get_bind fun r => ?_
  have looked := Search.keeps_steps_peek (.phaseGradient c p.termination phase)
  refine (keeps_steps_onScope looked).bind fun gradient => ?_
  refine (keeps_steps_onScope (Search.keeps_steps_fire c _)).bind fun _ => ?_
  exact (p.keeps_steps_stepStarted c _).bind fun _ => .pure _

variable {p c} {phase next : PhaseContext sh} {step : StepContext sh} {starting : Score sh}

theorem steps_make {m : Move S} {score : Score sh}
    (ran : (p.make c phase step m score).run.run.run r = (.ok (.ok next), r')) :
    next.steps = phase.steps + 1 ∧ r'.steps = r.steps + 1 := by
  obtain ⟨undo, u₁, u₂, u₃, improved, u₄, u₅, applied, asserted, counted, offered, ended, fired,
    rfl⟩ := exists_stages_of_make ran
  have grown : u₃.steps = u₂.steps + 1 := by
    cases counted
    rfl
  refine ⟨rfl, ?_⟩
  rw [(keeps_steps_onScope (Search.keeps_steps_fire c _)).ran fired,
    (p.keeps_steps_stepEnded c _).ran ended,
    (keeps_steps_onScope (Search.keeps_steps_offer c _)).ran offered, grown,
    (keeps_steps_onScope (Search.keeps_steps_assertScore c _)).ran asserted,
    (keeps_steps_onScope (Search.keeps_steps_apply m)).ran applied]

theorem steps_skip (ran : (p.skip c phase step).run.run r = (.ok next, r')) :
    next.steps = phase.steps + 1 ∧ r'.steps = r.steps + 1 := by
  obtain ⟨u₁, u₂, counted, ended, fired, rfl⟩ := exists_stages_of_skip ran
  cases counted
  refine ⟨rfl, ?_⟩
  rw [(keeps_steps_onScope (Search.keeps_steps_fire c _)).ran fired,
    (p.keeps_steps_stepEnded c _).ran ended]
  rfl

/-- The beginning of a step is not counted, and neither is what it decides. -/
theorem Begins.steps (begins : p.Begins c starting phase r step r') : r'.steps = r.steps := by
  obtain ⟨u, looked, begun⟩ := begins
  have peeked := Search.keeps_steps_peek (.phaseIsTerminated c p.termination phase)
  rw [(p.keeps_steps_beginStep c phase starting).ran begun,
    (keeps_steps_onScope peeked).ran looked]

theorem steps_decide {result : Option (Move S × Score sh) × StepContext sh}
    (ran : (p.decide c step).run.run.run r = (.ok (.ok result), r')) : r'.steps = r.steps :=
  congrArg Prod.snd ((p.keeps_record_decide c step).ran ran)

theorem Completes.steps {made : Option (Acceptor.Made S sh)}
    (completes : p.Completes c starting phase r made next r') :
    next.steps = phase.steps + 1 ∧ r'.steps = r.steps + 1 ∧ ∃ step r₁,
      p.Begins c starting phase r step r₁ := by
  cases completes with
  | made begins decided _ made =>
    obtain ⟨count, total⟩ := steps_make made
    exact ⟨count, by rw [total, steps_decide decided, begins.steps], _, _, begins⟩
  | skipped begins decided _ _ skipped =>
    obtain ⟨count, total⟩ := steps_skip skipped
    exact ⟨count, by rw [total, steps_decide decided, begins.steps], _, _, begins⟩

theorem Rests.steps (rests : p.Rests c starting phase r r') : r'.steps = r.steps := by
  cases rests with
  | stopped looked =>
    exact (keeps_steps_onScope
      (Search.keeps_steps_peek (.phaseIsTerminated c p.termination phase))).ran looked
  | aimless begins decided ended initialized =>
    rw [(keeps_steps_onScope (Search.keeps_steps_isInitialized c)).ran initialized,
      (p.keeps_steps_stepEnded c none).ran ended, steps_decide decided, begins.steps]
  | stuck begins decided ended =>
    rw [(p.keeps_steps_stepEnded c none).ran ended, steps_decide decided, begins.steps]

variable (p c) in
theorem countsRounds (starting : Score sh) :
    CountsRounds c p.termination Running.scope (p.round c starting) := by
  refine ⟨fun phase r next r' ran => ?_, fun phase r next r' ran => ?_, fun phase r r' ran => ?_⟩
  · obtain ⟨made, completes⟩ := round_eq_some_iff.1 ran
    obtain ⟨-, total, step, r₁, u, looked, -⟩ := completes.steps
    obtain ⟨goesOn, -⟩ := Prod.mk.inj looked
    exact ⟨(PhaseContext.of_goesOn (Prod.ext goesOn rfl)).1, total⟩
  · obtain ⟨made, completes⟩ := round_eq_some_iff.1 ran
    obtain ⟨count, -, step, r₁, u, looked, -⟩ := completes.steps
    obtain ⟨goesOn, -⟩ := Prod.mk.inj looked
    exact ⟨(PhaseContext.of_goesOn (Prod.ext goesOn rfl)).2, count⟩
  · exact (rests_of_round ran).steps

end LocalSearch

/-! ## Phases and solvers -/

namespace Phase

/-- The termination of the phase alone. -/
def termination : Phase M S sh → Option (Termination sh)
  | construction p => p.termination
  | localSearch p => p.termination

variable {c : Conditions S sh} {t : Termination sh} {limit : ℕ}

end Phase

namespace Solver

variable {c : Conditions S sh} {t : Termination sh} {limit : ℕ}

end Solver

end PlanSearch
