import PlanSearch.Proofs.Search.Chronicle
import PlanSearch.Proofs.Search.Idle
import PlanSearch.Proofs.Search.Recent

/-!
# What a completed step books

A search counts its steps twice, in the phase and as a whole, and notes in both places the step in
which the best solution last changed. A completed step is booked at once everywhere: it is counted,
the working solution becomes the best one if it beats that, and the log tells of both. Between the
bookings the search is idle.
-/

namespace PlanSearch

variable {M S : Type} {sh : Shape} {c : Conditions S sh}

/-- The state after an announcement. -/
def Scope.told (c : Conditions S sh) (e : Event S sh) (s : Scope S sh) : Scope S sh :=
  { s with events := s.events.push e, interrupted := s.interrupted || c.interrupts e }

theorem Search.run_fire (e : Event S sh) (s : Scope S sh) :
    (Search.fire c e).run.run s = (.ok (), s.told c e) := rfl

/-- The announcement of a solution as the best one. -/
def Best.announced (best : Best S sh) : Event S sh := .bestChanged best.solution best.score

/-- What is different after a completed step: the step has the given score, and the best solution
has become the given one, if any. -/
structure Booked (c : Conditions S sh) (phase next : PhaseContext sh) (x : Score sh)
    (better : Option (Best S sh)) (s t : Scope S sh) : Prop where
  phase_eq : next = phase.completeStep x better.isSome
  steps : t.steps = s.steps + 1
  bestStep : t.bestStep = if better.isSome then t.steps else s.bestStep
  best : t.best = better.or s.best
  beats : ∀ b ∈ better, Search.beats x b.isInitialized s.best = true ∧
    ∃ w, b = Search.bestOf c x w
  starting : ∀ y, s.starting = some y → t.starting = some y
  startedAt : t.startedAt = s.startedAt
  readings : s.readings ≤ t.readings
  events : t.events.toList = s.events.toList ++ .stepStarted phase.steps ::
    (better.map Best.announced).toList ++ [.stepEnded phase.steps x]

variable {phase next : PhaseContext sh} {x : Score sh} {s t : Scope S sh}

/-- A step in which nothing is offered. -/
theorem booked_skipped {s₁ s₂ s₃ s₄ : Scope S sh} (opens : s.Idles s₁)
    (began : s₂ = s₁.told c (.stepStarted phase.steps)) (decides : s₂.Idles s₃)
    (closes : Scope.Idles { s₃ with steps := s₃.steps + 1 } s₄)
    (ended : t = s₄.told c (.stepEnded phase.steps x)) :
    Booked c phase (phase.completeStep x false) x none s t := by
  obtain ⟨d₁, g₁, n₁, more₁, rfl⟩ := opens
  subst began
  obtain ⟨d₃, g₃, n₃, more₃, rfl⟩ := decides
  obtain ⟨d₄, g₄, n₄, more₄, rfl⟩ := closes
  subst ended
  refine ⟨rfl, rfl, rfl, rfl, nofun, fun _ => id, rfl, ?_, ?_⟩
  · exact (more₁.trans more₃).trans more₄
  · simp [Scope.told]

/-- A step in which the working solution is offered. -/
theorem booked_offered {s₁ s₂ s₃ s₄ s₅ : Scope S sh} {improved : Bool} (opens : s.Idles s₁)
    (began : s₂ = s₁.told c (.stepStarted phase.steps)) (decides : s₂.Idles s₃)
    (offered : (Search.offer c x).run.run { s₃ with steps := s₃.steps + 1 } = (.ok improved, s₄))
    (closes : s₄.Idles s₅) (ended : t = s₅.told c (.stepEnded phase.steps x)) :
    ∃ better, Booked c phase (phase.completeStep x improved) x better s t := by
  obtain ⟨d₁, g₁, n₁, more₁, rfl⟩ := opens
  subst began
  obtain ⟨d₃, g₃, n₃, more₃, rfl⟩ := decides
  rw [Search.run_offer] at offered
  have started (y : Score sh) (b : Best S sh) (known : s.starting = some y) :
      (if b.isInitialized && s.starting.isNone then some b.score else s.starting) = some y := by
    rw [known, Option.isNone_some, Bool.and_false]
    exact if_neg Bool.false_ne_true
  dsimp only at offered
  split at offered
  · rename_i beats
    obtain ⟨improves, rfl⟩ := Prod.mk.inj offered
    obtain rfl := Except.ok.inj improves
    obtain ⟨d₅, g₅, n₅, more₅, rfl⟩ := closes
    subst ended
    refine ⟨some _, rfl, rfl, rfl, rfl, ?_, fun y => started y _, rfl, ?_, ?_⟩
    · rintro _ ⟨⟩
      exact ⟨beats, _, rfl⟩
    · exact (more₁.trans more₃).trans more₅
    · simp [Scope.told, Search.crowned, Search.noted, Best.announced]
  · obtain ⟨improves, rfl⟩ := Prod.mk.inj offered
    obtain rfl := Except.ok.inj improves
    obtain ⟨d₅, g₅, n₅, more₅, rfl⟩ := closes
    subst ended
    refine ⟨none, rfl, rfl, rfl, rfl, nofun, fun y => started y _, rfl, ?_, ?_⟩
    · exact (more₁.trans more₃).trans more₅
    · simp [Scope.told, Search.noted]

/-- Every round that completes a step books it. -/
def RoundBooks {σ : Type} (c : Conditions S sh) (view : σ → Scope S sh)
    (round : PhaseContext sh →
      ExceptT PlanError (ExceptT Fault (StateM σ)) (Option (PhaseContext sh))) : Prop :=
  ∀ phase s next t, (round phase).run.run.run s = (.ok (.ok (some next)), t) →
    ∃ x better, Booked c phase next x better (view s) (view t)

/-! ## Construction -/

namespace Construction

/-- A round that completes a step does so for an entity that has no value. -/
theorem exists_step_of_round {p : Construction S sh} {starting : Score sh}
    (ran : (p.round c starting phase).run.run.run s = (.ok (.ok (some next)), t)) :
    ∃ u placement, (phase.isTerminated c p.termination).run.run s = (.ok false, u) ∧
      p.placer.next u.director.solution = some placement ∧
      (step c phase placement (phase.last.getD starting)).run.run.run u = (.ok (.ok next), t) := by
  obtain ⟨stop, u, looked, ran⟩ := exists_of_lift_bind ran
  cases stop with
  | true => cases ran
  | false =>
    obtain ⟨_, _, ⟨⟩, ran⟩ := exists_of_try_bind ran
    split at ran
    · cases ran
    · rename_i placement found
      obtain ⟨next', _, stepped, ran⟩ := exists_of_try_bind ran
      cases ran
      exact ⟨u, placement, looked, found, stepped⟩

theorem complete_ok (ran : (complete c phase x).run.run s = (.ok next, t)) :
    ∃ improved u, next = phase.completeStep x improved ∧
      (Search.offer c x).run.run { s with steps := s.steps + 1 } = (.ok improved, u) ∧
      t = u.told c (.stepEnded phase.steps x) := by
  obtain ⟨_, _, ⟨⟩, ran⟩ := exists_of_run_bind ran
  obtain ⟨improved, u, offered, ran⟩ := exists_of_run_bind ran
  obtain ⟨_, _, ⟨⟩, ran⟩ := exists_of_run_bind ran
  cases ran
  exact ⟨improved, u, rfl, offered, rfl⟩

theorem roundBooks (c : Conditions S sh) (p : Construction S sh) (starting : Score sh) :
    RoundBooks c id (p.round c starting) := by
  intro phase s next t ran
  obtain ⟨u, placement, looked, -, stepped⟩ := exists_step_of_round ran
  have opens : s.Idles u := (phase.idle_isTerminated c p.termination).ran looked
  rw [step_eq] at stepped
  obtain ⟨_, v, began, stepped⟩ := exists_of_lift_bind stepped
  obtain ⟨winner, w, tried, stepped⟩ := exists_of_try_bind stepped
  have tries : v.Idles w := (tryIdle_bestMove c _ _ _).ran tried
  cases winner with
  | none => cases stepped
  | some winner =>
    obtain ⟨undo, w₁, applied, stepped⟩ := exists_of_try_bind stepped
    obtain ⟨_, w₂, asserted, stepped⟩ := exists_of_try_bind stepped
    have applies : w.Idles w₁ := (Search.tryIdle_apply _).ran applied
    have asserts : w₁.Idles w₂ := (Search.tryIdle_assertScore c _).ran asserted
    obtain ⟨improved, w₄, rfl, offered, rfl⟩ := complete_ok (run_of_lift stepped)
    cases began
    have decides := trans_of Scope.Idles tries (trans_of Scope.Idles applies asserts)
    exact ⟨_, booked_offered opens rfl decides offered (refl_of Scope.Idles w₄) rfl⟩

end Construction

/-! ## Local search -/

namespace LocalSearch

variable {p : LocalSearch M S sh} {r r' : p.Running} {step : StepContext sh} {starting : Score sh}
variable {m : Move S}

/-- A step is announced when it begins. -/
theorem Begins.announces (begins : p.Begins c starting phase r step r') :
    ∃ u, r.scope.Idles u ∧
      Scope.Idles (u.told c (.stepStarted phase.steps)) r'.scope := by
  obtain ⟨u, u₁, _, looked, far, fired, started, -⟩ := begins.stages
  cases fired
  have looks : r.scope.Idles u.scope :=
    (carries_onScope (phase.idle_isTerminated c p.termination)).ran looked
  have measures : u.scope.Idles u₁.scope :=
    (carries_onScope (phase.idle_share c p.termination Float)).ran far
  have starts := (p.idle_stepStarted c _).ran started
  exact ⟨u₁.scope, trans_of Scope.Idles looks measures, starts⟩

theorem booked_of_make {s : Scope S sh} {v : p.Running}
    (began : ∃ u, s.Idles u ∧ Scope.Idles (u.told c (.stepStarted phase.steps)) v.scope)
    (index : step.index = phase.steps)
    (made : (p.make c phase step m x).run.run.run v = (.ok (.ok next), r')) :
    ∃ better, Booked c phase next x better s r'.scope := by
  obtain ⟨u, opens, begins⟩ := began
  obtain ⟨undo, w₁, w₂, _, improved, w₄, w₅, applied, asserted, counted, offered, closed, fired,
    rfl⟩ := exists_stages_of_make made
  cases counted
  cases fired
  have applies : v.scope.Idles w₁.scope := (tryCarries_attempt (Search.tryIdle_apply m)).ran applied
  have asserts : w₁.scope.Idles w₂.scope :=
    (tryCarries_attempt (Search.tryIdle_assertScore c x)).ran asserted
  have closes : w₄.scope.Idles w₅.scope := (p.idle_stepEnded c _).ran closed
  have decides := trans_of Scope.Idles begins (trans_of Scope.Idles applies asserts)
  rw [index]
  exact booked_offered opens rfl decides (scope_of_onScope offered) closes rfl

theorem booked_of_skip {s : Scope S sh} {v : p.Running}
    (began : ∃ u, s.Idles u ∧ Scope.Idles (u.told c (.stepStarted phase.steps)) v.scope)
    (index : step.index = phase.steps)
    (skipped : (p.skip c phase step).run.run v = (.ok next, r')) :
    Booked c phase next step.lastStep none s r'.scope := by
  obtain ⟨u, opens, begins⟩ := began
  obtain ⟨_, w₂, counted, closed, fired, rfl⟩ := exists_stages_of_skip skipped
  cases counted
  cases fired
  have closes := (p.idle_stepEnded c none).ran closed
  rw [index]
  exact booked_skipped opens rfl begins closes rfl

/-- A step that is completed is booked. -/
theorem Completes.booked {made : Option (Acceptor.Made S sh)}
    (completes : p.Completes c starting phase r made next r') :
    ∃ x better, Booked c phase next x better r.scope r'.scope := by
  cases completes with
  | made begins decided applied made =>
    obtain ⟨u, opens, begun⟩ := begins.announces
    have decides := (p.tryIdle_decide c _).ran decided
    have index := (index_of_decide decided).trans begins.ok.1
    exact ⟨_, booked_of_make ⟨u, opens, trans_of Scope.Idles begun decides⟩ index made⟩
  | skipped begins decided tried waits skipped =>
    obtain ⟨u, opens, begun⟩ := begins.announces
    have decides := (p.tryIdle_decide c _).ran decided
    have index := (index_of_decide decided).trans begins.ok.1
    exact ⟨_, none, booked_of_skip ⟨u, opens, trans_of Scope.Idles begun decides⟩ index skipped⟩

theorem roundBooks (c : Conditions S sh) (p : LocalSearch M S sh) (starting : Score sh) :
    RoundBooks c Running.scope (p.round c starting) := by
  intro phase r next r' ran
  obtain ⟨made, completes⟩ := exists_completes ran
  exact completes.booked

end LocalSearch

end PlanSearch
