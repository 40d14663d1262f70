import PlanSearch.Proofs.Search.Untouched

/-!
# What goes on between announcements

Most of what a search does leaves no trace in its counts, its best solution and its log: it tries
moves, draws, and reads the clock. Whatever ends it, the state that it leaves differs from the one
that it found in the director, the generator and the readings alone.
-/

namespace PlanSearch

variable {M S σ : Type} {sh : Shape} {α β : Type}

/-! ## Idle computations -/

/-- Nothing has changed but the director, the generator and the readings of the clock, of which
there are no fewer. -/
def Scope.Idles (s t : Scope S sh) : Prop :=
  ∃ director generator readings, s.readings ≤ readings ∧ t = { s with director, generator, readings }

namespace Scope.Idles

variable {s t : Scope S sh}

instance : IsPreorder (Scope S sh) Scope.Idles where
  refl s := ⟨s.director, s.generator, s.readings, le_rfl, rfl⟩
  trans s t u := by
    rintro ⟨_, _, n, more, rfl⟩ ⟨d, g, n', more', rfl⟩
    exact ⟨d, g, n', more.trans more', rfl⟩

theorem readings (idles : s.Idles t) : s.readings ≤ t.readings := by
  obtain ⟨_, _, _, more, rfl⟩ := idles
  exact more

theorem steps (idles : s.Idles t) : t.steps = s.steps := by
  obtain ⟨_, _, _, -, rfl⟩ := idles
  rfl

theorem bestStep (idles : s.Idles t) : t.bestStep = s.bestStep := by
  obtain ⟨_, _, _, -, rfl⟩ := idles
  rfl

theorem best (idles : s.Idles t) : t.best = s.best := by
  obtain ⟨_, _, _, -, rfl⟩ := idles
  rfl

theorem starting (idles : s.Idles t) : t.starting = s.starting := by
  obtain ⟨_, _, _, -, rfl⟩ := idles
  rfl

theorem startedAt (idles : s.Idles t) : t.startedAt = s.startedAt := by
  obtain ⟨_, _, _, -, rfl⟩ := idles
  rfl

theorem events (idles : s.Idles t) : t.events = s.events := by
  obtain ⟨_, _, _, -, rfl⟩ := idles
  rfl

end Scope.Idles

/-- The computation is idle: it leaves no trace, however it ends. -/
abbrev Idle (view : σ → Scope S sh) (f : ExceptT Fault (StateM σ) α) : Prop :=
  Carries view Scope.Idles f

/-- The attempt is idle: it leaves no trace, however it ends. -/
abbrev TryIdle (view : σ → Scope S sh) (f : ExceptT PlanError (ExceptT Fault (StateM σ)) α) :
    Prop := TryCarries view Scope.Idles f

namespace Search

variable (c : Conditions S sh)

theorem idle_now : Idle id (now c) :=
  fun s => ⟨s.director, s.generator, s.readings + 1, Nat.le_succ _, rfl⟩

theorem idle_elapsed : Idle id (elapsed c) :=
  (idle_now c).bind fun _ => .get_bind fun _ => .pure _

theorem idle_progress : Idle id (progress c) :=
  (idle_elapsed c).bind fun _ => .get_bind fun _ => .pure _

theorem idle_isTerminated : Idle id (isTerminated c) := by
  refine .get_bind fun s => ?_
  split
  · exact .pure true
  · split
    · exact .pure false
    · exact (idle_progress c).bind fun _ => .pure _

theorem idle_share (α : Type) [Scale α] : Idle id (share α c) := by
  unfold share
  split
  · exact .pure _
  · exact (idle_progress c).bind fun _ => .pure _

theorem idle_calculate : Idle id (calculate c) := by
  intro s
  rw [run_calculate]
  rcases s.director.calculate c.problem with _ | ⟨score, director⟩
  · exact refl_of Scope.Idles s
  · exact ⟨director, s.generator, s.readings, le_rfl, rfl⟩

theorem idle_isInitialized : Idle id (isInitialized c) := .get_bind fun _ => .pure _

theorem tryIdle_apply (m : Move S) : TryIdle id (apply m : Attempt S sh (Move S)) :=
  fun s => ⟨(s.director.applyMove m).1, s.generator, s.readings, le_rfl, rfl⟩

theorem tryIdle_evaluate (m : Move S) (restored : Score sh) :
    TryIdle id (evaluate c m restored) := by
  refine TryCarries.bind (tryIdle_apply m) fun undo => ?_
  refine TryCarries.bind (.lift (idle_calculate c)) fun score => ?_
  refine TryCarries.bind (tryIdle_apply undo) fun _ => ?_
  split
  · refine TryCarries.bind (.lift (idle_calculate c)) fun again => ?_
    split
    · exact TryCarries.bind (.throw _) fun _ => .pure score
    · exact .pure score
  · exact .pure score

theorem tryIdle_assertScore (expected : Score sh) : TryIdle id (assertScore c expected) := by
  unfold assertScore
  split
  · refine TryCarries.bind (.lift (idle_calculate c)) fun actual => ?_
    split
    · exact .throw _
    · exact .pure ()
  · exact .pure ()

end Search

namespace PhaseContext

variable (c : Conditions S sh) (own : Option (Termination sh)) (phase : PhaseContext sh)

theorem idle_progress : Idle id (phase.progress c) :=
  (Search.idle_now c).bind fun _ => .get_bind fun _ => .pure _

theorem idle_isTerminated : Idle id (phase.isTerminated c own) := by
  refine (Search.idle_isTerminated c).bind fun stop => ?_
  split
  · exact .pure true
  · split
    · exact .pure false
    · exact (phase.idle_progress c).bind fun _ => .pure _

theorem idle_share (α : Type) [Scale α] : Idle id (phase.share α c own) := by
  have shares : Idle id (own.toList.mapM fun t =>
      (do return t.gradient (← phase.progress c) : Search S sh α)) := by
    cases own with
    | none => exact .pure []
    | some t =>
      rw [Option.toList_some, List.mapM_cons, List.mapM_nil]
      exact ((phase.idle_progress c).bind fun _ => .pure _).bind fun _ =>
        (Carries.pure []).bind fun _ => .pure _
  exact shares.bind fun _ => (Search.idle_share c α).bind fun _ => .pure _

end PhaseContext

/-- Trying values leaves no trace. -/
theorem Construction.tryIdle_bestMove (c : Conditions S sh) (last : Score sh) (moves : List (Move S))
    (winner : Option (Move S × Score sh)) : TryIdle id (bestMove c last moves winner) := by
  induction moves generalizing winner with
  | nil => exact .pure winner
  | cons m rest ih =>
    refine TryCarries.get_bind fun s => ?_
    split
    · exact TryCarries.bind (Search.tryIdle_evaluate c m last) fun score => ih _
    · exact ih winner

/-! ## Local search -/

namespace LocalSearch

variable {p : LocalSearch M S sh} (c : Conditions S sh)

theorem carries_onScope {R : Scope S sh → Scope S sh → Prop} {f : Search S sh α}
    (carries : Carries id R f) : Carries Running.scope R (p.onScope f) := fun r => carries r.scope

theorem tryCarries_attempt {R : Scope S sh → Scope S sh → Prop} {f : Attempt S sh α}
    (carries : TryCarries id R f) : TryCarries Running.scope R (p.attempt f) :=
  fun r => carries r.scope

theorem idle_select (f : Setting S → p.moves.State → Draw M (α × p.moves.State)) :
    Idle Running.scope (p.select c f) := by
  intro r
  rw [Lockstep.run_select]
  rcases f _ _ _ with _ | ⟨⟨a, moves⟩, w⟩
  · exact refl_of Scope.Idles r.scope
  · exact ⟨r.scope.director, w.generator, r.scope.readings, le_rfl, rfl⟩

theorem idle_modifyOwn (u : p.State → p.State) : Idle Running.scope (p.modifyOwn u) :=
  .of_keeps (keeps_modifyOwn fun _ => rfl)

variable (p)

theorem idle_accept (m : Move S) (score : Score sh) (step : StepContext sh) :
    Idle Running.scope (p.accept m score step) := by
  intro r
  rw [run_accept]
  rcases r.own.acceptor.accepts m score step r.scope.generator with _ | ⟨accepted, generator⟩
  · exact refl_of Scope.Idles r.scope
  · exact ⟨r.scope.director, generator, r.scope.readings, le_rfl, rfl⟩

theorem idle_forage (m : Move S) (score : Score sh) (step : StepContext sh) :
    Idle Running.scope (p.forage m score step) :=
  .get_bind fun _ => (idle_modifyOwn _).bind fun _ => .pure _

theorem idle_pick : Idle Running.scope p.pick :=
  .get_bind fun _ => (idle_modifyOwn _).bind fun _ => .pure _

/-- Deciding what to do in a step leaves no trace. -/
theorem tryIdle_decide (step : StepContext sh) : TryIdle Running.scope (p.decide c step) :=
  p.tryCarries_decide c (fun _ => idle_select c _)
    (fun m restored => tryCarries_attempt (Search.tryIdle_evaluate c m restored)) p.idle_accept
    p.idle_forage p.idle_pick step

theorem idle_phaseStarted (starting : Score sh) :
    Idle Running.scope (p.phaseStarted c starting) := by
  refine (idle_select c _).bind fun _ => .get_bind fun r => ?_
  exact (Carries.liftM _).bind fun acceptor => idle_modifyOwn _

theorem idle_stepStarted (step : StepContext sh) : Idle Running.scope (p.stepStarted c step) :=
  (idle_select c _).bind fun _ => idle_modifyOwn _

theorem idle_stepEnded (made : Option (Acceptor.Made S sh)) :
    Idle Running.scope (p.stepEnded c made) := by
  unfold stepEnded
  cases made with
  | none => exact idle_select c _
  | some made => exact (idle_modifyOwn _).bind fun _ => idle_select c _

theorem idle_phaseEnded : Idle Running.scope (p.phaseEnded c) :=
  (idle_select c _).bind fun _ => idle_modifyOwn _

end LocalSearch

end PlanSearch
