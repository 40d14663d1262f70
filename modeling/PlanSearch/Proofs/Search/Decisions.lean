import PlanSearch.Proofs.Search.StepLimit
import PlanSearch.Proofs.Search.Tally

/-!
# Decisions to go on

A phase decides before every step whether to go on. Whatever a run comes to in the end, every step
that it announced began upon such a decision: at that time the counts were those of the log, and by
these counts neither the termination of the search nor that of the phase was reached.
-/

namespace PlanSearch

variable {M S σ : Type} {sh : Shape}

/-! ## What was begun since -/

/-- The log has grown, and every step that was begun since is one that is allowed after what had been
announced by then. -/
structure Scope.Starts (allowed : List (Event S sh) → ℕ → Prop) (s t : Scope S sh) : Prop where
  grows : ∃ more, t.events.toList = s.events.toList ++ more
  begun : ∀ before k after, t.events.toList = before ++ .stepStarted k :: after →
    s.events.toList.length ≤ before.length → allowed before k

namespace Scope.Starts

variable {allowed allowed' : List (Event S sh) → ℕ → Prop} {s t : Scope S sh} {c : Conditions S sh}

/-- Where no step is begun, none has to be allowed. -/
theorem of_append {more : List (Event S sh)}
    (said : t.events.toList = s.events.toList ++ more) (none : ∀ e ∈ more, e.kind ≠ .stepStarted) :
    Scope.Starts allowed s t where
  grows := ⟨more, said⟩
  begun before k after split later := by
    have rest := congrArg (List.drop s.events.toList.length) (said.symm.trans split)
    rw [List.drop_left, List.drop_append_of_le_length later] at rest
    exact absurd rfl (none (.stepStarted k) (rest ▸ List.mem_append_right _ List.mem_cons_self))

theorem trans {u : Scope S sh} (first : Scope.Starts allowed s t)
    (second : Scope.Starts allowed t u) : Scope.Starts allowed s u where
  grows := by
    obtain ⟨more, said⟩ := first.grows
    obtain ⟨more', said'⟩ := second.grows
    exact ⟨more ++ more', by rw [said', said, List.append_assoc]⟩
  begun before k after split later := by
    rcases le_or_gt t.events.toList.length before.length with after_ | earlier
    · exact second.begun before k after split after_
    · -- the step was begun before, and what was announced after it is not looked at
      obtain ⟨more, said⟩ := second.grows
      have rest := congrArg (List.take t.events.toList.length) (said.symm.trans split)
      rw [List.take_left, List.take_append, List.take_of_length_le earlier.le] at rest
      obtain ⟨n, length⟩ := Nat.exists_eq_add_of_lt earlier
      rw [length, Nat.add_assoc, Nat.add_sub_cancel_left, List.take_succ_cons] at rest
      exact first.begun before k _ rest later

instance : IsPreorder (Scope S sh) (Scope.Starts allowed) where
  refl _ := .of_append (List.append_nil _).symm (List.forall_mem_nil _)
  trans _ _ _ := trans

theorem mono (starts : Scope.Starts allowed s t)
    (more : ∀ before k, allowed before k → allowed' before k) :
    Scope.Starts allowed' s t :=
  ⟨starts.grows,
    fun before k after split later => more before k (starts.begun before k after split later)⟩

theorem of_idles (idles : s.Idles t) : Scope.Starts allowed s t :=
  .of_append (by rw [idles.events, List.append_nil]) (List.forall_mem_nil _)

theorem told {e : Event S sh} (other : e.kind ≠ .stepStarted) (s : Scope S sh) :
    Scope.Starts allowed s (s.told c e) :=
  .of_append Array.toList_push (List.forall_mem_singleton.2 other)

theorem told_stepStarted {k : ℕ} (allows : allowed s.events.toList k) :
    Scope.Starts allowed s (s.told c (.stepStarted k)) where
  grows := ⟨[.stepStarted k], Array.toList_push⟩
  begun before j after split later := by
    have said : (s.told c (.stepStarted k)).events.toList = s.events.toList ++ [.stepStarted k] :=
      Array.toList_push
    have length := congrArg List.length (said.symm.trans split)
    rw [List.length_append, List.length_append, List.length_singleton, List.length_cons] at length
    obtain ⟨rfl, same⟩ := List.append_inj (said.symm.trans split) (by omega)
    obtain ⟨rfl⟩ := Event.stepStarted.inj (List.cons.inj same).1
    exact allows

end Scope.Starts

/-! ## Operations -/

section

variable {allowed : List (Event S sh) → ℕ → Prop} {c : Conditions S sh}

theorem Carries.starts {view : σ → Scope S sh} {α : Type} {f : ExceptT Fault (StateM σ) α}
    (idle : Carries view Scope.Idles f) : Carries view (Scope.Starts allowed) f :=
  idle.mono fun _ _ => .of_idles

namespace Search

theorem starts_stepEnded (k : ℕ) (x : Score sh) :
    Carries id (Scope.Starts allowed) (fire c (.stepEnded k x)) := fun _ =>
  .of_append Array.toList_push (List.forall_mem_singleton.2 nofun)

theorem starts_phaseStarted (index : ℕ) (kind : String) :
    Carries id (Scope.Starts allowed) (fire c (.phaseStarted index kind)) := fun _ =>
  .of_append Array.toList_push (List.forall_mem_singleton.2 nofun)

theorem starts_phaseEnded (index : ℕ) (kind : String) :
    Carries id (Scope.Starts allowed) (fire c (.phaseEnded index kind)) := fun _ =>
  .of_append Array.toList_push (List.forall_mem_singleton.2 nofun)

theorem starts_countStep : Carries id (Scope.Starts allowed) (countStep : Search S sh Unit) :=
  .modify fun _ => .of_append (List.append_nil _).symm (List.forall_mem_nil _)

theorem starts_offer (x : Score sh) : Carries id (Scope.Starts allowed) (offer c x) := by
  intro s
  rw [run_offer]
  dsimp only
  split
  · exact .of_append Array.toList_push (List.forall_mem_singleton.2 nofun)
  · exact .of_append (List.append_nil _).symm (List.forall_mem_nil _)

end Search

end

/-! ## Rounds -/

/-- Neither the termination of the search as a whole nor the given one of the phase is reached. The
former reads the clock first. -/
def Milestone.GoesOn (c : Conditions S sh) (own : Option (Termination sh)) (a : Milestone S sh) :
    Prop :=
  (∀ whole ∈ c.termination, whole.isTerminated (Search.progressAt c a.2) = false) ∧
    ∀ criterion ∈ own, criterion.isTerminated
      (a.1.progressAt c (a.2.read c.termination.toList.length)) = false

/-- In one of several states, in which so much had been announced and so many steps were completed
in the phase, the phase goes on. -/
def DecidedIn (c : Conditions S sh) (own : Option (Termination sh)) (states : List (Milestone S sh))
    (log : List (Event S sh)) (k : ℕ) : Prop :=
  ∃ a ∈ states, a.2.events.toList = log ∧ a.1.steps = k ∧ Milestone.GoesOn c own a

/-- A round begins a step only upon a decision to go on. -/
def RoundStarts (c : Conditions S sh) (own : Option (Termination sh)) (view : σ → Scope S sh)
    (round : PhaseContext sh →
      ExceptT PlanError (ExceptT Fault (StateM σ)) (Option (PhaseContext sh))) : Prop :=
  ∀ phase s, Scope.Starts (DecidedIn c own [(phase, view s)]) (view s)
    (view ((round phase).run.run.run s).2)

theorem DecidedIn.mono {c : Conditions S sh} {own : Option (Termination sh)}
    {states states' : List (Milestone S sh)} (more : states ⊆ states') (log : List (Event S sh))
    (k : ℕ) (decided : DecidedIn c own states log k) : DecidedIn c own states' log k := by
  obtain ⟨a, member, goesOn⟩ := decided
  exact ⟨a, more member, goesOn⟩

/-- Every step that is begun while rounds are repeated is begun upon a decision to go on. -/
theorem RoundStarts.repeatRound {c : Conditions S sh} {own : Option (Termination sh)}
    {view : σ → Scope S sh} {round : PhaseContext sh →
      ExceptT PlanError (ExceptT Fault (StateM σ)) (Option (PhaseContext sh))}
    (starts : RoundStarts c own view round) (rounds : ℕ) (phase : PhaseContext sh) (s : σ) :
    Scope.Starts (DecidedIn c own ((phase, view s) :: milestones round view rounds phase s))
      (view s) (view ((repeatRound round rounds phase).run.run.run s).2) := by
  induction rounds generalizing phase s with
  | zero => exact refl_of (Scope.Starts _) (view s)
  | succ rounds ih =>
    have once (more : List (Milestone S sh)) :=
      (starts phase s).mono (DecidedIn.mono (List.cons_subset_cons _ more.nil_subset))
    rw [PlanSearch.repeatRound, try_bind, milestones]
    generalize (round phase).run.run.run s = reached at once ⊢
    obtain ⟨_ | _ | _ | next, t⟩ := reached
    · exact once _
    · exact once _
    · exact once _
    · exact (once _).trans ((ih next t).mono (DecidedIn.mono (List.subset_cons_self ..)))

section

variable {c : Conditions S sh} {own : Option (Termination sh)} {phase : PhaseContext sh}
variable {s t u : Scope S sh}

/-- Upon the decision to go on a step may begin. -/
theorem starts_stepStarted (looked : (phase.isTerminated c own).run.run s = (.ok false, t))
    (idles : t.Idles u) :
    Scope.Starts (DecidedIn c own [(phase, s)]) u (u.told c (.stepStarted phase.steps)) := by
  obtain ⟨goesOn, goesOn', rfl⟩ := PhaseContext.of_isTerminated_false looked
  refine .told_stepStarted ⟨(phase, s), List.mem_cons_self, ?_, rfl, goesOn, goesOn'⟩
  rw [idles.events]
  rfl

end

/-! ## Construction -/

namespace Construction

variable (c : Conditions S sh) (p : Construction S sh) {allowed : List (Event S sh) → ℕ → Prop}

theorem starts_complete (phase : PhaseContext sh) (x : Score sh) :
    Carries id (Scope.Starts allowed) (complete c phase x) := by
  refine Search.starts_countStep.bind fun _ => ?_
  refine (Search.starts_offer x).bind fun improved => ?_
  exact (Search.starts_stepEnded phase.steps x).bind fun _ => .pure _

theorem starts_rest (phase : PhaseContext sh) (placement : Placement S) (last : Score sh) :
    TryCarries id (Scope.Starts allowed)
      (bestMove c last placement.moves.toList none >>= fun
        | none => throw (.noPlacement phase.index placement.entity)
        | some (m, score) => do
          let _ ← Search.apply m
          Search.assertScore c score
          complete c phase score) := by
  refine TryCarries.bind (tryIdle_bestMove c last _ none).starts fun winner => ?_
  split
  · exact .throw _
  · rename_i m score
    refine TryCarries.bind (Search.tryIdle_apply m).starts fun _ => ?_
    refine TryCarries.bind (Search.tryIdle_assertScore c score).starts fun _ => ?_
    exact .lift (starts_complete c phase score)

theorem roundStarts (starting : Score sh) :
    RoundStarts c p.termination id (p.round c starting) := by
  intro phase s
  have looks := phase.idle_isTerminated c p.termination
  refine TryCarries.bind_from (TryCarries.lift looks.starts s) fun stop t looked => ?_
  have looked : (phase.isTerminated c p.termination).run.run s = (.ok stop, t) := run_of_lift looked
  cases stop with
  | true => exact refl_of (Scope.Starts _) t
  | false =>
    refine TryCarries.bind_from (refl_of (Scope.Starts _) t) fun _ _ same => ?_
    cases same
    split
    · exact refl_of (Scope.Starts _) t
    · rename_i placement found
      rw [step_eq]
      refine TryCarries.bind_from (TryCarries.bind_from ?_ fun _ _ _ => ?_) fun _ _ _ =>
        refl_of (Scope.Starts _) _
      · exact starts_stepStarted looked (refl_of Scope.Idles t)
      · exact starts_rest c phase placement _ _

end Construction

/-! ## Local search -/

namespace LocalSearch

variable (c : Conditions S sh) (p : LocalSearch M S sh) {allowed : List (Event S sh) → ℕ → Prop}

theorem starts_make (phase : PhaseContext sh) (step : StepContext sh) (m : Move S) (x : Score sh) :
    TryCarries Running.scope (Scope.Starts allowed) (p.make c phase step m x) := by
  refine TryCarries.bind (tryCarries_attempt (Search.tryIdle_apply m)).starts fun undo => ?_
  refine TryCarries.bind (tryCarries_attempt (Search.tryIdle_assertScore c x)).starts fun _ => ?_
  refine .lift ((carries_onScope Search.starts_countStep).bind fun _ => ?_)
  refine (carries_onScope (Search.starts_offer x)).bind fun improved => ?_
  refine (p.idle_stepEnded c _).starts.bind fun _ => ?_
  exact (carries_onScope (Search.starts_stepEnded _ _)).bind fun _ => .pure _

theorem starts_skip (phase : PhaseContext sh) (step : StepContext sh) :
    Carries Running.scope (Scope.Starts allowed) (p.skip c phase step) := by
  refine (carries_onScope Search.starts_countStep).bind fun _ => ?_
  refine (p.idle_stepEnded c none).starts.bind fun _ => ?_
  exact (carries_onScope (Search.starts_stepEnded _ _)).bind fun _ => .pure _

/-- Nothing is begun where no move is picked. -/
theorem starts_unpicked (phase : PhaseContext sh) (step : StepContext sh) :
    TryCarries Running.scope (Scope.Starts allowed) (
      if step.selected = 0 then do
        p.perform (p.stepEnded c none)
        if ← p.perform (p.onScope (Search.isInitialized c)) then return none
        p.perform (p.phaseEnded c)
        throw (.noDoableMove phase.index)
      else if p.termination.isNone && c.termination.isNone then do
        p.perform (p.stepEnded c none)
        return none
      else return some (← p.perform (p.skip c phase step)) :
        p.Trying (Option (PhaseContext sh))) := by
  split
  · refine TryCarries.bind (.lift (p.idle_stepEnded c none).starts) fun _ => ?_
    refine TryCarries.bind (.lift (carries_onScope (Search.idle_isInitialized c)).starts)
      fun initialized => ?_
    split
    · exact .pure none
    · exact TryCarries.bind (.lift (p.idle_phaseEnded c).starts) fun _ => .throw _
  · split
    · exact TryCarries.bind (.lift (p.idle_stepEnded c none).starts) fun _ => .pure none
    · exact TryCarries.bind (.lift (p.starts_skip c phase step)) fun _ => .pure _

theorem roundStarts (starting : Score sh) :
    RoundStarts c p.termination Running.scope (p.round c starting) := by
  intro phase r
  have looks := carries_onScope (p := p) (phase.idle_isTerminated c p.termination)
  refine TryCarries.bind_from (TryCarries.lift looks.starts r) fun stop u looked => ?_
  have looked : (phase.isTerminated c p.termination).run.run r.scope = (.ok stop, u.scope) :=
    scope_of_onScope (run_of_lift looked)
  cases stop with
  | true => exact refl_of (Scope.Starts _) u.scope
  | false =>
    refine TryCarries.bind_from (Carries.bind_from ?_ fun _ _ _ => refl_of (Scope.Starts _) _)
      fun step v _ => ?_
    · -- the only announcement that a step begins comes after nothing but a look at the clock
      refine Carries.bind_from (refl_of (Scope.Starts _) u.scope) fun _ _ same => ?_
      cases same
      have far := carries_onScope (p := p) (phase.idle_share c p.termination Float)
      refine Carries.bind_from (far.starts u) fun gradient w measured => ?_
      refine Carries.bind_from (starts_stepStarted looked (far.ran measured)) fun _ x _ => ?_
      exact ((p.idle_stepStarted c _).starts.bind fun _ => .pure _) x
    · refine TryCarries.bind_from ((p.tryIdle_decide c step).starts v) fun decided w _ => ?_
      obtain ⟨_ | ⟨m, x⟩, step⟩ := decided
      · exact p.starts_unpicked c phase step w
      · exact (TryCarries.bind (p.starts_make c phase step m x) fun _ => .pure _) w

end LocalSearch

/-! ## Phases -/

namespace Phase

variable (c : Conditions S sh) (index : ℕ) (scope : Scope S sh)

/-- The states in which a phase decides whether to go on: when it has begun, and after every step. -/
def decisions : (p : Phase M S sh) → p.State → List (Milestone S sh)
  | .construction p, _ =>
    match (Construction.begin c index).run.run.run scope with
    | (.ok (.ok (_, phase)), s) => (phase, s) :: p.trail c index scope
    | _ => []
  | .localSearch p, own =>
    match (p.begin c index).run.run ⟨scope, own⟩ with
    | (.ok (_, phase), r) => (phase, r.scope) :: p.trail c index ⟨scope, own⟩
    | _ => []

variable {c scope}

/-- Whenever a phase decides, its counts agree with the log. -/
theorem tallies_of_mem_decisions (tallies : scope.Tallies c) {p : Phase M S sh} {own : p.State}
    {a : Milestone S sh} (member : a ∈ p.decisions c index scope own) :
    Milestone.Tallies c index p.kind a := by
  cases p with
  | construction p =>
    rw [decisions] at member
    split at member
    · rename_i starting phase t begun
      obtain ⟨none, u, waits, rfl⟩ := Construction.begin_waits c begun
      have first : Milestone.Tallies c index Construction.kind (phase, _) :=
        .of_begun tallies waits none
      rw [Construction.trail, begun] at member
      rcases List.mem_cons.1 member with rfl | later
      · exact first
      · exact (Construction.roundBooks c p starting).tallies_milestones c.patience phase _ first a later
    · cases member
  | localSearch p =>
    rw [decisions] at member
    split at member
    · rename_i starting phase r begun
      obtain ⟨none, u, waits, told⟩ := p.begin_waits c begun
      have first : Milestone.Tallies c index LocalSearch.kind (phase, r.scope) := by
        rw [told]
        exact .of_begun tallies waits none
      rw [LocalSearch.trail, begun] at member
      rcases List.mem_cons.1 member with rfl | later
      · exact first
      · exact (p.roundBooks c starting).tallies_milestones c.patience phase r first a later
    · cases member

/-- When a phase is over, the counts of the search agree with the log. -/
theorem tallies_run (tallies : scope.Tallies c) {p : Phase M S sh} {own : p.State}
    (ran : (p.run c index scope own).result = .ok (.ok ())) :
    (p.run c index scope own).scope.Tallies c := by
  have ended (kind : String) : (.phaseEnded index kind : Event S sh).Passing :=
    Event.passing_phaseEnded index kind
  cases p with
  | construction p =>
    obtain ⟨t, ran⟩ : ∃ t, (p.run c index).run.run.run scope = (.ok (.ok ()), t) :=
      ⟨_, Prod.ext ran rfl⟩
    change Scope.Tallies c ((p.run c index).run.run.run scope).2
    rw [ran]
    obtain ⟨starting, phase, s₁, s₂, begun, done, last, -⟩ := Construction.exists_stages ran
    obtain ⟨none, u, waits, told⟩ := Construction.begin_waits c begun
    have first : Milestone.Tallies c index Construction.kind (phase, s₁) := by
      rw [told]
      exact .of_begun tallies waits none
    have steps : s₂.Tallies c := (Construction.roundBooks c p starting).tallies_repeatRound
      (Construction.roundWaits c p starting) c.patience phase s₁ s₂ first.whole done
    exact steps.waits ((Search.waits_fire c (ended _)).ran last)
  | localSearch p =>
    obtain ⟨r, ran⟩ : ∃ r, (p.run c index).run.run.run ⟨scope, own⟩ = (.ok (.ok ()), r) :=
      ⟨_, Prod.ext ran rfl⟩
    change Scope.Tallies c ((p.run c index).run.run.run ⟨scope, own⟩).2.scope
    rw [ran]
    obtain ⟨starting, phase, r₁, r₂, r₃, begun, done, closed, last, -⟩ :=
      LocalSearch.exists_stages ran
    obtain ⟨none, u, waits, told⟩ := p.begin_waits c begun
    have first : Milestone.Tallies c index LocalSearch.kind (phase, r₁.scope) := by
      rw [told]
      exact .of_begun tallies waits none
    have steps : r₂.scope.Tallies c := (p.roundBooks c starting).tallies_repeatRound
      (p.roundWaits c starting) c.patience phase r₁ r₂ first.whole done
    have closes := (p.idle_phaseEnded c).waits.ran closed
    exact (steps.waits closes).waits
      ((LocalSearch.carries_onScope (Search.waits_fire c (ended _))).ran last)

theorem starts_construction (p : Construction S sh) (own : (construction p : Phase M S sh).State) :
    Scope.Starts
      (DecidedIn c p.termination ((construction p : Phase M S sh).decisions c index scope own)) scope
      ((p.run c index).run.run.run scope).2 := by
  have begins {allowed : List (Event S sh) → ℕ → Prop} :
      TryCarries id (Scope.Starts allowed) (Construction.begin c index) := by
    refine TryCarries.bind (.lift (Search.idle_calculate c).starts) fun _ => ?_
    refine TryCarries.bind (.lift (Search.idle_now c).starts) fun _ => ?_
    exact TryCarries.bind (.lift (Search.starts_phaseStarted index _)) fun _ => .pure _
  rw [Construction.run_eq]
  refine TryCarries.bind_from (begins scope) ?_
  rintro ⟨starting, phase⟩ s begun
  rw [decisions, begun]
  dsimp only
  rw [Construction.trail, begun]
  refine TryCarries.bind_from ?_ fun _ t _ => TryCarries.lift (Search.starts_phaseEnded index _) t
  rw [Construction.steps_eq]
  exact (Construction.roundStarts c p starting).repeatRound c.patience phase s

theorem starts_localSearch (p : LocalSearch M S sh) (own : (localSearch p : Phase M S sh).State) :
    Scope.Starts
      (DecidedIn c p.termination ((localSearch p : Phase M S sh).decisions c index scope own)) scope
      ((p.run c index).run.run.run ⟨scope, own⟩).2.scope := by
  have begins {allowed : List (Event S sh) → ℕ → Prop} :
      Carries LocalSearch.Running.scope (Scope.Starts allowed) (p.begin c index) := by
    refine (LocalSearch.carries_onScope (Search.idle_calculate c)).starts.bind fun _ => ?_
    refine (LocalSearch.carries_onScope (Search.idle_now c)).starts.bind fun _ => ?_
    refine (p.idle_phaseStarted c _).starts.bind fun _ => ?_
    exact (LocalSearch.carries_onScope (Search.starts_phaseStarted index _)).bind fun _ => .pure _
  refine TryCarries.bind_from (TryCarries.lift begins _) ?_
  rintro ⟨starting, phase⟩ r begun
  have begun : (p.begin c index).run.run ⟨scope, own⟩ = (.ok (starting, phase), r) :=
    run_of_lift begun
  rw [decisions, begun]
  dsimp only
  rw [LocalSearch.trail, begun]
  refine TryCarries.bind_from ?_ fun _ r' _ => TryCarries.lift ((p.idle_phaseEnded c).starts.bind
    fun _ => LocalSearch.carries_onScope (Search.starts_phaseEnded index _)) r'
  rw [LocalSearch.steps_eq]
  exact (p.roundStarts c starting).repeatRound c.patience phase r

/-- However a phase ends, every step that it began it began upon a decision to go on. -/
theorem starts_run (p : Phase M S sh) (own : p.State) :
    Scope.Starts (DecidedIn c p.termination (p.decisions c index scope own)) scope
      (p.run c index scope own).scope := by
  cases p with
  | construction p => exact starts_construction index p own
  | localSearch p => exact starts_localSearch index p own

end Phase

/-! ## Runs -/

/-- The states in which the phase of a stage decides whether to go on. -/
def Stage.decisions (c : Conditions S sh) (index : ℕ) (stage : Stage M S sh) :
    List (Milestone S sh) := stage.phase.decisions c index stage.scope stage.own

namespace Solver

variable {c : Conditions S sh} {index : ℕ} {scope : Scope S sh}

/-- The counts agree with the log whenever one of several phases decides. -/
theorem tallies_stagesAll (tallies : scope.Tallies c) (phases : List (Phase M S sh))
    (sts : PhaseStates phases) {i : ℕ} {stage : Stage M S sh}
    (there : (stagesAll c phases index scope sts)[i]? = some stage) :
    ∀ a ∈ stage.decisions c (index + i),
      Milestone.Tallies c (index + i) stage.phase.kind a := by
  induction phases generalizing index scope i with
  | nil => cases there
  | cons p rest ih =>
    obtain ⟨st, sts⟩ := sts
    rw [stagesAll] at there
    split at there
    · rename_i reached looked
      have tallies := tallies.waits (.of_idles ((Search.idle_isTerminated c).ran looked))
      cases i with
      | zero =>
        obtain rfl := Option.some.inj there
        exact fun a member => p.tallies_of_mem_decisions index tallies member
      | succ i =>
        rw [List.getElem?_cons_succ] at there
        split at there
        · rename_i done
          rw [← Nat.succ_add_eq_add_succ]
          exact ih (p.tallies_run index tallies done) sts there
        · cases there
    · cases there

variable (c) in
/-- A phase of one of several stages decided to go on. -/
def DecidedIn (index : ℕ) (stages : List (Stage M S sh)) (log : List (Event S sh)) (k : ℕ) : Prop :=
  ∃ (i : ℕ) (stage : Stage M S sh), stages[i]? = some stage ∧
    PlanSearch.DecidedIn c stage.phase.termination (stage.decisions c (index + i)) log k

/-- However several phases end, every step was begun upon a decision to go on. -/
theorem starts_runAll (phases : List (Phase M S sh)) (sts : PhaseStates phases) :
    Scope.Starts (DecidedIn c index (stagesAll c phases index scope sts)) scope
      (runAll c phases index scope sts).scope := by
  induction phases generalizing index scope with
  | nil => exact refl_of (Scope.Starts _) scope
  | cons p rest ih =>
    obtain ⟨st, sts⟩ := sts
    have looks : scope.Idles ((Search.isTerminated c).run scope).2 := Search.idle_isTerminated c scope
    rw [runAll, stagesAll]
    generalize (Search.isTerminated c).run scope = looked at looks ⊢
    obtain ⟨_ | _ | _, reached⟩ := looked
    · exact .of_idles looks
    · have own (more : List (Stage M S sh)) : Scope.Starts
          (DecidedIn c index (⟨p, reached, st⟩ :: more)) scope (p.run c index reached st).scope := by
        refine Scope.Starts.trans (.of_idles looks) ?_
        refine (p.starts_run index st).mono fun log k decided => ?_
        exact ⟨0, _, rfl, decided⟩
      rcases done : (p.run c index reached st).result with _ | _ | ⟨⟩ <;> simp only [done]
      · exact own []
      · exact own []
      · refine (own _).trans ((ih sts).mono ?_)
        rintro log k ⟨i, stage, there, decided⟩
        refine ⟨i + 1, stage, there, ?_⟩
        rwa [← Nat.succ_add_eq_add_succ]
    · exact .of_idles looks

/-- When a search begins, nothing is counted, and the solution that it begins with is the best one. -/
theorem tallies_start {solver : Solver M S sh} {entropy : ℕ} {solution : S} {t : Scope S sh}
    (ran : (Search.start c).run (solver.opening entropy solution) = (.ok (), t)) : t.Tallies c := by
  obtain ⟨x, -, rfl⟩ := exists_start ran
  refine ⟨.of_none (List.forall_mem_singleton.2 nofun), fun lawful => ⟨_, rfl, ?_, ?_, ?_⟩⟩
  · exact congrArg some (lawful.withScore_withScore ..).symm
  · exact lawful.score_withScore ..
  · exact lawful.isInitialized_withScore ..

/-- What was announced in a run, whatever came of it. -/
def announced {solver : Solver M S sh} :
    Except (Collapse S sh) (Outcome S sh × solver.State) → List (Event S sh)
  | .ok (o, _) => o.events
  | .error collapse => collapse.events

theorem starts_start {allowed : List (Event S sh) → ℕ → Prop} (c : Conditions S sh) (s : Scope S sh) :
    Scope.Starts allowed s ((Search.start c).run.run s).2 := by
  rw [Grounds.run_start]
  split
  · exact .of_append (List.append_nil _).symm (List.forall_mem_nil _)
  · exact .of_append Array.toList_push (List.forall_mem_singleton.2 nofun)

theorem starts_finish {allowed : List (Event S sh) → ℕ → Prop} {solver : Solver M S sh}
    {s t : Scope S sh} (starts : Scope.Starts allowed s t) (st : solver.State) :
    ∃ u : Scope S sh, u.events.toList = (finish c t st).1.events ∧ Scope.Starts allowed s u := by
  unfold finish
  split
  · exact ⟨t, rfl, starts⟩
  · refine ⟨_, rfl, starts.trans ?_⟩
    exact .of_append Array.toList_push (List.forall_mem_singleton.2 nofun)

/-- Every step that a run began, whatever came of the run, it began upon a decision to go on. -/
theorem starts_solve (solver : Solver M S sh) (around : Surroundings S sh) (entropy : ℕ)
    (solution : S) (st : solver.State) :
    ∃ t : Scope S sh, t.events.toList = announced (solver.solve around entropy solution st) ∧
      Scope.Starts (DecidedIn (solver.conditions around) 0
        (solver.stages around entropy solution st)) (solver.opening entropy solution) t := by
  rw [solve_eq, stages]
  split
  · exact ⟨_, rfl, refl_of (Scope.Starts _) _⟩
  · have begins {allowed : List (Event S sh) → ℕ → Prop} : Scope.Starts allowed
        (solver.opening entropy solution)
        ((Search.start (solver.conditions around)).run (solver.opening entropy solution)).2 :=
      starts_start ..
    generalize (Search.start (solver.conditions around)).run (solver.opening entropy solution) =
      started at begins ⊢
    obtain ⟨_ | _, scope⟩ := started
    · exact ⟨scope, rfl, begins⟩
    · have phases : Scope.Starts (DecidedIn (solver.conditions around) 0
            (stagesAll (solver.conditions around) solver.phases 0 scope st.phases))
          (solver.opening entropy solution)
          (runAll (solver.conditions around) solver.phases 0 scope st.phases).scope :=
        begins.trans (starts_runAll ..)
      dsimp only
      generalize runAll (solver.conditions around) solver.phases 0 scope st.phases = ended at phases ⊢
      obtain ⟨_ | _ | _, t, own⟩ := ended
      · exact ⟨t, rfl, phases⟩
      · exact ⟨t, rfl, phases⟩
      · exact starts_finish phases _

end Solver

/-- The snapshots that a phase looks at when it decides, and what they say about the log: how many
steps were completed, how many of them after the last one that announced a better solution, and what
the score of the best solution is; as a whole, and since the phase was announced. -/
structure Milestone.Snapshots (c : Conditions S sh) (index : ℕ) (kind : String)
    (whole own : Progress sh) (a : Milestone S sh) : Prop where
  reads : ((Search.progress c).run.run a.2).1 = .ok whole
  reads_own : ((a.1.progress c).run.run a.2).1 = .ok own
  bestStep_le : a.2.bestStep ≤ a.2.steps ∧ a.1.bestStep ≤ a.1.steps
  steps : whole.steps = Event.count .stepEnded a.2.events.toList
  unimproved : whole.unimproved = Event.stale a.2.events.toList
  best : c.problem.Lawful → ∃ s, Event.latest a.2.events.toList = some s ∧
    whole.best = if c.problem.isInitialized s then c.problem.score s else none
  best_own : own.best = whole.best
  counts_own : ∃ before since, a.2.events.toList = before ++ .phaseStarted index kind :: since ∧
    (∀ e ∈ since, e.kind ≠ .phaseStarted) ∧ own.steps = Event.count .stepEnded since ∧
    own.unimproved = Event.stale since

theorem Milestone.Tallies.snapshots {c : Conditions S sh} {index : ℕ} {kind : String}
    {a : Milestone S sh} (tallies : Milestone.Tallies c index kind a) :
    Milestone.Snapshots c index kind (Search.progressAt c a.2) (a.1.progressAt c a.2) a := by
  obtain ⟨⟨tally, hails⟩, before, since, said, none, tally'⟩ := tallies
  refine ⟨?_, ?_, ⟨tally.bestStep_le, tally'.bestStep_le⟩, tally.steps_eq, tally.stale_eq, ?_, rfl,
    before, since, said, none, tally'.steps_eq, tally'.stale_eq⟩
  · rw [Search.run_progress]
  · rw [PhaseContext.run_progress]
  · intro lawful
    obtain ⟨best, known, latest, stored, initialized⟩ := hails lawful
    refine ⟨best.solution, latest, ?_⟩
    have found : Search.bestScore a.2 = if best.isInitialized then some best.score else Option.none := by
      rw [Search.bestScore, known]
    rw [initialized, stored]
    exact found

namespace Solver

/-- In every state in which a phase decides whether to go on, the counts that it looks at are those of
the log. Every step that a run announced, whatever came of the run, began in such a state, in which
neither the termination of the solver nor that of the phase was reached by these counts. -/
theorem solve_decides (solver : Solver M S sh) (around : Surroundings S sh) (entropy : ℕ)
    (solution : S) (st : solver.State) :
    let c := solver.conditions around
    let stages := solver.stages around entropy solution st
    (∀ (i : ℕ) (stage : Stage M S sh), stages[i]? = some stage → ∀ a ∈ stage.decisions c i,
      Milestone.Snapshots c i stage.phase.kind (Search.progressAt c a.2) (a.1.progressAt c a.2) a) ∧
    ∀ before k after,
      announced (solver.solve around entropy solution st) = before ++ .stepStarted k :: after →
        ∃ (i : ℕ) (stage : Stage M S sh), stages[i]? = some stage ∧ ∃ a ∈ stage.decisions c i,
          a.2.events.toList = before ∧ a.1.steps = k ∧
          Milestone.GoesOn c stage.phase.termination a := by
  intro c stages
  constructor
  · intro i stage there a member
    have there : (solver.stages around entropy solution st)[i]? = some stage := there
    rw [Solver.stages] at there
    split at there
    · cases there
    · split at there
      · rename_i scope started
        have tallies := tallies_stagesAll (tallies_start started) solver.phases st.phases there
        rw [Nat.zero_add] at tallies
        exact (tallies a member).snapshots
      · cases there
  · intro before k after said
    obtain ⟨t, events, starts⟩ := solver.starts_solve around entropy solution st
    obtain ⟨i, stage, there, decided⟩ := starts.begun before k after (events.trans said) (Nat.zero_le _)
    rw [Nat.zero_add] at decided
    exact ⟨i, stage, there, decided⟩

end Solver

namespace ScoredNecklace

/-- Paints two beads, one in each step. -/
def painter : Solver Unit ScoredNecklace .simple where
  phases := [.localSearch painting]
  termination := some (.stepCount 2)

/-- When the second step of a phase begins, one was completed since the phase began. -/
theorem solve_decides_painter : ∃ first since after index kind,
    Solver.announced (painter.solve around 0 plain painter.start) =
      first ++ .phaseStarted index kind :: since ++ .stepStarted 1 :: after ∧
    Event.count .stepEnded since = 1 := by
  have begins : ((Solver.announced (painter.solve around 0 plain painter.start)).any fun e =>
      match e with
      | .stepStarted k => k == 1
      | _ => false) = true := by decide +kernel
  obtain ⟨e, member, second⟩ := List.any_eq_true.1 begins
  cases e with
  | stepStarted k =>
    obtain rfl := eq_of_beq second
    obtain ⟨before, after, said⟩ := List.append_of_mem member
    obtain ⟨snapshots, begun⟩ := Solver.solve_decides painter around 0 plain painter.start
    obtain ⟨i, stage, there, a, decides, log, count, -⟩ := begun before 1 after said
    obtain ⟨first, since, split, -, steps, -⟩ := (snapshots i stage there a decides).counts_own
    rw [log] at split
    refine ⟨first, since, after, i, stage.phase.kind, ?_, ?_⟩
    · rw [← split]
      exact said
    · exact steps.symm.trans count
  | _ => cases second

end ScoredNecklace

end PlanSearch
