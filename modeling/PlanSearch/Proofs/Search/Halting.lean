import PlanSearch.Proofs.Patience
import PlanSearch.Proofs.Search.Candidates
import PlanSearch.Proofs.Search.StepLimit
import PlanSearch.Proofs.Selector.Settled

/-!
# Searches that come to an end

A computation on the state of a search halts if from some patience on it always comes to the same
end, and not for lack of patience. With less patience it comes to that end or to none. The rules
follow the ways in which computations are put together; a loop halts if a number gets smaller with
every round.
-/

namespace PlanSearch

open Filter

variable {M S σ : Type} {sh : Shape} {α β : Type}

/-- The end of a computation is not for lack of patience. -/
abbrev Tireless (x : Except Fault α) : Prop := Breaks (· ≠ .exhausted) x

theorem Overflows.tireless {x : Except Fault α} (h : Overflows x) : Tireless x := by
  intro e failed
  rw [h e failed]
  exact nofun

/-- With enough patience this is always the same and no lack of patience; with less it is the same
or a lack of patience. -/
def EndsIn {γ : Type u} (result : γ → Except Fault β) (g : ℕ → γ) : Prop :=
  ∃ x, Tireless (result x) ∧ (∀ n, g n = x ∨ result (g n) = .error .exhausted) ∧
    ∀ᶠ n in atTop, g n = x

namespace EndsIn

variable {γ : Type u} {δ : Type v} {result : γ → Except Fault α} {result' : δ → Except Fault β}
variable {g : ℕ → γ}

theorem of_constant {x : γ} (tireless : Tireless (result x)) : EndsIn result fun _ => x :=
  ⟨x, tireless, fun _ => .inl rfl, .of_forall fun _ => rfl⟩

/-- What follows ends where the first part has ended, if it does not hide a lack of patience. -/
theorem bind (first : EndsIn result g) {k : ℕ → γ → δ}
    (tired : ∀ n x, result x = .error .exhausted → result' (k n x) = .error .exhausted)
    (rest : ∀ n, Tireless (result (g n)) → EndsIn result' fun m => k m (g n)) :
    EndsIn result' fun n => k n (g n) := by
  obtain ⟨x, tireless, only, stays⟩ := first
  obtain ⟨n, rfl⟩ := stays.exists
  obtain ⟨y, tireless, only', stays'⟩ := rest n tireless
  refine ⟨y, tireless, fun m => ?_, (stays.and stays').mono fun m h => ?_⟩
  · rcases only m with reached | short
    · dsimp only
      rw [reached]
      exact only' m
    · exact .inr (tired m _ short)
  · exact (congrArg (k m) h.1).trans h.2

/-- What is made of an end is an end for the same reason. -/
theorem map (ends : EndsIn result g) (u : γ → δ)
    (same : ∀ x e, result' (u x) = .error e ↔ result x = .error e) :
    EndsIn result' fun n => u (g n) :=
  ends.bind (fun _ x short => (same x _).2 short) fun _ tireless =>
    .of_constant fun e failed => tireless e ((same _ e).1 failed)

/-- A loop that goes on for as many rounds as there is patience begins its first one. -/
theorem of_succ (loop : ℕ → ℕ → γ) (spent : ∀ n, result (loop 0 n) = .error .exhausted)
    {rounds : ℕ → ℕ} (grows : Tendsto rounds atTop atTop)
    (ends : ∀ rest : ℕ → ℕ, Tendsto rest atTop atTop →
      EndsIn result fun n => loop (rest n + 1) n) :
    EndsIn result fun n => loop (rounds n) n := by
  obtain ⟨x, tireless, only, stays⟩ := ends (fun n => rounds n - 1)
    ((tendsto_sub_atTop_nat 1).comp grows)
  exact ⟨x, tireless, ends_of_succ loop (result · = .error .exhausted) spent grows only stays⟩

end EndsIn

/-- What follows on the end of a computation. -/
def goOn (k : α → ExceptT Fault (StateM σ) β) : Except Fault α × σ → Except Fault β × σ
  | (.ok a, s) => (k a).run.run s
  | (.error e, s) => (.error e, s)

/-- With enough patience the computation comes to one end from this state, and with less of it to
none other. -/
def HaltsAt (f : ℕ → ExceptT Fault (StateM σ) α) (s : σ) : Prop :=
  EndsIn Prod.fst fun n => (f n).run.run s

/-- The computation halts from every state. -/
def Halts (f : ℕ → ExceptT Fault (StateM σ) α) : Prop := ∀ s, HaltsAt f s

/-- The attempt halts from every state. -/
abbrev TryHalts (f : ℕ → ExceptT PlanError (ExceptT Fault (StateM σ)) α) : Prop :=
  Halts fun n => (f n).run

namespace HaltsAt

variable {f : ℕ → ExceptT Fault (StateM σ) α} {k : ℕ → α → ExceptT Fault (StateM σ) β} {s : σ}

/-- What follows needs to halt where the first part has led to a value. -/
theorem bind (first : HaltsAt f s)
    (rest : ∀ n a t, (f n).run.run s = (.ok a, t) → HaltsAt (fun n => k n a) t) :
    HaltsAt (fun n => f n >>= k n) s := by
  have same (n : ℕ) : (f n >>= k n).run.run s = goOn (k n) ((f n).run.run s) := by
    rw [run_bind]
    rcases (f n).run.run s with ⟨_ | a, t⟩
    · rfl
    · rfl
  unfold HaltsAt
  simp only [same]
  refine EndsIn.bind first (fun n x short => ?_) fun n tireless => ?_
  · obtain ⟨_, t⟩ := x
    obtain rfl : _ = Except.error _ := short
    rfl
  · rcases reached : (f n).run.run s with ⟨e | a, t⟩
    · rw [reached] at tireless
      exact EndsIn.of_constant (x := ((.error e : Except Fault β), t)) (.error (tireless e rfl))
    · exact rest n a t reached

/-- A loop that goes on for as many rounds as there is patience begins its first one. -/
theorem of_succ (loop : ℕ → ℕ → ExceptT Fault (StateM σ) α)
    (spent : ∀ n, ((loop 0 n).run.run s).1 = .error .exhausted) {rounds : ℕ → ℕ}
    (grows : Tendsto rounds atTop atTop)
    (halts : ∀ rest : ℕ → ℕ, Tendsto rest atTop atTop →
      HaltsAt (fun n => loop (rest n + 1) n) s) :
    HaltsAt (fun n => loop (rounds n) n) s :=
  EndsIn.of_succ (fun rounds n => (loop rounds n).run.run s) spent grows halts

end HaltsAt

namespace Halts

variable {f : ℕ → ExceptT Fault (StateM σ) α} {k : ℕ → α → ExceptT Fault (StateM σ) β}

theorem of_constant {g : ExceptT Fault (StateM σ) α} (tireless : ∀ s, Tireless (g.run.run s).1) :
    Halts fun _ => g := fun s => EndsIn.of_constant (tireless s)

theorem pure (a : α) : Halts fun _ => (Pure.pure a : ExceptT Fault (StateM σ) α) :=
  of_constant fun _ => .ok a

theorem modify (u : σ → σ) : Halts fun _ => (modify u : ExceptT Fault (StateM σ) Unit) :=
  of_constant fun _ => .ok ()

theorem liftM {x : Except Fault α} (tireless : Tireless x) :
    Halts fun _ => (MonadLiftT.monadLift x : ExceptT Fault (StateM σ) α) := by
  refine of_constant fun s => ?_
  cases x with
  | error e => exact .error (tireless e rfl)
  | ok a => exact .ok a

theorem get_bind {h : ℕ → σ → ExceptT Fault (StateM σ) α} (rest : ∀ s, Halts fun n => h n s) :
    Halts fun n => get >>= h n := fun s => rest s s

theorem bind (first : Halts f) (rest : ∀ a, Halts fun n => k n a) : Halts fun n => f n >>= k n :=
  fun s => (first s).bind fun _ a t _ => rest a t

end Halts

namespace TryHalts

variable {f : ℕ → ExceptT PlanError (ExceptT Fault (StateM σ)) α}
variable {k : ℕ → α → ExceptT PlanError (ExceptT Fault (StateM σ)) β}

theorem pure (a : α) :
    TryHalts fun _ => (Pure.pure a : ExceptT PlanError (ExceptT Fault (StateM σ)) α) :=
  Halts.pure (Except.ok a)

theorem throw (e : PlanError) :
    TryHalts fun _ =>
      (MonadExcept.throw e : ExceptT PlanError (ExceptT Fault (StateM σ)) α) :=
  Halts.pure (Except.error e)

theorem lift {g : ℕ → ExceptT Fault (StateM σ) α} (halts : Halts g) :
    TryHalts fun n => ExceptT.lift (g n) := halts.bind fun a => .pure (Except.ok a)

theorem get_bind {h : ℕ → σ → ExceptT PlanError (ExceptT Fault (StateM σ)) α}
    (rest : ∀ s, TryHalts fun n => h n s) : TryHalts fun n => get >>= h n := fun s => rest s s

/-- What follows needs to halt where the first part has succeeded. -/
theorem bindAt {s : σ} (first : HaltsAt (fun n => (f n).run) s)
    (rest : ∀ n a t, (f n).run.run.run s = (.ok (.ok a), t) →
      HaltsAt (fun n => (k n a).run) t) :
    HaltsAt (fun n => (f n >>= k n).run) s := by
  refine HaltsAt.bind first fun n result t reached => ?_
  cases result with
  | ok a => exact rest n a t reached
  | error e => exact Halts.pure (Except.error e) t

theorem bind (first : TryHalts f) (rest : ∀ a, TryHalts fun n => k n a) :
    TryHalts fun n => f n >>= k n :=
  fun s => bindAt (first s) fun _ a t _ => rest a t

/-- A loop halts if every round does and a number gets smaller with those that complete a step. -/
theorem repeatRound {round : ℕ → PhaseContext sh →
      ExceptT PlanError (ExceptT Fault (StateM σ)) (Option (PhaseContext sh))}
    (once : ∀ phase, TryHalts fun n => round n phase) (rank : σ → ℕ)
    (less : ∀ n phase s next s', (round n phase).run.run.run s = (.ok (.ok (some next)), s') →
      rank s' < rank s) (phase : PhaseContext sh) :
    TryHalts fun n => repeatRound (round n) n phase := by
  suffices each : ∀ s phase {rounds : ℕ → ℕ}, Tendsto rounds atTop atTop →
      HaltsAt (fun n => (PlanSearch.repeatRound (round n) (rounds n) phase).run) s by
    exact fun s => each s phase tendsto_id
  intro s
  induction s using (measure rank).wf.induction with
  | _ s ih =>
    intro phase rounds grows
    refine .of_succ (fun rounds n => (PlanSearch.repeatRound (round n) rounds phase).run)
      (fun _ => rfl) grows fun rest grows => ?_
    refine bindAt (once phase s) fun n next s' ran => ?_
    cases next with
    | none => exact pure () s'
    | some next => exact ih s' (less n phase s next s' ran) next grows

end TryHalts

/-! ## Operations of a search -/

/-- The surroundings with some patience. -/
def Surroundings.patient (around : Surroundings S sh) (patience : ℕ) : Surroundings S sh :=
  { around with patience }

/-- The conditions with some patience. -/
def Conditions.patient (c : Conditions S sh) (patience : ℕ) : Conditions S sh := { c with patience }

namespace Search

variable (c : Conditions S sh)

theorem halts_peek {f : Search S sh α} (peeks : Peeks f) : Halts fun _ => f := by
  refine .of_constant fun s => ?_
  obtain ⟨a, readings, known⟩ := peeks s
  rw [show f.run.run s = (.ok a, { s with readings }) from known s.director]
  exact .ok a

theorem halts_fire (e : Event S sh) : Halts fun _ => fire c e := .modify _

theorem halts_countStep : Halts fun _ => (countStep : Search S sh Unit) := .modify _

theorem halts_isInitialized : Halts fun _ => isInitialized c := .get_bind fun _ => .pure _

theorem halts_offer (score : Score sh) : Halts fun _ => offer c score := by
  refine .of_constant fun s => ?_
  rw [run_offer]
  dsimp only
  split
  · exact .ok true
  · exact .ok false

theorem halts_apply (m : Move S) : TryHalts fun _ => (apply m : Attempt S sh (Move S)) :=
  .of_constant fun s => .ok ((s.director.applyMove m).2.2.mapError PlanError.chain)

variable {c} (calculates : ∀ s, Tireless (c.problem.calculate s))
include calculates

theorem halts_calculate : Halts fun _ => calculate c := by
  refine .of_constant fun s => ?_
  have calculated : Tireless (s.director.calculate c.problem) := by
    unfold Director.calculate
    split
    · exact .error nofun
    · split
      · exact .ok _
      · exact (calculates _).bind fun _ _ => .ok _
  rw [run_calculate]
  split
  · rename_i e failed
    exact .error (calculated e failed)
  · exact .ok _

theorem halts_start : Halts fun _ => start c := by
  refine (halts_peek (.now c)).bind fun reading => ?_
  refine (halts_calculate calculates).bind fun score => ?_
  refine Halts.bind (.get_bind fun s => (halts_isInitialized c).bind fun _ => .pure _)
    fun best => ?_
  exact (Halts.modify _).bind fun _ => .get_bind fun s => halts_fire c _

theorem halts_evaluate (m : Move S) (restored : Score sh) :
    TryHalts fun _ => evaluate c m restored := by
  refine TryHalts.bind (halts_apply m) fun undo => ?_
  refine TryHalts.bind (.lift (halts_calculate calculates)) fun score => ?_
  refine TryHalts.bind (halts_apply undo) fun _ => ?_
  split
  · refine TryHalts.bind (.lift (halts_calculate calculates)) fun again => ?_
    split
    · exact TryHalts.bind (.throw _) fun _ => .pure score
    · exact .pure score
  · exact .pure score

theorem halts_assertScore (expected : Score sh) : TryHalts fun _ => assertScore c expected := by
  unfold assertScore
  split
  · refine TryHalts.bind (.lift (halts_calculate calculates)) fun actual => ?_
    split
    · exact .throw _
    · exact .pure ()
  · exact .pure ()

end Search

/-! ## Construction -/

namespace Construction

theorem halts_complete (c : Conditions S sh) (phase : PhaseContext sh) (score : Score sh) :
    Halts fun _ => complete c phase score := by
  refine Search.halts_countStep.bind fun _ => ?_
  refine (Search.halts_offer c score).bind fun improved => ?_
  exact (Search.halts_fire c _).bind fun _ => .pure _

variable {c : Conditions S sh} (calculates : ∀ s, Tireless (c.problem.calculate s))
variable (p : Construction S sh)
include calculates

theorem halts_bestMove (last : Score sh) (moves : List (Move S))
    (winner : Option (Move S × Score sh)) : TryHalts fun _ => bestMove c last moves winner := by
  induction moves generalizing winner with
  | nil => exact .pure winner
  | cons m rest ih =>
    refine TryHalts.get_bind fun s => ?_
    split
    · exact TryHalts.bind (Search.halts_evaluate calculates m last) fun score => ih _
    · exact ih winner

theorem halts_step (phase : PhaseContext sh) (placement : Placement S) (last : Score sh) :
    TryHalts fun _ => step c phase placement last := by
  simp only [step_eq]
  refine TryHalts.bind (.lift (Search.halts_fire c _)) fun _ => ?_
  refine TryHalts.bind (halts_bestMove calculates last _ none) fun winner => ?_
  cases winner with
  | none => exact .throw _
  | some winner =>
    refine TryHalts.bind (Search.halts_apply winner.1) fun _ => ?_
    refine TryHalts.bind (Search.halts_assertScore calculates winner.2) fun _ => ?_
    exact TryHalts.lift (halts_complete c phase winner.2)

theorem halts_round (starting : Score sh) (phase : PhaseContext sh) :
    TryHalts fun _ => p.round c starting phase := by
  refine TryHalts.bind (.lift (Search.halts_peek (.phaseIsTerminated c _ phase))) fun stop => ?_
  cases stop with
  | true => exact .pure none
  | false =>
    refine TryHalts.get_bind fun s => ?_
    split
    · exact .pure none
    · exact TryHalts.bind (halts_step calculates phase _ _) fun next => .pure (some next)

omit calculates in
theorem bestMove_patient (n : ℕ) (last : Score sh) (moves : List (Move S))
    (winner : Option (Move S × Score sh)) :
    bestMove (c.patient n) last moves winner = bestMove c last moves winner := by
  induction moves generalizing winner with
  | nil => rfl
  | cons m rest ih =>
    rw [bestMove, bestMove]
    simp only [ih]
    rfl

omit calculates in
theorem round_patient (n : ℕ) (starting : Score sh) (phase : PhaseContext sh) :
    p.round (c.patient n) starting phase = p.round c starting phase := by
  have same (placement : Placement S) (last : Score sh) :
      step (c.patient n) phase placement last = step c phase placement last := by
    rw [step_eq, step_eq, bestMove_patient]
    rfl
  unfold round
  simp only [same]
  rfl

/-- A construction in a search with a limit of steps comes to an end. -/
theorem halts_run {t : Termination sh} {limit : ℕ} (whole : c.termination = some t)
    (stops : t.StopsBy limit) (index : ℕ) : TryHalts fun n => p.run (c.patient n) index := by
  simp only [run_eq, steps_eq]
  refine TryHalts.bind ?_ fun began => ?_
  · refine TryHalts.bind (.lift (Search.halts_calculate calculates)) fun starting => ?_
    refine TryHalts.bind (.lift (Search.halts_peek (.now c))) fun reading => ?_
    exact TryHalts.bind (.lift (Search.halts_fire c _)) fun _ => .pure _
  · refine TryHalts.bind ?_ fun _ => .lift (Search.halts_fire c _)
    refine TryHalts.repeatRound (fun phase => ?_) (fun s => limit - s.steps) ?_ began.2
    · simp only [round_patient]
      exact p.halts_round calculates began.1 phase
    · intro n phase s next s' ran
      obtain ⟨below, grown⟩ := (p.countsRounds (c.patient n) began.1).whole phase s next s' ran
      have below := below t limit whole stops
      dsimp only [id] at below grown
      omega

end Construction

/-! ## Local search -/

namespace LocalSearch

variable {p : LocalSearch M S sh} {c : Conditions S sh}

/-- Every step of the local search comes to an end: its selector is settled, and there is a limit to
the candidates of a step. -/
structure Halting (p : LocalSearch M S sh) : Prop where
  settled : p.moves.Settled (· ≠ .exhausted)
  budgeted : p.selectedLimit.isSome ∨ p.moves.neverEnding = true

theorem halts_onScope {f : ℕ → Search S sh α} (halts : Halts f) :
    Halts fun n => p.onScope (f n) := by
  intro r
  have ended : EndsIn Prod.fst fun n => (f n).run.run r.scope := halts r.scope
  refine ended.map (fun x => ((x.1, { r with scope := x.2 }) : Except Fault α × p.Running))
    fun _ _ => Iff.rfl

theorem halts_attempt {f : ℕ → Attempt S sh α} (halts : TryHalts f) :
    TryHalts fun n => p.attempt (f n) := halts_onScope halts

theorem halts_perform {f : ℕ → p.Stepping α} (halts : Halts f) :
    TryHalts fun n => p.perform (f n) := .lift halts

theorem halts_modifyOwn (u : p.State → p.State) : Halts fun _ => p.modifyOwn u := .modify _

/-- What a draw of the selector leads to. -/
def Running.afterDraw (r : p.Running) :
    Except Fault ((α × p.moves.State) × World M) → Except Fault α × p.Running
  | .error e => (.error e, r)
  | .ok ((a, moves), w) => (.ok a, { r with
      scope := { r.scope with generator := w.generator }
      own := { r.own with moves, memory := w.memory } })

theorem run_select_patient (f : Setting S → p.moves.State → Draw M (α × p.moves.State)) (n : ℕ)
    (r : p.Running) : (p.select (c.patient n) f).run.run r =
      r.afterDraw (f ⟨r.scope.director.solution, n⟩ r.own.moves
        ⟨r.scope.generator, r.own.memory⟩) := by
  refine (Lockstep.run_select f r).trans ?_
  change _ = r.afterDraw (f ⟨_, (c.patient n).patience⟩ _ _)
  rcases f _ _ _ with _ | ⟨⟨a, moves⟩, w⟩
  · rfl
  · rfl

/-- The use of a selector halts where its draws settle. -/
theorem halts_select {f : Setting S → p.moves.State → Draw M (α × p.moves.State)}
    (settles : ∀ s st, Draw.Settles (· ≠ .exhausted) fun n => f ⟨s, n⟩ st) :
    Halts fun n => p.select (c.patient n) f := by
  intro r
  unfold HaltsAt
  simp only [run_select_patient]
  have drawn : EndsIn id fun n => f ⟨r.scope.director.solution, n⟩ r.own.moves
      ⟨r.scope.generator, r.own.memory⟩ := settles r.scope.director.solution r.own.moves _
  refine drawn.map r.afterDraw fun x e => ?_
  rcases x with e' | ⟨⟨a, moves⟩, w⟩
  · simp [Running.afterDraw]
  · simp [Running.afterDraw]

variable (halting : p.Halting)
include halting

theorem halts_announce (hook : Hook) : Halts fun n => p.announce (c.patient n) hook :=
  halts_select fun s st => (halting.settled.handle hook s st).bind fun st _ => .pure ((), st)

theorem halts_budget : Halts fun _ => p.budget := by
  unfold budget
  split
  · exact .pure _
  · split
    · exact .get_bind fun r => (Halts.liftM (halting.settled.size _ _)).bind fun size => .pure _
    · exact .pure _

/-- There is a limit to the candidates of a step. -/
theorem exists_budget {r r' : p.Running} {budget : Option ℕ}
    (ran : p.budget.run.run r = (.ok budget, r')) : ∃ left, budget = some left := by
  unfold LocalSearch.budget at ran
  split at ran
  · cases ran
    exact ⟨_, rfl⟩
  · rename_i unlimited
    rcases halting.budgeted with limited | endless
    · rw [unlimited] at limited
      cases limited
    · rw [if_pos endless] at ran
      obtain ⟨_, _, ⟨⟩, ran⟩ := exists_of_run_bind ran
      obtain ⟨size, _, -, ran⟩ := exists_of_run_bind ran
      cases ran
      exact ⟨_, rfl⟩

omit halting in
theorem halts_accept (m : Move S) (score : Score sh) (step : StepContext sh) :
    Halts fun _ => p.accept m score step := by
  refine .of_constant fun r => ?_
  rw [run_accept]
  have asked := (r.own.acceptor.overflows_accepts m score step r.scope.generator).tireless
  split
  · rename_i e failed
    exact .error (asked e failed)
  · exact .ok _

omit halting in
theorem halts_forage (m : Move S) (score : Score sh) (step : StepContext sh) :
    Halts fun _ => p.forage m score step :=
  .get_bind fun _ => (halts_modifyOwn _).bind fun _ => .pure _

omit halting in
theorem halts_judge (calculates : ∀ s, Tireless (c.problem.calculate s)) (m : Move S)
    (step : StepContext sh) : TryHalts fun n => p.judge (c.patient n) m step := by
  refine TryHalts.bind (halts_perform (.get_bind fun _ => .pure _)) fun working => ?_
  split
  · refine TryHalts.bind (halts_attempt (Search.halts_evaluate calculates m _)) fun score => ?_
    refine TryHalts.bind (halts_perform (halts_accept m score _)) fun accepted => ?_
    split
    · exact TryHalts.bind (halts_perform (halts_forage m score _)) fun enough => .pure _
    · exact .pure _
  · exact .pure _

variable (calculates : ∀ s, Tireless (c.problem.calculate s))
include calculates

/-- Trying candidates comes to an end, because fewer and fewer are left. -/
theorem halts_tryCandidates (left : ℕ) (step : StepContext sh) {rounds : ℕ → ℕ}
    (grows : Tendsto rounds atTop atTop) :
    TryHalts fun n => p.tryCandidates (c.patient n) (rounds n) (some left) step := by
  induction left generalizing step rounds with
  | zero =>
    refine fun r => .of_succ
      (fun rounds n => (p.tryCandidates (c.patient n) rounds (some 0) step).run) (fun _ => rfl)
      grows fun rest grows => ?_
    simp only [tryCandidates_succ, if_true]
    exact TryHalts.pure step r
  | succ left ih =>
    refine fun r => .of_succ
      (fun rounds n => (p.tryCandidates (c.patient n) rounds (some (left + 1)) step).run)
      (fun _ => rfl) grows fun rest grows => ?_
    have next := halts_select (c := c) (halting.settled.next)
    simp only [tryCandidates_succ, Option.some.injEq, Nat.add_eq_zero_iff, Nat.one_ne_zero,
      and_false, if_false]
    refine TryHalts.bind (halts_perform next) (fun candidate => ?_) r
    cases candidate with
    | none => exact .pure step
    | some m =>
      refine TryHalts.bind (halts_judge calculates m step) fun judged => ?_
      split
      · exact .pure judged.2
      · exact ih judged.2 grows

theorem halts_decide (step : StepContext sh) : TryHalts fun n => p.decide (c.patient n) step := by
  intro r
  refine TryHalts.bindAt (halts_perform (halts_budget halting) r) fun n budget r₁ known => ?_
  obtain ⟨left, rfl⟩ := exists_budget halting (run_of_lift known)
  have restart := halts_select (c := c)
    (f := fun set st => do return ((), ← p.moves.restart set st)) fun s st =>
      (halting.settled.restart s st).bind fun st _ => .pure ((), st)
  refine TryHalts.bind (halts_perform restart) (fun _ => ?_) r₁
  refine TryHalts.bind (halts_tryCandidates halting calculates left step tendsto_id) fun last => ?_
  refine TryHalts.bind (halts_perform ?_) fun picked => .pure _
  exact .get_bind fun _ => (halts_modifyOwn _).bind fun _ => .pure _

omit calculates in
theorem halts_stepEnded (made : Option (Acceptor.Made S sh)) :
    Halts fun n => p.stepEnded (c.patient n) made := by
  cases made with
  | none => exact halts_announce halting .stepEnded
  | some made => exact (halts_modifyOwn _).bind fun _ => halts_announce halting .stepEnded

omit calculates in
theorem halts_phaseEnded : Halts fun n => p.phaseEnded (c.patient n) :=
  (halts_announce halting .phaseEnded).bind fun _ => halts_modifyOwn _

omit calculates in
theorem halts_beginStep (phase : PhaseContext sh) (starting : Score sh) :
    Halts fun n => p.beginStep (c.patient n) phase starting := by
  refine .get_bind fun r => ?_
  have peeked := Search.halts_peek (.phaseGradient c p.termination phase)
  refine (halts_onScope peeked).bind fun gradient => ?_
  refine (halts_onScope (Search.halts_fire c _)).bind fun _ => ?_
  refine Halts.bind ?_ fun _ => .pure _
  exact (halts_announce halting .stepStarted).bind fun _ => halts_modifyOwn _

theorem halts_make (phase : PhaseContext sh) (step : StepContext sh) (m : Move S)
    (score : Score sh) : TryHalts fun n => p.make (c.patient n) phase step m score := by
  refine TryHalts.bind (halts_attempt (Search.halts_apply m)) fun undo => ?_
  refine TryHalts.bind (halts_attempt (Search.halts_assertScore calculates score)) fun _ => ?_
  refine halts_perform ?_
  refine (halts_onScope Search.halts_countStep).bind fun _ => ?_
  refine (halts_onScope (Search.halts_offer c score)).bind fun improved => ?_
  refine (halts_stepEnded halting _).bind fun _ => ?_
  exact (halts_onScope (Search.halts_fire c _)).bind fun _ => .pure _

omit calculates in
theorem halts_skip (phase : PhaseContext sh) (step : StepContext sh) :
    Halts fun n => p.skip (c.patient n) phase step := by
  refine (halts_onScope Search.halts_countStep).bind fun _ => ?_
  refine (halts_stepEnded halting none).bind fun _ => ?_
  exact (halts_onScope (Search.halts_fire c _)).bind fun _ => .pure _

theorem halts_round (starting : Score sh) (phase : PhaseContext sh) :
    TryHalts fun n => p.round (c.patient n) starting phase := by
  have peeked := Search.halts_peek (.phaseIsTerminated c p.termination phase)
  refine TryHalts.bind (halts_perform (halts_onScope peeked)) fun stop => ?_
  cases stop with
  | true => exact .pure none
  | false =>
    refine TryHalts.bind (halts_perform (halts_beginStep halting phase starting)) fun step => ?_
    refine TryHalts.bind (halts_decide halting calculates step) fun decided => ?_
    obtain ⟨_ | ⟨m, score⟩, last⟩ := decided
    · dsimp only
      split
      · refine TryHalts.bind (halts_perform (halts_stepEnded halting none)) fun _ => ?_
        have looked := Search.halts_isInitialized c
        refine TryHalts.bind (halts_perform (halts_onScope looked)) fun initialized => ?_
        split
        · exact .pure none
        · exact TryHalts.bind (halts_perform (halts_phaseEnded halting)) fun _ => .throw _
      · by_cases waits : (p.termination.isNone && c.termination.isNone) = true
        · have waits (n : ℕ) : (p.termination.isNone && (c.patient n).termination.isNone) = true :=
            waits
          simp only [waits, if_true]
          refine TryHalts.bind (halts_perform (halts_stepEnded halting none)) fun _ => ?_
          exact .pure none
        · have waits (n : ℕ) : ¬(p.termination.isNone && (c.patient n).termination.isNone) = true :=
            waits
          simp only [waits]
          refine TryHalts.bind (halts_perform (halts_skip halting phase last)) fun next => ?_
          exact .pure (some next)
    · exact TryHalts.bind (halts_make halting calculates phase last m score) fun next =>
        .pure (some next)

/-- A local search in a search with a limit of steps comes to an end. -/
theorem halts_run {t : Termination sh} {limit : ℕ} (whole : c.termination = some t)
    (stops : t.StopsBy limit) (index : ℕ) : TryHalts fun n => p.run (c.patient n) index := by
  refine TryHalts.bind (halts_perform ?_) fun began => ?_
  · refine (halts_onScope (Search.halts_calculate calculates)).bind fun starting => ?_
    refine (halts_onScope (Search.halts_peek (.now c))).bind fun reading => ?_
    refine Halts.bind ?_ fun _ => (halts_onScope (Search.halts_fire c _)).bind fun _ => .pure _
    refine (halts_announce halting .phaseStarted).bind fun _ => .get_bind fun r => ?_
    exact (Halts.liftM (r.own.acceptor.overflows_phaseStarted starting).tireless).bind
      fun acceptor => halts_modifyOwn _
  · refine TryHalts.bind ?_ fun _ => halts_perform ?_
    · simp only [steps_eq]
      refine TryHalts.repeatRound (halts_round halting calculates began.1)
        (fun r => limit - r.steps) ?_ began.2
      intro n phase r next r' ran
      obtain ⟨below, grown⟩ := (p.countsRounds (c.patient n) began.1).whole phase r next r' ran
      have below := below t limit whole stops
      simp only [Running.steps]
      omega
    · exact (halts_phaseEnded halting).bind fun _ => halts_onScope (Search.halts_fire c _)

end LocalSearch

/-! ## Phases and solvers -/

namespace Phase

/-- Every step of the phase comes to an end. -/
def Halting : Phase M S sh → Prop
  | construction _ => True
  | localSearch p => p.Halting

variable {c : Conditions S sh} {t : Termination sh} {limit : ℕ}

/-- A phase in a search with a limit of steps comes to an end. -/
theorem endsIn_run {p : Phase M S sh} (halting : p.Halting) (whole : c.termination = some t)
    (stops : t.StopsBy limit) (calculates : ∀ s, Tireless (c.problem.calculate s)) (index : ℕ)
    (scope : Scope S sh) (own : p.State) :
    EndsIn Ended.result fun n => p.run (c.patient n) index scope own := by
  cases p with
  | construction p =>
    have ended : EndsIn Prod.fst fun n => (p.run (c.patient n) index).run.run.run scope :=
      p.halts_run calculates whole stops index scope
    exact ended.map (fun x => (⟨x.1, x.2, own⟩ : (construction p : Phase M S sh).Ended))
      fun _ _ => Iff.rfl
  | localSearch p =>
    have ended : EndsIn Prod.fst fun n => (p.run (c.patient n) index).run.run.run ⟨scope, own⟩ :=
      LocalSearch.halts_run halting calculates whole stops index ⟨scope, own⟩
    exact ended.map (fun x => (⟨x.1, x.2.scope, x.2.own⟩ : (localSearch p).Ended))
      fun _ _ => Iff.rfl

end Phase

namespace Solver

variable {c : Conditions S sh} {t : Termination sh} {limit : ℕ}

/-- What follows on the end of a phase: the other phases, unless it failed. -/
def runRest (c : Conditions S sh) (rest : List (Phase M S sh)) (index : ℕ) (sts : PhaseStates rest)
    {p : Phase M S sh} (ended : p.Ended) : AllEnded (p :: rest) :=
  match ended.result with
  | .ok (.ok ()) =>
    let others := runAll c rest (index + 1) ended.scope sts
    ⟨others.result, others.scope, (ended.own, others.own)⟩
  | failed => ⟨failed, ended.scope, (ended.own, sts)⟩

theorem runRest_failed {c : Conditions S sh} {rest : List (Phase M S sh)} {index : ℕ}
    {sts : PhaseStates rest} {p : Phase M S sh} {ended : p.Ended} {e : Fault}
    (failed : ended.result = .error e) : (runRest c rest index sts ended).result = .error e := by
  unfold runRest
  rw [failed]

theorem endsIn_runRest {rest : List (Phase M S sh)} {index : ℕ} {sts : PhaseStates rest}
    {p : Phase M S sh} {ended : p.Ended} (tireless : Tireless ended.result)
    (others : ∀ scope, EndsIn AllEnded.result fun n =>
      runAll (c.patient n) rest (index + 1) scope sts) :
    EndsIn AllEnded.result fun n => runRest (c.patient n) rest index sts ended := by
  unfold runRest
  rcases known : ended.result with e | e | _
  · exact EndsIn.of_constant (.error (tireless e known))
  · exact EndsIn.of_constant (.ok _)
  · exact (others ended.scope).map
      (fun others =>
        (⟨others.result, others.scope, (ended.own, others.own)⟩ : AllEnded (p :: rest)))
      fun _ _ => Iff.rfl

theorem endsIn_runAll (whole : c.termination = some t) (stops : t.StopsBy limit)
    (calculates : ∀ s, Tireless (c.problem.calculate s)) {phases : List (Phase M S sh)}
    (halting : ∀ p ∈ phases, p.Halting) (index : ℕ) (scope : Scope S sh)
    (own : PhaseStates phases) :
    EndsIn AllEnded.result fun n => runAll (c.patient n) phases index scope own := by
  induction phases generalizing index scope with
  | nil => exact .of_constant (.ok _)
  | cons p rest ih =>
    obtain ⟨st, sts⟩ := own
    obtain ⟨stop, readings, known⟩ := Search.Peeks.isTerminated c scope
    have looked (n : ℕ) : (Search.isTerminated (c.patient n)).run scope =
      (.ok stop, { scope with readings }) := known scope.director
    simp only [runAll, looked]
    cases stop with
    | true => exact .of_constant (.ok _)
    | false =>
      have first := Phase.endsIn_run (halting p List.mem_cons_self) whole stops calculates index
        { scope with readings } st
      exact first.bind (fun n x short => runRest_failed short) fun n tireless =>
        endsIn_runRest tireless fun scope =>
          ih (fun p member => halting p (.tail _ member)) _ scope sts

/-- The end of a run, or what it broke off with. -/
def fault? {solver : Solver M S sh}
    (ended : Except (Collapse S sh) (Outcome S sh × solver.State)) : Except Fault Unit :=
  (ended.mapError Collapse.fault).map fun _ => ()

theorem fault?_eq_error {solver : Solver M S sh}
    {ended : Except (Collapse S sh) (Outcome S sh × solver.State)} {e : Fault} :
    fault? ended = .error e ↔ ∃ collapse, ended = .error collapse ∧ collapse.fault = e := by
  cases ended with
  | ok answer => simp [fault?, Except.mapError, Except.map]
  | error collapse => simp [fault?, Except.mapError, Except.map]

/-- What follows on the end of all phases. -/
def conclude {solver : Solver M S sh} (c : Conditions S sh) (ended : AllEnded solver.phases) :
    Except (Collapse S sh) (Outcome S sh × solver.State) :=
  match ended.result with
  | .error fault => .error ⟨fault, ended.scope.events.toList⟩
  | .ok (.error e) => .ok (⟨.error e, ended.scope.events.toList⟩, { phases := ended.own })
  | .ok (.ok ()) => .ok (finish c ended.scope { phases := ended.own })

/-- A solver with a limit of steps comes to an end. -/
theorem endsIn_solve {solver : Solver M S sh} (whole : solver.termination = some t)
    (stops : t.StopsBy limit) (halting : ∀ p ∈ solver.phases, p.Halting)
    {around : Surroundings S sh} (calculates : ∀ s, Tireless (around.problem.calculate s))
    (entropy : ℕ) (solution : S) (st : solver.State) :
    EndsIn fault? fun n => solver.solve (around.patient n) entropy solution st := by
  simp only [solve_eq]
  split
  · exact EndsIn.of_constant (.ok ())
  · have started (n : ℕ) : (Search.start (solver.conditions (around.patient n))).run
        (solver.opening entropy solution) = (Search.start (solver.conditions around)).run
        (solver.opening entropy solution) := rfl
    simp only [started]
    obtain ⟨x, tireless, -, stays⟩ := Search.halts_start (c := solver.conditions around) calculates
      (solver.opening entropy solution)
    obtain ⟨n, rfl⟩ := stays.exists
    change Tireless ((Search.start (solver.conditions around)).run
      (solver.opening entropy solution)).1 at tireless
    generalize (Search.start (solver.conditions around)).run (solver.opening entropy solution) =
      reached at tireless ⊢
    rcases reached with ⟨e | _, scope⟩
    · exact EndsIn.of_constant (.error (tireless e rfl))
    · have ended := endsIn_runAll (c := solver.conditions around) whole stops calculates halting 0
        scope st.phases
      refine ended.map (conclude (solver.conditions around)) fun x e => ?_
      unfold conclude
      rcases x.result with e' | e' | _
      · simp [fault?, Except.mapError, Except.map]
      · simp [fault?, Except.mapError, Except.map]
      · simp [fault?, Except.mapError, Except.map]

end Solver

end PlanSearch
