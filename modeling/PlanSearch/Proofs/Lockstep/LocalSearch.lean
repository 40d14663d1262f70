import PlanSearch.Proofs.Acceptor.Renewal
import PlanSearch.Proofs.Lockstep.Construction
import PlanSearch.Proofs.Lockstep.Selector

/-!
# Local searches side by side

What a local search keeps is its selector with the memory, its acceptor and its forager. The
selectors of two searches keep pace with each other; the acceptors agree from the beginning of a
phase on, and the foragers from the beginning of a step on.
-/

namespace PlanSearch

/-- The acceptor will begin a phase, and the forager a step, in the way they always do. -/
structure LocalSearch.Renewable {M S : Type} {sh : Shape} (p : LocalSearch M S sh)
    (a : Acceptor S sh) (f : Forager S sh) : Prop where
  acceptor : a.Renews p.acceptor
  forager : f.stepStarted = p.forager.stepStarted

theorem LocalSearch.Renewable.refl {M S : Type} {sh : Shape} (p : LocalSearch M S sh) :
    p.Renewable p.acceptor p.forager := ⟨.refl _, rfl⟩

/-- A local search goes on from what cannot end it. -/
theorem LocalSearch.perform_bind {M S : Type} {sh : Shape} (p : LocalSearch M S sh) {α β : Type}
    (f : p.Stepping α) (k : α → p.Trying β) (r : p.Running) :
    (p.perform f >>= k).run.run.run r =
      match f.run.run r with
      | (.ok a, r) => (k a).run.run.run r
      | (.error e, r) => (.error e, r) := by
  have performed := run_bind f (fun a => pure (Except.ok a : Except PlanError α)) r
  rw [try_bind]
  change (p.perform f).run.run.run r = _ at performed
  rw [performed]
  rcases f.run.run r with ⟨_ | _, _⟩ <;> rfl

/-- An acceptor changes nothing but the generator, from which it may draw. -/
theorem LocalSearch.run_accept {M S : Type} {sh : Shape} {p : LocalSearch M S sh} (m : Move S)
    (score : Score sh) (step : StepContext sh) (r : p.Running) :
    (p.accept m score step).run.run r =
      match r.own.acceptor.accepts m score step r.scope.generator with
      | .error e => (.error e, r)
      | .ok (accepted, generator) =>
        (.ok accepted, { r with scope := { r.scope with generator } }) := by
  change StateT.run (ExceptT.run (do
    let answer ← r.own.acceptor.accepts m score step r.scope.generator
    set { r with scope := { r.scope with generator := answer.2 } }
    return answer.1 : p.Stepping Bool)) r = _
  rcases r.own.acceptor.accepts m score step r.scope.generator with _ | ⟨accepted, generator⟩
  · rfl
  · rfl

/-- The acceptor breaks off with nothing but the given faults at the beginning of a phase. It does not
anneal unless it may. -/
structure LocalSearch.Calm {M S : Type} {sh : Shape} (p : LocalSearch M S sh)
    (faults : Fault → Prop) (anneals : Prop) : Prop where
  begins : ∀ starting, Breaks faults (p.acceptor.phaseStarted starting)
  anneals : p.acceptor.needsGradient = true → anneals

namespace LocalSearch

/-- Where numbers may be too large nothing has to be known of an acceptor. -/
theorem calm_of_overflow {M S : Type} {sh : Shape} (p : LocalSearch M S sh)
    {faults : Fault → Prop} (overflow : faults .overflow) : p.Calm faults True where
  begins starting e failed := by
    obtain rfl := Acceptor.overflows_phaseStarted _ _ e failed
    exact overflow
  anneals _ := trivial

theorem Calm.mono {M S : Type} {sh : Shape} {p : LocalSearch M S sh}
    {faults faults' : Fault → Prop} {anneals anneals' : Prop} (calm : p.Calm faults anneals)
    (allowed : ∀ e, faults e → faults' e) (more : anneals → anneals') : p.Calm faults' anneals' where
  begins starting e failed := allowed e (calm.begins starting e failed)
  anneals own := more (calm.anneals own)

variable {M S : Type} {sh : Shape} {p : LocalSearch M S sh} {Same : S → S → Prop}
variable {good : Move S → Prop} {faults : Fault → Prop} (sync : p.moves.Sync Same good faults)

/-- Between phases the selectors rest, and all that differs in acceptors and foragers is what they
forget when they begin. -/
structure Resting (a b : p.State) : Prop where
  selector : sync.Rel .idle (a.moves, a.memory) (b.moves, b.memory)
  left : p.Renewable a.acceptor a.forager
  right : p.Renewable b.acceptor b.forager

/-- Within a phase the acceptors are the same. -/
structure Searching (a b : p.State) : Prop where
  selector : sync.Rel .loose (a.moves, a.memory) (b.moves, b.memory)
  acceptor : a.acceptor = b.acceptor
  left : p.Renewable a.acceptor a.forager
  right : p.Renewable b.acceptor b.forager

end LocalSearch

namespace Lockstep

open LocalSearch

variable {M S ι : Type} {sh : Shape} {c : Conditions S sh} {mode : Config.EnvironmentMode}
variable {good : Move S → Prop} (L : Lockstep c mode good ι) {i : ι} {x : Score sh}
variable {p : LocalSearch M S sh} (sync : p.moves.Sync L.Same good L.faults)

/-- Within a step the foragers are the same, too, and what they have found was tried in this
situation. -/
structure Foraging (i : ι) (pace : Pace) (a b : p.State) : Prop where
  selector : sync.Rel pace (a.moves, a.memory) (b.moves, b.memory)
  acceptor : a.acceptor = b.acceptor
  forager : a.forager = b.forager
  left : p.Renewable a.acceptor a.forager
  found : L.Candidate i a.forager.best

variable {sync} {L}

theorem Foraging.right {pace : Pace} {a b : p.State} (own : L.Foraging sync i pace a b) :
    p.Renewable b.acceptor b.forager :=
  ⟨own.acceptor ▸ own.left.acceptor, own.forager ▸ own.left.forager⟩

theorem Foraging.searching {a b : p.State} (own : L.Foraging sync i .tight a b) :
    Searching sync a b :=
  ⟨sync.loose own.selector, own.acceptor, own.left, own.right⟩

variable (L) (sync)

/-- The states of two local searches are related in both parts. -/
def Both (R : Scope S sh → Scope S sh → Prop) (O : p.State → p.State → Prop) (r r' : p.Running) :
    Prop := R r.scope r'.scope ∧ O r.own r'.own

/-- Both local searches failed. Where there was no move, the phases were ended. -/
def Gone (e : PlanError) (r r' : p.Running) : Prop :=
  L.Failed e r.scope r'.scope ∧ (e.kind = "Stall" → Resting sync r.own r'.own) ∧
    (e.kind ≠ "Stall" → Searching sync r.own r'.own)

/-- Both local searches broke off. -/
def Lost (e : Fault) (r r' : p.Running) : Prop := L.Broken e r.scope r'.scope

section Parts

variable {α : Type} {R : Scope S sh → Scope S sh → Prop} {Q : α → Scope S sh → Scope S sh → Prop}
variable {O N : p.State → p.State → Prop}

theorem onScope {f g : Search S sh α} (h : RunTogether R f g Q L.Broken) :
    RunTogether (Both R O) (p.onScope f) (p.onScope g) (fun a => Both (Q a) O) L.Lost := by
  rintro ⟨s, a⟩ ⟨t, b⟩ ⟨related, own⟩
  have ended := h s t related
  change EndAlike _ _ ((f.run.run s).1, (⟨(f.run.run s).2, a⟩ : p.Running))
    ((g.run.run t).1, (⟨(g.run.run t).2, b⟩ : p.Running))
  generalize f.run.run s = reached at ended ⊢
  generalize g.run.run t = reached' at ended ⊢
  cases ended with
  | value related => exact .value ⟨related, own⟩
  | fault broken => exact .fault broken

theorem attempt {f g : Attempt S sh α} (h : TryTogether R f g Q (Scope.Failed L.errors) L.Broken)
    (searching : ∀ a b, O a b → Searching sync a b) :
    TryTogether (Both R O) (p.attempt f) (p.attempt g) (fun a => Both (Q a) O) (L.Gone sync)
      L.Lost := by
  refine RunTogether.mono_post (L.onScope h) ?_
  rintro (e | a) r r' ⟨related, own⟩
  · exact ⟨L.failed_of_move related, fun stalled => absurd stalled (L.not_stalled related.2),
      fun _ => searching _ _ own⟩
  · exact ⟨related, own⟩

/-- What the phases keep is changed, and nothing else. -/
theorem modifyOwn {u : p.State → p.State} (post : ∀ a b, O a b → N (u a) (u b)) :
    RunTogether (Both R O) (p.modifyOwn u) (p.modifyOwn u) (fun _ => Both R N) L.Lost :=
  .modify fun r r' related => ⟨related.1, post r.own r'.own related.2⟩

/-- Using the selector leads to a candidate and a new world, or breaks off where it began. -/
theorem run_select (f : Setting S → p.moves.State → Draw M (α × p.moves.State)) (r : p.Running) :
    (p.select c f).run.run r =
      match f ⟨r.scope.director.solution, c.patience⟩ r.own.moves
          ⟨r.scope.generator, r.own.memory⟩ with
      | .error e => (.error e, r)
      | .ok ((a, moves), w) => (.ok a,
          { scope := { r.scope with generator := w.generator }
            own := { r.own with moves, memory := w.memory } }) := by
  unfold LocalSearch.select
  rw [run_bind]
  change StateT.run _ _ = _
  rw [run_bind]
  generalize drawn : (f ⟨r.scope.director.solution, c.patience⟩ r.own.moves).run
    ⟨r.scope.generator, r.own.memory⟩ = result
  change f _ _ _ = _ at drawn
  rw [drawn]
  rcases result with _ | ⟨⟨a, moves⟩, w⟩ <;> rfl

/-- The selectors of both searches are used together. -/
theorem select {f g : Setting S → p.moves.State → Draw M (α × p.moves.State)}
    {P : p.moves.State × M → p.moves.State × M → Prop}
    {T : α → p.moves.State × M → p.moves.State × M → Prop} {N : α → p.State → p.State → Prop}
    (draws : ∀ s s', L.Same s s' → ∀ a b, DrawTogether (fun m m' => P (a, m) (b, m'))
      (f ⟨s, c.patience⟩ a) (g ⟨s', c.patience⟩ b)
      (fun u v m m' => u.1 = v.1 ∧ T u.1 (u.2, m) (v.2, m')) L.faults)
    (before : ∀ a b, O a b → P (a.moves, a.memory) (b.moves, b.memory))
    (after : ∀ v a b moves moves' memory memory', O a b → T v (moves, memory) (moves', memory') →
      N v { a with moves, memory } { b with moves := moves', memory := memory' }) :
    RunTogether (Both (L.At i x) O) (p.select c f) (p.select (c.under mode) g)
      (fun v => Both (L.At i x) (N v)) L.Lost := by
  rintro ⟨s, a⟩ ⟨t, b⟩ ⟨here, own⟩
  have twin : s.Twin t := L.twin here
  have drawn := draws _ _ (L.same here) a.moves b.moves s.generator a.memory b.memory
    (before a b own)
  rw [run_select, run_select]
  dsimp only at drawn ⊢
  change EndAlike _ _ _ (match g ⟨t.director.solution, c.patience⟩ b.moves ⟨t.generator, b.memory⟩
    with | .error e => _ | .ok ((a, moves), w) => _)
  rw [twin.generator]
  generalize f ⟨_, c.patience⟩ a.moves ⟨_, a.memory⟩ = reached at drawn ⊢
  generalize g ⟨_, c.patience⟩ b.moves ⟨_, b.memory⟩ = reached' at drawn ⊢
  cases drawn with
  | fault allowed => exact .fault ⟨twin.events.symm, allowed⟩
  | @value u v _ _ _ related =>
    obtain ⟨u, moves⟩ := u
    obtain ⟨v, moves'⟩ := v
    obtain ⟨rfl, related⟩ := related
    exact .value ⟨L.generator here _, after _ _ _ _ _ _ _ own related⟩

end Parts

/-! ## One step -/

theorem announce (hook : Hook) {O N : p.State → p.State → Prop}
    (before : ∀ a b, O a b → sync.Rel hook.before (a.moves, a.memory) (b.moves, b.memory))
    (after : ∀ a b moves moves' memory memory', O a b →
      sync.Rel hook.after (moves, memory) (moves', memory') →
      N { a with moves, memory } { b with moves := moves', memory := memory' }) :
    RunTogether (Both (L.At i x) O) (p.announce c hook) (p.announce (c.under mode) hook)
      (fun _ => Both (L.At i x) N) L.Lost := by
  refine L.select (T := fun _ => sync.Rel hook.after) (fun s s' same a b => ?_) before
    fun _ => after
  exact (sync.handle same hook c.patience).bind fun a b => .pure fun _ _ related => ⟨rfl, related⟩

theorem phaseStarted (calm : p.Calm L.faults L.anneals) (starting : Score sh) :
    RunTogether (Both (L.At i x) (Resting sync)) (p.phaseStarted c starting)
      (p.phaseStarted (c.under mode) starting) (fun _ => Both (L.At i x) (Searching sync))
      L.Lost := by
  unfold LocalSearch.phaseStarted
  refine .bind (L.announce sync .phaseStarted
    (N := fun a b => sync.Rel .loose (a.moves, a.memory) (b.moves, b.memory) ∧
      p.Renewable a.acceptor a.forager ∧ p.Renewable b.acceptor b.forager)
    (fun a b own => own.selector) fun a b _ _ _ _ own related =>
      ⟨related, own.left, own.right⟩) fun _ => ?_
  refine .get_bind fun r r' ⟨here, selector, left, right⟩ => ?_
  have same : r'.own.acceptor.phaseStarted starting = r.own.acceptor.phaseStarted starting :=
    (right.acceptor.begins starting).trans (left.acceptor.begins starting).symm
  rw [same]
  refine .bind (.liftM ?_) fun acceptor => .assuming fun began => .modify ?_
  · rintro e _ _ failed ⟨rfl, rfl⟩
    rw [left.acceptor.begins] at failed
    exact ⟨(L.twin here).events.symm, calm.begins starting e failed⟩
  · rintro _ _ ⟨rfl, rfl⟩
    have renews := (Acceptor.renews_of_phaseStarted began).trans left.acceptor
    exact ⟨here, selector, rfl, ⟨renews, left.forager⟩, ⟨renews, right.forager⟩⟩

theorem stepStarted (step : StepContext sh) :
    RunTogether (Both (L.At i x) (Searching sync)) (p.stepStarted c step)
      (p.stepStarted (c.under mode) step) (fun _ => Both (L.At i x) (L.Foraging sync i .loose))
      L.Lost := by
  unfold LocalSearch.stepStarted
  refine .bind (L.announce sync .stepStarted (N := Searching sync) (fun a b own => own.selector)
    fun a b _ _ _ _ own related => ⟨related, own.acceptor, own.left, own.right⟩) fun _ => ?_
  refine L.modifyOwn fun a b own => ⟨own.selector, ?_, ?_, ?_, ?_⟩
  · exact congrArg (Acceptor.stepStarted step) own.acceptor
  · exact own.left.forager.trans own.right.forager.symm
  · exact ⟨(Acceptor.renews_stepStarted _ _).trans own.left.acceptor, own.left.forager⟩
  · rintro _ _ ⟨⟩

theorem budget :
    RunTogether (Both (L.At i x) (L.Foraging sync i .loose)) p.budget p.budget
      (fun _ => Both (L.At i x) (L.Foraging sync i .loose)) L.Lost := by
  unfold LocalSearch.budget
  split
  · exact .pure _ fun _ _ => id
  · split
    · refine .get_bind fun r r' ⟨here, own⟩ => ?_
      obtain ⟨same, breaks⟩ := sync.size (L.same here) own.selector
      rw [← same]
      refine .bind (.liftM ?_) fun size => .pure _ ?_
      · rintro e _ _ failed ⟨rfl, rfl⟩
        exact ⟨(L.twin here).events.symm, breaks e failed⟩
      · rintro _ _ ⟨-, rfl, rfl⟩
        exact ⟨here, own⟩
    · exact .pure _ fun _ _ => id

theorem restart :
    RunTogether (Both (L.At i x) (L.Foraging sync i .loose))
      (p.select c fun set st => do return ((), ← p.moves.restart set st))
      (p.select (c.under mode) fun set st => do return ((), ← p.moves.restart set st))
      (fun _ => Both (L.At i x) (L.Foraging sync i .tight)) L.Lost := by
  refine L.select (T := fun _ => sync.Rel .tight) (fun s s' same a b => ?_)
    (fun a b own => own.selector) fun _ a b _ _ _ _ own related =>
      ⟨related, own.acceptor, own.forager, own.left, own.found⟩
  exact (sync.restart same c.patience).bind fun a b => .pure fun _ _ related => ⟨rfl, related⟩

theorem nextCandidate :
    RunTogether (Both (L.At i x) (L.Foraging sync i .tight)) (p.nextCandidate c)
      (p.nextCandidate (c.under mode))
      (fun candidate r r' => (∀ m, candidate = some m → good m) ∧
        Both (L.At i x) (L.Foraging sync i .tight) r r') L.Lost := by
  have selected : RunTogether (Both (L.At i x) (L.Foraging sync i .tight)) (p.nextCandidate c)
      (p.nextCandidate (c.under mode)) (fun candidate => Both (L.At i x) fun a b =>
        (∀ m, candidate = some m → good m) ∧ L.Foraging sync i .tight a b) L.Lost :=
    L.select (T := fun candidate a b => (∀ m, candidate = some m → good m) ∧ sync.Rel .tight a b)
      (fun s s' same a b => (sync.next same c.patience).consequence (fun _ _ => id)
        fun _ _ _ _ related => ⟨related.1, related.2.2, related.2.1⟩)
      (fun a b own => own.selector) fun _ a b _ _ _ _ own related =>
        ⟨related.1, related.2, own.acceptor, own.forager, ⟨own.left.acceptor, own.left.forager⟩,
          own.found⟩
  exact selected.mono_post fun _ _ _ related => ⟨related.2.1, related.1, related.2.2⟩

theorem accept (calm : p.Calm L.faults L.anneals) {m : Move S} {score : Score sh}
    {step : StepContext sh} (mGood : good m) (leads : L.Leads i m score) (last : step.lastStep = x) :
    RunTogether (Both (L.At i x) (L.Foraging sync i .tight)) (p.accept m score step)
      (p.accept m score step) (fun _ => Both (L.At i x) (L.Foraging sync i .tight)) L.Lost := by
  unfold LocalSearch.accept
  refine .get_bind fun r r' ⟨here, own⟩ => ?_
  have twin := L.twin here
  rw [twin.generator, ← own.acceptor]
  refine .bind (.liftM ?_) fun ⟨accepted, generator⟩ => .assuming fun _ => ?_
  · rintro e _ _ failed ⟨rfl, rfl⟩
    refine ⟨twin.events.symm, Acceptor.breaks_accepts (fun needs worse => ?_) m _ e failed⟩
    subst last
    exact L.differs (calm.anneals (own.left.acceptor.needsGradient ▸ needs)) here mGood leads worse
  · rintro _ _ ⟨rfl, rfl⟩
    exact .value ⟨L.generator here generator, own⟩

theorem forage {m : Move S} {score : Score sh} {step : StepContext sh} (mGood : good m)
    (leads : L.Leads i m score) :
    RunTogether (Both (L.At i x) (L.Foraging sync i .tight)) (p.forage m score step)
      (p.forage m score step) (fun _ => Both (L.At i x) (L.Foraging sync i .tight)) L.Lost := by
  unfold LocalSearch.forage
  refine .get_bind fun r r' ⟨here, own⟩ => ?_
  rw [← own.forager]
  refine .bind (Q := fun _ => Both (L.At i x) (L.Foraging sync i .tight)) (.modify ?_)
    fun _ => .pure _ fun _ _ => id
  rintro _ _ ⟨rfl, rfl⟩
  refine ⟨here, own.selector, own.acceptor, rfl, ⟨own.left.acceptor, own.left.forager⟩, ?_⟩
  intro m' y best
  rcases Forager.best_add _ m score step with new | old
  · obtain ⟨rfl, rfl⟩ := Prod.mk.inj (Option.some.inj (new.symm.trans best))
    exact ⟨mGood, leads⟩
  · exact own.found m' y (old.symm.trans best)

/-- Both searches look at their working solution before they go on. -/
theorem try_working {O : p.State → p.State → Prop} {α : Type} {h h' : S → p.Trying α}
    {Q : α → p.Running → p.Running → Prop} {E : PlanError → p.Running → p.Running → Prop}
    {F : Fault → p.Running → p.Running → Prop}
    (rest : ∀ r r', Both (L.At i x) O r r' →
      TryTogether (fun s s' => s = r ∧ s' = r') (h r.scope.director.solution)
        (h' r'.scope.director.solution) Q E F) :
    TryTogether (Both (L.At i x) O) (p.perform p.working >>= h) (p.perform p.working >>= h') Q E F :=
  fun r r' related => rest r r' related r r' ⟨rfl, rfl⟩

theorem evaluation {m : Move S} (mGood : good m) {r r' : p.Running}
    (related : Both (L.At i x) (L.Foraging sync i .tight) r r')
    (doable : m.isDoable r.scope.director.solution = true) :
    TryTogether (fun s s' => s = r ∧ s' = r') (p.attempt (Search.evaluate c m x))
      (p.attempt (Search.evaluate (c.under mode) m x))
      (fun y r r' => L.Leads i m y ∧ Both (L.At i x) (L.Foraging sync i .tight) r r')
      (L.Gone sync) L.Lost := by
  refine (L.attempt sync (O := L.Foraging sync i .tight) (L.evaluate i x m mGood)
    fun _ _ => Foraging.searching).consequence ?_ fun _ _ _ after => ⟨after.1.1, after.1.2, after.2⟩
  rintro _ _ ⟨rfl, rfl⟩
  exact ⟨⟨related.1, doable⟩, related.2⟩

theorem tryCandidates (calm : p.Calm L.faults L.anneals) (rounds : Nat) (left : Option Nat)
    {step : StepContext sh} (last : step.lastStep = x) :
    TryTogether (Both (L.At i x) (L.Foraging sync i .tight))
      (p.tryCandidates c rounds left step) (p.tryCandidates (c.under mode) rounds left step)
      (fun step r r' => step.lastStep = x ∧ Both (L.At i x) (L.Foraging sync i .tight) r r')
      (L.Gone sync) L.Lost := by
  have done {step : StepContext sh} (last : step.lastStep = x) :
      TryTogether (Both (L.At i x) (L.Foraging sync i .tight)) (pure step) (pure step)
        (fun step r r' => step.lastStep = x ∧ Both (L.At i x) (L.Foraging sync i .tight) r r')
        (L.Gone sync) L.Lost := .pure step fun _ _ related => ⟨last, related⟩
  induction rounds generalizing left step with
  | zero =>
    exact .lift (.throw _ fun r r' related => ⟨(L.twin related.1).events.symm, L.exhausted⟩)
  | succ rounds ih =>
    subst last
    rw [LocalSearch.tryCandidates, LocalSearch.tryCandidates]
    split
    · exact done rfl
    refine .bind (.lift (L.nextCandidate sync)) fun candidate => .assuming fun allGood => ?_
    cases candidate with
    | none => exact done rfl
    | some m =>
      have mGood := allGood m rfl
      refine L.try_working fun r r' related => ?_
      dsimp only
      rw [← L.isDoable (L.same related.1) mGood]
      cases doable : m.isDoable r.scope.director.solution with
      | false =>
        refine (ih _ rfl).consequence ?_ fun _ _ _ => id
        rintro _ _ ⟨rfl, rfl⟩
        exact related
      | true =>
        refine .bind (L.evaluation sync mGood related doable) fun y => .assuming fun leads => ?_
        refine .bind (.lift (L.accept sync calm mGood leads rfl)) fun accepted => ?_
        cases accepted with
        | false => exact ih _ rfl
        | true =>
          refine .bind (.lift (L.forage sync mGood leads)) fun enough => ?_
          cases enough with
          | true => exact done rfl
          | false => exact ih _ rfl

theorem pick :
    RunTogether (Both (L.At i x) (L.Foraging sync i .tight)) p.pick p.pick
      (fun picked r r' => L.Candidate i picked ∧ Both (L.At i x) (Searching sync) r r') L.Lost := by
  unfold LocalSearch.pick
  refine .get_bind fun r r' ⟨here, own⟩ => ?_
  rw [← own.forager]
  refine .bind (Q := fun _ => Both (L.At i x) (Searching sync)) (.modify ?_)
    fun _ => .pure _ fun _ _ related => ⟨own.found, related⟩
  rintro _ _ ⟨rfl, rfl⟩
  exact ⟨here, sync.loose own.selector, own.acceptor, ⟨own.left.acceptor, own.left.forager⟩,
    ⟨own.right.acceptor, own.left.forager⟩⟩

theorem decide (calm : p.Calm L.faults L.anneals) {step : StepContext sh} (last : step.lastStep = x) :
    TryTogether (Both (L.At i x) (L.Foraging sync i .loose)) (p.decide c step)
      (p.decide (c.under mode) step)
      (fun decided r r' => (L.Candidate i decided.1 ∧ decided.2.lastStep = x) ∧
        Both (L.At i x) (Searching sync) r r') (L.Gone sync) L.Lost := by
  unfold LocalSearch.decide
  refine .bind (.lift (L.budget sync)) fun left => .bind (.lift (L.restart sync)) fun _ => ?_
  refine .bind (L.tryCandidates sync calm c.patience left last) fun step => .assuming fun last => ?_
  refine .bind (.lift (L.pick sync)) fun picked => .assuming fun won => ?_
  exact .pure _ fun _ _ related => ⟨⟨won, last⟩, related⟩

theorem stepEnded (made : Option (Acceptor.Made S sh)) :
    RunTogether (Both (L.At i x) (Searching sync)) (p.stepEnded c made)
      (p.stepEnded (c.under mode) made) (fun _ => Both (L.At i x) (Searching sync)) L.Lost := by
  unfold LocalSearch.stepEnded
  have closed := L.announce sync (i := i) (x := x) .stepEnded (O := Searching sync)
    (N := Searching sync) (fun a b own => own.selector)
    fun a b _ _ _ _ own related => ⟨related, own.acceptor, own.left, own.right⟩
  cases made with
  | none => exact closed
  | some made =>
    have noted : ∀ a b, Searching sync a b →
        Searching sync { a with acceptor := a.acceptor.stepEnded made }
          { b with acceptor := b.acceptor.stepEnded made } := by
      intro a b own
      refine ⟨own.selector, congrArg (Acceptor.stepEnded made) own.acceptor, ?_, ?_⟩
      · exact ⟨(Acceptor.renews_stepEnded _ _).trans own.left.acceptor, own.left.forager⟩
      · exact ⟨(Acceptor.renews_stepEnded _ _).trans own.right.acceptor, own.right.forager⟩
    exact .bind (L.modifyOwn noted) fun _ => closed

theorem phaseEnded :
    RunTogether (Both (L.At i x) (Searching sync)) (p.phaseEnded c) (p.phaseEnded (c.under mode))
      (fun _ => Both (L.At i x) (Resting sync)) L.Lost := by
  unfold LocalSearch.phaseEnded
  refine .bind (L.announce sync .phaseEnded (N := Resting sync) (fun a b own => own.selector)
    fun a b _ _ _ _ own related => ⟨related, own.left, own.right⟩) fun _ => ?_
  refine L.modifyOwn fun a b own => ⟨own.selector, ?_, ?_⟩
  · exact ⟨(Acceptor.renews_phaseEnded _).trans own.left.acceptor, own.left.forager⟩
  · exact ⟨(Acceptor.renews_phaseEnded _).trans own.right.acceptor, own.right.forager⟩

/-! ## The phase -/

/-- What a phase counts after a step, and where the searches have come. -/
def Stepped (i : ι) (phase : PhaseContext sh) (r r' : p.Running) : Prop :=
  ∃ j y, L.Goes i j ∧ phase.last = some y ∧ Both (L.At j y) (Searching sync) r r'

theorem make {phase : PhaseContext sh} {step : StepContext sh} {m : Move S} {y : Score sh}
    (mGood : good m) (leads : L.Leads i m y) :
    TryTogether (Both (L.At i x) (Searching sync)) (p.make c phase step m y)
      (p.make (c.under mode) phase step m y) (L.Stepped sync i) (L.Gone sync) L.Lost := by
  unfold LocalSearch.make
  have applied : TryTogether (Both (L.At i x) (Searching sync)) (p.attempt (Search.apply m))
      (p.attempt (Search.apply m))
      (fun _ r r' => ∃ j, L.Goes i j ∧ Both (L.Made j y) (Searching sync) r r') (L.Gone sync)
      L.Lost :=
    (L.attempt sync (L.apply i x m y mGood leads) fun _ _ => id).mono_post
      fun _ _ _ ⟨⟨j, goes, made⟩, own⟩ => ⟨j, goes, made, own⟩
  refine .bind applied fun undo => .exists fun j => .assuming fun goes => ?_
  refine .bind (L.attempt sync (L.assertScore j y) fun _ _ => id) fun _ => .lift ?_
  have offered : RunTogether (Both (L.Made j y) (Searching sync)) (p.onScope (Search.offer c y))
      (p.onScope (Search.offer c y))
      (fun _ r r' => ∃ k, L.Goes j k ∧ Both (L.At k y) (Searching sync) r r') L.Lost :=
    (L.onScope (L.offer j y)).mono_post fun _ _ _ ⟨⟨k, goes, here⟩, own⟩ => ⟨k, goes, here, own⟩
  refine .bind (L.onScope (L.countStep j y)) fun _ => .bind offered fun improved => ?_
  refine .exists fun k => .assuming fun further => ?_
  refine .bind (L.stepEnded sync _) fun _ => ?_
  refine .bind (L.onScope (L.fire _ (by rintro ⟨⟩))) fun _ => .pure _ fun r r' related => ?_
  exact ⟨k, y, L.goes_trans goes further, rfl, related⟩

theorem skip {phase : PhaseContext sh} {step : StepContext sh} (last : step.lastStep = x) :
    RunTogether (Both (L.At i x) (Searching sync)) (p.skip c phase step)
      (p.skip (c.under mode) phase step) (L.Stepped sync i) L.Lost := by
  unfold LocalSearch.skip
  refine .bind (L.onScope L.skipped) fun _ => .bind (L.stepEnded sync none) fun _ => ?_
  refine .bind (L.onScope (L.fire _ (by rintro ⟨⟩))) fun _ => .pure _ fun r r' related => ?_
  exact ⟨i, x, L.goes_refl i, congrArg some last, related⟩

theorem beginStep {phase : PhaseContext sh} (last : phase.last = some x) (starting : Score sh) :
    RunTogether (Both (L.At i x) (Searching sync)) (p.beginStep c phase starting)
      (p.beginStep (c.under mode) phase starting)
      (fun step r r' => step.lastStep = x ∧ Both (L.At i x) (L.Foraging sync i .loose) r r')
      L.Lost := by
  unfold LocalSearch.beginStep
  refine .get_bind fun r r' related => ?_
  rw [(L.twin related.1).best]
  refine .bind (Q := fun _ => Both (L.At i x) (Searching sync)) ?_ fun gradient => ?_
  · refine (L.onScope (L.peek (.phaseGradient c p.termination phase))).consequence ?_
      fun _ _ _ => id
    rintro _ _ ⟨rfl, rfl⟩
    exact related
  refine .bind (L.onScope (L.fire _ (by rintro ⟨⟩))) fun _ => ?_
  refine .bind (L.stepStarted sync _) fun _ => .pure _ fun _ _ related => ⟨?_, related⟩
  rw [last]
  rfl

theorem localSearchRound (calm : p.Calm L.faults L.anneals) (starting : Score sh) :
    L.RoundTogether LocalSearch.Running.scope (fun r r' => Searching sync r.own r'.own)
      (L.Gone sync) (p.round c starting) (p.round (c.under mode) starting) := by
  intro i x phase last
  have stays {r r' : p.Running} (related : Both (L.At i x) (Searching sync) r r') :
      ∃ j y, L.Goes i j ∧ L.At j y r.scope r'.scope ∧ Searching sync r.own r'.own ∧
        ∀ next, (none : Option (PhaseContext sh)) = some next → next.last = some y :=
    ⟨i, x, L.goes_refl i, related.1, related.2, by rintro _ ⟨⟩⟩
  have goes {phase : PhaseContext sh} {r r' : p.Running} (stepped : L.Stepped sync i phase r r') :
      ∃ j y, L.Goes i j ∧ L.At j y r.scope r'.scope ∧ Searching sync r.own r'.own ∧
        ∀ next, some phase = some next → next.last = some y := by
    obtain ⟨j, y, goes, last, here, own⟩ := stepped
    refine ⟨j, y, goes, here, own, ?_⟩
    rintro _ ⟨⟩
    exact last
  unfold LocalSearch.round
  refine .bind (Q := fun _ => Both (L.At i x) (Searching sync)) (.lift
    (L.onScope (L.peek (.phaseIsTerminated c p.termination phase)))) fun stop => ?_
  cases stop with
  | true => exact .pure none fun _ _ => stays
  | false =>
    refine .bind (.lift (L.beginStep sync last starting)) fun step => .assuming fun last => ?_
    refine .bind (L.decide sync calm last) fun ⟨picked, step⟩ => .assuming fun ⟨won, last⟩ => ?_
    match picked, won with
    | some (m, y), won =>
      obtain ⟨mGood, leads⟩ := won m y rfl
      exact .bind (L.make sync mGood leads) fun phase => .pure _ fun _ _ => goes
    | none, _ =>
      dsimp only
      split
      · refine .bind (.lift (L.stepEnded sync none)) fun _ => ?_
        refine .bind (.lift (L.onScope L.initialized)) fun initialized => ?_
        cases initialized with
        | true => exact .pure none fun _ _ => stays
        | false =>
          refine .bind (.lift (L.phaseEnded sync)) fun _ => .throw _ fun r r' related => ?_
          exact ⟨⟨L.twin related.1, .inr rfl⟩, fun _ => related.2, fun other => absurd rfl other⟩
      · rw [Conditions.under_termination]
        split
        · exact .bind (.lift (L.stepEnded sync none)) fun _ => .pure none fun _ _ => stays
        · exact .bind (.lift (L.skip sync last)) fun phase => .pure _ fun _ _ => goes

theorem «begin» (calm : p.Calm L.faults L.anneals) (index : Nat) :
    RunTogether (Both (L.At i x) (Resting sync)) (p.begin c index) (p.begin (c.under mode) index)
      (fun first r r' => first.2.last = some first.1 ∧
        Both (L.At i first.1) (Searching sync) r r') L.Lost := by
  unfold LocalSearch.begin
  refine .bind (L.onScope (L.calculate i x)) fun y => ?_
  refine .bind (L.onScope (L.peek (.now c))) fun _ => ?_
  refine .bind (L.phaseStarted sync calm y) fun _ => ?_
  exact .bind (L.onScope (L.fire _ (by rintro ⟨⟩))) fun _ => .pure _ fun _ _ related =>
    ⟨rfl, related⟩

theorem course_localSearch (calm : p.Calm L.faults L.anneals) (index : Nat) {r r' : p.Running}
    (related : Both (L.At i x) (Resting sync) r r') :
    L.Course LocalSearch.Running.scope (fun r r' => Resting sync r.own r'.own) (L.Gone sync) i
      (p.trail c index r) (p.trail (c.under mode) index r') ((p.run c index).run.run.run r)
      ((p.run (c.under mode) index).run.run.run r') := by
  have began := L.begin sync calm index r r' related
  rw [LocalSearch.run, LocalSearch.run, LocalSearch.perform_bind, LocalSearch.perform_bind,
    LocalSearch.trail, LocalSearch.trail]
  generalize (p.begin c index).run.run r = reached at began ⊢
  generalize (p.begin (c.under mode) index).run.run r' = reached' at began ⊢
  cases began with
  | fault broken => exact ⟨i, .nil (L.goes_refl i), .fault broken⟩
  | @value first r r' related =>
    obtain ⟨starting, phase⟩ := first
    obtain ⟨last, here, own⟩ := related
    dsimp only
    rw [LocalSearch.steps_eq, LocalSearch.steps_eq]
    refine (L.course_repeatRound (L.localSearchRound sync calm starting) c.patience last here
      own).andThen fun j y => .lift (.bind (L.phaseEnded sync) fun _ => ?_)
    exact L.onScope (L.fire _ (by rintro ⟨⟩))

end Lockstep

end PlanSearch
