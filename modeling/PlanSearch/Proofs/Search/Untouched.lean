import Mathlib.Order.Defs.Unbundled
import PlanSearch.Proofs.Lockstep.LocalSearch
import PlanSearch.Proofs.Search.Telling

/-!
# What a computation leaves alone

Most parts of a search change little of its state. A computation keeps a view of the state if it
leaves that alone however it ends. It carries a relation if what is viewed before it is so related to
what is viewed after it. The rules follow the ways in which computations are put together.
-/

namespace PlanSearch

variable {M S σ γ τ : Type} {sh : Shape} {α β : Type}

/-- However the computation ends, what is viewed is what it was. -/
def Keeps (view : σ → γ) (f : ExceptT Fault (StateM σ) α) : Prop :=
  ∀ s, view (f.run.run s).2 = view s

/-- However the attempt ends, what is viewed is what it was. -/
abbrev TryKeeps (view : σ → γ) (f : ExceptT PlanError (ExceptT Fault (StateM σ)) α) : Prop :=
  Keeps view f.run

namespace Keeps

variable {view : σ → γ} {f : ExceptT Fault (StateM σ) α} {k : α → ExceptT Fault (StateM σ) β}

theorem pure (a : α) : Keeps view (Pure.pure a) := fun _ => rfl

theorem throw (e : Fault) : Keeps view (MonadExcept.throw e : ExceptT Fault (StateM σ) α) :=
  fun _ => rfl

theorem bind (first : Keeps view f) (rest : ∀ a, Keeps view (k a)) : Keeps view (f >>= k) := by
  intro s
  have kept := first s
  rw [run_bind]
  generalize f.run.run s = reached at kept ⊢
  rcases reached with ⟨_ | a, t⟩
  · exact kept
  · exact (rest a t).trans kept

theorem modify {u : σ → σ} (same : ∀ s, view (u s) = view s) : Keeps view (modify u) := same

theorem get_bind {h : σ → ExceptT Fault (StateM σ) α} (rest : ∀ s, Keeps view (h s)) :
    Keeps view (get >>= h) := fun s => rest s s

theorem liftM (y : Except Fault α) :
    Keeps view (MonadLiftT.monadLift y : ExceptT Fault (StateM σ) α) := by
  cases y with
  | error e => exact .throw e
  | ok a => exact .pure a

/-- What is viewed after a run that yields a value. -/
theorem ran (keeps : Keeps view f) {s t : σ} {a : α} (ran : f.run.run s = (.ok a, t)) :
    view t = view s := by
  have kept := keeps s
  rwa [ran] at kept

/-- A view of a view is kept as well. -/
theorem map {δ : Type} (g : γ → δ) (keeps : Keeps view f) : Keeps (g ∘ view) f :=
  fun s => congrArg g (keeps s)

end Keeps

namespace TryKeeps

variable {view : σ → γ} {f : ExceptT PlanError (ExceptT Fault (StateM σ)) α}
variable {k : α → ExceptT PlanError (ExceptT Fault (StateM σ)) β}

theorem pure (a : α) : TryKeeps view (Pure.pure a) := Keeps.pure (Except.ok a)

theorem throw (e : PlanError) :
    TryKeeps view (MonadExcept.throw e : ExceptT PlanError (ExceptT Fault (StateM σ)) α) :=
  Keeps.pure (Except.error e : Except PlanError α)

theorem bind (first : TryKeeps view f) (rest : ∀ a, TryKeeps view (k a)) :
    TryKeeps view (f >>= k) := by
  refine Keeps.bind first fun result => ?_
  cases result with
  | ok a => exact rest a
  | error e => exact Keeps.pure (Except.error e : Except PlanError β)

theorem lift {g : ExceptT Fault (StateM σ) α} (keeps : Keeps view g) :
    TryKeeps view (ExceptT.lift g) := Keeps.bind keeps fun a => Keeps.pure (Except.ok a)

theorem get_bind {h : σ → ExceptT PlanError (ExceptT Fault (StateM σ)) α}
    (rest : ∀ s, TryKeeps view (h s)) : TryKeeps view (get >>= h) := fun s => rest s s

end TryKeeps

/-! ## What is carried over -/

/-- However the computation ends, what is viewed before it is related to what is viewed after it. -/
def Carries (view : σ → τ) (R : τ → τ → Prop) (f : ExceptT Fault (StateM σ) α) : Prop :=
  ∀ s, R (view s) (view (f.run.run s).2)

/-- However the attempt ends, what is viewed before it is related to what is viewed after it. -/
abbrev TryCarries (view : σ → τ) (R : τ → τ → Prop)
    (f : ExceptT PlanError (ExceptT Fault (StateM σ)) α) : Prop := Carries view R f.run

namespace Carries

variable {view : σ → τ} {R : τ → τ → Prop} {f : ExceptT Fault (StateM σ) α}
variable {k : α → ExceptT Fault (StateM σ) β}

theorem mono {R' : τ → τ → Prop} (carries : Carries view R f) (weaker : ∀ s t, R s t → R' s t) :
    Carries view R' f := fun s => weaker _ _ (carries s)

/-- What is viewed after a run that yields a value. -/
theorem ran (carries : Carries view R f) {s t : σ} {a : α} (ran : f.run.run s = (.ok a, t)) :
    R (view s) (view t) := by
  have related := carries s
  rwa [ran] at related

theorem modify {u : σ → σ} (related : ∀ s, R (view s) (view (u s))) :
    Carries view R (modify u) := related

theorem get_bind {h : σ → ExceptT Fault (StateM σ) α} (rest : ∀ s, Carries view R (h s)) :
    Carries view R (get >>= h) := fun s => rest s s

variable [IsPreorder τ R]

theorem pure (a : α) : Carries view R (Pure.pure a : ExceptT Fault (StateM σ) α) :=
  fun s => refl_of R (view s)

theorem throw (e : Fault) : Carries view R (MonadExcept.throw e : ExceptT Fault (StateM σ) α) :=
  fun s => refl_of R (view s)

/-- What goes on after the first computation may depend on what that has come to. -/
theorem bind_from {s : σ} (first : R (view s) (view (f.run.run s).2))
    (rest : ∀ a t, f.run.run s = (.ok a, t) → R (view t) (view ((k a).run.run t).2)) :
    R (view s) (view ((f >>= k).run.run s).2) := by
  rw [run_bind]
  generalize f.run.run s = reached at first rest ⊢
  rcases reached with ⟨_ | a, t⟩
  · exact first
  · exact trans_of R first (rest a t rfl)

theorem bind (first : Carries view R f) (rest : ∀ a, Carries view R (k a)) :
    Carries view R (f >>= k) := fun s => bind_from (first s) fun a t _ => rest a t

theorem liftM (y : Except Fault α) :
    Carries view R (MonadLiftT.monadLift y : ExceptT Fault (StateM σ) α) := by
  cases y with
  | error e => exact .throw e
  | ok a => exact .pure a

/-- What leaves alone all that is viewed is no obstacle. -/
theorem of_keeps (keeps : Keeps view f) : Carries view R f := fun s => by
  rw [keeps s]
  exact refl_of R (view s)

end Carries

/-- To keep a view is to carry equality. -/
theorem Keeps.of_carries {view : σ → γ} {f : ExceptT Fault (StateM σ) α}
    (carries : Carries view Eq f) : Keeps view f := fun s => (carries s).symm

namespace TryCarries

variable {view : σ → τ} {R : τ → τ → Prop}
variable {f : ExceptT PlanError (ExceptT Fault (StateM σ)) α}
variable {k : α → ExceptT PlanError (ExceptT Fault (StateM σ)) β}

theorem get_bind {h : σ → ExceptT PlanError (ExceptT Fault (StateM σ)) α}
    (rest : ∀ s, TryCarries view R (h s)) : TryCarries view R (get >>= h) := fun s => rest s s

variable [IsPreorder τ R]

theorem pure (a : α) :
    TryCarries view R (Pure.pure a : ExceptT PlanError (ExceptT Fault (StateM σ)) α) :=
  Carries.pure (Except.ok a)

theorem throw (e : PlanError) :
    TryCarries view R (MonadExcept.throw e : ExceptT PlanError (ExceptT Fault (StateM σ)) α) :=
  Carries.pure (Except.error e : Except PlanError α)

/-- What goes on after the first attempt may depend on what that has come to. -/
theorem bind_from {s : σ} (first : R (view s) (view (f.run.run.run s).2))
    (rest : ∀ a t, f.run.run.run s = (.ok (.ok a), t) → R (view t) (view ((k a).run.run.run t).2)) :
    R (view s) (view ((f >>= k).run.run.run s).2) := by
  refine Carries.bind_from first fun result t ran => ?_
  cases result with
  | ok a => exact rest a t ran
  | error e => exact refl_of R (view t)

theorem bind (first : TryCarries view R f) (rest : ∀ a, TryCarries view R (k a)) :
    TryCarries view R (f >>= k) := fun s => bind_from (first s) fun a t _ => rest a t

theorem lift {g : ExceptT Fault (StateM σ) α} (carries : Carries view R g) :
    TryCarries view R (ExceptT.lift g) := Carries.bind carries fun a => Carries.pure (Except.ok a)

end TryCarries

/-! ## Operations of a search -/

namespace Search

variable (c : Conditions S sh)

/-- What reads the clock and the counts changes nothing else. -/
theorem Peeks.keeps {f : Search S sh α} (peeks : Peeks f)
    {view : Scope S sh → γ}
    (same : ∀ (s : Scope S sh) readings, view { s with readings } = view s) : Keeps view f := by
  intro s
  obtain ⟨a, readings, known⟩ := peeks s
  rw [show f.run.run s = (.ok a, { s with readings }) from known s.director]
  exact same s readings

theorem keeps_steps_peek {α : Type} {f : Search S sh α} (peeks : Peeks f) : Keeps Scope.steps f :=
  peeks.keeps fun _ _ => rfl

theorem keeps_steps_fire (e : Event S sh) : Keeps Scope.steps (fire c e) := .modify fun _ => rfl

theorem keeps_steps_calculate : Keeps Scope.steps (calculate c) := by
  intro s
  rw [run_calculate]
  rcases s.director.calculate c.problem with _ | ⟨score, director⟩
  · rfl
  · rfl

theorem keeps_steps_isInitialized : Keeps Scope.steps (isInitialized c) :=
  .get_bind fun _ => .pure _

theorem keeps_steps_offer (score : Score sh) : Keeps Scope.steps (offer c score) := by
  intro s
  rw [run_offer]
  dsimp only
  split
  · rfl
  · rfl

theorem keeps_steps_apply (m : Move S) : TryKeeps Scope.steps (apply m : Attempt S sh (Move S)) :=
  fun _ => rfl

theorem keeps_steps_evaluate (m : Move S) (restored : Score sh) :
    TryKeeps Scope.steps (evaluate c m restored) := by
  refine TryKeeps.bind (keeps_steps_apply m) fun undo => ?_
  refine TryKeeps.bind (.lift (keeps_steps_calculate c)) fun score => ?_
  refine TryKeeps.bind (keeps_steps_apply undo) fun _ => ?_
  split
  · refine TryKeeps.bind (.lift (keeps_steps_calculate c)) fun again => ?_
    split
    · exact TryKeeps.bind (.throw _) fun _ => .pure score
    · exact .pure score
  · exact .pure score

theorem keeps_steps_assertScore (expected : Score sh) :
    TryKeeps Scope.steps (assertScore c expected) := by
  unfold assertScore
  split
  · refine TryKeeps.bind (.lift (keeps_steps_calculate c)) fun actual => ?_
    split
    · exact .throw _
    · exact .pure ()
  · exact .pure ()

end Search

/-! ## Local search -/

namespace LocalSearch

variable {p : LocalSearch M S sh} {view : p.Running → γ} (c : Conditions S sh)

/-- The parts of a local search that judge candidates: its acceptor and its forager. -/
def Running.judges (r : p.Running) : Acceptor S sh × Forager S sh :=
  (r.own.acceptor, r.own.forager)

/-- What was done on the state of the search. -/
theorem scope_of_onScope {f : Search S sh α} {a : α} {r r' : p.Running}
    (ran : (p.onScope f).run.run r = (.ok a, r')) : f.run.run r.scope = (.ok a, r'.scope) := by
  obtain ⟨value, rfl⟩ := Prod.mk.inj ran
  exact Prod.ext value rfl

theorem keeps_own_onScope (f : Search S sh α) : Keeps Running.own (p.onScope f) := fun _ => rfl

theorem keeps_scope_onScope {see : Scope S sh → γ} {f : Search S sh α} (keeps : Keeps see f) :
    Keeps (fun r => see r.scope) (p.onScope f) := fun r => keeps r.scope

/-- An attempt on the state of the search leaves alone what the phase keeps. -/
theorem keeps_scoped_attempt (f : Attempt S sh α)
    (same : ∀ (r : p.Running) scope, view { r with scope } = view r) :
    TryKeeps view (p.attempt f) := fun r => same r _

theorem keeps_modifyOwn {u : p.State → p.State}
    (same : ∀ r, view { r with own := u r.own } = view r) : Keeps view (p.modifyOwn u) :=
  .modify same

/-- A selector changes its own state, the memory and the generator. -/
theorem keeps_select (f : Setting S → p.moves.State → Draw M (α × p.moves.State))
    (same : ∀ (r : p.Running) moves memory generator, view { r with
      scope := { r.scope with generator }, own := { r.own with moves, memory } } = view r) :
    Keeps view (p.select c f) := by
  intro r
  rw [Lockstep.run_select]
  rcases f _ _ _ with _ | ⟨⟨a, moves⟩, w⟩
  · rfl
  · exact same r moves w.memory w.generator

theorem keeps_accept (m : Move S) (score : Score sh) (step : StepContext sh)
    (same : ∀ (r : p.Running) generator,
      view { r with scope := { r.scope with generator } } = view r) :
    Keeps view (p.accept m score step) := by
  intro r
  rw [run_accept]
  rcases r.own.acceptor.accepts m score step r.scope.generator with _ | ⟨accepted, generator⟩
  · rfl
  · exact same r generator

theorem keeps_budget : Keeps view p.budget := by
  unfold budget
  split
  · exact .pure _
  · split
    · exact .get_bind fun r => (Keeps.liftM _).bind fun size => .pure _
    · exact .pure _

/-- What a step does not change while it decides what to do: the acceptor and the number of steps
completed in the search as a whole. -/
def Running.record (r : p.Running) : Acceptor S sh × ℕ := (r.own.acceptor, r.scope.steps)

theorem keeps_record_onScope {f : Search S sh α} (keeps : Keeps Scope.steps f) :
    Keeps Running.record (p.onScope f) := fun r => Prod.ext rfl (keeps r.scope)

theorem keeps_record_select (f : Setting S → p.moves.State → Draw M (α × p.moves.State)) :
    Keeps Running.record (p.select c f) := keeps_select c f fun _ _ _ _ => rfl

variable (p)

theorem keeps_record_forage (m : Move S) (score : Score sh) (step : StepContext sh) :
    Keeps Running.record (p.forage m score step) :=
  .get_bind fun _ => (keeps_modifyOwn fun _ => rfl).bind fun _ => .pure _

theorem keeps_record_pick : Keeps Running.record p.pick :=
  .get_bind fun _ => (keeps_modifyOwn fun _ => rfl).bind fun _ => .pure _

section Decision

variable {view : p.Running → τ} {R : τ → τ → Prop} [IsPreorder τ R]
variable (selects : ∀ {α : Type} (f : Setting S → p.moves.State → Draw M (α × p.moves.State)),
  Carries view R (p.select c f))
variable (evaluates : ∀ m restored, TryCarries view R (p.attempt (Search.evaluate c m restored)))
variable (accepts : ∀ m score step, Carries view R (p.accept m score step))
variable (forages : ∀ m score step, Carries view R (p.forage m score step))
include selects evaluates accepts forages

/-- Trying candidates carries over what selecting, evaluating and judging them do. -/
theorem tryCarries_tryCandidates (rounds : ℕ) (left : Option ℕ) (step : StepContext sh) :
    TryCarries view R (p.tryCandidates c rounds left step) := by
  induction rounds generalizing left step with
  | zero => exact .lift (.throw _)
  | succ rounds ih =>
    unfold tryCandidates
    split
    · exact .pure step
    · refine TryCarries.bind (.lift (selects _)) fun candidate => ?_
      split
      · exact .pure step
      · rename_i m
        refine TryCarries.bind (.lift (.get_bind fun _ => .pure _)) fun s => ?_
        split
        · refine TryCarries.bind (evaluates m _) fun score => ?_
          refine TryCarries.bind (.lift (accepts m score _)) fun ok => ?_
          split
          · refine TryCarries.bind (.lift (forages m score _)) fun enough => ?_
            split
            · exact .pure _
            · exact ih _ _
          · exact ih _ _
        · exact ih _ step

/-- So does deciding what to do in a step, if a pick does as well. -/
theorem tryCarries_decide (picks : Carries view R p.pick) (step : StepContext sh) :
    TryCarries view R (p.decide c step) := by
  refine TryCarries.bind (.lift (.of_keeps keeps_budget)) fun budget => ?_
  refine TryCarries.bind (.lift (selects _)) fun _ => ?_
  refine TryCarries.bind ?_ fun next => .bind (.lift picks) fun picked => .pure _
  exact p.tryCarries_tryCandidates c selects evaluates accepts forages _ budget step

end Decision

theorem keeps_record_decide (step : StepContext sh) :
    TryKeeps Running.record (p.decide c step) := by
  refine .of_carries (p.tryCarries_decide c ?_ ?_ ?_ ?_ (.of_keeps p.keeps_record_pick) step)
  · exact fun f => .of_keeps (keeps_record_select c f)
  · exact fun m restored =>
      .of_keeps (keeps_record_onScope (Search.keeps_steps_evaluate c m restored))
  · exact fun m score step => .of_keeps (keeps_accept m score step fun _ _ => rfl)
  · exact fun m score step => .of_keeps (p.keeps_record_forage m score step)

end LocalSearch

end PlanSearch
