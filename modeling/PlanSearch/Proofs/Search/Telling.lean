import PlanSearch.Proofs.Search.Operations
import PlanSearch.Proofs.Search.Rounds

/-!
# What a search announces

A computation on the state of a search adds events to its log and takes none away. Contracts say
what it adds wherever it yields a value. They follow the ways in which computations are put
together; most of the parts are quiet.
-/

namespace PlanSearch

variable {M S σ : Type} {sh : Shape} {α β : Type}

/-- A run that yields a value has gone on from a value. -/
theorem exists_of_run_bind {f : ExceptT Fault (StateM σ) α} {k : α → ExceptT Fault (StateM σ) β}
    {s u : σ} {b : β} (ran : (f >>= k).run.run s = (.ok b, u)) :
    ∃ a t, f.run.run s = (.ok a, t) ∧ (k a).run.run t = (.ok b, u) := by
  rw [run_bind] at ran
  rcases reached : f.run.run s with ⟨e | a, t⟩
  · rw [reached] at ran
    cases ran
  · rw [reached] at ran
    exact ⟨a, t, rfl, ran⟩

/-- An attempt that succeeds has gone on from a success. -/
theorem exists_of_try_bind {f : ExceptT PlanError (ExceptT Fault (StateM σ)) α}
    {k : α → ExceptT PlanError (ExceptT Fault (StateM σ)) β} {s u : σ} {b : β}
    (ran : (f >>= k).run.run.run s = (.ok (.ok b), u)) :
    ∃ a t, f.run.run.run s = (.ok (.ok a), t) ∧ (k a).run.run.run t = (.ok (.ok b), u) := by
  obtain ⟨_ | a, t, first, rest⟩ := exists_of_run_bind ran
  · cases rest
  · exact ⟨a, t, first, rest⟩

/-- What cannot fail by itself has a value where it does not break off. -/
theorem run_of_lift {f : ExceptT Fault (StateM σ) α} {s u : σ} {a : α}
    (ran : (ExceptT.lift f : ExceptT PlanError _ α).run.run.run s = (.ok (.ok a), u)) :
    f.run.run s = (.ok a, u) := by
  obtain ⟨_, _, reached, same⟩ := exists_of_run_bind ran
  cases same
  exact reached

theorem exists_of_lift_bind {f : ExceptT Fault (StateM σ) α}
    {k : α → ExceptT PlanError (ExceptT Fault (StateM σ)) β} {s u : σ} {b : β}
    (ran : (ExceptT.lift f >>= k).run.run.run s = (.ok (.ok b), u)) :
    ∃ a t, f.run.run s = (.ok a, t) ∧ (k a).run.run.run t = (.ok (.ok b), u) := by
  obtain ⟨a, t, first, rest⟩ := exists_of_try_bind ran
  exact ⟨a, t, run_of_lift first, rest⟩

/-- A construction that is over has begun, repeated its round and announced its end. -/
theorem Construction.exists_stages {c : Conditions S sh} {p : Construction S sh} {index : Nat}
    {s t : Scope S sh} (ran : (p.run c index).run.run.run s = (.ok (.ok ()), t)) :
    ∃ starting phase u v, (begin c index).run.run.run s = (.ok (.ok (starting, phase)), u) ∧
      (repeatRound (p.round c starting) c.patience phase).run.run.run u = (.ok (.ok ()), v) ∧
      (Search.fire c (.phaseEnded index kind)).run.run v = (.ok (), t) ∧
      p.trail c index s = milestones (p.round c starting) id c.patience phase u := by
  rw [run_eq] at ran
  obtain ⟨⟨starting, phase⟩, u, begun, ran⟩ := exists_of_try_bind ran
  obtain ⟨_, v, done, ended⟩ := exists_of_try_bind ran
  rw [steps_eq] at done
  exact ⟨starting, phase, u, v, begun, done, run_of_lift ended, by rw [trail, begun]⟩

/-- A local search that is over has begun, repeated its round, told its parts that it ends and
announced its end. -/
theorem LocalSearch.exists_stages {c : Conditions S sh} {p : LocalSearch M S sh} {index : Nat}
    {r r' : p.Running} (ran : (p.run c index).run.run.run r = (.ok (.ok ()), r')) :
    ∃ starting phase u v w, (p.begin c index).run.run r = (.ok (starting, phase), u) ∧
      (repeatRound (p.round c starting) c.patience phase).run.run.run u = (.ok (.ok ()), v) ∧
      (p.phaseEnded c).run.run v = (.ok (), w) ∧
      (p.onScope (Search.fire c (.phaseEnded index kind))).run.run w = (.ok (), r') ∧
      p.trail c index r = milestones (p.round c starting) Running.scope c.patience phase u := by
  obtain ⟨⟨starting, phase⟩, u, begun, ran⟩ := exists_of_lift_bind ran
  obtain ⟨_, v, done, ran⟩ := exists_of_try_bind ran
  obtain ⟨_, w, closed, ended⟩ := exists_of_run_bind (run_of_lift ran)
  rw [steps_eq] at done
  exact ⟨starting, phase, u, v, w, begun, done, closed, ended, by rw [trail, begun]⟩

/-- A state came out of another one in which so much less was announced. A best solution is not
given up. -/
structure Scope.Adds (s t : Scope S sh) (log : List (Event S sh)) : Prop where
  events : t.events.toList = s.events.toList ++ log
  best : s.best.isSome → t.best.isSome

namespace Scope.Adds

variable {s t u : Scope S sh} {log more : List (Event S sh)}

theorem none (events : t.events = s.events) (best : t.best = s.best) : s.Adds t [] := by
  refine ⟨?_, ?_⟩
  · rw [events, List.append_nil]
  · rw [best]
    exact id

theorem trans (first : s.Adds t log) (second : t.Adds u more) : s.Adds u (log ++ more) := by
  refine ⟨?_, fun known => second.best (first.best known)⟩
  rw [second.events, first.events, List.append_assoc]

end Scope.Adds

/-- Wherever the computation yields a value, it has added a log to which `said` applies. -/
def Tells (view : σ → Scope S sh) (f : ExceptT Fault (StateM σ) α)
    (said : α → List (Event S sh) → Prop) : Prop :=
  ∀ s a t, f.run.run s = (.ok a, t) → ∃ log, (view s).Adds (view t) log ∧ said a log

/-- Wherever the attempt succeeds, it has added a log to which `said` applies. -/
def TryTells (view : σ → Scope S sh) (f : ExceptT PlanError (ExceptT Fault (StateM σ)) α)
    (said : α → List (Event S sh) → Prop) : Prop :=
  Tells view f.run fun result log => ∀ a, result = .ok a → said a log

/-- The computation announces nothing. -/
abbrev Quiet (view : σ → Scope S sh) (f : ExceptT Fault (StateM σ) α) : Prop :=
  Tells view f fun _ log => log = []

/-- The attempt announces nothing if it succeeds. -/
abbrev TryQuiet (view : σ → Scope S sh) (f : ExceptT PlanError (ExceptT Fault (StateM σ)) α) :
    Prop := TryTells view f fun _ log => log = []

namespace Tells

variable {view : σ → Scope S sh} {f : ExceptT Fault (StateM σ) α}
variable {k : α → ExceptT Fault (StateM σ) β} {P P' : α → List (Event S sh) → Prop}
variable {Q : β → List (Event S sh) → Prop}

theorem mono (h : Tells view f P) (weaker : ∀ a log, P a log → P' a log) : Tells view f P' := by
  intro s a t ran
  obtain ⟨log, adds, said⟩ := h s a t ran
  exact ⟨log, adds, weaker a log said⟩

theorem pure (a : α) (said : P a []) : Tells view (Pure.pure a) P := by
  rintro s _ _ ⟨⟩
  exact ⟨[], .none rfl rfl, said⟩

theorem throw (e : Fault) : Tells view (MonadExcept.throw e : ExceptT Fault (StateM σ) α) P := by
  rintro s a t ⟨⟩

/-- What is said in the end follows from what was said before and after. -/
theorem bind (first : Tells view f P)
    (rest : ∀ a log, P a log → Tells view (k a) fun b more => Q b (log ++ more)) :
    Tells view (f >>= k) Q := by
  intro s b u ran
  obtain ⟨a, t, reached, ran⟩ := exists_of_run_bind ran
  obtain ⟨log, adds, said⟩ := first s a t reached
  obtain ⟨more, adds', said'⟩ := rest a log said t b u ran
  exact ⟨log ++ more, adds.trans adds', said'⟩

theorem modify {u : σ → σ} {log : List (Event S sh)} {P : Unit → List (Event S sh) → Prop}
    (adds : ∀ s, (view s).Adds (view (u s)) log) (said : P () log) :
    Tells view (modify u) P := by
  rintro s _ _ ⟨⟩
  exact ⟨log, adds s, said⟩

theorem get_bind {h : σ → ExceptT Fault (StateM σ) α} (rest : ∀ s, Tells view (h s) P) :
    Tells view (get >>= h) P := fun s => rest s s

end Tells

namespace Quiet

variable {view : σ → Scope S sh} {f : ExceptT Fault (StateM σ) α}
variable {k : α → ExceptT Fault (StateM σ) β} {Q : β → List (Event S sh) → Prop}

/-- What is said after something quiet is all that is said. -/
theorem andThen (first : Quiet view f) (rest : ∀ a, Tells view (k a) Q) :
    Tells view (f >>= k) Q := by
  refine first.bind fun a log said => ?_
  obtain rfl : log = [] := said
  exact rest a

theorem liftM (y : Except Fault α) :
    Quiet view (MonadLiftT.monadLift y : ExceptT Fault (StateM σ) α) := by
  cases y with
  | error e => exact .throw e
  | ok a => exact .pure a rfl

theorem modify {u : σ → σ} (events : ∀ s, (view (u s)).events = (view s).events)
    (best : ∀ s, (view (u s)).best = (view s).best) : Quiet view (modify u) :=
  Tells.modify (fun s => .none (events s) (best s)) rfl

end Quiet

namespace TryTells

variable {view : σ → Scope S sh} {f : ExceptT PlanError (ExceptT Fault (StateM σ)) α}
variable {g : ExceptT Fault (StateM σ) α}
variable {k : α → ExceptT PlanError (ExceptT Fault (StateM σ)) β}
variable {P P' : α → List (Event S sh) → Prop} {Q : β → List (Event S sh) → Prop}

theorem mono (h : TryTells view f P) (weaker : ∀ a log, P a log → P' a log) :
    TryTells view f P' :=
  Tells.mono h fun _ log said a same => weaker a log (said a same)

theorem pure (a : α) (said : P a []) : TryTells view (Pure.pure a) P := by
  refine Tells.pure (Except.ok a) fun _ same => ?_
  obtain rfl := Except.ok.inj same
  exact said

theorem throw (e : PlanError) :
    TryTells view (MonadExcept.throw e : ExceptT PlanError (ExceptT Fault (StateM σ)) α) P :=
  Tells.pure (Except.error e : Except PlanError α) nofun

theorem bind (first : TryTells view f P)
    (rest : ∀ a log, P a log → TryTells view (k a) fun b more => Q b (log ++ more)) :
    TryTells view (f >>= k) Q := by
  refine Tells.bind first fun result log said => ?_
  cases result with
  | ok a => exact rest a log (said a rfl)
  | error e => exact Tells.pure (Except.error e : Except PlanError β) nofun

theorem lift (h : Tells view g P) : TryTells view (ExceptT.lift g) P := by
  refine Tells.bind h fun a log said => ?_
  refine Tells.pure (Except.ok a) fun _ same => ?_
  obtain rfl := Except.ok.inj same
  rwa [List.append_nil]

theorem get_bind {h : σ → ExceptT PlanError (ExceptT Fault (StateM σ)) α}
    (rest : ∀ s, TryTells view (h s) P) : TryTells view (get >>= h) P := fun s => rest s s

variable (view) in
/-- What is said of an attempt that has succeeded. -/
theorem exists_adds (h : TryTells view f P) {s t : σ} {a : α}
    (ran : f.run.run.run s = (.ok (.ok a), t)) :
    ∃ log, (view s).Adds (view t) log ∧ P a log := by
  obtain ⟨log, adds, said⟩ := h s (.ok a) t ran
  exact ⟨log, adds, said a rfl⟩

/-- What is said after something quiet is all that is said. -/
theorem after_quiet (first : TryQuiet view f) (rest : ∀ a, TryTells view (k a) Q) :
    TryTells view (f >>= k) Q := by
  refine first.bind fun a log said => ?_
  obtain rfl : log = [] := said
  exact rest a

end TryTells

/-! ## Operations of a search -/

namespace Search

variable (c : Conditions S sh)

/-- What reads the clock and the counts announces nothing. -/
theorem Peeks.quiet {f : Search S sh α} (peeks : Peeks f) : Quiet id f := by
  intro s a t ran
  obtain ⟨b, readings, known⟩ := peeks s
  obtain ⟨-, rfl⟩ := Prod.mk.inj ((known s.director).symm.trans ran)
  exact ⟨[], .none rfl rfl, rfl⟩

theorem tells_fire (e : Event S sh) : Tells id (fire c e) fun _ log => log = [e] :=
  .modify (fun _ => ⟨Array.toList_push .., id⟩) rfl

theorem quiet_calculate : Quiet id (calculate c) := by
  intro s a t ran
  rw [run_calculate] at ran
  split at ran
  · cases ran
  · obtain ⟨-, rfl⟩ := Prod.mk.inj ran
    exact ⟨[], .none rfl rfl, rfl⟩

theorem quiet_isInitialized : Quiet id (isInitialized c) := .get_bind fun _ => .pure _ rfl

theorem quiet_countStep : Quiet id (countStep : Search S sh Unit) :=
  .modify (fun _ => rfl) fun _ => rfl

theorem tryQuiet_apply (m : Move S) : TryQuiet id (apply m : Attempt S sh (Move S)) := by
  intro s result t ran
  have applied := (run_apply m s).symm.trans ran
  obtain ⟨-, rfl⟩ := Prod.mk.inj applied
  exact ⟨[], .none rfl rfl, fun _ _ => rfl⟩

theorem tryQuiet_evaluate (m : Move S) (restored : Score sh) :
    TryQuiet id (evaluate c m restored) := by
  refine (tryQuiet_apply m).after_quiet fun undo => ?_
  refine TryTells.after_quiet (.lift (quiet_calculate c)) fun score => ?_
  refine (tryQuiet_apply undo).after_quiet fun _ => ?_
  split
  · refine TryTells.after_quiet (.lift (quiet_calculate c)) fun again => ?_
    split
    · exact TryTells.after_quiet (.throw _) fun _ => .pure score rfl
    · exact .pure score rfl
  · exact .pure score rfl

theorem tryQuiet_assertScore (expected : Score sh) : TryQuiet id (assertScore c expected) := by
  unfold assertScore
  split
  · refine TryTells.after_quiet (.lift (quiet_calculate c)) fun actual => ?_
    split
    · exact .throw _
    · exact .pure () rfl
  · exact .pure () rfl

/-- An offered solution is announced if it is taken as the best one. -/
theorem tells_offer (score : Score sh) :
    Tells id (offer c score) fun _ log => log = [] ∨ ∃ s, log = [.bestChanged s score] := by
  intro s a t ran
  rw [run_offer] at ran
  dsimp only at ran
  split at ran
  · obtain ⟨-, rfl⟩ := Prod.mk.inj ran
    exact ⟨_, ⟨Array.toList_push .., fun _ => rfl⟩, .inr ⟨_, rfl⟩⟩
  · obtain ⟨-, rfl⟩ := Prod.mk.inj ran
    exact ⟨[], .none rfl rfl, .inl rfl⟩

end Search

end PlanSearch
