import PlanSearch.Search.Scope

/-!
# Runs that take the same course

Two computations run together if, from related states, they yield the same value in related states,
or break off with the same fault. Rules for the ways in which computations are put together lead
from the parts to the whole. A run beside itself is a run with an invariant, so that the rules serve
for single runs as well.
-/

namespace PlanSearch

variable {σ τ α β : Type}

/-- Two runs end alike: with one value in states that `Q` relates, or with one fault in states that
`F` relates. -/
inductive EndAlike (Q : α → σ → σ → Prop) (F : Fault → σ → σ → Prop) :
    Except Fault α × σ → Except Fault α × σ → Prop
  | value {a : α} {s t : σ} (related : Q a s t) : EndAlike Q F (.ok a, s) (.ok a, t)
  | fault {e : Fault} {s t : σ} (related : F e s t) : EndAlike Q F (.error e, s) (.error e, t)

/-- From states that `R` relates two computations end alike. -/
def RunTogether (R : σ → σ → Prop) (f g : ExceptT Fault (StateM σ) α) (Q : α → σ → σ → Prop)
    (F : Fault → σ → σ → Prop) : Prop :=
  ∀ s t, R s t → EndAlike Q F (f.run.run s) (g.run.run t)

/-- Two computations end alike where an error counts as an end of its own. -/
def TryTogether (R : σ → σ → Prop) (f g : ExceptT PlanError (ExceptT Fault (StateM σ)) α)
    (Q : α → σ → σ → Prop) (E : PlanError → σ → σ → Prop) (F : Fault → σ → σ → Prop) : Prop :=
  RunTogether R f.run g.run (fun r => match r with | .ok a => Q a | .error e => E e) F

theorem EndAlike.mono {Q Q' : α → σ → σ → Prop} {F F' : Fault → σ → σ → Prop}
    {x y : Except Fault α × σ} (h : EndAlike Q F x y) (value : ∀ a s t, Q a s t → Q' a s t)
    (fault : ∀ e s t, F e s t → F' e s t) : EndAlike Q' F' x y := by
  cases h with
  | value related => exact .value (value _ _ _ related)
  | fault related => exact .fault (fault _ _ _ related)

/-- A run goes on from the value and the state that it has reached, unless it broke off. -/
theorem run_bind (f : ExceptT Fault (StateM σ) α) (k : α → ExceptT Fault (StateM σ) β) (s : σ) :
    (f >>= k).run.run s =
      match f.run.run s with
      | (.ok a, s) => (k a).run.run s
      | (.error e, s) => (.error e, s) := by
  simp only [ExceptT.run_bind, StateT.run_bind]
  rcases f.run.run s with ⟨_ | _, _⟩ <;> rfl

/-- An attempt goes on from the value and the state that it has reached, unless it failed or broke
off. -/
theorem try_bind (f : ExceptT PlanError (ExceptT Fault (StateM σ)) α)
    (k : α → ExceptT PlanError (ExceptT Fault (StateM σ)) β) (s : σ) :
    (f >>= k).run.run.run s =
      match f.run.run.run s with
      | (.ok (.ok a), s) => (k a).run.run.run s
      | (.ok (.error e), s) => (.ok (.error e), s)
      | (.error e, s) => (.error e, s) := by
  rw [ExceptT.run_bind, run_bind]
  rcases f.run.run.run s with ⟨_ | _ | _, _⟩ <;> rfl

namespace RunTogether

variable {R R' : σ → σ → Prop} {F : Fault → σ → σ → Prop}
variable {f g : ExceptT Fault (StateM σ) α} {k l : α → ExceptT Fault (StateM σ) β}
variable {Q Q' : α → σ → σ → Prop} {P : β → σ → σ → Prop}

theorem consequence (h : RunTogether R f g Q F) (pre : ∀ s t, R' s t → R s t)
    (post : ∀ a s t, Q a s t → Q' a s t) : RunTogether R' f g Q' F :=
  fun s t related => (h s t (pre s t related)).mono post fun _ _ _ => id

theorem mono_post (h : RunTogether R f g Q F) (post : ∀ a s t, Q a s t → Q' a s t) :
    RunTogether R f g Q' F := h.consequence (fun _ _ => id) post

theorem pure (a : α) (post : ∀ s t, R s t → Q a s t) :
    RunTogether R (Pure.pure a) (Pure.pure a) Q F :=
  fun s t related => .value (post s t related)

theorem throw (e : Fault) (post : ∀ s t, R s t → F e s t) :
    RunTogether R (MonadExcept.throw e) (MonadExcept.throw e) Q F :=
  fun s t related => .fault (post s t related)

theorem bind (first : RunTogether R f g Q F) (rest : ∀ a, RunTogether (Q a) (k a) (l a) P F) :
    RunTogether R (f >>= k) (g >>= l) P F := by
  intro s t related
  have ended := first s t related
  rw [run_bind, run_bind]
  generalize f.run.run s = x at ended
  generalize g.run.run t = y at ended
  cases ended with
  | value related => exact rest _ _ _ related
  | fault related => exact .fault related

/-- What is known beforehand may be used. -/
theorem assuming {φ : Prop} (h : φ → RunTogether R f g Q F) :
    RunTogether (fun s t => φ ∧ R s t) f g Q F :=
  fun s t related => h related.1 s t related.2

theorem «exists» {κ : Type} {R : κ → σ → σ → Prop} (h : ∀ j, RunTogether (R j) f g Q F) :
    RunTogether (fun s t => ∃ j, R j s t) f g Q F :=
  fun s t ⟨j, related⟩ => h j s t related

/-- Something that only changes the state. -/
theorem modify {u : σ → σ} {Q : Unit → σ → σ → Prop} (post : ∀ s t, R s t → Q () (u s) (u t)) :
    RunTogether R (modify u) (modify u) Q F := fun s t related => .value (post s t related)

/-- Something that reads what the states have in common. -/
theorem get_bind {h : σ → ExceptT Fault (StateM σ) α}
    {h' : σ → ExceptT Fault (StateM σ) α}
    (rest : ∀ s t, R s t → RunTogether (fun s' t' => s' = s ∧ t' = t) (h s) (h' t) Q F) :
    RunTogether R (get >>= h) (get >>= h') Q F :=
  fun s t related => rest s t related s t ⟨rfl, rfl⟩

/-- A value that may be missing for lack of an answer. -/
theorem liftM {y : Except Fault α} (broken : ∀ e s t, y = .error e → R s t → F e s t) :
    RunTogether R (MonadLiftT.monadLift y) (MonadLiftT.monadLift y)
      (fun a s t => y = .ok a ∧ R s t) F := by
  intro s t related
  cases y with
  | error e => exact .fault (broken e s t rfl related)
  | ok a => exact .value ⟨rfl, related⟩

end RunTogether

namespace TryTogether

variable {R R' : σ → σ → Prop} {E : PlanError → σ → σ → Prop} {F : Fault → σ → σ → Prop}
variable {f g : ExceptT PlanError (ExceptT Fault (StateM σ)) α}
variable {k l : α → ExceptT PlanError (ExceptT Fault (StateM σ)) β}
variable {Q Q' : α → σ → σ → Prop} {P : β → σ → σ → Prop}

theorem consequence (h : TryTogether R f g Q E F) (pre : ∀ s t, R' s t → R s t)
    (post : ∀ a s t, Q a s t → Q' a s t) : TryTogether R' f g Q' E F := by
  refine RunTogether.consequence h pre fun r s t => ?_
  cases r with
  | ok a => exact post a s t
  | error e => exact id

theorem mono_post (h : TryTogether R f g Q E F) (post : ∀ a s t, Q a s t → Q' a s t) :
    TryTogether R f g Q' E F := h.consequence (fun _ _ => id) post

theorem mono_error {E' : PlanError → σ → σ → Prop} (h : TryTogether R f g Q E F)
    (error : ∀ e s t, E e s t → E' e s t) : TryTogether R f g Q E' F := by
  refine RunTogether.mono_post h fun r s t => ?_
  cases r with
  | ok a => exact id
  | error e => exact error e s t

theorem pure (a : α) (post : ∀ s t, R s t → Q a s t) :
    TryTogether R (Pure.pure a) (Pure.pure a) Q E F :=
  fun s t related => .value (a := Except.ok a) (post s t related)

theorem throw (e : PlanError) (post : ∀ s t, R s t → E e s t) :
    TryTogether R (MonadExcept.throw e) (MonadExcept.throw e) Q E F :=
  fun s t related => .value (a := Except.error e) (post s t related)

/-- What is known beforehand may be used. -/
theorem assuming {φ : Prop} (h : φ → TryTogether R f g Q E F) :
    TryTogether (fun s t => φ ∧ R s t) f g Q E F :=
  fun s t related => h related.1 s t related.2

theorem «exists» {κ : Type} {R : κ → σ → σ → Prop} (h : ∀ j, TryTogether (R j) f g Q E F) :
    TryTogether (fun s t => ∃ j, R j s t) f g Q E F :=
  fun s t ⟨j, related⟩ => h j s t related

theorem lift {f g : ExceptT Fault (StateM σ) α} (h : RunTogether R f g Q F) :
    TryTogether R (ExceptT.lift f) (ExceptT.lift g) Q E F :=
  RunTogether.bind h fun a _ _ related => .value (a := Except.ok a) related

theorem bind (first : TryTogether R f g Q E F)
    (rest : ∀ a, TryTogether (Q a) (k a) (l a) P E F) : TryTogether R (f >>= k) (g >>= l) P E F := by
  refine RunTogether.bind first fun r => ?_
  cases r with
  | ok a => exact rest a
  | error e => exact fun _ _ related => .value (a := Except.error e) related

end TryTogether

end PlanSearch
