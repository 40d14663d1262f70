import Mathlib.Data.List.Forall2
import PlanSearch.Proofs.Lockstep.Basic
import PlanSearch.Proofs.Search.Rounds

/-!
# Rounds side by side

If every round keeps two searches together, then so do any number of rounds, and the two runs
complete the same steps in related states.
-/

namespace PlanSearch

namespace Lockstep

variable {S ι σ : Type} {sh : Shape} {c : Conditions S sh} {mode : Config.EnvironmentMode}
variable {good : Move S → Prop} (L : Lockstep c mode good ι) {i j k : ι} {x : Score sh}
variable {l l' m m' : List (Milestone S sh)}

/-- Two runs that start in a situation complete the same steps in related states and with the same
counts, and come to another situation. -/
inductive Along : ι → List (Milestone S sh) → List (Milestone S sh) → ι → Prop
  | nil {i j : ι} (goes : L.Goes i j) : Along i [] [] j
  | cons {i j k : ι} {phase : PhaseContext sh} {x : Score sh} {s t : Scope S sh}
    {l l' : List (Milestone S sh)} (goes : L.Goes i j) (last : phase.last = some x)
    (here : L.At j x s t) (rest : Along j l l' k) :
    Along i ((phase, s) :: l) ((phase, t) :: l') k

variable {L}

theorem Along.of_goes (goes : L.Goes i j) (along : L.Along j l l' k) : L.Along i l l' k := by
  cases along with
  | nil further => exact .nil (L.goes_trans goes further)
  | cons further last here rest => exact .cons (L.goes_trans goes further) last here rest

theorem Along.append (first : L.Along i l l' j) (second : L.Along j m m' k) :
    L.Along i (l ++ m) (l' ++ m') k := by
  induction first with
  | nil goes => exact second.of_goes goes
  | cons goes last here _ ih => exact .cons goes last here (ih second)

theorem Along.goes (along : L.Along i l l' k) : L.Goes i k := by
  induction along with
  | nil goes => exact goes
  | cons goes last here rest ih => exact L.goes_trans goes ih

/-- After a step, the searches are in a situation on the way to the last one. -/
def Passes (L : Lockstep c mode good ι) (i k : ι) (a b : Milestone S sh) : Prop :=
  ∃ j x, L.Goes i j ∧ L.Goes j k ∧ a.1 = b.1 ∧ a.1.last = some x ∧ L.At j x a.2 b.2

theorem Along.forall₂ (along : L.Along i l l' k) : List.Forall₂ (L.Passes i k) l l' := by
  induction along with
  | nil => exact .nil
  | @cons i j k phase x s t l l' goes last here rest ih =>
    refine .cons ⟨j, x, goes, rest.goes, rfl, last, here⟩ (ih.imp fun a b passes => ?_)
    obtain ⟨k', y, goes', rest, passes⟩ := passes
    exact ⟨k', y, L.goes_trans goes goes', rest, passes⟩

/-- The situation after a step comes after those of earlier steps. -/
theorem Along.pairwise (along : L.Along i l l' k) :
    l.Pairwise fun a b => ∃ j j' x x' t t', L.Goes j j' ∧ L.At j x a.2 t ∧ L.At j' x' b.2 t' := by
  induction along with
  | nil => exact .nil
  | @cons i j k phase x s t l l' goes last here rest ih =>
    refine .cons (fun b later => ?_) ih
    obtain ⟨n, bound, rfl⟩ := List.mem_iff_getElem.1 later
    have length := rest.forall₂.length_eq
    obtain ⟨j', y, goes', -, -, -, there⟩ := rest.forall₂.get bound (length ▸ bound)
    exact ⟨j, j', x, y, t, _, goes', here, there⟩

variable (L)

/-- Two runs that start in a situation have completed the same steps, and they end together in the
situation that they have come to. -/
def Course (view : σ → Scope S sh) (Own : σ → σ → Prop) (Failed : PlanError → σ → σ → Prop)
    (i : ι) (trail trail' : List (Milestone S sh))
    (ended ended' : Except Fault (Except PlanError Unit) × σ) : Prop :=
  ∃ j, L.Along i trail trail' j ∧
    EndAlike
      (fun result r r' => match result with
        | .ok () => ∃ y, L.At j y (view r) (view r') ∧ Own r r'
        | .error e => Failed e r r')
      (fun e r r' => L.Broken e (view r) (view r')) ended ended'

/-- What a round does to two searches, when it completes a step and when it does not. -/
def RoundTogether (view : σ → Scope S sh) (Own : σ → σ → Prop)
    (Failed : PlanError → σ → σ → Prop)
    (round round' : PhaseContext sh →
      ExceptT PlanError (ExceptT Fault (StateM σ)) (Option (PhaseContext sh))) : Prop :=
  ∀ i x phase, phase.last = some x →
    TryTogether (fun r r' => L.At i x (view r) (view r') ∧ Own r r') (round phase) (round' phase)
      (fun next r r' => ∃ j y, L.Goes i j ∧ L.At j y (view r) (view r') ∧ Own r r' ∧
        ∀ phase, next = some phase → phase.last = some y)
      Failed fun e r r' => L.Broken e (view r) (view r')

theorem course_repeatRound {view : σ → Scope S sh} {Own : σ → σ → Prop}
    {Failed : PlanError → σ → σ → Prop}
    {round round' : PhaseContext sh →
      ExceptT PlanError (ExceptT Fault (StateM σ)) (Option (PhaseContext sh))}
    (once : L.RoundTogether view Own Failed round round') {phase : PhaseContext sh} {r r' : σ}
    (rounds : Nat) (last : phase.last = some x) (here : L.At i x (view r) (view r'))
    (own : Own r r') :
    L.Course view Own Failed i (milestones round view rounds phase r)
      (milestones round' view rounds phase r')
      ((repeatRound round rounds phase).run.run.run r)
      ((repeatRound round' rounds phase).run.run.run r') := by
  induction rounds generalizing i x phase r r' with
  | zero =>
    exact ⟨i, .nil (L.goes_refl i), .fault ⟨(L.twin here).events.symm, L.exhausted⟩⟩
  | succ rounds ih =>
    have ended := once i x phase last r r' ⟨here, own⟩
    rw [repeatRound, repeatRound, try_bind, try_bind, milestones, milestones]
    generalize (round phase).run.run.run r = reached at ended ⊢
    generalize (round' phase).run.run.run r' = reached' at ended ⊢
    cases ended with
    | fault broken => exact ⟨i, .nil (L.goes_refl i), .fault broken⟩
    | @value result r r' related =>
      rcases result with e | _ | next
      · exact ⟨i, .nil (L.goes_refl i), .value (a := Except.error e) related⟩
      · obtain ⟨j, y, goes, here, own, -⟩ := related
        exact ⟨j, .nil goes, .value (a := Except.ok ()) ⟨y, here, own⟩⟩
      · obtain ⟨j, y, goes, here, own, known⟩ := related
        obtain ⟨k, along, ended⟩ := ih (known next rfl) here own
        exact ⟨k, .cons goes (known next rfl) here along, ended⟩

variable {L}

/-- What is done after a run without errors belongs to its course. -/
theorem Course.andThen {view : σ → Scope S sh} {Own Own' : σ → σ → Prop}
    {Failed : PlanError → σ → σ → Prop} {trail trail' : List (Milestone S sh)} {r r' : σ}
    {f f' g g' : ExceptT PlanError (ExceptT Fault (StateM σ)) Unit}
    (course : L.Course view Own Failed i trail trail' (f.run.run.run r) (f'.run.run.run r'))
    (after : ∀ j y, TryTogether (fun r r' => L.At j y (view r) (view r') ∧ Own r r') g g'
      (fun _ r r' => L.At j y (view r) (view r') ∧ Own' r r') Failed
      fun e r r' => L.Broken e (view r) (view r')) :
    L.Course view Own' Failed i trail trail' ((f >>= fun _ => g).run.run.run r)
      ((f' >>= fun _ => g').run.run.run r') := by
  obtain ⟨j, along, ended⟩ := course
  refine ⟨j, along, ?_⟩
  rw [try_bind, try_bind]
  generalize f.run.run.run r = reached at ended ⊢
  generalize f'.run.run.run r' = reached' at ended ⊢
  cases ended with
  | fault broken => exact .fault broken
  | @value result r r' related =>
    match result, related with
    | .error e, failed => exact .value (a := Except.error e) failed
    | .ok (), ⟨y, related⟩ =>
      refine (after j y r r' related).mono (fun result r r' related => ?_) fun _ _ _ => id
      match result, related with
      | .error e, failed => exact failed
      | .ok (), related => exact ⟨y, related⟩

end Lockstep

end PlanSearch
