import PlanSearch.Proofs.Lockstep.Rounds

/-!
# Constructions side by side
-/

namespace PlanSearch

/-- The placements that solutions of the same looks have are the same, and all their moves are
good. -/
def Placer.Places {S : Type} (p : Placer S) (Same : S → S → Prop) (good : Move S → Prop) : Prop :=
  ∀ a b, Same a b → p.next a = p.next b ∧ ∀ placement ∈ p.next a, ∀ m ∈ placement.moves, good m

namespace Lockstep

variable {S ι : Type} {sh : Shape} {c : Conditions S sh} {mode : Config.EnvironmentMode}
variable {good : Move S → Prop} (L : Lockstep c mode good ι) {i : ι} {x : Score sh}

/-- A move and its score that were found in a situation. -/
def Candidate (i : ι) (winner : Option (Move S × Score sh)) : Prop :=
  ∀ m y, winner = some (m, y) → good m ∧ L.Leads i m y

/-- Both searches look at their working solution before they go on. -/
theorem try_get {α : Type} {h h' : Scope S sh → Attempt S sh α}
    {Q : α → Scope S sh → Scope S sh → Prop} {E : PlanError → Scope S sh → Scope S sh → Prop}
    {F : Fault → Scope S sh → Scope S sh → Prop}
    (rest : ∀ s t, L.At i x s t → TryTogether (fun s' t' => s' = s ∧ t' = t) (h s) (h' t) Q E F) :
    TryTogether (L.At i x) (getThe (Scope S sh) >>= h) (getThe (Scope S sh) >>= h') Q E F :=
  fun s t related => rest s t related s t ⟨rfl, rfl⟩

/-- The best of several moves and of a winner so far is found together. -/
theorem bestMove {moves : List (Move S)} (allGood : ∀ m ∈ moves, good m)
    {winner : Option (Move S × Score sh)} (won : L.Candidate i winner) :
    TryTogether (L.At i x) (Construction.bestMove c x moves winner)
      (Construction.bestMove (c.under mode) x moves winner)
      (fun best s t => L.Candidate i best ∧ L.At i x s t) L.Failed
      L.Broken := by
  induction moves generalizing winner with
  | nil => exact .pure winner fun s t here => ⟨won, here⟩
  | cons m rest ih =>
    have mGood := allGood m (by simp)
    have others {winner} (won : L.Candidate i winner) :=
      ih (fun m member => allGood m (by simp [member])) won
    rw [Construction.bestMove, Construction.bestMove]
    refine L.try_get fun s t here => ?_
    rw [← L.isDoable (L.same here) mGood]
    cases doable : m.isDoable s.director.solution with
    | false =>
      refine (others won).consequence ?_ fun _ _ _ => id
      rintro _ _ ⟨rfl, rfl⟩
      exact here
    | true =>
      have evaluated : TryTogether (fun s' t' => s' = s ∧ t' = t) _ _ _ _ _ :=
        ((L.evaluate i x m mGood).mono_error fun _ _ _ => L.failed_of_move).consequence
          (by rintro _ _ ⟨rfl, rfl⟩; exact ⟨here, doable⟩) fun _ _ _ => id
      refine evaluated.bind fun y => .assuming fun leads => others ?_
      have better : L.Candidate i (some (m, y)) := by
        rintro _ _ ⟨⟩
        exact ⟨mGood, leads⟩
      cases winner with
      | none => exact better
      | some best =>
        dsimp only
        split
        · exact better
        · exact won

/-- A step is completed together. -/
theorem complete {phase : PhaseContext sh} :
    RunTogether (L.Made i x) (Construction.complete c phase x) (Construction.complete c phase x)
      (fun phase s t => ∃ j y, L.Goes i j ∧ L.At j y s t ∧ phase.last = some y)
      L.Broken := by
  unfold Construction.complete
  refine .bind (L.countStep i x) fun _ => .bind (L.offer i x) fun improved => ?_
  refine .exists fun j => .assuming fun goes => ?_
  refine .bind (L.fire _ (by rintro ⟨⟩)) fun _ => .pure _ fun s t here => ?_
  exact ⟨j, x, goes, here, rfl⟩

/-- One entity is placed together. -/
theorem constructionStep {phase : PhaseContext sh} {placement : Placement S}
    (allGood : ∀ m ∈ placement.moves, good m) :
    TryTogether (L.At i x) (Construction.step c phase placement x)
      (Construction.step (c.under mode) phase placement x)
      (fun phase s t => ∃ j y, L.Goes i j ∧ L.At j y s t ∧ phase.last = some y)
      L.Failed L.Broken := by
  rw [Construction.step_eq, Construction.step_eq]
  refine .bind (.lift (L.fire _ (by rintro ⟨⟩))) fun _ => ?_
  refine .bind (L.bestMove (fun m member => allGood m (Array.mem_toList_iff.1 member))
    (by rintro _ _ ⟨⟩)) fun best => .assuming fun won => ?_
  match best, won with
  | none, _ => exact .throw _ fun s t here => ⟨L.twin here, .inr rfl⟩
  | some (m, y), won =>
    obtain ⟨mGood, leads⟩ := won m y rfl
    refine .bind ((L.apply i x m y mGood leads).mono_error fun _ _ _ => L.failed_of_move)
      fun _ => .exists fun j => .assuming fun goes => ?_
    refine .bind ((L.assertScore j y).mono_error fun _ _ _ => L.failed_of_move) fun _ => ?_
    refine (TryTogether.lift L.complete).mono_post ?_
    rintro phase s t ⟨k, z, further, here, last⟩
    exact ⟨k, z, L.goes_trans goes further, here, last⟩

variable {p : Construction S sh}

theorem constructionRound (places : p.placer.Places L.Same good) (starting : Score sh) :
    L.RoundTogether id (fun _ _ => True) L.Failed (p.round c starting)
      (p.round (c.under mode) starting) := by
  intro i x phase last
  have stays {s t} (here : L.At i x s t) : ∃ j y, L.Goes i j ∧ L.At j y s t ∧ True ∧
      ∀ next, (none : Option (PhaseContext sh)) = some next → next.last = some y :=
    ⟨i, x, L.goes_refl i, here, trivial, by rintro _ ⟨⟩⟩
  unfold Construction.round
  refine .bind (.lift ((L.peek (.phaseIsTerminated c p.termination phase)).consequence
    (fun s t related => related.1) fun _ _ _ => id)) fun stop => ?_
  cases stop with
  | true => exact .pure none fun s t here => stays here
  | false =>
    refine L.try_get fun s t here => ?_
    obtain ⟨same, allGood⟩ := places _ _ (L.same here)
    dsimp only
    rw [← same, last]
    cases next : p.placer.next s.director.solution with
    | none =>
      refine .pure none ?_
      rintro _ _ ⟨rfl, rfl⟩
      exact stays here
    | some placement =>
      refine .bind ((L.constructionStep (i := i) (allGood placement next)).consequence ?_
        fun _ _ _ => id) fun phase => .pure _ ?_
      · rintro _ _ ⟨rfl, rfl⟩
        exact here
      · rintro s t ⟨j, y, goes, here, last⟩
        refine ⟨j, y, goes, here, trivial, ?_⟩
        rintro _ ⟨⟩
        exact last

theorem course_construction (places : p.placer.Places L.Same good) (index : Nat) {s t : Scope S sh}
    (here : L.At i x s t) :
    L.Course id (fun _ _ => True) L.Failed i (p.trail c index s)
      (p.trail (c.under mode) index t) ((p.run c index).run.run.run s)
      ((p.run (c.under mode) index).run.run.run t) := by
  have began : TryTogether (L.At i x) (Construction.begin c index) (Construction.begin c index)
      (fun first s t => first.2.last = some first.1 ∧ L.At i first.1 s t) L.Failed
      L.Broken := by
    unfold Construction.begin
    refine .bind (.lift (L.calculate i x)) fun y => .bind (.lift (L.peek (.now c))) fun _ => ?_
    exact .bind (.lift (L.fire _ (by rintro ⟨⟩))) fun _ => .pure _ fun s t here => ⟨rfl, here⟩
  have ended := began s t here
  rw [Construction.run_eq, Construction.run_eq, try_bind, try_bind, Construction.trail,
    Construction.trail]
  change EndAlike _ _ _ ((Construction.begin (c.under mode) index).run.run.run t) at ended
  generalize (Construction.begin c index).run.run.run s = reached at ended ⊢
  generalize (Construction.begin (c.under mode) index).run.run.run t = reached' at ended ⊢
  cases ended with
  | fault broken => exact ⟨i, .nil (L.goes_refl i), .fault broken⟩
  | @value result s t related =>
    match result, related with
    | .error e, failed => exact ⟨i, .nil (L.goes_refl i), .value (a := Except.error e) failed⟩
    | .ok (starting, phase), ⟨last, here⟩ =>
      dsimp only
      rw [Construction.steps_eq, Construction.steps_eq]
      refine (L.course_repeatRound (L.constructionRound places starting) c.patience last here
        trivial).andThen fun j y => ?_
      exact .lift ((L.fire _ (by rintro ⟨⟩)).consequence (fun _ _ => And.left)
        fun _ _ _ here => ⟨here, trivial⟩)

end Lockstep

end PlanSearch
