import Mathlib.Data.List.Chain
import PlanSearch.Proofs.Search.Decisions
import PlanSearch.Proofs.Search.Filling

/-!
# What a construction comes to

A construction tries every value of an entity and takes each trial back, so that the choice among the
values depends on nothing but the solution. A round gives the first entity without a value the first
of the best ones. It leaves the other entities alone, so there are as many rounds as there are
entities without a value, unless there is nothing that an entity could be given.
-/

namespace PlanSearch

variable {S σ : Type} {sh : Shape} {α β : Type}

/-- The fault is one that the calculation of scores can break off with. -/
def Problem.Fails (p : Problem S sh) (f : Fault) : Prop := ∃ w, p.calculate w = .error f

/-- How an attempt ended: with a value, with an error or with a fault of the given kinds. -/
def Ends (good : α → σ → Prop) (bad : PlanError → σ → Prop) (faults : Fault → Prop) :
    Except Fault (Except PlanError α) × σ → Prop
  | (.ok (.ok a), t) => good a t
  | (.ok (.error e), t) => bad e t
  | (.error f, _) => faults f

namespace Ends

variable {good good₂ : α → σ → Prop} {good' : β → σ → Prop} {bad : PlanError → σ → Prop}
variable {faults : Fault → Prop} {s : σ}

theorem mono {ended : Except Fault (Except PlanError α) × σ} (ends : Ends good bad faults ended)
    (weaker : ∀ a t, good a t → good₂ a t) : Ends good₂ bad faults ended := by
  obtain ⟨_ | _ | a, t⟩ := ended
  · exact ends
  · exact ends
  · exact weaker a t ends

theorem bind {f : ExceptT PlanError (ExceptT Fault (StateM σ)) α}
    {k : α → ExceptT PlanError (ExceptT Fault (StateM σ)) β}
    (first : Ends good bad faults (f.run.run.run s))
    (rest : ∀ a t, good a t → Ends good' bad faults ((k a).run.run.run t)) :
    Ends good' bad faults ((f >>= k).run.run.run s) := by
  rw [try_bind]
  generalize f.run.run.run s = reached at first ⊢
  obtain ⟨_ | _ | a, t⟩ := reached
  · exact first
  · exact first
  · exact rest a t first

theorem get_bind {h : σ → ExceptT PlanError (ExceptT Fault (StateM σ)) β}
    (rest : Ends good' bad faults ((h s).run.run.run s)) :
    Ends good' bad faults ((get >>= h).run.run.run s) := rest

theorem run_lift {f : ExceptT Fault (StateM σ) α} {t : σ} {a : α} (ran : f.run.run s = (.ok a, t)) :
    (ExceptT.lift f : ExceptT PlanError (ExceptT Fault (StateM σ)) α).run.run.run s =
      (.ok (.ok a), t) := by
  change (f >>= fun a => pure (Except.ok a)).run.run s = _
  rw [run_bind, ran]
  rfl

theorem lift {f : ExceptT Fault (StateM σ) α} {t : σ} {a : α} (ran : f.run.run s = (.ok a, t))
    (met : good a t) : Ends good bad faults ((ExceptT.lift f :
      ExceptT PlanError (ExceptT Fault (StateM σ)) α).run.run.run s) := by
  rw [run_lift ran]
  exact met

/-- What cannot fail by itself leads to a state from which the rest goes on. -/
theorem lift_bind {f : ExceptT Fault (StateM σ) α} {t : σ} {a : α}
    {k : α → ExceptT PlanError (ExceptT Fault (StateM σ)) β} (ran : f.run.run s = (.ok a, t))
    (rest : Ends good' bad faults ((k a).run.run.run t)) :
    Ends good' bad faults ((ExceptT.lift f >>= k).run.run.run s) := by
  rw [try_bind, run_lift ran]
  exact rest

end Ends

/-- The working solution without its stored score. -/
def Scope.bare (c : Conditions S sh) (s : Scope S sh) : S := c.problem.bare s.director.solution

/-- A search works on a solution and has completed so many steps. -/
structure Scope.Stands (c : Conditions S sh) (w : S) (n : ℕ) (s : Scope S sh) : Prop where
  holds : s.director.Holds c.problem w
  steps : s.steps = n

section

variable {c : Conditions S sh} {s : Scope S sh} {v w : S} {n : ℕ}
variable {bad : PlanError → Scope S sh → Prop}
variable {ended : Except Fault (Except PlanError α) × Scope S sh}

theorem Scope.Stands.bare_eq (stands : s.Stands c w n) : s.bare c = w := stands.holds.bare

/-- An operation on the working solution is no step. -/
theorem Scope.Stands.turns {a : α} (stands : s.Stands c v n)
    (turns : Search.Turns c.problem s (.ok (.ok a)) w ended) :
    Ends (fun b t => b = a ∧ t.Stands c w n) bad c.problem.Fails ended := by
  obtain ⟨t, rfl, twin, holds⟩ := turns
  exact ⟨rfl, holds _ rfl, twin.steps.trans stands.steps⟩

theorem Search.Turns.ends_fault {f : Fault} {good : α → Scope S sh → Prop}
    (turns : Search.Turns c.problem s (.error f) w ended) (fails : c.problem.Fails f) :
    Ends good bad c.problem.Fails ended := by
  obtain ⟨t, rfl, -, -⟩ := turns
  exact fails

end

namespace Construction

variable {c : Conditions S sh} {vars : Variables S} {p : Placer S} {s : Scope S sh} {w : S} {e : ℕ}
variable {last : Score sh} {n : ℕ}

/-! ## The choice of a value -/

/-- The winner so far is the first of the best values that were tried, if there were any. -/
def Leads (problem : Problem S sh) (p : Placer S) (w : S) (e : ℕ) (tried : List ℕ) :
    Option (Move S × Score sh) → Prop
  | none => tried = []
  | some (m, y) => ∃ x, m = p.giving e x ∧ FirstBest (p.Reaches problem w e) tried x y

/-- Another value takes the lead if it reaches a better score. -/
theorem Leads.concat {tried : List ℕ} {winner : Option (Move S × Score sh)} {x : ℕ} {y : Score sh}
    (leads : Leads c.problem p w e tried winner) (reached : p.Reaches c.problem w e x y) :
    Leads c.problem p w e (tried ++ [x])
      (if (match winner with
        | none => true
        | some (_, best) => decide (best < y)) then some (p.giving e x, y) else winner) := by
  cases winner with
  | none =>
    obtain rfl : tried = [] := leads
    exact ⟨x, rfl, .singleton reached⟩
  | some found =>
    obtain ⟨m, best⟩ := found
    obtain ⟨x', rfl, first⟩ := leads
    by_cases better : best < y
    · rw [if_pos (decide_eq_true better)]
      exact ⟨x, rfl, first.concat_of_lt reached better⟩
    · rw [if_neg (by simpa using better)]
      exact ⟨x', rfl, first.concat_of_le reached (not_lt.1 better)⟩

section

variable (problemLawful : c.problem.Lawful) (lawful : vars.Lawful) (blind : vars.Blind c.problem)
variable (suits : p.Suits vars c.problem) (valid : vars.Valid w)
variable (known : c.problem.calculate w = .ok last) {bad : PlanError → Scope S sh → Prop}
include problemLawful lawful blind suits valid known

/-- Trying a value leaves the solution as it was. -/
theorem ends_evaluate (open_ : e ∈ p.openEntities w) {x : ℕ} (among : x ∈ p.values w)
    (stands : s.Stands c w n) :
    Ends (fun y t => p.Reaches c.problem w e x y ∧ t.Stands c w n) bad c.problem.Fails
      ((Search.evaluate c (p.giving e x) last).run.run.run s) := by
  obtain ⟨-, ⟨undo, applied⟩, gives⟩ := Placer.giving_spec lawful valid suits open_ among
  have evaluated := Search.turns_evaluate problemLawful stands.holds blind lawful
    (suits.over_giving open_ x) (p.keepsRuns_giving e x) valid known
  rw [applied] at evaluated
  cases scored : c.problem.calculate ((p.giving e x).apply w).solution with
  | error f =>
    rw [scored] at evaluated
    exact evaluated.ends_fault ⟨_, scored⟩
  | ok y =>
    rw [scored] at evaluated
    refine (stands.turns evaluated).mono ?_
    rintro _ t ⟨rfl, stands⟩
    exact ⟨⟨_, gives, scored⟩, stands⟩

/-- When all values are tried, the first of the best ones has the lead. -/
theorem ends_bestMove (open_ : e ∈ p.openEntities w) {tried xs : List ℕ}
    {winner : Option (Move S × Score sh)} (all : ∀ x ∈ xs, x ∈ p.values w)
    (leads : Leads c.problem p w e tried winner) (stands : s.Stands c w n) :
    Ends (fun best t => Leads c.problem p w e (tried ++ xs) best ∧ t.Stands c w n) bad
      c.problem.Fails ((bestMove c last (xs.map fun x => p.giving e x) winner).run.run.run s) := by
  induction xs generalizing tried winner s with
  | nil =>
    rw [List.append_nil]
    exact ⟨leads, stands⟩
  | cons x rest ih =>
    obtain ⟨among, all⟩ := List.forall_mem_cons.1 all
    have doable : (p.giving e x).isDoable s.director.solution = true := by
      rw [stands.holds.solution_eq problemLawful,
        Move.isDoable_withScore blind _ (suits.over_giving open_ x)]
      exact (Placer.giving_spec lawful valid suits open_ among).1
    rw [List.map_cons, bestMove]
    refine .get_bind ?_
    rw [if_pos doable]
    refine (ends_evaluate problemLawful lawful blind suits valid known open_ among stands).bind ?_
    rintro y t ⟨reached, stands⟩
    have others := ih all (leads.concat reached) stands
    rwa [List.append_assoc, List.singleton_append] at others

end

/-! ## Rounds -/

/-- Completing a step counts it and leaves the solution alone. -/
theorem run_complete (c : Conditions S sh) (phase : PhaseContext sh) (x : Score sh)
    (s : Scope S sh) : ∃ improved t,
      (complete c phase x).run.run s = (.ok (phase.completeStep x improved), t) ∧
        t.director = s.director ∧ t.steps = s.steps + 1 := by
  obtain ⟨improved, t, offered, same⟩ : ∃ improved t,
      (Search.offer c x).run.run { s with steps := s.steps + 1 } = (.ok improved, t) ∧
        t.director = s.director ∧ t.steps = s.steps + 1 := by
    rw [Search.run_offer]
    dsimp only
    split
    · exact ⟨true, _, rfl, rfl, rfl⟩
    · exact ⟨false, _, rfl, rfl, rfl⟩
  refine ⟨improved, t.told c (.stepEnded phase.steps x), ?_, same⟩
  change StateT.run (ExceptT.run ((Search.offer c x >>= fun improved => do
    Search.fire c (.stepEnded phase.steps x)
    return phase.completeStep x improved) : Search S sh (PhaseContext sh)))
      { s with steps := s.steps + 1 } = _
  rw [run_bind, offered]
  rfl

/-- What a round may come to. Either every entity has a value, or the first one without a value is
given one, which completes a step. -/
def Advances (c : Conditions S sh) (p : Placer S) (index : ℕ) (w : S) (n : ℕ) :
    Option (PhaseContext sh) → Scope S sh → Prop
  | none, t => p.openEntities w = [] ∧ t.Stands c w n
  | some next, t => ∃ w' y, p.Fills c.problem w w' ∧ c.problem.calculate w' = .ok y ∧
      next.last = some y ∧ next.index = index ∧ t.Stands c w' (n + 1)

/-- A run failed for lack of a move that would give an entity a value. -/
structure Stalls (c : Conditions S sh) (p : Placer S) (index : ℕ) (w : S) (n : ℕ) (e : PlanError)
    (t : Scope S sh) : Prop where
  stands : t.Stands c w n
  placement : ∃ placement, p.next t.director.solution = some placement ∧
    (∀ m ∈ placement.moves, m.isDoable t.director.solution = false) ∧
    e = .noPlacement index placement.entity

section

variable (problemLawful : c.problem.Lawful) (lawful : vars.Lawful) (blind : vars.Blind c.problem)
include problemLawful lawful blind

/-- The winner is applied, and the step is completed. -/
theorem ends_making (suits : p.Suits vars c.problem) (valid : vars.Valid w) {rest : List ℕ} {x : ℕ}
    {y : Score sh} (entities : p.openEntities w = e :: rest)
    (first : FirstBest (p.Reaches c.problem w e) (p.values w) x y) (stands : s.Stands c w n)
    (phase : PhaseContext sh) {bad : PlanError → Scope S sh → Prop} :
    Ends (fun next => Advances c p phase.index w n (some next)) bad c.problem.Fails
      ((Search.apply (p.giving e x) >>= fun _ => do
        Search.assertScore c y
        complete c phase y : Attempt S sh (PhaseContext sh)).run.run.run s) := by
  have open_ : e ∈ p.openEntities w := entities ▸ List.mem_cons_self
  obtain ⟨-, ⟨undo, applied⟩, gives⟩ := Placer.giving_spec lawful valid suits open_ first.mem
  have scored := first.reached.calculate_eq gives
  have made := Search.turns_apply problemLawful stands.holds blind (suits.over_giving open_ x)
  rw [applied] at made
  refine Ends.bind (stands.turns made) ?_
  rintro _ t ⟨-, stands⟩
  refine Ends.bind (stands.turns (Search.turns_assertScore problemLawful stands.holds scored)) ?_
  rintro _ u ⟨-, stands⟩
  obtain ⟨improved, v, completed, director, steps⟩ := run_complete c phase y u
  have fills : p.Fills c.problem w ((p.giving e x).apply w).solution :=
    ⟨e, rest, x, y, entities, first, gives, scored⟩
  refine .lift completed ⟨_, y, fills, scored, rfl, rfl, ?_, ?_⟩
  · rw [director]
    exact stands.holds
  · rw [steps, stands.steps]

variable {p : Construction S sh} (suits : p.placer.Suits vars c.problem) (valid : vars.Valid w)
variable (known : c.problem.calculate w = .ok last) {phase : PhaseContext sh}
include suits valid known

theorem ends_step (stands : s.Stands c w n) {placement : Placement S}
    (found : p.placer.next w = some placement) :
    Ends (fun next => Advances c p.placer phase.index w n (some next))
      (Stalls c p.placer phase.index w n) c.problem.Fails
      ((step c phase placement last).run.run.run s) := by
  have placed := found
  rw [Placer.next_eq valid suits] at placed
  cases entities : p.placer.openEntities w with
  | nil =>
    rw [entities] at placed
    cases placed
  | cons e rest =>
    rw [entities, List.head?_cons, Option.map_some] at placed
    obtain rfl := Option.some.inj placed
    have open_ : e ∈ p.placer.openEntities w := entities ▸ List.mem_cons_self
    have nothing : Leads c.problem p.placer w e [] none := rfl
    have stands : (s.told c (.stepStarted phase.steps)).Stands c w n := ⟨stands.holds, stands.steps⟩
    rw [step_eq]
    refine .lift_bind (Search.run_fire _ s) ?_
    refine Ends.bind (ends_bestMove problemLawful lawful blind suits valid known open_ (fun x => id)
      nothing stands) ?_
    rintro best u ⟨leads, stands⟩
    cases best with
    | none =>
      have none_ : p.placer.values w = [] := leads
      refine ⟨stands, _, (suits.next_holds problemLawful blind stands.holds).trans found, ?_, rfl⟩
      rw [none_]
      nofun
    | some winner =>
      obtain ⟨m, y⟩ := winner
      obtain ⟨x, rfl, first⟩ := leads
      exact ends_making problemLawful lawful blind suits valid entities first stands phase

/-- A round that no termination ends gives an entity a value, if there is one without. -/
theorem ends_round (stands : s.Stands c w n) (score : phase.last = some last) (starting : Score sh)
    (goesOn : ((phase.isTerminated c p.termination).run.run s).1 = .ok false) :
    Ends (Advances c p.placer phase.index w n) (Stalls c p.placer phase.index w n) c.problem.Fails
      ((p.round c starting phase).run.run.run s) := by
  obtain ⟨t, looked⟩ : ∃ t, (phase.isTerminated c p.termination).run.run s = (.ok false, t) :=
    ⟨_, Prod.ext goesOn rfl⟩
  obtain ⟨-, -, rfl⟩ := PhaseContext.of_isTerminated_false looked
  refine .lift_bind looked (.get_bind ?_)
  have same : p.placer.next (s.read (c.termination.toList.length +
      p.termination.toList.length)).director.solution = p.placer.next w :=
    suits.next_holds problemLawful blind stands.holds
  rw [same, score]
  cases found : p.placer.next w with
  | none =>
    refine ⟨?_, stands.holds, stands.steps⟩
    rw [Placer.next_eq valid suits, Option.map_eq_none_iff, List.head?_eq_none_iff] at found
    exact found
  | some placement =>
    have stands : (s.read (c.termination.toList.length + p.termination.toList.length)).Stands c w n :=
      ⟨stands.holds, stands.steps⟩
    exact Ends.bind (ends_step problemLawful lawful blind suits valid known stands found)
      fun next u advances => advances

end

/-! ## Runs -/

/-- The steps of a run that begins with a solution and a number of completed steps, and how the run
ends: with no entity without a value, for lack of a move, or because scores cannot be calculated. -/
inductive Course (c : Conditions S sh) (p : Placer S) (index : ℕ) :
    S → ℕ → List (Milestone S sh) → Except Fault (Except PlanError Unit) × Scope S sh → Prop
  | filled {w : S} {n : ℕ} {t : Scope S sh} (none_ : p.openEntities w = []) (stands : t.Stands c w n) :
    Course c p index w n [] (.ok (.ok ()), t)
  | stalled {w : S} {n : ℕ} {e : PlanError} {t : Scope S sh} (stalls : Stalls c p index w n e t) :
    Course c p index w n [] (.ok (.error e), t)
  | broken {w : S} {n : ℕ} {f : Fault} {t : Scope S sh} (fails : c.problem.Fails f) :
    Course c p index w n [] (.error f, t)
  | step {w w' : S} {n : ℕ} {a : Milestone S sh} {trail : List (Milestone S sh)}
    {ended : Except Fault (Except PlanError Unit) × Scope S sh} (fills : p.Fills c.problem w w')
    (stands : a.2.Stands c w' (n + 1)) (rest : Course c p index w' (n + 1) trail ended) :
    Course c p index w n (a :: trail) ended

/-- Every round fills one of the entities without a value, so that rounds suffice that are more than
these. -/
theorem course_repeatRound {p : Construction S sh} (problemLawful : c.problem.Lawful)
    (lawful : vars.Lawful) (blind : vars.Blind c.problem) (apart : vars.Apart)
    (suits : p.placer.Suits vars c.problem) (starting : Score sh) {rounds : ℕ}
    {phase : PhaseContext sh} (valid : vars.Valid w) (known : c.problem.calculate w = .ok last)
    (score : phase.last = some last) (stands : s.Stands c w n)
    (enough : (p.placer.openEntities w).length < rounds)
    (goesOn : ∀ a ∈ (phase, s) :: milestones (p.round c starting) id rounds phase s,
      ((a.1.isTerminated c p.termination).run.run a.2).1 = .ok false) :
    Course c p.placer phase.index w n (milestones (p.round c starting) id rounds phase s)
      ((repeatRound (p.round c starting) rounds phase).run.run.run s) := by
  induction rounds generalizing phase s w n last with
  | zero => cases enough
  | succ rounds ih =>
    obtain ⟨here, goesOn⟩ := List.forall_mem_cons.1 goesOn
    have ended := ends_round problemLawful lawful blind suits valid known stands score starting here
    rw [milestones] at goesOn ⊢
    rw [repeatRound, try_bind]
    generalize (p.round c starting phase).run.run.run s = reached at ended goesOn ⊢
    obtain ⟨_ | _ | _ | next, t⟩ := reached
    · exact .broken ended
    · exact .stalled ended
    · exact .filled ended.1 ended.2
    · obtain ⟨w', y, fills, scored, score, index, stands⟩ := ended
      have fewer := fills.openEntities_eq apart suits lawful valid
      obtain ⟨e, rest, -, -, entities, -⟩ := id fills
      refine .step fills stands ?_
      rw [← index]
      refine ih (fills.valid suits lawful valid) scored score stands ?_ goesOn
      rw [fewer, List.length_tail]
      rw [entities, List.length_cons] at enough ⊢
      omega

/-- What is announced in the end does not matter. -/
theorem Course.told {index : ℕ} {trail : List (Milestone S sh)} {event : Event S sh}
    {f : Attempt S sh Unit} (course : Course c p index w n trail (f.run.run.run s)) :
    Course c p index w n trail
      ((f >>= fun _ => ExceptT.lift (Search.fire c event) : Attempt S sh Unit).run.run.run s) := by
  rw [try_bind]
  generalize f.run.run.run s = ended at course
  induction course with
  | filled none_ stands => exact .filled none_ ⟨stands.holds, stands.steps⟩
  | stalled stalls => exact .stalled stalls
  | broken fails => exact .broken fails
  | step fills stands _ ih => exact .step fills stands ih

theorem ends_begin (problemLawful : c.problem.Lawful) (stands : s.Stands c w n) (index : ℕ) :
    Ends (fun first t => c.problem.calculate w = .ok first.1 ∧ first.2.last = some first.1 ∧
        first.2.index = index ∧ t.Stands c w n) (fun _ _ => False) c.problem.Fails
      ((begin c index).run.run.run s) := by
  have calculated := Search.turns_calculate problemLawful stands.holds
  cases known : c.problem.calculate w with
  | error f =>
    rw [known] at calculated
    exact Ends.bind (Search.Turns.ends_fault (.lift_fault calculated) ⟨w, known⟩)
      fun _ _ => False.elim
  | ok x =>
    rw [known] at calculated
    refine Ends.bind (stands.turns (.lift calculated)) ?_
    rintro _ t ⟨rfl, stands⟩
    exact ⟨rfl, rfl, rfl, stands.holds, stands.steps⟩

/-- A run of the phase in which no termination ends a round. -/
theorem course_run {p : Construction S sh} (problemLawful : c.problem.Lawful) (lawful : vars.Lawful)
    (blind : vars.Blind c.problem) (apart : vars.Apart) (suits : p.placer.Suits vars c.problem)
    (valid : vars.Valid w) (stands : s.Stands c w n) (index : ℕ)
    (enough : (p.placer.openEntities w).length < c.patience)
    (goesOn : ∀ a ∈ (Phase.construction p : Phase Unit S sh).decisions c index s (),
      ((a.1.isTerminated c p.termination).run.run a.2).1 = .ok false) :
    Course c p.placer index w n (p.trail c index s) ((p.run c index).run.run.run s) := by
  have began := ends_begin problemLawful stands index
  rw [run_eq, try_bind, trail]
  rcases reached : (begin c index).run.run.run s with ⟨_ | _ | ⟨starting, phase⟩, t⟩
  · rw [reached] at began
    exact .broken began
  · rw [reached] at began
    exact began.elim
  · have decides : (Phase.construction p : Phase Unit S sh).decisions c index s () =
        (phase, t) :: milestones (p.round c starting) id c.patience phase t := by
      simp only [Phase.decisions, trail, reached]
    rw [reached] at began
    obtain ⟨known, score, rfl, stands⟩ := began
    refine Course.told ?_
    rw [steps_eq]
    exact course_repeatRound problemLawful lawful blind apart suits starting valid known score stands
      enough (decides ▸ goesOn)

/-! ## What a run comes to -/

/-- The solutions that a run goes through. -/
def solutions (c : Conditions S sh) (s : Scope S sh) (trail : List (Milestone S sh)) : List S :=
  (s :: trail.map Prod.snd).map (Scope.bare c)

namespace Course

variable {index : ℕ} {trail : List (Milestone S sh)}
variable {ended : Except Fault (Except PlanError Unit) × Scope S sh}

/-- Every step fills an entity. -/
theorem isChain (course : Course c p index w n trail ended) (stands : s.Stands c w n) :
    (solutions c s trail).IsChain (p.Fills c.problem) := by
  induction course generalizing s with
  | filled | stalled | broken => exact .singleton _
  | step fills stands' _ ih =>
    refine List.isChain_cons_cons.2 ⟨?_, ih stands'⟩
    rwa [stands.bare_eq, stands'.bare_eq]

/-- A run that is not broken off ends with the solution that the last step led to. -/
theorem getLast (course : Course c p index w n trail ended) (stands : s.Stands c w n)
    (r : Except PlanError Unit) (whole : ended.1 = .ok r) :
    (solutions c s trail).getLast? = some (ended.2.bare c) := by
  induction course generalizing s with
  | filled none_ stands' => exact congrArg some (stands.bare_eq.trans stands'.bare_eq.symm)
  | stalled stalls => exact congrArg some (stands.bare_eq.trans stalls.stands.bare_eq.symm)
  | broken => cases whole
  | step fills stands' _ ih => exact ih stands' whole

/-- Without a lack of moves the steps are as many as there were entities without a value. -/
theorem length_eq (course : Course c p index w n trail ended) (problemLawful : c.problem.Lawful)
    (lawful : vars.Lawful) (blind : vars.Blind c.problem) (apart : vars.Apart)
    (suits : p.Suits vars c.problem) (valid : vars.Valid w) (whole : ended.1 = .ok (.ok ())) :
    p.openEntities ended.2.director.solution = [] ∧ trail.length = (p.openEntities w).length ∧
      ended.2.steps = n + trail.length := by
  induction course with
  | filled none_ stands =>
    rw [suits.openEntities_holds problemLawful blind stands.holds, none_]
    exact ⟨rfl, rfl, stands.steps⟩
  | stalled | broken => cases whole
  | step fills _ _ ih =>
    obtain ⟨none_, count, steps⟩ := ih (fills.valid suits lawful valid) whole
    obtain ⟨e, rest, -, -, entities, -⟩ := id fills
    rw [fills.openEntities_eq apart suits lawful valid, entities, List.tail_cons] at count
    rw [entities, List.length_cons, List.length_cons, count]
    exact ⟨none_, rfl, by omega⟩

theorem stalls (course : Course c p index w n trail ended) {e : PlanError}
    (failed : ended.1 = .ok (.error e)) : ∃ v m, Stalls c p index v m e ended.2 := by
  induction course with
  | filled | broken => cases failed
  | stalled stalls =>
    cases failed
    exact ⟨_, _, stalls⟩
  | step _ _ _ ih => exact ih failed

theorem fails (course : Course c p index w n trail ended) {f : Fault}
    (broke : ended.1 = .error f) : c.problem.Fails f := by
  induction course with
  | filled | stalled => cases broke
  | broken fails =>
    cases broke
    exact fails
  | step _ _ _ ih => exact ih broke

end Course

/-- A phase that is not ended by a termination gives every entity that had no value the first of the
best ones, the first entity first, and leaves alone what had a value. There is a step for each of these
entities, and in the end there is none without a value, unless there is nothing that one of them could
be given. If it breaks off, then because a score cannot be calculated. -/
theorem run_fills (c : Conditions S sh) (p : Construction S sh) (index : ℕ) (s : Scope S sh)
    (vars : Variables S) (problemLawful : c.problem.Lawful) (lawful : vars.Lawful)
    (blind : vars.Blind c.problem) (apart : vars.Apart) (suits : p.placer.Suits vars c.problem)
    (holds : s.director.Holds c.problem (s.bare c)) (valid : vars.Valid s.director.solution)
    (patient : (p.placer.openEntities s.director.solution).length < c.patience)
    (goesOn : ∀ a ∈ (Phase.construction p : Phase Unit S sh).decisions c index s (),
      ((a.1.isTerminated c p.termination).run.run a.2).1 = .ok false) :
    let trail := p.trail c index s
    let ended := (p.run c index).run.run.run s
    (solutions c s trail).IsChain (p.placer.Fills c.problem) ∧
      (solutions c s trail).Pairwise vars.Keeps ∧
      (∀ r, ended.1 = .ok r → (solutions c s trail).getLast? = some (ended.2.bare c)) ∧
      ((ended.1 = .ok (.ok ()) ∧ p.placer.openEntities ended.2.director.solution = [] ∧
          trail.length = (p.placer.openEntities s.director.solution).length ∧
          ended.2.steps = s.steps + trail.length) ∨
        (∃ placement, p.placer.next ended.2.director.solution = some placement ∧
          (∀ m ∈ placement.moves, m.isDoable ended.2.director.solution = false) ∧
          ended.1 = .ok (.error (.noPlacement index placement.entity))) ∨
        ∃ f w, c.problem.calculate w = .error f ∧ ended.1 = .error f) := by
  intro trail ended
  have stands : s.Stands c (s.bare c) s.steps := ⟨holds, rfl⟩
  have count := suits.openEntities_holds problemLawful blind holds
  have valid := (blind.valid_withScore s.director.solution none).2 valid
  rw [count] at patient ⊢
  have course : Course c p.placer index (s.bare c) s.steps trail ended :=
    course_run problemLawful lawful blind apart suits valid stands index patient goesOn
  have chain := course.isChain stands
  have keeps : (solutions c s trail).IsChain vars.Keeps :=
    chain.imp fun a b (fills : p.placer.Fills c.problem a b) => fills.keeps apart suits
  refine ⟨chain, List.isChain_iff_pairwise.1 keeps, course.getLast stands, ?_⟩
  · rcases result : ended.1 with f | e | ⟨⟩
    · obtain ⟨w, failed⟩ := course.fails result
      exact .inr (.inr ⟨f, w, failed, rfl⟩)
    · obtain ⟨v, m, -, placement, found, stuck, rfl⟩ := course.stalls result
      exact .inr (.inl ⟨placement, found, stuck, rfl⟩)
    · exact .inl ⟨rfl, course.length_eq problemLawful lawful blind apart suits valid result⟩

end Construction

namespace ScoredNecklace

/-- Gives everything one of two colours. -/
def colouring : Construction ScoredNecklace .simple where
  placer := .plain colour (fun _ => 4) (fun _ => 2)

def colourist : Solver Unit ScoredNecklace .simple where
  phases := [.construction colouring]

theorem apart_written : registry.written.Apart := by
  refine ⟨fun v member w among s e x e' other => ?_, fun v member w among s g e => ?_⟩
  · obtain rfl := List.mem_singleton.1 member
    obtain rfl := List.mem_singleton.1 among
    exact Necklace.colour_set_of_ne _ _ (other rfl)
  · obtain rfl := List.mem_singleton.1 member
    obtain rfl := List.mem_singleton.1 among
    rfl

/-- Two strings and two beads are given a colour in four steps. -/
theorem run_fills_plain : ∃ t,
    (colouring.run (colourist.conditions around) 0).run.run.run (colourist.opening 0 plain) =
      (.ok (.ok ()), t) ∧ t.steps = 4 ∧ colouring.placer.openEntities t.director.solution = [] := by
  have stays : ((Phase.construction colouring : Phase Unit _ _).decisions
      (colourist.conditions around) 0 (colourist.opening 0 plain) ()).all (fun a =>
        ((a.1.isTerminated (colourist.conditions around) colouring.termination).run.run
          a.2).1.toOption == some false) = true := by decide +kernel
  have succeeds : (((colouring.run (colourist.conditions around) 0).run.run.run
      (colourist.opening 0 plain)).1.toOption.bind Except.toOption).isSome = true := by
    decide +kernel
  have suits : colouring.placer.Suits registry.written (colourist.conditions around).problem :=
    .plain (List.mem_singleton_self colour) (fun s e known =>
      ⟨colour, _, _, .head _, s, .inl known⟩) (fun _ _ _ => rfl) fun _ _ => ⟨rfl, rfl⟩
  obtain ⟨-, -, -, ended⟩ := Construction.run_fills (colourist.conditions around) colouring 0
    (colourist.opening 0 plain) registry.written lawful_problem lawful_written blind_written
    apart_written suits (Director.holds_new problem plain) valid_plain (by decide) (by
      intro a member
      have goes := eq_of_beq (List.all_eq_true.1 stays a member)
      rcases result : ((a.1.isTerminated (colourist.conditions around)
        colouring.termination).run.run a.2).1 with f | stop
      · rw [result] at goes
        cases goes
      · rw [result] at goes
        rw [Option.some.inj goes])
  generalize (colouring.run (colourist.conditions around) 0).run.run.run
    (colourist.opening 0 plain) = reached at ended succeeds ⊢
  obtain ⟨result, t⟩ := reached
  rcases ended with ⟨rfl, none_, count, steps⟩ | ⟨placement, -, -, rfl⟩ | ⟨f, w, -, rfl⟩
  · rw [count] at steps
    exact ⟨t, rfl, steps, none_⟩
  · cases succeeds
  · cases succeeds

end ScoredNecklace

end PlanSearch
