import Mathlib.Data.List.DropRight
import PlanSearch.Proofs.Search.Booked
import PlanSearch.Proofs.Search.Progress

/-!
# Counts and the log

A search does not look into its log, it counts: the completed steps, and the step in which the best
solution last changed, as a whole and in every phase. The counts say at every time what could be read
off the log.
-/

namespace PlanSearch

variable {M S σ : Type} {sh : Shape}

/-! ## Reading a log -/

namespace Event

/-- For every completed step, whether a better solution was announced in it. A log that begins within
a step may go on from a better one. -/
def improvements (better : Bool) : List (Event S sh) → List Bool
  | [] => []
  | .stepStarted _ :: log => improvements false log
  | .bestChanged .. :: log => improvements true log
  | .stepEnded .. :: log => better :: improvements false log
  | _ :: log => improvements better log

/-- How many steps were completed after the last one in which a better solution was announced; all of
them, if there is none. -/
def stale (log : List (Event S sh)) : ℕ := ((improvements false log).rtakeWhile not).length

/-- The solution that an event announces as the best one. -/
def hailed? : Event S sh → Option S
  | .solvingStarted solution | .bestChanged solution _ => some solution
  | _ => none

/-- The solution that was last announced as the best one. -/
def latest (log : List (Event S sh)) : Option S := (log.filterMap hailed?).getLast?

variable {log more : List (Event S sh)} {better : Bool}

theorem length_improvements (better : Bool) (log : List (Event S sh)) :
    (improvements better log).length = count .stepEnded log := by
  rw [count]
  induction log generalizing better with
  | nil => rfl
  | cons e log ih =>
    rw [List.countP_cons]
    cases e with
    | stepEnded index score =>
      rw [improvements, List.length_cons, ih]
      rfl
    | _ => exact ih _

/-- What was announced before a step begins does not count for it. -/
theorem improvements_append_started (k : ℕ) :
    improvements better (log ++ .stepStarted k :: more) =
      improvements better log ++ improvements false more := by
  induction log generalizing better with
  | nil => rfl
  | cons e log ih =>
    cases e with
    | stepEnded index score => exact congrArg (better :: ·) ih
    | _ => exact ih

/-- No step is completed. -/
theorem improvements_eq_nil (none : ∀ e ∈ log, e.kind ≠ .stepEnded) : improvements better log = [] := by
  rw [← List.length_eq_zero_iff, length_improvements, count, List.countP_eq_zero]
  exact fun e member => by simpa using none e member

theorem improvements_append (none : ∀ e ∈ more, e.kind ≠ .stepEnded) :
    improvements better (log ++ more) = improvements better log := by
  induction log generalizing better with
  | nil => exact improvements_eq_nil none
  | cons e log ih =>
    cases e with
    | stepEnded index score => exact congrArg (better :: ·) ih
    | _ => exact ih

theorem latest_append (none : ∀ e ∈ more, e.hailed? = none) : latest (log ++ more) = latest log := by
  rw [latest, latest, List.filterMap_append, List.filterMap_eq_nil_iff.2 none, List.append_nil]

theorem latest_step (k : ℕ) (x : Score sh) (best : Option (Best S sh)) :
    latest (log ++ .stepStarted k :: (best.map Best.announced).toList ++ [.stepEnded k x]) =
      (best.map Best.solution).or (latest log) := by
  rw [List.append_assoc]
  cases best with
  | none => exact latest_append (List.forall_mem_cons.2 ⟨rfl, List.forall_mem_singleton.2 rfl⟩)
  | some best =>
    rw [latest, List.filterMap_append]
    exact List.getLast?_concat

end Event

/-! ## Counts that agree with a log -/

/-- So many steps were completed, and in the last step that announced a better solution, if any, it
was so many of them. -/
structure Tally (log : List (Event S sh)) (steps bestStep : ℕ) : Prop where
  steps_eq : steps = Event.count .stepEnded log
  bestStep_le : bestStep ≤ steps
  stale_eq : steps - bestStep = Event.stale log

namespace Tally

variable {log more : List (Event S sh)} {steps bestStep : ℕ}

/-- At first nothing is counted. -/
theorem of_none (none : ∀ e ∈ log, e.kind ≠ .stepEnded) : Tally log 0 0 where
  steps_eq := by
    rw [← Event.length_improvements false, Event.improvements_eq_nil none]
    rfl
  bestStep_le := le_rfl
  stale_eq := by
    rw [Event.stale, Event.improvements_eq_nil none]
    rfl

theorem append (tally : Tally log steps bestStep) (none : ∀ e ∈ more, e.kind ≠ .stepEnded) :
    Tally (log ++ more) steps bestStep where
  steps_eq := by
    rw [tally.steps_eq, ← Event.length_improvements false, ← Event.length_improvements false,
      Event.improvements_append none]
  bestStep_le := tally.bestStep_le
  stale_eq := by rw [tally.stale_eq, Event.stale, Event.stale, Event.improvements_append none]

/-- A step is counted where it is announced. -/
theorem step (tally : Tally log steps bestStep) (k : ℕ) (x : Score sh) (better : Option (Best S sh)) :
    Tally (log ++ .stepStarted k :: (better.map Best.announced).toList ++ [.stepEnded k x])
      (steps + 1) (if better.isSome then steps + 1 else bestStep) := by
  obtain ⟨counted, earlier, stale⟩ := tally
  have improvements : Event.improvements false
      (log ++ .stepStarted k :: (better.map Best.announced).toList ++ [.stepEnded k x]) =
        Event.improvements false log ++ [better.isSome] := by
    rw [List.append_assoc, List.cons_append, Event.improvements_append_started]
    cases better <;> rfl
  refine ⟨?_, ?_, ?_⟩
  · rw [← Event.length_improvements false, improvements, List.length_append,
      Event.length_improvements, counted, List.length_singleton]
  · split <;> omega
  · rw [Event.stale] at stale
    rw [Event.stale, improvements, List.rtakeWhile_concat]
    cases better with
    | none =>
      rw [Option.isSome_none, if_neg Bool.false_ne_true, if_pos Bool.not_false, List.length_append,
        ← stale, List.length_singleton]
      omega
    | some best =>
      rw [Option.isSome_some, if_pos rfl, Bool.not_true, if_neg Bool.false_ne_true]
      exact Nat.sub_self _

end Tally

/-! ## Between steps -/

namespace Event

/-- The event is neither the end of a step nor does it announce a best solution. -/
def Passing (e : Event S sh) : Prop := e.kind ≠ .stepEnded ∧ e.hailed? = none

theorem passing_stepStarted (k : ℕ) : (.stepStarted k : Event S sh).Passing := ⟨nofun, rfl⟩

theorem passing_phaseStarted (k : ℕ) (kind : String) :
    (.phaseStarted k kind : Event S sh).Passing := ⟨nofun, rfl⟩

theorem passing_phaseEnded (k : ℕ) (kind : String) :
    (.phaseEnded k kind : Event S sh).Passing := ⟨nofun, rfl⟩

end Event

/-- Nothing that is counted has changed, and nothing was announced that would be counted. -/
structure Scope.Waits (s t : Scope S sh) : Prop where
  steps : t.steps = s.steps
  bestStep : t.bestStep = s.bestStep
  best : t.best = s.best
  events : ∃ more, t.events.toList = s.events.toList ++ more ∧ ∀ e ∈ more, e.Passing

namespace Scope.Waits

variable {s t : Scope S sh} {c : Conditions S sh}

instance : IsPreorder (Scope S sh) Scope.Waits where
  refl s := ⟨rfl, rfl, rfl, [], (List.append_nil _).symm, nofun⟩
  trans s t u := by
    rintro ⟨steps, bestStep, best, more, said, passing⟩ ⟨steps', bestStep', best', more', said', passing'⟩
    refine ⟨steps'.trans steps, bestStep'.trans bestStep, best'.trans best, more ++ more', ?_, ?_⟩
    · rw [said', said, List.append_assoc]
    · exact List.forall_mem_append.2 ⟨passing, passing'⟩

theorem of_idles (idles : s.Idles t) : s.Waits t :=
  ⟨idles.steps, idles.bestStep, idles.best, [], by rw [idles.events, List.append_nil], nofun⟩

theorem told {e : Event S sh} (passing : e.Passing) (s : Scope S sh) : s.Waits (s.told c e) :=
  ⟨rfl, rfl, rfl, [e], Array.toList_push, List.forall_mem_singleton.2 passing⟩

end Scope.Waits

/-! ## What is known of the best solution -/

/-- The best solution is the one that was announced last, with its score. -/
def Scope.Hails (p : Problem S sh) (s : Scope S sh) : Prop :=
  ∃ best, s.best = some best ∧ Event.latest s.events.toList = some best.solution ∧
    p.score best.solution = some best.score ∧ p.isInitialized best.solution = best.isInitialized

/-- The counts of a search agree with its log, and what it knows of the best solution does. -/
structure Scope.Tallies (c : Conditions S sh) (s : Scope S sh) : Prop where
  tally : Tally s.events.toList s.steps s.bestStep
  hails : c.problem.Lawful → s.Hails c.problem

namespace Scope.Tallies

variable {s t : Scope S sh} {c : Conditions S sh}

theorem waits (tallies : s.Tallies c) (waits : s.Waits t) : t.Tallies c := by
  obtain ⟨tally, hails⟩ := tallies
  obtain ⟨steps, bestStep, best, more, said, passing⟩ := waits
  refine ⟨?_, fun lawful => ?_⟩
  · rw [said, steps, bestStep]
    exact tally.append fun e member => (passing e member).1
  · obtain ⟨known, best', latest, stored⟩ := hails lawful
    refine ⟨known, best.trans best', ?_, stored⟩
    rw [said, Event.latest_append fun e member => (passing e member).2, latest]

/-- The counts still agree after a step. -/
theorem booked {phase next : PhaseContext sh} {x : Score sh} {better : Option (Best S sh)}
    (tallies : s.Tallies c) (booked : Booked c phase next x better s t) : t.Tallies c := by
  obtain ⟨tally, hails⟩ := tallies
  refine ⟨?_, fun lawful => ?_⟩
  · rw [booked.events, booked.bestStep, booked.steps]
    exact tally.step phase.steps x better
  · obtain ⟨known, best, latest, stored⟩ := hails lawful
    have latest' : Event.latest t.events.toList =
        (better.map Best.solution).or (some known.solution) := by
      rw [booked.events, Event.latest_step, latest]
    cases better with
    | none => exact ⟨known, booked.best.trans best, latest', stored⟩
    | some b =>
      obtain ⟨-, w, rfl⟩ := booked.beats b rfl
      exact ⟨_, booked.best, latest', lawful.score_withScore .., lawful.isInitialized_withScore ..⟩

end Scope.Tallies

/-! ## Phases -/

/-- The counts of a search agree with its log, and those of the phase that is under way with what the
log tells since that phase began. -/
structure Milestone.Tallies (c : Conditions S sh) (index : ℕ) (kind : String)
    (a : Milestone S sh) : Prop where
  whole : a.2.Tallies c
  own : ∃ before since, a.2.events.toList = before ++ .phaseStarted index kind :: since ∧
    (∀ e ∈ since, e.kind ≠ .phaseStarted) ∧ Tally since a.1.steps a.1.bestStep

namespace Milestone.Tallies

variable {c : Conditions S sh} {index : ℕ} {kind : String} {phase next : PhaseContext sh}
variable {s t : Scope S sh}

theorem booked {x : Score sh} {better : Option (Best S sh)}
    (tallies : Milestone.Tallies c index kind (phase, s))
    (booked : Booked c phase next x better s t) : Milestone.Tallies c index kind (next, t) := by
  obtain ⟨whole, before, since, said, none, tally⟩ := tallies
  refine ⟨whole.booked booked, before,
    since ++ .stepStarted phase.steps :: (better.map Best.announced).toList ++
      [.stepEnded phase.steps x], ?_, ?_, ?_⟩
  · rw [booked.events, said]
    simp only [List.append_assoc, List.cons_append]
  · refine List.forall_mem_append.2 ⟨List.forall_mem_append.2 ⟨none, ?_⟩, ?_⟩
    · cases better <;> simp [Event.kind, Best.announced]
    · simp [Event.kind]
  · rw [booked.phase_eq]
    exact tally.step phase.steps x better

/-- A phase begins with its announcement and with nothing counted. -/
theorem of_begun (whole : s.Tallies c) (waits : s.Waits t)
    (none : phase.steps = 0 ∧ phase.bestStep = 0) :
    Milestone.Tallies c index kind (phase, t.told c (.phaseStarted index kind)) where
  whole := (whole.waits waits).waits (.told (Event.passing_phaseStarted index kind) t)
  own := by
    refine ⟨t.events.toList, [], Array.toList_push, nofun, ?_⟩
    rw [none.1, none.2]
    exact .of_none (List.forall_mem_nil _)

end Milestone.Tallies

section Rounds

variable {c : Conditions S sh} {view : σ → Scope S sh} {index : ℕ} {kind : String}
variable {round : PhaseContext sh →
  ExceptT PlanError (ExceptT Fault (StateM σ)) (Option (PhaseContext sh))}

/-- A round that does not complete a step announces nothing that would be counted. -/
def RoundWaits (view : σ → Scope S sh) (round : PhaseContext sh →
    ExceptT PlanError (ExceptT Fault (StateM σ)) (Option (PhaseContext sh))) : Prop :=
  ∀ phase s t, (round phase).run.run.run s = (.ok (.ok none), t) → (view s).Waits (view t)

/-- The counts agree with the log in every state in which a phase decides. -/
theorem RoundBooks.tallies_milestones (books : RoundBooks c view round) (rounds : ℕ)
    (phase : PhaseContext sh) (s : σ) (tallies : Milestone.Tallies c index kind (phase, view s)) :
    ∀ a ∈ milestones round view rounds phase s, Milestone.Tallies c index kind a := by
  induction rounds generalizing phase s with
  | zero => exact List.forall_mem_nil _
  | succ rounds ih =>
    rw [milestones]
    split
    · rename_i next t ran
      obtain ⟨x, better, booked⟩ := books phase s next t ran
      have tallies' := tallies.booked booked
      exact List.forall_mem_cons.2 ⟨tallies', ih next t tallies'⟩
    · exact List.forall_mem_nil _

/-- The counts still agree when a phase is done with its steps. -/
theorem RoundBooks.tallies_repeatRound (books : RoundBooks c view round)
    (waits : RoundWaits view round) (rounds : ℕ) (phase : PhaseContext sh) (s t : σ)
    (tallies : (view s).Tallies c)
    (ran : (repeatRound round rounds phase).run.run.run s = (.ok (.ok ()), t)) :
    (view t).Tallies c := by
  induction rounds generalizing phase s with
  | zero => cases ran
  | succ rounds ih =>
    obtain ⟨result, u, reached, ran⟩ := exists_of_try_bind ran
    cases result with
    | none =>
      cases ran
      exact tallies.waits (waits phase s _ reached)
    | some next =>
      obtain ⟨x, better, booked⟩ := books phase s next u reached
      exact ih next u (tallies.booked booked) ran

end Rounds

/-! ## The rounds of a phase -/

theorem Search.waits_fire (c : Conditions S sh) {e : Event S sh} (passing : e.Passing) :
    Carries id Scope.Waits (Search.fire c e) := fun s => .told passing s

theorem Idle.waits {view : σ → Scope S sh} {α : Type} {f : ExceptT Fault (StateM σ) α}
    (idle : Idle view f) : Carries view Scope.Waits f := idle.mono fun _ _ => .of_idles

namespace Construction

variable (c : Conditions S sh) (p : Construction S sh)

theorem roundWaits (starting : Score sh) : RoundWaits id (p.round c starting) := by
  intro phase s t ran
  obtain ⟨stop, u, looked, ran⟩ := exists_of_lift_bind ran
  have looks : s.Waits u := .of_idles ((phase.idle_isTerminated c p.termination).ran looked)
  cases stop with
  | true =>
    cases ran
    exact looks
  | false =>
    obtain ⟨_, _, ⟨⟩, ran⟩ := exists_of_try_bind ran
    split at ran
    · cases ran
      exact looks
    · obtain ⟨_, _, _, ran⟩ := exists_of_try_bind ran
      cases ran

theorem begin_waits {index : ℕ} {starting : Score sh} {phase : PhaseContext sh} {s t : Scope S sh}
    (ran : (begin c index).run.run.run s = (.ok (.ok (starting, phase)), t)) :
    (phase.steps = 0 ∧ phase.bestStep = 0) ∧
      ∃ u, s.Waits u ∧ t = u.told c (.phaseStarted index kind) := by
  obtain ⟨_, u, calculated, ran⟩ := exists_of_lift_bind ran
  obtain ⟨_, v, looked, ran⟩ := exists_of_lift_bind ran
  obtain ⟨_, _, fired, ran⟩ := exists_of_lift_bind ran
  cases fired
  cases ran
  have idles : s.Idles v := trans_of Scope.Idles ((Search.idle_calculate c).ran calculated)
    ((Search.idle_now c).ran looked)
  exact ⟨⟨rfl, rfl⟩, v, .of_idles idles, rfl⟩

end Construction

namespace LocalSearch

variable (c : Conditions S sh) (p : LocalSearch M S sh)

theorem waits_beginStep (phase : PhaseContext sh) (starting : Score sh) :
    Carries Running.scope Scope.Waits (p.beginStep c phase starting) := by
  refine .get_bind fun r => ?_
  refine (carries_onScope (phase.idle_share c p.termination Float).waits).bind fun gradient => ?_
  refine (carries_onScope (Search.waits_fire c (Event.passing_stepStarted _))).bind fun _ => ?_
  exact ((p.idle_stepStarted c _).waits).bind fun _ => .pure _

variable {c p} in
theorem Begins.waits {starting : Score sh} {phase : PhaseContext sh} {step : StepContext sh}
    {r r' : p.Running} (begins : p.Begins c starting phase r step r') :
    r.scope.Waits r'.scope := by
  obtain ⟨u, looked, begun⟩ := begins
  have looks : r.scope.Waits u.scope := .of_idles
    ((carries_onScope (phase.idle_isTerminated c p.termination)).ran looked)
  exact trans_of Scope.Waits looks ((p.waits_beginStep c phase starting).ran begun)

theorem roundWaits (starting : Score sh) : RoundWaits Running.scope (p.round c starting) := by
  intro phase r r' ran
  cases rests_of_round ran with
  | stopped looked =>
    exact .of_idles ((carries_onScope (phase.idle_isTerminated c p.termination)).ran looked)
  | aimless begins decided ended initialized =>
    refine trans_of Scope.Waits begins.waits (.of_idles ?_)
    refine trans_of Scope.Idles ((p.tryIdle_decide c _).ran decided) ?_
    exact trans_of Scope.Idles ((p.idle_stepEnded c none).ran ended)
      ((carries_onScope (Search.idle_isInitialized c)).ran initialized)
  | stuck begins decided ended =>
    refine trans_of Scope.Waits begins.waits (.of_idles ?_)
    exact trans_of Scope.Idles ((p.tryIdle_decide c _).ran decided)
      ((p.idle_stepEnded c none).ran ended)

theorem begin_waits {index : ℕ} {starting : Score sh} {phase : PhaseContext sh} {r r' : p.Running}
    (ran : (p.begin c index).run.run r = (.ok (starting, phase), r')) :
    (phase.steps = 0 ∧ phase.bestStep = 0) ∧
      ∃ u, r.scope.Waits u ∧ r'.scope = u.told c (.phaseStarted index kind) := by
  obtain ⟨_, u, v, w, calculated, looked, begun, fired, rfl⟩ := exists_stages_of_begin ran
  cases fired
  have idles : r.scope.Idles w.scope := trans_of Scope.Idles
    ((carries_onScope (Search.idle_calculate c)).ran calculated) (trans_of Scope.Idles
      ((carries_onScope (Search.idle_now c)).ran looked) ((p.idle_phaseStarted c _).ran begun))
  exact ⟨⟨rfl, rfl⟩, w.scope, .of_idles idles, rfl⟩

end LocalSearch

end PlanSearch
