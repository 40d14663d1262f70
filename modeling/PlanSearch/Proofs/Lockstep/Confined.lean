import PlanSearch.Proofs.Lockstep.Yields

/-!
# Searches that stay among some solutions

How large the numbers in a search get depends on the solutions that it comes to. If the moves that it
tries do not lead out of some solutions, then its selectors come to nothing but what calls about
these solutions lead to. Where numbers fit there, no search breaks off with one that is too large.
-/

namespace PlanSearch

open Solver

variable {M S C : Type} {sh : Shape} {inside : S → Prop}

/-! ## Selectors -/

namespace Selector

/-- What a selector and the memory come to while searches go on about the given solutions. -/
inductive Led (sel : Selector M S C) (inside : S → Prop) (first : M) : Pace → sel.State → M → Prop
  | start : Led sel inside first .idle sel.start first
  | loose {st : sel.State} {m : M} (led : Led sel inside first .tight st m) :
    Led sel inside first .loose st m
  | handle {st st' : sel.State} {m m' : M} {g g' : Random.Generator} (hook : Hook)
    (set : Setting S) (within : inside set.solution) (led : Led sel inside first hook.before st m)
    (handled : sel.handle hook set st ⟨g, m⟩ = .ok (st', ⟨g', m'⟩)) :
    Led sel inside first hook.after st' m'
  | restart {st st' : sel.State} {m m' : M} {g g' : Random.Generator} (set : Setting S)
    (within : inside set.solution) (led : Led sel inside first .loose st m)
    (restarted : sel.restart set st ⟨g, m⟩ = .ok (st', ⟨g', m'⟩)) :
    Led sel inside first .tight st' m'
  | next {st st' : sel.State} {m m' : M} {g g' : Random.Generator} {c : Option C}
    (set : Setting S) (within : inside set.solution) (led : Led sel inside first .tight st m)
    (drawn : sel.next set st ⟨g, m⟩ = .ok ((c, st'), ⟨g', m'⟩)) : Led sel inside first .tight st' m'

/-- Calls about the given solutions break off with nothing but the given faults. -/
structure BreaksAmong (faults : Fault → Prop) (sel : Selector M S C) (inside : S → Prop)
    (first : M) : Prop where
  size : ∀ {st m}, sel.Led inside first .loose st m → ∀ s, inside s → Breaks faults (sel.size s st)
  handle : ∀ {hook st m}, sel.Led inside first hook.before st m → ∀ set, inside set.solution →
    ∀ g, Breaks faults (sel.handle hook set st ⟨g, m⟩)
  restart : ∀ {st m}, sel.Led inside first .loose st m → ∀ set, inside set.solution →
    ∀ g, Breaks faults (sel.restart set st ⟨g, m⟩)
  next : ∀ {st m}, sel.Led inside first .tight st m → ∀ set, inside set.solution →
    ∀ g, Breaks faults (sel.next set st ⟨g, m⟩)

/-- No size that is asked for in a search about the given solutions is too large. -/
abbrev FitsAmong (sel : Selector M S C) (inside : S → Prop) (first : M) : Prop :=
  sel.BreaksAmong (· ≠ .overflow) inside first

/-- A candidate comes up in a search about the given solutions. -/
def Offered (sel : Selector M S C) (inside : S → Prop) (first : M) (c : C) : Prop :=
  ∃ st m, sel.Led inside first .tight st m ∧ ∃ set g st' w, inside set.solution ∧
    sel.next set st ⟨g, m⟩ = .ok ((some c, st'), w)

variable {sel : Selector M S C} {first : M} {good good' : C → Prop} {faults faults' : Fault → Prop}

theorem BreaksAmong.and (h : sel.BreaksAmong faults inside first)
    (h' : sel.BreaksAmong faults' inside first) {common : Fault → Prop}
    (both : ∀ e, faults e → faults' e → common e) : sel.BreaksAmong common inside first where
  size led s within e failed :=
    both e (h.size led s within e failed) (h'.size led s within e failed)
  handle led set within g e failed :=
    both e (h.handle led set within g e failed) (h'.handle led set within g e failed)
  restart led set within g e failed :=
    both e (h.restart led set within g e failed) (h'.restart led set within g e failed)
  next led set within g e failed :=
    both e (h.next led set within g e failed) (h'.next led set within g e failed)

/-- From the same state and the same memory a draw ends alike. -/
theorem drawTogether_led {α : Type} {a b : sel.State} {f : sel.State → Draw M α} {p : Pace}
    {Q : α → α → M → M → Prop}
    (breaks : ∀ g m, sel.Led inside first p a m → Breaks faults (f a ⟨g, m⟩))
    (post : ∀ x g g' m m', sel.Led inside first p a m → f a ⟨g, m⟩ = .ok (x, ⟨g', m'⟩) →
      Q x x m' m') :
    DrawTogether (fun m m' => (a, m) = (b, m') ∧ sel.Led inside first p a m) (f a) (f b) Q
      faults := by
  rintro g m _ ⟨same, led⟩
  obtain ⟨rfl, rfl⟩ := Prod.mk.inj same
  cases drawn : f a ⟨g, m⟩ with
  | error e => exact .fault (breaks g m led e drawn)
  | ok ended =>
    obtain ⟨x, g', m'⟩ := ended
    exact .value (post x g g' m m' led drawn)

/-- A selector keeps pace with itself as long as it is used about the given solutions. -/
def BreaksAmong.sync (breaks : sel.BreaksAmong faults inside first)
    (offers : ∀ c, sel.Offered inside first c → good c) :
    sel.Sync (fun s s' => s = s' ∧ inside s) good faults where
  Rel p a b := a = b ∧ sel.Led inside first p a.1 a.2
  loose related := ⟨related.1, .loose related.2⟩
  size := by
    rintro s _ a b m m' ⟨rfl, within⟩ ⟨same, led⟩
    obtain ⟨rfl, -⟩ := Prod.mk.inj same
    exact ⟨rfl, breaks.size led s within⟩
  handle := by
    rintro s _ a b ⟨rfl, within⟩ hook n
    exact drawTogether_led (f := sel.handle hook ⟨s, n⟩)
      (fun g _ led => breaks.handle led _ within g)
      fun _ _ _ _ _ led handled => ⟨rfl, .handle hook _ within led handled⟩
  restart := by
    rintro s _ a b ⟨rfl, within⟩ n
    exact drawTogether_led (f := sel.restart ⟨s, n⟩)
      (fun g _ led => breaks.restart led _ within g)
      fun _ _ _ _ _ led restarted => ⟨rfl, .restart _ within led restarted⟩
  next := by
    rintro s _ a b ⟨rfl, within⟩ n
    refine drawTogether_led (f := sel.next ⟨s, n⟩) (fun g _ led => breaks.next led _ within g)
      fun x g g' m m' led drawn => ⟨rfl, ⟨rfl, .next _ within led drawn⟩, ?_⟩
    rintro c found
    obtain ⟨_, st'⟩ := x
    obtain rfl : _ = some c := found
    exact offers c ⟨_, _, led, _, g, st', _, within, drawn⟩

section Sync

variable {Looks : S → S → Prop} (sync : sel.Sync Looks good faults)
variable (looks : ∀ s, inside s → Looks s s)
variable (begins : sync.Rel .idle (sel.start, first) (sel.start, first))

include looks begins in
/-- What keeps pace with itself stays so wherever searches lead. -/
theorem Sync.rel_of_led {p : Pace} {st : sel.State} {m : M} (led : sel.Led inside first p st m) :
    sync.Rel p (st, m) (st, m) := by
  induction led with
  | start => exact begins
  | loose _ ih => exact sync.loose ih
  | @handle st st' m m' g g' hook set within _ handled ih =>
    have ended := sync.handle (looks _ within) hook set.patience g m m ih
    rw [handled] at ended
    exact ended.related
  | @restart st st' m m' g g' set within _ restarted ih =>
    have ended := sync.restart (looks _ within) set.patience g m m ih
    rw [restarted] at ended
    exact ended.related
  | @next st st' m m' g g' c set within _ drawn ih =>
    have ended := sync.next (looks _ within) set.patience g m m ih
    rw [drawn] at ended
    exact ended.related.2.1

include looks begins in
theorem Sync.breaksAmong : sel.BreaksAmong faults inside first where
  size led s within := (sync.size (looks s within) (sync.rel_of_led looks begins led)).2
  handle {hook _ _} led set within g := (sync.handle (looks _ within) hook set.patience g _ _
    (sync.rel_of_led looks begins led)).breaks
  restart led set within g := (sync.restart (looks _ within) set.patience g _ _
    (sync.rel_of_led looks begins led)).breaks
  next led set within g := (sync.next (looks _ within) set.patience g _ _
    (sync.rel_of_led looks begins led)).breaks

include looks begins in
theorem Sync.good_of_offered {c : C} (offered : sel.Offered inside first c) : good c := by
  obtain ⟨st, m, led, set, g, st', w, within, drawn⟩ := offered
  have ended := sync.next (looks _ within) set.patience g m m
    (sync.rel_of_led looks begins led)
  rw [drawn] at ended
  exact ended.related.2.2 c rfl

end Sync

end Selector

/-! ## Phases -/

/-- The local search that a phase is. -/
def Phase.search? : Phase M S sh → Option (LocalSearch M S sh)
  | .construction _ => none
  | .localSearch p => some p

/-- The local searches of a solver. -/
def Solver.searches (solver : Solver M S sh) : List (LocalSearch M S sh) :=
  solver.phases.filterMap Phase.search?

/-- A move that the phase tries at some time in searches about the given solutions. -/
def Phase.Tries (inside : S → Prop) (m : Move S) : Phase M S sh → Prop
  | .construction p => ∃ s, inside s ∧ ∃ placement ∈ p.placer.next s, m ∈ placement.moves
  | .localSearch p => p.moves.Offered inside p.memory m

/-- What the phase keeps between runs, if it was run in searches about the given solutions. -/
def Phase.Led (inside : S → Prop) : (p : Phase M S sh) → p.State → Prop
  | .construction _, _ => True
  | .localSearch p, st => p.moves.Led inside p.memory .idle st.moves st.memory

/-- The acceptor will begin a phase, and the forager a step, in the way they always do. -/
def Phase.Renewable : (p : Phase M S sh) → p.State → Prop
  | .construction _, _ => True
  | .localSearch p, st => p.Renewable st.acceptor st.forager

/-- Something holds of what each of several phases keeps. -/
def Solver.EachKeeps (P : (p : Phase M S sh) → p.State → Prop) :
    (phases : List (Phase M S sh)) → PhaseStates phases → Prop
  | [], _ => True
  | p :: rest, (st, sts) => P p st ∧ EachKeeps P rest sts

/-- The phase tries only good moves, and its selector and its acceptor break off with nothing but the
given faults, in searches about the given solutions. -/
def Phase.Calm (inside : S → Prop) (good : Move S → Prop) (faults : Fault → Prop)
    (anneals : Prop) (p : Phase M S sh) : Prop :=
  (∀ m, p.Tries inside m → good m) ∧ ∀ q ∈ p.search?,
    q.moves.BreaksAmong faults inside q.memory ∧ q.Calm faults anneals

variable {good : Move S → Prop} {faults : Fault → Prop} {anneals : Prop}
variable {phases : List (Phase M S sh)}

/-- Phases that are calm guide a search with what they keep, if it is what searches lead to. -/
theorem exists_guides_led (calm : ∀ p ∈ phases, p.Calm inside good faults anneals) :
    ∃ guides : Guides (fun s s' => s = s' ∧ inside s) good faults anneals phases,
      (∀ a, EachKeeps (Phase.Led inside) phases a → EachKeeps Phase.Renewable phases a →
        guides.Resting a a) ∧
      ∀ a b, guides.Resting a b → EachKeeps (Phase.Led inside) phases a := by
  induction phases with
  | nil => exact ⟨.nil, fun _ _ _ => trivial, fun _ _ _ => trivial⟩
  | cons p rest ih =>
    obtain ⟨⟨tries, quiet⟩, others⟩ := List.forall_mem_cons.1 calm
    obtain ⟨guides, into, out⟩ := ih others
    cases p with
    | construction p =>
      have places : p.placer.Places (fun s s' => s = s' ∧ inside s) good := by
        rintro s _ ⟨rfl, within⟩
        exact ⟨rfl, fun placement found m listed =>
          tries m ⟨s, within, placement, found, listed⟩⟩
      exact ⟨.cons (.construction places) guides, fun a led renewable =>
        ⟨trivial, into _ led.2 renewable.2⟩, fun a b resting => ⟨trivial, out _ _ resting.2⟩⟩
    | localSearch p =>
      obtain ⟨breaks, own⟩ := quiet p rfl
      exact ⟨.cons (.localSearch (breaks.sync tries) own) guides, fun a led renewable =>
        ⟨⟨⟨rfl, led.1⟩, renewable.1, renewable.1⟩, into _ led.2 renewable.2⟩,
        fun a b resting => ⟨resting.1.selector.2, out _ _ resting.2⟩⟩

theorem Guides.Resting.renewable {Same : S → S → Prop} {guides : Guides Same good faults anneals phases}
    {a b : PhaseStates phases} (resting : guides.Resting a b) :
    EachKeeps Phase.Renewable phases a := by
  induction guides with
  | nil => trivial
  | cons guide others ih =>
    refine ⟨?_, ih resting.2⟩
    cases guide with
    | construction places => trivial
    | localSearch sync calm => exact resting.1.left

/-- Whatever a solver was used for, its acceptors and foragers can be used again. -/
theorem Solver.Reached.renewable {solver : Solver M S sh} {allowed : Except PlanError S → Prop}
    {st : solver.State} (reached : solver.Reached allowed st) :
    EachKeeps Phase.Renewable solver.phases st.phases := by
  have yields : ∀ p ∈ solver.phases, p.Yields fun _ => True := by
    intro p _
    cases p with
    | construction p => exact fun _ _ _ _ _ => trivial
    | localSearch p => exact fun _ _ _ _ _ _ _ _ _ => trivial
  obtain ⟨guides, begins, closed⟩ := exists_guides_yields yields
  exact (reached.resting begins closed).renewable

/-! ## Solvers -/

/-- The solver was used for nothing but searches about the given solutions. -/
def Solver.State.Led (inside : S → Prop) {solver : Solver M S sh} (st : solver.State) : Prop :=
  EachKeeps (Phase.Led inside) solver.phases st.phases

/-- A move that the solver tries at some time in searches about the given solutions. -/
def Solver.Tries (solver : Solver M S sh) (inside : S → Prop) (m : Move S) : Prop :=
  ∃ p ∈ solver.phases, p.Tries inside m

/-- The moves of the solver do not lead out of the given solutions, and there nothing is too large:
no score, no difference of scores that is asked for, no size of a selector, and no history of late
acceptance. -/
structure Solver.FitsAmong (solver : Solver M S sh) (p : Problem S sh) (inside : S → Prop) :
    Prop where
  confined : p.Confined (solver.Tries inside) (fun _ => False)
    (∃ q ∈ solver.searches, q.acceptor.needsGradient = true) inside
  sizes : ∀ q ∈ solver.searches, q.moves.FitsAmong inside q.memory
  memory : ∀ q ∈ solver.searches, q.acceptor.FitsMemory

/-- A new solver was not used. -/
theorem Solver.led_start (solver : Solver M S sh) : solver.start.Led inside := by
  have each (phases : List (Phase M S sh)) : EachKeeps (Phase.Led inside) phases (startAll phases) := by
    induction phases with
    | nil => trivial
    | cons p rest ih =>
      refine ⟨?_, ih⟩
      cases p with
      | construction p => trivial
      | localSearch p => exact .start
  exact each solver.phases

namespace Assembly

variable {r : Registry S} {settings : Config.SolverSettings} {solver : Solver Memory S sh}

/-- A phase that makes the same of the same solutions tries only good moves, and its selector breaks
off with nothing but the given faults. -/
theorem quiet_of_gaited {good : Move S → Prop} {faults : Fault → Prop} {p : Phase Memory S sh}
    (gaited : p.Gaited (· = ·) good faults False) :
    (∀ m, p.Tries inside m → good m) ∧
      ∀ q ∈ p.search?, q.moves.BreaksAmong faults inside q.memory := by
  cases p with
  | construction p =>
    refine ⟨fun m tried => ?_, nofun⟩
    obtain ⟨s, -, placement, found, listed⟩ := tried
    exact (gaited s s rfl).2 placement found m listed
  | localSearch p =>
    obtain ⟨empty, range, own, ⟨gait⟩⟩ := gaited
    have begins : gait.constant.Rel .idle (p.moves.start, p.memory) (p.moves.start, p.memory) := by
      refine ⟨gait.start (.inl rfl), ?_⟩
      rw [empty]
      exact Memory.recall_start.mono (Set.empty_subset _)
    have looks (s : S) (_ : inside s) : s = s := rfl
    refine ⟨fun m => gait.constant.good_of_offered looks begins, ?_⟩
    rintro _ ⟨⟩
    exact gait.constant.breaksAmong looks begins

/-- A built solver tries only moves of the registry. -/
theorem offers_of_tries (built : Assembly.solver r settings = .ok solver) {m : Move S}
    (tried : solver.Tries inside m) : r.Offers m := by
  obtain ⟨p, member, tried⟩ := tried
  have gaited := gaited_solver False r.even_eq trivial trivial False.elim built p member
  exact (quiet_of_gaited gaited).1 m tried

/-- Where what is registered always returns and nothing is too large, the phases of a built solver
break off with nothing but a lack of patience. -/
theorem calm_solver (built : Assembly.solver r settings = .ok solver)
    (returns : r.Even (· = ·) fun _ => False) {p : Problem S sh} (fits : solver.FitsAmong p inside) :
    ∀ q ∈ solver.phases, q.Calm inside (fun m => r.Offers m ∧ solver.Tries inside m)
      (· = .exhausted) (∃ q ∈ solver.searches, q.acceptor.needsGradient = true) := by
  have even : r.Even (· = ·) fun e => e = .exhausted ∨ e = .overflow :=
    returns.more fun _ => False.elim
  intro q member
  obtain ⟨offers, breaks⟩ := quiet_of_gaited
    (gaited_solver False even (.inl rfl) (.inr rfl) False.elim built q member)
  refine ⟨fun m tried => ⟨offers m tried, q, member, tried⟩, fun search found => ?_⟩
  have member : search ∈ solver.searches := List.mem_filterMap.2 ⟨q, member, found⟩
  exact ⟨(breaks search found).and (fits.sizes search member) fun e either small =>
      either.resolve_right small,
    fun starting => (fits.memory search member).breaks_phaseStarted starting,
    fun anneals => ⟨search, member, anneals⟩⟩

/-- Where nothing is too large, a built solver answers or comes to a stall, unless its patience ends
or it was cancelled before it began. -/
theorem returns_of_fits (built : Assembly.solver r settings = .ok solver)
    (returns : r.Even (· = ·) fun _ => False) (around : Surroundings S sh)
    (problemLawful : around.problem.Lawful) (lawful : r.written.Lawful)
    (blind : r.written.Blind around.problem) (fits : solver.FitsAmong around.problem inside)
    {st : solver.State} (history : solver.Reached (fun _ => True) st) (led : st.Led inside)
    (entropy : Nat) {solution : S} (valid : r.written.Valid solution) (within : inside solution) :
    (∃ o st', solver.solve around entropy solution st = .ok (o, st') ∧ st'.Led inside ∧
      ∀ e, o.result = .error e → e.kind = "Stall" ∨ e = .cancelled ∧ st.interrupted) ∨
    ∃ collapse, solver.solve around entropy solution st = .error collapse ∧
      collapse.fault = .exhausted := by
  let good (m : Move S) : Prop := r.Offers m ∧ solver.Tries inside m
  have confined : around.problem.Confined good (· = .exhausted)
      (∃ q ∈ solver.searches, q.acceptor.needsGradient = true) inside :=
    fits.confined.mono (fun _ => And.right) fun _ => False.elim
  let G : Grounds (solver.conditions around) solver.mode good :=
    r.grounds (fun _ => And.left) problemLawful lawful blind True (fun _ => rfl) (fun _ _ => True)
      (fun _ => trivial) (fun _ _ _ _ _ => trivial) (fun _ _ _ _ _ _ => trivial) confined rfl
  obtain ⟨guides, into, out⟩ := exists_guides_led (calm_solver built returns fits)
  obtain ⟨x, known⟩ := Grounds.exists_score around.problem solution
  obtain ⟨k, -, answers⟩ := G.course_alone trivial guides (fun _ within => ⟨rfl, within⟩)
    (into _ led history.renewable) valid within known entropy
  cases ran : solver.solve around entropy solution st with
  | error collapse => exact .inr ⟨collapse, rfl, answers.fault ran⟩
  | ok ended =>
    obtain ⟨o, st'⟩ := ended
    obtain ⟨o', st'', -, resting⟩ := answers.resting ran fun e a b _ stalled left =>
      left.resting (stalled.resolve_left id)
    exact .inl ⟨o, st', rfl, out _ _ (Guides.resting_weaken.1 resting), fun e failed =>
      (answers.error ran failed).imp_left fun h => h.resolve_left id⟩

end Assembly

end PlanSearch
