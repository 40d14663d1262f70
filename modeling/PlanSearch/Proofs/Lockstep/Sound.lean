import PlanSearch.Proofs.Lockstep.Solver
import PlanSearch.Proofs.Score.Order
import PlanSearch.Proofs.Search.Operations

/-!
# Searches on solid ground

If variables are lawful and calculations do not see the stored score, then both searches know what
they work on: the director holds the working solution, the score that the search goes by is that of
this solution, and the best solution is the best of those that were offered. Trying a move changes
none of this, however much is checked.
-/

namespace PlanSearch

variable {S : Type} {sh : Shape}

/-- The solution and the score that an event announces as the best ones. -/
def Event.best? : Event S sh → Option (S × Score sh)
  | .bestChanged solution score => some (solution, score)
  | _ => none

/-- The best solutions that were announced, in their order. -/
def Event.bests (events : List (Event S sh)) : List (S × Score sh) := events.filterMap Event.best?

/-- The rank of a best solution. -/
def Problem.rankOf (p : Problem S sh) (best : S × Score sh) : Bool ×ₗ Score sh :=
  p.rank best.1 best.2

/-- The best solution carries its score, which is the one that it deserves. -/
structure Best.Sound (p : Problem S sh) (best : Best S sh) : Prop where
  stored : p.score best.solution = some best.score
  deserved : p.calculate best.solution = .ok best.score
  isInitialized : best.isInitialized = p.isInitialized best.solution

/-- The rank of the best solution. -/
def Best.rank (p : Problem S sh) (best : Best S sh) : Bool ×ₗ Score sh :=
  p.rank best.solution best.score

/-- Where a search stands: its working solution without the stored score, and the best solution. -/
structure Mark (S : Type) (sh : Shape) where
  working : S
  best : Best S sh

/-- Good moves do not lead out of the solutions inside. There scores are calculated without other
faults than the given ones, and subtracted from each other where they may be asked for. -/
structure Problem.Confined (p : Problem S sh) (good : Move S → Prop) (faults : Fault → Prop)
    (anneals : Prop) (inside : S → Prop) : Prop where
  withScore : ∀ s x, inside s → inside (p.withScore s x)
  apply : ∀ m s undo, good m → inside s → m.isDoable s = true → (m.apply s).result = .ok undo →
    inside (m.apply s).solution
  calculate : ∀ s, inside s → Breaks faults (p.calculate s)
  differs : anneals → ∀ m s x y, good m → inside s → m.isDoable s = true → p.calculate s = .ok x →
    p.calculate (m.apply s).solution = .ok y → y < x → Breaks faults (x.sub y)

theorem Problem.Confined.mono {p : Problem S sh} {good good' : Move S → Prop}
    {faults faults' : Fault → Prop} {anneals : Prop} {inside : S → Prop}
    (confined : p.Confined good faults anneals inside) (fewer : ∀ m, good' m → good m)
    (allowed : ∀ e, faults e → faults' e) : p.Confined good' faults' anneals inside where
  withScore := confined.withScore
  apply m s undo isGood := confined.apply m s undo (fewer m isGood)
  calculate s within e failed := allowed e (confined.calculate s within e failed)
  differs annealing m s x y isGood within doable before after worse e failed :=
    allowed e (confined.differs annealing m s x y (fewer m isGood) within doable before after worse
      e failed)

/-- Nothing has to be known of solutions where all faults are allowed. -/
theorem Problem.confined_anywhere (p : Problem S sh) (good : Move S → Prop) (anneals : Prop) :
    p.Confined good (fun _ => True) anneals fun _ => True where
  withScore _ _ _ := trivial
  apply _ _ _ _ _ _ _ := trivial
  calculate _ _ _ _ := trivial
  differs _ _ _ _ _ _ _ _ _ _ _ _ _ := trivial

/-- What two searches rely on. -/
structure Grounds (c : Conditions S sh) (mode : Config.EnvironmentMode) (good : Move S → Prop) where
  vars : Variables S
  /-- The two searches are one and the same. -/
  strict : Prop
  /-- What a working solution keeps of an earlier one. -/
  keeps : S → S → Prop
  errors : PlanError → Prop
  faults : Fault → Prop
  /-- Differences of scores may be asked for. -/
  anneals : Prop
  /-- The solutions that are worked on are among these. -/
  inside : S → Prop
  problemLawful : c.problem.Lawful
  varsLawful : vars.Lawful
  blind : vars.Blind c.problem
  mode_eq : strict → mode = c.mode
  isOver : ∀ m, good m → m.Over vars
  keepsRuns : ∀ m, good m → m.KeepsRuns
  refused : ∀ m w e, good m → vars.Valid w → m.isDoable w = true → (m.apply w).result = .error e →
    errors (.chain e)
  not_stalled : ∀ e, errors e → e.kind ≠ "Stall"
  keeps_refl : ∀ w, keeps w w
  keeps_trans : ∀ u v w, keeps u v → keeps v w → keeps u w
  keeps_apply : ∀ m w undo, good m → vars.Valid w → (m.apply w).result = .ok undo →
    keeps w (m.apply w).solution
  confined : c.problem.Confined good faults anneals inside
  exhausted : faults .exhausted

namespace Grounds

variable {c : Conditions S sh} {mode : Config.EnvironmentMode} {good : Move S → Prop}
variable (G : Grounds c mode good) {s t : Scope S sh} {v w : S} {x : Score sh}

/-- Both searches work on a solution. -/
structure Stands (w : S) (s t : Scope S sh) : Prop where
  twin : s.Twin t
  left : s.director.Holds c.problem w
  right : t.director.Holds c.problem w
  strict : G.strict → s = t

/-- What a search knows about its working solution and the best one. -/
structure Knows (i : Mark S sh) (x : Score sh) (s : Scope S sh) : Prop where
  valid : G.vars.Valid i.working
  inside : G.inside i.working
  score : c.problem.calculate i.working = .ok x
  best : s.best = some i.best
  sound : i.best.Sound c.problem
  rising : ((Event.bests s.events.toList).map c.problem.rankOf).IsChain (· < ·)
  latest : ∀ last ∈ (Event.bests s.events.toList).getLast?, last = (i.best.solution, i.best.score)

/-- The working solution is no better than the best one. -/
def Beaten (c : Conditions S sh) (i : Mark S sh) (x : Score sh) : Prop :=
  c.problem.rank i.working x ≤ i.best.rank c.problem

variable {G}

/-- Operations that have the same result in both searches end alike. -/
theorem Stands.together {α : Type} {result : Except Fault α}
    {ended ended' : Except Fault α × Scope S sh} (stands : G.Stands v s t)
    (left : Search.Turns c.problem s result w ended)
    (right : Search.Turns c.problem t result w ended') (strict : G.strict → ended = ended') :
    EndAlike (fun a s' t' => result = .ok a ∧ s.Twin s' ∧ G.Stands w s' t')
      (fun e s' t' => result = .error e ∧ s'.events = t'.events) ended ended' := by
  obtain ⟨s', rfl, twin, holds⟩ := left
  obtain ⟨t', rfl, twin', holds'⟩ := right
  have twins : s'.Twin t' := (twin.symm.trans stands.twin).trans twin'
  cases result with
  | error e => exact .fault ⟨rfl, twins.events.symm⟩
  | ok a =>
    exact .value ⟨rfl, twin, twins, holds a rfl, holds' a rfl, fun h => (Prod.mk.inj (strict h)).2⟩

theorem Stands.solution_eq (stands : G.Stands w s t) (x : Option (Score sh)) :
    c.problem.withScore s.director.solution x = c.problem.withScore t.director.solution x := by
  rw [stands.left.solution_eq G.problemLawful, stands.right.solution_eq G.problemLawful,
    G.problemLawful.withScore_withScore, G.problemLawful.withScore_withScore]

/-- A change of the scopes that has nothing to do with the directors. -/
theorem Stands.update (stands : G.Stands w s t) (u : Scope S sh → Scope S sh)
    (free : ∀ s d, u { s with director := d } = { u s with director := d }) :
    G.Stands w (u s) (u t) := by
  have keeps (s : Scope S sh) : (u s).director = s.director := by
    have same := congrArg Scope.director (free s s.director)
    exact same
  refine ⟨?_, keeps s ▸ stands.left, keeps t ▸ stands.right, fun h => congrArg u (stands.strict h)⟩
  have twin : t = { s with director := t.director } := stands.twin
  rw [Scope.Twin, keeps t, ← free, ← twin]

theorem Knows.of_eq {i : Mark S sh} (knows : G.Knows i x s) (best : t.best = s.best)
    (events : Event.bests t.events.toList = Event.bests s.events.toList) : G.Knows i x t where
  valid := knows.valid
  inside := knows.inside
  score := knows.score
  best := best.trans knows.best
  sound := knows.sound
  rising := by rw [events]; exact knows.rising
  latest := by rw [events]; exact knows.latest

theorem bests_push (events : Array (Event S sh)) (e : Event S sh) :
    Event.bests (events.push e).toList = Event.bests events.toList ++ e.best?.toList := by
  rw [Event.bests, Event.bests, Array.toList_push, List.filterMap_append]
  cases best : e.best? <;> simp [best]

theorem best?_eq_none {e : Event S sh} (other : e.kind ≠ .bestChanged) : e.best? = none := by
  cases e with
  | bestChanged solution score => exact absurd rfl other
  | _ => rfl

theorem same_of_strict (strict : G.strict) (stands : G.Stands w s t) {α : Type}
    (f : Conditions S sh → Scope S sh → α) : f c s = f (c.under mode) t := by
  rw [stands.strict strict, G.mode_eq strict]
  rfl

/-! ## Offers -/

theorem beats_iff {best : Best S sh} (sound : best.Sound c.problem) :
    Search.beats x (c.problem.isInitialized w) (some best) = true ↔
      best.rank c.problem < c.problem.rank w x := by
  rw [Search.beats, sound.isInitialized, Best.rank, Problem.rank, Problem.rank, Prod.Lex.toLex_lt_toLex]
  cases c.problem.isInitialized w <;> cases c.problem.isInitialized best.solution <;> simp

theorem Stands.bestOf_eq (stands : G.Stands w s t) (x : Score sh) :
    Search.bestOf c x t = Search.bestOf c x s := by
  rw [Search.bestOf, Search.bestOf, stands.solution_eq,
    stands.left.isInitialized_solution G.problemLawful,
    stands.right.isInitialized_solution G.problemLawful]

/-- The working solution with its score is sound as the best one, and ranks as it does itself. -/
theorem sound_bestOf (lawful : c.problem.Lawful) (holds : s.director.Holds c.problem w)
    (deserved : c.problem.calculate w = .ok x) :
    (Search.bestOf c x s).Sound c.problem ∧
      (Search.bestOf c x s).rank c.problem = c.problem.rank w x := by
  have initialized := holds.isInitialized_solution lawful
  refine ⟨⟨lawful.score_withScore .., ?_, (lawful.isInitialized_withScore ..).symm⟩, ?_⟩
  · have same : c.problem.calculate (Search.bestOf c x s).solution = c.problem.calculate w := by
      rw [← holds.bare, lawful.calculate_bare]
      exact lawful.calculate_withScore ..
    exact same.trans deserved
  · rw [Best.rank, Problem.rank, Problem.rank, ← initialized]
    exact congrArg (fun b => toLex (b, x)) (lawful.isInitialized_withScore ..)

theorem Knows.crowned {i : Mark S sh} (knows : G.Knows i x s)
    (holds : s.director.Holds c.problem i.working)
    (better : i.best.rank c.problem < c.problem.rank i.working x) :
    G.Knows { i with best := Search.bestOf c x s } x
      (Search.crowned c (Search.bestOf c x s) s) := by
  obtain ⟨sound, ranks⟩ := sound_bestOf G.problemLawful holds knows.score
  have pushed : Event.bests (Search.crowned c (Search.bestOf c x s) s).events.toList =
      Event.bests s.events.toList ++ [((Search.bestOf c x s).solution, x)] := bests_push _ _
  refine ⟨knows.valid, knows.inside, knows.score, rfl, sound, ?_, ?_⟩
  · rw [pushed, List.map_append, List.isChain_append]
    refine ⟨knows.rising, List.isChain_singleton _, ?_⟩
    intro before old after new
    rw [List.getLast?_map] at old
    obtain ⟨last, member, rfl⟩ := Option.map_eq_some_iff.1 old
    obtain rfl := knows.latest last member
    obtain rfl := Option.mem_some.1 new
    exact better.trans_eq ranks.symm
  · intro last member
    rw [pushed, List.getLast?_append] at member
    exact (Option.mem_some.1 member).symm

variable (G)

/-- At the beginning of a step. -/
def At (i : Mark S sh) (x : Score sh) (s t : Scope S sh) : Prop :=
  G.Stands i.working s t ∧ G.Knows i x s ∧ Beaten c i x

/-- After a move that has not been offered. -/
def Made (i : Mark S sh) (x : Score sh) (s t : Scope S sh) : Prop :=
  G.Stands i.working s t ∧ G.Knows i x s

/-- Solutions that look the same: but for the stored score, where the searches differ. -/
structure Same (a b : S) : Prop where
  bare : c.problem.bare a = c.problem.bare b
  strict : G.strict → a = b
  left : G.inside a
  right : G.inside b

/-- The best solution does not get worse, and the working solution keeps what it has to keep. -/
def Goes (i j : Mark S sh) : Prop :=
  i.best.rank c.problem ≤ j.best.rank c.problem ∧ G.keeps i.working j.working

/-- In a situation a move can be made and leads to a solution with the given score. -/
def Leads (c : Conditions S sh) (i : Mark S sh) (m : Move S) (y : Score sh) : Prop :=
  m.isDoable i.working = true ∧ ∃ undo, (m.apply i.working).result = .ok undo ∧
    c.problem.calculate (m.apply i.working).solution = .ok y

variable {G} {i : Mark S sh}

/-- What a director holds is among the solutions that its bare form is among. -/
theorem inside_solution (holds : s.director.Holds c.problem w) (inside : G.inside w) :
    G.inside s.director.solution := by
  rw [holds.solution_eq G.problemLawful]
  exact G.confined.withScore _ _ inside

theorem Stands.same (stands : G.Stands w s t) (inside : G.inside w) :
    G.Same s.director.solution t.director.solution where
  bare := stands.left.bare.trans stands.right.bare.symm
  strict h := by rw [stands.strict h]
  left := inside_solution stands.left inside
  right := inside_solution stands.right inside

theorem At.update {u : Scope S sh → Scope S sh} (here : G.At i x s t)
    (free : ∀ s d, u { s with director := d } = { u s with director := d })
    (best : (u s).best = s.best)
    (events : Event.bests (u s).events.toList = Event.bests s.events.toList) :
    G.At i x (u s) (u t) := ⟨here.1.update u free, here.2.1.of_eq best events, here.2.2⟩

theorem isDoable_bare {m : Move S} (own : m.Over G.vars) (holds : s.director.Holds c.problem w) :
    m.isDoable s.director.solution = m.isDoable w := by
  rw [← holds.bare, Problem.bare, Move.isDoable_withScore G.blind none own]

theorem together_calculate :
    RunTogether (G.At i x) (Search.calculate c) (Search.calculate c) (fun y => G.At i y)
      (Scope.Broken G.faults) := by
  rintro s t ⟨stands, knows, beaten⟩
  have ended := stands.together (Search.turns_calculate G.problemLawful stands.left)
    (Search.turns_calculate G.problemLawful stands.right) fun h => by rw [stands.strict h]
  refine ended.mono ?_ ?_
  · rintro y s' t' ⟨found, twin, stands⟩
    obtain rfl := Except.ok.inj (knows.score.symm.trans found)
    exact ⟨stands, knows.of_eq twin.best (by rw [twin.events]), beaten⟩
  · rintro e s' t' ⟨failed, events⟩
    exact ⟨events, G.confined.calculate _ knows.inside e failed⟩

theorem together_evaluate {m : Move S} (isGood : good m) :
    TryTogether (fun s t => G.At i x s t ∧ m.isDoable s.director.solution = true)
      (Search.evaluate c m x) (Search.evaluate (c.under mode) m x)
      (fun y s t => Leads c i m y ∧ G.At i x s t) (Scope.Failed G.errors)
      (Scope.Broken G.faults) := by
  rintro s t ⟨⟨stands, knows, beaten⟩, doable⟩
  have own := G.isOver m isGood
  rw [isDoable_bare own stands.left] at doable
  have left := Search.turns_evaluate G.problemLawful stands.left G.blind G.varsLawful own
    (G.keepsRuns m isGood) knows.valid knows.score
  have right := Search.turns_evaluate (c := c.under mode) G.problemLawful stands.right G.blind
    G.varsLawful own (G.keepsRuns m isGood) knows.valid knows.score
  have ended := stands.together left right fun h =>
    same_of_strict h stands fun c s => (Search.evaluate c m x).run.run.run s
  refine ended.mono ?_ ?_
  · rintro result s' t' ⟨found, twin, stands⟩
    cases applied : (m.apply i.working).result with
    | error e =>
      rw [applied] at found
      obtain rfl := Except.ok.inj found
      exact ⟨stands.twin, G.refused m _ e isGood knows.valid doable applied⟩
    | ok undo =>
      rw [applied] at found
      cases scored : c.problem.calculate (m.apply i.working).solution with
      | error e =>
        rw [scored] at found
        cases found
      | ok y =>
        rw [scored] at found
        obtain rfl := Except.ok.inj found
        exact ⟨⟨doable, undo, applied, scored⟩, stands, knows.of_eq twin.best (by rw [twin.events]), beaten⟩
  · rintro e s' t' ⟨failed, events⟩
    refine ⟨events, ?_⟩
    cases applied : (m.apply i.working).result with
    | error e =>
      rw [applied] at failed
      cases failed
    | ok undo =>
      rw [applied] at failed
      cases scored : c.problem.calculate (m.apply i.working).solution with
      | error e' =>
        rw [scored] at failed
        obtain rfl := Except.error.inj failed
        have inside := G.confined.apply m _ undo isGood knows.inside doable applied
        exact G.confined.calculate _ inside _ scored
      | ok y =>
        rw [scored] at failed
        cases failed

theorem together_apply {m : Move S} {y : Score sh} (isGood : good m) (leads : Leads c i m y) :
    TryTogether (G.At i x) (Search.apply m) (Search.apply m)
      (fun _ s t => ∃ j, G.Goes i j ∧ G.Made j y s t) (Scope.Failed G.errors)
      (Scope.Broken G.faults) := by
  rintro s t ⟨stands, knows, beaten⟩
  obtain ⟨doable, undo, applied, scored⟩ := leads
  have own := G.isOver m isGood
  have valid := (Move.reverts G.varsLawful own (G.keepsRuns m isGood) knows.valid applied).valid
  have ended := stands.together (Search.turns_apply G.problemLawful stands.left G.blind own)
    (Search.turns_apply G.problemLawful stands.right G.blind own) fun h => by rw [stands.strict h]
  rw [applied] at ended
  refine ended.mono ?_ ?_
  · rintro result s' t' ⟨found, twin, stands⟩
    obtain rfl := Except.ok.inj found
    refine ⟨⟨(m.apply i.working).solution, i.best⟩, ?_, stands, ?_⟩
    · exact ⟨le_rfl, G.keeps_apply m _ undo isGood knows.valid applied⟩
    exact ⟨valid, G.confined.apply m _ undo isGood knows.inside doable applied, scored,
      twin.best.trans knows.best, knows.sound,
      by rw [twin.events]; exact knows.rising, by rw [twin.events]; exact knows.latest⟩
  · rintro e s' t' ⟨failed, -⟩
    cases failed

theorem together_assertScore :
    TryTogether (G.Made i x) (Search.assertScore c x) (Search.assertScore (c.under mode) x)
      (fun _ => G.Made i x) (Scope.Failed G.errors) (Scope.Broken G.faults) := by
  rintro s t ⟨stands, knows⟩
  have ended := stands.together
    (Search.turns_assertScore G.problemLawful stands.left knows.score)
    (Search.turns_assertScore (c := c.under mode) G.problemLawful stands.right knows.score)
    fun h => same_of_strict h stands fun c s => (Search.assertScore c x).run.run.run s
  refine ended.mono ?_ ?_
  · rintro result s' t' ⟨found, twin, stands⟩
    obtain rfl := Except.ok.inj found
    exact ⟨stands, knows.of_eq twin.best (by rw [twin.events])⟩
  · rintro e s' t' ⟨failed, -⟩
    cases failed

/-- The better of the working solution and the best one is the best one from then on. -/
theorem together_offer :
    RunTogether (G.Made i x) (Search.offer c x) (Search.offer c x)
      (fun _ s t => ∃ j, G.Goes i j ∧ G.At j x s t) (Scope.Broken G.faults) := by
  rintro s t ⟨stands, knows⟩
  have initialized : (Search.bestOf c x s).isInitialized = c.problem.isInitialized i.working :=
    stands.left.isInitialized_solution G.problemLawful
  rw [Search.run_offer, Search.run_offer, stands.bestOf_eq, stands.twin.best, knows.best]
  dsimp only
  rw [initialized]
  split
  · rename_i beats
    have better := (beats_iff knows.sound).1 beats
    have ranks := (sound_bestOf G.problemLawful stands.left knows.score).2
    refine .value ⟨⟨i.working, Search.bestOf c x s⟩, ⟨?_, G.keeps_refl _⟩, ?_⟩
    · exact (better.trans_eq ranks.symm).le
    · exact ⟨stands.update (Search.crowned c (Search.bestOf c x s)) fun _ _ => rfl,
        knows.crowned stands.left better, ranks.symm.le⟩
  · rename_i beats
    have worse := not_lt.1 fun better => beats ((beats_iff knows.sound).2 better)
    refine .value ⟨i, ⟨le_rfl, G.keeps_refl _⟩, ?_, ?_, worse⟩
    · exact stands.update (Search.noted (Search.bestOf c x s)) fun _ _ => rfl
    · exact knows.of_eq rfl rfl

/-- Where a search stands that begins with a solution of the given score. -/
def opening (p : Problem S sh) (solution : S) (x : Score sh) : Mark S sh :=
  { working := p.bare solution
    best := { solution := p.withScore solution (some x), score := x
              isInitialized := p.isInitialized solution } }

/-- Two searches on solid ground. -/
def lockstep (G : Grounds c mode good) : Lockstep c mode good (Mark S sh) where
  At := G.At
  Made := G.Made
  Leads := Leads c
  Goes := G.Goes
  Same := G.Same
  errors := G.errors
  faults := G.faults
  anneals := G.anneals
  goes_refl i := ⟨le_rfl, G.keeps_refl i.working⟩
  goes_trans first second := ⟨first.1.trans second.1, G.keeps_trans _ _ _ first.2 second.2⟩
  twin here := here.1.twin
  same here := here.1.same here.2.1.inside
  generator here generator := here.update (u := fun s => { s with generator }) (fun _ _ => rfl) rfl rfl
  readings here readings := here.update (u := fun s => { s with readings }) (fun _ _ => rfl) rfl rfl
  steps here steps := here.update (u := fun s => { s with steps }) (fun _ _ => rfl) rfl rfl
  events here e other interrupted := here.update
    (u := fun s => { s with events := s.events.push e, interrupted }) (fun _ _ => rfl) rfl
    (by rw [bests_push, best?_eq_none other]; exact List.append_nil _)
  isInitialized same := by
    rw [← G.problemLawful.isInitialized_bare, same.bare, G.problemLawful.isInitialized_bare]
  isDoable same isGood := by
    have own := G.isOver _ isGood
    have bare (s : S) := Move.isDoable_withScore G.blind none own s
    exact (bare _).symm.trans ((congrArg (fun s => Move.isDoable s _) same.bare).trans (bare _))
  not_stalled := G.not_stalled _
  exhausted := G.exhausted
  differs anneals _ _ _ _ _ _ here isGood leads worse := by
    obtain ⟨doable, undo, -, scored⟩ := leads
    exact G.confined.differs anneals _ _ _ _ isGood here.2.1.inside doable here.2.1.score scored
      worse
  calculate _ _ := together_calculate
  evaluate _ _ _ isGood := together_evaluate isGood
  apply _ _ _ _ isGood leads := together_apply isGood leads
  assertScore _ _ := together_assertScore
  countStep _ _ := .modify fun _ _ made =>
    ⟨made.1.update (fun s => { s with steps := s.steps + 1 }) fun _ _ => rfl,
      made.2.of_eq rfl rfl⟩
  offer _ _ := together_offer

theorem run_start (c : Conditions S sh) (s : Scope S sh) :
    (Search.start c).run.run s = match s.director.calculate c.problem with
      | .error e => (.error e, { s with readings := s.readings + 1 })
      | .ok (score, director) =>
        let best := Search.bestOf c score { s with director }
        let e := Event.solvingStarted director.solution
        (.ok (), { s with
          director, readings := s.readings + 1, startedAt := some (c.clock s.readings), steps := 0
          bestStep := 0, best := some best
          starting := if best.isInitialized then some score else none
          events := s.events.push e, interrupted := s.interrupted || c.interrupts e }) := by
  have looked : (Search.now c).run.run s =
      (.ok (c.clock s.readings), { s with readings := s.readings + 1 }) := rfl
  rw [Search.start, run_bind, looked]
  dsimp only
  rw [run_bind, Search.run_calculate]
  cases s.director.calculate c.problem <;> rfl

/-- A solution has at most one score. -/
theorem exists_score (p : Problem S sh) (solution : S) :
    ∃ x, ∀ y, p.calculate solution = .ok y → y = x := by
  cases p.calculate solution with
  | error e => exact ⟨default, nofun⟩
  | ok y => exact ⟨y, fun _ same => (Except.ok.inj same).symm⟩

/-- Searches that begin with the same solution are in lockstep from then on. -/
theorem together_start {solution : S} (new : s.director = { solution })
    (quiet : s.events = #[]) (valid : G.vars.Valid solution) (inside : G.inside solution)
    (known : ∀ y, c.problem.calculate solution = .ok y → y = x) :
    RunTogether (fun s' t' => s' = s ∧ t' = s) (Search.start c) (Search.start (c.under mode))
      (fun _ s t => ∃ y, G.lockstep.At (opening c.problem solution x) y s t) G.lockstep.Broken := by
  have lawful := G.problemLawful
  have holds : s.director.Holds c.problem (c.problem.bare solution) :=
    new ▸ Director.holds_new c.problem solution
  rintro _ _ ⟨rfl, rfl⟩
  rename_i s
  change EndAlike _ _ _ ((Search.start c).run.run s)
  rw [run_start]
  rcases holds.calculate_eq lawful with ⟨e, none, ended⟩ | ⟨y, d, scored, ended, holds'⟩
  · rw [ended]
    exact .fault ⟨rfl, G.confined.calculate _ (G.confined.withScore _ _ inside) _ none⟩
  · obtain rfl := known y ((lawful.calculate_bare _).symm.trans scored)
    rw [ended]
    have best : Search.bestOf c y { s with director := d } = (opening c.problem solution y).best := by
      have initialized := holds'.isInitialized_solution lawful
      have stored := lawful.withScore_withScore
      simp only [Search.bestOf, opening, initialized, lawful.isInitialized_bare]
      rw [holds'.solution_eq lawful, stored, Problem.bare, stored]
    have sound := sound_bestOf (s := { s with director := d }) lawful holds' scored
    rw [best] at sound
    refine .value ⟨y, ⟨.refl _, holds', holds', fun _ => rfl⟩, ?_, sound.2.ge⟩
    have none : Event.bests (s.events.push (.solvingStarted d.solution)).toList = [] := by
      rw [quiet]
      rfl
    refine ⟨(G.blind.valid_withScore _ _).2 valid, G.confined.withScore _ _ inside, scored,
      congrArg some best, sound.1, ?_, ?_⟩
    · rw [none]
      exact .nil
    · rw [none]
      rintro _ ⟨⟩

end Grounds

end PlanSearch
