import PlanSearch.Proofs.Acceptor.Temperature
import PlanSearch.Proofs.Search.Booked
import PlanSearch.Proofs.Search.Late
import PlanSearch.Proofs.Search.Progress

/-!
# Cooling down

A local search tells its acceptor in every step how far it has come, and annealing cools down by it.
In exact numbers a phase does not fall back, and so nothing heats up again, unless on its way to a
target a better score loses more on lesser levels than it gains on the others, by their weights: a
gradient weighs the levels, while scores are compared one level after the other.
-/

namespace PlanSearch

variable {M S : Type} {sh : Shape} {c : Conditions S sh}

/-! ## What the gradients look at -/

/-- A search has gone on: the clock and the steps were counted further, and what was known of the
score that it began with and of the best one was not given up. -/
structure Scope.GoesOn (s t : Scope S sh) : Prop where
  readings : s.readings ≤ t.readings
  steps : s.steps ≤ t.steps
  startedAt : t.startedAt = s.startedAt
  starting : ∀ x, s.starting = some x → t.starting = some x
  best : ∀ x, Search.bestScore s = some x → ∃ y, Search.bestScore t = some y ∧ x ≤ y

namespace Scope.GoesOn

variable {s t : Scope S sh}

instance : IsPreorder (Scope S sh) Scope.GoesOn where
  refl s := ⟨le_rfl, le_rfl, rfl, fun _ => id, fun x known => ⟨x, known, le_rfl⟩⟩
  trans s t u := by
    rintro first second
    refine ⟨first.readings.trans second.readings, first.steps.trans second.steps,
      second.startedAt.trans first.startedAt,
      fun x known => second.starting x (first.starting x known), fun x known => ?_⟩
    obtain ⟨y, known, better⟩ := first.best x known
    obtain ⟨z, known, better'⟩ := second.best y known
    exact ⟨z, known, better.trans better'⟩

/-- A solution that becomes the best one beats an initialized one by its score. -/
theorem of_booked {phase next : PhaseContext sh} {x : Score sh} {better : Option (Best S sh)}
    (booked : Booked c phase next x better s t) : s.GoesOn t where
  readings := booked.readings
  steps := booked.steps ▸ Nat.le_succ _
  startedAt := booked.startedAt
  starting := booked.starting
  best y known := by
    cases better with
    | none => exact ⟨y, by rw [← known, Search.bestScore, Search.bestScore, booked.best]; rfl, le_rfl⟩
    | some b =>
      obtain ⟨beats, w, rfl⟩ := booked.beats b rfl
      rw [Search.bestScore] at known
      rw [Search.bestScore, booked.best]
      cases best : s.best with
      | none =>
        rw [best] at known
        cases known
      | some old =>
        rw [best] at known beats
        dsimp only at known
        split at known
        · rename_i complete
          obtain rfl := Option.some.inj known
          rw [Search.beats, complete] at beats
          split at beats
          · rename_i initialized
            refine ⟨x, ?_, (of_decide_eq_true beats).le⟩
            exact if_pos initialized
          · rename_i other
            exact absurd beats other
        · cases known

theorem read (on : s.GoesOn t) (n : ℕ) : (s.read n).GoesOn (t.read n) :=
  { on with readings := Nat.add_le_add_right on.readings n }

end Scope.GoesOn

namespace Search

theorem goesOn_progressAt (clock : Monotone c.clock) {s t : Scope S sh} (on : s.GoesOn t) :
    (progressAt c s).GoesOn (progressAt c t) where
  elapsed := by
    rw [progressAt, progressAt, on.startedAt]
    cases s.startedAt with
    | none => exact le_rfl
    | some start => exact Nat.sub_le_sub_right (clock on.readings) start
  steps := on.steps
  starting := on.starting
  best := on.best

end Search

namespace PhaseContext

variable {phase next : PhaseContext sh}

/-- A phase has gone on: its steps were counted further. -/
structure GoesOn (phase next : PhaseContext sh) : Prop where
  startedAt : next.startedAt = phase.startedAt
  starting : next.starting = phase.starting
  steps : phase.steps ≤ next.steps

theorem goesOn_progressAt (clock : Monotone c.clock) (on : phase.GoesOn next) {s t : Scope S sh}
    (on' : s.GoesOn t) : (phase.progressAt c s).GoesOn (next.progressAt c t) where
  elapsed := by
    rw [progressAt, progressAt, on.startedAt]
    exact Nat.sub_le_sub_right (clock on'.readings) phase.startedAt
  steps := on.steps
  starting x known := on.starting.trans known
  best := on'.best

variable (phase c) (α : Type) [Scale α] (own : Option (Termination sh)) (s : Scope S sh)

/-- How far a phase has come in a state: its own termination reads the clock first. -/
def shareAt : α :=
  Gradient.minimum ((own.map fun t => t.gradient (phase.progressAt c s)).toList ++
    [c.termination.elim Gradient.unsupported fun t => t.gradient (Search.progressAt c
      (s.read own.toList.length))])

theorem exists_share :
    ∃ t, (phase.share α c own).run.run s = (.ok (phase.shareAt c α own s), t) := by
  have whole (s : Scope S sh) : ∃ t, (Search.share α c).run.run s =
      (.ok (c.termination.elim Gradient.unsupported fun t => t.gradient (Search.progressAt c s)),
        t) := by
    rw [Search.share]
    cases c.termination with
    | none => exact ⟨s, rfl⟩
    | some t =>
      refine ⟨s.read 1, ?_⟩
      dsimp only
      rw [run_bind, Search.run_progress]
      rfl
  rw [share]
  cases own with
  | none =>
    obtain ⟨t, ran⟩ := whole s
    refine ⟨t, ?_⟩
    rw [Option.toList_none, List.mapM_nil, pure_bind, run_bind, ran]
    rfl
  | some own =>
    obtain ⟨t, ran⟩ := whole (s.read 1)
    refine ⟨t, ?_⟩
    rw [Option.toList_some, List.mapM_cons, List.mapM_nil]
    simp only [bind_assoc, pure_bind]
    rw [run_bind, run_progress]
    dsimp only
    rw [run_bind, ran]
    rfl

variable {c phase own s} {t : Scope S sh}

/-- In exact numbers a phase does not fall back while it goes on, if the best score upholds the
earlier one on the way to all targets. -/
theorem shareAt_mono (clock : Monotone c.clock) (on : phase.GoesOn next) (on' : s.GoesOn t)
    (ownUpholds : ∀ criterion ∈ own, ∀ target, criterion.Aims target →
      (phase.progressAt c s).Upholds target (next.progressAt c t))
    (wholeUpholds : ∀ criterion ∈ c.termination, ∀ target, criterion.Aims target →
      (Search.progressAt c s).Upholds target (Search.progressAt c t)) :
    phase.shareAt c ℚ own s ≤ next.shareAt c ℚ own t := by
  have whole : Gradient.Rises
      (c.termination.elim Gradient.unsupported fun criterion => criterion.gradient
        (Search.progressAt c (s.read own.toList.length)))
      (c.termination.elim Gradient.unsupported fun criterion => criterion.gradient
        (Search.progressAt c (t.read own.toList.length))) := by
    cases known : c.termination with
    | none => exact ⟨le_rfl, Iff.rfl⟩
    | some criterion =>
      exact criterion.rises_gradient (Search.goesOn_progressAt clock (on'.read _))
        (wholeUpholds criterion known)
  refine Gradient.minimum_mono ?_
  cases own with
  | none => exact .cons whole .nil
  | some criterion =>
    have own := criterion.rises_gradient (goesOn_progressAt clock on on')
      (ownUpholds criterion rfl)
    exact .cons own (.cons whole .nil)

end PhaseContext

/-! ## From step to step -/

namespace LocalSearch

variable {p : LocalSearch M S sh} {index : ℕ} {r v v' w w' : p.Running}
variable {history history' : List (Option (Acceptor.Made S sh))} {starting starting' : Score sh}
variable {phase phase' : PhaseContext sh} {step step' : StepContext sh}

/-- There is but one course of a phase. -/
theorem Chronicle.unique (chronicle : p.Chronicle c index r history starting phase v)
    (chronicle' : p.Chronicle c index r history' starting' phase' v')
    (same : history.length = history'.length) : starting = starting' ∧ phase = phase' ∧ v = v' := by
  induction chronicle generalizing history' starting' phase' v' with
  | begun begun =>
    cases chronicle' with
    | begun begun' =>
      cases begun.symm.trans begun'
      exact ⟨rfl, rfl, rfl⟩
    | step before' completes' =>
      rw [List.length_append] at same
      cases same
  | step before completes ih =>
    cases chronicle' with
    | begun begun' =>
      rw [List.length_append] at same
      cases same
    | step before' completes' =>
      rw [List.length_append, List.length_append] at same
      obtain ⟨rfl, rfl, rfl⟩ := ih before' (Nat.add_right_cancel same)
      cases completes.round_eq.symm.trans completes'.round_eq
      exact ⟨rfl, rfl, rfl⟩

/-- A completed step goes on. -/
theorem Completes.goesOn {made : Option (Acceptor.Made S sh)}
    (completes : p.Completes c starting phase v made phase' v') :
    phase.GoesOn phase' ∧ v.scope.GoesOn v'.scope := by
  obtain ⟨x, better, booked⟩ := completes.booked
  refine ⟨?_, .of_booked booked⟩
  rw [booked.phase_eq]
  exact ⟨rfl, rfl, Nat.le_succ _⟩

/-- A phase goes on from every step to every later one. -/
theorem Chronicle.goesOn (chronicle : p.Chronicle c index r history starting phase v)
    (chronicle' : p.Chronicle c index r history' starting' phase' v')
    (later : history.length ≤ history'.length) : phase.GoesOn phase' ∧ v.scope.GoesOn v'.scope := by
  have refl : phase.GoesOn phase ∧ v.scope.GoesOn v.scope :=
    ⟨⟨rfl, rfl, le_rfl⟩, refl_of Scope.GoesOn v.scope⟩
  induction chronicle' with
  | begun begun =>
    obtain ⟨rfl, rfl, rfl⟩ := chronicle.unique (.begun begun) (Nat.le_zero.1 later)
    exact refl
  | @step history₁ _ _ _ made _ _ before completes ih =>
    rw [List.length_append, List.length_singleton] at later
    rcases later.eq_or_lt with same | earlier
    · obtain ⟨rfl, rfl, rfl⟩ := chronicle.unique (.step before completes)
        (by rw [same, List.length_append, List.length_singleton])
      exact refl
    · obtain ⟨on, on'⟩ := ih (Nat.le_of_lt_succ earlier)
      obtain ⟨next, next'⟩ := completes.goesOn
      exact ⟨⟨next.startedAt.trans on.startedAt, next.starting.trans on.starting,
        on.steps.trans next.steps⟩, trans_of Scope.GoesOn on' next'⟩

/-! ## The gradient of a step -/

variable (p c) in
/-- How far the search has come where a step begins, in the numbers of a scale. -/
def measured (α : Type) [Scale α] (phase : PhaseContext sh) (r : p.Running) : Option α :=
  match (phase.isTerminated c p.termination).run.run r.scope with
  | (.ok false, s) => ((phase.share α c p.termination).run.run s).1.toOption
  | _ => none

/-- A step goes by how far the search has come, which is measured in floating-point numbers. -/
theorem Begins.measured_eq (begins : p.Begins c starting phase v step w) :
    p.measured c Float phase v = some step.gradient ∧
      p.measured c ℚ phase v = some (phase.shareAt c ℚ p.termination (v.scope.read
        (c.termination.toList.length + p.termination.toList.length))) := by
  obtain ⟨u, u₁, _, looked, far, -⟩ := begins.stages
  have looked := scope_of_onScope looked
  have far : (phase.share Float c p.termination).run.run u.scope = (.ok step.gradient, u₁.scope) :=
    scope_of_onScope far
  obtain ⟨-, -, reads⟩ := PhaseContext.of_isTerminated_false looked
  rw [measured, measured, looked, ← reads]
  dsimp only
  rw [far]
  obtain ⟨t, far⟩ := phase.exists_share c ℚ p.termination u.scope
  rw [far]
  exact ⟨rfl, rfl⟩

/-- Annealing within the acceptor starts every phase and every step from the same temperatures. -/
theorem Chronicle.anneals {path : List ℕ} {a₀ : Annealing sh}
    (chronicle : p.Chronicle c index r history starting phase v)
    (there : r.own.acceptor.part? path = some (.annealing a₀)) :
    ∃ a, v.own.acceptor.part? path = some (.annealing a) ∧ a.starting = a₀.starting := by
  induction chronicle with
  | begun begun =>
    obtain ⟨part, anew, within⟩ := Acceptor.exists_part?_phaseStarted (begin_ok begun).2 there
    obtain rfl := Except.ok.inj anew
    exact ⟨a₀.phaseStarted, within, rfl⟩
  | step before completes ih =>
    obtain ⟨a, within, same⟩ := ih
    cases completes with
    | @made step _ _ _ _ _ _ _ _ _ begins decided applied made =>
      obtain ⟨-, -, told, -⟩ := begins.ok
      obtain ⟨-, told'⟩ := make_ok applied made
      refine ⟨a.stepStarted step.gradient, ?_, same⟩
      rw [told', (p.keeps_acceptor_decide c _).ran decided, told, Acceptor.part?_stepEnded,
        Acceptor.part?_stepStarted, within]
      rfl
    | @skipped step _ _ _ _ _ begins decided tried waits skipped =>
      obtain ⟨-, -, told, -⟩ := begins.ok
      obtain ⟨-, told'⟩ := skip_ok skipped
      refine ⟨a.stepStarted step.gradient, ?_, same⟩
      rw [told', (p.keeps_acceptor_decide c _).ran decided, told, Acceptor.part?_stepStarted, within]
      rfl

/-- In a step, annealing cools down to the gradient of the step. -/
theorem Begins.exists_temperatures {path : List ℕ} {a₀ : Annealing sh} {temperature : Score sh}
    (begins : p.Begins c starting phase v step w)
    (chronicle : p.Chronicle c index r history starting phase v)
    (there : r.own.acceptor.part? path = some (.annealing a₀))
    (made : Annealing.ofTemperature temperature = .ok a₀) :
    ∃ a, w.own.acceptor.part? path = some (.annealing a) ∧
      a.temperatures = Annealing.temperaturesAt step.gradient temperature := by
  obtain ⟨a, within, same⟩ := chronicle.anneals there
  obtain ⟨-, -, told, -⟩ := begins.ok
  refine ⟨a.stepStarted step.gradient, ?_, ?_⟩
  · rw [told, Acceptor.part?_stepStarted, within]
    rfl
  · rw [← Annealing.temperatures_stepStarted made, Annealing.stepStarted, Annealing.stepStarted, same]

variable (p c) in
/-- The best score upholds the earlier one on the way to all targets of the phase and of the search
as a whole. -/
def UpholdsTargets (phase : PhaseContext sh) (s t : Scope S sh) : Prop :=
  (∀ criterion ∈ p.termination, ∀ target, criterion.Aims target →
    (phase.progressAt c s).Upholds target (phase.progressAt c t)) ∧
  (∀ criterion ∈ c.termination, ∀ target, criterion.Aims target →
    (Search.progressAt c s).Upholds target (Search.progressAt c t))

/-- A score of a single level upholds every earlier one. -/
theorem upholdsTargets_of_single {s t : Scope S sh} (on : s.GoesOn t) (single : sh.levelCount ≤ 1) :
    p.UpholdsTargets c phase s t := by
  have upholds (start target before after : Score sh) (known : Search.bestScore s = some before)
      (known' : Search.bestScore t = some after) : start.Upholds target before after := by
    obtain ⟨_, better, higher⟩ := on.best before known
    rw [known'] at better
    obtain rfl := Option.some.inj better
    exact Gradient.upholds_of_le single start target higher
  exact ⟨fun _ _ target _ start before after _ => upholds start target before after,
    fun _ _ target _ start before after _ => upholds start target before after⟩

/-- In exact numbers and with a clock that does not go back, the gradient of a step is at least that
of every earlier one, and so no temperature of annealing rises and no worsening gains a chance; where
scores have several levels, if on the way to each target the best score has lost no more than it has
gained since, by the weights of the levels. -/
theorem gradient_rises (p : LocalSearch M S sh) (c : Conditions S sh) (clock : Monotone c.clock)
    (index : ℕ) (r : p.Running) (history history' : List (Option (Acceptor.Made S sh)))
    (starting starting' : Score sh) (phase phase' : PhaseContext sh) (v v' : p.Running)
    (chronicle : p.Chronicle c index r history starting phase v)
    (chronicle' : p.Chronicle c index r history' starting' phase' v')
    (step step' : StepContext sh) (w w' : p.Running)
    (begins : p.Begins c starting phase v step w)
    (begins' : p.Begins c starting' phase' v' step' w') (later : step.index ≤ step'.index)
    (upholds : 1 < sh.levelCount → p.UpholdsTargets c phase v.scope v'.scope) :
    p.measured c Float phase v = some step.gradient ∧
      p.measured c Float phase' v' = some step'.gradient ∧
      ∃ g g' : ℚ, p.measured c ℚ phase v = some g ∧ p.measured c ℚ phase' v' = some g' ∧ g ≤ g' ∧
        ∀ path temperature a₀, r.own.acceptor.part? path = some (.annealing a₀) →
          Annealing.ofTemperature temperature = .ok a₀ →
            (∃ a, w.own.acceptor.part? path = some (.annealing a) ∧
              a.temperatures = Annealing.temperaturesAt step.gradient temperature) ∧
            (∃ a, w'.own.acceptor.part? path = some (.annealing a) ∧
              a.temperatures = Annealing.temperaturesAt step'.gradient temperature) ∧
            List.Forall₂ (· ≤ ·) (Annealing.temperaturesAt g' temperature)
              (Annealing.temperaturesAt g temperature) ∧
            ∀ worsening, Annealing.chanceOf Real.exp worsening
                ((Annealing.temperaturesAt g' temperature).map (↑)) ≤
              Annealing.chanceOf Real.exp worsening
                ((Annealing.temperaturesAt g temperature).map (↑)) := by
  have count := begins.ok.1.trans chronicle.counts.1
  have count' := begins'.ok.1.trans chronicle'.counts.1
  obtain ⟨on, on'⟩ := chronicle.goesOn chronicle' (by omega)
  obtain ⟨gradient, exactly⟩ := begins.measured_eq
  obtain ⟨gradient', exactly'⟩ := begins'.measured_eq
  have upholds : p.UpholdsTargets c phase v.scope v'.scope := by
    by_cases single : sh.levelCount ≤ 1
    · exact upholdsTargets_of_single on' single
    · exact upholds (not_le.1 single)
  have further := PhaseContext.shareAt_mono clock on (on'.read
    (c.termination.toList.length + p.termination.toList.length)) upholds.1 upholds.2
  refine ⟨gradient, gradient', _, _, exactly, exactly', further, ?_⟩
  intro path temperature a₀ there made
  have colder := Annealing.temperaturesAt_anti made further
  refine ⟨begins.exists_temperatures chronicle there made,
    begins'.exists_temperatures chronicle' there made, colder, fun worsening => ?_⟩
  exact Annealing.chanceOf_mono worsening colder fun t => Annealing.temperaturesAt_pos

end LocalSearch

/-! ## Two levels -/

/-- One thing that is put in one of three places, with the score that was stored last. -/
structure Tradeoff where
  place : Option ℕ
  score : Option (Score .hardSoft)

namespace Tradeoff

def whereabouts : PlainVariable Tradeoff where
  name := "place"
  descriptorIndex := 0
  get s _ := s.place
  set s _ x := { s with place := x }

/-- The second place wins on the hard level and gives up more on the soft one. The third place wins
more than it gives up. -/
def problem : Problem Tradeoff .hardSoft where
  score := Tradeoff.score
  withScore s score := { s with score }
  isInitialized s := s.place.isSome
  calculate s := .ok <| match s.place with
    | some 1 => .ofHardSoft (-3) (-10)
    | some 2 => .ofHardSoft (-1) (-1)
    | _ => .ofHardSoft (-4) 0

def conditions : Conditions Tradeoff .hardSoft := { problem, patience := 5 }

/-- One degree on each level. -/
def temperature : Score .hardSoft := .ofHardSoft 1 1

def annealing : Annealing .hardSoft where
  starting := temperature.toList.map Int64.toFloat
  temperatures := temperature.toList.map Int64.toFloat

/-- Moves to a place, and waits until nothing is left to be desired. -/
def settling (place : ℕ) : LocalSearch Unit Tradeoff .hardSoft where
  moves := .offering [.change whereabouts 0 (some place)]
  memory := ()
  acceptor := .annealing annealing
  forager := .ofLimit 1 .never
  termination := some (.scoreAttained .zero)

/-- The first place. -/
def unsettled (place : ℕ) : (settling place).Running where
  scope := {
    director := { solution := ⟨some 0, none⟩ }
    generator := .ofSeed 0
    best := some ⟨⟨some 0, none⟩, .ofHardSoft (-4) 0, true⟩
    starting := some (.ofHardSoft (-4) 0) }
  own := (settling place).start

/-- The score of the first place. -/
def least : Score .hardSoft := .ofHardSoft (-4) 0

/-- What is counted when the phase begins. -/
def begun : PhaseContext .hardSoft := .ofStart 0 LocalSearch.kind 0 (some least)

/-- The phase when it has begun. -/
def opening (place : ℕ) : (settling place).Running :=
  (((settling place).begin conditions 0).run.run (unsettled place)).2

/-- The first step measures one share and the second one another, with the given score as the best
one. -/
def advances (place : ℕ) (best : Score .hardSoft) (g g' : ℚ) : Bool :=
  let p := settling place
  (p.opened conditions least begun (opening place)).isSome &&
    p.measured conditions ℚ begun (opening place) == some g &&
      (p.completed conditions least begun (opening place)).any fun x =>
        (p.opened conditions least x.1 x.2).isSome &&
          p.measured conditions ℚ x.1 x.2 == some g' && Search.bestScore x.2.scope == some best

theorem exists_of_advances {place : ℕ} {best : Score .hardSoft} {g g' : ℚ}
    (ran : advances place best g g' = true) :
    let p := settling place
    ∃ step w made phase v step' w',
      p.Chronicle conditions 0 (unsettled place) [] least begun (opening place) ∧
      p.Begins conditions least begun (opening place) step w ∧
      p.Chronicle conditions 0 (unsettled place) [made] least phase v ∧
      p.Begins conditions least phase v step' w' ∧
      p.measured conditions ℚ begun (opening place) = some g ∧
      p.measured conditions ℚ phase v = some g' ∧ Search.bestScore v.scope = some best := by
  obtain ⟨first, ran⟩ := Bool.and_eq_true_iff.1 ran
  obtain ⟨opened, measured⟩ := Bool.and_eq_true_iff.1 first
  obtain ⟨⟨phase, v⟩, done, ran⟩ := (Option.any_eq_true ..).1 ran
  obtain ⟨second, known⟩ := Bool.and_eq_true_iff.1 ran
  obtain ⟨opened', measured'⟩ := Bool.and_eq_true_iff.1 second
  obtain ⟨⟨step, w⟩, opened⟩ := Option.isSome_iff_exists.1 opened
  obtain ⟨⟨step', w'⟩, opened'⟩ := Option.isSome_iff_exists.1 opened'
  obtain ⟨made, completes⟩ := LocalSearch.exists_completes_of_completed done
  have chronicle : (settling place).Chronicle conditions 0 (unsettled place) [] least begun
      (opening place) := .begun rfl
  exact ⟨step, w, made, phase, v, step', w', chronicle, LocalSearch.begins_of_opened opened,
    chronicle.step completes, LocalSearch.begins_of_opened opened', eq_of_beq measured,
    eq_of_beq measured', eq_of_beq known⟩

/-- A better score that gives up ten soft points for one hard point is not as far on its way, and all
temperatures rise. -/
theorem gradient_falls_settling : Monotone conditions.clock ∧
    (settling 1).termination.any Termination.supportsGradient = true ∧
    ∃ step w made phase v step' w',
      (settling 1).Chronicle conditions 0 (unsettled 1) [] least begun (opening 1) ∧
      (settling 1).Begins conditions least begun (opening 1) step w ∧
      (settling 1).Chronicle conditions 0 (unsettled 1) [made] least phase v ∧
      (settling 1).Begins conditions least phase v step' w' ∧
      (settling 1).measured conditions ℚ begun (opening 1) = some (1 / 4) ∧
      (settling 1).measured conditions ℚ phase v = some (3 / 16) ∧
      Annealing.temperaturesAt (1 / 4 : ℚ) temperature = [3 / 4, 3 / 4] ∧
      Annealing.temperaturesAt (3 / 16 : ℚ) temperature = [13 / 16, 13 / 16] := by
  refine ⟨fun _ _ _ => le_rfl, rfl, ?_⟩
  have ran : advances 1 (.ofHardSoft (-3) (-10)) (1 / 4) (3 / 16) = true := by decide +kernel
  obtain ⟨step, w, made, phase, v, step', w', chronicle, begins, chronicle', begins', measured,
    measured', -⟩ := exists_of_advances ran
  exact ⟨step, w, made, phase, v, step', w', chronicle, begins, chronicle', begins', measured,
    measured', by decide +kernel, by decide +kernel⟩

/-- A score that wins more than it gives up is further on its way, and it gets colder. -/
theorem gradient_rises_settling : ∃ step w made phase v step' w',
    (settling 2).Begins conditions least begun (opening 2) step w ∧
    (settling 2).Chronicle conditions 0 (unsettled 2) [made] least phase v ∧
    (settling 2).Begins conditions least phase v step' w' ∧
    step.index ≤ step'.index ∧
    (settling 2).UpholdsTargets conditions begun (opening 2).scope v.scope ∧
    (∃ a, w.own.acceptor.part? [] = some (.annealing a) ∧
      a.temperatures = Annealing.temperaturesAt step.gradient temperature) ∧
    (∃ a, w'.own.acceptor.part? [] = some (.annealing a) ∧
      a.temperatures = Annealing.temperaturesAt step'.gradient temperature) ∧
    List.Forall₂ (· ≤ ·) (Annealing.temperaturesAt (9 / 16 : ℚ) temperature)
      (Annealing.temperaturesAt (1 / 4 : ℚ) temperature) := by
  have ran : advances 2 (.ofHardSoft (-1) (-1)) (1 / 4) (9 / 16) = true := by decide +kernel
  obtain ⟨step, w, made, phase, v, step', w', chronicle, begins, chronicle', begins', measured,
    measured', known⟩ := exists_of_advances ran
  have later : step.index ≤ step'.index := begins.ok.1.trans_le (Nat.zero_le _)
  have upholds : (settling 2).UpholdsTargets conditions begun (opening 2).scope v.scope := by
    refine ⟨?_, nofun⟩
    rintro _ ⟨⟩ target ⟨⟩ start before after ⟨⟩ ⟨⟩ better
    obtain rfl := Option.some.inj (known.symm.trans better)
    exact Score.upholds_iff.2 (by decide +kernel)
  obtain ⟨-, -, g, g', is, is', -, colder⟩ := LocalSearch.gradient_rises (settling 2) conditions
    (fun _ _ _ => le_rfl) 0 (unsettled 2) [] [made] least least begun phase (opening 2) v chronicle
    chronicle' step step' w w' begins begins' later fun _ => upholds
  obtain rfl := Option.some.inj (is.symm.trans measured)
  obtain rfl := Option.some.inj (is'.symm.trans measured')
  obtain ⟨warm, cold, falls, -⟩ := colder [] temperature annealing rfl rfl
  exact ⟨step, w, made, phase, v, step', w', begins, chronicle', begins', later, upholds, warm, cold,
    falls⟩

end Tradeoff

end PlanSearch
