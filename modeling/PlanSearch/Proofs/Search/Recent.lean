import PlanSearch.Proofs.Assembly.Registered
import PlanSearch.Proofs.Search.Chronicle
import PlanSearch.Proofs.Search.Log

/-!
# What is tabu in a step

An acceptor that looks at recent steps may stand alone in a local search or within others. In every
step it takes for tabu just what one of the last steps recorded, as many as it remembers. Steps in
which no move was made are counted among them.
-/

namespace PlanSearch

variable {M S : Type} {sh : Shape}

namespace TabuKind

/-- The keys that a step records, in which a move may have been made. -/
def told (kind : TabuKind) (made : Option (Acceptor.Made S sh)) : List (kind.Key S) :=
  made.elim [] fun made => kind.recorded made

/-- After the given steps, one of the last `size` of them recorded a key of the move. -/
def Recent (kind : TabuKind) (history : List (Option (Acceptor.Made S sh))) (size : ℕ)
    (m : Move S) : Prop :=
  ∃ i made, i < history.length ∧ history.length ≤ i + size ∧ history[i]? = some (some made) ∧
    ∃ key ∈ kind.keys m, ∃ key' ∈ kind.recorded made, key == key'

variable {kind : TabuKind} {history : List (Option (Acceptor.Made S sh))} {size : ℕ} {m : Move S}

theorem recent_iff : kind.Recent history size m ↔ ∃ i recorded, history.length ≤ i + size ∧
    (history.map kind.told)[i]? = some recorded ∧
      ∃ key ∈ kind.keys m, ∃ key' ∈ recorded, key == key' := by
  constructor
  · rintro ⟨i, made, -, young, there, shared⟩
    refine ⟨i, kind.recorded made, young, ?_, shared⟩
    rw [List.getElem?_map, there]
    rfl
  · rintro ⟨i, recorded, young, there, key, member, key', member', same⟩
    rw [List.getElem?_map] at there
    obtain ⟨made, done, rfl⟩ := Option.map_eq_some_iff.1 there
    cases made with
    | none => cases member'
    | some made =>
      exact ⟨i, made, (List.getElem?_eq_some_iff.1 done).1, young, done, key, member, key', member',
        same⟩

end TabuKind

namespace LocalSearch

variable {p : LocalSearch M S sh} {c : Conditions S sh} {index begun : ℕ} {r r' r'' : p.Running}
variable {kind : TabuKind} {path : List ℕ} {t₀ : Tabu (kind.Key S)} {a : Acceptor S sh}
variable {history : List (Option (Acceptor.Made S sh))} {starting : Score sh}
variable {phase next : PhaseContext sh} {step : StepContext sh}

/-- At the end of a path an acceptor contains a list that was told of all steps; the last one to
begin was `begun`. The list remembers as many steps as another one, and lets the same through. -/
def Follows (t₀ : Tabu (kind.Key S)) (path : List ℕ)
    (history : List (Option (Acceptor.Made S sh))) (begun : ℕ) (a : Acceptor S sh) : Prop :=
  ∃ t : Tabu (kind.Key S), a.part? path = some (kind.acceptor t) ∧ t.size = t₀.size ∧
    t.aspiration = t₀.aspiration ∧ t.Recalls (history.map kind.told) begun

theorem follows_phaseStarted {b : Acceptor S sh} (anew : a.phaseStarted starting = .ok b)
    (there : a.part? path = some (kind.acceptor t₀)) : Follows t₀ path [] 0 b := by
  obtain ⟨part, anew, there'⟩ := Acceptor.exists_part?_phaseStarted anew there
  rw [kind.phaseStarted_acceptor] at anew
  obtain rfl := Except.ok.inj anew
  exact ⟨t₀.clear, there', rfl, rfl, t₀.recalls_clear⟩

theorem Follows.stepStarted (follows : Follows t₀ path history begun a)
    (later : begun ≤ history.length) (index : step.index = history.length)
    (fits : history.length ≤ Count.max) :
    Follows t₀ path history history.length (a.stepStarted step) := by
  obtain ⟨t, there, size, aspiration, recalls⟩ := follows
  refine ⟨t.stepStarted step.index, ?_, size, aspiration, ?_⟩
  · rw [Acceptor.part?_stepStarted, there, Option.map_some, kind.stepStarted_acceptor]
  · rw [index]
    exact recalls.stepStarted later fits

theorem Follows.stepEnded {made : Acceptor.Made S sh}
    (follows : Follows t₀ path history history.length a) (index : made.index = history.length) :
    Follows t₀ path (history ++ [some made]) history.length (a.stepEnded made) := by
  obtain ⟨t, there, size, aspiration, recalls⟩ := follows
  refine ⟨t.record (kind.recorded made) made.index, ?_, size, aspiration, ?_⟩
  · rw [Acceptor.part?_stepEnded, there, Option.map_some, kind.stepEnded_acceptor]
  · rw [index, List.map_append]
    have length : (history.map kind.told).length = history.length := List.length_map ..
    rw [← length] at recalls ⊢
    exact recalls.record

theorem Follows.skip (follows : Follows t₀ path history begun a) :
    Follows t₀ path (history ++ [none]) begun a := by
  obtain ⟨t, there, size, aspiration, recalls⟩ := follows
  refine ⟨t, there, size, aspiration, ?_⟩
  rw [List.map_append]
  exact recalls.skip

/-- The step that is decided is the one that began. -/
theorem index_of_decide {last : StepContext sh} {picked : Option (Move S × Score sh)}
    (ran : (p.decide c step).run.run.run r = (.ok (.ok (picked, last)), r')) :
    last.index = step.index := by
  obtain ⟨_, -, -, index, -⟩ := TryTells.exists_adds Running.scope (p.tryTells_decide c step) ran
  exact index

/-- After any number of steps the acceptor contains a list that was told of them all. -/
theorem Chronicle.follows (chronicle : p.Chronicle c index r history starting phase r')
    (there : r.own.acceptor.part? path = some (kind.acceptor t₀)) :
    phase.steps = history.length ∧ (history.length ≤ Count.max →
      ∃ begun ≤ history.length, Follows t₀ path history begun r'.own.acceptor) := by
  induction chronicle with
  | begun begun =>
    obtain ⟨none, anew⟩ := begin_ok begun
    exact ⟨none, fun _ => ⟨0, Nat.zero_le _, follows_phaseStarted anew there⟩⟩
  | step before completes ih =>
    obtain ⟨count, follows⟩ := ih
    rw [List.length_append, List.length_singleton]
    cases completes with
    | made begins decided applied made =>
      obtain ⟨index, -, told, -⟩ := begins.ok
      obtain ⟨count', told'⟩ := make_ok applied made
      refine ⟨by rw [count', count], fun fits => ⟨_, Nat.le_succ _, ?_⟩⟩
      obtain ⟨begun, earlier, follows⟩ := follows (Nat.le_of_succ_le fits)
      rw [told', (p.keeps_acceptor_decide c _).ran decided, told]
      exact (follows.stepStarted earlier (index.trans count) (Nat.le_of_succ_le fits)).stepEnded
        ((index_of_decide decided).trans (index.trans count))
    | skipped begins decided tried waits skipped =>
      obtain ⟨index, -, told, -⟩ := begins.ok
      obtain ⟨count', told'⟩ := skip_ok skipped
      refine ⟨by rw [count', count], fun fits => ⟨_, Nat.le_succ _, ?_⟩⟩
      obtain ⟨begun, earlier, follows⟩ := follows (Nat.le_of_succ_le fits)
      rw [told', (p.keeps_acceptor_decide c _).ran decided, told]
      exact (follows.stepStarted earlier (index.trans count) (Nat.le_of_succ_le fits)).skip

/-- In every step whose number fits a word, a move is tabu for an acceptor that looks at recent
steps, alone or within others, if one of its keys was recorded in one of them. The acceptor does not
change while the step decides, and a move that is picked has no such key, unless the acceptor lets
through what beats the score that was the best when the step began. -/
theorem tabu_iff_recent (p : LocalSearch M S sh) (c : Conditions S sh) (index : ℕ) (r : p.Running)
    (kind : TabuKind) (path : List ℕ) (t₀ : Tabu (kind.Key S))
    (there : r.own.acceptor.part? path = some (kind.acceptor t₀))
    (history : List (Option (Acceptor.Made S sh))) (starting : Score sh) (phase : PhaseContext sh)
    (r' : p.Running) (chronicle : p.Chronicle c index r history starting phase r')
    (step : StepContext sh) (r'' : p.Running) (begins : p.Begins c starting phase r' step r'')
    (fits : step.index ≤ Count.max) :
    step.index = history.length ∧
      (∀ best, r'.scope.best = some best → step.best = best.score) ∧
      ∃ t : Tabu (kind.Key S), r''.own.acceptor.part? path = some (kind.acceptor t) ∧
        t.size = t₀.size ∧ t.aspiration = t₀.aspiration ∧
        ((p.decide c step).run.run.run r'').2.own.acceptor = r''.own.acceptor ∧
        (∀ m, t.isTabu (kind.keys m) = true ↔ kind.Recent history t.size m) ∧
        ∀ m score last w,
          (p.decide c step).run.run.run r'' = (.ok (.ok (some (m, score), last)), w) →
            kind.Recent history t.size m → t.aspiration = true ∧ step.best < score := by
  obtain ⟨count, follows⟩ := chronicle.follows there
  obtain ⟨number, best, told, none⟩ := begins.ok
  have index : step.index = history.length := number.trans count
  rw [index] at fits
  obtain ⟨begun, earlier, follows⟩ := follows fits
  obtain ⟨t, within, size, aspiration, recalls⟩ := follows.stepStarted earlier index fits
  rw [← told] at within
  have tabu (m : Move S) : t.isTabu (kind.keys m) = true ↔ kind.Recent history t.size m :=
    recalls.isTabu_iff.trans TabuKind.recent_iff.symm
  refine ⟨index, best, t, within, size, aspiration, p.keeps_acceptor_decide c step r'', tabu, ?_⟩
  intro m score last w decided recent
  obtain ⟨step', g, g', same, accepted⟩ := passed_of_decide none decided
  obtain ⟨g₁, g₂, accepted⟩ := Acceptor.exists_accepts_part? accepted within
  rw [kind.accepts_acceptor, same] at accepted
  obtain ⟨lets, -⟩ := Prod.mk.inj (Except.ok.inj accepted)
  rw [Tabu.accepts, (tabu m).2 recent] at lets
  simpa using lets

end LocalSearch

namespace ScoredNecklace

/-- Paints a bead, and does not repeat the move of the step before. -/
def painting : LocalSearch Unit ScoredNecklace .simple where
  moves := Selector.source (fun _ => #[.change colour 0 (some 1), .change colour 1 (some 1)]) false
  memory := ()
  acceptor := .composite [.hillClimbing, .composite [.moveTabu { size := 1, aspiration := false }]]
  forager := .ofLimit 1 .never

/-- A search with nothing around it that could stop it. -/
def conditions : Conditions ScoredNecklace .simple := { around with }

/-- Nothing is painted. -/
def unpainted : painting.Running where
  scope := { director := { solution := plain }, generator := .ofSeed 0 }
  own := painting.start

theorem exists_begins (starting : Score .simple) (phase : PhaseContext .simple)
    (r : painting.Running) (goesOn : r.scope.interrupted = false) :
    ∃ step r', painting.Begins conditions starting phase r step r' ∧ step.index = phase.steps := by
  obtain ⟨⟨director, generator, best, score, bestStep, steps, startedAt, readings, interrupted,
    events⟩, own⟩ := r
  obtain rfl : interrupted = false := goesOn
  exact ⟨_, _, ⟨_, rfl, rfl⟩, rfl⟩

/-- A move that was made in the first step is tabu in the second one. -/
theorem tabu_iff_recent_painting : ∃ made starting phase r' step r'',
    painting.Chronicle conditions 0 unpainted [some made] starting phase r' ∧
      painting.Begins conditions starting phase r' step r'' ∧
      (∃ t : Tabu (Move ScoredNecklace), t.isTabu [made.move] = true ∧
        r''.own.acceptor.part? [1, 0] = some (.moveTabu t)) ∧
      ∀ m score last w,
        (painting.decide conditions step).run.run.run r'' = (.ok (.ok (some (m, score), last)), w) →
          (m == made.move) = false := by
  let zero : Score .simple := .ofLevel 0
  let phase₀ : PhaseContext .simple := .ofStart 0 LocalSearch.kind 0 (some zero)
  let r₀ := ((painting.begin conditions 0).run.run unpainted).2
  let round := (painting.round conditions zero phase₀).run.run.run r₀
  have begun : (painting.begin conditions 0).run.run unpainted = (.ok (zero, phase₀), r₀) := rfl
  have answered : (round.1.toOption.bind Except.toOption).join.isSome = true := by decide +kernel
  have goesOn : round.2.scope.interrupted = false := by decide +kernel
  obtain ⟨next, done⟩ : ∃ next, round = (.ok (.ok (some next)), round.2) := by
    generalize round = reached at answered
    rcases reached with ⟨_ | _ | _ | next, r₁⟩
    · cases answered
    · cases answered
    · cases answered
    · exact ⟨next, rfl⟩
  obtain ⟨made, completes⟩ := LocalSearch.round_eq_some_iff.1 done
  cases made with
  | none =>
    -- with no termination at all, a step in which nothing is accepted is never completed
    cases completes with
    | skipped _ _ _ waits => cases waits
  | some made =>
    have chronicle := LocalSearch.Chronicle.step (.begun begun) completes
    obtain ⟨step, r₂, begins, index⟩ := exists_begins zero next round.2 goesOn
    have within : unpainted.own.acceptor.part? [1, 0] =
      some (TabuKind.move.acceptor { size := 1, aspiration := false }) := rfl
    have count : step.index = 1 := index.trans (chronicle.follows within).1
    obtain ⟨-, -, t, there, size, aspiration, -, tabu, picks⟩ :=
      LocalSearch.tabu_iff_recent painting
      conditions 0 unpainted .move [1, 0] { size := 1, aspiration := false } within [some made] zero
      next round.2 chronicle step r₂ begins (by rw [count]; decide)
    have recent (m : Move ScoredNecklace) (same : (m == made.move) = true) :
        TabuKind.move.Recent [some made] t.size m := by
      refine ⟨0, made, Nat.one_pos, ?_, rfl, m, List.mem_singleton.2 rfl, made.move,
        List.mem_singleton.2 rfl, same⟩
      rw [size]
      exact Nat.le_refl 1
    refine ⟨made, zero, next, round.2, step, r₂, chronicle, begins, ⟨t, ?_, there⟩, ?_⟩
    · exact (tabu made.move).2 (recent made.move BEq.rfl)
    · intro m score last w decided
      refine Bool.eq_false_iff.2 fun same => ?_
      obtain ⟨lets, -⟩ := picks m score last w decided (recent m same)
      rw [aspiration] at lets
      cases lets

end ScoredNecklace

end PlanSearch
