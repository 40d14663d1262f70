import Mathlib.Data.List.MinMax
import PlanSearch.Proofs.Assembly.Registered
import PlanSearch.Proofs.Config.Valid
import PlanSearch.Proofs.Move.Restored
import PlanSearch.Proofs.Score.Order
import PlanSearch.Proofs.Search.Candidates
import PlanSearch.Proofs.Selector.Passes

/-!
# The choice of a move

A step draws candidates from its selector until there are no more, its budget is used up, as many
were accepted as are wanted, or one was accepted that is good enough at once. What it does to the
working solution in between is taken back every time. Only the last candidate can be good enough at
once, so that the forager, which takes such a candidate unseen, has always kept the first of the
best ones.
-/

namespace PlanSearch

variable {M S : Type} {sh : Shape} {α : Type}

/-! ## Evaluation -/

namespace Search

variable {p : Problem S sh} {c : Conditions S sh} {vars : Variables S} {s t : Scope S sh} {v w : S}
variable {m : Move S}

/-- What is known of a run that yields a value. -/
theorem Turns.ran {result : Except Fault α} {ended : Except Fault α × Scope S sh} {a : α}
    (turns : Turns p s result w ended) (ran : ended = (.ok a, t)) :
    result = .ok a ∧ s.Twin t ∧ t.director.Holds p w := by
  obtain ⟨u, known, twin, holds⟩ := turns
  obtain ⟨rfl, rfl⟩ := Prod.mk.inj (ran.symm.trans known)
  exact ⟨rfl, twin, holds a rfl⟩

/-- A score that a trial comes to is that of the solution that the move leads to, and the working
solution is what it was. -/
theorem of_evaluate (lawful : c.problem.Lawful) (varsLawful : vars.Lawful)
    (blind : vars.Blind c.problem) (valid : vars.Valid w) (own : m.Over vars)
    (either : m.KeepsRuns ∨ vars.Separate) (holds : s.director.Holds c.problem w)
    {restored score : Score sh}
    (evaluated : (evaluate c m restored).run.run.run s = (.ok (.ok score), t)) :
    (∃ u, Move.outcome (m.apply w) = .ok u ∧ c.problem.calculate u = .ok score) ∧
      s.Twin t ∧ t.director.Holds c.problem w := by
  obtain ⟨undo, s₁, applied, evaluated⟩ := exists_of_try_bind evaluated
  obtain ⟨accepted, twin₁, holds₁⟩ := (turns_apply lawful holds blind own).ran applied
  obtain ⟨x, s₂, calculated, evaluated⟩ := exists_of_lift_bind evaluated
  obtain ⟨scored, twin₂, holds₂⟩ := (turns_calculate lawful holds₁).ran calculated
  obtain ⟨again, s₃, undone, evaluated⟩ := exists_of_try_bind evaluated
  have result : (m.apply w).result = .ok undo := Config.mapError_eq_ok.1 (Except.ok.inj accepted)
  have back := turns_apply lawful holds₂ blind (Move.over_undo blind own result)
  obtain ⟨accepted', twin₃, holds₃⟩ := back.ran undone
  have result' := Config.mapError_eq_ok.1 (Except.ok.inj accepted')
  have outcome := Move.outcome_eq_ok.2 ⟨again, result', rfl⟩
  rw [Move.solution_of_undone varsLawful own either valid result outcome] at holds₃
  have twin := (twin₁.trans twin₂).trans twin₃
  have reached : ∃ u, Move.outcome (m.apply w) = .ok u ∧ c.problem.calculate u = .ok x :=
    ⟨_, Move.outcome_eq_ok.2 ⟨undo, result, rfl⟩, scored⟩
  split at evaluated
  · obtain ⟨y, s₄, recalculated, evaluated⟩ := exists_of_lift_bind evaluated
    obtain ⟨-, twin₄, holds₄⟩ := (turns_calculate lawful holds₃).ran recalculated
    split at evaluated
    · cases evaluated
    · cases evaluated
      exact ⟨reached, twin.trans twin₄, holds₄⟩
  · cases evaluated
    exact ⟨reached, twin, holds₃⟩

end Search

namespace LocalSearch

variable (p : LocalSearch M S sh) (c : Conditions S sh)

/-! ## What a step is to do -/

/-- A candidate that was drawn. -/
structure Trial (S : Type) (sh : Shape) where
  move : Move S
  /-- If the candidate is doable, the score that it leads to, and whether it was accepted. -/
  verdict : Option (Score sh × Bool)

/-- The candidate with its score, if it was accepted. -/
def Trial.accepted? (t : Trial S sh) : Option (Move S × Score sh) :=
  match t.verdict with
  | some (x, true) => some (t.move, x)
  | _ => none

/-- The accepted ones of some candidates, with their scores. -/
def accepted (trials : List (Trial S sh)) : List (Move S × Score sh) :=
  trials.filterMap Trial.accepted?

/-- What comes of a candidate at a solution. One that is not doable is passed over. Any other one
is counted, its score is that of the solution that it leads to, and the acceptor is asked. -/
inductive Judges (problem : Problem S sh) (a : Acceptor S sh) (w : S) (step : StepContext sh)
    (m : Move S) (g : Random.Generator) :
    Option (Score sh × Bool) → StepContext sh → Random.Generator → Prop
  | idle (still : m.isDoable w = false) : Judges problem a w step m g none step g
  | asked {t : S} {x : Score sh} {yes : Bool} {g' : Random.Generator} (doable : m.isDoable w)
    (reached : Move.outcome (m.apply w) = .ok t) (scored : problem.calculate t = .ok x)
    (said : a.accepts m x { step with selected := step.selected + 1 } g = .ok (yes, g')) :
    Judges problem a w step m g (some (x, yes))
      { step with
        selected := step.selected + 1
        accepted := if yes then step.accepted + 1 else step.accepted } g'

/-- As many candidates were accepted as the forager wants, or one that ends the step at once. -/
def Sated (f : Forager S sh) (step : StepContext sh) (trials : List (Trial S sh)) : Prop :=
  f.limit ≤ (accepted trials).length ∨ ∃ found ∈ accepted trials, f.isEarly found.2 step

/-- There is a reason to draw no further candidate: the budget is used up, or the forager is
sated. -/
def Enough (budget : Option ℕ) (f : Forager S sh) (step : StepContext sh)
    (trials : List (Trial S sh)) : Prop :=
  (∃ n ∈ budget, n ≤ trials.length) ∨ Sated f step trials

/-- What is drawn in a step after some candidates, and all candidates of the step together. As long
as there is no reason to stop and the selector has a candidate, that is drawn and judged. The
selector is asked at the one solution, whatever score may be stored in that, and shares the
generator with the acceptor. -/
inductive Course (a : Acceptor S sh) (w : S) (budget : Option ℕ) (f : Forager S sh)
    (step₀ : StepContext sh) : List (Trial S sh) → StepContext sh → p.moves.State → World M →
      List (Trial S sh) → StepContext sh → Prop
  | full {before : List (Trial S sh)} {step : StepContext sh} {st : p.moves.State} {world : World M}
    (enough : Enough budget f step₀ before) :
    Course a w budget f step₀ before step st world before step
  | ended {before : List (Trial S sh)} {step : StepContext sh} {st st' : p.moves.State}
    {world world' : World M} {s : S} (going : ¬Enough budget f step₀ before)
    (same : c.problem.bare s = w)
    (none : p.moves.next ⟨s, c.patience⟩ st world = .ok ((none, st'), world')) :
    Course a w budget f step₀ before step st world before step
  | drawn {before trials : List (Trial S sh)} {step step' last : StepContext sh}
    {st st' : p.moves.State} {world world' : World M} {s : S} {m : Move S}
    {verdict : Option (Score sh × Bool)} {g : Random.Generator}
    (going : ¬Enough budget f step₀ before) (same : c.problem.bare s = w)
    (next : p.moves.next ⟨s, c.patience⟩ st world = .ok ((some m, st'), world'))
    (judged : Judges c.problem a w step m world'.generator verdict step' g)
    (rest : Course a w budget f step₀ (before ++ [⟨m, verdict⟩]) step' st'
      { world' with generator := g } trials last) :
    Course a w budget f step₀ before step st world trials last

variable {p c} {vars : Variables S} {step step₀ last : StepContext sh} {f f' : Forager S sh}
variable {trials : List (Trial S sh)} {t : Trial S sh} {budget : Option ℕ} {r r' : p.Running}
variable {w : S} {m : Move S} {a : Acceptor S sh}

theorem accepted_concat (trials : List (Trial S sh)) (t : Trial S sh) :
    accepted (trials ++ [t]) = accepted trials ++ t.accepted?.toList := by
  rw [accepted, List.filterMap_append, accepted]
  cases taken : t.accepted? <;> simp [taken]

/-! ## Counts and scores -/

theorem Judges.counts {verdict : Option (Score sh × Bool)} {g g' : Random.Generator}
    (judged : Judges c.problem a w step m g verdict last g') :
    last.selected = step.selected + (if m.isDoable w then 1 else 0) ∧
      last.accepted = step.accepted + (Trial.accepted? ⟨m, verdict⟩).toList.length := by
  cases judged with
  | idle still => simp [still, Trial.accepted?]
  | @asked _ _ yes _ doable _ _ _ => cases yes <;> simp [doable, Trial.accepted?]

theorem Judges.scored {verdict : Option (Score sh × Bool)} {g g' : Random.Generator}
    (judged : Judges c.problem a w step m g verdict last g') {found : Move S × Score sh}
    (taken : Trial.accepted? ⟨m, verdict⟩ = some found) :
    ∃ t, Move.outcome (found.1.apply w) = .ok t ∧ c.problem.calculate t = .ok found.2 := by
  cases judged with
  | idle still => cases taken
  | @asked t x yes _ _ reached scored _ =>
    cases yes with
    | false => cases taken
    | true =>
      obtain rfl := Option.some.inj taken
      exact ⟨t, reached, scored⟩

/-- The counts of a step are those of the doable and of the accepted candidates, of which each has
the score of the solution that it leads to. -/
structure Reckoned (problem : Problem S sh) (w : S) (step : StepContext sh)
    (trials : List (Trial S sh)) (last : StepContext sh) : Prop where
  selected : last.selected = step.selected + trials.countP fun t => t.move.isDoable w
  accepted : last.accepted = step.accepted + (accepted trials).length
  scored : ∀ found ∈ LocalSearch.accepted trials, ∃ t,
    Move.outcome (found.1.apply w) = .ok t ∧ problem.calculate t = .ok found.2

theorem Reckoned.nil (problem : Problem S sh) (w : S) (step : StepContext sh) :
    Reckoned problem w step [] step := ⟨rfl, rfl, List.forall_mem_nil _⟩

theorem Reckoned.concat {verdict : Option (Score sh × Bool)} {g g' : Random.Generator}
    (reckoned : Reckoned c.problem w step₀ trials step)
    (judged : Judges c.problem a w step m g verdict last g') :
    Reckoned c.problem w step₀ (trials ++ [⟨m, verdict⟩]) last := by
  obtain ⟨selected, taken⟩ := judged.counts
  constructor
  · rw [selected, reckoned.selected, List.countP_append, List.countP_singleton, Nat.add_assoc]
  · rw [taken, reckoned.accepted, accepted_concat, List.length_append, Nat.add_assoc]
  · rw [accepted_concat]
    refine List.forall_mem_append.2 ⟨reckoned.scored, fun found member => ?_⟩
    exact judged.scored (Option.mem_toList.1 member)

theorem Course.reckoned {before : List (Trial S sh)} {st : p.moves.State} {world : World M}
    (course : p.Course c a w budget f step₀ before step st world trials last)
    {origin : StepContext sh} (reckoned : Reckoned c.problem w origin before step) :
    Reckoned c.problem w origin trials last := by
  induction course with
  | full enough => exact reckoned
  | ended going same none => exact reckoned
  | drawn going same next judged rest ih => exact ih (reckoned.concat judged)

/-! ## What the forager has -/

/-- What ends a step at once is better than what does not. -/
theorem lt_of_isEarly {x y : Score sh} (early : f.isEarly x step = true)
    (other : f.isEarly y step = false) : y < x := by
  cases wish : f.pickEarly <;> simp only [Forager.isEarly, wish] at early other
  · cases early
  · exact (not_lt.1 (of_decide_eq_false other)).trans_lt (of_decide_eq_true early)
  · exact (not_lt.1 (of_decide_eq_false other)).trans_lt (of_decide_eq_true early)

/-- If a move that ends the step at once beats the one that is kept, the better one of both is kept,
and of equal ones the earlier one. -/
theorem best_add_of_beats {x : Score sh} (beats : f.isEarly x step = true → ∀ kept ∈ f.best, kept.2 < x) :
    (f.add m x step).best = f.best.elim (some (m, x)) fun kept =>
      if kept.2 < x then some (m, x) else some kept := by
  cases best : f.best with
  | none => simp [Forager.add, best]
  | some kept =>
    obtain ⟨m', y⟩ := kept
    by_cases better : y < x
    · simp [Forager.add, best, better]
    · have late : f.isEarly x step = false :=
        Bool.eq_false_iff.2 fun atOnce => better (beats atOnce (m', y) best)
      simp [Forager.add, best, better, late]

/-- The forager has counted the accepted candidates and kept the first of the best ones. Its wishes
are those with which the step began. -/
structure Gathered (f₀ : Forager S sh) (step₀ : StepContext sh) (trials : List (Trial S sh))
    (f : Forager S sh) (step : StepContext sh) : Prop where
  limit : f.limit = f₀.limit
  early : ∀ x, f.isEarly x step = f₀.isEarly x step₀
  count : f.count = (accepted trials).length
  best : f.best = (accepted trials).argmax Prod.snd

/-- The forager after a trial, of which it hears if the candidate was accepted. -/
def fed (f : Forager S sh) (t : Trial S sh) (step : StepContext sh) : Forager S sh :=
  t.accepted?.elim f fun found => f.add found.1 found.2 step

/-- The trial says that the forager has enough. -/
def satisfies (f : Forager S sh) (t : Trial S sh) (step : StepContext sh) : Bool :=
  t.accepted?.isSome && (fed f t step).hasEnough

namespace Gathered

variable {f₀ : Forager S sh} (gathered : Gathered f₀ step₀ trials f step)
  (hungry : ¬Sated f₀ step₀ trials) (early : ∀ x, f.isEarly x last = f.isEarly x step)
include gathered hungry early

/-- An accepted candidate that ends the step at once is better than all before it, none of which
did. -/
theorem fed : Gathered f₀ step₀ (trials ++ [t]) (fed f t last) last := by
  have same (x : Score sh) : f.isEarly x last = f₀.isEarly x step₀ :=
    (early x).trans (gathered.early x)
  unfold LocalSearch.fed
  cases taken : t.accepted? with
  | none =>
    have kept : accepted (trials ++ [t]) = accepted trials := by
      rw [accepted_concat, taken, Option.toList_none, List.append_nil]
    refine ⟨gathered.limit, same, ?_, ?_⟩
    · rw [kept]
      exact gathered.count
    · rw [kept]
      exact gathered.best
  | some found =>
    obtain ⟨m, x⟩ := found
    have more : accepted (trials ++ [t]) = accepted trials ++ [(m, x)] := by
      rw [accepted_concat, taken, Option.toList_some]
    refine ⟨gathered.limit, same, ?_, ?_⟩
    · rw [more, List.length_append, List.length_singleton, ← gathered.count]
      rfl
    · rw [more, List.argmax_concat, ← gathered.best, Option.elim_some, best_add_of_beats]
      · cases f.best <;> rfl
      intro atOnce kept best
      have before : kept ∈ accepted trials := by
        rw [gathered.best] at best
        exact List.argmax_mem best
      refine lt_of_isEarly atOnce ?_
      rw [same, ← Bool.not_eq_true]
      exact fun ended => hungry (.inr ⟨kept, before, ended⟩)

/-- The forager has enough when it is sated. -/
theorem satisfies_iff : satisfies f t last ↔ Sated f₀ step₀ (trials ++ [t]) := by
  unfold satisfies LocalSearch.fed Sated
  rw [accepted_concat]
  cases taken : t.accepted? with
  | none => simpa [Sated] using hungry
  | some found =>
    obtain ⟨m, x⟩ := found
    have none_ : ¬∃ found ∈ accepted trials, f₀.isEarly found.2 step₀ :=
      fun ended => hungry (.inr ended)
    have same : f.isEarly x last = f₀.isEarly x step₀ := (early x).trans (gathered.early x)
    have count := gathered.count
    have limit := gathered.limit
    simp only [Option.isSome_some, Option.elim_some, Bool.true_and, Forager.hasEnough, Forager.add,
      Bool.or_eq_true, decide_eq_true_eq, Option.toList_some, List.length_append,
      List.length_singleton, List.mem_append, List.mem_singleton, or_and_right, exists_or,
      exists_eq_left, none_, false_or, same, count, limit]
    exact or_comm

end Gathered

/-! ## One candidate -/

/-- A candidate is judged as it should be, the working solution is what it was, and the forager
hears of it. -/
theorem judges_judge (lawful : c.problem.Lawful) (varsLawful : vars.Lawful)
    (blind : vars.Blind c.problem) (valid : vars.Valid w) (own : m.Over vars)
    (either : m.KeepsRuns ∨ vars.Separate) (holds : r.scope.director.Holds c.problem w)
    {enough : Bool} (judged : (p.judge c m step).run.run.run r = (.ok (.ok (enough, last)), r')) :
    ∃ verdict, Judges c.problem r.own.acceptor w step m r.scope.generator verdict last
        r'.scope.generator ∧
      r'.scope.director.Holds c.problem w ∧
      r'.own = { r.own with forager := fed r.own.forager ⟨m, verdict⟩ last } ∧
      enough = satisfies r.own.forager ⟨m, verdict⟩ last ∧
      ∀ x, r.own.forager.isEarly x last = r.own.forager.isEarly x step := by
  have doable_eq : m.isDoable r.scope.director.solution = m.isDoable w := by
    rw [holds.solution_eq lawful, Move.isDoable_withScore blind _ own]
  obtain ⟨_, _, ⟨⟩, judged⟩ := exists_of_lift_bind judged
  rw [doable_eq] at judged
  split at judged
  · rename_i doable
    obtain ⟨score, r₁, evaluated, judged⟩ := exists_of_try_bind judged
    obtain ⟨yes, r₂, asked, judged⟩ := exists_of_lift_bind judged
    have own₁ : r₁.own = r.own := (keeps_scoped_attempt _ fun _ _ => rfl).ran evaluated
    obtain ⟨⟨t, reached, scored⟩, twin, holds₁⟩ := Search.of_evaluate lawful varsLawful blind valid
      own either holds (scope_of_onScope evaluated)
    rw [run_accept, own₁, twin.generator] at asked
    split at asked
    · cases asked
    rename_i yes' g said
    cases asked
    have judges := Judges.asked doable reached scored said
    cases yes with
    | false =>
      cases judged
      exact ⟨_, judges, holds₁, by rw [← own₁]; rfl, rfl, fun _ => rfl⟩
    | true =>
      obtain ⟨foraged, r₃, foraging, judged⟩ := exists_of_lift_bind judged
      cases foraging
      cases judged
      exact ⟨_, judges, holds₁, by rw [← own₁]; rfl, by rw [← own₁]; rfl, fun _ => rfl⟩
  · rename_i still
    cases judged
    exact ⟨none, .idle (Bool.not_eq_true _ ▸ still), holds, rfl, rfl, fun _ => rfl⟩

/-! ## The candidates of a step -/

/-- What the selector did, which left alone all but its state, the memory and the generator. -/
theorem of_select {f : Setting S → p.moves.State → Draw M (α × p.moves.State)} {x : α}
    (selected : (p.select c f).run.run r = (.ok x, r')) :
    f ⟨r.scope.director.solution, c.patience⟩ r.own.moves ⟨r.scope.generator, r.own.memory⟩ =
        .ok ((x, r'.own.moves), ⟨r'.scope.generator, r'.own.memory⟩) ∧
      r'.scope.director = r.scope.director ∧ r'.own.acceptor = r.own.acceptor ∧
      r'.own.forager = r.own.forager := by
  rw [Lockstep.run_select] at selected
  split at selected
  · cases selected
  · rename_i found
    cases selected
    exact ⟨found, rfl, rfl, rfl⟩

/-- As long as the forager is not sated, it is the budget that ends a step. -/
theorem enough_iff {left : Option ℕ} (known : left = budget.map (· - trials.length))
    (hungry : ¬Sated f step₀ trials) : Enough budget f step₀ trials ↔ left = some 0 := by
  rw [Enough, or_iff_left hungry, known, Option.map_eq_some_iff]
  simp only [Option.mem_def, Nat.sub_eq_zero_iff_le]

/-- One more trial leaves one less of the budget. -/
theorem left_after {left : Option ℕ} (known : left = budget.map (· - trials.length))
    (t : Trial S sh) : left.map (· - 1) = budget.map (· - (trials ++ [t]).length) := by
  rw [known, Option.map_map, List.length_append]
  rfl

section

variable (lawful : c.problem.Lawful) (varsLawful : vars.Lawful) (blind : vars.Blind c.problem)
variable (valid : vars.Valid w)
include lawful varsLawful blind valid

/-- After a candidate was judged, the forager has what it should have, and knows whether it has
enough. -/
theorem Gathered.judge (gathered : Gathered f step₀ trials r.own.forager step)
    (hungry : ¬Sated f step₀ trials) (own : m.Over vars) (either : m.KeepsRuns ∨ vars.Separate)
    (holds : r.scope.director.Holds c.problem w) {enough : Bool}
    (judged : (p.judge c m step).run.run.run r = (.ok (.ok (enough, last)), r')) :
    ∃ verdict, Judges c.problem r.own.acceptor w step m r.scope.generator verdict last
        r'.scope.generator ∧
      Gathered f step₀ (trials ++ [⟨m, verdict⟩]) r'.own.forager last ∧
      (enough = true ↔ Sated f step₀ (trials ++ [⟨m, verdict⟩])) ∧
      r'.scope.director.Holds c.problem w ∧
      ∃ forager, r'.own = { r.own with forager } := by
  obtain ⟨verdict, judges, holds', kept, stops, early⟩ :=
    judges_judge lawful varsLawful blind valid own either holds judged
  refine ⟨verdict, judges, ?_, ?_, holds', _, kept⟩
  · rw [kept]
    exact gathered.fed hungry early
  · rw [stops]
    exact gathered.satisfies_iff hungry early

/-- Candidates are drawn until there is a reason to stop, or no candidate. Induction carries along
the candidates that were drawn before. -/
theorem Tried.course {rounds : ℕ} {left : Option ℕ} (tried : p.Tried c rounds left step r last r')
    (own : ∀ m ∈ p.drawn c rounds left step r, m.Over vars ∧ (m.KeepsRuns ∨ vars.Separate))
    (holds : r.scope.director.Holds c.problem w) (known : left = budget.map (· - trials.length))
    (gathered : Gathered f step₀ trials r.own.forager step) (hungry : ¬Sated f step₀ trials) :
    ∃ all, p.Course c r.own.acceptor w budget f step₀ trials step r.own.moves
        ⟨r.scope.generator, r.own.memory⟩ all last ∧
      Gathered f step₀ all r'.own.forager last ∧ r'.scope.director.Holds c.problem w := by
  induction tried generalizing trials with
  | full => exact ⟨trials, .full ((enough_iff known hungry).2 rfl), gathered, holds⟩
  | ended some_ found =>
    obtain ⟨next, director, acceptor, forager⟩ := of_select found
    have going := (enough_iff known hungry).not.2 some_
    rw [← acceptor]
    exact ⟨trials, .ended going holds.bare next, forager ▸ gathered, director ▸ holds⟩
  | enough some_ found judged =>
    obtain ⟨next, director, acceptor, forager⟩ := of_select found
    have going := (enough_iff known hungry).not.2 some_
    rw [drawn, if_neg some_, found] at own
    obtain ⟨own_, either⟩ := own _ List.mem_cons_self
    obtain ⟨verdict, judges, gathered', sated, holds', -⟩ := Gathered.judge lawful varsLawful blind
      valid (forager ▸ gathered) hungry own_ either (director ▸ holds) judged
    have full : Sated f step₀ (trials ++ [⟨_, verdict⟩]) := sated.1 rfl
    rw [← acceptor]
    exact ⟨_, .drawn going holds.bare next judges (.full (.inr full)), gathered', holds'⟩
  | further some_ found judged _ ih =>
    obtain ⟨next, director, acceptor, forager⟩ := of_select found
    have going := (enough_iff known hungry).not.2 some_
    simp only [drawn, if_neg some_, found, judged] at own
    obtain ⟨own_, either⟩ := own _ List.mem_cons_self
    obtain ⟨verdict, judges, gathered', sated, holds', forager', kept⟩ := Gathered.judge lawful
      varsLawful blind valid (forager ▸ gathered) hungry own_ either (director ▸ holds) judged
    obtain ⟨all, rest, gathered'', holds''⟩ :=
      ih (fun m member => own m (List.mem_cons_of_mem _ member)) holds' (left_after known _)
        gathered' fun full => Bool.false_ne_true (sated.2 full)
    rw [kept] at rest
    rw [← acceptor]
    exact ⟨all, .drawn going holds.bare next judges rest, gathered'', holds''⟩

end

/-! ## Decisions -/

end LocalSearch

namespace ScoredNecklace

/-- What is painted with which colour; the first one leaves a bead without a colour. -/
def touches : Array (ℕ × Option ℕ) :=
  #[(2, none), (0, some 0), (0, some 1), (1, some 1), (2, some 1)]

/-- Strokes of paint. -/
def strokes : Array (Move ScoredNecklace) :=
  touches.map fun stroke => .change colour stroke.1 stroke.2

/-- Paints until three strokes were accepted. -/
def choosy : LocalSearch Unit ScoredNecklace .simple where
  moves := Selector.source (fun _ => strokes) false
  memory := ()
  acceptor := .hillClimbing
  forager := .ofLimit 3 .never

/-- Nothing has a colour. -/
def blank : choosy.Running where
  scope := { director := { solution := plain }, generator := .ofSeed 0 }
  own := choosy.start

end ScoredNecklace

end PlanSearch
