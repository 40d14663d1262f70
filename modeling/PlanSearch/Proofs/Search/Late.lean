import PlanSearch.Proofs.Assembly.Registered
import PlanSearch.Proofs.Score.Order
import PlanSearch.Proofs.Search.Chronicle
import PlanSearch.Proofs.Search.Log
import PlanSearch.Proofs.Search.Verdicts

/-!
# Late acceptance in a step

Late acceptance compares a candidate with a score of the past. What it remembers are the scores of
the moves that were made. A step in which nothing is accepted leaves no score behind, although it is
counted among the steps; so the score that a candidate is compared with may be older than the size
of the memory says, by as many moves as there were such steps lately.
-/

namespace PlanSearch

variable {M S : Type} {sh : Shape}

/-! ## The scores of a phase -/

namespace LocalSearch

/-- The scores of the moves that were made. -/
def scores (history : List (Option (Acceptor.Made S sh))) : List (Score sh) :=
  history.filterMap fun made => made.bind Acceptor.Made.score

/-- The score of the working solution after the given steps. Where no move is made it stays. -/
def scoreAfter (starting : Score sh) (history : List (Option (Acceptor.Made S sh))) : Score sh :=
  (scores history).getLastD starting

/-- The score that the last but `n` of the moves led to, or the starting score if there were no more
than `n` moves. -/
def scoreBefore (n : ℕ) (starting : Score sh) (history : List (Option (Acceptor.Made S sh))) :
    Score sh := (scores history).reverse.getD n starting

variable {history later : List (Option (Acceptor.Made S sh))} {starting : Score sh}

theorem scores_append : scores (history ++ later) = scores history ++ scores later :=
  List.filterMap_append

theorem scoreBefore_zero : scoreBefore 0 starting history = scoreAfter starting history := by
  rw [scoreBefore, scoreAfter, List.getD_eq_getElem?_getD, ← List.head?_eq_getElem?,
    List.head?_reverse, List.getLastD_eq_getLast?]

theorem scoreAfter_made {made : Acceptor.Made S sh} {score : Score sh}
    (known : made.score = some score) : scoreAfter starting (history ++ [some made]) = score := by
  have only : scores [some made] = [score] := List.filterMap_cons_some known
  rw [scoreAfter, scores_append, only, List.getLastD_concat]

theorem scoreAfter_skipped : scoreAfter starting (history ++ [none]) = scoreAfter starting history := by
  have none_ : scores [(none : Option (Acceptor.Made S sh))] = [] := rfl
  rw [scoreAfter, scores_append, none_, List.append_nil, scoreAfter]

/-- Moves that were made later are passed over. -/
theorem scoreBefore_append (starting : Score sh) (history later : List (Option (Acceptor.Made S sh))) :
    scoreBefore (scores later).length starting (history ++ later) =
      scoreAfter starting history := by
  rw [← scoreBefore_zero, scoreBefore, scoreBefore, scores_append, List.reverse_append,
    List.getD_eq_getElem?_getD, List.getD_eq_getElem?_getD,
    List.getElem?_append_right (List.length_reverse).le, List.length_reverse, Nat.sub_self]

/-- Before the first move the score is the starting score. -/
theorem scoreBefore_of_length_le {n : ℕ} (few : (scores history).length ≤ n) :
    scoreBefore n starting history = starting := by
  rw [scoreBefore, List.getD_eq_getElem?_getD,
    List.getElem?_eq_none (List.length_reverse.trans_le few), Option.getD_none]

theorem length_scores_le : (scores history).length ≤ history.length := List.length_filterMap_le ..

/-- Steps that all made a move with a score left as many scores. -/
theorem length_scores_eq (all : ∀ made ∈ history, (made.bind Acceptor.Made.score).isSome) :
    (scores history).length = history.length := List.filterMap_length_eq_length.2 all

end LocalSearch

/-! ## What is remembered -/

namespace LateAcceptance

/-- The acceptor has begun with the given score and was told the given ones since. From the index on,
around the ring, stand the last of them, the oldest one first; where there were fewer, the starting
score comes before them. The acceptor is otherwise like another one. -/
structure Recalls (a₀ : LateAcceptance sh) (starting : Score sh) (scores : List (Score sh))
    (a : LateAcceptance sh) : Prop where
  size : a.size = a₀.size
  hillClimbing : a.hillClimbing = a₀.hillClimbing
  length : a.history.size = a₀.size
  index : a.index = scores.length % a₀.size
  slots : ∀ j < a₀.size, a.history[(scores.length + j) % a₀.size]? =
    some (scores.reverse.getD (a₀.size - 1 - j) starting)

variable {a₀ a : LateAcceptance sh} {starting last score : Score sh} {scores : List (Score sh)}

theorem recalls_phaseStarted (begun : a₀.phaseStarted starting = .ok a) :
    a₀.Recalls starting [] a := by
  rw [phaseStarted] at begun
  split at begun
  · cases begun
  · cases begun
    refine ⟨rfl, rfl, Array.size_replicate, (Nat.zero_mod _).symm, fun j within => ?_⟩
    have slot : (([] : List (Score sh)).length + j) % a₀.size < a₀.size := Nat.mod_lt _ (by omega)
    rw [Array.getElem?_replicate, if_pos slot, List.reverse_nil, List.getD_nil]

/-- Another slot of the ring than the one that is written. -/
theorem add_mod_ne {n j size : ℕ} (within : j + 1 < size) : (n + (j + 1)) % size ≠ n % size := by
  intro same
  have whole := Nat.sub_mod_eq_zero_of_mod_eq same
  rw [Nat.add_sub_cancel_left, Nat.mod_eq_of_lt within] at whole
  exact Nat.succ_ne_zero j whole

/-- The new score stands where the oldest one stood, and the second oldest one is the oldest one
now. -/
theorem Recalls.stepEnded (recalls : a₀.Recalls starting scores a) (positive : 0 < a₀.size) :
    a₀.Recalls starting (scores ++ [score]) (a.stepEnded score) := by
  have within : a.index < a.history.size := by
    rw [recalls.index, recalls.length]
    exact Nat.mod_lt _ positive
  have length : (scores ++ [score]).length = scores.length + 1 := List.length_append
  rw [LateAcceptance.stepEnded, dif_pos within]
  refine ⟨recalls.size, recalls.hillClimbing, (Array.size_set within).trans recalls.length, ?_,
    fun j near => ?_⟩
  · change (a.index + 1) % a.size = _
    rw [recalls.index, recalls.size, length, Nat.mod_add_mod]
  · rw [length, List.reverse_concat, Array.getElem?_set, recalls.index]
    by_cases newest : j + 1 = a₀.size
    · have around : scores.length + 1 + j = scores.length + a₀.size := by omega
      have first : a₀.size - 1 - j = 0 := by omega
      rw [around, Nat.add_mod_right, if_pos rfl, first, List.getD_cons_zero]
    · have older : scores.length + 1 + j = scores.length + (j + 1) := by omega
      have back : a₀.size - 1 - j = a₀.size - 1 - (j + 1) + 1 := by omega
      rw [older, if_neg (add_mod_ne (by omega)).symm, recalls.slots (j + 1) (by omega), back,
        List.getD_cons_succ]

/-- A candidate is compared with the score that lies as far back as the size says. -/
theorem Recalls.lateScore (recalls : a₀.Recalls starting scores a) (positive : 0 < a₀.size) :
    a.lateScore = some (scores.reverse.getD (a₀.size - 1) starting) := by
  rw [LateAcceptance.lateScore, recalls.index]
  exact recalls.slots 0 positive

theorem Recalls.accepts_iff (recalls : a₀.Recalls starting scores a) (positive : 0 < a₀.size) :
    a.accepts last score = true ↔
      scores.reverse.getD (a₀.size - 1) starting ≤ score ∨
        a₀.hillClimbing = true ∧ last ≤ score := by
  rw [accepts, recalls.lateScore positive, recalls.hillClimbing]
  simp [not_lt]

end LateAcceptance

/-! ## The course of a phase -/

namespace LocalSearch

variable {p : LocalSearch M S sh} {c : Conditions S sh} {index : ℕ} {r r' r'' : p.Running}
variable {history : List (Option (Acceptor.Made S sh))} {starting score : Score sh}
variable {phase next : PhaseContext sh} {step : StepContext sh} {m : Move S}
variable {a₀ : LateAcceptance sh}

theorem last_of_begin (ran : (p.begin c index).run.run r = (.ok (starting, phase), r')) :
    phase.last = some starting := by
  obtain ⟨_, _, _, _, -, -, -, -, rfl⟩ := exists_stages_of_begin ran
  rfl

theorem Begins.lastStep_eq (begins : p.Begins c starting phase r step r') :
    step.lastStep = phase.last.getD starting := by
  obtain ⟨_, _, _, -, -, -, -, -, same, -⟩ := begins.stages
  exact same

theorem lastStep_of_decide {last : StepContext sh} {picked : Option (Move S × Score sh)}
    (ran : (p.decide c step).run.run.run r = (.ok (.ok (picked, last)), r')) :
    last.lastStep = step.lastStep := by
  obtain ⟨_, -, -, -, same⟩ := TryTells.exists_adds Running.scope (p.tryTells_decide c step) ran
  exact same

theorem last_of_make (ran : (p.make c phase step m score).run.run.run r = (.ok (.ok next), r')) :
    next.last = some score := by
  obtain ⟨_, _, _, _, _, _, _, -, -, -, -, -, -, rfl⟩ := exists_stages_of_make ran
  rfl

theorem last_of_skip (ran : (p.skip c phase step).run.run r = (.ok next, r')) :
    next.last = some step.lastStep := by
  obtain ⟨_, _, -, -, -, rfl⟩ := exists_stages_of_skip ran
  rfl

/-- A phase counts its steps, and goes by the score of the last move that was made. -/
theorem Chronicle.counts (chronicle : p.Chronicle c index r history starting phase r') :
    phase.steps = history.length ∧ phase.last = some (scoreAfter starting history) := by
  induction chronicle with
  | begun begun => exact ⟨(begin_ok begun).1, last_of_begin begun⟩
  | step before completes ih =>
    obtain ⟨count, last⟩ := ih
    rw [List.length_append, List.length_singleton]
    cases completes with
    | made begins decided applied made =>
      refine ⟨by rw [(make_ok applied made).1, count], ?_⟩
      rw [last_of_make made, scoreAfter_made rfl]
    | skipped begins decided tried waits skipped =>
      refine ⟨by rw [(skip_ok skipped).1, count], ?_⟩
      rw [last_of_skip skipped, lastStep_of_decide decided, begins.lastStep_eq, last,
        scoreAfter_skipped, Option.getD_some]

/-- Every move that was made has a score. -/
theorem Chronicle.isSome_score (chronicle : p.Chronicle c index r history starting phase r')
    {made : Option (Acceptor.Made S sh)} (member : made ∈ history) (some_ : made.isSome = true) :
    (made.bind Acceptor.Made.score).isSome = true := by
  induction chronicle with
  | begun _ => cases member
  | step before completes ih =>
    rcases List.mem_append.1 member with earlier | last
    · exact ih earlier
    · obtain rfl := List.mem_singleton.1 last
      cases completes with
      | made _ _ _ _ => rfl
      | skipped _ _ _ _ _ => cases some_

/-- The acceptor remembers the scores of all moves that were made since the phase began. -/
theorem Chronicle.recalls (chronicle : p.Chronicle c index r history starting phase r')
    (there : r.own.acceptor = .lateAcceptance a₀) (positive : 0 < a₀.size) :
    ∃ a, r'.own.acceptor = .lateAcceptance a ∧ a₀.Recalls starting (scores history) a := by
  induction chronicle with
  | begun begun =>
    have anew := (begin_ok begun).2
    rw [there, Acceptor.phaseStarted] at anew
    cases started : a₀.phaseStarted _ with
    | error e =>
      rw [started] at anew
      cases anew
    | ok a =>
      rw [started] at anew
      exact ⟨a, (Except.ok.inj anew).symm, LateAcceptance.recalls_phaseStarted started⟩
  | step before completes ih =>
    obtain ⟨a, known, recalls⟩ := ih
    rw [scores_append]
    cases completes with
    | made begins decided applied made =>
      obtain ⟨-, -, told, -⟩ := begins.ok
      obtain ⟨-, told'⟩ := make_ok applied made
      rw [(p.keeps_acceptor_decide c _).ran decided, told, known] at told'
      exact ⟨_, told', recalls.stepEnded positive⟩
    | skipped begins decided tried waits skipped =>
      obtain ⟨-, -, told, -⟩ := begins.ok
      obtain ⟨-, told'⟩ := skip_ok skipped
      rw [(p.keeps_acceptor_decide c _).ran decided, told, known] at told'
      exact ⟨a, told', (List.append_nil (scores _)).symm ▸ recalls⟩

/-- In a local search with late acceptance, a candidate is accepted if it is as good as the score
that the last move but as many led to as the size says, less one; with hill climbing, also if it is
as good as the last step. That is the score after the step so many steps ago, unless no move was made
in one of the steps since: only moves are remembered, not steps. -/
theorem accepted_iff_late (p : LocalSearch M S sh) (c : Conditions S sh) (index : ℕ) (r : p.Running)
    (a₀ : LateAcceptance sh) (there : r.own.acceptor = .lateAcceptance a₀) (positive : 0 < a₀.size)
    (history : List (Option (Acceptor.Made S sh))) (starting : Score sh) (phase : PhaseContext sh)
    (r' : p.Running) (chronicle : p.Chronicle c index r history starting phase r')
    (step : StepContext sh) (r'' : p.Running) (begins : p.Begins c starting phase r' step r'') :
    let late := scoreBefore (a₀.size - 1) starting history
    let since := step.index + 1 - a₀.size
    step.index = history.length ∧ step.lastStep = scoreAfter starting history ∧
      (∀ v ∈ p.verdicts c step r'', v.accepted = true ↔
        late ≤ v.score ∨ a₀.hillClimbing = true ∧ scoreAfter starting history ≤ v.score) ∧
      (step.index < a₀.size ∨ (∀ made ∈ history.drop since, made.isSome = true) →
        late = scoreAfter starting (history.take since)) := by
  intro late since
  obtain ⟨count, last⟩ := chronicle.counts
  obtain ⟨number, -, told, -⟩ := begins.ok
  obtain ⟨a, known, recalls⟩ := chronicle.recalls there positive
  have index : step.index = history.length := number.trans count
  have lastStep : step.lastStep = scoreAfter starting history := by
    rw [begins.lastStep_eq, last, Option.getD_some]
  refine ⟨index, lastStep, fun v member => ?_, fun close => ?_⟩
  · obtain ⟨now, g, g', same, -, said⟩ := askedOf_of_mem_verdicts member
    rw [told, known] at said
    have accepts : a.accepts now.lastStep v.score = v.accepted := congrArg Prod.fst (Except.ok.inj said)
    rw [← accepts, recalls.accepts_iff positive, same, lastStep]
    rfl
  · by_cases early : step.index < a₀.size
    · have none : since = 0 := by omega
      have few : (scores history).length ≤ a₀.size - 1 := by
        have counted : (scores history).length ≤ history.length := length_scores_le
        omega
      rw [none, List.take_zero]
      exact scoreBefore_of_length_le few
    · have all := close.resolve_left early
      have length : (scores (history.drop since)).length = a₀.size - 1 := by
        rw [length_scores_eq fun made later =>
          chronicle.isSome_score (List.mem_of_mem_drop later) (all made later), List.length_drop]
        omega
      have split := scoreBefore_append starting (history.take since) (history.drop since)
      rwa [length, List.take_append_drop] at split

end LocalSearch

/-- Offers the given moves, one after the other. -/
def Selector.offering (moves : List (Move S)) : Selector Unit S (Move S) where
  State := List (Move S)
  start := moves
  neverEnding := false
  size _ left := .ok left.length
  handle _ _ left := pure left
  restart _ left := pure left
  next _ left := pure (left.head?, left.tail)
  describe _ := "OfferingSelector"

namespace ScoredNecklace

/-- Compares a candidate with the score two steps ago: first one that is better by one, then one that
is worse by two, then one that is worse by one. -/
def comparing : LocalSearch Unit ScoredNecklace .simple where
  moves := .offering [.change colour 2 (some 1),
    .composite [.change colour 0 (some 0), .change colour 1 (some 0)], .change colour 1 (some 0)]
  memory := ()
  acceptor := .lateAcceptance (.ofSize 2 false)
  forager := .ofLimit 1 .never
  selectedLimit := some 1
  termination := some (.stepCount 5)

/-- Two have the second colour. -/
def halfPainted : comparing.Running where
  scope := {
    director := { solution := colour.set (colour.set plain 0 (some 1)) 1 (some 1) }
    generator := .ofSeed 0 }
  own := comparing.start

/-- After a step in which nothing was accepted, a candidate is accepted that is worse than the
solution was two steps ago. -/
theorem accepted_iff_late_comparing : ∃ made starting phase r' step r'',
    comparing.Chronicle { around with } 0 halfPainted [some made, none] starting phase r' ∧
      comparing.Begins { around with } starting phase r' step r'' ∧ step.index = 2 ∧
      ∃ v ∈ comparing.verdicts { around with } step r'', v.accepted = true ∧
        v.score < LocalSearch.scoreAfter starting [some made] := by
  let c : Conditions ScoredNecklace .simple := { around with }
  let two : Score .simple := .ofLevel 2
  let phase₀ : PhaseContext .simple := .ofStart 0 LocalSearch.kind 0 (some two)
  let r₀ := ((comparing.begin c 0).run.run halfPainted).2
  have begun : (comparing.begin c 0).run.run halfPainted = (.ok (two, phase₀), r₀) := rfl
  have ran : (comparing.completed c two phase₀ r₀).any (fun x =>
      x.1.last = some (.ofLevel 3) && (comparing.completed c two x.1 x.2).any fun y =>
        y.1.last = some (.ofLevel 3) && (comparing.opened c two y.1 y.2).any fun z =>
          (comparing.verdicts c z.1 z.2).any fun v => v.accepted && v.score = .ofLevel 2) = true := by
    decide +kernel
  obtain ⟨⟨next, r₁⟩, done, ran⟩ := (Option.any_eq_true ..).1 ran
  obtain ⟨last, ran⟩ := Bool.and_eq_true_iff.1 ran
  obtain ⟨⟨next', r₂⟩, done', ran⟩ := (Option.any_eq_true ..).1 ran
  obtain ⟨last', ran⟩ := Bool.and_eq_true_iff.1 ran
  obtain ⟨⟨step, r₃⟩, opened, ran⟩ := (Option.any_eq_true ..).1 ran
  obtain ⟨v, member, ran⟩ := List.any_eq_true.1 ran
  obtain ⟨accepted, score⟩ := Bool.and_eq_true_iff.1 ran
  obtain ⟨made, completes⟩ := LocalSearch.exists_completes_of_completed done
  obtain ⟨made', completes'⟩ := LocalSearch.exists_completes_of_completed done'
  have chronicle := LocalSearch.Chronicle.step (.begun begun) completes
  have chronicle' := chronicle.step completes'
  have begins := LocalSearch.begins_of_opened opened
  have after := chronicle.counts.2.symm.trans (of_decide_eq_true last)
  have score := of_decide_eq_true score
  cases made with
  | none => cases after
  | some made =>
    obtain ⟨index, -, verdict, -⟩ := LocalSearch.accepted_iff_late comparing c 0 halfPainted
      (.ofSize 2 false) rfl (by decide) _ two next' r₂ chronicle' step r₃ begins
    have lower : v.score < LocalSearch.scoreAfter two [some made] := by
      have after := Option.some.inj after
      rw [List.nil_append] at after
      rw [after, score]
      decide
    cases made' with
    | none =>
      exact ⟨made, two, next', r₂, step, r₃, chronicle', begins, index, v, member, accepted, lower⟩
    | some made' =>
      -- had a move been made in the second step, the one before it would count
      have known := chronicle'.isSome_score (List.mem_append_right _ (List.mem_singleton_self _)) rfl
      obtain ⟨x, known⟩ := Option.isSome_iff_exists.1 known
      have scores : LocalSearch.scores [some made'] = [x] := List.filterMap_cons_some known
      have before := LocalSearch.scoreBefore_append two [some made] [some made']
      rw [scores] at before
      obtain late | climbs := (verdict v member).1 accepted
      · exact absurd (before ▸ late) lower.not_ge
      · cases climbs.1

end ScoredNecklace

end PlanSearch
