import PlanSearch.Proofs.Search.Candidates
import PlanSearch.Proofs.Search.Chronicle

/-!
# The verdicts of a step

A candidate that is doable is evaluated, and the acceptor is asked about it. The verdicts of a step
list what came of each candidate, in the order in which they were drawn. They are as many as the
step counts, and every one of them is what the acceptor says with which the step began.
-/

namespace PlanSearch.LocalSearch

variable {M S : Type} {sh : Shape} (p : LocalSearch M S sh) (c : Conditions S sh)

/-- A candidate that was evaluated, its score, and whether it was accepted. -/
structure Verdict (S : Type) (sh : Shape) where
  move : Move S
  score : Score sh
  accepted : Bool

/-- What comes of a candidate: it is evaluated if it is doable. -/
def verdict (m : Move S) (step : StepContext sh) (r : p.Running) : Option (Verdict S sh) :=
  if m.isDoable r.scope.director.solution then
    match (p.attempt (Search.evaluate c m step.lastStep)).run.run.run r with
    | (.ok (.ok score), r) =>
      match (p.accept m score { step with selected := step.selected + 1 }).run.run r with
      | (.ok accepted, _) => some ⟨m, score, accepted⟩
      | _ => none
    | _ => none
  else none

/-- What comes of the candidates in at most so many rounds, of which so many are left. -/
def verdictsIn : ℕ → Option ℕ → StepContext sh → p.Running → List (Verdict S sh)
  | 0, _, _, _ => []
  | rounds + 1, left, step, r =>
    if left = some 0 then []
    else match (p.nextCandidate c).run.run r with
      | (.ok (some m), r) =>
        (p.verdict c m step r).toList ++ match (p.judge c m step).run.run.run r with
          | (.ok (.ok (false, step)), r) => verdictsIn rounds (left.map (· - 1)) step r
          | _ => []
      | _ => []

/-- What comes of the candidates that are evaluated in a step. -/
def verdicts (step : StepContext sh) (r : p.Running) : List (Verdict S sh) :=
  match p.budget.run.run r with
  | (.ok budget, r) =>
    match (p.select c fun set st => do return ((), ← p.moves.restart set st)).run.run r with
    | (.ok (), r) => p.verdictsIn c c.patience budget step r
    | _ => []
  | _ => []

variable {p c} {r r' : p.Running} {step : StepContext sh} {m : Move S}

/-- A step counts the candidates that it has evaluated, and those that were accepted. -/
structure Counted (step : StepContext sh) (found : List (Verdict S sh)) (last : StepContext sh) :
    Prop where
  selected : last.selected = step.selected + found.length
  accepted : last.accepted = step.accepted + found.countP Verdict.accepted
  lastStep : last.lastStep = step.lastStep
  best : last.best = step.best

theorem Counted.trans {last last' : StepContext sh} {found more : List (Verdict S sh)}
    (first : Counted step found last) (rest : Counted last more last') :
    Counted step (found ++ more) last' where
  selected := by rw [rest.selected, first.selected, List.length_append, Nat.add_assoc]
  accepted := by rw [rest.accepted, first.accepted, List.countP_append, Nat.add_assoc]
  lastStep := rest.lastStep.trans first.lastStep
  best := rest.best.trans first.best

theorem counted_judge {enough : Bool} {last : StepContext sh}
    (judged : (p.judge c m step).run.run.run r = (.ok (.ok (enough, last)), r')) :
    Counted step (p.verdict c m step r).toList last ∧ r'.own.acceptor = r.own.acceptor := by
  obtain ⟨_, _, ⟨⟩, judged⟩ := exists_of_lift_bind judged
  rw [verdict]
  split at judged
  · rename_i doable
    obtain ⟨score, r₁, evaluated, judged⟩ := exists_of_try_bind judged
    obtain ⟨accepted, r₂, asked, judged⟩ := exists_of_lift_bind judged
    have own₁ : r₁.own = r.own := (keeps_scoped_attempt _ fun _ _ => rfl).ran evaluated
    have own₂ : r₂.own = r₁.own := (keeps_accept m score _ fun _ _ => rfl).ran asked
    rw [if_pos doable, evaluated]
    dsimp only
    rw [asked]
    cases accepted with
    | false =>
      cases judged
      exact ⟨⟨rfl, rfl, rfl, rfl⟩, by rw [own₂, own₁]⟩
    | true =>
      obtain ⟨foraged, r₃, foraging, judged⟩ := exists_of_lift_bind judged
      have kept : r₃.own.acceptor = r₂.own.acceptor :=
        congrArg Prod.fst ((p.keeps_record_forage m score _).ran foraging)
      cases judged
      exact ⟨⟨rfl, rfl, rfl, rfl⟩, by rw [kept, own₂, own₁]⟩
  · rename_i refused
    cases judged
    rw [if_neg refused]
    exact ⟨⟨rfl, rfl, rfl, rfl⟩, rfl⟩

/-- No evaluation is left out, and none is made up. -/
theorem Tried.counted {rounds : ℕ} {left : Option ℕ} {last : StepContext sh}
    (tried : p.Tried c rounds left step r last r') :
    Counted step (p.verdictsIn c rounds left step r) last := by
  induction tried with
  | full => exact ⟨rfl, rfl, rfl, rfl⟩
  | ended some_ found =>
    simp only [verdictsIn, if_neg some_, found]
    exact ⟨rfl, rfl, rfl, rfl⟩
  | enough some_ found judged =>
    simp only [verdictsIn, if_neg some_, found, judged, List.append_nil]
    exact (counted_judge judged).1
  | further some_ found judged _ ih =>
    simp only [verdictsIn, if_neg some_, found, judged]
    exact (counted_judge judged).1.trans ih

/-- A candidate is accepted if the acceptor says so that the step began with. -/
def AskedOf (a : Acceptor S sh) (step : StepContext sh) (v : Verdict S sh) : Prop :=
  ∃ now g g', now.lastStep = step.lastStep ∧ now.best = step.best ∧
    a.accepts v.move v.score now g = .ok (v.accepted, g')

theorem askedOf_verdict {v : Verdict S sh} (found : p.verdict c m step r = some v) :
    AskedOf r.own.acceptor step v := by
  rw [verdict] at found
  split at found
  · split at found
    · rename_i score r₁ evaluated
      have own₁ : r₁.own = r.own := (keeps_scoped_attempt _ fun _ _ => rfl).ran evaluated
      split at found
      · rename_i accepted r₂ asked
        obtain rfl := Option.some.inj found
        rw [run_accept, own₁] at asked
        split at asked
        · cases asked
        · rename_i yes g' said
          obtain ⟨⟨⟩, -⟩ := Prod.mk.inj asked
          exact ⟨{ step with selected := step.selected + 1 }, _, g', rfl, rfl, said⟩
      · cases found
    · cases found
  · cases found

theorem askedOf_of_mem_verdictsIn {rounds : ℕ} {left : Option ℕ} {v : Verdict S sh}
    (member : v ∈ p.verdictsIn c rounds left step r) : AskedOf r.own.acceptor step v := by
  induction rounds generalizing left step r with
  | zero => cases member
  | succ rounds ih =>
    rw [verdictsIn] at member
    split at member
    · cases member
    · split at member
      · rename_i m r₁ drawn
        have same : r₁.own.acceptor = r.own.acceptor :=
          congrArg Prod.fst ((keeps_judges_select c _).ran drawn)
        rw [← same]
        rcases List.mem_append.1 member with here | later
        · exact askedOf_verdict (Option.mem_toList.1 here)
        · split at later
          · rename_i step' r₂ judged
            obtain ⟨counted, kept⟩ := counted_judge judged
            obtain ⟨now, g, g', lastStep, best, said⟩ := ih later
            rw [kept] at said
            exact ⟨now, g, g', lastStep.trans counted.lastStep, best.trans counted.best, said⟩
          · cases later
      · cases member

/-- The acceptor that a step began with is asked about every candidate that is evaluated. -/
theorem askedOf_of_mem_verdicts {v : Verdict S sh} (member : v ∈ p.verdicts c step r) :
    AskedOf r.own.acceptor step v := by
  rw [verdicts] at member
  split at member
  · rename_i budget r₁ known
    have judges : r₁.judges = r.judges := keeps_budget.ran known
    have same₁ : r₁.own.acceptor = r.own.acceptor := congrArg Prod.fst judges
    split at member
    · rename_i r₂ restarted
      have same₂ : r₂.own.acceptor = r₁.own.acceptor :=
        congrArg Prod.fst ((keeps_judges_select c _).ran restarted)
      rw [← same₁, ← same₂]
      exact askedOf_of_mem_verdictsIn member
    · cases member
  · cases member

/-- A step that is decided has counted its verdicts. -/
theorem counted_decide {picked : Option (Move S × Score sh)} {last : StepContext sh}
    (decided : (p.decide c step).run.run.run r = (.ok (.ok (picked, last)), r')) :
    Counted step (p.verdicts c step r) last := by
  obtain ⟨budget, u₁, u₂, u₃, known, restarted, tried, -⟩ := exists_stages_of_decide decided
  rw [verdicts, known]
  dsimp only
  rw [restarted]
  exact (tried_of_tryCandidates tried).counted

end PlanSearch.LocalSearch
