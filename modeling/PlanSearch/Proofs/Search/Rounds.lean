import Mathlib.Data.List.Perm.Basic
import PlanSearch.Search.Solver

/-!
# Step after step

A phase repeats a round until one of them does not complete a step. The trail of a run lists the
states in which it completed its steps: what is counted in the phase, and the state of the search.
-/

namespace PlanSearch

variable {M S σ : Type} {sh : Shape}

/-- A completed step: the phase and the state of the search after it. -/
abbrev Milestone (S : Type) (sh : Shape) := PhaseContext sh × Scope S sh

section Repeat

variable (round : PhaseContext sh →
  ExceptT PlanError (ExceptT Fault (StateM σ)) (Option (PhaseContext sh)))

/-- Repeats a round, at most so many times, until one does not complete a step. -/
def repeatRound : Nat → PhaseContext sh → ExceptT PlanError (ExceptT Fault (StateM σ)) Unit
  | 0, _ => ExceptT.lift (throw .exhausted)
  | rounds + 1, phase => do
    match ← round phase with
    | none => return
    | some phase => repeatRound rounds phase

/-- The states after the rounds that complete a step, where `view` is the state of the search. -/
def milestones (view : σ → Scope S sh) : Nat → PhaseContext sh → σ → List (Milestone S sh)
  | 0, _, _ => []
  | rounds + 1, phase, s =>
    match (round phase).run.run.run s with
    | (.ok (.ok (some phase)), s) => (phase, view s) :: milestones view rounds phase s
    | _ => []

end Repeat

/-- Taking a move out gives the move at that place and leaves the others, in another order. -/
theorem Placement.exists_take_eq_ok {placement : Placement S} {place : Nat} {m : Move S}
    (there : placement.moves[place]? = some m) :
    ∃ rest, placement.take place = .ok (m, rest) ∧ rest.entity = placement.entity ∧
      placement.moves.toList.Perm (m :: rest.moves.toList) := by
  obtain ⟨within, rfl⟩ := Array.getElem?_eq_some_iff.1 there
  obtain ⟨init, last, moves⟩ : ∃ init last, placement.moves.toList = init ++ [last] :=
    ⟨_, _, (List.dropLast_concat_getLast (List.ne_nil_of_length_pos
      (Nat.zero_lt_of_lt (Array.length_toList ▸ within)))).symm⟩
  have back : placement.moves.back? = some last := by
    rw [← Array.getLast?_toList, moves, List.getLast?_concat]
  refine ⟨{ placement with moves := (placement.moves.setIfInBounds place last).pop }, ?_, rfl, ?_⟩
  · rw [take, there, back]
  · rw [Array.toList_pop, Array.toList_setIfInBounds, ← Array.getElem_toList]
    simp only [moves]
    by_cases final : place < init.length
    · rw [List.set_append_left _ _ final, List.dropLast_concat, List.getElem_append_left final]
      exact (List.perm_append_singleton ..).trans
        (((List.getElem_cons_eraseIdx_perm final).symm.cons last).trans
        ((List.Perm.swap ..).trans ((List.set_perm_cons_eraseIdx final last).symm.cons _)))
    · have count : placement.moves.size = init.length + 1 := by
        rw [← Array.length_toList, moves, List.length_append, List.length_singleton]
      obtain rfl : place = init.length := by omega
      rw [List.set_append_right _ _ (Nat.le_refl _), Nat.sub_self, List.set_cons_zero,
        List.dropLast_concat, List.getElem_concat_length rfl]
      exact List.perm_append_singleton ..

namespace Construction

/-! ## The winner of a step -/

/-- The first of the best moves that change something, and not only its place. -/
def bestMove (c : Conditions S sh) (last : Score sh) :
    List (Move S) → Option (Move S × Score sh) → Attempt S sh (Option (Move S × Score sh))
  | [], winner => return winner
  | m :: rest, winner => do
    if m.isDoable (← getThe (Scope S sh)).director.solution then
      let score ← Search.evaluate c m last
      let improves := match winner with
        | none => true
        | some (_, best) => decide (best < score)
      bestMove c last rest (if improves then some (m, score) else winner)
    else bestMove c last rest winner

/-- A place and its score stand for the move at that place and the same score. -/
def Marks (moves : Array (Move S)) : Option (Nat × Score sh) → Option (Move S × Score sh) → Prop :=
  Option.Rel fun marked winner => moves[marked.1]? = some winner.1 ∧ marked.2 = winner.2

variable {c : Conditions S sh} {last : Score sh} {α : Type}

/-- Whatever comes next, looking for the place of the best move amounts to looking for the move, as
long as every move comes with its own place. -/
theorem bestOf_bind {moves : Array (Move S)} {k : Option (Nat × Score sh) → Attempt S sh α}
    {k' : Option (Move S × Score sh) → Attempt S sh α}
    (agree : ∀ place winner, Marks moves place winner → k place = k' winner)
    (listed : List (Move S × Nat)) (own : ∀ entry ∈ listed, moves[entry.2]? = some entry.1)
    {place : Option (Nat × Score sh)} {winner : Option (Move S × Score sh)}
    (marks : Marks moves place winner) :
    bestOf c last listed place >>= k = bestMove c last (listed.map Prod.fst) winner >>= k' := by
  induction listed generalizing place winner with
  | nil =>
    rw [List.map_nil, bestOf, bestMove, pure_bind, pure_bind]
    exact agree place winner marks
  | cons entry rest ih =>
    obtain ⟨m, i⟩ := entry
    obtain ⟨here, others⟩ := List.forall_mem_cons.1 own
    rw [List.map_cons, bestOf, bestMove, bind_assoc, bind_assoc]
    refine congrArg _ (funext fun s => ?_)
    split
    · rw [bind_assoc, bind_assoc]
      refine congrArg _ (funext fun score => ih others ?_)
      cases marks with
      | none => exact .some ⟨here, rfl⟩
      | @some x y same =>
        simp only [same.2]
        split
        · exact .some ⟨here, rfl⟩
        · exact .some same
    · exact ih others marks

/-- A step makes the best move. -/
theorem step_eq (c : Conditions S sh) (phase : PhaseContext sh) (placement : Placement S)
    (last : Score sh) : step c phase placement last = (do
      Search.fire c (.stepStarted phase.steps)
      match ← bestMove c last placement.moves.toList none with
      | none => throw (.noPlacement phase.index placement.entity)
      | some (m, score) =>
        let _ ← Search.apply m
        Search.assertScore c score
        complete c phase score) := by
  have own : ∀ entry ∈ placement.moves.toList.zipIdx, placement.moves[entry.2]? = some entry.1 := by
    rintro ⟨m, i⟩ member
    rw [← Array.getElem?_toList]
    exact List.mem_zipIdx_iff_getElem?.1 member
  conv => rhs; rw [← List.zipIdx_map_fst 0 placement.moves.toList]
  refine congrArg _ (funext fun _ => bestOf_bind (fun place winner marks => ?_) _ own .none)
  cases marks with
  | none => rfl
  | @some x y same =>
    obtain ⟨rest, taken, -⟩ := Placement.exists_take_eq_ok same.1
    have move : (takeMove placement x.1 : Search S sh (Move S)) = pure y.1 := by
      rw [takeMove, taken]
      rfl
    dsimp only
    rw [move, same.2]
    rfl

/-! ## Rounds -/

/-- Begins the phase. -/
def begin (c : Conditions S sh) (index : Nat) : Attempt S sh (Score sh × PhaseContext sh) := do
  let starting ← Search.calculate c
  let phase := PhaseContext.ofStart index kind (← Search.now c) (some starting)
  Search.fire c (.phaseStarted index kind)
  return (starting, phase)

/-- Completes a step, unless the phase is to stop or every entity has a value. -/
def round (c : Conditions S sh) (p : Construction S sh) (starting : Score sh)
    (phase : PhaseContext sh) : Attempt S sh (Option (PhaseContext sh)) := do
  if ← PhaseContext.isTerminated c p.termination phase then return none
  match p.placer.next (← getThe (Scope S sh)).director.solution with
  | none => return none
  | some placement => return some (← step c phase placement (phase.last.getD starting))

/-- The states after the steps of a run. -/
def trail (c : Conditions S sh) (p : Construction S sh) (index : Nat) (s : Scope S sh) :
    List (Milestone S sh) :=
  match (begin c index).run.run.run s with
  | (.ok (.ok (starting, phase)), s) => milestones (p.round c starting) id c.patience phase s
  | _ => []

variable (c : Conditions S sh) (p : Construction S sh)

theorem run_eq (index : Nat) : p.run c index = (do
    let (starting, phase) ← begin c index
    p.steps c starting c.patience phase
    Search.fire c (.phaseEnded index kind)) := by
  simp only [run, begin, bind_assoc, pure_bind]

/-- The phase repeats its round. -/
theorem steps_eq (starting : Score sh) (rounds : Nat) (phase : PhaseContext sh) :
    p.steps c starting rounds phase = repeatRound (p.round c starting) rounds phase := by
  induction rounds generalizing phase with
  | zero => rfl
  | succ rounds ih =>
    simp only [steps, repeatRound, round, bind_assoc, ← ih]
    congr
    funext stop
    cases stop with
    | true => simp
    | false =>
      simp only [Bool.false_eq_true, if_false, bind_assoc]
      congr
      funext s
      cases p.placer.next s.director.solution <;> simp

end Construction

namespace LocalSearch

variable (p : LocalSearch M S sh)

/-- Completes a step, unless the phase is to stop, there is no move to make, or nothing is accepted
although no termination would ever end the phase. -/
def round (c : Conditions S sh) (starting : Score sh) (phase : PhaseContext sh) :
    p.Trying (Option (PhaseContext sh)) := do
  if ← p.perform (p.onScope (PhaseContext.isTerminated c p.termination phase)) then return none
  let step ← p.perform (p.beginStep c phase starting)
  match ← p.decide c step with
  | (some (m, score), step) => return some (← p.make c phase step m score)
  | (none, step) =>
    if step.selected = 0 then
      p.perform (p.stepEnded c none)
      if ← p.perform (p.onScope (Search.isInitialized c)) then return none
      p.perform (p.phaseEnded c)
      throw (.noDoableMove phase.index)
    else if p.termination.isNone && c.termination.isNone then
      p.perform (p.stepEnded c none)
      return none
    else return some (← p.perform (p.skip c phase step))

/-- The states after the steps of a run. -/
def trail (c : Conditions S sh) (index : Nat) (r : p.Running) : List (Milestone S sh) :=
  match (p.begin c index).run.run r with
  | (.ok (starting, phase), r) =>
    milestones (p.round c starting) Running.scope c.patience phase r
  | _ => []

/-- The phase repeats its round. -/
theorem steps_eq (c : Conditions S sh) (starting : Score sh) (rounds : Nat)
    (phase : PhaseContext sh) :
    p.steps c starting rounds phase = repeatRound (p.round c starting) rounds phase := by
  induction rounds generalizing phase with
  | zero => rfl
  | succ rounds ih =>
    simp only [steps, repeatRound, round, bind_assoc, ← ih]
    congr
    funext stop
    cases stop with
    | true => simp
    | false =>
      simp only [Bool.false_eq_true, if_false, bind_assoc]
      congr
      funext step
      congr
      funext decided
      obtain ⟨_ | ⟨m, score⟩, step⟩ := decided
      · dsimp only
        split
        · simp only [bind_assoc]
          congr
          funext _
          congr
          funext initialized
          cases initialized <;> simp
        · split <;> simp
      · simp

end LocalSearch

/-- The states after the steps of a phase. -/
def Phase.trail (c : Conditions S sh) (index : Nat) (scope : Scope S sh) :
    (p : Phase M S sh) → p.State → List (Milestone S sh)
  | .construction p, _ => p.trail c index scope
  | .localSearch p, own => p.trail c index ⟨scope, own⟩

namespace Solver

/-- The states after the steps of all phases that are run. -/
def trailAll (c : Conditions S sh) : (phases : List (Phase M S sh)) → Nat → Scope S sh →
    PhaseStates phases → List (Milestone S sh)
  | [], _, _, _ => []
  | p :: rest, index, scope, (st, sts) =>
    match (Search.isTerminated c).run scope with
    | (.ok false, scope) =>
      let ended := p.run c index scope st
      p.trail c index scope st ++ match ended.result with
        | .ok (.ok ()) => trailAll c rest (index + 1) ended.scope sts
        | _ => []
    | _ => []

/-- The conditions under which a solver runs its phases. -/
def conditions (solver : Solver M S sh) (around : Surroundings S sh) : Conditions S sh :=
  { around with termination := solver.termination, mode := solver.mode }

/-- The state of the search before a run on a solution. -/
def opening (solver : Solver M S sh) (entropy : Nat) (solution : S) : Scope S sh :=
  { director := { solution }
    generator := Random.Generator.ofSeed (solver.seed.getD entropy).toUInt64 }

/-- The states after the steps of a run. -/
def trail (solver : Solver M S sh) (around : Surroundings S sh) (entropy : Nat) (solution : S)
    (st : solver.State) : List (Milestone S sh) :=
  if st.interrupted then []
  else match (Search.start (solver.conditions around)).run (solver.opening entropy solution) with
    | (.ok (), scope) => trailAll (solver.conditions around) solver.phases 0 scope st.phases
    | _ => []

/-- A run, with the conditions and the first state by name. -/
theorem solve_eq (solver : Solver M S sh) (around : Surroundings S sh) (entropy : Nat)
    (solution : S) (st : solver.State) :
    solver.solve around entropy solution st =
      if st.interrupted then .ok (⟨.error .cancelled, []⟩, { st with interrupted := false })
      else match (Search.start (solver.conditions around)).run (solver.opening entropy solution) with
        | (.error fault, scope) => .error ⟨fault, scope.events.toList⟩
        | (.ok (), scope) =>
          let ended := runAll (solver.conditions around) solver.phases 0 scope st.phases
          match ended.result with
          | .error fault => .error ⟨fault, ended.scope.events.toList⟩
          | .ok (.error e) => .ok (⟨.error e, ended.scope.events.toList⟩, { phases := ended.own })
          | .ok (.ok ()) => .ok (finish (solver.conditions around) ended.scope
              { phases := ended.own }) := by
  unfold solve conditions opening
  dsimp only
  split
  · rfl
  · rcases (Search.start { around with termination := solver.termination, mode := solver.mode }).run
      { director := { solution },
        generator := Random.Generator.ofSeed (solver.seed.getD entropy).toUInt64 } with
      ⟨_ | ⟨⟩, scope⟩
    · rfl
    · rfl

end Solver

end PlanSearch
