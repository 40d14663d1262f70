import Mathlib.Data.Set.Card
import PlanSearch.Proofs.Patience
import PlanSearch.Proofs.Selector.Traced
import PlanSearch.Selector.Filter
import PlanSearch.Selector.Mimic
import PlanSearch.Selector.Union

/-!
# What the calls of selectors break off with

A selector that is put together from others breaks off with what they break off with, with too
little patience, or with what it makes of their sizes. The sizes are looked at by two of them only:
by a union in random order and by a filter over candidates that never end.
-/

namespace PlanSearch

variable {M S C E V α β : Type} {faults : Fault → Prop}

/-- A value at hand is gone on from. -/
theorem Draw.lift_bind (a : α) (k : α → Draw M β) : (Draw.lift (.ok a) >>= k) = k a := rfl

namespace Selector

/-- About the given solution, new passes and draws break off with nothing but the given faults. -/
structure BreaksWith (faults : Fault → Prop) (s : S) (sel : Selector M S C) : Prop where
  restart : ∀ n st, (sel.restart ⟨s, n⟩ st).BreaksWith faults
  next : ∀ n st, (sel.next ⟨s, n⟩ st).BreaksWith faults

variable {s : S} {child : Selector M S C} {children : List (Selector M S C)}
variable {entities : Selector M S E} {values : Selector M S V}

theorem BreaksWith.nextOrRestart (breaks : child.BreaksWith faults s) (n : Nat)
    (st : child.State) : (child.nextOrRestart ⟨s, n⟩ st).BreaksWith faults := by
  refine (breaks.next n st).bind fun r => ?_
  obtain ⟨c, st⟩ := r
  cases c with
  | some c => exact .pure _
  | none => exact (breaks.restart n st).bind (breaks.next n)

theorem breaksWith_indices (count : S → Nat) (isRandom : Bool) :
    (indices count isRandom : Selector M S Nat).BreaksWith faults s where
  restart _ _ := .pure _
  next n cursor := by
    simp only [indices, enumerated]
    split
    · split
      · exact .pure _
      · rename_i some
        exact .bind (.below some) fun _ => .pure _
    · split <;> exact .pure _

/-! ## Candidates that are recorded, counted or left out -/

theorem breaksWith_recording (breaks : child.BreaksWith faults s) (recorder : Recorder M C) :
    (child.recording recorder).BreaksWith faults s where
  restart n st := .bind (fun _ => .ok _) fun _ => breaks.restart n st
  next n st := by
    refine (breaks.next n st).bind fun r => ?_
    obtain ⟨c, st⟩ := r
    cases c with
    | none => exact .pure _
    | some c => exact .bind (fun _ => .ok _) fun _ => .pure _

theorem breaksWith_limited (breaks : child.BreaksWith faults s) (limit : Nat) :
    (child.limited limit).BreaksWith faults s where
  restart n st := (breaks.restart n st.1).bind fun _ => .pure _
  next n st := by
    simp only [limited]
    split
    · exact .pure _
    · exact (breaks.next n st.1).bind fun _ => .pure _

theorem BreaksWith.nextAccepted (breaks : child.BreaksWith faults s) (tired : faults .exhausted)
    (accepts : S → C → Bool) (limit : Option Nat) (n rounds refused : Nat) (st : child.State) :
    (child.nextAccepted accepts ⟨s, n⟩ limit rounds refused st).BreaksWith faults := by
  induction rounds generalizing refused st with
  | zero => exact .fail tired
  | succ rounds ih =>
    refine (breaks.next n st).bind fun r => ?_
    obtain ⟨c, st⟩ := r
    cases c with
    | none => exact .pure _
    | some c =>
      dsimp only
      split
      · exact .pure _
      · split
        · exact .pure _
        · exact ih _ _

/-- So many draws in a row have yielded candidates that the test refuses. They have led from the
given state and world to the present ones. -/
inductive Refused (child : Selector M S C) (accepts : S → C → Bool) (set : Setting S)
    (st₀ : child.State) (w₀ : World M) : Nat → child.State → World M → Prop
  | start : Refused child accepts set st₀ w₀ 0 st₀ w₀
  | drawn {k : Nat} {st st' : child.State} {w w' : World M} {c : C}
    (before : Refused child accepts set st₀ w₀ k st w)
    (drawn : child.next set st w = .ok ((some c, st'), w'))
    (refused : accepts set.solution c = false) : Refused child accepts set st₀ w₀ (k + 1) st' w'

section GivesUp

variable {accepts : S → C → Bool} {set : Setting S} {st₀ st : child.State} {w₀ w : World M}
variable {limit rounds k : Nat}

/-- A search with a limit ends after so many refusals, or with what the child does before that. -/
theorem Refused.of_nextAccepted {c : Option C} {st' : child.State} {w' : World M}
    (refused : Refused child accepts set st₀ w₀ k st w) (fewer : k < limit)
    (ran : child.nextAccepted accepts set (some limit) rounds k st w = .ok ((c, st'), w')) :
    c = none ∧ Refused child accepts set st₀ w₀ limit st' w' ∨
      ∃ k < limit, ∃ st₁ w₁, Refused child accepts set st₀ w₀ k st₁ w₁ ∧
        child.next set st₁ w₁ = .ok ((c, st'), w') ∧ ∀ x ∈ c, accepts set.solution x = true := by
  induction rounds generalizing k st w with
  | zero => cases ran
  | succ rounds ih =>
    obtain ⟨⟨found, st₁⟩, w₁, drawn, ran⟩ := exists_of_draw_bind ran
    cases found with
    | none =>
      cases ran
      exact .inr ⟨k, fewer, st, w, refused, drawn, by simp⟩
    | some x =>
      dsimp only at ran
      split at ran
      · rename_i accepted
        cases ran
        exact .inr ⟨k, fewer, st, w, refused, drawn, by simpa using accepted⟩
      · rename_i rejected
        have more := refused.drawn drawn (Bool.eq_false_iff.2 rejected)
        simp only [Option.any_some, decide_eq_true_eq] at ran
        split at ran
        · rename_i enough
          have last : limit = k + 1 := by omega
          cases ran
          exact .inl ⟨rfl, last ▸ more⟩
        · exact ih more (by omega) ran

/-- With enough patience it breaks off with nothing but a draw of the child. -/
theorem Refused.of_nextAccepted_error {e : Fault}
    (refused : Refused child accepts set st₀ w₀ k st w) (fewer : k < limit)
    (enough : limit ≤ k + rounds)
    (failed : child.nextAccepted accepts set (some limit) rounds k st w = .error e) :
    ∃ k < limit, ∃ st₁ w₁, Refused child accepts set st₀ w₀ k st₁ w₁ ∧
      child.next set st₁ w₁ = .error e := by
  induction rounds generalizing k st w with
  | zero => omega
  | succ rounds ih =>
    rw [nextAccepted, draw_bind] at failed
    cases drawn : child.next set st w with
    | error e' =>
      rw [drawn] at failed
      cases failed
      exact ⟨k, fewer, st, w, refused, drawn⟩
    | ok r =>
      obtain ⟨⟨found, st₁⟩, w₁⟩ := r
      rw [drawn] at failed
      cases found with
      | none => cases failed
      | some x =>
        dsimp only at failed
        split at failed
        · cases failed
        · rename_i rejected
          have more := refused.drawn drawn (Bool.eq_false_iff.2 rejected)
          simp only [Option.any_some, decide_eq_true_eq] at failed
          split at failed
          · cases failed
          · exact ih more (by omega) (by omega) failed

end GivesUp

/-- From a child that never ends, a filter draws so many candidates at the most. -/
theorem next_filtering_endless (accepts : S → C → Bool) (endless : child.neverEnding = true)
    (set : Setting S) (st : child.State) {k : Nat} (sized : child.size set.solution st = .ok k)
    (small : k * 10 ≤ Count.max) : (child.filtering accepts).next set st =
      child.nextAccepted accepts set (some (max (k * 10) 1)) set.patience 0 st := by
  have fits : Count.checked (k * 10) = .ok (k * 10) := Count.checked_eq_ok_iff.2 ⟨rfl, small⟩
  simp only [filtering, endless, if_true, sized, Draw.lift_bind, fits, pure_bind]

/-- A filter over candidates that never end begins with ten times their number. -/
theorem next_filtering_error (accepts : S → C → Bool) (endless : child.neverEnding = true)
    (set : Setting S) (st : child.State) {e : Fault}
    (failed : (do Count.checked ((← child.size set.solution st) * 10)) = .error e)
    (w : World M) : (child.filtering accepts).next set st w = .error e := by
  simp only [filtering, endless, if_true]
  cases sized : child.size set.solution st with
  | error e' =>
    rw [sized] at failed
    cases failed
    rfl
  | ok k =>
    rw [sized] at failed
    have failed : Count.checked (k * 10) = .error e := failed
    rw [Draw.lift_bind, failed]
    rfl

theorem breaksWith_filtering (breaks : child.BreaksWith faults s) (tired : faults .exhausted)
    (accepts : S → C → Bool) (few : child.neverEnding = true →
      ∀ st, ∃ k, child.size s st = .ok k ∧ k * 10 ≤ Count.max) :
    (child.filtering accepts).BreaksWith faults s where
  restart := breaks.restart
  next n st := by
    cases endless : child.neverEnding with
    | true =>
      obtain ⟨k, sized, small⟩ := few endless st
      rw [next_filtering_endless accepts endless ⟨s, n⟩ st sized small]
      exact breaks.nextAccepted tired accepts _ n n 0 st
    | false =>
      simp only [filtering, endless, Bool.false_eq_true, if_false]
      exact breaks.nextAccepted tired accepts none n n 0 st

/-! ## Moves -/

section Pairs

variable (breaksE : entities.BreaksWith faults s) (breaksV : values.BreaksWith faults s)
include breaksE

theorem Pairing.breaksWith_restart (n : Nat) (st : Pairing entities values) :
    (st.restart ⟨s, n⟩).BreaksWith faults := (breaksE.restart n st.entities).bind fun _ => .pure _

include breaksV

theorem Pairing.breaksWith_advance (n : Nat) (st : Pairing entities values) :
    (st.advance ⟨s, n⟩).BreaksWith faults := by
  unfold advance
  split
  · exact .pure _
  · refine (breaksE.next n st.entities).bind fun r => ?_
    obtain ⟨e, es⟩ := r
    cases e with
    | none => exact .pure _
    | some e => exact (breaksV.restart n st.values).bind fun _ => .pure _

theorem Pairing.breaksWith_drawPair (n : Nat) (st : Pairing entities values) :
    (st.drawPair ⟨s, n⟩).BreaksWith faults := by
  refine (breaksE.nextOrRestart n st.entities).bind fun r => ?_
  obtain ⟨e, es⟩ := r
  cases e with
  | none => exact .pure _
  | some e => exact (breaksV.nextOrRestart n st.values).bind fun _ => .pure _

variable (tired : faults .exhausted)
include tired

theorem Pairing.breaksWith_nextPair (n rounds : Nat) (st : Pairing entities values) :
    (st.nextPair ⟨s, n⟩ rounds).BreaksWith faults := by
  induction rounds generalizing st with
  | zero => exact .fail tired
  | succ rounds ih =>
    rw [nextPair_succ]
    refine (st.breaksWith_advance breaksE breaksV n).bind fun r => ?_
    obtain ⟨e, st⟩ := r
    cases e with
    | none => exact .pure _
    | some e =>
      refine (breaksV.next n st.values).bind fun r => ?_
      obtain ⟨v, vs⟩ := r
      cases v with
      | some v => exact .pure _
      | none => exact ih _

theorem breaksWith_changes (isRandom : Bool) (move : E → V → Move S) (name : String) :
    (changes entities values isRandom move name).BreaksWith faults s where
  restart n st := Pairing.breaksWith_restart breaksE n st
  next n st := by
    cases isRandom with
    | true => exact (Pairing.breaksWith_drawPair breaksE breaksV n st).bind fun _ => .pure _
    | false => exact (Pairing.breaksWith_nextPair breaksE breaksV tired n n st).bind fun _ => .pure _

end Pairs

theorem breaksWith_subChainChanges {runs : Selector M S SubChain} {values : Selector M S Handle}
    (breaksR : runs.BreaksWith faults s) (breaksV : values.BreaksWith faults s)
    (tired : faults .exhausted) (v : ChainedVariable S) (reversingToo isRandom : Bool) :
    (subChainChanges v runs values reversingToo isRandom).BreaksWith faults s where
  restart n st := (Pairing.breaksWith_restart breaksR n st.1).bind fun _ => .pure _
  next n st := by
    obtain ⟨st, pending⟩ := st
    cases isRandom with
    | true =>
      refine (Pairing.breaksWith_drawPair breaksR breaksV n st).bind fun r => ?_
      obtain ⟨pair, st⟩ := r
      cases pair with
      | none => exact .pure _
      | some pair =>
        dsimp only
        split
        · exact .bind (.generate fun _ => .ok _) fun _ => .pure _
        · exact .pure _
    | false =>
      cases pending with
      | some reverse => exact .pure _
      | none =>
        refine (Pairing.breaksWith_nextPair breaksR breaksV tired n n st).bind fun r => ?_
        obtain ⟨pair, st⟩ := r
        cases pair <;> exact .pure _

/-! ## Several selectors -/

namespace States

theorem breaksWith_mapM {f : (child : Selector M S C) → child.State → Draw M child.State}
    (each : ∀ child ∈ children, ∀ st, (f child st).BreaksWith faults) (sts : States children) :
    (mapM f children sts).BreaksWith faults := by
  induction children with
  | nil => exact .pure ()
  | cons child rest ih =>
    obtain ⟨first, others⟩ := List.forall_mem_cons.1 each
    exact (first sts.1).bind fun _ => (ih others sts.2).bind fun _ => .pure _

variable (each : ∀ child ∈ children, child.BreaksWith faults s)
include each

theorem breaksWith_nextAt (n i : Nat) (sts : States children) :
    (nextAt ⟨s, n⟩ children i sts).BreaksWith faults := by
  have visited : (visit (fun child st => child.nextOrRestart ⟨s, n⟩ st) children i
      sts).BreaksWith faults := by
    induction children generalizing i with
    | nil => exact .pure _
    | cons child rest ih =>
      obtain ⟨first, others⟩ := List.forall_mem_cons.1 each
      cases i with
      | zero => exact (first.nextOrRestart n sts.1).bind fun _ => .pure _
      | succ i => exact (ih others i sts.2).bind fun _ => .pure _
  exact visited.bind fun _ => .pure _

theorem breaksWith_nextAmong (n : Nat) (indices : List Nat) (sts : States children) :
    (nextAmong ⟨s, n⟩ children indices sts).BreaksWith faults := by
  induction indices generalizing sts with
  | nil => exact .pure _
  | cons i rest ih =>
    refine (breaksWith_nextAt each n i sts).bind fun r => ?_
    obtain ⟨c, sts⟩ := r
    cases c with
    | some c => exact .pure _
    | none => exact ih sts

theorem breaksWith_nextFrom (n i : Nat) (sts : States children) :
    (nextFrom ⟨s, n⟩ children i sts).BreaksWith faults := by
  induction children generalizing i with
  | nil => exact .pure _
  | cons child rest ih =>
    obtain ⟨first, others⟩ := List.forall_mem_cons.1 each
    cases i with
    | succ i => exact (ih others i sts.2).bind fun _ => .pure _
    | zero =>
      refine (first.next n sts.1).bind fun r => ?_
      obtain ⟨c, st⟩ := r
      cases c with
      | some c => exact .pure _
      | none => exact (ih others 0 sts.2).bind fun _ => .pure _

end States

/-- A draw below the sum of the sizes stands for a child whose size is positive. -/
theorem exists_of_childAt {sizes : List Nat} {r : Nat} (below : r < sizes.sum) :
    ∃ k, sizes[childAt sizes r]? = some k ∧ 0 < k := by
  induction sizes generalizing r with
  | nil => cases below
  | cons size rest ih =>
    rw [List.sum_cons] at below
    rw [childAt]
    split
    · exact ⟨size, rfl, by omega⟩
    · exact ih (by omega)

section Union

variable (set : Setting S) {st : (union children true).State} {sizes : List Nat}

/-- A union in random order begins with the sum of the sizes. -/
theorem next_union_error {e : Fault} (failed : (union children true).size set.solution st = .error e)
    (w : World M) : (union children true).next set st w = .error e := by
  simp only [union, if_true] at failed ⊢
  cases sized : States.sizes set.solution children st.2 with
  | error e' =>
    rw [sized] at failed
    cases failed
    rfl
  | ok sizes =>
    rw [sized] at failed
    have failed : totalSize 0 sizes = .error e := failed
    rw [Draw.lift_bind, failed]
    rfl

variable (sized : States.sizes set.solution children st.2 = .ok sizes)
variable (small : totalSize 0 sizes = .ok sizes.sum)
include sized small

/-- Nothing is drawn from children that are empty. -/
theorem next_union_empty (empty : sizes.sum = 0) :
    (union children true).next set st = pure (none, st) := by
  simp only [union, if_true, sized, small, Draw.lift_bind, empty]

/-- Otherwise a child is picked, and the others stand in for it. -/
theorem next_union_picks (some : sizes.sum ≠ 0) :
    (union children true).next set st = (do
      let r ← Draw.below sizes.sum
      let (c, sts) ← States.nextAmong set children (childAt sizes r ::
        (List.range children.length).filter (· != childAt sizes r)) st.2
      return (c, st.1, sts)) := by
  simp only [union, if_true, sized, small, Draw.lift_bind, if_neg some]

end Union

theorem breaksWith_union (each : ∀ child ∈ children, child.BreaksWith faults s) (isRandom : Bool)
    (small : isRandom = true → ∀ sts, ∃ sizes, States.sizes s children sts = .ok sizes ∧
      totalSize 0 sizes = .ok sizes.sum) :
    (union children isRandom).BreaksWith faults s where
  restart n st := .bind (States.breaksWith_mapM (fun child member => (each child member).restart n)
    st.2) fun _ => .pure _
  next n st := by
    cases isRandom with
    | false => exact States.breaksWith_nextFrom each n st.1 st.2
    | true =>
      obtain ⟨sizes, sized, small⟩ := small rfl st.2
      by_cases empty : sizes.sum = 0
      · rw [next_union_empty ⟨s, n⟩ sized small empty]
        exact .pure _
      · rw [next_union_picks ⟨s, n⟩ sized small empty]
        exact .bind (.below empty) fun _ =>
          (States.breaksWith_nextAmong each n _ st.2).bind fun _ => .pure _

end Selector

end PlanSearch
