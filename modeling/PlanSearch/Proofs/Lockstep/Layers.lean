import Mathlib.Data.Set.Basic
import PlanSearch.Proofs.Lockstep.Gait
import PlanSearch.Selector.Filter

/-!
# Gaits of filters, limits and recorders

These selectors pass on what another one yields, or repeat what was recorded.
-/

namespace PlanSearch

namespace Selector

open Assembly

variable {S C : Type} {Same : S → S → Prop} {faults : Fault → Prop} {good : C → Prop}
variable {range : Nat → Prop} {own : Set Slot} {cyc : Prop} {child : Selector Memory S C}

/-! ## Filters -/

section Filtering

variable {accepts : S → C → Bool} {s s' : S} {K : Set Slot} {n : Nat} {a b : child.State}

/-- Of the same candidates a filter finds the same. -/
theorem together_nextAccepted {R : child.State → child.State → Prop} {P : C → Prop}
    (exhausted : faults .exhausted) (sees : accepts s = accepts s')
    (next : ∀ a b, R a b → Together range faults K K (child.next ⟨s, n⟩ a) (child.next ⟨s', n⟩ b)
      fun x y => x.1 = y.1 ∧ R x.2 y.2 ∧ ∀ c ∈ x.1, P c)
    (limit : Option Nat) (rounds refused : Nat) (related : R a b) :
    Together range faults K K (child.nextAccepted accepts ⟨s, n⟩ limit rounds refused a)
      (child.nextAccepted accepts ⟨s', n⟩ limit rounds refused b)
      fun x y => x.1 = y.1 ∧ R x.2 y.2 ∧ ∀ c ∈ x.1, P c := by
  induction rounds generalizing refused a b with
  | zero => exact .fail exhausted
  | succ rounds ih =>
    refine (next a b related).bind fun x y ⟨candidate, related, isGood⟩ => ?_
    obtain ⟨c, a⟩ := x
    obtain ⟨d, b⟩ := y
    obtain rfl : c = d := candidate
    cases c with
    | none => exact .pure ⟨rfl, related, isGood⟩
    | some c =>
      simp only [← sees]
      split
      · exact .pure ⟨rfl, related, isGood⟩
      · split
        · exact .pure ⟨rfl, related, by rintro _ ⟨⟩⟩
        · exact ih _ related

/-- From a child in states of the same size a filter draws the same. -/
theorem together_filtering {R : child.State → child.State → Prop} {P : C → Prop}
    (exhausted : faults .exhausted) (overflow : faults .overflow) (sees : accepts s = accepts s')
    (size : child.size s a = child.size s' b ∧ Breaks faults (child.size s a))
    (next : ∀ a b, R a b → Together range faults K K (child.next ⟨s, n⟩ a) (child.next ⟨s', n⟩ b)
      fun x y => x.1 = y.1 ∧ R x.2 y.2 ∧ ∀ c ∈ x.1, P c) (related : R a b) :
    Together range faults K K ((child.filtering accepts).next ⟨s, n⟩ a)
      ((child.filtering accepts).next ⟨s', n⟩ b)
      fun x y => x.1 = y.1 ∧ R x.2 y.2 ∧ ∀ c ∈ x.1, P c := by
  obtain ⟨size, breaks⟩ := size
  dsimp only [filtering]
  rw [← size]
  split
  · refine (Together.lift breaks).bind fun x y ⟨same, _⟩ => ?_
    obtain rfl : x = y := same
    have small : Breaks faults (Count.checked (x * 10)) := fun e large =>
      overflows_checked _ e large ▸ overflow
    refine (Together.lift small).bind fun x y ⟨same, _⟩ => ?_
    obtain rfl : x = y := same
    exact together_nextAccepted exhausted sees next _ n 0 related
  · exact together_nextAccepted exhausted sees next _ n 0 related

variable (gait : child.Gait Same good range faults own cyc) (exhausted : faults .exhausted)
variable (overflow : faults .overflow) (sees : ∀ s s', Same s s' → accepts s = accepts s')

/-- A filter keeps the bonds of its child. -/
def filteringGait : (child.filtering accepts).Gait Same good range faults own cyc where
  Rel := gait.Rel
  start := gait.start
  idle := gait.idle
  loose := gait.loose
  size := gait.size
  handle := gait.handle
  restart := gait.restart
  next n begins same related sub :=
    together_filtering exhausted overflow (sees _ _ same)
      (gait.size begins.not_isIdle same related)
      (fun _ _ related => gait.next n begins same related sub) related

theorem steady_filtering (steady : gait.Steady) :
    (filteringGait gait exhausted overflow sees).Steady := by
  intro s s' a b K n same related sub
  exact together_filtering exhausted overflow (sees _ _ same)
    (gait.size Bond.not_isIdle_loose same related)
    (fun a b related => steady n same related sub) related

end Filtering

/-! ## Limits -/

/-- The candidates of a pass are counted alike. -/
def limitedGait (gait : child.Gait Same good range faults own cyc) (limit : Nat) :
    (child.limited limit).Gait Same good range faults own cyc where
  Rel bond a b := gait.Rel bond a.1 b.1 ∧ (bond.IsPlaced → a.2 = b.2)
  start h := ⟨gait.start h, fun _ => rfl⟩
  idle h h' := ⟨gait.idle h.1 h'.1, False.elim⟩
  loose h := ⟨gait.loose h.1, False.elim⟩
  size busy same related := by
    obtain ⟨size, breaks⟩ := gait.size busy same related.1
    change (do return min (← child.size _ _) limit : Except Fault Nat) = _ ∧
      Breaks faults (do return min (← child.size _ _) limit : Except Fault Nat)
    refine ⟨?_, breaks.bind fun _ _ => .ok _⟩
    rw [size]
    rfl
  handle n leads same related sub := by
    refine (gait.handle n leads same related.1 sub).bind fun x y h => ?_
    exact .pure ⟨h, fun placed => related.2 (leads.placed placed)⟩
  restart n begins same related sub := by
    refine (gait.restart n begins same related.1 sub).bind fun x y h => ?_
    exact .pure ⟨h, fun _ => rfl⟩
  next {bond bond' s s' a b K} n begins same related sub := by
    obtain ⟨inner, count⟩ := related
    change Together range faults K K (do
        if limit ≤ a.2 then return (none, a)
        let (candidate, inner) ← child.next ⟨s, n⟩ a.1
        return (candidate, inner, if candidate.isSome then a.2 + 1 else a.2)) (do
        if limit ≤ b.2 then return (none, b)
        let (candidate, inner) ← child.next ⟨s', n⟩ b.1
        return (candidate, inner, if candidate.isSome then b.2 + 1 else b.2)) _
    have counted := count begins.placed
    rw [← counted]
    split
    · exact .pure ⟨rfl, ⟨inner, count⟩, by rintro _ ⟨⟩⟩
    · refine (gait.next n begins same inner sub).bind fun x y ⟨candidate, inner, isGood⟩ => ?_
      obtain ⟨c, x⟩ := x
      obtain ⟨d, y⟩ := y
      obtain rfl : c = d := candidate
      exact .pure ⟨rfl, ⟨inner, fun _ => rfl⟩, isGood⟩

/-! ## Recorders -/

section Recording

variable [Candidate C] [HasSlots C] (gait : child.Gait Same good range faults own cyc) (id : String)
variable (inRange : ∀ c, good c → HasSlots.InRange range c)

include inRange in
/-- After the same draw the same is recorded. -/
theorem together_record {bond : Bond} {K : Set Slot} {x y : Option C × child.State}
    (drawn : x.1 = y.1 ∧ gait.Rel bond x.2 y.2 ∧ ∀ c ∈ x.1, good c)
    (sub : own ∪ {HasSlots.slot C id} ⊆ K) :
    Together range faults K K
      (do if x.1.isSome then (Candidate.recorder id).put x.1
          return x)
      (do if y.1.isSome then (Candidate.recorder id).put y.1
          return y)
      fun x y => x.1 = y.1 ∧ gait.Rel bond x.2 y.2 ∧ ∀ c ∈ x.1, good c := by
  have recorded : ∀ c ∈ x.1, HasSlots.InRange range c := fun c here =>
    inRange c (drawn.2.2 c here)
  rw [← drawn.1]
  split
  · exact (Together.put id x.1 (sub (.inr rfl)) recorded).bind fun _ _ _ => .pure drawn
  · exact .pure drawn

/-- What is recorded is the same. -/
def recordingGait : (child.recording (Candidate.recorder id)).Gait Same good range faults
    (own ∪ {HasSlots.slot C id}) cyc where
  Rel := gait.Rel
  start := gait.start
  idle := gait.idle
  loose := gait.loose
  size := gait.size
  handle {bond bond' s s' a b K hook} n leads same related sub := by
    refine (gait.handle n leads same related fun busy =>
      Set.subset_union_left.trans (sub busy)).bind fun x y related => ?_
    by_cases ended : hook = .phaseEnded
    · subst ended
      rw [Hook.leaves, Hook.leaves, if_pos rfl, if_pos rfl, ← Set.sdiff_sdiff]
      exact (Together.clear id).bind fun _ _ _ => .pure related
    · rw [Hook.leaves, Hook.leaves, if_neg ended, if_neg ended, if_neg ended, if_neg ended]
      exact .pure related
  restart n begins same related sub := by
    refine (Together.put id none (sub (.inr rfl)) (by rintro _ ⟨⟩)).bind fun _ _ _ => ?_
    exact gait.restart n begins same related (Set.subset_union_left.trans sub)
  next n begins same related sub := by
    exact (gait.next n begins same related (Set.subset_union_left.trans sub)).bind
      fun _ _ drawn => together_record gait id inRange drawn sub

theorem steady_recording (steady : gait.Steady) : (recordingGait gait id inRange).Steady := by
  intro s s' a b K n same related sub
  exact (steady n same related (Set.subset_union_left.trans sub)).bind
    fun _ _ drawn => together_record gait id inRange drawn sub

end Recording

section Replaying

variable [Candidate C] [HasSlots C] (id : String)

/-- What is repeated is the same. -/
def replayingGait : (replaying (Candidate.recorder id) : Selector Memory S C).Gait Same
    (HasSlots.InRange range) range faults ∅ cyc where
  Rel bond a b := bond.IsPlaced → a = b
  start _ _ := rfl
  idle _ _ placed := placed.elim
  loose _ placed := placed.elim
  size _ _ _ := ⟨rfl, .ok _⟩
  handle n leads _ related _ := by
    rw [Hook.leaves_empty]
    exact .pure fun placed => related (leads.placed placed)
  restart n _ _ _ _ := .pure fun _ => rfl
  next {bond bond' s s' a b K} n begins same related _ := by
    obtain rfl : a = b := related begins.placed
    cases a with
    | true => exact .pure ⟨rfl, fun _ => rfl, by rintro _ ⟨⟩⟩
    | false =>
      refine (Together.get id).bind fun x y ⟨recorded, inRange⟩ => ?_
      obtain rfl : x = y := recorded
      exact .pure ⟨rfl, fun _ => rfl, inRange⟩

omit [Candidate C] [HasSlots C] in
theorem nextOrRestart_replaying {M : Type} (recorder : Recorder M C) (set : Setting S)
    (replayed : (replaying recorder : Selector M S C).State) (w : World M) :
    (replaying recorder : Selector M S C).nextOrRestart set replayed w =
      .ok ((recorder.recorded w.memory, (recorder.recorded w.memory).isSome), w) := by
  cases replayed with
  | true => rfl
  | false =>
    have next : (replaying recorder : Selector M S C).next set false w =
        .ok ((recorder.recorded w.memory, (recorder.recorded w.memory).isSome), w) := rfl
    refine (draw_bind _ _ w).trans ?_
    rw [next]
    cases held : recorder.recorded w.memory with
    | some c => rfl
    | none => exact next.trans (by rw [held])

/-- What was recorded is repeated all the time. -/
theorem anew_replaying :
    (replayingGait id : (replaying (Candidate.recorder id) : Selector Memory S C).Gait Same _ range
      faults ∅ cyc).Anew := by
  intro s s' a b K n same related sub generator m m' recalled
  rw [nextOrRestart_replaying, nextOrRestart_replaying]
  dsimp only
  rw [HasSlots.recorded_congr id recalled]
  exact .value ⟨⟨rfl, False.elim⟩, recalled⟩

end Replaying

end Selector

end PlanSearch
