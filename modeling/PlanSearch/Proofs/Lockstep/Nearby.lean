import PlanSearch.Proofs.Lockstep.Gait
import PlanSearch.Proofs.Selector.Nearest

/-!
# Gaits of nearby selectors

The destinations are collected when a phase begins, and the rows that were asked about since then
are the same. A rank only counts as long as there is an origin.
-/

namespace PlanSearch

open Assembly

namespace Nearby.Matrix

variable {C : Type} [DecidableEq C] {faults : Fault → Prop}

theorem breaks_destination (m : Matrix C) {meter : Meter C}
    (breaks : ∀ a b, Breaks faults (meter a b)) (origin : C) (rank : Nat) :
    Breaks faults (m.destination meter origin rank) := by
  have ranks : Breaks faults (ranking m.destinations.toList meter origin) :=
    (Breaks.mapM fun d _ => (breaks origin d).bind fun _ _ => .ok _).bind fun _ _ => .ok _
  have rows : Breaks faults (m.ensureRow meter origin) := by
    unfold ensureRow
    split
    · exact .ok m
    · exact ranks.bind fun _ _ => .ok _
  exact rows.bind fun _ _ => .ok _

/-- The destinations are good, also in the rows. -/
def Holds (m : Matrix C) (good : C → Prop) : Prop :=
  (∀ d ∈ m.destinations, good d) ∧ ∀ row ∈ m.rows, ∀ d ∈ row.2, good d

/-- What is looked up is one of the destinations. -/
theorem Holds.destination {m m' : Matrix C} {good : C → Prop} (holds : m.Holds good)
    {meter : Meter C} {origin : C} {rank : Nat} {c : Option C}
    (found : m.destination meter origin rank = .ok (c, m')) : (∀ d ∈ c, good d) ∧ m'.Holds good := by
  obtain ⟨m₁, ensured, same⟩ := bind_eq_ok.1 found
  cases same
  have after : m'.Holds good := by
    unfold ensureRow at ensured
    split at ensured
    · cases ensured
      exact holds
    · obtain ⟨ranked, measured, same⟩ := bind_eq_ok.1 ensured
      cases same
      refine ⟨holds.1, List.forall_mem_cons.2 ⟨fun d here => ?_, fun row kept => ?_⟩⟩
      · have among := List.mem_of_mem_take (List.mem_toArray.1 here)
        exact holds.1 d (Array.mem_toList_iff.1 ((perm_of_ranking measured).mem_iff.1 among))
      · exact holds.2 row (List.mem_of_mem_filter kept)
  refine ⟨fun d here => ?_, after⟩
  obtain ⟨row, known, here⟩ := Option.bind_eq_some_iff.1 here
  exact after.2 _ (Ranks.mem_of_row? known) d (Array.mem_of_getElem? here)

end Nearby.Matrix

namespace Selector

variable {S C : Type} {Same : S → S → Prop} {faults : Fault → Prop} {good : C → Prop}
variable {range : Nat → Prop} {own : Set Slot} {cyc : Prop} {child : Selector Memory S C}

/-- How the states of a nearby selector are bound. -/
structure NearbyTied (gait : child.Gait Same good range faults own cyc) (bond : Bond)
    (a b : NearbyState child) : Prop where
  child : gait.Rel bond.inner a.child b.child
  matrix : a.matrix = b.matrix
  origin : a.origin = b.origin
  rank : a.origin ≠ none → a.rank = b.rank
  dropped : bond.IsIdle → a.matrix = none ∧ a.origin = none
  areGood : ∀ m ∈ a.matrix, m.Holds good

section Tied

variable {gait : child.Gait Same good range faults own cyc} {a b : NearbyState child} {K : Set Slot}
variable {bond bond' : Bond} {s s' : S}

theorem NearbyTied.collect (exhausted : faults .exhausted) (limit : Option Nat) (n : Nat)
    (begins : bond.Begins cyc bond') (same : Same s s') (sub : own ⊆ K)
    (tied : NearbyTied gait bond a b) :
    Together range faults K K (a.collect limit ⟨s, n⟩) (b.collect limit ⟨s', n⟩)
      (NearbyTied gait bond) := by
  have related := tied.child
  rw [begins.inner_self] at related
  refine (gait.pass exhausted n begins same sub related).bind fun x y ⟨found, related, areGood⟩ => ?_
  obtain ⟨found, c⟩ := x
  obtain ⟨_, d⟩ := y
  obtain rfl := found
  refine .pure ⟨?_, rfl, tied.origin, tied.rank, fun idle => ?_, ?_⟩
  · rw [begins.inner_self]
    exact related
  · cases begins <;> cases idle
  · rintro _ ⟨⟩
    exact ⟨areGood, List.forall_mem_nil _⟩

/-- The next rank counts from the rank of the pass. -/
theorem NearbyTied.advance (tied : NearbyTied gait bond a b) :
    NearbyTied gait bond { a with rank := a.rank + 1 } { b with rank := b.rank + 1 } :=
  ⟨tied.child, tied.matrix, tied.origin, fun known => congrArg Nat.succ (tied.rank known),
    tied.dropped, tied.areGood⟩

variable {meter : S → Nearby.Meter C} (sees : ∀ s s', Same s s' → meter s = meter s')
variable (breaks : ∀ s a b, Breaks faults (meter s a b)) (busy : ¬bond.IsIdle) (same : Same s s')
variable (tied : NearbyTied gait bond a b)
include sees breaks busy same tied

theorem NearbyTied.destination [DecidableEq C] (origin : C) (rank : Nat) :
    Together range faults K K (a.destination meter s origin rank) (b.destination meter s' origin rank)
      fun x y => x.1 = y.1 ∧ NearbyTied gait bond x.2 y.2 ∧ ∀ c ∈ x.1, good c := by
  unfold NearbyState.destination
  rw [← tied.matrix, sees s s' same]
  split
  · exact .pure ⟨rfl, tied, by rintro _ ⟨⟩⟩
  · rename_i matrix known
    refine (Together.lift (matrix.breaks_destination (breaks s') origin rank)).bind
      fun x y ⟨found, made⟩ => ?_
    obtain rfl : x = y := found
    obtain ⟨isGood, areGood⟩ := (tied.areGood matrix known).destination made
    refine .pure ⟨rfl, ⟨tied.child, rfl, tied.origin, tied.rank, fun idle => absurd idle busy, ?_⟩,
      isGood⟩
    rintro _ ⟨⟩
    exact areGood

/-- Whether the bond is that of a pass makes no difference. -/
theorem NearbyTied.next [Candidate C] [HasSlots C] (id : String)
    (distribution : Option Nearby.Distribution) :
    Together range faults K K (a.next (Candidate.recorder id) meter distribution s)
      (b.next (Candidate.recorder id) meter distribution s')
      fun x y => x.1 = y.1 ∧ NearbyTied gait bond x.2 y.2 ∧ ∀ c ∈ x.1, good c := by
  unfold NearbyState.next
  cases distribution with
  | none =>
    dsimp only
    rw [← tied.origin]
    cases known : a.origin with
    | none => exact .pure ⟨rfl, tied, by rintro _ ⟨⟩⟩
    | some origin =>
      dsimp only
      rw [← tied.rank (by rw [known]; exact Option.some_ne_none _)]
      refine (tied.destination sees breaks busy same origin a.rank).bind
        fun x y ⟨found, tied, isGood⟩ => ?_
      obtain ⟨c, a⟩ := x
      obtain ⟨_, b⟩ := y
      obtain rfl := found
      cases c with
      | none => exact .pure ⟨rfl, tied, isGood⟩
      | some c => exact .pure ⟨rfl, tied.advance, isGood⟩
  | some distribution =>
    dsimp only
    rw [← tied.matrix]
    refine (Together.get id).bind fun x y recorded => ?_
    obtain ⟨rfl, -⟩ := recorded
    split
    · split
      · exact .pure ⟨rfl, tied, by rintro _ ⟨⟩⟩
      · rename_i matrix _ _
        have draws : ∀ g, Breaks faults (distribution.draw matrix.rowLength g) := fun g => by
          obtain ⟨r, drawn⟩ := distribution.draw_eq matrix.rowLength g
          rw [drawn]
          exact .ok r
        refine (Together.generate draws).bind fun x y drawn => ?_
        obtain ⟨rfl, -⟩ := drawn
        exact tied.destination sees breaks busy same _ x
    · exact .pure ⟨rfl, tied, by rintro _ ⟨⟩⟩

end Tied

section Nearby

variable [Candidate C] [HasSlots C] {id : String} {meter : S → Nearby.Meter C}
variable {distribution : Option Nearby.Distribution} {limit : Option Nat}
variable {sel : Selector Memory S C} (gait : child.Gait Same good range faults own cyc)
variable (exhausted : faults .exhausted) (sees : ∀ s s', Same s s' → meter s = meter s')
variable (breaks : ∀ s a b, Breaks faults (meter s a b))
include gait exhausted sees breaks

theorem gait_nearby
    (made : child.nearby (Candidate.recorder id) meter distribution limit = .ok sel) :
    ∃ gait : sel.Gait Same good range faults own cyc, gait.Steady := by
  unfold nearby byDistance at made
  split at made
  · cases made
  obtain rfl := Except.ok.inj made
  refine ⟨{
    Rel := NearbyTied gait
    start := fun new => ⟨gait.start (Bond.inner_new new), rfl, rfl, fun _ => rfl,
      fun _ => ⟨rfl, rfl⟩, by rintro _ ⟨⟩⟩
    idle := fun {a a' b b'} h h' => ⟨gait.idle h.child h'.child, ?_, ?_, ?_, fun _ =>
      h.dropped trivial, h.areGood⟩
    loose := fun h => ⟨h.child, h.matrix, h.origin, h.rank, False.elim, h.areGood⟩
    size := fun {bond s s' a b} busy same tied => ?_
    handle := fun {bond bond' s s' a b K hook} n leads same tied sub => ?_
    restart := fun {bond bond' s s' a b K} n begins same tied sub => ?_
    next := fun {bond bond' s s' a b K} n begins same tied sub =>
      tied.next sees breaks begins.not_isIdle same id distribution }, fun n same tied sub => ?_⟩
  · rw [(h.dropped trivial).1, ← h'.matrix, (h'.dropped trivial).1]
  · rw [(h.dropped trivial).2, ← h'.origin, (h'.dropped trivial).2]
  · exact fun known => absurd (h.dropped trivial).2 known
  · obtain ⟨size, breaks⟩ := gait.size (Bond.not_isIdle_inner busy) same tied.child
    dsimp only
    rw [← tied.matrix, ← size]
    refine ⟨rfl, ?_⟩
    split
    · exact .ok _
    · exact breaks.bind fun _ _ => .ok _
  · have related := tied.child
    rw [leads.inner.1] at related
    refine (gait.handle n leads same related sub).bind fun x y related => ?_
    rw [← leads.inner.2] at related
    by_cases ended : hook = .phaseEnded
    · subst ended
      exact .pure ⟨related, rfl, rfl, fun known => absurd rfl known, fun _ => ⟨rfl, rfl⟩,
        by rintro _ ⟨⟩⟩
    · rw [Hook.leaves, if_neg ended]
      obtain ⟨bond'', begins⟩ := leads.begins ended
      have kept : NearbyTied gait bond' { a with child := x } { b with child := y } :=
        ⟨related, tied.matrix, tied.origin, tied.rank, fun idle =>
          absurd (leads.phaseEnded idle) ended, tied.areGood⟩
      have collected := kept.collect exhausted limit n begins same (sub ended)
      cases hook <;> first | exact collected | exact .pure kept | exact absurd rfl ended
  · have begun {a b : NearbyState child} (tied : NearbyTied gait bond a b) :
        Together range faults K K
          (do let origin ← (Candidate.recorder id : Recorder Memory C).get
              return { a with rank := 0, origin })
          (do let origin ← (Candidate.recorder id : Recorder Memory C).get
              return { b with rank := 0, origin }) (NearbyTied gait bond') := by
      refine (Together.get id).bind fun o o' recorded => ?_
      obtain ⟨rfl, -⟩ := recorded
      refine .pure ⟨?_, tied.matrix, rfl, fun _ => rfl, fun idle => absurd idle begins.not_isIdle,
        tied.areGood⟩
      rw [begins.inner, ← begins.inner_self]
      exact tied.child
    dsimp only
    rw [← tied.matrix]
    split
    · exact (tied.collect exhausted limit n begins same sub).bind fun x y tied => begun tied
    · exact begun tied
  · exact tied.next sees breaks Bond.not_isIdle_loose same id distribution

end Nearby

end Selector

end PlanSearch
