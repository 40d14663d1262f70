import PlanSearch.Proofs.Lockstep.Nearby
import PlanSearch.Proofs.Selector.Bounds
import PlanSearch.Proofs.Selector.Settled

/-!
# Rankings and runs come to an end

A pass over the destinations of an origin goes up the ranks of its row, and a pass over the runs of
chains goes up the chains, the starts within a chain, and the ends for a start.
-/

namespace PlanSearch

open Filter

/-! ## Destinations by distance -/

namespace Nearby.Matrix

variable {C : Type} [DecidableEq C]

/-- How many ranks an origin has: the length of its row, or of the one that will be made. -/
def ranks (m : Matrix C) (origin : C) : ℕ := ((m.row? origin).map Array.size).getD m.rowLength

/-- A destination has one of the ranks, and there are not more of them afterwards. -/
theorem rank_lt_of_destination {m m' : Matrix C} {meter : Meter C} {origin c : C} {rank : ℕ}
    (found : m.destination meter origin rank = .ok (some c, m')) :
    rank < m'.ranks origin ∧ m'.ranks origin ≤ m.ranks origin := by
  unfold destination at found
  cases ensured : m.ensureRow meter origin with
  | error e =>
    rw [ensured] at found
    cases found
  | ok made =>
    rw [ensured] at found
    obtain ⟨looked, rfl⟩ := Prod.mk.inj (Except.ok.inj found)
    obtain ⟨row, known, at_⟩ := Option.bind_eq_some_iff.1 looked
    have inside := (Array.getElem?_eq_some_iff.1 at_).1
    refine ⟨by simpa [ranks, known] using inside, ?_⟩
    unfold ensureRow at ensured
    split at ensured
    · obtain rfl := Except.ok.inj ensured
      exact le_rfl
    · rename_i missing
      unfold addRow at ensured
      cases ranked : ranking m.destinations.toList meter origin with
      | error e =>
        rw [ranked] at ensured
        cases ensured
      | ok order =>
        rw [ranked] at ensured
        obtain rfl := Except.ok.inj ensured
        have new : m.row? origin = none := by simpa using missing
        simp only [ranks, new, Option.map_none, Option.getD_none]
        simp [row?]

end Nearby.Matrix

namespace Selector

variable {M S C : Type} {faults : Fault → Prop} {sel child : Selector M S C} {s : S}

section Nearby

variable [DecidableEq C] {recorder : Recorder M C} {meter : S → Nearby.Meter C}
variable {distribution : Option Nearby.Distribution} {limit : Option ℕ}

/-- How many ranks are left. -/
def NearbyState.left (st : NearbyState child) : ℕ :=
  match st.matrix, st.origin with
  | some m, some origin => m.ranks origin - st.rank
  | _, _ => 0

omit [DecidableEq C] in
theorem Settled.collect (settled : child.Settled faults) (ends : child.neverEnding = false)
    (limit : Option ℕ) (s : S) (st : NearbyState child) :
    Draw.Settles faults fun n => st.collect limit ⟨s, n⟩ :=
  (settled.pass ends s st.child).bind fun _ _ => .pure _

theorem NearbyState.settles_destination (breaks : ∀ s a b, Breaks faults (meter s a b))
    (st : NearbyState child) (s : S) (origin : C) (rank : ℕ) :
    Draw.Settles faults fun _ => (st.destination meter s origin rank : Draw M _) := by
  unfold destination
  split
  · exact .pure _
  · rename_i m _
    exact (Draw.Settles.lift (m.breaks_destination (breaks s) origin rank)).bind fun _ _ => .pure _

theorem NearbyState.settles_next (recorder : Recorder M C)
    (breaks : ∀ s a b, Breaks faults (meter s a b))
    (distribution : Option Nearby.Distribution) (s : S)
    (st : NearbyState child) :
    Draw.Settles faults fun _ => st.next recorder meter distribution s := by
  have get : Draw.Settles faults fun _ => recorder.get := .of_breaks fun w => .ok _
  cases distribution with
  | none =>
    unfold next
    cases st.origin with
    | none => exact .pure _
    | some origin =>
      exact (st.settles_destination breaks s origin st.rank).bind fun _ _ => .pure _
  | some distribution =>
    refine get.bind fun origin _ => ?_
    split
    · split
      · exact .pure _
      · refine (Draw.Settles.generate fun g => ?_).bind fun rank _ =>
          st.settles_destination breaks s _ rank
        obtain ⟨r, drawn⟩ := distribution.draw_eq _ g
        rw [drawn]
        exact .ok r
    · exact .pure _

/-- A destination leaves fewer ranks. -/
theorem NearbyState.left_lt (recorder : Recorder M C) {st st' : NearbyState child} {c : C}
    (drawn : Draw.Yields (fun _ => st.next recorder meter none s) (some c, st')) :
    st'.left < st.left := by
  unfold next at drawn
  cases origin : st.origin with
  | none =>
    simp only [origin] at drawn
    cases drawn.of_pure
  | some o =>
    simp only [origin] at drawn
    obtain ⟨⟨x, st₁⟩, found, drawn⟩ := drawn.of_bind
    cases drawn.of_pure
    unfold destination at found
    cases matrix : st.matrix with
    | none =>
      simp only [matrix] at found
      cases found.of_pure
    | some m =>
      simp only [matrix] at found
      obtain ⟨⟨x, m'⟩, looked, drawn⟩ := found.of_bind
      cases drawn.of_pure
      obtain ⟨inside, fewer⟩ := Nearby.Matrix.rank_lt_of_destination looked.of_lift
      simp only [left, matrix, origin, Option.isSome_some, if_true]
      omega

theorem settled_nearby (settled : child.Settled faults)
    (breaks : ∀ s a b, Breaks faults (meter s a b))
    (made : child.nearby recorder meter distribution limit = .ok sel) : sel.Settled faults := by
  have get : Draw.Settles faults fun _ => recorder.get := .of_breaks fun w => .ok _
  unfold nearby byDistance at made
  split at made
  · cases made
  · rename_i ends
    replace ends := Bool.eq_false_iff.2 ends
    obtain rfl := Except.ok.inj made
    refine ⟨fun hook s st => ?_, fun s st => ?_, fun s st => ?_, fun s st => ?_, fun listed s => ?_⟩
    · refine (settled.handle hook s st.child).bind fun inner _ => ?_
      cases hook
      · exact settled.collect ends limit s { st with child := inner }
      all_goals exact .pure _
    · dsimp only
      split
      · exact (settled.collect ends limit s st).bind fun _ _ => get.bind fun _ _ => .pure _
      · exact (Draw.Settles.pure st).bind fun _ _ => get.bind fun _ _ => .pure _
    · exact st.settles_next recorder breaks distribution s
    · dsimp only
      split
      · exact .ok _
      · exact (settled.size s st.child).bind fun _ _ => .ok _
    · refine ends_of_measure NearbyState.left ?_
      intro (st : NearbyState child) c (st' : NearbyState child) drawn
      obtain rfl : distribution = none := Option.not_isSome_iff_eq_none.1 (by simpa using listed)
      exact NearbyState.left_lt recorder drawn

end Nearby

end Selector

/-! ## Runs of chains -/

namespace SubChains

variable {minimum maximum : ℕ}

/-- The next run in a chain lies in it. It has the same start and no earlier end, or a later start.
-/
theorem of_inChain (positive : 1 ≤ minimum) {length first last first' last' : ℕ}
    (found : inChain length minimum maximum first last = some (first', last')) :
    first' < length ∧ last' < length ∧ (first' = first ∧ last ≤ last' ∨ first < first') := by
  simp only [inChain, lastEnd] at found
  grind

/-- The next run is in the same chain or in a later one. -/
theorem of_nextRun (positive : 1 ≤ minimum) {chains : List (List Handle)} {passed first last : ℕ}
    {run : SubChain} {place : Place}
    (found : nextRun minimum maximum chains passed first last = (some run, place)) :
    place.chain < passed + chains.length ∧
      (place.chain = passed ∧ (∃ chain ∈ chains.head?, place.first < chain.length ∧
        place.last ≤ chain.length) ∧ (place.first = first ∧ last < place.last ∨ first < place.first) ∨
      passed < place.chain) := by
  induction chains generalizing passed first last with
  | nil => cases found
  | cons chain rest ih =>
    rw [nextRun] at found
    split at found
    · rename_i first' last' here
      obtain ⟨-, rfl⟩ := Prod.mk.inj found
      obtain ⟨inside, within, later⟩ := of_inChain positive here
      refine ⟨by simp, .inl ⟨rfl, ⟨chain, rfl, inside, within⟩, ?_⟩⟩
      dsimp only
      omega
    · obtain ⟨inside, later⟩ := ih found
      refine ⟨by simp only [List.length_cons]; omega, .inr ?_⟩
      omega

end SubChains

namespace Selector

open SubChains

variable {M S : Type} {faults : Fault → Prop} {sel : Selector M S SubChain}

/-- What is left of a reading: chains, starts in the present one, and ends for the present start. -/
def Reading.left (st : SubChains.Reading) : ℕ × ℕ × ℕ :=
  let length := ((st.chains[st.place.chain]?).map List.length).getD 0
  (st.chains.length - st.place.chain, length - st.place.first, length - st.place.last)

/-- A run leaves fewer chains, or as many chains and fewer starts, or as many starts and fewer
ends. -/
theorem Reading.left_lt {minimum maximum : ℕ} (positive : 1 ≤ minimum) {st : SubChains.Reading}
    {run : SubChain} {place : Place} (found : nextRun minimum maximum
      (st.chains.drop st.place.chain) st.place.chain st.place.first st.place.last =
        (some run, place)) :
    Prod.Lex (· < ·) (Prod.Lex (· < ·) (· < ·)) (left { st with place }) (left st) := by
  obtain ⟨inside, later⟩ := of_nextRun positive found
  rw [List.length_drop] at inside
  rcases later with ⟨same, ⟨chain, here, first, last⟩, later⟩ | later
  · rw [List.head?_drop] at here
    have here : st.chains[st.place.chain]? = some chain := here
    simp only [left, same, here, Option.map_some, Option.getD_some]
    refine .right _ ?_
    rcases later with ⟨start, later⟩ | later
    · rw [start]
      exact .right _ (by omega)
    · exact .left _ _ (by omega)
  · refine .left _ _ ?_
    dsimp only
    omega

theorem settles_drawRun (overflow : faults .overflow) (minimum maximum : ℕ)
    (chains : List (List Handle)) :
    Draw.Settles faults fun _ => (drawRun minimum maximum chains : Draw M _) := by
  unfold drawRun
  split
  · exact .pure _
  · rename_i some
    refine (Draw.Settles.below (by simpa using some)).bind fun i _ => ?_
    have counted (length : ℕ) : Breaks faults (count length minimum maximum) := fun e large =>
      overflows_count _ _ _ e large ▸ overflow
    refine (Draw.Settles.lift (counted _)).bind fun total _ => ?_
    split
    · exact .pure _
    · rename_i positive
      exact (Draw.Settles.below positive).bind fun _ _ => .pure _

theorem settled_subChains (overflow : faults .overflow) {v : ChainedVariable S}
    {minimum maximum : ℕ} {cache : CacheType} {isRandom : Bool}
    (made : subChains v minimum maximum cache isRandom = .ok sel) : sel.Settled faults := by
  unfold subChains at made
  split at made
  · cases made
  · rename_i positive
    split at made
    · cases made
    · obtain rfl := Except.ok.inj made
      let load (s : S) (st : SubChains.Reading) := SubChains.Reading.load minimum (v.graph s) st
      refine ⟨fun hook s st => ?_, fun s st => ?_, fun s st => ?_, fun s st => ?_,
        fun listed s => ?_⟩
      · have loaded : Draw.Settles faults fun _ => (pure (load s st) : Draw M _) := .pure _
        cases hook <;> cases cache <;> first | exact loaded | exact .pure _
      · have begun (st : SubChains.Reading) : Draw.Settles faults fun _ =>
            (pure { st with place := ⟨0, 0, minimum - 1⟩ } : Draw M _) := .pure _
        cases cache with
        | justInTime => exact begun (load s st)
        | _ => exact begun st
      · dsimp only
        split
        · exact (settles_drawRun overflow minimum maximum st.chains).bind fun _ _ => .pure _
        · exact .pure _
      · exact fun e large => overflows_countAll _ _ _ _ e large ▸ overflow
      · obtain rfl : isRandom = false := listed
        refine Subrelation.wf (fun {st' st} after => ?_)
          (InvImage.wf Reading.left (Prod.lex Nat.lt_wfRel (Prod.lex Nat.lt_wfRel Nat.lt_wfRel)).wf)
        obtain ⟨c, drawn⟩ := after
        have made := drawn.of_pure
        rcases found : nextRun minimum maximum (st.chains.drop st.place.chain) st.place.chain
          st.place.first st.place.last with ⟨run, place⟩
        rw [found] at made
        obtain ⟨rfl, rfl⟩ := Prod.mk.inj made
        exact Reading.left_lt (by omega) found

end Selector

end PlanSearch
