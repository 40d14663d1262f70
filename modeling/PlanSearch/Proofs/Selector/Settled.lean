import PlanSearch.Proofs.Patience
import PlanSearch.Selector.Filter
import PlanSearch.Selector.Mimic
import PlanSearch.Selector.Roulette

/-!
# Selectors whose calls come to an end

A selector is settled if all its calls settle and if none of its passes goes on for ever, unless it
is never-ending. The layers that a selector of entities or values is put together from keep this: a
layer that makes a list of the candidates of another selector takes no never-ending one, and a
filter over a never-ending one gives up after a number of refusals.
-/

namespace PlanSearch

open Filter

namespace Selector

variable {M S C D : Type} {faults : Fault → Prop} {sel child : Selector M S C} {s : S}

/-- The state is left behind by a candidate that was drawn in the other state. -/
def After (sel : Selector M S C) (s : S) (st' st : sel.State) : Prop :=
  ∃ c, Draw.Yields (fun n => sel.next ⟨s, n⟩ st) (some c, st')

/-- Every call of the selector comes to an end. Unless it is never-ending, there is no endless row
of candidates about one solution. -/
structure Settled (sel : Selector M S C) (faults : Fault → Prop) : Prop where
  handle : ∀ hook s st, Draw.Settles faults fun n => sel.handle hook ⟨s, n⟩ st
  restart : ∀ s st, Draw.Settles faults fun n => sel.restart ⟨s, n⟩ st
  next : ∀ s st, Draw.Settles faults fun n => sel.next ⟨s, n⟩ st
  size : ∀ s st, Breaks faults (sel.size s st)
  ends : sel.neverEnding = false → ∀ s, WellFounded (sel.After s)

namespace Settled

/-- The candidates that are left are collected in finitely many rounds. -/
theorem drain (settled : sel.Settled faults) (ends : WellFounded (sel.After s)) (st : sel.State)
    (acc : Array C) {rounds : ℕ → ℕ} (grows : Tendsto rounds atTop atTop) :
    Draw.Settles faults fun n => sel.drain ⟨s, n⟩ (rounds n) st acc := by
  induction st using ends.induction generalizing acc rounds with
  | _ st ih =>
    refine .of_succ (fun rounds n => sel.drain ⟨s, n⟩ rounds st acc) (fun _ => rfl) grows
      fun rest grows => ?_
    refine (settled.next s st).bind fun r drawn => ?_
    obtain ⟨c, st'⟩ := r
    cases c with
    | none => exact .pure _
    | some c => exact ih st' ⟨c, drawn⟩ _ grows

/-- A pass comes to its end. -/
theorem pass (settled : sel.Settled faults) (ends : sel.neverEnding = false) (s : S)
    (st : sel.State) : Draw.Settles faults fun n => sel.pass ⟨s, n⟩ st :=
  (settled.restart s st).bind fun st _ => settled.drain (settled.ends ends s) st _ tendsto_id

theorem nextOrRestart (settled : sel.Settled faults) (s : S) (st : sel.State) :
    Draw.Settles faults fun n => sel.nextOrRestart ⟨s, n⟩ st := by
  refine (settled.next s st).bind fun r _ => ?_
  obtain ⟨c, st⟩ := r
  cases c with
  | some c => exact .pure _
  | none => exact (settled.restart s st).bind fun st _ => settled.next s st

end Settled

/-- A number that gets smaller with every candidate keeps a pass from going on for ever. -/
theorem ends_of_measure (rank : sel.State → ℕ)
    (less : ∀ st c st', Draw.Yields (fun n => sel.next ⟨s, n⟩ st) (some c, st') →
      rank st' < rank st) :
    WellFounded (sel.After s) :=
  Subrelation.wf (fun ⟨c, drawn⟩ => less _ c _ drawn) (measure rank).wf

/-! ## Candidates from the solution -/

theorem settled_source (items : S → Array C) (isRandom : Bool) :
    (source items isRandom : Selector M S C).Settled faults where
  handle _ _ _ := .pure _
  restart _ _ := .pure _
  next s cursor := by
    simp only [source, enumerated]
    split
    · split
      · exact .pure _
      · rename_i filled
        exact (Draw.Settles.below (by simpa using filled)).bind fun _ _ => .pure _
    · split <;> exact .pure _
  size _ _ := .ok _
  ends listed s := by
    obtain rfl : isRandom = false := listed
    refine ends_of_measure (fun cursor : ℕ => (items s).size - cursor) ?_
    intro (cursor : ℕ) c (cursor' : ℕ) drawn
    simp only [source_next, Bool.false_eq_true, if_false] at drawn
    split at drawn
    · cases drawn.of_pure
    · rename_i known
      cases drawn.of_pure
      obtain ⟨inside, -⟩ := Array.getElem?_eq_some_iff.1 known
      omega

/-! ## Kept lists -/

/-- What is done with a kept list settles, and a pass that has an end picks from within the list. -/
structure Arrangement.Settled (how : Arrangement M S C D) (faults : Fault → Prop) : Prop where
  arrange : ∀ s candidates, Breaks faults (how.arrange s candidates)
  shuffle : ∀ items, Draw.Settles faults fun _ => how.shuffle items
  pick : ∀ items cursor, Draw.Settles faults fun _ => how.pick items cursor
  inside : how.neverEnding = false → ∀ items cursor c,
    Draw.Yields (fun _ => how.pick items cursor) (some c) → cursor < items.size

theorem Settled.fill (settled : child.Settled faults) (ends : child.neverEnding = false)
    {how : Arrangement M S C D} (arranged : how.Settled faults) (s : S) (st : Kept child D) :
    Draw.Settles faults fun n => st.fill how ⟨s, n⟩ :=
  (settled.pass ends s st.child).bind fun r _ =>
    (Draw.Settles.lift (arranged.arrange s r.1)).bind fun _ _ => .pure _

theorem settled_keeping (settled : child.Settled faults) (ends : child.neverEnding = false)
    (cache : CacheType) {how : Arrangement M S C D} (arranged : how.Settled faults) :
    (child.keeping cache how).Settled faults where
  handle hook s st := by
    refine (settled.handle hook s st.child).bind fun inner _ => ?_
    have filled := settled.fill ends arranged s { st with child := inner }
    cases hook <;> cases cache <;> first | exact filled | exact .pure _
  restart s st := (arranged.shuffle st.items).bind fun _ _ => .pure _
  next s st := by
    refine (arranged.pick st.items st.cursor).bind fun c _ => ?_
    cases c <;> exact .pure _
  size s st := by
    simp only [keeping]
    split
    · exact .ok _
    · exact settled.size s st.child
  ends listed s := by
    refine ends_of_measure (fun st : Kept child D => st.items.size - st.cursor) ?_
    intro (st : Kept child D) c (st' : Kept child D) drawn
    obtain ⟨x, picked, drawn⟩ := Draw.Yields.of_bind drawn
    cases x with
    | none => cases drawn.of_pure
    | some x =>
      cases drawn.of_pure
      have := arranged.inside listed _ _ _ picked
      change st.items.size - (st.cursor + 1) < st.items.size - st.cursor
      omega

/-- Picks in the order of the list stay within it. -/
theorem Arrangement.Settled.of_inOrder {how : Arrangement M S C C}
    (arrange : ∀ s candidates, Breaks faults (how.arrange s candidates))
    (shuffle : ∀ items, Draw.Settles faults fun _ => how.shuffle items)
    (picks : ∀ items cursor, how.pick items cursor = pure items[cursor]?) : how.Settled faults where
  arrange := arrange
  shuffle := shuffle
  pick items cursor := by
    rw [picks]
    exact .pure _
  inside _ items cursor c picked := by
    rw [picks] at picked
    exact (Array.getElem?_eq_some_iff.1 picked.of_pure.symm).1

theorem Arrangement.Settled.asTheyCome (cache : CacheType) (isRandom : Bool) :
    (Arrangement.asTheyCome cache isRandom : Arrangement M S C C).Settled faults := by
  cases isRandom with
  | false => exact .of_inOrder (fun _ _ => .ok _) (fun _ => .pure _) fun _ _ => rfl
  | true =>
    refine ⟨fun _ _ => .ok _, fun _ => .pure _, fun items cursor => ?_, nofun⟩
    change Draw.Settles faults fun _ =>
      if items.isEmpty then pure none else do return items[← Draw.below items.size]?
    split
    · exact .pure _
    · rename_i filled
      exact (Draw.Settles.below (by simpa using filled)).bind fun _ _ => .pure _

theorem ends_of_checkCacheable {owner : String} {order : SelectionOrder} {cache : CacheType}
    {neverEnding : Bool} {u : Unit}
    (checked : checkCacheable owner order cache neverEnding = .ok u) :
    neverEnding = false := by
  unfold checkCacheable at checked
  split at checked
  · cases checked
  · split at checked
    · cases checked
    · rename_i ends
      simpa using ends

section Orders

variable {cache : CacheType} (settled : child.Settled faults)
include settled

theorem settled_caching {isRandom : Bool} (made : child.caching cache isRandom = .ok sel) :
    sel.Settled faults := by
  obtain ⟨_, checked, made⟩ := andThen_eq_ok.1 made
  obtain rfl := Except.ok.inj made
  exact settled_keeping settled (ends_of_checkCacheable checked) cache
    (.asTheyCome cache isRandom)

theorem settled_shuffling (made : child.shuffling cache = .ok sel) : sel.Settled faults := by
  obtain ⟨_, checked, made⟩ := andThen_eq_ok.1 made
  obtain rfl := Except.ok.inj made
  refine settled_keeping settled (ends_of_checkCacheable checked) cache
    (.of_inOrder (fun _ _ => .ok _) (fun items => .generate fun g => ?_) fun _ _ => rfl)
  obtain ⟨r, shuffled⟩ := g.shuffle_eq items
  rw [shuffled]
  exact .ok r

theorem settled_sorting {key : S → C → Except Fault Float} {direction : SortDirection}
    (breaks : ∀ s c, Breaks faults (key s c)) (made : child.sorting cache key direction = .ok sel) :
    sel.Settled faults := by
  obtain ⟨_, checked, made⟩ := andThen_eq_ok.1 made
  obtain rfl := Except.ok.inj made
  refine settled_keeping settled (ends_of_checkCacheable checked) cache
    (.of_inOrder (fun s items => ?_) (fun _ => .pure _) fun _ _ => rfl)
  exact (Breaks.mapM fun c _ => (breaks s c).bind fun _ _ => .ok _).bind fun _ _ => .ok _

theorem settled_weighted {α : Type} [Scale α] {wheel : Wheel α} {weight : S → C → Except Fault α}
    (ends : child.neverEnding = false) (breaks : ∀ s c, Breaks faults (weight s c))
    (draws : ∀ total g, Breaks faults (wheel.below total g)) :
    (child.weighted wheel cache weight).Settled faults where
  handle hook s st := by
    refine ((settled_keeping settled ends cache (.asTheyCome cache false)).handle hook s st.kept).bind
      fun kept _ => ?_
    have weighed : Draw.Settles faults fun _ => (do
        return { kept, totals := ← Draw.lift (totalsOf (weight s) kept.items) } :
          Draw M (Weighing child α)) :=
      (Draw.Settles.lift ((Breaks.mapM fun c _ => breaks s c).bind fun _ _ => .ok _)).bind
        fun _ _ => .pure _
    cases hook <;> cases cache <;> first | exact weighed | exact .pure _
  restart _ _ := .pure _
  next s st := by
    simp only [weighted]
    split
    · exact .pure _
    · exact (Draw.Settles.generate (draws _)).bind fun _ _ => .pure _
  size s st := by
    simp only [weighted]
    split
    · exact .ok _
    · exact settled.size s st.kept.child
  ends := nofun

/-- Below a sum of weights that is no number, or infinite, nothing can be drawn. -/
theorem settled_probability {weight : S → C → Except Fault Float}
    (breaks : ∀ s c, Breaks faults (weight s c)) (broken : faults .broken)
    (made : child.probability cache weight = .ok sel) : sel.Settled faults := by
  obtain ⟨_, checked, made⟩ := andThen_eq_ok.1 made
  obtain rfl := Except.ok.inj made
  refine settled_weighted settled (ends_of_checkCacheable checked) breaks fun total g => ?_
  change Breaks faults (g.belowFloat total)
  unfold Random.Generator.belowFloat
  split
  · exact .error broken
  · exact .ok _

end Orders

/-! ## Fewer candidates -/

section Filtering

variable (settled : child.Settled faults) (accepts : S → C → Bool)
include settled

/-- A filter settles if it does after the first refusal. -/
theorem Settled.nextAccepted {limit : Option ℕ} {rounds : ℕ → ℕ}
    (grows : Tendsto rounds atTop atTop)
    {refused : ℕ} {st : child.State}
    (again : ∀ st', child.After s st' st → (limit.any fun limit => limit ≤ refused + 1) = false →
      ∀ rest, Tendsto rest atTop atTop → Draw.Settles faults fun n =>
        child.nextAccepted accepts ⟨s, n⟩ limit (rest n) (refused + 1) st') :
    Draw.Settles faults fun n =>
      child.nextAccepted accepts ⟨s, n⟩ limit (rounds n) refused st := by
  refine .of_succ (fun rounds n => child.nextAccepted accepts ⟨s, n⟩ limit rounds refused st)
    (fun _ => rfl) grows fun rest grows => ?_
  refine (settled.next s st).bind fun r drawn => ?_
  obtain ⟨c, st'⟩ := r
  cases c with
  | none => exact .pure _
  | some c =>
    cases accepted : accepts s c with
    | true =>
      simp only [accepted, if_true]
      exact .pure _
    | false =>
      simp only [accepted, Bool.false_eq_true, if_false]
      split
      · exact .pure _
      · rename_i more
        exact again st' ⟨c, drawn⟩ (Bool.eq_false_iff.2 more) rest grows

/-- A filter with a limit gives up after so many refusals. -/
theorem Settled.nextAccepted_limited (s : S) {limit left refused : ℕ}
    (enough : limit ≤ refused + left)
    {rounds : ℕ → ℕ} (grows : Tendsto rounds atTop atTop) (st : child.State) :
    Draw.Settles faults fun n =>
      child.nextAccepted accepts ⟨s, n⟩ (some limit) (rounds n) refused st := by
  induction left generalizing refused rounds st with
  | zero =>
    refine settled.nextAccepted accepts grows fun st' _ more => ?_
    simp only [Option.any_some, decide_eq_false_iff_not] at more
    omega
  | succ left ih =>
    exact settled.nextAccepted accepts grows fun st' _ _ rest grows => ih (by omega) grows st'

/-- A filter over a selector whose passes end comes to the end of the pass. -/
theorem Settled.nextAccepted_unlimited (ends : WellFounded (child.After s)) {rounds : ℕ → ℕ}
    (grows : Tendsto rounds atTop atTop) (refused : ℕ) (st : child.State) :
    Draw.Settles faults fun n =>
      child.nextAccepted accepts ⟨s, n⟩ none (rounds n) refused st := by
  induction st using ends.induction generalizing rounds refused with
  | _ st ih =>
    exact settled.nextAccepted accepts grows fun st' after _ rest grows => ih st' after grows _

omit settled in
/-- A candidate that is accepted was drawn after those that were refused. -/
theorem after_of_nextAccepted {limit : Option ℕ} {rounds refused n : ℕ} {st st' : child.State}
    {c : C} {w w' : World M}
    (drawn :
      child.nextAccepted accepts ⟨s, n⟩ limit rounds refused st w = .ok ((some c, st'), w')) :
    Relation.TransGen (child.After s) st' st := by
  induction rounds generalizing refused st w with
  | zero => cases drawn
  | succ rounds ih =>
    obtain ⟨⟨x, st₁⟩, w₁, first, drawn⟩ := exists_of_draw_bind drawn
    cases x with
    | none => cases drawn
    | some x =>
      have after : child.After s st₁ st := ⟨x, n, w, w₁, first⟩
      dsimp only at drawn
      split at drawn
      · cases drawn
        exact .single after
      · split at drawn
        · cases drawn
        · exact .tail (ih drawn) after

theorem settled_filtering (overflow : faults .overflow) :
    (child.filtering accepts).Settled faults where
  handle := settled.handle
  restart := settled.restart
  next s st := by
    have large (n : ℕ) : Breaks faults (Count.checked n) := fun e failed =>
      overflows_checked n e failed ▸ overflow
    simp only [filtering]
    cases endless : child.neverEnding with
    | true =>
      exact (Draw.Settles.lift (settled.size s st)).bind fun size _ =>
        (Draw.Settles.lift (large _)).bind fun _ _ =>
          settled.nextAccepted_limited accepts s (Nat.le_add_left _ 0) tendsto_id st
    | false => exact settled.nextAccepted_unlimited accepts (settled.ends endless s) tendsto_id 0 st
  size := settled.size
  ends ends s := by
    refine Subrelation.wf (fun {st' st} after => ?_) (settled.ends ends s).transGen
    obtain ⟨c, n, w, w', drawn⟩ := after
    change child.neverEnding = false at ends
    simp only [filtering, ends] at drawn
    exact after_of_nextAccepted accepts drawn

end Filtering

theorem settled_limited (settled : child.Settled faults) (limit : ℕ) :
    (child.limited limit).Settled faults where
  handle hook s st := (settled.handle hook s st.1).bind fun _ _ => .pure _
  restart s st := (settled.restart s st.1).bind fun _ _ => .pure _
  next s st := by
    simp only [limited]
    split
    · exact .pure _
    · exact (settled.next s st.1).bind fun _ _ => .pure _
  size s st := (settled.size s st.1).bind fun _ _ => .ok _
  ends _ s := by
    refine ends_of_measure (fun st : child.State × ℕ => limit - st.2) ?_
    intro (st : child.State × ℕ) c (st' : child.State × ℕ) drawn
    simp only [limited] at drawn
    split at drawn
    · cases drawn.of_pure
    · rename_i below
      obtain ⟨⟨x, inner⟩, -, drawn⟩ := drawn.of_bind
      cases drawn.of_pure
      simp only [Option.isSome_some, if_true]
      omega

/-! ## Shared candidates -/

theorem settled_recording (settled : child.Settled faults) (recorder : Recorder M C) :
    (child.recording recorder).Settled faults where
  handle hook s st := by
    have put : Draw.Settles faults fun _ => recorder.put none := .of_breaks fun w => .ok _
    refine (settled.handle hook s st).bind fun st _ => ?_
    split
    · exact put.bind fun _ _ => .pure _
    · exact .pure _
  restart s st :=
    (Draw.Settles.of_breaks fun w => .ok _).bind fun _ _ => settled.restart s st
  next s st := by
    have put (c : Option C) : Draw.Settles faults fun _ => recorder.put c :=
      .of_breaks fun w => .ok _
    refine (settled.next s st).bind fun r _ => ?_
    obtain ⟨c, st⟩ := r
    cases c with
    | none => exact .pure _
    | some c => exact (put _).bind fun _ _ => .pure _
  size := settled.size
  ends ends s := by
    refine Subrelation.wf (fun {st' st} after => ?_) (settled.ends ends s)
    obtain ⟨c, drawn⟩ := after
    obtain ⟨⟨x, st₁⟩, first, drawn⟩ := drawn.of_bind
    cases x with
    | none => cases drawn.of_pure
    | some x =>
      obtain ⟨_, -, drawn⟩ := drawn.of_bind
      cases drawn.of_pure
      exact ⟨_, first⟩

theorem settled_replaying (recorder : Recorder M C) :
    (replaying recorder : Selector M S C).Settled faults where
  handle _ _ _ := .pure _
  restart _ _ := .pure _
  next s replayed := by
    have get : Draw.Settles faults fun _ => recorder.get := .of_breaks fun w => .ok _
    simp only [replaying]
    split
    · exact .pure _
    · exact get.bind fun _ _ => .pure _
  size _ _ := .ok _
  ends _ s := by
    refine ends_of_measure (fun replayed : Bool => if replayed then 0 else 1) ?_
    intro (replayed : Bool) c (replayed' : Bool) drawn
    simp only [replaying] at drawn
    split at drawn
    · cases drawn.of_pure
    · rename_i new
      obtain ⟨x, -, drawn⟩ := drawn.of_bind
      cases drawn.of_pure
      simp [new]

end Selector

end PlanSearch
