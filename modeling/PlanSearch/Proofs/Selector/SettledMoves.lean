import PlanSearch.Proofs.Lockstep.Moves
import PlanSearch.Proofs.Selector.Settled
import PlanSearch.Proofs.Selector.Traced

/-!
# Moves come to an end

A selector of moves that draws its pairs needs two draws for each. One that goes through them in
order passes over the entities without a value, so that a call may need any number of rounds. It
comes to its end exactly if those rounds do, and they do if the entities end. A union passes over
the selectors that are at their end.
-/

namespace PlanSearch

open Filter

namespace Selector

variable {M S C E V : Type} {faults : Fault → Prop} {s : S}

/-! ## Pairs -/

section Pairs

variable {entities : Selector M S E} {values : Selector M S V}

/-- A round in which an entity is in use that has no more values leads from one state and world to
the other. -/
def Pairing.Fruitless (s : S) (a b : Pairing entities values × World M) : Prop :=
  ∃ e st w vs, (∃ n, a.1.advance ⟨s, n⟩ a.2 = .ok ((some e, st), w)) ∧
    (∃ n, values.next ⟨s, n⟩ st.values w = .ok ((none, vs), b.2)) ∧
      b.1 = { st with values := vs, current := none }

namespace Pairing

/-- With the next entity, another one is used up. -/
theorem after_of_advance {n : ℕ} {e : E} {st st' : Pairing entities values} {w w' : World M}
    (ran : st.advance ⟨s, n⟩ w = .ok ((some e, st'), w')) :
    st.current.isSome ∧ st' = st ∨
      st.current = none ∧ entities.After s st'.entities st.entities := by
  unfold advance at ran
  cases inUse : st.current with
  | some e =>
    rw [inUse] at ran
    cases ran
    exact .inl ⟨rfl, rfl⟩
  | none =>
    rw [inUse] at ran
    obtain ⟨⟨candidate, es⟩, v, drawn, ran⟩ := exists_of_draw_bind ran
    cases candidate with
    | none => cases ran
    | some e =>
      obtain ⟨vs, _, -, same⟩ := exists_of_draw_bind ran
      cases same
      exact .inr ⟨rfl, e, n, w, v, drawn⟩

/-- If the entities end, so do the fruitless rounds. -/
theorem acc_of_ends (ends : WellFounded (entities.After s))
    (a : Pairing entities values × World M) :
    Acc (fun b a => Fruitless s a b) a := by
  have fresh (es : entities.State) : ∀ a : Pairing entities values × World M,
      a.1.entities = es → a.1.current = none → Acc (fun b a => Fruitless s a b) a := by
    induction es using ends.induction with
    | _ es ih =>
      rintro a rfl fresh
      refine ⟨_, fun b fruitless => ?_⟩
      obtain ⟨e, st, w, vs, ⟨n, advanced⟩, -, same⟩ := fruitless
      rcases after_of_advance advanced with ⟨inUse, -⟩ | ⟨-, after⟩
      · simp [fresh] at inUse
      · exact ih st.entities after b (by rw [same]) (by rw [same])
  refine ⟨_, fun b fruitless => ?_⟩
  obtain ⟨e, st, w, vs, -, -, same⟩ := fruitless
  exact fresh _ b rfl (by rw [same])

/-- A pair is the next value for the entity in use, or entities have been used up for it. -/
theorem after_of_nextPair {n rounds : ℕ} {pair : E × V} {st st' : Pairing entities values}
    {w w' : World M} (ran : st.nextPair ⟨s, n⟩ rounds w = .ok ((some pair, st'), w')) :
    st.current.isSome ∧ st'.entities = st.entities ∧ values.After s st'.values st.values ∨
      Relation.TransGen (entities.After s) st'.entities st.entities := by
  induction rounds generalizing st w with
  | zero => cases ran
  | succ rounds ih =>
    rw [nextPair_succ] at ran
    obtain ⟨⟨entity, st₁⟩, w₁, advanced, ran⟩ := exists_of_draw_bind ran
    cases entity with
    | none => cases ran
    | some e =>
      obtain ⟨⟨value, vs⟩, w₂, drawn, ran⟩ := exists_of_draw_bind ran
      rcases after_of_advance advanced with ⟨inUse, rfl⟩ | ⟨-, after⟩
      · cases value with
        | some v =>
          cases ran
          exact .inl ⟨inUse, rfl, v, n, w₁, _, drawn⟩
        | none => exact .inr ((ih ran).resolve_left fun h => by simp at h)
      · cases value with
        | some v =>
          cases ran
          exact .inr (.single after)
        | none => exact .inr (.tail ((ih ran).resolve_left fun h => by simp at h) after)

/-- One state of a pair has fewer entities left than another one, or as many and fewer values. -/
def Less (s : S) (st' st : Pairing entities values) : Prop :=
  Prod.Lex (Relation.TransGen (entities.After s)) (values.After s)
    (st'.entities, st'.values) (st.entities, st.values)

theorem less_of_nextPair {n rounds : ℕ} {pair : E × V} {st st' : Pairing entities values}
    {w w' : World M} (ran : st.nextPair ⟨s, n⟩ rounds w = .ok ((some pair, st'), w')) :
    Less s st' st := by
  unfold Less
  rcases after_of_nextPair ran with ⟨-, same, after⟩ | after
  · rw [same]
    exact .right _ after
  · exact .left _ _ after

/-- If entities and values end, so do their pairs. -/
theorem wf_of_ends (endsE : WellFounded (entities.After s)) (endsV : WellFounded (values.After s)) :
    WellFounded (Less s : Pairing entities values → Pairing entities values → Prop) :=
  InvImage.wf (fun st : Pairing entities values => (st.entities, st.values))
    (endsE.transGen.prod_lex endsV)

variable (settledE : entities.Settled faults) (settledV : values.Settled faults)
include settledE settledV

theorem settles_handle (hook : Hook) (s : S) (st : Pairing entities values) :
    Draw.Settles faults fun n => st.handle hook ⟨s, n⟩ :=
  (settledE.handle hook s st.entities).bind fun _ _ =>
    (settledV.handle hook s st.values).bind fun _ _ => .pure _

omit settledV in
theorem settles_restart (s : S) (st : Pairing entities values) :
    Draw.Settles faults fun n => st.restart ⟨s, n⟩ :=
  (settledE.restart s st.entities).bind fun _ _ => .pure _

theorem settles_advance (s : S) (st : Pairing entities values) :
    Draw.Settles faults fun n => st.advance ⟨s, n⟩ := by
  unfold advance
  split
  · exact .pure _
  · refine (settledE.next s st.entities).bind fun r _ => ?_
    obtain ⟨candidate, es⟩ := r
    cases candidate with
    | none => exact .pure _
    | some e => exact (settledV.restart s st.values).bind fun _ _ => .pure _

theorem settles_drawPair (s : S) (st : Pairing entities values) :
    Draw.Settles faults fun n => st.drawPair ⟨s, n⟩ := by
  refine (settledE.nextOrRestart s st.entities).bind fun r _ => ?_
  obtain ⟨candidate, es⟩ := r
  cases candidate with
  | none => exact .pure _
  | some e => exact (settledV.nextOrRestart s st.values).bind fun _ _ => .pure _

/-- The search for a pair comes to its end if the fruitless rounds do. -/
theorem settlesAt_nextPair {a : Pairing entities values × World M}
    (ends : Acc (fun b a => Fruitless s a b) a) {rounds : ℕ → ℕ}
    (grows : Tendsto rounds atTop atTop) :
    Draw.SettlesAt faults (fun n => a.1.nextPair ⟨s, n⟩ (rounds n)) a.2 := by
  induction ends generalizing rounds with
  | intro a _ ih =>
    refine .of_succ (fun rounds n => a.1.nextPair ⟨s, n⟩ rounds) (fun _ => rfl) grows
      fun rest grows => ?_
    simp only [nextPair_succ]
    refine (settles_advance settledE settledV s a.1 a.2).bind fun n r w advanced => ?_
    obtain ⟨entity, st⟩ := r
    cases entity with
    | none => exact Draw.Settles.pure _ w
    | some e =>
      refine (settledV.next s st.values w).bind fun m r w' drawn => ?_
      obtain ⟨value, vs⟩ := r
      cases value with
      | some v => exact Draw.Settles.pure _ w'
      | none =>
        exact ih ({ st with values := vs, current := none }, w')
          ⟨e, st, w, vs, ⟨n, advanced⟩, ⟨m, drawn⟩, rfl⟩ grows

/-- If the entities end, the search for a pair comes to its end. -/
theorem settles_nextPair (ends : entities.neverEnding = false) (s : S)
    (st : Pairing entities values) : Draw.Settles faults fun n => st.nextPair ⟨s, n⟩ n := fun w =>
  settlesAt_nextPair settledE settledV (acc_of_ends (settledE.ends ends s) (st, w)) tendsto_id

/-- What comes to an end within some rounds has come to the end of its fruitless ones. -/
theorem acc_of_nextPair {n rounds : ℕ} {a : Pairing entities values × World M}
    (ended : a.1.nextPair ⟨s, n⟩ rounds a.2 ≠ .error .exhausted) :
    Acc (fun b a => Fruitless s a b) a := by
  induction rounds generalizing a with
  | zero => exact absurd rfl ended
  | succ rounds ih =>
    refine ⟨_, fun b fruitless => ?_⟩
    obtain ⟨e, st, w, vs, ⟨m, advanced⟩, ⟨k, drawn⟩, same⟩ := fruitless
    rw [nextPair_succ, draw_bind] at ended
    have advanced' := (settles_advance settledE settledV s a.1 a.2).eq_or_exhausted advanced n
    have drawn' := (settledV.next s st.values w).eq_or_exhausted drawn n
    rcases advanced' with advanced' | short
    · rw [advanced'] at ended
      dsimp only at ended
      rw [draw_bind] at ended
      rcases drawn' with drawn' | short
      · rw [drawn'] at ended
        dsimp only at ended
        rw [← same] at ended
        exact ih ended
      · rw [short] at ended
        exact absurd rfl ended
    · rw [short] at ended
      exact absurd rfl ended

/-- The search for a pair comes to its end exactly if the fruitless rounds do, and otherwise no
patience is enough for it. -/
theorem settlesAt_nextPair_iff (tireless : ¬faults .exhausted) (st : Pairing entities values)
    (w : World M) :
    (Draw.SettlesAt faults (fun n => st.nextPair ⟨s, n⟩ n) w ↔
      Acc (fun b a => Fruitless s a b) (st, w)) ∧
    (¬Acc (fun b a => Fruitless s a b) (st, w) → ∀ n,
      st.nextPair ⟨s, n⟩ n w = .error .exhausted) := by
  refine ⟨⟨fun settles => ?_, fun ends => settlesAt_nextPair settledE settledV ends tendsto_id⟩,
    fun endless n => ?_⟩
  · obtain ⟨x, breaks, -, stays⟩ := settles
    obtain ⟨n, reached⟩ := stays.exists
    exact acc_of_nextPair settledE settledV (a := (st, w)) fun short =>
      tireless (breaks _ (reached.symm.trans short))
  · by_contra ended
    exact endless (acc_of_nextPair settledE settledV ended)

/-- If there always is another entity, and never a value for one, there is no end to the search for
a pair. -/
theorem nextPair_exhausted (tireless : ¬faults .exhausted)
    (goes : ∀ st w, ∃ n e st' w', entities.next ⟨s, n⟩ st w = .ok ((some e, st'), w'))
    (begins : ∀ n st w, ∃ st' w', values.restart ⟨s, n⟩ st w = .ok (st', w'))
    (empty : ∀ n st w, ∃ st' w', values.next ⟨s, n⟩ st w = .ok ((none, st'), w')) (n : ℕ)
    (st : Pairing entities values) (w : World M) : st.nextPair ⟨s, n⟩ n w = .error .exhausted := by
  have advances (a : Pairing entities values × World M) :
      ∃ n e st w, a.1.advance ⟨s, n⟩ a.2 = .ok ((some e, st), w) := by
    unfold advance
    cases inUse : a.1.current with
    | some e => exact ⟨0, e, _, _, rfl⟩
    | none =>
      obtain ⟨n, e, es, w, drawn⟩ := goes a.1.entities a.2
      obtain ⟨vs, w', begun⟩ := begins n a.1.values w
      refine ⟨n, e, ⟨es, vs, some e⟩, w', ?_⟩
      dsimp only
      rw [draw_bind_eq drawn]
      dsimp only
      rw [draw_bind_eq begun]
      rfl
  have endless (a : Pairing entities values × World M) : ¬Acc (fun b a => Fruitless s a b) a := by
    intro ends
    induction ends with
    | intro a _ ih =>
      obtain ⟨n, e, st, w, advanced⟩ := advances a
      obtain ⟨vs, w', drawn⟩ := empty n st.values w
      exact ih ({ st with values := vs, current := none }, w')
        ⟨e, st, w, vs, ⟨n, advanced⟩, ⟨n, drawn⟩, rfl⟩
  exact (settlesAt_nextPair_iff settledE settledV tireless st w).2 (endless _) n

end Pairing

/-- A selector of changes is settled if it draws its pairs or its entities end. -/
theorem settled_changes (settledE : entities.Settled faults) (settledV : values.Settled faults)
    {isRandom : Bool} (ends : isRandom = true ∨ entities.neverEnding = false)
    (move : E → V → Move S)
    (name : String) : (changes entities values isRandom move name).Settled faults where
  handle := Pairing.settles_handle settledE settledV
  restart := Pairing.settles_restart settledE
  next s st := by
    simp only [changes]
    cases isRandom with
    | true => exact (Pairing.settles_drawPair settledE settledV s st).bind fun _ _ => .pure _
    | false =>
      exact (Pairing.settles_nextPair settledE settledV (ends.resolve_left Bool.false_ne_true) s st).bind
        fun _ _ => .pure _
  size s st := (settledE.size s st.entities).bind fun _ _ =>
    (settledV.size s st.values).bind fun _ _ => .ok _
  ends listed s := by
    simp only [changes, Bool.or_eq_false_iff] at listed
    obtain ⟨⟨rfl, endsE⟩, endsV⟩ := listed
    refine Subrelation.wf (fun {st' st} after => ?_)
      (Pairing.wf_of_ends (settledE.ends endsE s) (settledV.ends endsV s))
    obtain ⟨m, n, w, w', ran⟩ := after
    simp only [changes, Bool.false_eq_true, if_false] at ran
    obtain ⟨⟨pair, st₁⟩, w₁, searched, ran⟩ := exists_of_draw_bind ran
    cases pair with
    | none => cases ran
    | some pair =>
      cases ran
      exact Pairing.less_of_nextPair searched

/-- A selector of relocations of runs is settled if it draws its pairs or the runs end. -/
theorem settled_subChainChanges {v : ChainedVariable S} {runs : Selector M S SubChain}
    {values : Selector M S Handle} (settledR : runs.Settled faults)
    (settledV : values.Settled faults)
    {isRandom : Bool} (ends : isRandom = true ∨ runs.neverEnding = false) (reversingToo : Bool) :
    (subChainChanges v runs values reversingToo isRandom).Settled faults where
  handle hook s st := (Pairing.settles_handle settledR settledV hook s st.1).bind fun _ _ => .pure _
  restart s st := (Pairing.settles_restart settledR s st.1).bind fun _ _ => .pure _
  next s st := by
    simp only [subChainChanges]
    cases isRandom with
    | true =>
      refine (Pairing.settles_drawPair settledR settledV s st.1).bind fun r _ => ?_
      obtain ⟨pair, pairing⟩ := r
      cases pair with
      | none => exact .pure _
      | some pair =>
        have coin : Draw.Settles faults fun _ =>
            (Draw.generate fun g => .ok g.coin : Draw M Bool) := .generate fun _ => .ok _
        dsimp only
        split
        · exact coin.bind fun _ _ => .pure _
        · exact .pure _
    | false =>
      obtain ⟨pairing, pending⟩ := st
      cases pending with
      | some reverse => exact .pure _
      | none =>
        refine (Pairing.settles_nextPair settledR settledV (ends.resolve_left Bool.false_ne_true) s
          pairing).bind
          fun r _ => ?_
        obtain ⟨pair, pairing⟩ := r
        cases pair <;> exact .pure _
  size s st := (settledR.size s st.1.entities).bind fun _ _ =>
    (settledV.size s st.1.values).bind fun _ _ => .ok _
  ends listed s := by
    simp only [subChainChanges, Bool.or_eq_false_iff] at listed
    obtain ⟨⟨rfl, endsR⟩, endsV⟩ := listed
    -- The opposite direction of a run comes after the run, and leaves the pair as it is.
    refine Subrelation.wf (fun {st' st} after => ?_) (InvImage.wf
      (fun st : Pairing runs values × Option (Move S) => (st.1, if st.2.isSome then 1 else 0))
      ((Pairing.wf_of_ends (settledR.ends endsR s) (settledV.ends endsV s)).prod_lex Nat.lt_wfRel.wf))
    obtain ⟨m, n, w, w', ran⟩ := after
    obtain ⟨pairing, pending⟩ := st
    simp only [subChainChanges, Bool.false_eq_true, if_false] at ran
    cases pending with
    | some reverse =>
      cases ran
      exact .right _ Nat.zero_lt_one
    | none =>
      obtain ⟨⟨pair, next⟩, w₁, searched, ran⟩ := exists_of_draw_bind ran
      cases pair with
      | none => cases ran
      | some pair =>
        cases ran
        exact .left _ _ (Pairing.less_of_nextPair searched)

end Pairs

/-! ## Unions -/

namespace States

variable {children : List (Selector M S C)}

theorem settles_mapM {f : (n : ℕ) → (child : Selector M S C) → child.State → Draw M child.State}
    (each : ∀ child ∈ children, ∀ st, Draw.Settles faults fun n => f n child st)
    (sts : States children) : Draw.Settles faults fun n => mapM (f n) children sts := by
  induction children with
  | nil => exact .pure ()
  | cons child rest ih =>
    obtain ⟨first, others⟩ := List.forall_mem_cons.1 each
    exact (first sts.1).bind fun _ _ => (ih others sts.2).bind fun _ _ => .pure _

variable (settled : ∀ child ∈ children, child.Settled faults)
include settled

theorem breaks_sizes (s : S) (sts : States children) : Breaks faults (sizes s children sts) := by
  induction children with
  | nil => exact .ok []
  | cons child rest ih =>
    obtain ⟨first, others⟩ := List.forall_mem_cons.1 settled
    exact (first.size s sts.1).bind fun _ _ => (ih others sts.2).bind fun _ _ => .ok _

theorem settles_nextAt (s : S) (i : ℕ) (sts : States children) :
    Draw.Settles faults fun n => nextAt ⟨s, n⟩ children i sts := by
  have visited : Draw.Settles faults fun n =>
      visit (fun child st => child.nextOrRestart ⟨s, n⟩ st) children i sts := by
    induction children generalizing i with
    | nil => exact .pure _
    | cons child rest ih =>
      obtain ⟨first, others⟩ := List.forall_mem_cons.1 settled
      cases i with
      | zero => exact (first.nextOrRestart s sts.1).bind fun _ _ => .pure _
      | succ i => exact (ih others i sts.2).bind fun _ _ => .pure _
  exact visited.bind fun _ _ => .pure _

theorem settles_nextAmong (s : S) (indices : List ℕ) (sts : States children) :
    Draw.Settles faults fun n => nextAmong ⟨s, n⟩ children indices sts := by
  induction indices generalizing sts with
  | nil => exact .pure _
  | cons i rest ih =>
    refine (settles_nextAt settled s i sts).bind fun r _ => ?_
    obtain ⟨c, sts⟩ := r
    cases c with
    | some c => exact .pure _
    | none => exact ih sts

theorem settles_nextFrom (s : S) (i : ℕ) (sts : States children) :
    Draw.Settles faults fun n => nextFrom ⟨s, n⟩ children i sts := by
  induction children generalizing i with
  | nil => exact .pure _
  | cons child rest ih =>
    obtain ⟨first, others⟩ := List.forall_mem_cons.1 settled
    cases i with
    | succ i => exact (ih others i sts.2).bind fun _ _ => .pure _
    | zero =>
      refine (first.next s sts.1).bind fun r _ => ?_
      obtain ⟨c, st⟩ := r
      cases c with
      | some c => exact .pure _
      | none => exact (ih others 0 sts.2).bind fun _ _ => .pure _

/-- If the passes of all selectors end, so does one that goes through them. -/
theorem wf_of_ends (ends : ∀ child ∈ children, child.neverEnding = false) (s : S) :
    WellFounded ((union children false).After s) := by
  induction children with
  | nil => exact ⟨fun st => ⟨st, by rintro st' ⟨c, _, _, _, ⟨⟩⟩⟩⟩
  | cons child rest ih =>
    obtain ⟨settled, others⟩ := List.forall_mem_cons.1 settled
    obtain ⟨endsFirst, endsRest⟩ := List.forall_mem_cons.1 ends
    -- Past the first selector, the pass is one through the others.
    have past (a : ℕ × States rest) : ∀ st : child.State,
        Acc ((union (child :: rest) false).After s) (a.1 + 1, st, a.2) := by
      induction a using (ih others endsRest).induction with
      | _ a ih =>
        refine fun st => ⟨_, fun b after => ?_⟩
        obtain ⟨c, n, w, w', ran⟩ := after
        obtain ⟨⟨c', i, sts⟩, w₁, drawn, same⟩ := exists_of_draw_bind ran
        cases same
        exact ih (i, sts) ⟨_, n, w, _, drawn⟩ st
    have first (st : child.State) : ∀ sts : States rest,
        Acc ((union (child :: rest) false).After s) (0, st, sts) := by
      induction st using (settled.ends endsFirst s).induction with
      | _ st ih =>
        refine fun sts => ⟨_, fun b after => ?_⟩
        obtain ⟨c, n, w, w', ran⟩ := after
        obtain ⟨⟨found, st'⟩, w₁, drawn, ran⟩ := exists_of_draw_bind ran
        cases found with
        | some x =>
          cases ran
          exact ih st' ⟨_, n, w, _, drawn⟩ sts
        | none =>
          obtain ⟨⟨c', i, sts'⟩, w₂, drawn, same⟩ := exists_of_draw_bind ran
          cases same
          exact past (i, sts') st'
    refine ⟨fun a => ?_⟩
    obtain ⟨i, st, sts⟩ := a
    cases i with
    | zero => exact first st sts
    | succ i => exact past (i, sts) st

end States

/-- A union is settled if the selectors in it are. -/
theorem settled_union {children : List (Selector M S C)} (isRandom : Bool)
    (settled : ∀ child ∈ children, child.Settled faults) (overflow : faults .overflow) :
    (union children isRandom).Settled faults := by
  have total (sizes : List ℕ) : Breaks faults (totalSize 0 sizes) := fun e failed =>
    overflows_totalSize 0 sizes e failed ▸ overflow
  refine ⟨fun hook s st => ?_, fun s st => ?_, fun s st => ?_, fun s st => ?_, fun ends s => ?_⟩
  · exact (States.settles_mapM (fun child member st => (settled child member).handle hook s st)
      st.2).bind fun _ _ => .pure _
  · exact (States.settles_mapM (fun child member st => (settled child member).restart s st)
      st.2).bind fun _ _ => .pure _
  · simp only [union]
    cases isRandom with
    | false => exact States.settles_nextFrom settled s st.1 st.2
    | true =>
      refine (Draw.Settles.lift (States.breaks_sizes settled s st.2)).bind fun sizes _ => ?_
      refine (Draw.Settles.lift (total sizes)).bind fun total _ => ?_
      split
      · exact .pure _
      · rename_i some
        exact (Draw.Settles.below some).bind fun _ _ =>
          (States.settles_nextAmong settled s _ st.2).bind fun _ _ => .pure _
  · exact (States.breaks_sizes settled s st.2).bind fun sizes _ => total sizes
  · simp only [union, Bool.or_eq_false_iff] at ends
    obtain ⟨rfl, ends⟩ := ends
    exact States.wf_of_ends settled (fun child member => by
      simpa using List.any_eq_false.1 ends child member) s

end Selector

end PlanSearch
