import PlanSearch.Proofs.Lockstep.Moves
import PlanSearch.Proofs.Selector.Ranges
import PlanSearch.Proofs.Selector.Repeated

/-!
# How many moves a pass has

A pass over pairs in order is made of blocks: an entity, and the values that one of their passes has
yielded for it. The size of the pairs is a product. It bounds the pass if there are no more blocks
than the size of the entities says, or else if entities that come again meet the same values again.
What the passes over the values see of the memory is thereby a matter of the entity.
-/

namespace PlanSearch.Selector

variable {M S C E V O : Type} {shown : Point S → Setting S → Prop} {view : M → O}

/-! ## Entities -/

/-- The possible passes of a selector of entities. What the values see of the memory changes with
every entity in one way, whatever entities there were before. -/
structure Leading (sel : Selector M S E) (shown : Point S → Setting S → Prop) (view : M → O)
    (told : E → O → O) where
  /-- What is known of the states of the selector. -/
  Inv : Point S → sel.State → Prop
  /-- The entities that the pass under way has yielded. -/
  During : S → sel.State → List E → Prop
  sized : ∀ {first now st}, Inv (.step first now) st → Overflows (sel.size now st)
  start : Inv .idle sel.start
  handle : ∀ {p p' hook set st st'} {w w' : World M}, Inv p st →
    p.after hook set.solution = some p' → shown p' set →
    sel.handle hook set st w = .ok (st', w') → Inv p' st'
  restart : ∀ {first set st st'} {w w' : World M}, Inv (.step first set.solution) st →
    sel.restart set st w = .ok (st', w') → Inv (.step first set.solution) st' ∧
      sel.size set.solution st' = sel.size set.solution st ∧ During set.solution st' []
  next : ∀ {first set st e st'} {w w' : World M}, Inv (.step first set.solution) st →
    sel.next set st w = .ok ((e, st'), w') → Inv (.step first set.solution) st' ∧
      sel.size set.solution st' = sel.size set.solution st ∧
      view w'.memory = e.elim (view w.memory) (fun e => told e (view w.memory)) ∧
      ∀ es, During set.solution st es → During set.solution st' (es ++ e.toList)
  told_told : ∀ e e' o, told e (told e' o) = told e o

namespace Leading

variable {sel child : Selector M S E} {told : E → O → O}

/-- A pass yields no more different entities than the size says. -/
def Bounded (leading : Leading sel shown view told) : Prop :=
  ∀ {first now st k es}, leading.Inv (.step first now) st → sel.size now st = .ok k →
    leading.During now st es → Within k es

/-- A pass yields no more entities than the size says, different ones or not. -/
def Counted (leading : Leading sel shown view told) : Prop :=
  ∀ {first now st k es}, leading.Inv (.step first now) st → sel.size now st = .ok k →
    leading.During now st es → es.length ≤ k

section Ranges

variable (blind : child.Ranges shown fun _ : M => ()) (apart : child.Ranges shown view)

/-- Entities that nobody looks at. -/
def unseen : Leading child shown view fun _ o => o where
  Inv p st := blind.Inv p st ∧ apart.Inv p st
  During s st es := blind.During s st () es
  sized known := blind.sized known.1
  start := ⟨blind.start, apart.start⟩
  handle known due shows ran :=
    ⟨blind.handle known.1 due shows ran, apart.handle known.2 due shows ran⟩
  restart known ran := by
    obtain ⟨known₁, stays, during⟩ := blind.restart known.1 ran
    exact ⟨⟨known₁, (apart.restart known.2 ran).1⟩, stays.size, during⟩
  next {_ _ _ e _ _ _} known ran := by
    obtain ⟨known₁, stays, during⟩ := blind.next known.1 ran
    obtain ⟨known₂, stays', -⟩ := apart.next known.2 ran
    refine ⟨⟨known₁, known₂⟩, stays.size, ?_, during⟩
    cases e <;> exact stays'.view
  told_told _ _ _ := rfl

/-- Entities that are recorded where the values look. -/
def seen {recorder : Recorder M E} {told : E → O → O}
    (writes : ∀ e m, view (recorder.record (some e) m) = told e (view m))
    (again : ∀ e e' o, told e (told e' o) = told e o) :
    Leading (child.recording recorder) shown view told where
  Inv p st := blind.Inv p st ∧ apart.Inv p st
  During s st es := blind.During s st () es
  sized known := blind.sized known.1
  start := ⟨blind.start, apart.start⟩
  handle {_ _ hook _ _ _ _ _} known due shows ran := by
    obtain ⟨inner, w₁, handled, ran⟩ := exists_of_draw_bind ran
    have known := And.intro (blind.handle known.1 due shows handled)
      (apart.handle known.2 due shows handled)
    cases hook <;> cases ran <;> exact known
  restart known ran := by
    obtain ⟨_, w₁, emptied, restarted⟩ := exists_of_draw_bind ran
    obtain ⟨known₁, stays, during⟩ := blind.restart known.1 restarted
    exact ⟨⟨known₁, (apart.restart known.2 restarted).1⟩, stays.size, during⟩
  next known drawn := by
    obtain ⟨⟨found, inner⟩, w₁, ran, drawn⟩ := exists_of_draw_bind drawn
    obtain ⟨known₁, stays, during⟩ := blind.next known.1 ran
    obtain ⟨known₂, stays', -⟩ := apart.next known.2 ran
    cases found with
    | none =>
      cases drawn
      exact ⟨⟨known₁, known₂⟩, stays.size, stays'.view, during⟩
    | some e =>
      cases drawn
      exact ⟨⟨known₁, known₂⟩, stays.size, (writes e _).trans (congrArg (told e) stays'.view), during⟩
  told_told := again

variable {blind apart}

theorem bounded_unseen (bounded : blind.Bounded) : (unseen blind apart).Bounded :=
  fun known size during => bounded known.1 size (blind.can_of_during known.1 during)

theorem counted_unseen (counted : blind.Counted) : (unseen blind apart).Counted :=
  fun known size during => counted known.1 size (blind.can_of_during known.1 during)

variable {recorder : Recorder M E}
variable (writes : ∀ e m, view (recorder.record (some e) m) = told e (view m))
variable (again : ∀ e e' o, told e (told e' o) = told e o)

theorem bounded_seen (bounded : blind.Bounded) : (seen blind apart writes again).Bounded :=
  fun known size during => bounded known.1 size (blind.can_of_during known.1 during)

theorem counted_seen (counted : blind.Counted) : (seen blind apart writes again).Counted :=
  fun known size during => counted known.1 size (blind.can_of_during known.1 during)

end Ranges

end Leading

/-! ## Pairs -/

/-- The pairs of entities with the values that they have met. -/
def pairsOf (blocks : List (E × List V)) : List (E × V) :=
  blocks.flatMap fun block => block.2.map (Prod.mk block.1)

theorem pairsOf_append (blocks more : List (E × List V)) :
    pairsOf (blocks ++ more) = pairsOf blocks ++ pairsOf more :=
  List.flatMap_append ..

section Pairs

variable {entities : Selector M S E} {values : Selector M S V} {told : E → O → O}
variable (leading : Leading entities shown view told) (ranges : values.Ranges shown view)

namespace Pairing

/-- What is known of both states. -/
structure Known (p : Point S) (st : Pairing entities values) : Prop where
  entities : leading.Inv p st.entities
  values : ranges.Inv p st.values

/-- The sizes stay as they are. -/
structure SameSizes (s : S) (st st' : Pairing entities values) : Prop where
  entities : entities.size s st'.entities = entities.size s st.entities
  values : values.size s st'.values = values.size s st.values

/-- The entities of a pass and the values that each of them has met. Every entity meets the values
of one pass, which sees what the entity tells. The last entity is the one in use, if there is one. -/
structure Covers (now : S) (st : Pairing entities values) (m : M) (blocks : List (E × List V)) :
    Prop where
  entities : leading.During now st.entities (blocks.map Prod.fst)
  values : ∀ block ∈ blocks, ranges.can now st.values (told block.1 (view m)) block.2
  current : ∀ e ∈ st.current, ∃ front vs, blocks = front ++ [(e, vs)] ∧
    told e (view m) = view m ∧ ranges.During now st.values (view m) vs

variable {leading ranges} {first : S} {set : Setting S} {st st' : Pairing entities values}
variable {w w' : World M}

theorem SameSizes.refl (s : S) (st : Pairing entities values) : SameSizes s st st := ⟨rfl, rfl⟩

theorem SameSizes.trans {s : S} {st₁ : Pairing entities values} (before : SameSizes s st st₁)
    (after : SameSizes s st₁ st') : SameSizes s st st' :=
  ⟨after.entities.trans before.entities, after.values.trans before.values⟩

theorem Known.handle {p p' : Point S} {hook : Hook} (known : Known leading ranges p st)
    (due : p.after hook set.solution = some p') (shows : shown p' set)
    (ran : st.handle hook set w = .ok (st', w')) : Known leading ranges p' st' := by
  obtain ⟨es, w₁, ranE, ran⟩ := exists_of_draw_bind ran
  obtain ⟨vs, w₂, ranV, same⟩ := exists_of_draw_bind ran
  cases same
  exact ⟨leading.handle known.entities due shows ranE, ranges.handle known.values due shows ranV⟩

variable (known : Known leading ranges (.step first set.solution) st)
include known

/-- A pass begins without entities. -/
theorem Known.restart (ran : st.restart set w = .ok (st', w')) :
    Known leading ranges (.step first set.solution) st' ∧ SameSizes set.solution st st' ∧
      ∀ m, Covers leading ranges set.solution st' m [] := by
  obtain ⟨es, w₁, ran, same⟩ := exists_of_draw_bind ran
  cases same
  obtain ⟨knownE, size, during⟩ := leading.restart known.entities ran
  exact ⟨⟨knownE, known.values⟩, ⟨size, rfl⟩, fun m => ⟨during, by rintro block ⟨⟩, by rintro x ⟨⟩⟩⟩

/-- The next entity begins a block. -/
theorem Known.advance {e : Option E} (ran : st.advance set w = .ok ((e, st'), w')) :
    Known leading ranges (.step first set.solution) st' ∧ SameSizes set.solution st st' ∧
      st'.current = e ∧ ∀ blocks, Covers leading ranges set.solution st w.memory blocks →
        ∃ blocks', Covers leading ranges set.solution st' w'.memory blocks' ∧
          pairsOf blocks' = pairsOf blocks := by
  obtain ⟨es, vs, current⟩ := st
  cases current with
  | some _ =>
    cases ran
    exact ⟨known, .refl _ _, rfl, fun blocks covers => ⟨blocks, covers, rfl⟩⟩
  | none =>
    obtain ⟨⟨found, es'⟩, w₁, ranE, ran⟩ := exists_of_draw_bind ran
    obtain ⟨knownE, size, tells, during⟩ := leading.next known.entities ranE
    cases found with
    | none =>
      cases ran
      refine ⟨⟨knownE, known.values⟩, ⟨size, rfl⟩, rfl,
        fun blocks covers => ⟨blocks, ⟨?_, ?_, by rintro x ⟨⟩⟩, rfl⟩⟩
      · simpa using during _ covers.entities
      · rw [tells]
        exact covers.values
    | some d =>
      obtain ⟨vs', w₂, ranV, same⟩ := exists_of_draw_bind ran
      cases same
      obtain ⟨knownV, stays, begun⟩ := ranges.restart known.values ranV
      have tells : view w'.memory = told d (view w.memory) := stays.view.trans tells
      refine ⟨⟨knownE, knownV⟩, ⟨size, stays.size⟩, rfl, fun blocks covers => ?_⟩
      have same (x : E) : told x (view w'.memory) = told x (view w.memory) := by
        rw [tells, leading.told_told]
      have now : told d (view w'.memory) = view w'.memory := (same d).trans tells.symm
      rw [← stays.view] at begun
      refine ⟨blocks ++ [(d, [])], ⟨?_, ?_, ?_⟩, ?_⟩
      · simpa using during _ covers.entities
      · intro block member
        rcases List.mem_append.1 member with earlier | last
        · rw [same, stays.can]
          exact covers.values block earlier
        · obtain rfl := List.mem_singleton.1 last
          rw [now]
          exact ranges.can_of_during knownV begun
      · rintro x ⟨⟩
        exact ⟨blocks, [], rfl, now, begun⟩
      · rw [pairsOf_append]
        exact List.append_nil _

/-- The next value for the entity in use comes at the end of the last block. -/
theorem Known.draw {e : E} {c : Option V} {vs : values.State} (current : st.current = some e)
    (ran : values.next set st.values w = .ok ((c, vs), w')) :
    Known leading ranges (.step first set.solution) { st with values := vs } ∧
      SameSizes set.solution st { st with values := vs } ∧
      ∀ blocks, Covers leading ranges set.solution st w.memory blocks →
        ∃ blocks', Covers leading ranges set.solution { st with values := vs } w'.memory blocks' ∧
          pairsOf blocks' = pairsOf blocks ++ (c.map (Prod.mk e)).toList := by
  obtain ⟨knownV, stays, during⟩ := ranges.next known.values ran
  refine ⟨⟨known.entities, knownV⟩, ⟨rfl, stays.size⟩, fun blocks covers => ?_⟩
  obtain ⟨front, before, rfl, tells, begun⟩ := covers.current e current
  have going := during _ begun
  refine ⟨front ++ [(e, before ++ c.toList)], ⟨?_, ?_, ?_⟩, ?_⟩
  · simpa using covers.entities
  · intro block member
    rw [stays.view]
    rcases List.mem_append.1 member with earlier | last
    · rw [stays.can]
      exact covers.values block (List.mem_append_left _ earlier)
    · obtain rfl := List.mem_singleton.1 last
      rw [tells]
      exact ranges.can_of_during knownV going
  · rintro x here
    obtain rfl := Option.some.inj (current.symm.trans here)
    rw [stays.view]
    exact ⟨front, _, rfl, tells, going⟩
  · rw [pairsOf_append, pairsOf_append, List.append_assoc]
    cases c <;> simp [pairsOf]

omit known in
/-- An entity that is done with leaves its block. -/
theorem Covers.over {s : S} {m : M} {blocks : List (E × List V)}
    (covers : Covers leading ranges s st m blocks) :
    Covers leading ranges s { st with current := none } m blocks :=
  ⟨covers.entities, covers.values, by rintro x ⟨⟩⟩

/-- The next pair is that of the last entity and its last value. -/
theorem Known.nextPair {rounds : Nat} {pair : Option (E × V)}
    (ran : st.nextPair set rounds w = .ok ((pair, st'), w')) :
    Known leading ranges (.step first set.solution) st' ∧ SameSizes set.solution st st' ∧
      ∀ blocks, Covers leading ranges set.solution st w.memory blocks →
        ∃ blocks', Covers leading ranges set.solution st' w'.memory blocks' ∧
          pairsOf blocks' = pairsOf blocks ++ pair.toList := by
  induction rounds generalizing st w with
  | zero => cases ran
  | succ rounds ih =>
    rw [nextPair_succ] at ran
    obtain ⟨⟨e, st₁⟩, w₁, advanced, ran⟩ := exists_of_draw_bind ran
    obtain ⟨known₁, sizes₁, current, covers₁⟩ := known.advance advanced
    cases e with
    | none =>
      cases ran
      exact ⟨known₁, sizes₁, by simpa using covers₁⟩
    | some e =>
      obtain ⟨⟨c, vs⟩, w₂, drawn, ran⟩ := exists_of_draw_bind ran
      obtain ⟨known₂, sizes₂, covers₂⟩ := known₁.draw current drawn
      cases c with
      | some v =>
        cases ran
        refine ⟨known₂, sizes₁.trans sizes₂, fun blocks covers => ?_⟩
        obtain ⟨blocks₁, covers, same⟩ := covers₁ blocks covers
        rw [← same]
        exact covers₂ blocks₁ covers
      | none =>
        have passed : Known leading ranges (.step first set.solution)
            (⟨st₁.entities, vs, none⟩ : Pairing entities values) :=
          ⟨known₂.entities, known₂.values⟩
        obtain ⟨known₃, sizes₃, covers₃⟩ := ih passed ran
        have sizes := sizes₁.trans sizes₂
        refine ⟨known₃, ⟨sizes₃.entities.trans sizes.entities, sizes₃.values.trans sizes.values⟩,
          fun blocks covers => ?_⟩
        obtain ⟨blocks₁, covers, same₁⟩ := covers₁ blocks covers
        obtain ⟨blocks₂, covers, same₂⟩ := covers₂ blocks₁ covers
        obtain ⟨blocks₃, covers, same₃⟩ := covers₃ blocks₂ covers.over
        refine ⟨blocks₃, covers, ?_⟩
        rw [same₃, same₂, same₁]
        simp

omit known

/-- The size of pairs bounds a pass. The entities are counted, or else equal entities meet equal
values. -/
theorem Covers.within {now : S} {m : M} {blocks : List (E × List V)}
    (covers : Covers leading ranges now st m blocks)
    (known : Known leading ranges (.step first now) st)
    (fits : leading.Counted ∧ ranges.Bounded ∨ leading.Bounded ∧ ranges.Pooled) {k n : Nat}
    (sizeE : entities.size now st.entities = .ok k) (sizeV : values.size now st.values = .ok n) :
    Within (k * n) (pairsOf blocks) := by
  rcases fits with ⟨counted, bounded⟩ | ⟨bounded, pooled⟩
  · have few := counted known.entities sizeE covers.entities
    rw [List.length_map] at few
    have each : Within (blocks.length * n) (pairsOf blocks) := Within.flatMap fun block member =>
      (bounded known.values sizeV (covers.values block member)).map _
    exact each.mono (Nat.mul_le_mul_right n few)
  · obtain ⟨pool, small, sub⟩ := bounded known.entities sizeE covers.entities
    obtain ⟨poolV, smallV, all⟩ := pooled known.values sizeV
    have whole : Within (pool.length * n)
        (pool.flatMap fun e => (poolV (told e (view m))).map (Prod.mk e)) :=
      Within.flatMap fun e _ => .of_length ((List.length_map ..).trans_le (smallV _))
    refine (whole.mono (Nat.mul_le_mul_right n small)).of_subset fun pair member => ?_
    obtain ⟨block, there, within⟩ := List.mem_flatMap.1 member
    obtain ⟨v, met, rfl⟩ := List.mem_map.1 within
    refine List.mem_flatMap.2 ⟨block.1, sub (List.mem_map_of_mem there), List.mem_map_of_mem ?_⟩
    exact all _ _ (covers.values block there) met

end Pairing

end Pairs

/-! ## Moves -/

/-- The passes of a selector of moves, in which nobody else changes the memory, and how many different
candidates they yield. -/
structure Sized (sel : Selector M S C) (shown : Point S → Setting S → Prop) where
  /-- What is known of the states of the selector. -/
  Inv : Point S → sel.State → Prop
  /-- The candidates that the pass under way has yielded, with the memory as it has left it. -/
  Yielded : S → sel.State → M → List C → Prop
  sized : ∀ {first now st}, Inv (.step first now) st → Overflows (sel.size now st)
  start : Inv .idle sel.start
  handle : ∀ {p p' hook set st st'} {w w' : World M}, Inv p st →
    p.after hook set.solution = some p' → shown p' set →
    sel.handle hook set st w = .ok (st', w') → Inv p' st'
  restart : ∀ {first set st st'} {w w' : World M}, Inv (.step first set.solution) st →
    sel.restart set st w = .ok (st', w') → Inv (.step first set.solution) st' ∧
      (∀ k, sel.size set.solution st' = .ok k ↔ sel.size set.solution st = .ok k) ∧
      ∀ m, Yielded set.solution st' m []
  next : ∀ {first set st c st'} {w w' : World M}, Inv (.step first set.solution) st →
    sel.next set st w = .ok ((c, st'), w') → Inv (.step first set.solution) st' ∧
      (∀ k, sel.size set.solution st' = .ok k ↔ sel.size set.solution st = .ok k) ∧
      ∀ cs, Yielded set.solution st w.memory cs →
        Yielded set.solution st' w'.memory (cs ++ c.toList)
  few : sel.neverEnding = false → ∀ {first now st m cs k}, Inv (.step first now) st →
    Yielded now st m cs → sel.size now st = .ok k → ∃ n, Within n cs ∧ Count.saturated n ≤ k

section Changes

variable {entities : Selector M S E} {values : Selector M S V} {told : E → O → O}
variable (leading : Leading entities shown view told) (ranges : values.Ranges shown view)
variable (fits : entities.neverEnding = false → values.neverEnding = false →
  leading.Counted ∧ ranges.Bounded ∨ leading.Bounded ∧ ranges.Pooled)

theorem size_changes {isRandom : Bool} {move : E → V → Move S} {name : String} {s : S}
    {st st' : Pairing entities values} (same : Pairing.SameSizes s st st') (k : Nat) :
    (changes entities values isRandom move name).size s st' = .ok k ↔
      (changes entities values isRandom move name).size s st = .ok k := by
  simp only [changes, same.entities, same.values]

/-- The moves of one step, one for each pair. -/
def sizedChanges (move : E → V → Move S) (name : String) :
    Sized (changes entities values false move name) shown where
  Inv p st := Pairing.Known leading ranges p st
  Yielded s st m cs := ∃ blocks, Pairing.Covers leading ranges s st m blocks ∧
    cs = (pairsOf blocks).map fun pair => move pair.1 pair.2
  sized known := (leading.sized known.entities).bind fun _ _ =>
    (ranges.sized known.values).bind fun _ _ => .ok _
  start := ⟨leading.start, ranges.start⟩
  handle known due shows ran := Pairing.Known.handle known due shows ran
  restart known ran := by
    obtain ⟨known, same, covers⟩ := Pairing.Known.restart known ran
    exact ⟨known, size_changes same, fun m => ⟨[], covers m, rfl⟩⟩
  next known ran := by
    obtain ⟨⟨pair, pairing⟩, w₁, drawn, ran⟩ := exists_of_draw_bind ran
    cases ran
    obtain ⟨known, same, covers⟩ := Pairing.Known.nextPair known drawn
    refine ⟨known, size_changes same, ?_⟩
    rintro cs ⟨blocks, before, rfl⟩
    obtain ⟨blocks', after, pairs⟩ := covers blocks before
    refine ⟨blocks', after, ?_⟩
    rw [pairs, List.map_append]
    cases pair <;> rfl
  few ends {first now st m cs k} known yielded size := by
    obtain ⟨blocks, covers, rfl⟩ := yielded
    simp only [changes, Bool.false_or, Bool.or_eq_false_iff] at ends
    obtain ⟨kE, sizeE, size⟩ := PlanSearch.andThen_eq_ok.1 size
    obtain ⟨kV, sizeV, size⟩ := PlanSearch.andThen_eq_ok.1 size
    obtain rfl := Except.ok.inj size
    exact ⟨kE * kV, (covers.within known (fits ends.1 ends.2) sizeE sizeV).map _, le_rfl⟩

end Changes

section Runs

variable {v : ChainedVariable S} {runs : Selector M S SubChain} {values : Selector M S Handle}
variable {told : SubChain → O → O} (leading : Leading runs shown view told)
variable (ranges : values.Ranges shown view) (reversingToo : Bool)
variable (fits : runs.neverEnding = false → values.neverEnding = false →
  leading.Counted ∧ ranges.Bounded ∨ leading.Bounded ∧ ranges.Pooled)

theorem size_subChainChanges {isRandom : Bool} {s : S} {st st' : Pairing runs values}
    {pending pending' : Option (Move S)} (same : Pairing.SameSizes s st st') (k : Nat) :
    (subChainChanges v runs values reversingToo isRandom).size s (st', pending') = .ok k ↔
      (subChainChanges v runs values reversingToo isRandom).size s (st, pending) = .ok k := by
  simp only [subChainChanges, same.entities, same.values]

/-- There are two placements of a run at most, and one if it is not reversed. -/
theorem length_placements_le (run : SubChain) (target : Handle) :
    (placements v reversingToo run target).length ≤ if reversingToo then 2 else 1 := by
  unfold placements
  cases reversingToo with
  | false => simp
  | true =>
    simp only [true_and, if_true]
    split <;> simp

/-- The size of the moves is not exceeded by two for each pair, or one. -/
theorem saturated_placements_le (pairs : Nat) :
    Count.saturated (pairs * if reversingToo then 2 else 1) ≤
      if reversingToo then Count.saturated (Count.saturated pairs * 2)
      else Count.saturated pairs := by
  unfold Count.saturated
  cases reversingToo with
  | false => simp
  | true =>
    simp only [if_true]
    omega

/-- The moves of a pass together with the one that is put aside are the placements of its pairs. -/
def Placed (s : S) (st : Pairing runs values × Option (Move S)) (m : M) (cs : List (Move S)) :
    Prop :=
  ∃ blocks, Pairing.Covers leading ranges s st.1 m blocks ∧
    cs ++ st.2.toList =
      (pairsOf blocks).flatMap fun pair => placements v reversingToo pair.1 pair.2

variable {leading ranges} {reversingToo} in
/-- A move that was put aside is yielded without another pair. -/
theorem next_placed {first : S} {set : Setting S} {c : Option (Move S)}
    {st st' : Pairing runs values × Option (Move S)} {w w' : World M}
    (known : Pairing.Known leading ranges (.step first set.solution) st.1)
    (ran : (subChainChanges v runs values reversingToo false).next set st w = .ok ((c, st'), w')) :
    Pairing.Known leading ranges (.step first set.solution) st'.1 ∧
      Pairing.SameSizes set.solution st.1 st'.1 ∧
      ∀ cs, Placed (v := v) leading ranges reversingToo set.solution st w.memory cs →
        Placed (v := v) leading ranges reversingToo set.solution st' w'.memory (cs ++ c.toList) := by
  obtain ⟨pairing, pending⟩ := st
  cases pending with
  | some reverse =>
    cases ran
    refine ⟨known, .refl _ _, ?_⟩
    rintro cs ⟨blocks, covers, moves⟩
    exact ⟨blocks, covers, by simpa using moves⟩
  | none =>
    have draws := ran
    simp only [subChainChanges, Bool.false_eq_true, if_false] at draws
    obtain ⟨⟨pair, pairing'⟩, w₁, drawn, -⟩ := exists_of_draw_bind draws
    obtain ⟨⟨rfl, rfl⟩, rfl⟩ := Prod.mk.inj
      (Except.ok.inj (ran.symm.trans (next_subChainChanges drawn)))
    obtain ⟨known, same, covers⟩ := Pairing.Known.nextPair known drawn
    refine ⟨known, same, ?_⟩
    rintro cs ⟨blocks, before, moves⟩
    obtain ⟨blocks', after, pairs⟩ := covers blocks before
    refine ⟨blocks', after, ?_⟩
    rw [pairs, List.flatMap_append, ← moves]
    rcases pair with _ | ⟨run, target⟩
    · simp
    · by_cases reversed : reversingToo = true ∧ 1 < run.length
      · simp [placements, reversed]
      · simp [placements, reversed]

/-- The moves of one step, for each pair one or two. -/
def sizedSubChainChanges : Sized (subChainChanges v runs values reversingToo false) shown where
  Inv p st := Pairing.Known leading ranges p st.1
  Yielded s st m cs := Placed (v := v) leading ranges reversingToo s st m cs
  sized known := (leading.sized known.entities).bind fun _ _ =>
    (ranges.sized known.values).bind fun _ _ => .ok _
  start := ⟨leading.start, ranges.start⟩
  handle known due shows ran := by
    obtain ⟨pairing, w₁, handled, same⟩ := exists_of_draw_bind ran
    cases same
    exact Pairing.Known.handle known due shows handled
  restart known ran := by
    obtain ⟨pairing, w₁, restarted, same⟩ := exists_of_draw_bind ran
    cases same
    obtain ⟨known, same, covers⟩ := Pairing.Known.restart known restarted
    exact ⟨known, size_subChainChanges reversingToo same, fun m => ⟨[], covers m, rfl⟩⟩
  next known ran := by
    obtain ⟨known, same, placed⟩ := next_placed known ran
    exact ⟨known, size_subChainChanges reversingToo same, placed⟩
  few ends {first now st m cs k} known yielded size := by
    obtain ⟨blocks, covers, moves⟩ := yielded
    simp only [subChainChanges, Bool.false_or, Bool.or_eq_false_iff] at ends
    obtain ⟨kE, sizeE, size⟩ := PlanSearch.andThen_eq_ok.1 size
    obtain ⟨kV, sizeV, size⟩ := PlanSearch.andThen_eq_ok.1 size
    obtain rfl := Except.ok.inj size
    have pairs := covers.within known (fits ends.1 ends.2) sizeE sizeV
    have placed := pairs.bind (fun pair => placements v reversingToo pair.1 pair.2) fun pair =>
      length_placements_le reversingToo pair.1 pair.2
    exact ⟨_, placed.of_subset (moves ▸ List.subset_append_left ..),
      saturated_placements_le reversingToo _⟩

end Runs

/-! ## Unions -/

section Union

variable {child : Selector M S C} {children : List (Selector M S C)}

theorem totalSize_eq_ok {total k : Nat} {sizes : List Nat} : totalSize total sizes = .ok k ↔
    k = total + sizes.sum ∧ (sizes = [] ∨ k ≤ Count.max) := by
  induction sizes generalizing total with
  | nil => simp [totalSize, eq_comm]
  | cons size rest ih =>
    have first : totalSize total (size :: rest) = .ok k ↔
        total + size ≤ Count.max ∧ totalSize (total + size) rest = .ok k := by
      refine ⟨fun summed => ?_, ?_⟩
      · obtain ⟨sum, fits, summed⟩ := PlanSearch.andThen_eq_ok.1 summed
        obtain ⟨rfl, small⟩ := Count.checked_eq_ok_iff.1 fits
        exact ⟨small, summed⟩
      · rintro ⟨small, summed⟩
        rw [totalSize, Count.checked, if_pos small]
        exact summed
    rw [first, ih, List.sum_cons]
    simp only [List.cons_ne_nil, false_or]
    constructor
    · rintro ⟨small, rfl, rfl | le⟩
      · exact ⟨by simp, by simpa using small⟩
      · exact ⟨Nat.add_assoc .., le⟩
    · rintro ⟨rfl, le⟩
      exact ⟨by omega, by omega, .inr le⟩

/-- The size of a union is the sum of those of its first selector and of the others. -/
theorem size_union_cons {isRandom : Bool} {s : S} {i k : Nat} {st : child.State}
    {sts : States children} :
    (union (child :: children) isRandom).size s (i, st, sts) = .ok k ↔ ∃ a n,
      child.size s st = .ok a ∧ (union children isRandom).size s (0, sts) = .ok n ∧
        k = a + n ∧ k ≤ Count.max := by
  constructor
  · intro size
    obtain ⟨sizes, found, total⟩ := PlanSearch.andThen_eq_ok.1 size
    obtain ⟨a, first, found⟩ := PlanSearch.andThen_eq_ok.1 found
    obtain ⟨others, rest, found⟩ := PlanSearch.andThen_eq_ok.1 found
    obtain rfl := Except.ok.inj found
    obtain ⟨rfl, fits⟩ := totalSize_eq_ok.1 total
    simp only [List.cons_ne_nil, false_or, List.sum_cons, Nat.zero_add] at fits ⊢
    refine ⟨a, others.sum, first, ?_, rfl, fits⟩
    exact PlanSearch.andThen_eq_ok.2 ⟨others, rest, totalSize_eq_ok.2 ⟨by omega, .inr (by omega)⟩⟩
  · rintro ⟨a, n, first, size, rfl, fits⟩
    obtain ⟨others, rest, total⟩ := PlanSearch.andThen_eq_ok.1 size
    obtain ⟨rfl, -⟩ := totalSize_eq_ok.1 total
    refine PlanSearch.andThen_eq_ok.2 ⟨a :: others, ?_, totalSize_eq_ok.2 ⟨?_, .inr fits⟩⟩
    · rw [States.sizes, first]
      exact PlanSearch.andThen_eq_ok.2 ⟨others, rest, rfl⟩
    · simp

/-- The sum of sizes may be too large, but nothing else can keep it from being told. -/
theorem overflows_union_cons {isRandom : Bool} {s : S} {i j : Nat} {st : child.State}
    {sts : States children} (first : Overflows (child.size s st))
    (others : Overflows ((union children isRandom).size s (j, sts))) :
    Overflows ((union (child :: children) isRandom).size s (i, st, sts)) := by
  have rest : Overflows (States.sizes s children sts) := by
    intro e failed
    refine others e ?_
    simp only [union, failed]
    rfl
  refine Breaks.bind ?_ fun sizes _ => overflows_totalSize 0 sizes
  exact first.bind fun size _ => rest.bind fun sizes _ => .ok _

/-- The size stays as it is if those of the first selector and of the others do. -/
theorem size_union_congr {isRandom : Bool} {s : S} {i i' : Nat} {st st' : child.State}
    {sts sts' : States children} (first : ∀ k, child.size s st' = .ok k ↔ child.size s st = .ok k)
    (others : ∀ k, (union children isRandom).size s (0, sts') = .ok k ↔
      (union children isRandom).size s (0, sts) = .ok k) (k : Nat) :
    (union (child :: children) isRandom).size s (i', st', sts') = .ok k ↔
      (union (child :: children) isRandom).size s (i, st, sts) = .ok k := by
  rw [size_union_cons, size_union_cons]
  simp only [first, others]

theorem next_listed (set : Setting S) (st : Nat × States children) (w : World M) :
    (union children false).next set st w = States.nextFrom set children st.1 st.2 w := by
  simp only [union, Bool.false_eq_true, if_false]

/-- Selectors that are none at all. -/
def sizedNone : Sized (union ([] : List (Selector M S C)) false) shown where
  Inv _ _ := True
  Yielded _ _ _ cs := cs = []
  sized _ := .ok _
  start := trivial
  handle _ _ _ _ := trivial
  restart {_ _ st st' _ _} _ _ := ⟨trivial, fun k => by cases st; cases st'; rfl, fun _ => rfl⟩
  next {_ set st c st' w w'} _ ran := by
    have drawn : States.nextFrom set [] st.1 st.2 w = _ := (next_listed set st w).symm.trans ran
    cases drawn
    exact ⟨trivial, fun k => Iff.rfl, fun cs none => by simpa using none⟩
  few _ {_ _ _ _ _ _} _ none size := ⟨0, ⟨[], le_rfl, none ▸ List.Subset.refl _⟩, Nat.zero_le _⟩

/-- What the first selector has yielded, and then what the others have. -/
inductive Joined (first : Sized child shown) (others : Sized (union children false) shown) (s : S) :
    (union (child :: children) false).State → M → List C → Prop
  | early {st : child.State} {sts : States children} {m : M} {cs : List C}
    (yielded : first.Yielded s st m cs) (fresh : ∀ m, others.Yielded s (0, sts) m []) :
    Joined first others s (0, st, sts) m cs
  | late {i : Nat} {st : child.State} {sts : States children} {m before : M} {cs ds : List C}
    (done : first.Yielded s st before cs) (yielded : others.Yielded s (i, sts) m ds) :
    Joined first others s (i + 1, st, sts) m (cs ++ ds)

section Joined

variable {first : Sized child shown} {others : Sized (union children false) shown}
variable {start : S} {set : Setting S} {i : Nat} {st : child.State} {sts : States children}

/-- The first selector is asked until it has nothing more, and then the others are. -/
theorem next_joined {st' : (union (child :: children) false).State} {c : Option C} {w w' : World M}
    (known : first.Inv (.step start set.solution) st)
    (knownO : others.Inv (.step start set.solution) (i - 1, sts))
    (ran : States.nextFrom set (child :: children) i (st, sts) w = .ok ((c, st'), w')) :
    (first.Inv (.step start set.solution) st'.2.1 ∧
      others.Inv (.step start set.solution) (st'.1 - 1, st'.2.2)) ∧
    (∀ k, (union (child :: children) false).size set.solution st' = .ok k ↔
      (union (child :: children) false).size set.solution (i, st, sts) = .ok k) ∧
    ∀ cs, Joined first others set.solution (i, st, sts) w.memory cs →
      Joined first others set.solution st' w'.memory (cs ++ c.toList) := by
  cases i with
  | zero =>
    obtain ⟨⟨found, st₁⟩, w₁, ranF, rest⟩ := exists_of_draw_bind ran
    obtain ⟨knownF, sizeF, yields⟩ := first.next known ranF
    cases found with
    | some x =>
      cases rest
      refine ⟨⟨knownF, knownO⟩, size_union_congr sizeF fun _ => Iff.rfl, fun cs joined => ?_⟩
      cases joined with
      | early yielded fresh => exact .early (yields cs yielded) fresh
    | none =>
      obtain ⟨⟨later, j, sts'⟩, w₂, ranO, same⟩ := exists_of_draw_bind rest
      cases same
      obtain ⟨knownO, sizeO, yieldsO⟩ := others.next knownO
        (show (union children false).next set (0, sts) w₁ = _ from
          (next_listed set _ w₁).trans ranO)
      refine ⟨⟨knownF, knownO⟩, size_union_congr sizeF sizeO, fun cs joined => ?_⟩
      cases joined with
      | early yielded fresh =>
        have done := yields cs yielded
        rw [Option.toList_none, List.append_nil] at done
        exact .late done (yieldsO [] (fresh _))
  | succ i =>
    obtain ⟨⟨later, j, sts'⟩, w₂, ranO, same⟩ := exists_of_draw_bind ran
    cases same
    obtain ⟨knownO, sizeO, yieldsO⟩ := others.next knownO
      (show (union children false).next set (i, sts) w = _ from (next_listed set _ w).trans ranO)
    refine ⟨⟨known, knownO⟩, size_union_congr (fun _ => Iff.rfl) sizeO, fun cs joined => ?_⟩
    cases joined with
    | late done yielded =>
      rw [List.append_assoc]
      exact .late done (yieldsO _ yielded)

theorem Joined.few (ends : (union (child :: children) false).neverEnding = false) {now : S}
    {m : M} {cs : List C} {k : Nat} (known : first.Inv (.step start now) st)
    (knownO : others.Inv (.step start now) (i - 1, sts))
    (joined : Joined first others now (i, st, sts) m cs)
    (size : (union (child :: children) false).size now (i, st, sts) = .ok k) :
    ∃ n, Within n cs ∧ Count.saturated n ≤ k := by
  simp only [union, List.any_cons, Bool.false_or, Bool.or_eq_false_iff] at ends
  have endsO : (union children false).neverEnding = false := by
    simp only [union, ends.2, Bool.false_or]
  obtain ⟨a, n, sizeF, sizeO, rfl, -⟩ := size_union_cons.1 size
  cases joined with
  | early yielded fresh =>
    obtain ⟨few, within, le⟩ := first.few ends.1 known yielded sizeF
    exact ⟨few, within, le.trans (Nat.le_add_right a n)⟩
  | late done yielded =>
    obtain ⟨few, within, le⟩ := first.few ends.1 known done sizeF
    obtain ⟨few', within', le'⟩ := others.few endsO knownO yielded sizeO
    refine ⟨few + few', within.append within', ?_⟩
    unfold Count.saturated at le le' ⊢
    omega

variable (first others) in
/-- The first selector, and those that come after it. -/
def sizedJoined : Sized (union (child :: children) false) shown where
  Inv p st := first.Inv p st.2.1 ∧ others.Inv p (st.1 - 1, st.2.2)
  Yielded s st m cs := Joined first others s st m cs
  sized known := overflows_union_cons (first.sized known.1) (others.sized known.2)
  start := ⟨first.start, others.start⟩
  handle {p p' hook set st st' w w'} known due shows ran := by
    obtain ⟨⟨st₁, sts₁⟩, w₁, mapped, same⟩ := exists_of_draw_bind ran
    obtain ⟨st₂, w₂, handled, mapped⟩ := exists_of_draw_bind mapped
    obtain ⟨sts₂, w₃, rest, made⟩ := exists_of_draw_bind mapped
    cases made
    cases same
    have handledO : (union children false).handle hook set (st.1 - 1, st.2.2) w₂ =
      .ok ((st.1 - 1, sts₁), w') := draw_bind_eq rest
    exact ⟨first.handle known.1 due shows handled, others.handle known.2 due shows handledO⟩
  restart {start set st st' w w'} known ran := by
    obtain ⟨⟨st₁, sts₁⟩, w₁, mapped, same⟩ := exists_of_draw_bind ran
    obtain ⟨st₂, w₂, restarted, mapped⟩ := exists_of_draw_bind mapped
    obtain ⟨sts₂, w₃, rest, made⟩ := exists_of_draw_bind mapped
    cases made
    cases same
    have restartedO : (union children false).restart set (st.1 - 1, st.2.2) w₂ =
      .ok ((0, sts₁), w') := draw_bind_eq rest
    obtain ⟨knownF, sizeF, beginsF⟩ := first.restart known.1 restarted
    obtain ⟨knownO, sizeO, beginsO⟩ := others.restart known.2 restartedO
    refine ⟨⟨knownF, knownO⟩, fun k => ?_, fun m => .early (beginsF m) beginsO⟩
    exact size_union_congr sizeF sizeO k
  next {start set st c st' w w'} known ran :=
    next_joined known.1 known.2 ((next_listed set st w).symm.trans ran)
  few ends {start now st m cs k} known joined size := joined.few ends known.1 known.2 size

end Joined

/-- Several selectors of moves yield the moves of one after those of another. -/
theorem sized_union {children : List (Selector M S C)}
    (each : ∀ child ∈ children, Nonempty (Sized child shown)) :
    Nonempty (Sized (union children false) shown) := by
  induction children with
  | nil => exact ⟨sizedNone⟩
  | cons child rest ih =>
    obtain ⟨⟨first⟩, later⟩ := List.forall_mem_cons.1 each
    obtain ⟨others⟩ := ih later
    exact ⟨sizedJoined first others⟩

end Union

/-! ## Passes in a search -/

/-- Within a step a selector is shown the solution with which the step began. -/
def Steady (shown : Point S → Setting S → Prop) : Prop :=
  ∀ first now set, shown (.step first now) set → set.solution = now

/-- A pass that a search has begun in a step: the state that it has come to, with the memory and the
candidates so far. What others do to the memory between two draws is as described. -/
inductive Passing (sel : Selector M S C) (shown : Point S → Setting S → Prop)
    (others : M → M → Prop) (first now : S) (begun : sel.State) : sel.State → M → List C → Prop
  | start {inPass : Bool} {st : sel.State} {set : Setting S} {w w' : World M}
    (before : sel.Reached shown (.step first now) inPass st) (shows : shown (.step first now) set)
    (ran : sel.restart set st w = .ok (begun, w')) :
    Passing sel shown others first now begun begun w'.memory []
  | drawn {st st' : sel.State} {set : Setting S} {m : M} {c : Option C} {cs : List C}
    {w w' : World M} (before : Passing sel shown others first now begun st m cs)
    (between : others m w.memory) (shows : shown (.step first now) set)
    (ran : sel.next set st w = .ok ((c, st'), w')) :
    Passing sel shown others first now begun st' w'.memory (cs ++ c.toList)

section Passing

variable {sel : Selector M S C} {others : M → M → Prop} {first now : S} {begun st : sel.State}
variable {m : M} {cs : List C} {k : Nat} (steady : Steady shown)
include steady

theorem Ranges.inv_of_reached (ranges : sel.Ranges shown view) {p : Point S} {inPass : Bool}
    (reached : sel.Reached shown p inPass st) : ranges.Inv p st := by
  induction reached with
  | start => exact ranges.start
  | announced _ due shows ran known => exact ranges.handle known due shows ran
  | restarted _ shows ran known =>
    obtain rfl := steady _ _ _ shows
    exact (ranges.restart known ran).1
  | drawn _ shows ran known =>
    obtain rfl := steady _ _ _ shows
    exact (ranges.next known ran).1

theorem Sized.inv_of_reached (sized : Sized sel shown) {p : Point S} {inPass : Bool}
    (reached : sel.Reached shown p inPass st) : sized.Inv p st := by
  induction reached with
  | start => exact sized.start
  | announced _ due shows ran known => exact sized.handle known due shows ran
  | restarted _ shows ran known =>
    obtain rfl := steady _ _ _ shows
    exact (sized.restart known ran).1
  | drawn _ shows ran known =>
    obtain rfl := steady _ _ _ shows
    exact (sized.next known ran).1

omit steady in
theorem Passing.begun_reached (passing : sel.Passing shown others first now begun st m cs) :
    sel.Reached shown (.step first now) true begun := by
  induction passing with
  | start before shows ran => exact .restarted before shows ran
  | drawn _ _ _ _ ih => exact ih

omit steady in
/-- If the rest of a pass is a list, the pass comes to have all of it. -/
theorem Passing.supplied {set : Setting S} {L : List C} {w : World M}
    (still : ∀ m, others m m) (shows : shown (.step first now) set)
    (passing : sel.Passing shown others first now begun st w.memory cs)
    (supplies : sel.Supplies set L st) :
    ∃ st', sel.Passing shown others first now begun st' w.memory (cs ++ L) := by
  induction L generalizing st cs with
  | nil => exact ⟨st, (List.append_nil cs).symm ▸ passing⟩
  | cons c rest ih =>
    obtain ⟨st', drawn, supplies⟩ := supplies
    obtain ⟨last, passing⟩ := ih (passing.drawn (still _) shows (drawn w)) supplies
    exact ⟨last, by rwa [List.append_assoc] at passing⟩

/-- A pass begins with a size, if there is one in every step. -/
theorem Ranges.Told.exists_size {ranges : sel.Ranges shown view} (told : ranges.Told)
    (passing : sel.Passing shown others first now begun st m cs) :
    ∃ k, sel.size now begun = .ok k :=
  told (ranges.inv_of_reached steady passing.begun_reached)

/-- A pass does not yield more different candidates than the size says. -/
theorem Ranges.Bounded.ncard_le {ranges : sel.Ranges shown fun _ : M => ()}
    (bounded : ranges.Bounded) (passing : sel.Passing shown others first now begun st m cs)
    (size : sel.size now begun = .ok k) : {c | c ∈ cs}.ncard ≤ k := by
  have all : ranges.Inv (.step first now) st ∧ sel.size now st = .ok k ∧
      ranges.During now st () cs := by
    induction passing with
    | start before shows ran =>
      obtain rfl := steady _ _ _ shows
      obtain ⟨known, -, during⟩ := ranges.restart (ranges.inv_of_reached steady before) ran
      exact ⟨known, size, during⟩
    | drawn before between shows ran ih =>
      obtain rfl := steady _ _ _ shows
      obtain ⟨known, sized, during⟩ := ih
      obtain ⟨known, stays, further⟩ := ranges.next known ran
      exact ⟨known, stays.size.trans sized, further _ during⟩
  obtain ⟨known, sized, during⟩ := all
  exact (bounded known sized (ranges.can_of_during known during)).ncard_le

/-- A pass of moves does not yield more different candidates than the size says, as far as a word
can tell. -/
theorem Sized.ncard_le (sized : Sized sel shown) (ends : sel.neverEnding = false)
    (passing : sel.Passing shown Eq first now begun st m cs) :
    sel.size now begun = .error .overflow ∨
      ∃ k, sel.size now begun = .ok k ∧ Count.saturated {c | c ∈ cs}.ncard ≤ k := by
  have fits := sized.sized (sized.inv_of_reached steady passing.begun_reached)
  cases size : sel.size now begun with
  | error e => exact .inl (congrArg Except.error (fits e size))
  | ok k =>
    have all : sized.Inv (.step first now) st ∧ sel.size now st = .ok k ∧
        sized.Yielded now st m cs := by
      induction passing with
      | start before shows ran =>
        obtain rfl := steady _ _ _ shows
        obtain ⟨known, -, begins⟩ := sized.restart (sized.inv_of_reached steady before) ran
        exact ⟨known, size, begins _⟩
      | drawn before between shows ran ih =>
        obtain rfl := steady _ _ _ shows
        obtain ⟨known, has, yielded⟩ := ih
        obtain ⟨known, same, further⟩ := sized.next known ran
        exact ⟨known, (same k).2 has, further _ (between ▸ yielded)⟩
    obtain ⟨known, has, yielded⟩ := all
    obtain ⟨n, within, few⟩ := sized.few ends known yielded has
    exact .inr ⟨k, rfl, (min_le_min_right _ within.ncard_le).trans few⟩

end Passing

end PlanSearch.Selector
