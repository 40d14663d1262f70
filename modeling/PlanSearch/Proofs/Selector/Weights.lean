import PlanSearch.Proofs.Selector.RangesMoves

/-!
# The weights of children

A union in random order draws a child by its size. A child that is asked for a candidate begins a
new pass if its own is over. So it may be asked at any time, and if it yields a candidate its size is
positive all the while.
-/

namespace PlanSearch

theorem Count.saturated_pos {n : Nat} (positive : 0 < n) : 0 < Count.saturated n :=
  Nat.lt_min.2 ⟨positive, by decide⟩

namespace Selector

variable {M S C E V : Type} {shown : Point S → Setting S → Prop}

/-! ## Candidates whenever they are asked for -/

section Ready

variable {sel : Selector M S C} (ranges : sel.Ranges shown fun _ : M => ())

/-- What is known of a selector that is asked for candidates: they are only drawn if the size is
positive, or they belong to a pass, and the size bounds it. -/
structure Ranges.Ready (first now : S) (st : sel.State) : Prop where
  known : ranges.Inv (.step first now) st
  fits : ranges.Positive ∨ ranges.Bounded ∧ ∃ cs, ranges.During now st () cs

namespace Ranges.Ready

variable {ranges} {first : S} {set : Setting S} {st st' : sel.State} {c : Option C} {w w' : World M}

theorem next (ready : ranges.Ready first set.solution st)
    (ran : sel.next set st w = .ok ((c, st'), w')) :
    ranges.Ready first set.solution st' ∧
      sel.size set.solution st' = sel.size set.solution st ∧
      (c.isSome → ∀ k, sel.size set.solution st = .ok k → 0 < k) := by
  obtain ⟨known, stays, during⟩ := ranges.next ready.known ran
  rcases ready.fits with positive | ⟨bounded, cs, before⟩
  · refine ⟨⟨known, .inl positive⟩, stays.size, fun found k size => ?_⟩
    obtain ⟨x, rfl⟩ := Option.isSome_iff_exists.1 found
    exact positive ready.known ran size
  · have after := during cs before
    refine ⟨⟨known, .inr ⟨bounded, _, after⟩⟩, stays.size, fun found k size => ?_⟩
    obtain ⟨x, rfl⟩ := Option.isSome_iff_exists.1 found
    exact (bounded known (stays.size.trans size) (ranges.can_of_during known after)).pos
      (List.mem_append_right cs (List.mem_singleton_self x))

theorem restart (ready : ranges.Ready first set.solution st)
    (ran : sel.restart set st w = .ok (st', w')) :
    ranges.Ready first set.solution st' ∧
      sel.size set.solution st' = sel.size set.solution st := by
  obtain ⟨known, stays, begun⟩ := ranges.restart ready.known ran
  exact ⟨⟨known, ready.fits.imp_right fun fits => ⟨fits.1, [], begun⟩⟩, stays.size⟩

theorem nextOrRestart (ready : ranges.Ready first set.solution st)
    (ran : sel.nextOrRestart set st w = .ok ((c, st'), w')) :
    ranges.Ready first set.solution st' ∧
      sel.size set.solution st' = sel.size set.solution st ∧
      (c.isSome → ∀ k, sel.size set.solution st = .ok k → 0 < k) := by
  obtain ⟨⟨found, st₁⟩, w₁, drawn, ran⟩ := exists_of_draw_bind ran
  obtain ⟨ready₁, size₁, positive⟩ := ready.next drawn
  cases found with
  | some x =>
    cases ran
    exact ⟨ready₁, size₁, positive⟩
  | none =>
    obtain ⟨st₂, w₂, restarted, ran⟩ := exists_of_draw_bind ran
    obtain ⟨ready₂, size₂⟩ := ready₁.restart restarted
    obtain ⟨ready₃, size₃, positive⟩ := ready₂.next ran
    have same := size₂.trans size₁
    exact ⟨ready₃, size₃.trans same, fun found k size => positive found k (same.trans size)⟩

end Ranges.Ready

end Ready

/-! ## Pairs at random -/

section Pairs

variable {entities : Selector M S E} {values : Selector M S V}
variable (rangesE : entities.Ranges shown fun _ : M => ())
variable (rangesV : values.Ranges shown fun _ : M => ())

namespace Pairing

/-- What is known of the states of both parts. In a pass of moves, entities can be drawn. -/
structure Drawing (p : Point S) (inPass : Bool) (st : Pairing entities values) : Prop where
  entities : rangesE.Inv p st.entities
  values : rangesV.Inv p st.values
  ready : inPass → ∀ first now, p = .step first now → rangesE.Ready first now st.entities

variable {rangesE rangesV} {first : S} {p p' : Point S} {inPass : Bool} {set : Setting S}
variable {st st' : Pairing entities values} {w w' : World M}

namespace Drawing

theorem handle {hook : Hook} (drawing : Drawing rangesE rangesV p inPass st)
    (due : p.after hook set.solution = some p') (shows : shown p' set)
    (ran : st.handle hook set w = .ok (st', w')) : Drawing rangesE rangesV p' false st' := by
  obtain ⟨es, w₁, ranE, ran⟩ := exists_of_draw_bind ran
  obtain ⟨vs, w₂, ranV, same⟩ := exists_of_draw_bind ran
  cases same
  exact ⟨rangesE.handle drawing.entities due shows ranE,
    rangesV.handle drawing.values due shows ranV, by rintro ⟨⟩⟩

theorem restart (bounded : rangesE.Bounded)
    (drawing : Drawing rangesE rangesV (.step first set.solution) inPass st)
    (ran : st.restart set w = .ok (st', w')) :
    Drawing rangesE rangesV (.step first set.solution) true st' ∧
      SameSizes set.solution st st' := by
  obtain ⟨es, w₁, ran, same⟩ := exists_of_draw_bind ran
  cases same
  obtain ⟨known, stays, begun⟩ := rangesE.restart drawing.entities ran
  refine ⟨⟨known, drawing.values, ?_⟩, stays.size, rfl⟩
  rintro - _ _ ⟨⟩
  exact ⟨known, .inr ⟨bounded, [], begun⟩⟩

/-- A pair is only drawn if there are entities and values. -/
theorem drawPair (positive : rangesV.Positive)
    (drawing : Drawing rangesE rangesV (.step first set.solution) true st) {pair : Option (E × V)}
    (ran : st.drawPair set w = .ok ((pair, st'), w')) :
    Drawing rangesE rangesV (.step first set.solution) true st' ∧
      SameSizes set.solution st st' ∧ (pair.isSome → ∀ k n,
        entities.size set.solution st.entities = .ok k →
          values.size set.solution st.values = .ok n → 0 < k * n) := by
  obtain ⟨⟨e, es⟩, w₁, ranE, ran⟩ := exists_of_draw_bind ran
  obtain ⟨readyE, sizeE, positiveE⟩ := (drawing.ready rfl _ _ rfl).nextOrRestart ranE
  have ready (_ : true = true) (start now : S)
      (at_ : Point.step first set.solution = .step start now) : rangesE.Ready start now es := by
    obtain ⟨rfl, rfl⟩ := Point.step.inj at_
    exact readyE
  cases e with
  | none =>
    cases ran
    exact ⟨⟨readyE.known, drawing.values, ready⟩, ⟨sizeE, rfl⟩, by rintro ⟨⟩⟩
  | some e =>
    obtain ⟨⟨v, vs⟩, w₂, ranV, same⟩ := exists_of_draw_bind ran
    cases same
    have readyV : rangesV.Ready first set.solution st.values := ⟨drawing.values, .inl positive⟩
    obtain ⟨readyV', sizeV, positiveV⟩ := readyV.nextOrRestart ranV
    refine ⟨⟨readyE.known, readyV'.known, ready⟩, ⟨sizeE, sizeV⟩, fun found k n sizedE sizedV => ?_⟩
    rw [Option.isSome_map] at found
    exact Nat.mul_pos (positiveE rfl k sizedE) (positiveV found n sizedV)

end Drawing

end Pairing

end Pairs

/-! ## Moves at random -/

/-- In a step neither the draws nor the beginning of another pass change the size, and a candidate is
only drawn if it is positive. -/
structure Weighed (sel : Selector M S C) (shown : Point S → Setting S → Prop) : Prop where
  restart : ∀ {first now inPass set st st'} {w w' : World M},
    sel.Reached shown (.step first now) inPass st → shown (.step first now) set →
    sel.restart set st w = .ok (st', w') → ∀ k, sel.size now st' = .ok k ↔ sel.size now st = .ok k
  next : ∀ {first now set st c st'} {w w' : World M},
    sel.Reached shown (.step first now) true st → shown (.step first now) set →
    sel.next set st w = .ok ((c, st'), w') →
    (∀ k, sel.size now st' = .ok k ↔ sel.size now st = .ok k) ∧
      (c.isSome → ∀ k, sel.size now st = .ok k → 0 < k)

theorem Weighed.nextOrRestart {sel : Selector M S C} (weighed : sel.Weighed shown) {first now : S}
    {set : Setting S} {st st' : sel.State} {c : Option C} {w w' : World M}
    (reached : sel.Reached shown (.step first now) true st) (shows : shown (.step first now) set)
    (ran : sel.nextOrRestart set st w = .ok ((c, st'), w')) :
    sel.Reached shown (.step first now) true st' ∧
      (∀ k, sel.size now st' = .ok k ↔ sel.size now st = .ok k) ∧
      (c.isSome → ∀ k, sel.size now st = .ok k → 0 < k) := by
  obtain ⟨⟨found, st₁⟩, w₁, drawn, ran⟩ := exists_of_draw_bind ran
  have reached₁ := Reached.drawn reached shows drawn
  obtain ⟨size₁, positive⟩ := weighed.next reached shows drawn
  cases found with
  | some x =>
    cases ran
    exact ⟨reached₁, size₁, positive⟩
  | none =>
    obtain ⟨st₂, w₂, restarted, ran⟩ := exists_of_draw_bind ran
    have reached₂ := Reached.restarted reached₁ shows restarted
    have same (k : Nat) := (weighed.restart reached₁ shows restarted k).trans (size₁ k)
    obtain ⟨size₃, positive⟩ := weighed.next reached₂ shows ran
    exact ⟨.drawn reached₂ shows ran, fun k => (size₃ k).trans (same k),
      fun found k size => positive found k ((same k).2 size)⟩

section Changes

variable {entities : Selector M S E} {values : Selector M S V} (steady : Steady shown)
variable {rangesE : entities.Ranges shown fun _ : M => ()} (bounded : rangesE.Bounded)
variable {rangesV : values.Ranges shown fun _ : M => ()} (positive : rangesV.Positive)
variable {move : E → V → Move S} {name : String}
include steady bounded positive

theorem Reached.drawing_changes {p : Point S} {inPass : Bool}
    {st : (changes entities values true move name).State}
    (reached : (changes entities values true move name).Reached shown p inPass st) :
    Pairing.Drawing rangesE rangesV p inPass st := by
  induction reached with
  | start => exact ⟨rangesE.start, rangesV.start, by rintro ⟨⟩⟩
  | announced _ due shows ran ih => exact ih.handle due shows ran
  | restarted _ shows ran ih =>
    obtain rfl := steady _ _ _ shows
    exact (ih.restart bounded ran).1
  | drawn _ shows ran ih =>
    obtain rfl := steady _ _ _ shows
    obtain ⟨⟨pair, pairing⟩, w₁, drawn, ran⟩ := exists_of_draw_bind ran
    cases ran
    exact (ih.drawPair positive drawn).1

theorem weighed_changes : (changes entities values true move name).Weighed shown where
  restart reached shows ran := by
    obtain rfl := steady _ _ _ shows
    have drawing := reached.drawing_changes steady bounded positive
    exact size_changes (drawing.restart bounded ran).2
  next {_ _ set st _ _ _ _} reached shows ran := by
    obtain rfl := steady _ _ _ shows
    have drawing := reached.drawing_changes steady bounded positive
    obtain ⟨⟨pair, pairing⟩, w₁, drawn, ran⟩ := exists_of_draw_bind ran
    cases ran
    obtain ⟨-, same, some⟩ := drawing.drawPair positive drawn
    refine ⟨size_changes same, fun found k size => ?_⟩
    obtain ⟨kE, sizeE, size⟩ := PlanSearch.andThen_eq_ok.1 size
    obtain ⟨kV, sizeV, size⟩ := PlanSearch.andThen_eq_ok.1 size
    obtain rfl := Except.ok.inj size
    rw [Option.isSome_map] at found
    exact Count.saturated_pos (some found kE kV sizeE sizeV)

end Changes

section Runs

variable {v : ChainedVariable S} {runs : Selector M S SubChain} {values : Selector M S Handle}
variable (steady : Steady shown)
variable {rangesR : runs.Ranges shown fun _ : M => ()} (bounded : rangesR.Bounded)
variable {rangesV : values.Ranges shown fun _ : M => ()} (positive : rangesV.Positive)
variable {reversingToo : Bool}

/-- A move of a run is made of a pair. -/
theorem exists_of_next_subChainChanges {set : Setting S}
    {st st' : (subChainChanges v runs values reversingToo true).State} {m : Option (Move S)}
    {w w' : World M}
    (ran : (subChainChanges v runs values reversingToo true).next set st w = .ok ((m, st'), w')) :
    ∃ pair w₁, st.1.drawPair set w = .ok ((pair, st'.1), w₁) ∧ (m.isSome → pair.isSome) := by
  simp only [subChainChanges, if_true] at ran
  obtain ⟨⟨pair, pairing⟩, w₁, drawn, ran⟩ := exists_of_draw_bind ran
  cases pair with
  | none =>
    cases ran
    exact ⟨none, _, drawn, id⟩
  | some pair =>
    dsimp only at ran
    split at ran <;>
    · obtain ⟨reversing, w₂, -, ran⟩ := exists_of_draw_bind ran
      cases ran
      exact ⟨some pair, _, drawn, fun _ => rfl⟩

include steady bounded positive

theorem Reached.drawing_subChainChanges {p : Point S} {inPass : Bool}
    {st : (subChainChanges v runs values reversingToo true).State}
    (reached : (subChainChanges v runs values reversingToo true).Reached shown p inPass st) :
    Pairing.Drawing rangesR rangesV p inPass st.1 := by
  induction reached with
  | start => exact ⟨rangesR.start, rangesV.start, by rintro ⟨⟩⟩
  | announced _ due shows ran ih =>
    obtain ⟨pairing, w₁, handled, same⟩ := exists_of_draw_bind ran
    cases same
    exact ih.handle due shows handled
  | restarted _ shows ran ih =>
    obtain rfl := steady _ _ _ shows
    obtain ⟨pairing, w₁, restarted, same⟩ := exists_of_draw_bind ran
    cases same
    exact (ih.restart bounded restarted).1
  | drawn _ shows ran ih =>
    obtain rfl := steady _ _ _ shows
    obtain ⟨pair, w₁, drawn, -⟩ := exists_of_next_subChainChanges ran
    exact (ih.drawPair positive drawn).1

theorem weighed_subChainChanges :
    (subChainChanges v runs values reversingToo true).Weighed shown where
  restart reached shows ran := by
    obtain rfl := steady _ _ _ shows
    have drawing := reached.drawing_subChainChanges steady bounded positive
    obtain ⟨pairing, w₁, restarted, same⟩ := exists_of_draw_bind ran
    cases same
    exact size_subChainChanges reversingToo (drawing.restart bounded restarted).2
  next {_ _ set st _ _ _ _} reached shows ran := by
    obtain rfl := steady _ _ _ shows
    have drawing := reached.drawing_subChainChanges steady bounded positive
    obtain ⟨pair, w₁, drawn, made⟩ := exists_of_next_subChainChanges ran
    obtain ⟨-, same, some⟩ := drawing.drawPair positive drawn
    refine ⟨size_subChainChanges reversingToo same, fun found k size => ?_⟩
    obtain ⟨kR, sizeR, size⟩ := PlanSearch.andThen_eq_ok.1 size
    obtain ⟨kV, sizeV, size⟩ := PlanSearch.andThen_eq_ok.1 size
    obtain rfl := Except.ok.inj size
    have pairs : 0 < pairCount kR kV :=
      Count.saturated_pos (some (made found) kR kV sizeR sizeV)
    split
    · exact Count.saturated_pos (Nat.mul_pos pairs Nat.two_pos)
    · exact pairs

end Runs

/-! ## Children of unions -/

/-- Every positive size is drawn with some number below the sum. -/
theorem exists_childAt_eq {sizes : List Nat} {i : Nat} (positive : ∃ k, sizes[i]? = some k ∧ 0 < k) :
    ∃ r < sizes.sum, childAt sizes r = i := by
  obtain ⟨k, there, positive⟩ := positive
  induction sizes generalizing i with
  | nil => cases there
  | cons size rest ih =>
    rw [List.sum_cons]
    cases i with
    | zero =>
      obtain rfl := Option.some.inj there
      exact ⟨0, by omega, if_pos positive⟩
    | succ i =>
      obtain ⟨r, below, at_⟩ := ih there
      refine ⟨size + r, by omega, ?_⟩
      rw [childAt, if_neg (by omega), Nat.add_sub_cancel_left, at_]

namespace States

/-- Every state is as described. -/
def All (P : (child : Selector M S C) → child.State → Prop) :
    (children : List (Selector M S C)) → States children → Prop
  | [], _ => True
  | child :: rest, (st, sts) => P child st ∧ All P rest sts

variable {P Q : (child : Selector M S C) → child.State → Prop}
variable {children : List (Selector M S C)} {sts sts' : States children} {w w' : World M}

theorem all_start (each : ∀ child ∈ children, P child child.start) :
    All P children (start children) := by
  induction children with
  | nil => trivial
  | cons child rest ih =>
    obtain ⟨first, others⟩ := List.forall_mem_cons.1 each
    exact ⟨first, ih others⟩

theorem sizes_cons {child : Selector M S C} {s : S} {st : child.State} {l : List Nat} :
    sizes s (child :: children) (st, sts) = .ok l ↔
      ∃ k others, child.size s st = .ok k ∧ sizes s children sts = .ok others ∧ l = k :: others := by
  constructor
  · intro found
    obtain ⟨k, first, found⟩ := PlanSearch.andThen_eq_ok.1 found
    obtain ⟨others, rest, found⟩ := PlanSearch.andThen_eq_ok.1 found
    exact ⟨k, others, first, rest, (Except.ok.inj found).symm⟩
  · rintro ⟨k, others, first, rest, rfl⟩
    rw [sizes, first]
    exact PlanSearch.andThen_eq_ok.2 ⟨others, rest, rfl⟩

theorem sizes_congr {child : Selector M S C} {s : S} {st st' : child.State}
    (first : ∀ k, child.size s st' = .ok k ↔ child.size s st = .ok k)
    (others : ∀ l, sizes s children sts' = .ok l ↔ sizes s children sts = .ok l) (l : List Nat) :
    sizes s (child :: children) (st', sts') = .ok l ↔
      sizes s (child :: children) (st, sts) = .ok l := by
  simp only [sizes_cons, first, others]

/-- What is done to every state makes it as described. -/
theorem All.mapM {f : (child : Selector M S C) → child.State → Draw M child.State}
    (all : All P children sts) (ran : mapM f children sts w = .ok (sts', w'))
    (each : ∀ child ∈ children, ∀ st st' v v', P child st → f child st v = .ok (st', v') →
      Q child st') : All Q children sts' := by
  induction children generalizing w with
  | nil => trivial
  | cons child rest ih =>
    obtain ⟨first, others⟩ := List.forall_mem_cons.1 each
    obtain ⟨st', w₁, made, ran⟩ := exists_of_draw_bind ran
    obtain ⟨rest', w₂, mapped, same⟩ := exists_of_draw_bind ran
    cases same
    exact ⟨first _ _ _ _ all.1 made, ih all.2 mapped others⟩

/-- The sizes stay as they are if nothing that is done to a state changes its size. -/
theorem All.sizes_mapM {f : (child : Selector M S C) → child.State → Draw M child.State} {s : S}
    (all : All P children sts) (ran : States.mapM f children sts w = .ok (sts', w'))
    (each : ∀ child ∈ children, ∀ st st' v v', P child st → f child st v = .ok (st', v') →
      ∀ k, child.size s st' = .ok k ↔ child.size s st = .ok k) (l : List Nat) :
    sizes s children sts' = .ok l ↔ sizes s children sts = .ok l := by
  induction children generalizing w l with
  | nil => rfl
  | cons child rest ih =>
    obtain ⟨first, others⟩ := List.forall_mem_cons.1 each
    obtain ⟨st', w₁, made, ran⟩ := exists_of_draw_bind ran
    obtain ⟨rest', w₂, mapped, same⟩ := exists_of_draw_bind ran
    cases same
    exact sizes_congr (first _ _ _ _ all.1 made) (ih all.2 mapped others) l

section Asked

variable (weighed : ∀ child ∈ children, child.Weighed shown) {first now : S} {set : Setting S}
variable (shows : shown (.step first now) set)
variable (all : All (fun child => child.Reached shown (.step first now) true) children sts)
include weighed shows all

/-- A child that yields a candidate has a positive size. -/
theorem All.visit {i : Nat} {c : Option (Option C)}
    (ran : visit (fun child st => child.nextOrRestart set st) children i sts w =
      .ok ((c, sts'), w')) :
    All (fun child => child.Reached shown (.step first now) true) children sts' ∧
      (∀ l, sizes now children sts' = .ok l ↔ sizes now children sts = .ok l) ∧
      (c.join.isSome → ∀ l, sizes now children sts = .ok l → ∃ k, l[i]? = some k ∧ 0 < k) := by
  induction children generalizing i c w with
  | nil =>
    cases ran
    exact ⟨trivial, fun l => Iff.rfl, by rintro ⟨⟩⟩
  | cons child rest ih =>
    obtain ⟨weighedF, weighedO⟩ := List.forall_mem_cons.1 weighed
    cases i with
    | zero =>
      obtain ⟨⟨found, st'⟩, w₁, asked, same⟩ := exists_of_draw_bind ran
      cases same
      obtain ⟨reached, size, positive⟩ := weighedF.nextOrRestart all.1 shows asked
      refine ⟨⟨reached, all.2⟩, sizes_congr size fun _ => Iff.rfl, fun some l sized => ?_⟩
      obtain ⟨k, others, sizeF, -, rfl⟩ := sizes_cons.1 sized
      exact ⟨k, rfl, positive some k sizeF⟩
    | succ i =>
      obtain ⟨⟨found, rest'⟩, w₁, visited, same⟩ := exists_of_draw_bind ran
      cases same
      obtain ⟨reached, size, positive⟩ := ih weighedO all.2 visited
      refine ⟨⟨all.1, reached⟩, sizes_congr (fun _ => Iff.rfl) size, fun some l sized => ?_⟩
      obtain ⟨k, others, -, sizeO, rfl⟩ := sizes_cons.1 sized
      exact positive some others sizeO

theorem All.nextAt {i : Nat} {c : Option C}
    (ran : nextAt set children i sts w = .ok ((c, sts'), w')) :
    All (fun child => child.Reached shown (.step first now) true) children sts' ∧
      (∀ l, sizes now children sts' = .ok l ↔ sizes now children sts = .ok l) ∧
      (c.isSome → ∀ l, sizes now children sts = .ok l → ∃ k, l[i]? = some k ∧ 0 < k) := by
  obtain ⟨⟨found, sts₁⟩, w₁, visited, same⟩ := exists_of_draw_bind ran
  cases same
  exact all.visit weighed shows visited

theorem All.nextAmong {indices : List Nat} {c : Option C}
    (ran : nextAmong set children indices sts w = .ok ((c, sts'), w')) :
    All (fun child => child.Reached shown (.step first now) true) children sts' ∧
      ∀ l, sizes now children sts' = .ok l ↔ sizes now children sts = .ok l := by
  induction indices generalizing sts w with
  | nil =>
    cases ran
    exact ⟨all, fun l => Iff.rfl⟩
  | cons i rest ih =>
    obtain ⟨⟨found, sts₁⟩, w₁, asked, ran⟩ := exists_of_draw_bind ran
    obtain ⟨reached, size, -⟩ := all.nextAt weighed shows asked
    cases found with
    | some x =>
      cases ran
      exact ⟨reached, size⟩
    | none =>
      obtain ⟨reached, size'⟩ := ih reached ran
      exact ⟨reached, fun l => (size' l).trans (size l)⟩

end Asked

end States

section Union

variable {children : List (Selector M S C)}

/-- A union whose size is zero yields nothing. Otherwise its children are asked for a candidate. -/
theorem exists_of_next_union {set : Setting S} {st st' : (union children true).State}
    {c : Option C} {w w' : World M} (ran : (union children true).next set st w = .ok ((c, st'), w')) :
    ∃ total, (union children true).size set.solution st = .ok total ∧
      (c = none ∧ st' = st ∨ 0 < total ∧ ∃ indices w₁,
        States.nextAmong set children indices st.2 w₁ = .ok ((c, st'.2), w')) := by
  simp only [union, if_true] at ran
  obtain ⟨sizes, w₁, lifted, summing⟩ := exists_of_draw_bind ran
  obtain ⟨total, w₂, summed, drawing⟩ := exists_of_draw_bind summing
  refine ⟨total, PlanSearch.andThen_eq_ok.2
    ⟨sizes, (lift_eq_ok.1 lifted).1, (lift_eq_ok.1 summed).1⟩, ?_⟩
  split at drawing
  · cases drawing
    exact .inl ⟨rfl, rfl⟩
  · obtain ⟨r, w₃, -, asking⟩ := exists_of_draw_bind drawing
    obtain ⟨⟨found, sts⟩, w₄, asked, same⟩ := exists_of_draw_bind asking
    cases same
    exact .inr ⟨Nat.pos_of_ne_zero ‹_›, _, _, asked⟩

theorem size_union_eq_ok {isRandom : Bool} {s : S} {st : (union children isRandom).State} {k : Nat} :
    (union children isRandom).size s st = .ok k ↔
      ∃ sizes, States.sizes s children st.2 = .ok sizes ∧ totalSize 0 sizes = .ok k :=
  PlanSearch.andThen_eq_ok

variable (weighed : ∀ child ∈ children, child.Weighed shown)
include weighed

/-- The children of a union are where the union is. -/
theorem Reached.all_union {p : Point S} {inPass : Bool} {st : (union children true).State}
    (reached : (union children true).Reached shown p inPass st) :
    States.All (fun child => child.Reached shown p inPass) children st.2 := by
  induction reached with
  | start => exact States.all_start fun _ _ => .start
  | announced _ due shows ran ih =>
    obtain ⟨sts, w₁, mapped, same⟩ := exists_of_draw_bind ran
    cases same
    exact ih.mapM mapped fun _ _ _ _ _ _ before handled => .announced before due shows handled
  | restarted _ shows ran ih =>
    obtain ⟨sts, w₁, mapped, same⟩ := exists_of_draw_bind ran
    cases same
    exact ih.mapM mapped fun _ _ _ _ _ _ before restarted => .restarted before shows restarted
  | drawn _ shows ran ih =>
    obtain ⟨total, -, ⟨-, rfl⟩ | ⟨-, indices, w₁, asked⟩⟩ := exists_of_next_union ran
    · exact ih
    · exact (ih.nextAmong weighed shows asked).1

/-- The size of a union is the sum of those of its children. -/
theorem weighed_union (steady : Steady shown) : (union children true).Weighed shown where
  restart reached shows ran k := by
    have all := reached.all_union weighed
    obtain ⟨sts, w₁, mapped, same⟩ := exists_of_draw_bind ran
    cases same
    refine size_union_eq_ok.trans (Iff.trans ?_ size_union_eq_ok.symm)
    refine exists_congr fun sizes => and_congr_left fun _ => ?_
    exact all.sizes_mapM mapped (fun child member _ _ _ _ before restarted =>
      (weighed child member).restart before shows restarted) sizes
  next {_ _ set st c st' _ _} reached shows ran := by
    obtain ⟨total, sized, ⟨rfl, rfl⟩ | ⟨positive, indices, w₁, asked⟩⟩ := exists_of_next_union ran
    · exact ⟨fun _ => Iff.rfl, by rintro ⟨⟩⟩
    · have same := (reached.all_union weighed).nextAmong weighed shows asked
      refine ⟨fun k => ?_, fun _ k size => ?_⟩
      · refine size_union_eq_ok.trans (Iff.trans ?_ size_union_eq_ok.symm)
        exact exists_congr fun sizes => and_congr_left fun _ => same.2 sizes
      · obtain rfl := steady _ _ _ shows
        obtain rfl := Except.ok.inj (sized.symm.trans size)
        exact positive

/-- A child that yields a candidate can be drawn. -/
theorem exists_childAt {first now : S} {set : Setting S} (shows : shown (.step first now) set)
    {st : (union children true).State}
    (reached : (union children true).Reached shown (.step first now) true st) {i : Nat} {c : C}
    {sts' : States children} {w w' : World M}
    (asked : States.nextAt set children i st.2 w = .ok ((some c, sts'), w')) {sizes : List Nat}
    (sized : States.sizes now children st.2 = .ok sizes) :
    (∃ k, sizes[i]? = some k ∧ 0 < k) ∧ ∃ r < sizes.sum, childAt sizes r = i := by
  obtain ⟨-, -, positive⟩ := (reached.all_union weighed).nextAt weighed shows asked
  have some := positive rfl sizes sized
  exact ⟨some, exists_childAt_eq some⟩

end Union

end Selector

end PlanSearch
