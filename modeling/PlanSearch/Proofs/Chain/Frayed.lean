import PlanSearch.Proofs.Chain.Inverse

/-!
# Taking relocations back outside the chains

A run that was taken out of all chains stays linked up, and what is linked up there may be taken
apart by taking a later relocation back. A graph is frayed when it lacks links that another one has,
but only of entities that lead to no anchor. To take a relocation back on a frayed graph is either
refused or leads to a graph that is at most frayed. Since a valid graph has nothing that could fray,
whatever was done to it is either refused to be taken back or taken back exactly.
-/

namespace PlanSearch

namespace ChainGraph

variable {g g' u u' : ChainGraph} {run : SubChain} {target : Option Handle} {reversing : Bool}
variable {h root top d : Handle} {plan plan' : SplicePlan}

/-! ## Graphs without cycles -/

/-- Every element leads to one that is placed after nothing. -/
def Rooted (g : ChainGraph) : Prop := ∀ h, ∃ top, g.predecessor top = none ∧ g.Leads h top

theorem Rooted.acyclic (rooted : g.Rooted) : g.Acyclic := by
  intro h
  obtain ⟨top, free, leads⟩ := rooted h
  exact leads.not_cyclic free

theorem Valid.rooted (valid : g.Valid) : g.Rooted := by
  intro h
  cases link : g.predecessor h with
  | none => exact ⟨h, link, .refl h⟩
  | some before =>
    obtain ⟨root, anchor, leads⟩ := valid.anchored h (by simp [link])
    exact ⟨root, valid.anchor_free root anchor, leads⟩

theorem Leads.trans {a b c : Handle} (first : g.Leads a b) (second : g.Leads b c) :
    g.Leads a c := by
  induction first with
  | refl => exact second
  | step link _ ih => exact .step link (ih second)

theorem Linked.isSome_anchorOf (linked : g.Linked) :
    (g.anchorOf h).isSome ↔ ∃ root, g.kind? root = some .anchor ∧ g.Leads h root := by
  simp only [Option.isSome_iff_exists, anchorOf_eq_some_iff linked.anchor_free]

/-- What is placed after an element of a chain is in that chain. -/
theorem Linked.isSome_anchorOf_of_link {before : Handle} (linked : g.Linked)
    (link : g.predecessor h = some before) (found : (g.anchorOf before).isSome) :
    (g.anchorOf h).isSome := by
  obtain ⟨root, anchor, leads⟩ := linked.isSome_anchorOf.1 found
  exact linked.isSome_anchorOf.2 ⟨root, anchor, .step link leads⟩

/-- Behind a run of entities that is placed after nothing there is no chain. -/
theorem Linked.anchorOf_eq_none (linked : g.Linked) (placeable : g.Placeable run target)
    (free : g.predecessor run.first = none) (follows : g.predecessor h = some run.last) :
    g.anchorOf h = none := by
  rw [← Option.not_isSome_iff_eq_none, linked.isSome_anchorOf]
  rintro ⟨root, anchor, leads⟩
  have up := leads_first placeable.contiguous run.last_mem
  have onwards := (Leads.step follows up).of_leads leads (linked.anchor_free root anchor)
  have placed := onwards.isSome_predecessor (placeable.entity run.first run.first_mem) anchor
  rw [free] at placed
  cases placed

namespace Relocated

/-- The block leads to the target. -/
theorem leads_target (moved : g.Relocated run (some d) reversing g') (nodup : run.entities.Nodup)
    (member : h ∈ run.entities) : g'.Leads h d := by
  have first : g'.predecessor (run.oriented reversing).first = some d := by
    rw [moved.predecessor, relocated_first]
  exact (leads_first (moved.path nodup) (SubChain.mem_oriented.2 member)).snoc first

/-- Outside the run the way goes on as before, except through the block where that was inserted. -/
theorem leads_beyond {before : Handle} (moved : g.Relocated run target reversing g')
    (linked : g.Linked) (ready : Liftable g.predecessor run)
    (away : ∀ d, target = some d → d ∉ run.entities) (link : g.predecessor h = some before)
    (outside : h ∉ run.entities) (beyond : before ∉ run.entities) : g'.Leads h before := by
  have value := congrFun moved.predecessor h
  by_cases next : target = some before
  · subst next
    have elsewhere : some before ≠ g.predecessor run.first := by
      intro place
      rw [linked.unique_successor h run.first before link place.symm] at outside
      exact outside run.first_mem
    rw [ready.relocated_after link (away before rfl) elsewhere] at value
    have last := SubChain.mem_oriented.1 (SubChain.last_mem (run.oriented reversing))
    exact .step value (moved.leads_target ready.nodup last)
  · rw [relocated_of_notMem outside, link] at value
    · exact .step value (.refl before)
    · rw [link, ne_eq, Option.some.injEq]
      rintro rfl
      exact beyond run.last_mem
    · rintro d rfl there
      exact next (there.symm.trans link)

/-- From behind the run the way leads to what was in front of it, or through the block there. -/
theorem leads_across {p : Handle} (moved : g.Relocated run target reversing g')
    (ready : Liftable g.predecessor run) (link : g.predecessor h = some run.last)
    (place : g.predecessor run.first = some p) : g'.Leads h p := by
  have value := congrFun moved.predecessor h
  rw [ready.relocated_behind link] at value
  split at value
  · rename_i inPlace
    rw [inPlace.2, place] at moved
    have last := SubChain.mem_oriented.1 (SubChain.last_mem (run.oriented reversing))
    exact .step value (moved.leads_target ready.nodup last)
  · exact .step (value.trans place) (.refl p)

/-- What follows a run that is placed after nothing is left behind nothing. -/
theorem predecessor_behind (moved : g.Relocated run target reversing g')
    (ready : Liftable g.predecessor run) (link : g.predecessor h = some run.last)
    (free : g.predecessor run.first = none) : g'.predecessor h = none := by
  rw [moved.predecessor, ready.relocated_behind link, free, if_neg]
  rintro ⟨given, rfl⟩
  cases given

/-- An element leads to one that is placed after nothing, and to the given one if that is not in the
run. -/
def Ends (g' : ChainGraph) (run : SubChain) (top h : Handle) : Prop :=
  ∃ top', g'.predecessor top' = none ∧ g'.Leads h top' ∧ (top ∉ run.entities → top' = top)

theorem Ends.of_leads {before : Handle} (leads : g'.Leads h before)
    (ends : Ends g' run top before) : Ends g' run top h := by
  obtain ⟨top', free, onwards, same⟩ := ends
  exact ⟨top', free, leads.trans onwards, same⟩

/-- Elements outside the run still have a way that ends. Induction on the old way carries along
where the way ends from what is in front of the run. -/
theorem ends (moved : g.Relocated run target reversing g') (linked : g.Linked)
    (ready : Liftable g.predecessor run) (away : ∀ d, target = some d → d ∉ run.entities)
    (leads : g.Leads h top) (free : g.predecessor top = none) :
    (h ∉ run.entities → Ends g' run top h) ∧
      (h ∈ run.entities → (∀ p, g.predecessor run.first = some p → Ends g' run top p) ∧
        (g.predecessor run.first = none → top ∈ run.entities)) := by
  induction leads with
  | refl top =>
    refine ⟨fun outside => ?_, fun member => ⟨fun p place => ?_, fun _ => member⟩⟩
    · have still : g'.predecessor top = none := by
        rw [moved.predecessor, relocated_of_notMem outside (by simp [free]) (by simp [free]), free]
      exact ⟨top, still, .refl top, fun _ => rfl⟩
    · have inner := ready.predecessorIn_eq member
      have placed := isSome_predecessorIn (x := p) member
      rw [← place, inner, free] at placed
      cases placed
  | @step h before top link _ ih =>
    obtain ⟨beyond, within⟩ := ih free
    refine ⟨fun outside => ?_, fun member => ?_⟩
    · by_cases inside : before ∈ run.entities
      · obtain rfl : before = run.last := by
          by_contra inner
          exact outside (ready.mem_of_link linked.unique_successor inside inner link)
        obtain ⟨across, left⟩ := within inside
        cases place : g.predecessor run.first with
        | none =>
          have unplaced := moved.predecessor_behind ready link place
          exact ⟨h, unplaced, .refl h, fun outer => absurd (left place) outer⟩
        | some p => exact (across p place).of_leads (moved.leads_across ready link place)
      · exact (beyond inside).of_leads (moved.leads_beyond linked ready away link outside inside)
    · have inner := ready.predecessorIn_eq member
      rw [link] at inner
      rcases predecessorIn_eq_some inner with place | inside
      · refine ⟨fun p there => ?_, fun unplaced => ?_⟩
        · obtain rfl := Option.some.inj (place.symm.trans there)
          exact beyond (ready.outside _ place)
        · rw [unplaced] at place
          cases place
      · exact within inside

theorem rooted (moved : g.Relocated run target reversing g') (linked : g.Linked)
    (rooted : g.Rooted) (placeable : g.Placeable run target) : g'.Rooted := by
  have ready := rooted.acyclic.liftable placeable.contiguous
  have outer (h : Handle) (outside : h ∉ run.entities) :
      ∃ top, g'.predecessor top = none ∧ g'.Leads h top := by
    obtain ⟨top, free, leads⟩ := rooted h
    obtain ⟨top', free', leads', -⟩ :=
      (moved.ends linked ready placeable.away leads free).1 outside
    exact ⟨top', free', leads'⟩
  intro h
  by_cases member : h ∈ run.entities
  · cases target with
    | none =>
      have first : g'.predecessor (run.oriented reversing).first = none := by
        rw [moved.predecessor, relocated_first]
      exact ⟨_, first, leads_first (moved.path ready.nodup) (SubChain.mem_oriented.2 member)⟩
    | some d =>
      obtain ⟨top, free, leads⟩ := outer d (placeable.away d rfl)
      exact ⟨top, free, (moved.leads_target ready.nodup member).trans leads⟩
  · exact outer h member

/-- What is in a chain and not in the run stays in a chain. -/
theorem isSome_anchorOf (moved : g.Relocated run target reversing g') (linked : g.Linked)
    (ready : Liftable g.predecessor run) (placeable : g.Placeable run target)
    (outside : h ∉ run.entities) (found : (g.anchorOf h).isSome) : (g'.anchorOf h).isSome := by
  obtain ⟨root, anchor, leads⟩ := linked.isSome_anchorOf.1 found
  obtain ⟨top, -, leads', same⟩ :=
    (moved.ends linked ready placeable.away leads (linked.anchor_free root anchor)).1 outside
  obtain rfl := same (placeable.notMem_of_anchor anchor)
  exact moved.linked.isSome_anchorOf.2 ⟨top, (moved.kind top).trans anchor, leads'⟩

end Relocated

/-! ## Plans that were written -/

/-- The graph after the links of a plan were written. A run that is moved where it is, in its order,
stays untouched. -/
inductive Carried (g : ChainGraph) (run : SubChain) (target : Option Handle) :
    Bool → ChainGraph → Prop
  | stays (inPlace : target = g.predecessor run.first) : Carried g run target false g
  | moves {reversing : Bool} {g' : ChainGraph}
    (moving : reversing = true ∨ target ≠ g.predecessor run.first)
    (moved : g.Relocated run target reversing g') : Carried g run target reversing g'

theorem Carried.linked (carried : g.Carried run target reversing g') (linked : g.Linked) :
    g'.Linked := by
  cases carried with
  | stays _ => exact linked
  | moves _ moved => exact moved.linked

theorem Carried.rooted (carried : g.Carried run target reversing g') (linked : g.Linked)
    (rooted : g.Rooted) (placeable : g.Placeable run target) : g'.Rooted := by
  cases carried with
  | stays _ => exact rooted
  | moves _ moved => exact moved.rooted linked rooted placeable

/-- A plan can be written where no links form a cycle. -/
theorem Acyclic.applyPlan (acyclic : g.Acyclic) (linked : g.Linked)
    (planned : g.planMove run target reversing = .ok plan) :
    g.Placeable run target ∧ plan.oldPredecessor = g.predecessor run.first ∧
      ∃ g', g.applyPlan plan = .ok g' ∧ g.Carried run target reversing g' := by
  obtain ⟨placeable, rfl⟩ := planMove_eq_ok.1 planned
  refine ⟨placeable, rfl, ?_⟩
  by_cases still : reversing = false ∧ target = g.predecessor run.first
  · obtain ⟨rfl, inPlace⟩ := still
    refine ⟨g, ?_, .stays inPlace⟩
    rw [ChainGraph.applyPlan, plannedLinks, if_pos ⟨rfl, inPlace⟩]
    rfl
  · have moving : reversing = true ∨ target ≠ g.predecessor run.first := by
      rw [← Bool.not_eq_false]
      exact not_and_or.1 still
    have ready := acyclic.liftable placeable.contiguous
    obtain ⟨g', written, moved⟩ := exists_relocated_of_links linked ready placeable
      (plannedLinks_eq_of_moving linked ready placeable.away moving)
    exact ⟨g', written, .moves moving moved⟩

/-! ## Frayed graphs -/

/-- The links are those of another graph, except that some are cut of entities outside all its
chains. -/
structure Frayed (g u : ChainGraph) : Prop where
  kind : ∀ h, u.kind? h = g.kind? h
  linked : u.Linked
  link : ∀ h, u.predecessor h = g.predecessor h ∨
    u.predecessor h = none ∧ g.anchorOf h = none

theorem Linked.frayed_self (linked : g.Linked) : g.Frayed g :=
  ⟨fun _ => rfl, linked, fun _ => .inl rfl⟩

/-- Nothing of a valid graph can be frayed. -/
theorem Valid.eq_of_frayed (valid : g.Valid) (frayed : g.Frayed u) : u = g := by
  refine Linked.ext valid.linked frayed.linked frayed.kind (funext fun h => ?_)
  rcases frayed.link h with same | ⟨cut, loose⟩
  · exact same
  · have unplaced : ¬(g.predecessor h).isSome := by
      intro placed
      have found := valid.isSome_anchorOf.2 (.inr placed)
      rw [loose] at found
      cases found
    rw [cut, Option.not_isSome_iff_eq_none.1 unplaced]

namespace Frayed

theorem predecessor (frayed : g.Frayed u) {before : Handle}
    (link : u.predecessor h = some before) : g.predecessor h = some before := by
  rcases frayed.link h with same | ⟨cut, -⟩
  · rw [← same, link]
  · rw [cut] at link
    cases link

theorem acyclic (frayed : g.Frayed u) (acyclic : g.Acyclic) : u.Acyclic := by
  intro h cycle
  exact acyclic h (Relation.TransGen.mono (fun _ _ => frayed.predecessor) h h cycle)

theorem isSome_anchorOf (frayed : g.Frayed u) (linked : g.Linked)
    (found : (u.anchorOf h).isSome) : (g.anchorOf h).isSome := by
  obtain ⟨root, anchor, leads⟩ := frayed.linked.isSome_anchorOf.1 found
  exact linked.isSome_anchorOf.2
    ⟨root, (frayed.kind root).symm.trans anchor, leads.imp fun _ _ => frayed.predecessor⟩

/-- The head of a block that is not placed after anything is outside all chains only if it was to be
there. -/
theorem predecessor_first (frayed : g'.Frayed u') (moved : g.Relocated run target reversing g')
    (linked : g.Linked) (ready : Liftable g.predecessor run) (placeable : g.Placeable run target) :
    u'.predecessor (run.oriented reversing).first = target := by
  have first : g'.predecessor (run.oriented reversing).first = target := by
    rw [moved.predecessor, relocated_first]
  rcases frayed.link (run.oriented reversing).first with same | ⟨cut, loose⟩
  · rw [same, first]
  · cases target with
    | none => exact cut
    | some d =>
      obtain ⟨-, outside, top⟩ := placeable.destination d rfl
      have kept := moved.isSome_anchorOf linked ready placeable outside top
      have placed := moved.linked.isSome_anchorOf_of_link first kept
      rw [loose] at placed
      cases placed

/-- Moving the block back restores the links of the run, and those around it as far as they are not
cut. -/
theorem relocated_back (frayed : g'.Frayed u') (moved : g.Relocated run target reversing g')
    (linked : g.Linked) (ready : Liftable g.predecessor run) (placeable : g.Placeable run target)
    (moved' : u'.Relocated (run.oriented reversing) (g.predecessor run.first) reversing u) :
    g.Frayed u := by
  refine ⟨fun h => ?_, moved'.linked, fun h => ?_⟩
  · rw [moved'.kind, frayed.kind, moved.kind]
  rw [moved'.predecessor, relocated, SubChain.oriented_oriented]
  by_cases member : h ∈ run.entities
  · rw [inserted, if_pos member]
    exact .inl (ready.predecessorIn_eq member)
  have outside : h ∉ (run.oriented reversing).entities := SubChain.mem_oriented.not.2 member
  rcases frayed.link h with same | ⟨cut, loose⟩
  · have lifted : withdrawn u'.predecessor (run.oriented reversing) h =
        withdrawn g.predecessor run h := by
      have apart := ready.apart_oriented linked.unique_successor reversing
      have there : withdrawn (inserted _ target _) _ = _ := withdrawn_inserted apart
      have first : g'.predecessor (run.oriented reversing).first = target := by
        rw [moved.predecessor, relocated_first]
      rw [← there, ← relocated, ← moved.predecessor]
      simp only [withdrawn, same, first, frayed.predecessor_first moved linked ready placeable]
    have value : inserted (withdrawn u'.predecessor (run.oriented reversing))
        (g.predecessor run.first) run h =
          inserted (withdrawn g.predecessor run) (g.predecessor run.first) run h := by
      simp only [inserted, lifted]
    rw [value]
    rcases ready.inserted_withdrawn linked.unique_successor h with restored | ⟨lost, follows, free⟩
    · exact .inl restored
    · exact .inr ⟨lost, linked.anchorOf_eq_none placeable free follows⟩
  · have up : withdrawn u'.predecessor (run.oriented reversing) h = none := by
      rw [withdrawn, if_neg outside, cut, if_neg (by simp)]
    refine .inr ⟨?_, ?_⟩
    · rw [inserted, if_neg member, up, if_neg]
      rintro ⟨given, none⟩
      rw [← none] at given
      cases given
    · rw [← Option.not_isSome_iff_eq_none]
      intro found
      have kept := moved.isSome_anchorOf linked ready placeable member found
      rw [loose] at kept
      cases kept

theorem back (frayed : g'.Frayed u') (carried : g.Carried run target reversing g')
    (linked : g.Linked) (ready : Liftable g.predecessor run) (placeable : g.Placeable run target)
    (placeable' : u'.Placeable (run.oriented reversing) (g.predecessor run.first))
    (carried' : u'.Carried (run.oriented reversing) (g.predecessor run.first) reversing u) :
    g.Frayed u := by
  cases carried with
  | stays inPlace =>
    cases carried' with
    | stays _ => exact frayed
    | moves moving _ =>
      -- The run would have to be cut off from a place that is in a chain.
      have elsewhere : g.predecessor run.first ≠ u'.predecessor run.first :=
        moving.resolve_left Bool.false_ne_true
      rcases frayed.link run.first with same | ⟨cut, loose⟩
      · exact absurd same.symm elsewhere
      · cases place : g.predecessor run.first with
        | none => exact absurd (place.trans cut.symm) elsewhere
        | some d =>
          have found := frayed.isSome_anchorOf linked (placeable'.destination d place).2.2
          have placed := linked.isSome_anchorOf_of_link place found
          rw [loose] at placed
          cases placed
  | moves moving moved =>
    cases carried' with
    | stays inPlace =>
      have first : u.predecessor run.first = target :=
        frayed.predecessor_first moved linked ready placeable
      have elsewhere := moving.resolve_left Bool.false_ne_true
      exact absurd (first.symm.trans inPlace.symm) elsewhere
    | moves _ moved' => exact frayed.relocated_back moved linked ready placeable moved'

end Frayed

/-- A plan that takes a relocation back on a graph that is frayed leads to one that is at most
frayed. -/
theorem Rooted.planMove_back (rooted : g.Rooted) (linked : g.Linked)
    (planned : g.planMove run target reversing = .ok plan) (written : g.applyPlan plan = .ok g') :
    g'.Linked ∧ g'.Rooted ∧
      ∀ u', g'.Frayed u' → ∀ plan',
        u'.planMove (run.oriented reversing) plan.oldPredecessor reversing = .ok plan' →
        ∃ u, u'.applyPlan plan' = .ok u ∧ g.Frayed u := by
  obtain ⟨placeable, old, _, written', carried⟩ := rooted.acyclic.applyPlan linked planned
  obtain rfl := Except.ok.inj (written'.symm.trans written)
  have rooted' := carried.rooted linked rooted placeable
  refine ⟨carried.linked linked, rooted', fun u' frayed plan' planned' => ?_⟩
  obtain ⟨placeable', -, u, written'', carried'⟩ :=
    (frayed.acyclic rooted'.acyclic).applyPlan frayed.linked planned'
  rw [old] at placeable' carried'
  exact ⟨u, written'', frayed.back carried linked (rooted.acyclic.liftable placeable.contiguous)
    placeable placeable' carried'⟩

end ChainGraph

end PlanSearch
