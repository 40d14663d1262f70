import PlanSearch.Proofs.Chain.Relocation

/-!
# Taking relocations back

A relocation is taken back by moving the block that was inserted behind the element that the run was
taken from. The plan for this is made from the changed graph alone. Still it lists the same
entities in the opposite order, each with its two values swapped, and writing it restores the graph
with its index.
-/

namespace PlanSearch

/-- The write that takes a write back. -/
def LinkChange.swapped (link : LinkChange) : LinkChange := ⟨link.entity, link.new, link.old⟩

namespace ChainGraph

variable {g g' : ChainGraph} {run : SubChain} {target : Option Handle} {reversing : Bool}
variable {h : Handle} {old new : Handle → Option Handle} {l : List Handle}

/-! ## Opposite lists of changes -/

theorem changes_self : changes old old l = [] := by
  simp [changes]

theorem changes_reverse : changes old new l.reverse = (changes old new l).reverse :=
  List.filterMap_reverse

theorem changes_swapped :
    changes new old l = (changes old new l).map LinkChange.swapped := by
  induction l with
  | nil => rfl
  | cons h rest ih =>
    by_cases same : old h = new h
    · simpa [changes, same] using ih
    · simpa [changes, same, Ne.symm same, LinkChange.swapped] using ih

/-! ## The way back -/

/-- In a valid graph the elements of chains are the anchors and the entities with a link. -/
theorem Valid.isSome_anchorOf (valid : g.Valid) :
    (g.anchorOf h).isSome ↔ g.kind? h = some .anchor ∨ (g.predecessor h).isSome := by
  rw [Option.isSome_iff_exists]
  simp only [anchorOf_eq_some_iff valid.anchor_free]
  constructor
  · rintro ⟨root, anchor, leads⟩
    cases leads with
    | refl => exact .inl anchor
    | step link _ => exact .inr (by simp [link])
  · rintro (anchor | placed)
    · exact ⟨h, anchor, .refl h⟩
    · exact valid.anchored h placed

/-- What an entity is placed after is in a chain. -/
theorem Valid.isSome_anchorOf_predecessor {p : Handle} (valid : g.Valid)
    (link : g.predecessor h = some p) : (g.anchorOf p).isSome := by
  obtain ⟨root, anchor, leads⟩ := valid.anchored h (by simp [link])
  rw [Option.isSome_iff_exists]
  refine ⟨root, (anchorOf_eq_some_iff valid.anchor_free).2 ⟨anchor, ?_⟩⟩
  exact (Leads.step link (.refl p)).of_leads leads (valid.anchor_free root anchor)

/-- Graphs with the same elements and links and an exact index are the same. -/
theorem Linked.ext (linked : g.Linked) (linked' : g'.Linked) (kind : ∀ h, g'.kind? h = g.kind? h)
    (predecessor : g'.predecessor = g.predecessor) : g' = g := by
  refine ext_of_links kind (congrFun predecessor) fun x => ?_
  apply Option.ext
  intro h
  rw [linked'.index_exact, linked.index_exact, predecessor]

/-- What a relocation between two valid graphs provides in both directions. -/
structure Exchange (g : ChainGraph) (run : SubChain) (target : Option Handle) (reversing : Bool)
    (g' : ChainGraph) : Prop where
  moved : g.Relocated run target reversing g'
  valid : g.Valid
  valid' : g'.Valid
  placeable : g.Placeable run target

namespace Exchange

variable (exchange : g.Exchange run target reversing g')
include exchange

theorem ready : Withdrawable g.predecessor run :=
  exchange.valid.withdrawable exchange.placeable.entity exchange.placeable.contiguous

theorem predecessor_first : g'.predecessor (run.oriented reversing).first = target := by
  rw [exchange.moved.predecessor, relocated_first]

/-- The block can be moved back. -/
theorem placeable_back :
    g'.Placeable (run.oriented reversing) (g.predecessor run.first) := by
  obtain ⟨moved, valid, valid', placeable⟩ := exchange
  have ready := valid.withdrawable placeable.entity placeable.contiguous
  refine ⟨fun h member => ?_, moved.path ready.nodup, fun p link => ?_⟩
  · rw [moved.kind]
    exact placeable.entity h (SubChain.mem_oriented.1 member)
  · have outside := ready.outside p link
    have known := valid.linked.contains_of_predecessor link
    refine ⟨(contains_of_kind moved.kind).2 known, SubChain.mem_oriented.not.2 outside, ?_⟩
    rw [valid'.isSome_anchorOf, moved.kind, moved.isSome_predecessor valid placeable outside,
      ← valid.isSome_anchorOf]
    exact valid.isSome_anchorOf_predecessor link

/-- Moving the block back is a relocation to the old graph. -/
theorem symm : g'.Exchange (run.oriented reversing) (g.predecessor run.first) reversing g := by
  refine ⟨⟨fun h => (exchange.moved.kind h).symm, ?_, exchange.valid.linked⟩, exchange.valid',
    exchange.valid, exchange.placeable_back⟩
  rw [exchange.moved.predecessor,
    exchange.ready.relocated_relocated exchange.valid.unique_successor]

/-- After a move in place the run is followed by what followed it. -/
theorem link_of_inPlace (inPlace : target = g.predecessor run.first)
    (link : g.predecessor h = some run.last) :
    g'.predecessor h = some (run.oriented reversing).last := by
  have placed : target.isSome := inPlace ▸ exchange.ready.placed h link
  rw [exchange.moved.predecessor, exchange.ready.relocated_behind link, if_pos ⟨placed, inPlace⟩]

theorem successor_last_of_inPlace (inPlace : target = g.predecessor run.first) :
    g'.successor (run.oriented reversing).last = g.successor run.last := by
  apply Option.ext
  intro h
  rw [exchange.valid'.index_exact, exchange.valid.index_exact]
  constructor
  · intro link
    have back := exchange.symm.link_of_inPlace (by rw [exchange.predecessor_first, inPlace]) link
    rwa [SubChain.oriented_oriented] at back
  · exact exchange.link_of_inPlace inPlace

/-- After a move elsewhere the block is followed by what followed the target. -/
theorem successor_last (elsewhere : target ≠ g.predecessor run.first) :
    g'.successor (run.oriented reversing).last = target.bind g.successor := by
  apply Option.ext
  intro h
  rw [exchange.valid'.index_exact, Option.bind_eq_some_iff]
  constructor
  · intro link
    have placed := exchange.symm.ready.placed h link
    rw [exchange.predecessor_first, Option.isSome_iff_exists] at placed
    obtain ⟨d, rfl⟩ := placed
    refine ⟨d, rfl, (exchange.valid.index_exact d h).2 ?_⟩
    rw [exchange.symm.moved.predecessor, exchange.symm.ready.relocated_behind link,
      exchange.predecessor_first, if_neg fun both => elsewhere both.2.symm]
  · rintro ⟨d, rfl, recorded⟩
    rw [exchange.moved.predecessor]
    exact exchange.ready.relocated_after ((exchange.valid.index_exact d h).1 recorded)
      (exchange.placeable.away d rfl) elsewhere

/-- A move in place changes nothing unless it reverses a run of several entities. -/
theorem first_ne_last_of_inPlace (inPlace : target = g.predecessor run.first)
    (changed : g'.predecessor ≠ g.predecessor) : run.first ≠ run.last := by
  intro same
  have single := SubChain.length_eq_one_of_first_eq_last exchange.ready.nodup same
  refine changed ?_
  rw [exchange.moved.predecessor, relocated, SubChain.oriented_of_length single, inPlace]
  exact exchange.ready.inserted_withdrawn exchange.valid.unique_successor

/-- A relocation and the way back look at the same entities in opposite orders, if they change
anything. -/
theorem touched_back (changed : g'.predecessor ≠ g.predecessor) :
    g'.touched (run.oriented reversing) (g.predecessor run.first) reversing =
      (g.touched run target reversing).reverse := by
  have single (o : Option Handle) : o.toList.reverse = o.toList := by cases o <;> rfl
  unfold touched
  rw [exchange.predecessor_first, relinked_oriented]
  by_cases inPlace : target = g.predecessor run.first
  · have several := exchange.first_ne_last_of_inPlace inPlace changed
    have indices : run.first.index ≠ run.last.index := by
      intro same
      exact several (congrArg Handle.mk same)
    -- The orientation of the run decides the order, and the block has the opposite one.
    cases reversing with
    | false =>
      rw [exchange.moved.predecessor, inPlace,
        exchange.ready.relocated_self exchange.valid.unique_successor] at changed
      exact absurd rfl changed
    | true =>
      have first : (run.oriented true).first = run.last := SubChain.first_reversed run
      have last : (run.oriented true).last = run.first := SubChain.last_reversed run
      have behind := exchange.successor_last_of_inPlace inPlace
      rw [if_pos inPlace, if_pos inPlace.symm, behind, first, last]
      by_cases backwards : run.last.index < run.first.index
      · rw [if_pos backwards, if_neg (by omega), List.reverse_append, single]
      · rw [if_neg backwards, if_pos (by omega), List.reverse_append, single]
  · have elsewhere : g.predecessor run.first ≠
        g'.predecessor (run.oriented reversing).first := by
      rw [exchange.predecessor_first]
      exact Ne.symm inPlace
    have back := exchange.symm.successor_last elsewhere
    rw [SubChain.oriented_oriented] at back
    rw [if_neg inPlace, if_neg (Ne.symm inPlace), exchange.successor_last inPlace, ← back]
    simp [single]

theorem plannedLinks_back :
    g'.plannedLinks (run.oriented reversing) (g.predecessor run.first) reversing =
      ((g.plannedLinks run target reversing).map LinkChange.swapped).reverse := by
  have there : g.plannedLinks run target reversing = changes g.predecessor
      (relocated g.predecessor run target reversing) (g.touched run target reversing) :=
    plannedLinks_eq exchange.valid.linked exchange.ready exchange.placeable.away
  rw [← exchange.moved.predecessor] at there
  rw [there, plannedLinks_eq exchange.valid'.linked exchange.symm.ready
    exchange.symm.placeable.away, ← exchange.symm.moved.predecessor]
  by_cases changed : g'.predecessor = g.predecessor
  · rw [changed, changes_self, changes_self]
    rfl
  · rw [exchange.touched_back changed, changes_reverse, changes_swapped]

theorem planMove_back :
    g'.planMove (run.oriented reversing) (g.predecessor run.first) reversing =
      .ok ⟨target, ((g.plannedLinks run target reversing).map LinkChange.swapped).reverse⟩ := by
  rw [planMove_eq_ok, exchange.plannedLinks_back, exchange.predecessor_first]
  exact ⟨exchange.placeable_back, rfl⟩

end Exchange

/-- The block of a relocation can be moved back to where the run was. The plan lists the opposite
writes in opposite order and restores the graph. -/
theorem Valid.planMove_back {plan : SplicePlan} (valid : g.Valid)
    (planned : g.planMove run target reversing = .ok plan)
    (single : target = none → run.length = 1) (written : g.applyPlan plan = .ok g') :
    let back : SplicePlan := ⟨target, (plan.links.map LinkChange.swapped).reverse⟩
    g'.planMove (run.oriented reversing) plan.oldPredecessor reversing = .ok back ∧
      g'.applyPlan back = .ok g := by
  obtain ⟨placeable, _, written', moved⟩ := valid.applyPlan planned
  obtain rfl := Except.ok.inj (written'.symm.trans written)
  obtain ⟨-, rfl⟩ := planMove_eq_ok.1 planned
  have exchange : g.Exchange run target reversing _ :=
    ⟨moved, valid, moved.valid valid placeable single, placeable⟩
  refine ⟨exchange.planMove_back, ?_⟩
  obtain ⟨-, g'', restored, moved'⟩ := exchange.valid'.applyPlan exchange.planMove_back
  rw [restored]
  congr 1
  refine Linked.ext valid.linked moved'.linked (fun h => ?_) ?_
  · rw [moved'.kind, moved.kind]
  · rw [moved'.predecessor, ← exchange.symm.moved.predecessor]

end ChainGraph

end PlanSearch
