import PlanSearch.Proofs.Chain.Footprint

/-!
# Moving runs in valid graphs

In a valid graph every run of entities can be withdrawn, so that the links of its plan can all be
written. They lead to the relocated predecessor relation with an exact index. If the moved entities
end up in a chain, or a single one ends up in none, the graph is valid again, and the lists of its
chains are those of the old ones without the run and with the run behind the target. By the same
steps every graph that is grown and rearranged through plans is valid.
-/

namespace PlanSearch

namespace ChainGraph

variable {g g' : ChainGraph} {run : SubChain} {target : Option Handle} {reversing : Bool}
variable {h root a b d : Handle}

/-! ## Runs of a valid graph -/

theorem leads_first (contiguous : Path g.predecessor run.entities) (member : h ∈ run.entities) :
    g.Leads h run.first := by
  obtain ⟨b, rest, rfl⟩ := run.exists_eq_cons
  exact leads_of_path contiguous member

/-- What leads to an element of a strand belongs to the strand. -/
theorem Strand.mem_of_leads {l : List Handle} (strand : Strand g.predecessor l)
    (leads : g.Leads h a) (member : a ∈ l) : h ∈ l := by
  induction leads with
  | refl => exact member
  | step link _ ih => exact strand.closed _ (ih member) _ link

/-- Where no links form a cycle every path can be taken out. -/
theorem Acyclic.liftable (acyclic : g.Acyclic) (contiguous : Path g.predecessor run.entities) :
    Liftable g.predecessor run := by
  refine ⟨contiguous, acyclic.nodup contiguous, fun p link member => ?_⟩
  obtain ⟨b, rest, rfl⟩ := run.exists_eq_cons
  have longer : Path g.predecessor (p :: b :: rest) := .cons_cons link contiguous
  exact (List.nodup_cons.1 (acyclic.nodup longer)).1 member

theorem Valid.withdrawable (valid : g.Valid)
    (entity : ∀ h ∈ run.entities, g.kind? h = some .entity)
    (contiguous : Path g.predecessor run.entities) : Withdrawable g.predecessor run := by
  refine ⟨valid.acyclic.liftable contiguous, fun h follows => ?_⟩
  obtain ⟨root, anchor, leads⟩ := valid.anchored h (by simp [follows])
  have up := leads_first contiguous run.last_mem
  have onwards := (Leads.step follows up).of_leads leads (valid.anchor_free root anchor)
  exact onwards.isSome_predecessor (entity run.first run.first_mem) anchor

theorem Placeable.away (placeable : g.Placeable run target) :
    ∀ d, target = some d → d ∉ run.entities :=
  fun d isTarget => (placeable.destination d isTarget).2.1

theorem Placeable.notMem_of_anchor (placeable : g.Placeable run target)
    (anchor : g.kind? root = some .anchor) : root ∉ run.entities := by
  intro member
  rw [placeable.entity root member] at anchor
  cases anchor

/-! ## The graph of a relocation -/

/-- The graph after the links of a relocation were written. -/
structure Relocated (g : ChainGraph) (run : SubChain) (target : Option Handle) (reversing : Bool)
    (g' : ChainGraph) : Prop where
  kind : ∀ h, g'.kind? h = g.kind? h
  predecessor : g'.predecessor = relocated g.predecessor run target reversing
  linked : g'.Linked

/-- Links that are the changes of a relocation can be written. -/
theorem exists_relocated_of_links (linked : g.Linked) (ready : Liftable g.predecessor run)
    (placeable : g.Placeable run target)
    (links : g.plannedLinks run target reversing = changes g.predecessor
      (relocated g.predecessor run target reversing) (g.touched run target reversing)) :
    ∃ g', g.writeLinks (g.plannedLinks run target reversing) = .ok g' ∧
      g.Relocated run target reversing g' := by
  obtain ⟨g', written, -, once, listed⟩ :=
    linked.sound.applyPlan (planMove_eq_ok.2 ⟨placeable, rfl⟩)
  -- The links that were written and those of the relocation are both all that makes a difference.
  have predecessor : g'.predecessor = relocated g.predecessor run target reversing := by
    funext h
    by_cases same : g'.predecessor h = g.predecessor h
    · rw [same]
      by_contra differ
      have touched : h ∈ g.touched run target reversing := by
        by_contra untouched
        exact differ (relocated_of_notMem_touched linked ready untouched).symm
      have planned : ⟨h, g.predecessor h, relocated g.predecessor run target reversing h⟩ ∈
          g.plannedLinks run target reversing := links ▸ mem_changes.2 ⟨touched, rfl, rfl, differ⟩
      obtain ⟨-, new, -⟩ := (listed _).1 planned
      exact differ (same.symm.trans new.symm)
    · have planned : ⟨h, g.predecessor h, g'.predecessor h⟩ ∈
          g.plannedLinks run target reversing := (listed _).2 ⟨rfl, rfl, Ne.symm same⟩
      rw [links, mem_changes] at planned
      exact planned.2.2.1
  refine ⟨g', written, kind?_writeLinks written, predecessor, linked.writeLinks written once ?_⟩
  rw [predecessor]
  exact ready.unique_relocated linked.unique_successor placeable.away

/-- A planned relocation can be written, whether or not the run ends up in a chain. -/
theorem exists_relocated (linked : g.Linked) (ready : Withdrawable g.predecessor run)
    (placeable : g.Placeable run target) :
    ∃ g', g.writeLinks (g.plannedLinks run target reversing) = .ok g' ∧
      g.Relocated run target reversing g' :=
  exists_relocated_of_links linked ready.toLiftable placeable
    (plannedLinks_eq linked ready placeable.away)

/-- Entities outside the run keep whether they are in a chain. -/
theorem Withdrawable.isSome_relocated {predecessor : Handle → Option Handle}
    (ready : Withdrawable predecessor run) (outside : h ∉ run.entities) :
    (relocated predecessor run target reversing h).isSome = (predecessor h).isSome := by
  have kept : (withdrawn predecessor run h).isSome = (predecessor h).isSome := by
    rw [withdrawn, if_neg outside]
    split
    · rename_i follows
      rw [ready.placed h follows, follows]
      rfl
    · rfl
  rw [relocated, inserted, if_neg (SubChain.mem_oriented.not.2 outside), ← kept]
  split
  · rename_i there
    rw [there.2, there.1]
    rfl
  · rfl

namespace Relocated

theorem predecessor_of_mem (moved : g.Relocated run target reversing g')
    (member : h ∈ (run.oriented reversing).entities) :
    g'.predecessor h = predecessorIn target (run.oriented reversing).entities h := by
  rw [moved.predecessor, relocated_of_mem (SubChain.mem_oriented.1 member)]

/-- The block is a path in the new graph. -/
theorem path (moved : g.Relocated run target reversing g') (nodup : run.entities.Nodup) :
    Path g'.predecessor (run.oriented reversing).entities :=
  path_of_agree (SubChain.nodup_oriented.2 nodup) fun _ => moved.predecessor_of_mem

/-- Of a run that was taken out only one end is placed after nothing. -/
theorem predecessor_eq_none (moved : g.Relocated run none reversing g')
    (member : h ∈ run.entities) :
    g'.predecessor h = none ↔ h = (run.oriented reversing).first := by
  have inBlock : h ∈ (run.oriented reversing).entities := SubChain.mem_oriented.2 member
  rw [moved.predecessor_of_mem inBlock]
  exact predecessorIn_eq_none inBlock

theorem strand (moved : g.Relocated run target reversing g') (valid : g.Valid)
    (placeable : g.Placeable run target) (anchor : g.kind? root = some .anchor) :
    Strand g'.predecessor (respliced run target reversing (root :: g.trailing root)) := by
  rw [moved.predecessor]
  exact (strand_trailing valid.linked valid.acyclic root).relocated
    (valid.anchor_free root anchor) (valid.withdrawable placeable.entity placeable.contiguous)
    valid.unique_successor (placeable.notMem_of_anchor anchor)

/-- The lists of the chains are those of the old ones without the run and with the run behind the
target. -/
theorem trailing (moved : g.Relocated run target reversing g') (valid : g.Valid)
    (placeable : g.Placeable run target) (anchor : g.kind? root = some .anchor) :
    root :: g'.trailing root = respliced run target reversing (root :: g.trailing root) := by
  have strand := moved.strand valid placeable anchor
  obtain ⟨rest, list⟩ := exists_respliced_cons target reversing (g.trailing root)
    (placeable.notMem_of_anchor anchor)
  rw [list] at strand ⊢
  have same := moved.kind root
  rw [anchor] at same
  rw [trailing_of_strand moved.linked strand (moved.linked.anchor_free root same)
    (by simp [contains_iff_kind?_isSome, same])]

theorem isSome_predecessor (moved : g.Relocated run target reversing g') (valid : g.Valid)
    (placeable : g.Placeable run target) (outside : h ∉ run.entities) :
    (g'.predecessor h).isSome = (g.predecessor h).isSome := by
  rw [moved.predecessor]
  exact (valid.withdrawable placeable.entity placeable.contiguous).isSome_relocated outside

/-- The graph of a relocation is valid if the run ends up in a chain, or if it is a single entity
that ends up in none. -/
theorem valid (moved : g.Relocated run target reversing g') (valid : g.Valid)
    (placeable : g.Placeable run target) (single : target = none → run.length = 1) :
    g'.Valid := by
  refine ⟨moved.linked.anchor_free, moved.linked.unique_successor, moved.linked.index_exact, ?_⟩
  -- It is enough to find the entity in the new list of some chain.
  suffices found : ∀ h, (g'.predecessor h).isSome → ∃ root, g.kind? root = some .anchor ∧
      h ∈ respliced run target reversing (root :: g.trailing root) by
    intro h placed
    obtain ⟨root, anchor, member⟩ := found h placed
    have path := (moved.strand valid placeable anchor).path
    rw [← moved.trailing valid placeable anchor] at member path
    exact ⟨root, (moved.kind root).trans anchor, leads_of_path path member⟩
  have listed (h : Handle) (leads : ∃ root, g.kind? root = some .anchor ∧ g.Leads h root)
      (outside : h ∉ run.entities) : ∃ root, g.kind? root = some .anchor ∧
        h ∈ (root :: g.trailing root).filter (· ∉ run.entities) := by
    obtain ⟨root, anchor, leads⟩ := leads
    have strand := strand_trailing valid.linked valid.acyclic root
    have member := strand.mem_of_leads leads (List.mem_cons_self ..)
    exact ⟨root, anchor, List.mem_filter.2 ⟨member, decide_eq_true outside⟩⟩
  intro h placed
  by_cases inside : h ∈ run.entities
  · cases target with
    | none =>
      rw [(moved.predecessor_eq_none inside).2
        (SubChain.eq_first_of_length (single rfl) inside)] at placed
      cases placed
    | some d =>
      obtain ⟨-, outside, top⟩ := placeable.destination d rfl
      obtain ⟨root, top⟩ := Option.isSome_iff_exists.1 top
      have leads := (anchorOf_eq_some_iff valid.anchor_free).1 top
      obtain ⟨root, anchor, member⟩ := listed d ⟨root, leads⟩ outside
      refine ⟨root, anchor, mem_insertAfter.2 (.inr ⟨member, ?_⟩)⟩
      simpa using inside
  · rw [moved.isSome_predecessor valid placeable inside] at placed
    obtain ⟨root, anchor, member⟩ := listed h (valid.anchored h placed) inside
    refine ⟨root, anchor, ?_⟩
    cases target with
    | none => exact member
    | some d => exact mem_insertAfter.2 (.inl member)

end Relocated

/-- A plan of a valid graph can be written, and leads to the relocated graph. -/
theorem Valid.applyPlan {plan : SplicePlan} (valid : g.Valid)
    (planned : g.planMove run target reversing = .ok plan) :
    g.Placeable run target ∧
      ∃ g', g.applyPlan plan = .ok g' ∧ g.Relocated run target reversing g' := by
  obtain ⟨placeable, rfl⟩ := planMove_eq_ok.1 planned
  have ready := valid.withdrawable placeable.entity placeable.contiguous
  exact ⟨placeable, exists_relocated valid.linked ready placeable⟩

/-! ## Growing -/

theorem Leads.imp (leads : g.Leads h root)
    (same : ∀ h before, g.predecessor h = some before → g'.predecessor h = some before) :
    g'.Leads h root := by
  induction leads with
  | refl => exact .refl _
  | step link _ ih => exact .step (same _ _ link) ih

/-- A new element without links changes nothing for the others. -/
theorem Valid.push (valid : g.Valid) (kind : NodeKind) :
    Valid ⟨g.nodes.push { kind }⟩ := by
  refine ⟨fun h anchor => ?_, ?_, ?_, fun h placed => ?_⟩
  · rw [predecessor_push]
    cases link : g.predecessor h with
    | none => rfl
    | some before =>
      rw [kind?_push g kind h (kind?_isSome_of_predecessor link)] at anchor
      rw [valid.anchor_free h anchor] at link
      cases link
  · simpa only [predecessor_push] using valid.unique_successor
  · simpa only [predecessor_push, successor_push] using valid.index_exact
  · rw [predecessor_push] at placed
    obtain ⟨root, anchor, leads⟩ := valid.anchored h placed
    have kept := kind?_push g kind root (by simp [anchor])
    refine ⟨root, kept.trans anchor, leads.imp fun h before link => ?_⟩
    rw [predecessor_push, link]

/-- Entities placed one after the other leave the graph valid, wherever a refusal ends it. -/
theorem Valid.appendAfter (valid : g.Valid) (last : Handle) (entities : List Handle) :
    (g.appendAfter last entities).1.Valid := by
  induction entities generalizing g last with
  | nil => exact valid
  | cons entity rest ih =>
    unfold ChainGraph.appendAfter
    cases planned : g.planMove (.single entity) (some last) false with
    | error e => exact valid
    | ok plan =>
      obtain ⟨placeable, g', written, moved⟩ := valid.applyPlan planned
      simp only [Except.bind, written]
      exact ih (moved.valid valid placeable (by rintro ⟨⟩)) entity

/-- One call that changes a graph through plans. -/
inductive Step (g : ChainGraph) : ChainGraph → Prop
  | addAnchor : Step g g.addAnchor.2
  | addEntity : Step g g.addEntity.2
  /-- The entities are appended as far as they are not refused. -/
  | append (start : Handle) (entities : List Handle) : Step g (g.append start entities).1
  /-- A run is moved into a chain, or a single entity out of its chain. -/
  | relocate {run : SubChain} {target : Option Handle} {reversing : Bool} {plan : SplicePlan}
      {g' : ChainGraph} (single : target = none → run.length = 1)
      (planned : g.planMove run target reversing = .ok plan)
      (written : g.applyPlan plan = .ok g') : Step g g'

theorem Step.valid (step : g.Step g') (valid : g.Valid) : g'.Valid := by
  cases step with
  | addAnchor => exact valid.push .anchor
  | addEntity => exact valid.push .entity
  | append start entities => exact valid.appendAfter _ entities
  | relocate single planned written =>
    obtain ⟨placeable, _, written', moved⟩ := valid.applyPlan planned
    obtain rfl := Except.ok.inj (written.symm.trans written')
    exact moved.valid valid placeable single

theorem valid_of_steps (steps : Relation.ReflTransGen Step g g') (valid : g.Valid) : g'.Valid := by
  induction steps with
  | refl => exact valid
  | tail _ step ih => exact step.valid ih

/-- What is planned in a valid graph can be written and leads to a valid graph, in which the lists
of the chains are those of the old ones without the run and with the run behind the target. All
that can be made of a valid graph by growing and through plans is valid. -/
theorem planMove_correct (g : ChainGraph) (valid : g.validate = .ok ()) :
    (∀ run target reversing plan, g.planMove run target reversing = .ok plan →
      (target = none → run.length = 1) →
      ∃ g', g.applyPlan plan = .ok g' ∧ g'.validate = .ok () ∧ g'.Valid ∧ g'.Acyclic ∧
        (∀ h, g'.kind? h = g.kind? h) ∧
        (∀ root, g.kind? root = some .anchor →
          root :: g'.trailing root = respliced run target reversing (root :: g.trailing root)) ∧
        ∀ h, h ∉ run.entities → (g'.predecessor h).isSome = (g.predecessor h).isSome) ∧
    ∀ g', Relation.ReflTransGen Step g g' → g'.validate = .ok () := by
  have valid := validate_eq_ok_iff.1 valid
  refine ⟨?_, fun g' steps => validate_eq_ok_iff.2 (valid_of_steps steps valid)⟩
  intro run target reversing plan planned single
  obtain ⟨placeable, g', written, moved⟩ := valid.applyPlan planned
  have valid' := moved.valid valid placeable single
  exact ⟨g', written, validate_eq_ok_iff.2 valid', valid', valid'.acyclic, moved.kind,
    fun root anchor => moved.trailing valid placeable anchor,
    fun h outside => moved.isSome_predecessor valid placeable outside⟩

/-- Two chains with two entities, all in the first. -/
def twoChains : ChainGraph :=
  ⟨#[⟨.anchor, none, some ⟨2⟩⟩, ⟨.anchor, none, none⟩, ⟨.entity, some ⟨0⟩, some ⟨3⟩⟩,
    ⟨.entity, some ⟨2⟩, none⟩]⟩

theorem planMove_correct_twoChains : ∃ run plan g', run.entities = [⟨2⟩, ⟨3⟩] ∧
    twoChains.planMove run (some ⟨1⟩) true = .ok plan ∧ twoChains.applyPlan plan = .ok g' ∧
    g'.validate = .ok () ∧ g'.trailing ⟨0⟩ = [] ∧ g'.trailing ⟨1⟩ = [⟨3⟩, ⟨2⟩] := by
  have valid : twoChains.validate = .ok () := by decide
  let run : SubChain := ⟨[⟨2⟩, ⟨3⟩], List.cons_ne_nil _ _⟩
  have planned : twoChains.planMove run (some ⟨1⟩) true =
      .ok ⟨some ⟨0⟩, [⟨⟨3⟩, some ⟨2⟩, some ⟨1⟩⟩, ⟨⟨2⟩, some ⟨0⟩, some ⟨3⟩⟩]⟩ := by decide
  obtain ⟨g', written, passed, -, -, -, lists, -⟩ :=
    (planMove_correct twoChains valid).1 run (some ⟨1⟩) true _ planned (by rintro ⟨⟩)
  have first := lists ⟨0⟩ (by decide)
  have second := lists ⟨1⟩ (by decide)
  exact ⟨run, _, g', rfl, planned, written, passed, List.cons.inj first |>.2,
    List.cons.inj second |>.2⟩

/-! ## Taking runs out of all chains -/

namespace Relocated

/-- A run of several entities that was taken out breaks the law of chains: it still leads to its
first entity, and from there to no anchor. -/
theorem length_of_valid (moved : g.Relocated run none reversing g') (nodup : run.entities.Nodup)
    (entity : ∀ h ∈ run.entities, g.kind? h = some .entity) (valid : g'.Valid) :
    run.length = 1 := by
  refine SubChain.length_of_oriented nodup fun h member => (moved.predecessor_eq_none member).1 ?_
  by_contra placed
  obtain ⟨root, anchor, leads⟩ := valid.anchored h (Option.isSome_iff_ne_none.2 placed)
  have first := SubChain.mem_oriented.1 (SubChain.first_mem (run.oriented reversing))
  have up := leads_first (moved.path nodup) (SubChain.mem_oriented.2 member)
  have onwards := up.of_leads leads (valid.anchor_free root anchor)
  have top := onwards.isSome_predecessor ((moved.kind _).trans (entity _ first)) anchor
  rw [(moved.predecessor_eq_none first).2 rfl] at top
  cases top

end Relocated

/-- A plan that takes a run out of all chains cuts the links to and from the rest of the graph, and
leaves the run linked up. Only a run of a single entity is unassigned as a whole, and only then is
the graph valid. All other entities keep their order. -/
theorem unassign_iff_single (g : ChainGraph) (run : SubChain) (reversing : Bool)
    (valid : g.validate = .ok ()) (entity : ∀ h ∈ run.entities, g.kind? h = some .entity)
    (contiguous : Path g.predecessor run.entities) :
    ∃ plan g', g.planMove run none reversing = .ok plan ∧ g.applyPlan plan = .ok g' ∧
      (g'.validate = .ok () ↔ run.length = 1) ∧
      ((∀ h ∈ run.entities, g'.predecessor h = none) ↔ run.length = 1) ∧
      (∀ h ∈ run.entities,
        g'.predecessor h = none ↔ h = (run.oriented reversing).first) ∧
      ∀ root, g.kind? root = some .anchor →
        g'.trailing root = (g.trailing root).filter (· ∉ run.entities) := by
  have valid := validate_eq_ok_iff.1 valid
  have placeable : g.Placeable run none := ⟨entity, contiguous, by rintro d ⟨⟩⟩
  have planned : g.planMove run none reversing =
      .ok ⟨g.predecessor run.first, g.plannedLinks run none reversing⟩ :=
    planMove_eq_ok.2 ⟨placeable, rfl⟩
  obtain ⟨-, g', written, moved⟩ := valid.applyPlan planned
  have nodup := (valid.withdrawable entity contiguous).nodup
  have free (h : Handle) (member : h ∈ run.entities) := moved.predecessor_eq_none member
  refine ⟨_, g', planned, written, ⟨fun passed => ?_, fun single => ?_⟩,
    ⟨fun all => ?_, fun single h member => ?_⟩, free, fun root anchor => ?_⟩
  · exact moved.length_of_valid nodup entity (validate_eq_ok_iff.1 passed)
  · exact validate_eq_ok_iff.2 (moved.valid valid placeable fun _ => single)
  · exact SubChain.length_of_oriented nodup fun h member => (free h member).1 (all h member)
  · exact (free h member).2 (SubChain.eq_first_of_length single member)
  · have outside := placeable.notMem_of_anchor anchor
    have list := moved.trailing valid placeable anchor
    unfold respliced at list
    rw [List.filter_cons_of_pos (by simpa using outside)] at list
    exact (List.cons.inj list).2

theorem unassign_iff_single_twoChains : ∃ run plan g', run.entities = [⟨2⟩, ⟨3⟩] ∧
    twoChains.planMove run none false = .ok plan ∧ twoChains.applyPlan plan = .ok g' ∧
    g'.validate ≠ .ok () ∧ g'.predecessor ⟨2⟩ = none ∧ g'.predecessor ⟨3⟩ ≠ none ∧
    g'.trailing ⟨0⟩ = [] := by
  let run : SubChain := ⟨[⟨2⟩, ⟨3⟩], List.cons_ne_nil _ _⟩
  obtain ⟨plan, g', planned, written, passed, -, free, lists⟩ :=
    unassign_iff_single twoChains run false (by decide) (by decide) (by decide)
  have head := (free ⟨2⟩ (by decide)).2 (by decide)
  have tail : g'.predecessor ⟨3⟩ ≠ none :=
    mt (free ⟨3⟩ (by decide)).1 (by decide)
  exact ⟨run, plan, g', rfl, planned, written, mt passed.1 (by decide), head, tail,
    lists ⟨0⟩ (by decide)⟩

end ChainGraph

end PlanSearch
