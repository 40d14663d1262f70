import PlanSearch.Proofs.Chain.Plans

/-!
# What a plan changes

A plan is collected in stages that may touch one entity several times, then turned around and
sifted. Whatever the run, the target and the entities behind the old and the new place have in
common, every entity is written once at most, and what is left is the difference between the graph
before and the graph after. The law of chains is not needed for this: it is enough that links are
links of entities to elements that exist, which holds of every graph that was grown and written link
by link.
-/

namespace PlanSearch

namespace ChainGraph

variable {g g' : ChainGraph} {run : SubChain} {target : Option Handle} {reversing : Bool}
variable {h d entity : Handle} {value : Option Handle} {link : LinkChange} {plan : SplicePlan}
variable {writes : List (Handle × Option Handle)}

/-! ## Sound graphs -/

/-- Links are links of entities to elements that exist, and the index lists entities. -/
structure Sound (g : ChainGraph) : Prop where
  entity : ∀ h before, g.predecessor h = some before → g.kind? h = some .entity
  known : ∀ h before, g.predecessor h = some before → g.contains before
  index : ∀ before h, g.successor before = some h → g.kind? h = some .entity

theorem Linked.sound (linked : g.Linked) : g.Sound where
  entity _ _ link := linked.kind?_of_predecessor link
  known _ _ link := linked.contains_of_predecessor link
  index before h recorded := linked.kind?_of_predecessor ((linked.index_exact before h).1 recorded)

theorem Valid.sound (valid : g.Valid) : g.Sound := valid.linked.sound

theorem contains_of_entity (kind : g.kind? h = some .entity) : g.contains h := by
  simp [contains_iff_kind?_isSome, kind]

theorem Sound.push (sound : g.Sound) (kind : NodeKind) : Sound ⟨g.nodes.push { kind }⟩ := by
  have kept (h : Handle) (entity : g.kind? h = some .entity) :
      (⟨g.nodes.push { kind }⟩ : ChainGraph).kind? h = some .entity := by
    rw [kind?_push g kind h (by simp [entity]), entity]
  constructor
  · intro h before link
    rw [predecessor_push] at link
    exact kept h (sound.entity h before link)
  · intro h before link
    rw [predecessor_push] at link
    have known := contains_iff_kind?_isSome.1 (sound.known h before link)
    rwa [contains_iff_kind?_isSome, kind?_push g kind before known]
  · intro before h recorded
    rw [successor_push] at recorded
    exact kept h (sound.index before h recorded)

theorem Sound.setPredecessor {old : Option Handle} (sound : g.Sound)
    (written : g.setPredecessor entity value = .ok (old, g')) : g'.Sound := by
  have known := contains_of_setPredecessor written
  obtain ⟨kind, step⟩ := written_of_setPredecessor written
  constructor
  · intro h before link
    rw [step.predecessor] at link
    rw [step.kind]
    split at link
    · rename_i self
      rw [self, kind]
    · exact sound.entity h before link
  · intro h before link
    rw [step.predecessor] at link
    rw [contains_of_kind step.kind]
    split at link
    · exact known before link
    · exact sound.known h before link
  · intro before h recorded
    rw [step.successor] at recorded
    rw [step.kind]
    split at recorded
    · cases recorded
      exact kind
    split at recorded
    · cases recorded
    · exact sound.index before h recorded

theorem Sound.writeLinks {links : List LinkChange} (sound : g.Sound)
    (written : g.writeLinks links = .ok g') : g'.Sound := by
  induction links generalizing g with
  | nil => rwa [← Except.ok.inj written]
  | cons link rest ih =>
    obtain ⟨_, next, first, others⟩ := writeLinks_cons_eq_ok.1 written
    exact ih (sound.setPredecessor first) others

/-- A graph made by adding elements and writing links one at a time, in whatever order. -/
inductive Built : ChainGraph → Prop
  | empty : Built .empty
  | addAnchor {g : ChainGraph} (built : Built g) : Built g.addAnchor.2
  | addEntity {g : ChainGraph} (built : Built g) : Built g.addEntity.2
  | setPredecessor {g g' : ChainGraph} {entity : Handle} {target old : Option Handle}
      (built : Built g) (written : g.setPredecessor entity target = .ok (old, g')) : Built g'

theorem Built.sound (built : g.Built) : g.Sound := by
  induction built with
  | empty => constructor <;> simp [predecessor, successor, node?, ChainGraph.empty]
  | addAnchor _ ih => exact ih.push .anchor
  | addEntity _ ih => exact ih.push .entity
  | setPredecessor _ written ih => exact ih.setPredecessor written

/-! ## Lists of writes -/

/-- Every entity is written once at most, and every write is one that the graph accepts. -/
structure Orderly (g : ChainGraph) (writes : List (Handle × Option Handle)) : Prop where
  once : (writes.map Prod.fst).Nodup
  entity : ∀ w ∈ writes, g.kind? w.1 = some .entity
  known : ∀ w ∈ writes, ∀ d, w.2 = some d → g.contains d

theorem mem_putLink {w : Handle × Option Handle} (member : w ∈ putLink writes entity value) :
    w = (entity, value) ∨ w ∈ writes := by
  induction writes with
  | nil => exact .inl (List.mem_singleton.1 member)
  | cons first rest ih =>
    rw [putLink] at member
    split at member
    · rcases List.mem_cons.1 member with here | later
      · rename_i self
        exact .inl (here.trans (by rw [self]))
      · exact .inr (List.mem_cons_of_mem _ later)
    · rcases List.mem_cons.1 member with here | later
      · exact .inr (here ▸ List.mem_cons_self ..)
      · exact (ih later).imp_right (List.mem_cons_of_mem _)

theorem keys_putLink (writes : List (Handle × Option Handle)) (entity : Handle)
    (value : Option Handle) : (putLink writes entity value).map Prod.fst =
      if entity ∈ writes.map Prod.fst then writes.map Prod.fst
      else writes.map Prod.fst ++ [entity] := by
  induction writes with
  | nil => simp [putLink]
  | cons first rest ih =>
    by_cases self : first.1 = entity
    · simp [putLink, self]
    · rw [putLink, if_neg self, List.map_cons, ih]
      simp only [List.map_cons, List.mem_cons, Ne.symm self, false_or]
      split <;> rfl

namespace Orderly

theorem nil : g.Orderly [] := ⟨List.nodup_nil, by simp, by simp⟩

theorem putLink (orderly : g.Orderly writes) (kind : g.kind? entity = some .entity)
    (known : ∀ d, value = some d → g.contains d) :
    g.Orderly (putLink writes entity value) := by
  constructor
  · rw [keys_putLink]
    split
    · exact orderly.once
    · rename_i fresh
      exact List.nodup_append_comm.1 (List.nodup_cons.2 ⟨fresh, orderly.once⟩)
  · intro w member
    rcases mem_putLink member with rfl | earlier
    · exact kind
    · exact orderly.entity w earlier
  · intro w member
    rcases mem_putLink member with rfl | earlier
    · exact known
    · exact orderly.known w earlier

theorem reversingWrites {l : List Handle} (orderly : g.Orderly writes)
    (kind : ∀ h ∈ l, g.kind? h = some .entity) : g.Orderly (reversingWrites writes l) := by
  induction l with
  | nil => exact orderly
  | cons a rest ih =>
    cases rest with
    | nil => exact orderly
    | cons b rest =>
      have others := ih fun h member => kind h (List.mem_cons_of_mem _ member)
      refine others.putLink (kind a (by simp)) ?_
      rintro d ⟨⟩
      exact contains_of_entity (kind b (by simp))

theorem of_perm {reordered : List (Handle × Option Handle)} (orderly : g.Orderly writes)
    (perm : reordered.Perm writes) : g.Orderly reordered := by
  constructor
  · exact (perm.map Prod.fst).nodup_iff.2 orderly.once
  · intro w member
    exact orderly.entity w (perm.mem_iff.1 member)
  · intro w member
    exact orderly.known w (perm.mem_iff.1 member)

theorem runWrites (orderly : g.Orderly writes) (placeable : g.Placeable run target)
    (reversing : Bool) : g.Orderly (ChainGraph.runWrites writes run target reversing).1 := by
  have known (d : Handle) (given : target = some d) : g.contains d :=
    (placeable.destination d given).1
  cases reversing with
  | false => exact orderly.putLink (placeable.entity _ run.first_mem) known
  | true =>
    have tail := orderly.putLink (placeable.entity _ run.last_mem) known
    exact tail.reversingWrites placeable.entity

/-- What comes behind the run, if anything, is placed after its end. -/
theorem next {place : Option Handle} (orderly : g.Orderly writes)
    (kind : ∀ t, place = some t → g.kind? t = some .entity) (known : g.contains d) :
    g.Orderly (place.elim writes fun t => ChainGraph.putLink writes t (some d)) := by
  cases place with
  | none => exact orderly
  | some t =>
    refine orderly.putLink (kind t rfl) ?_
    rintro _ ⟨⟩
    exact known

end Orderly

theorem runWrites_snd (writes : List (Handle × Option Handle)) (run : SubChain)
    (target : Option Handle) (reversing : Bool) :
    (runWrites writes run target reversing).2 = (run.oriented reversing).last := by
  cases reversing <;> simp [runWrites, SubChain.oriented]

theorem rotateLeft_perm {α : Type} (l : List α) : (l.rotateLeft 1).Perm l := by
  cases l with
  | nil => exact .refl _
  | cons a rest =>
    rw [rotateLeft_cons]
    exact List.perm_append_singleton a rest

/-- Each stage of a relocation adds to the writes what keeps them orderly. -/
theorem Sound.orderly (sound : g.Sound) (placeable : g.Placeable run target)
    (reversing : Bool) : g.Orderly (g.writesOf run target reversing) := by
  have closing : g.Orderly
      ((g.successor run.last).toList.map fun t => (t, g.predecessor run.first)) := by
    cases behind : g.successor run.last with
    | none => exact .nil
    | some t => exact Orderly.nil.putLink (sound.index _ t behind) (sound.known _)
  have inserted : g.contains (run.oriented reversing).last :=
    contains_of_entity (placeable.entity _ (SubChain.mem_oriented.1 (SubChain.last_mem _)))
  -- What comes behind the run is found in the index, at the old place or at the new one.
  have next (t : Handle) (found : (if target = g.predecessor run.first then
      target.bind fun _ => g.successor run.last else target.bind g.successor) = some t) :
      g.kind? t = some .entity := by
    split at found
    · obtain ⟨_, _, behind⟩ := Option.bind_eq_some_iff.1 found
      exact sound.index _ t behind
    · obtain ⟨_, _, there⟩ := Option.bind_eq_some_iff.1 found
      exact sound.index _ t there
  have all := (closing.runWrites placeable reversing).next next inserted
  rw [writesOf_eq_stages]
  simp only [runWrites_snd]
  split
  · exact all.of_perm (rotateLeft_perm _)
  · exact all

/-! ## The links of a plan -/

/-- A plan lists the writes that make a difference. -/
theorem mem_plannedLinks (member : link ∈ g.plannedLinks run target reversing) :
    (link.entity, link.new) ∈ g.writesOf run target reversing ∧
      link.old = g.predecessor link.entity ∧ link.old ≠ link.new := by
  unfold plannedLinks at member
  split at member
  · cases member
  obtain ⟨w, written, listed⟩ := List.mem_filterMap.1 member
  dsimp only at listed
  split at listed
  · cases listed
  · rename_i differ
    cases listed
    exact ⟨written, rfl, differ⟩

theorem entities_plannedLinks_sublist (g : ChainGraph) (run : SubChain) (target : Option Handle)
    (reversing : Bool) : ((g.plannedLinks run target reversing).map LinkChange.entity).Sublist
      ((g.writesOf run target reversing).map Prod.fst) := by
  unfold plannedLinks
  split
  · exact List.nil_sublist _
  generalize g.writesOf run target reversing = writes
  induction writes with
  | nil => exact .slnil
  | cons first rest ih =>
    by_cases same : g.predecessor first.1 = first.2
    · simpa [same] using ih.cons first.1
    · simpa [same] using ih

/-- A plan can be written, and its links are the entities that are placed after another element
then than now, each with what it is placed after now and then. -/
theorem Sound.applyPlan (sound : g.Sound) (planned : g.planMove run target reversing = .ok plan) :
    ∃ g', g.applyPlan plan = .ok g' ∧ g'.Sound ∧ (plan.links.map LinkChange.entity).Nodup ∧
      ∀ link, link ∈ plan.links ↔ link.old = g.predecessor link.entity ∧
        link.new = g'.predecessor link.entity ∧ link.old ≠ link.new := by
  obtain ⟨placeable, rfl⟩ := planMove_eq_ok.1 planned
  have orderly := sound.orderly placeable reversing
  have once := orderly.once.sublist (entities_plannedLinks_sublist g run target reversing)
  obtain ⟨g', written⟩ := writeLinks_eq_ok
    (fun link member => orderly.entity _ (mem_plannedLinks member).1)
    (fun link member => orderly.known _ (mem_plannedLinks member).1)
  refine ⟨g', written, sound.writeLinks written, once, fun link => ⟨fun member => ?_, ?_⟩⟩
  · obtain ⟨-, old, differ⟩ := mem_plannedLinks member
    exact ⟨old, (predecessor_writeLinks_of_mem written once member).symm, differ⟩
  · rintro ⟨old, new, differ⟩
    -- An entity that is placed elsewhere was written.
    have listed : link.entity ∈ (g.plannedLinks run target reversing).map LinkChange.entity := by
      by_contra untouched
      rw [predecessor_writeLinks_of_notMem written untouched, ← old] at new
      exact differ new.symm
    obtain ⟨other, member, same⟩ := List.mem_map.1 listed
    have otherNew := predecessor_writeLinks_of_mem written once member
    obtain ⟨-, otherOld, -⟩ := mem_plannedLinks member
    rw [same] at otherNew otherOld
    have found : link = other := by
      cases link
      cases other
      simp_all
    exact found ▸ member

end ChainGraph

end PlanSearch
