import Mathlib.Data.List.Nodup
import PlanSearch.Chain.Plan

/-!
# Writing links

One write changes the predecessor of one entity, and the index at no more than two places. A list of
writes that names every entity at most once therefore has a simple final predecessor relation. Its
index may be wrong between the writes, when two entities are placed after the same element. It is
exact in the end as soon as the final relation places at most one entity after each element.
-/

namespace PlanSearch

namespace ChainGraph

/-- Anchors are placed after nothing, no two entities are placed after the same element, and the
index is the inverse of the links. Unlike the full law of chains this allows for runs that lead to
no anchor. -/
structure Linked (g : ChainGraph) : Prop where
  anchor_free : ∀ h, g.kind? h = some .anchor → g.predecessor h = none
  unique_successor : ∀ h₁ h₂ before,
    g.predecessor h₁ = some before → g.predecessor h₂ = some before → h₁ = h₂
  index_exact : ∀ before h, g.successor before = some h ↔ g.predecessor h = some before

variable {g g' : ChainGraph} {h entity before : Handle} {target : Option Handle}

/-! ## Elements -/

theorem node?_modify (g : ChainGraph) (h x : Handle) (f : Node → Node) :
    (g.modify h f).node? x = if x = h then (g.node? x).map f else g.node? x := by
  have index : h.index = x.index ↔ x = h := by
    constructor
    · intro same
      cases x
      cases h
      simp_all
    · rintro rfl
      rfl
  simp only [node?, modify, Array.getElem?_modify, index]

theorem contains_iff_kind?_isSome : g.contains h ↔ (g.kind? h).isSome := by
  simp [contains, kind?, node?]

theorem kind?_isSome_of_predecessor (link : g.predecessor h = some before) :
    (g.kind? h).isSome := by
  unfold predecessor at link
  unfold kind?
  cases element : g.node? h with
  | none => simp [element] at link
  | some node => simp

theorem contains_of_successor (link : g.successor before = some h) : g.contains before := by
  rw [contains_iff_kind?_isSome]
  unfold successor at link
  unfold kind?
  cases element : g.node? before with
  | none => simp [element] at link
  | some node => simp

theorem Linked.kind?_of_predecessor (linked : g.Linked) (link : g.predecessor h = some before) :
    g.kind? h = some .entity := by
  have known := kind?_isSome_of_predecessor link
  match kind : g.kind? h with
  | none => simp [kind] at known
  | some .anchor =>
    rw [linked.anchor_free h kind] at link
    cases link
  | some .entity => rfl

theorem Linked.contains_of_predecessor (linked : g.Linked) (link : g.predecessor h = some before) :
    g.contains before :=
  contains_of_successor ((linked.index_exact before h).2 link)

/-- Graphs with the same elements and links in both directions are the same. -/
theorem ext_of_links (kind : ∀ h, g'.kind? h = g.kind? h)
    (predecessor : ∀ h, g'.predecessor h = g.predecessor h)
    (successor : ∀ h, g'.successor h = g.successor h) : g' = g := by
  have nodes : g'.nodes = g.nodes := by
    apply Array.ext_getElem?
    intro i
    have sameKind := kind ⟨i⟩
    have samePredecessor := predecessor ⟨i⟩
    have sameSuccessor := successor ⟨i⟩
    simp only [kind?, ChainGraph.predecessor, ChainGraph.successor, node?] at *
    cases here : g.nodes[i]? with
    | none =>
      cases there : g'.nodes[i]? with
      | none => rfl
      | some node => simp [here, there] at sameKind
    | some node =>
      cases there : g'.nodes[i]? with
      | none => simp [here, there] at sameKind
      | some node' =>
        cases node
        cases node'
        simp_all
  cases g
  cases g'
  simp_all

/-! ## New elements -/

section Push

variable (g : ChainGraph) (kind : NodeKind) (h : Handle)

theorem node?_push : (⟨g.nodes.push { kind }⟩ : ChainGraph).node? h =
    if h.index = g.size then some { kind } else g.node? h := Array.getElem?_push

theorem node?_eq_none_of_size (new : h.index = g.size) : g.node? h = none := by
  simp [node?, new, size]

@[simp] theorem predecessor_push :
    (⟨g.nodes.push { kind }⟩ : ChainGraph).predecessor h = g.predecessor h := by
  unfold ChainGraph.predecessor
  rw [node?_push]
  split
  · rename_i new
    rw [node?_eq_none_of_size g h new]
    rfl
  · rfl

@[simp] theorem successor_push :
    (⟨g.nodes.push { kind }⟩ : ChainGraph).successor h = g.successor h := by
  unfold ChainGraph.successor
  rw [node?_push]
  split
  · rename_i new
    rw [node?_eq_none_of_size g h new]
    rfl
  · rfl

theorem kind?_push (known : (g.kind? h).isSome) :
    (⟨g.nodes.push { kind }⟩ : ChainGraph).kind? h = g.kind? h := by
  unfold kind? at known ⊢
  rw [node?_push, if_neg]
  intro new
  rw [node?_eq_none_of_size g h new] at known
  cases known

end Push

/-! ## One write -/

/-- The graph after one link was written. -/
structure Written (g : ChainGraph) (entity : Handle) (target : Option Handle)
    (g' : ChainGraph) : Prop where
  kind : ∀ h, g'.kind? h = g.kind? h
  predecessor : ∀ h, g'.predecessor h = if h = entity then target else g.predecessor h
  successor : ∀ x, g'.successor x =
    if target = some x then some entity
    else if g.predecessor entity = some x ∧ g.successor x = some entity then none
    else g.successor x

theorem kind?_modify (h x : Handle) (f : Node → Node) (same : ∀ node, (f node).kind = node.kind) :
    (g.modify h f).kind? x = g.kind? x := by
  simp only [kind?, node?_modify]
  split
  · cases g.node? x <;> simp [same]
  · rfl

theorem predecessor_modify (h x : Handle) (f : Node → Node)
    (same : ∀ node, (f node).predecessor = node.predecessor) :
    (g.modify h f).predecessor x = g.predecessor x := by
  simp only [predecessor, node?_modify]
  split
  · cases g.node? x <;> simp [same]
  · rfl

theorem successor_modify (h x : Handle) (f : Node → Node)
    (same : ∀ node, (f node).successor = node.successor) :
    (g.modify h f).successor x = g.successor x := by
  simp only [successor, node?_modify]
  split
  · cases g.node? x <;> simp [same]
  · rfl

@[simp] theorem kind?_clearSuccessor (before entity x : Handle) :
    (g.clearSuccessor before entity).kind? x = g.kind? x := by
  unfold clearSuccessor
  split
  · exact kind?_modify _ _ _ fun _ => rfl
  · rfl

@[simp] theorem predecessor_clearSuccessor (before entity x : Handle) :
    (g.clearSuccessor before entity).predecessor x = g.predecessor x := by
  unfold clearSuccessor
  split
  · exact predecessor_modify _ _ _ fun _ => rfl
  · rfl

theorem successor_clearSuccessor (before entity x : Handle) :
    (g.clearSuccessor before entity).successor x =
      if before = x ∧ g.successor x = some entity then none else g.successor x := by
  by_cases recorded : g.successor before = some entity
  · rw [clearSuccessor, if_pos recorded]
    by_cases here : before = x
    · subst here
      rw [if_pos ⟨rfl, recorded⟩]
      simp only [successor, node?_modify, if_true]
      cases g.node? before <;> rfl
    · rw [if_neg fun both => here both.1]
      simp [successor, node?_modify, Ne.symm here]
  · rw [clearSuccessor, if_neg recorded, if_neg]
    rintro ⟨rfl, found⟩
    exact recorded found

theorem successor_record (known : g.contains before) (entity x : Handle) :
    (g.modify before ({ · with successor := some entity })).successor x =
      if some before = some x then some entity else g.successor x := by
  rw [contains_iff_kind?_isSome] at known
  simp only [successor, node?_modify]
  by_cases here : before = x
  · subst here
    cases element : g.node? before with
    | none => simp [kind?, element] at known
    | some node => simp
  · simp [here, Ne.symm here]

/-- A link of an existing entity to an existing element can be written. -/
theorem setPredecessor_eq_ok (kind : g.kind? entity = some .entity)
    (known : ∀ d, target = some d → g.contains d) :
    ∃ g', g.setPredecessor entity target = .ok (g.predecessor entity, g') := by
  have found : (target.filter fun h => !g.contains h) = none := by
    cases target with
    | none => rfl
    | some d => simp [Option.filter, known d rfl]
  unfold kind? at kind
  unfold setPredecessor predecessor
  rw [found]
  match element : g.node? entity with
  | none => simp [element] at kind
  | some ⟨.anchor, _, _⟩ => simp [element] at kind
  | some ⟨.entity, old, next⟩ => exact ⟨_, rfl⟩

/-- When the old entry of the index is cleared, the new one is left to record. -/
theorem written_of_cleared {cleared : ChainGraph} (known : ∀ d, target = some d → g.contains d)
    (kind : ∀ x, cleared.kind? x = g.kind? x)
    (predecessor : ∀ x, cleared.predecessor x = if x = entity then target else g.predecessor x)
    (successor : ∀ x, cleared.successor x =
      if g.predecessor entity = some x ∧ g.successor x = some entity then none
      else g.successor x) :
    g.Written entity target (target.elim cleared fun after =>
      cleared.modify after ({ · with successor := some entity })) := by
  cases target with
  | none => exact ⟨kind, predecessor, fun x => (successor x).trans (by simp)⟩
  | some after =>
    have kept : cleared.contains after := by
      rw [contains_iff_kind?_isSome, kind, ← contains_iff_kind?_isSome]
      exact known after rfl
    let record (node : Node) : Node := { node with successor := some entity }
    refine ⟨fun x => ?_, fun x => ?_, fun x => ?_⟩
    · exact (kind?_modify after x record fun _ => rfl).trans (kind x)
    · exact (predecessor_modify after x record fun _ => rfl).trans (predecessor x)
    · exact (successor_record kept entity x).trans (by rw [successor])

/-- An entity is placed only after elements that exist. -/
theorem contains_of_setPredecessor {old : Option Handle}
    (written : g.setPredecessor entity target = .ok (old, g')) :
    ∀ d, target = some d → g.contains d := by
  unfold setPredecessor at written
  split at written
  · cases written
  · rename_i found
    rintro d rfl
    simpa [Option.filter] using found

/-- Only links of existing entities are written, and all else stays as it is. -/
theorem written_of_setPredecessor {old : Option Handle}
    (written : g.setPredecessor entity target = .ok (old, g')) :
    g.kind? entity = some .entity ∧ g.Written entity target g' := by
  have known := contains_of_setPredecessor written
  unfold setPredecessor at written
  split at written
  · cases written
  split at written
  · cases written
  · cases written
  rename_i before next element
  obtain ⟨rfl, rfl⟩ := Prod.mk.inj (Except.ok.inj written)
  have here : g.predecessor entity = before := by simp [predecessor, element]
  let moved := g.modify entity ({ · with predecessor := target })
  have movedKind (x : Handle) : moved.kind? x = g.kind? x := kind?_modify _ _ _ fun _ => rfl
  have movedPredecessor (x : Handle) :
      moved.predecessor x = if x = entity then target else g.predecessor x := by
    simp only [moved, predecessor, node?_modify]
    split
    · rename_i self
      simp [self, element]
    · rfl
  have movedSuccessor (x : Handle) : moved.successor x = g.successor x :=
    successor_modify _ _ _ fun _ => rfl
  refine ⟨by simp [kind?, element], ?_⟩
  cases before with
  | none =>
    have result := written_of_cleared known movedKind movedPredecessor fun x => by
      rw [movedSuccessor, here, if_neg]
      rintro ⟨⟨⟩, -⟩
    cases target <;> exact result
  | some b =>
    have result := written_of_cleared known
      (fun x => (kind?_clearSuccessor b entity x).trans (movedKind x))
      (fun x => (predecessor_clearSuccessor b entity x).trans (movedPredecessor x)) fun x => by
        simp only [successor_clearSuccessor, movedSuccessor, here, Option.some.injEq]
    cases target <;> exact result

/-! ## Lists of writes -/

variable {link : LinkChange} {links : List LinkChange}

theorem writeLinks_cons_eq_ok : g.writeLinks (link :: links) = .ok g' ↔
    ∃ old next, g.setPredecessor link.entity link.new = .ok (old, next) ∧
      next.writeLinks links = .ok g' := by
  cases first : g.setPredecessor link.entity link.new with
  | error e => simp [writeLinks, first, bind, Except.bind]
  | ok result =>
    obtain ⟨old, next⟩ := result
    simp [writeLinks, first, bind, Except.bind]

theorem contains_of_kind (kind : ∀ h, g'.kind? h = g.kind? h) : g'.contains h ↔ g.contains h := by
  rw [contains_iff_kind?_isSome, contains_iff_kind?_isSome, kind]

theorem writeLinks_eq_ok (kind : ∀ link ∈ links, g.kind? link.entity = some .entity)
    (known : ∀ link ∈ links, ∀ d, link.new = some d → g.contains d) :
    ∃ g', g.writeLinks links = .ok g' := by
  induction links generalizing g with
  | nil => exact ⟨g, rfl⟩
  | cons link rest ih =>
    obtain ⟨next, first⟩ := setPredecessor_eq_ok (kind link (by simp)) (known link (by simp))
    have same := (written_of_setPredecessor first).2.kind
    obtain ⟨g', others⟩ := ih (g := next)
      (fun l member => (same l.entity).trans (kind l (by simp [member])))
      (fun l member d new => (contains_of_kind same).2 (known l (by simp [member]) d new))
    exact ⟨g', writeLinks_cons_eq_ok.2 ⟨_, next, first, others⟩⟩

theorem kind?_writeLinks (written : g.writeLinks links = .ok g') (h : Handle) :
    g'.kind? h = g.kind? h := by
  induction links generalizing g with
  | nil => rw [Except.ok.inj written]
  | cons link rest ih =>
    obtain ⟨_, next, first, others⟩ := writeLinks_cons_eq_ok.1 written
    rw [ih others, (written_of_setPredecessor first).2.kind]

theorem kind?_entity_of_writeLinks (written : g.writeLinks links = .ok g')
    (member : link ∈ links) : g.kind? link.entity = some .entity := by
  induction links generalizing g with
  | nil => cases member
  | cons head rest ih =>
    obtain ⟨_, next, first, others⟩ := writeLinks_cons_eq_ok.1 written
    obtain ⟨kind, step⟩ := written_of_setPredecessor first
    rcases List.mem_cons.1 member with rfl | later
    · exact kind
    · rw [← step.kind]
      exact ih others later

theorem contains_of_writeLinks (written : g.writeLinks links = .ok g') (member : link ∈ links) :
    ∀ d, link.new = some d → g.contains d := by
  induction links generalizing g with
  | nil => cases member
  | cons head rest ih =>
    obtain ⟨_, next, first, others⟩ := writeLinks_cons_eq_ok.1 written
    rcases List.mem_cons.1 member with rfl | later
    · exact contains_of_setPredecessor first
    · intro d new
      exact (contains_of_kind (written_of_setPredecessor first).2.kind).1 (ih others later d new)

theorem predecessor_writeLinks_of_notMem (written : g.writeLinks links = .ok g')
    (untouched : h ∉ links.map LinkChange.entity) : g'.predecessor h = g.predecessor h := by
  induction links generalizing g with
  | nil => rw [Except.ok.inj written]
  | cons link rest ih =>
    obtain ⟨_, next, first, others⟩ := writeLinks_cons_eq_ok.1 written
    simp only [List.map_cons, List.mem_cons, not_or] at untouched
    rw [ih others untouched.2, (written_of_setPredecessor first).2.predecessor,
      if_neg untouched.1]

theorem predecessor_writeLinks_of_mem (written : g.writeLinks links = .ok g')
    (once : (links.map LinkChange.entity).Nodup) (member : link ∈ links) :
    g'.predecessor link.entity = link.new := by
  induction links generalizing g with
  | nil => cases member
  | cons head rest ih =>
    obtain ⟨_, next, first, others⟩ := writeLinks_cons_eq_ok.1 written
    rw [List.map_cons, List.nodup_cons] at once
    rcases List.mem_cons.1 member with rfl | later
    · rw [predecessor_writeLinks_of_notMem others once.1,
        (written_of_setPredecessor first).2.predecessor, if_pos rfl]
    · exact ih others once.2 later

/-- What the index still gets right while writes are pending: it records no link that does not
exist, and it records every link of an entity that is not going to be written any more. -/
structure Settled (g : ChainGraph) (pending : List Handle) : Prop where
  sound : ∀ x h, g.successor x = some h → g.predecessor h = some x
  complete : ∀ x h, h ∉ pending → g.predecessor h = some x → g.successor x = some h

/-- If no entry of the index is wrong, then none is wrong after a write, whatever is written. -/
theorem Written.sound (step : g.Written entity target g')
    (sound : ∀ x h, g.successor x = some h → g.predecessor h = some x) :
    ∀ x h, g'.successor x = some h → g'.predecessor h = some x := by
  intro x h recorded
  rw [step.successor] at recorded
  rw [step.predecessor]
  split at recorded
  · cases recorded
    simp_all
  · split at recorded
    · cases recorded
    · rename_i unmoved
      have link := sound x h recorded
      rw [if_neg]
      · exact link
      · rintro rfl
        exact unmoved ⟨link, recorded⟩

/-- One write settles the entity that it is about. An entry of the index may be overwritten, but
only by the entity that is placed there in the end. -/
theorem Settled.write {final : Handle → Option Handle} {pending : List Handle}
    (settled : g.Settled (entity :: pending)) (step : g.Written entity target g')
    (unique : ∀ a b x, final a = some x → final b = some x → a = b)
    (goal : final entity = target)
    (kept : ∀ h, h ∉ entity :: pending → final h = g.predecessor h) : g'.Settled pending := by
  refine ⟨step.sound settled.sound, ?_⟩
  intro x h waiting link
  rw [step.predecessor] at link
  rw [step.successor]
  by_cases self : h = entity
  · subst self
    rw [if_pos rfl] at link
    rw [if_pos link]
  · rw [if_neg self] at link
    have outside : h ∉ entity :: pending := by simp [self, waiting]
    have recorded := settled.complete x h outside link
    rw [if_neg, if_neg, recorded]
    · rintro ⟨_, other⟩
      exact self (Option.some.inj (recorded.symm.trans other))
    · intro here
      exact self (unique h entity x ((kept h outside).trans link) (goal.trans here))

/-- On the way to a graph that places at most one entity after each element, the index is settled but
for what is still to be written. -/
theorem settled_of_writeLinks {done pending : List LinkChange} {between : ChainGraph}
    (settled : g.Settled ((done ++ pending).map LinkChange.entity))
    (reached : g.writeLinks done = .ok between)
    (written : g.writeLinks (done ++ pending) = .ok g')
    (once : ((done ++ pending).map LinkChange.entity).Nodup)
    (unique : ∀ a b x, g'.predecessor a = some x → g'.predecessor b = some x → a = b) :
    between.Settled (pending.map LinkChange.entity) := by
  induction done generalizing g with
  | nil => rwa [← Except.ok.inj reached]
  | cons link rest ih =>
    obtain ⟨_, next, first, others⟩ := writeLinks_cons_eq_ok.1 reached
    obtain ⟨_, next', first', others'⟩ := writeLinks_cons_eq_ok.1 written
    obtain ⟨rfl, rfl⟩ := Prod.mk.inj (Except.ok.inj (first.symm.trans first'))
    have goal := predecessor_writeLinks_of_mem written once (List.mem_cons_self ..)
    have kept (h : Handle) := predecessor_writeLinks_of_notMem (h := h) written
    exact ih (settled.write (written_of_setPredecessor first).2 unique goal kept) others others'
      (List.nodup_cons.1 once).2

/-- Before anything is written, an exact index is settled. -/
theorem settled_of_exact (recorded : ∀ x h, g.successor x = some h ↔ g.predecessor h = some x)
    (pending : List Handle) : g.Settled pending :=
  ⟨fun x h => (recorded x h).1, fun x h _ => (recorded x h).2⟩

theorem index_exact_of_writeLinks
    (recorded : ∀ x h, g.successor x = some h ↔ g.predecessor h = some x)
    (written : g.writeLinks links = .ok g') (once : (links.map LinkChange.entity).Nodup)
    (unique : ∀ a b x, g'.predecessor a = some x → g'.predecessor b = some x → a = b) :
    ∀ x h, g'.successor x = some h ↔ g'.predecessor h = some x := by
  rw [← List.append_nil links] at once
  have after := settled_of_writeLinks (settled_of_exact recorded _) written
    ((List.append_nil links).symm ▸ written) once unique
  exact fun x h => ⟨after.sound x h, after.complete x h (by simp)⟩

/-- Writes about different entities that place at most one entity after each element keep the index
exact, in whatever order they are made. -/
theorem Linked.writeLinks (linked : g.Linked) (written : g.writeLinks links = .ok g')
    (once : (links.map LinkChange.entity).Nodup)
    (unique : ∀ a b x, g'.predecessor a = some x → g'.predecessor b = some x → a = b) :
    g'.Linked := by
  have recorded := index_exact_of_writeLinks linked.index_exact written once unique
  refine ⟨fun h kind => ?_, unique, recorded⟩
  rw [kind?_writeLinks written] at kind
  rw [predecessor_writeLinks_of_notMem written, linked.anchor_free h kind]
  intro member
  obtain ⟨link, written_, rfl⟩ := List.mem_map.1 member
  rw [kind?_entity_of_writeLinks written written_] at kind
  cases kind

end ChainGraph

end PlanSearch
