import PlanSearch.Proofs.Chain.Relocation

/-!
# Walks in both directions

Whatever links were written, the way from an element towards an anchor ends at an anchor or at an
entity that is in no chain, or it goes round for ever. The bounded walk tells these apart: it finds
the anchor in the first case and nothing in the others. In a valid graph the walk along the index is
the inverse of this one. It lists all elements whose way passes through the one that it starts from,
nearest first, and they share its anchor.
-/

namespace PlanSearch

namespace ChainGraph

variable {g : ChainGraph} {h x : Handle} {j k count : Nat} {l : List Handle}

/-! ## Where the way towards the anchor ends -/

theorem Sound.anchor_free (sound : g.Sound) (h : Handle) (anchor : g.kind? h = some .anchor) :
    g.predecessor h = none := by
  cases link : g.predecessor h with
  | none => rfl
  | some before =>
    rw [sound.entity h before link] at anchor
    cases anchor

theorem Sound.contains_of_leads (sound : g.Sound) (leads : g.Leads h x) (known : g.contains h) :
    g.contains x := by
  induction leads with
  | refl => exact known
  | step link _ ih => exact ih (sound.known _ _ link)

/-- A way that does not end within as many links as there are elements comes back to one of them. -/
theorem Sound.ends_or_circles (sound : g.Sound) (known : g.contains h) :
    (∃ k top, g.ancestor k h = some top ∧ g.predecessor top = none) ∨
      ∃ k c m, g.ancestor k h = some c ∧ g.ancestor (m + 1) c = some c := by
  by_cases lasting : ∀ j ≤ g.size, (g.ancestor j h).isSome
  · right
    have visited : ∀ j ≤ g.size, ∃ x, g.ancestor j h = some x ∧ g.contains x := by
      intro j within
      obtain ⟨x, here⟩ := Option.isSome_iff_exists.1 (lasting j within)
      exact ⟨x, here, sound.contains_of_leads (leads_iff_ancestor.2 ⟨j, here⟩) known⟩
    obtain ⟨i, j, c, earlier, -, here, there⟩ := exists_revisit (Nat.le_refl g.size) visited
    obtain ⟨m, rfl⟩ := Nat.exists_eq_add_of_lt earlier
    rw [Nat.add_assoc, ancestor_add, here] at there
    exact ⟨i, c, m, here, there⟩
  · left
    push Not at lasting
    obtain ⟨j, -, lost⟩ := lasting
    exact exists_last (Option.not_isSome_iff_eq_none.1 lost)

theorem transGen_of_ancestor (reached : g.ancestor (k + 1) h = some x) :
    Relation.TransGen (fun before h => g.predecessor h = some before) x h := by
  induction k generalizing h with
  | zero => exact .single ((g.ancestor_one h).symm.trans reached)
  | succ k ih =>
    obtain ⟨before, link, onwards⟩ := Option.bind_eq_some_iff.1 reached
    exact (ih onwards).tail link

/-- The walk finds nothing exactly from handles of no element, from what leads to an entity that is
in no chain, and from what leads into a cycle. -/
theorem Sound.anchorOf_eq_none_iff (sound : g.Sound) : g.anchorOf h = none ↔
    ¬g.contains h ∨
    (∃ k e, g.ancestor k h = some e ∧ g.kind? e = some .entity ∧ g.predecessor e = none) ∨
    ∃ k c m, g.ancestor k h = some c ∧ g.ancestor (m + 1) c = some c := by
  constructor
  · intro lost
    by_cases known : g.contains h
    · right
      refine (sound.ends_or_circles known).imp_left ?_
      rintro ⟨k, top, reached, free⟩
      have leads := leads_iff_ancestor.2 ⟨k, reached⟩
      have inside := contains_iff_kind?_isSome.1 (sound.contains_of_leads leads known)
      obtain ⟨kind, isKind⟩ := Option.isSome_iff_exists.1 inside
      cases kind with
      | anchor =>
        rw [(anchorOf_eq_some_iff sound.anchor_free).2 ⟨isKind, leads⟩] at lost
        cases lost
      | entity => exact ⟨k, top, reached, isKind, free⟩
    · exact .inl known
  · intro ends
    rw [Option.eq_none_iff_forall_ne_some]
    intro root found
    obtain ⟨anchor, leads⟩ := (anchorOf_eq_some_iff sound.anchor_free).1 found
    have top := sound.anchor_free root anchor
    rcases ends with unknown | ⟨k, e, reached, entity, free⟩ | ⟨k, c, m, reached, around⟩
    · exact unknown (leads.contains anchor)
    · have onwards := (leads_iff_ancestor.2 ⟨k, reached⟩).of_leads leads top
      have placed := onwards.isSome_predecessor entity anchor
      rw [free] at placed
      cases placed
    · have onwards := (leads_iff_ancestor.2 ⟨k, reached⟩).of_leads leads top
      exact onwards.not_cyclic top (transGen_of_ancestor around)

/-! ## What the walk along the index lists -/

/-- Along a path the number of links to its first element is the place in the list. -/
theorem ancestor_of_path (path : Path g.predecessor (h :: l)) (place : (h :: l)[k]? = some x) :
    g.ancestor k x = some h := by
  induction k generalizing h l with
  | zero =>
    cases place
    rfl
  | succ k ih =>
    cases l with
    | nil => cases place
    | cons next rest =>
      obtain ⟨link, onwards⟩ := List.isChain_cons_cons.1 path
      rw [ancestor_succ_right, ih onwards place, Option.bind_some, link]

/-- Without cycles an element is reached by one number of links only. -/
theorem Acyclic.eq_of_ancestor (acyclic : g.Acyclic) (reached : g.ancestor j x = some h)
    (reached' : g.ancestor k x = some h) : j = k := by
  have around {j k : Nat} (reached : g.ancestor j x = some h) (reached' : g.ancestor k x = some h) :
      ¬j < k := by
    intro earlier
    obtain ⟨m, rfl⟩ := Nat.exists_eq_add_of_lt earlier
    rw [Nat.add_assoc, ancestor_add, reached] at reached'
    exact acyclic h (transGen_of_ancestor reached')
  exact Nat.le_antisymm (Nat.le_of_not_lt (around reached' reached))
    (Nat.le_of_not_lt (around reached reached'))

/-- The walk lists an element at the place that says how many links lead back from it. -/
theorem Valid.getElem?_trailingWithin (valid : g.Valid) (enough : g.size ≤ count) :
    (g.trailingWithin count h)[k]? = some x ↔ g.ancestor (k + 1) x = some h := by
  have strand := strand_trailingWithin valid.linked valid.acyclic enough h
  rw [← List.getElem?_cons_succ (a := h)]
  constructor
  · exact ancestor_of_path strand.path
  · intro reached
    have leads := leads_iff_ancestor.2 ⟨k + 1, reached⟩
    obtain ⟨j, place⟩ :=
      List.getElem?_of_mem (strand.mem_of_leads leads (List.mem_cons_self ..))
    rwa [valid.acyclic.eq_of_ancestor reached (ancestor_of_path strand.path place)]

theorem Valid.trailingWithin_eq_trailing (valid : g.Valid) (enough : g.size ≤ count)
    (h : Handle) : g.trailingWithin count h = g.trailing h := by
  refine List.ext_getElem? fun k => Option.ext fun x => ?_
  rw [trailing, valid.getElem?_trailingWithin enough,
    valid.getElem?_trailingWithin (Nat.le_refl g.size)]

/-- What is listed behind an element is in the same chain. -/
theorem Valid.exists_anchorOf_of_mem_trailing (valid : g.Valid) (member : x ∈ g.trailing h) :
    ∃ root, g.anchorOf x = some root ∧ g.anchorOf h = some root := by
  obtain ⟨k, place⟩ := List.getElem?_of_mem member
  have reached := (valid.getElem?_trailingWithin (Nat.le_refl g.size)).1 place
  obtain ⟨before, link, -⟩ := Option.bind_eq_some_iff.1 reached
  obtain ⟨root, anchor, leads⟩ := valid.anchored x (by simp [link])
  have behind := leads_iff_ancestor.2 ⟨k + 1, reached⟩
  have onwards := behind.of_leads leads (valid.anchor_free root anchor)
  exact ⟨root, (anchorOf_eq_some_iff valid.anchor_free).2 ⟨anchor, leads⟩,
    (anchorOf_eq_some_iff valid.anchor_free).2 ⟨anchor, onwards⟩⟩

/-! ## Both walks -/

/-- The walk towards the anchor finds the first anchor that links lead to, however many they are. In
a graph that was built in whatever way, links lead on from no anchor, and there is none to be found
exactly from unknown handles, from runs that start at an unassigned entity, and from cycles. In a
valid graph the walk along the index lists an element at a place exactly if one link more than the
place says leads back from it, and all elements listed have one anchor. A higher bound for either
walk changes nothing. -/
theorem walks_exact (g : ChainGraph) :
    (∀ h a, g.anchorOf h = some a ↔ g.kind? a = some .anchor ∧ ∃ k, g.ancestor k h = some a ∧
      ∀ j < k, ∀ x, g.ancestor j h = some x → g.kind? x ≠ some .anchor) ∧
    (∀ h count, g.size ≤ count → g.anchorWithin count h = g.anchorOf h) ∧
    (g.Built → ∀ h,
      (∀ a, g.anchorOf h = some a ↔
        g.kind? a = some .anchor ∧ ∃ k, g.ancestor k h = some a) ∧
      (g.anchorOf h = none ↔ ¬g.contains h ∨
        (∃ k e, g.ancestor k h = some e ∧ g.kind? e = some .entity ∧ g.predecessor e = none) ∨
        ∃ k c m, g.ancestor k h = some c ∧ g.ancestor (m + 1) c = some c)) ∧
    (g.validate = .ok () → ∀ h,
      (∀ k x, (g.trailing h)[k]? = some x ↔ g.ancestor (k + 1) x = some h) ∧
      (∀ x ∈ g.trailing h, ∃ a, g.anchorOf x = some a ∧ g.anchorOf h = some a) ∧
      ∀ count, g.size ≤ count → g.trailingWithin count h = g.trailing h) := by
  refine ⟨fun h a => ?_, fun h count enough => anchorWithin_eq_anchorOf enough h, ?_, ?_⟩
  · rw [anchorOf_eq_some_iff_nearestAnchor]
    constructor
    · rintro ⟨k, anchor, reached, first⟩
      exact ⟨anchor, k, reached, first⟩
    · rintro ⟨anchor, k, reached, first⟩
      exact ⟨k, anchor, reached, first⟩
  · intro built h
    refine ⟨fun a => ?_, built.sound.anchorOf_eq_none_iff⟩
    rw [anchorOf_eq_some_iff built.sound.anchor_free, leads_iff_ancestor]
  · intro passed h
    have valid := validate_eq_ok_iff.1 passed
    exact ⟨fun k x => valid.getElem?_trailingWithin (Nat.le_refl g.size),
      fun x => valid.exists_anchorOf_of_mem_trailing,
      fun count enough => valid.trailingWithin_eq_trailing enough h⟩

/-- An entity behind a cycle of two others, and one behind an entity outside all chains. -/
def scattered : ChainGraph :=
  ⟨#[⟨.anchor, none, none⟩, ⟨.entity, some ⟨2⟩, some ⟨2⟩⟩, ⟨.entity, some ⟨1⟩, some ⟨3⟩⟩,
    ⟨.entity, some ⟨2⟩, none⟩, ⟨.entity, none, some ⟨5⟩⟩, ⟨.entity, some ⟨4⟩, none⟩]⟩

theorem built_scattered : scattered.Built := by
  have blank : Built _ := Built.empty.addAnchor.addEntity.addEntity.addEntity.addEntity.addEntity
  have first : Built _ := @Built.setPredecessor _ _ ⟨1⟩ (some ⟨2⟩) _ blank rfl
  have second : Built _ := @Built.setPredecessor _ _ ⟨2⟩ (some ⟨1⟩) _ first rfl
  have third : Built _ := @Built.setPredecessor _ _ ⟨3⟩ (some ⟨2⟩) _ second rfl
  exact @Built.setPredecessor _ _ ⟨5⟩ (some ⟨4⟩) _ third rfl

/-- Neither the entity behind the cycle nor the one in the detached run has an anchor, and of two
entities in a chain the second one is listed second and has the anchor of the chain. -/
theorem walks_exact_scattered : scattered.Built ∧ scattered.anchorOf ⟨3⟩ = none ∧
    scattered.anchorOf ⟨5⟩ = none ∧ scattered.anchorOf ⟨6⟩ = none ∧
    twoChains.validate = .ok () ∧ (twoChains.trailing ⟨0⟩)[1]? = some ⟨3⟩ ∧
    ∃ a, twoChains.anchorOf ⟨3⟩ = some a ∧ twoChains.anchorOf ⟨0⟩ = some a := by
  obtain ⟨-, -, ends, -⟩ := walks_exact scattered
  have none_iff (h : Handle) := (ends built_scattered h).2
  have valid : twoChains.validate = .ok () := by decide
  obtain ⟨-, -, -, walks⟩ := walks_exact twoChains
  obtain ⟨places, anchors, -⟩ := walks valid ⟨0⟩
  have second : (twoChains.trailing ⟨0⟩)[1]? = some ⟨3⟩ := (places 1 ⟨3⟩).2 rfl
  refine ⟨built_scattered, (none_iff ⟨3⟩).2 (.inr (.inr ⟨1, ⟨2⟩, 1, rfl, rfl⟩)),
    (none_iff ⟨5⟩).2 (.inr (.inl ⟨1, ⟨4⟩, rfl, rfl, rfl⟩)), (none_iff ⟨6⟩).2 (.inl (by decide)),
    valid, second, anchors ⟨3⟩ (List.mem_of_getElem? second)⟩

end ChainGraph

end PlanSearch
