import PlanSearch.Proofs.Chain.Footprint
import PlanSearch.Proofs.Chain.Relocation

/-!
# Links that are written at will

While the links of a move are written, two entities may be placed after the same element. The index
names one of them only, and the entry of the other one is lost or taken over. What a list of writes
leads to does not depend on that: if the links are unambiguous in the end, then every entry is right,
and another order of the writes leads to the same graph. Writes that lead elsewhere are found by the
check of the law of chains, however a graph was built.
-/

namespace PlanSearch

namespace ChainGraph

variable {g g' : ChainGraph} {h before : Handle} {e : ChainError} {links order : List LinkChange}

theorem predecessor_writeLinks_of_perm {other : ChainGraph} (written : g.writeLinks links = .ok g')
    (once : (links.map LinkChange.entity).Nodup) (perm : order.Perm links)
    (written' : g.writeLinks order = .ok other) (h : Handle) :
    other.predecessor h = g'.predecessor h := by
  have entities := perm.map LinkChange.entity
  by_cases touched : h ∈ links.map LinkChange.entity
  · obtain ⟨link, member, rfl⟩ := List.mem_map.1 touched
    rw [predecessor_writeLinks_of_mem written once member,
      predecessor_writeLinks_of_mem written' (entities.nodup_iff.2 once) (perm.mem_iff.2 member)]
  · rw [predecessor_writeLinks_of_notMem written touched,
      predecessor_writeLinks_of_notMem written' (mt entities.mem_iff.1 touched)]

/-- Writes about different entities lead to the same graph in every order, if they lead to one with
unambiguous links. -/
theorem writeLinks_of_perm (recorded : ∀ x h, g.successor x = some h ↔ g.predecessor h = some x)
    (written : g.writeLinks links = .ok g') (once : (links.map LinkChange.entity).Nodup)
    (unique : ∀ a b x, g'.predecessor a = some x → g'.predecessor b = some x → a = b)
    (perm : order.Perm links) : g.writeLinks order = .ok g' := by
  obtain ⟨other, written'⟩ : ∃ other, g.writeLinks order = .ok other :=
    writeLinks_eq_ok
      (fun link member => kind?_entity_of_writeLinks written (perm.mem_iff.1 member))
      (fun link member => contains_of_writeLinks written (perm.mem_iff.1 member))
  have same := predecessor_writeLinks_of_perm written once perm written'
  have exactly := index_exact_of_writeLinks recorded written once unique
  have exactly' := index_exact_of_writeLinks recorded written'
    ((perm.map LinkChange.entity).nodup_iff.2 once) (by simpa only [same] using unique)
  have kind (h : Handle) : other.kind? h = g'.kind? h := by
    rw [kind?_writeLinks written, kind?_writeLinks written']
  have successor (x : Handle) : other.successor x = g'.successor x := by
    refine Option.ext fun h => ?_
    rw [exactly, exactly', same]
  rw [written', ext_of_links kind same successor]

/-- From an exact index, writes about different entities whose links are unambiguous in the end lead
to an exact index, in whatever order they are made. On the way no entry is wrong, and none is missing
but those of entities that are still to be written. -/
theorem writeLinks_keeps_index (g g' : ChainGraph) (links : List LinkChange)
    (recorded : ∀ x h, g.successor x = some h ↔ g.predecessor h = some x)
    (written : g.writeLinks links = .ok g') (once : (links.map LinkChange.entity).Nodup)
    (unique : ∀ a b x, g'.predecessor a = some x → g'.predecessor b = some x → a = b) :
    (∀ x h, g'.successor x = some h ↔ g'.predecessor h = some x) ∧
    (∀ order, order.Perm links → g.writeLinks order = .ok g') ∧
    ∀ done pending, links = done ++ pending → ∃ between, g.writeLinks done = .ok between ∧
      (∀ x h, between.successor x = some h → between.predecessor h = some x) ∧
      ∀ x h, h ∉ pending.map LinkChange.entity →
        between.predecessor h = some x → between.successor x = some h := by
  refine ⟨index_exact_of_writeLinks recorded written once unique,
    fun order => writeLinks_of_perm recorded written once unique, ?_⟩
  rintro done pending rfl
  obtain ⟨between, reached⟩ : ∃ between, g.writeLinks done = .ok between :=
    writeLinks_eq_ok
      (fun link member => kind?_entity_of_writeLinks written (List.mem_append_left _ member))
      (fun link member => contains_of_writeLinks written (List.mem_append_left _ member))
  have settled := settled_of_writeLinks (settled_of_exact recorded _) reached written once unique
  exact ⟨between, reached, settled.sound, settled.complete⟩

/-- The first entity of a chain and the one behind it change places. In between the first entity is
still placed after the anchor, where the index names the other one. -/
theorem writeLinks_keeps_index_twoChains : ∃ between g', ∃ first second : LinkChange,
    first.entity = ⟨3⟩ ∧ second.entity = ⟨2⟩ ∧
    twoChains.writeLinks [first] = .ok between ∧
    between.predecessor ⟨2⟩ = some ⟨0⟩ ∧ between.successor ⟨0⟩ = some ⟨3⟩ ∧
    twoChains.writeLinks [first, second] = .ok g' ∧ twoChains.writeLinks [second, first] = .ok g' ∧
    g'.successor ⟨0⟩ = some ⟨3⟩ ∧ g'.predecessor ⟨2⟩ = some ⟨3⟩ ∧ g'.successor ⟨3⟩ = some ⟨2⟩ := by
  let first : LinkChange := ⟨⟨3⟩, some ⟨2⟩, some ⟨0⟩⟩
  let second : LinkChange := ⟨⟨2⟩, some ⟨0⟩, some ⟨3⟩⟩
  have valid : twoChains.Valid := validate_eq_ok_iff.1 (by decide)
  obtain ⟨g', written⟩ : ∃ g', twoChains.writeLinks [first, second] = .ok g' := ⟨_, rfl⟩
  have valid' : g'.Valid := by
    obtain rfl := Except.ok.inj written
    exact validate_eq_ok_iff.1 (by decide)
  obtain ⟨recorded, orders, halfway⟩ := writeLinks_keeps_index twoChains g' [first, second]
    valid.index_exact written (by decide) valid'.unique_successor
  obtain ⟨between, reached, -⟩ := halfway [first] [second] rfl
  have placed : g'.predecessor ⟨2⟩ = some ⟨3⟩ :=
    @predecessor_writeLinks_of_mem _ _ second _ written (by decide) (by simp)
  have placed' : g'.predecessor ⟨3⟩ = some ⟨0⟩ :=
    @predecessor_writeLinks_of_mem _ _ first _ written (by decide) (by simp)
  refine ⟨between, g', first, second, rfl, rfl, reached, ?_, ?_, written,
    orders _ (.swap _ _ _), (recorded _ _).2 placed', placed, (recorded _ _).2 placed⟩
  · obtain rfl := Except.ok.inj reached
    rfl
  · obtain rfl := Except.ok.inj reached
    rfl

/-! ## Graphs that were built -/

theorem index_sound_push (sound : ∀ x h, g.successor x = some h → g.predecessor h = some x)
    (kind : NodeKind) (x h : Handle)
    (recorded : (⟨g.nodes.push { kind }⟩ : ChainGraph).successor x = some h) :
    (⟨g.nodes.push { kind }⟩ : ChainGraph).predecessor h = some x := by
  rw [successor_push] at recorded
  rw [predecessor_push]
  exact sound x h recorded

/-- However a graph was built, no entry of its index is wrong. Entries may be missing. -/
theorem Built.index_sound (built : g.Built) :
    ∀ x h, g.successor x = some h → g.predecessor h = some x := by
  induction built with
  | empty => simp [successor, node?, ChainGraph.empty]
  | addAnchor _ ih => exact index_sound_push ih .anchor
  | addEntity _ ih => exact index_sound_push ih .entity
  | setPredecessor _ written ih => exact (written_of_setPredecessor written).2.sound ih

/-- An error of the check names what breaks the law of chains. -/
def Breach (g : ChainGraph) : ChainError → Prop
  | .anchorWithPredecessor h => g.kind? h = some .anchor ∧ (g.predecessor h).isSome
  | .duplicateSuccessor before => ∃ h₁ h₂, h₁ ≠ h₂ ∧
      g.predecessor h₁ = some before ∧ g.predecessor h₂ = some before
  | .staleSuccessor before => ∃ h, ¬(g.successor before = some h ↔ g.predecessor h = some before)
  | .detached h => (g.predecessor h).isSome ∧
      ∀ root, g.kind? root = some .anchor → ¬g.Leads h root
  | _ => False

theorem breach_of_collectLinks {hs : List Handle} {seen : List (Handle × Handle)}
    (distinct : hs.Nodup) (fresh : ∀ pair ∈ seen, pair.2 ∉ hs)
    (links : ∀ pair ∈ seen, g.predecessor pair.2 = some pair.1)
    (failed : g.collectLinks seen hs = .error e) : g.Breach e := by
  induction hs generalizing seen with
  | nil => cases failed
  | cons h rest ih =>
    obtain ⟨new, others⟩ := List.nodup_cons.1 distinct
    have later : ∀ pair ∈ seen, pair.2 ∉ rest :=
      fun pair member => fun inside => fresh pair member (List.mem_cons_of_mem h inside)
    rw [collectLinks] at failed
    cases link : g.predecessor h with
    | none =>
      rw [link] at failed
      exact ih others later links failed
    | some before =>
      rw [link] at failed
      dsimp only at failed
      split at failed
      · rename_i anchor
        cases failed
        exact ⟨by simpa [isAnchor] using anchor, by simp [link]⟩
      split at failed
      · rename_i double
        cases failed
        obtain ⟨pair, member, same⟩ := List.any_eq_true.1 double
        refine ⟨h, pair.2, ?_, link, ?_⟩
        · rintro rfl
          exact fresh pair member (List.mem_cons_self ..)
        · rw [links pair member, of_decide_eq_true same]
      · refine ih others ?_ ?_ failed
        · simpa [or_imp, forall_and, new] using later
        · simpa [or_imp, forall_and, link] using links

theorem breach_of_checkLinks {links : List (Handle × Handle)}
    (free : ∀ h, g.kind? h = some .anchor → g.predecessor h = none)
    (known : ∀ pair ∈ links, g.predecessor pair.2 = some pair.1)
    (failed : g.checkLinks links = .error e) : g.Breach e := by
  induction links with
  | nil => cases failed
  | cons pair rest ih =>
    obtain ⟨before, h⟩ := pair
    obtain ⟨link, others⟩ := List.forall_mem_cons.1 known
    rw [checkLinks] at failed
    split at failed
    · rename_i missing
      cases failed
      exact ⟨h, fun recorded => missing (recorded.2 link)⟩
    split at failed
    · rename_i lost
      cases failed
      refine ⟨by simp [link], fun root anchor leads => ?_⟩
      rw [(anchorOf_eq_some_iff free).2 ⟨anchor, leads⟩] at lost
      cases lost
    · exact ih others failed

/-- The check names a breach that is there. -/
theorem breach_of_validate (failed : g.validate = .error e) : g.Breach e := by
  unfold validate at failed
  cases first : g.collectLinks [] g.handles with
  | error e' =>
    rw [first] at failed
    cases failed
    exact breach_of_collectLinks g.nodup_handles (by simp) (by simp) first
  | ok links =>
    obtain ⟨free, -, rfl⟩ := collectLinks_handles_eq_ok.1 first
    simp only [first, bind, Except.bind] at failed
    cases checked : g.checkLinks (g.linksOf g.handles) with
    | error e' =>
      rw [checked] at failed
      cases failed
      exact breach_of_checkLinks (anchor_free_of_handles free)
        (fun pair member => mem_linksOf_handles.1 member) checked
    | ok _ =>
      rw [checked] at failed
      dsimp only at failed
      split at failed
      · rename_i stale found
        cases failed
        have idle := List.find?_some found
        simp only [Bool.and_eq_true, Bool.not_eq_true', List.any_eq_false, decide_eq_true_eq] at idle
        obtain ⟨h, recorded⟩ := Option.isSome_iff_exists.1 idle.1
        refine ⟨h, fun exactly => ?_⟩
        exact idle.2 (stale, h) (mem_linksOf_handles.2 (exactly.1 recorded)) rfl
      · cases failed

/-- The check of a graph that was built in whatever way passes exactly if the graph obeys the law of
chains. Otherwise it names an element that two entities are placed after, a link that the index
lacks, or an entity that is placed but leads to no anchor. -/
theorem validate_exact (g : ChainGraph) (built : g.Built) :
    (g.validate = .ok () ↔
      (∀ a, g.kind? a = some .anchor → g.predecessor a = none) ∧
      (∀ e₁ e₂ before, g.kind? e₁ = some .entity → g.kind? e₂ = some .entity →
        g.predecessor e₁ = some before → g.predecessor e₂ = some before → e₁ = e₂) ∧
      (∀ before h, g.successor before = some h ↔ g.predecessor h = some before) ∧
      ∀ e, g.kind? e = some .entity → (g.predecessor e).isSome →
        ∃ a, g.kind? a = some .anchor ∧ g.Leads e a) ∧
    ∀ e, g.validate = .error e →
      (∃ before h₁ h₂, e = .duplicateSuccessor before ∧ h₁ ≠ h₂ ∧
        g.predecessor h₁ = some before ∧ g.predecessor h₂ = some before) ∨
      (∃ before h, e = .staleSuccessor before ∧
        g.predecessor h = some before ∧ g.successor before ≠ some h) ∨
      ∃ h, e = .detached h ∧ (g.predecessor h).isSome ∧
        ∀ a, g.kind? a = some .anchor → ¬g.Leads h a := by
  have entity (h before : Handle) := built.sound.entity h before
  constructor
  · rw [validate_eq_ok_iff]
    constructor
    · intro valid
      exact ⟨valid.anchor_free, fun e₁ e₂ before _ _ => valid.unique_successor e₁ e₂ before,
        valid.index_exact, fun e _ => valid.anchored e⟩
    · rintro ⟨free, unique, recorded, anchored⟩
      refine ⟨free, ?_, recorded, ?_⟩
      · intro h₁ h₂ before link₁ link₂
        exact unique h₁ h₂ before (entity h₁ before link₁) (entity h₂ before link₂) link₁ link₂
      · intro h placed
        obtain ⟨before, link⟩ := Option.isSome_iff_exists.1 placed
        exact anchored h (entity h before link) placed
  · intro e failed
    have breach := breach_of_validate failed
    cases e with
    | anchorWithPredecessor h =>
      obtain ⟨anchor, placed⟩ := breach
      obtain ⟨before, link⟩ := Option.isSome_iff_exists.1 placed
      rw [entity h before link] at anchor
      cases anchor
    | duplicateSuccessor before =>
      obtain ⟨h₁, h₂, differ, link₁, link₂⟩ := breach
      exact .inl ⟨before, h₁, h₂, rfl, differ, link₁, link₂⟩
    | staleSuccessor before =>
      obtain ⟨h, wrong⟩ := breach
      have sound := built.index_sound before h
      by_cases recorded : g.successor before = some h
      · exact absurd (iff_of_true recorded (sound recorded)) wrong
      · have link := not_not.1 fun free => wrong (iff_of_false recorded free)
        exact .inr (.inl ⟨before, h, rfl, link, recorded⟩)
    | detached h => exact .inr (.inr ⟨h, rfl, breach⟩)
    | _ => cases breach

/-- The second of two entities that were placed after an anchor was placed behind the first one. -/
def displaced : ChainGraph :=
  ⟨#[⟨.anchor, none, none⟩, ⟨.entity, some ⟨0⟩, some ⟨2⟩⟩, ⟨.entity, some ⟨1⟩, none⟩]⟩

theorem built_displaced : displaced.Built := by
  have blank : Built _ := Built.empty.addAnchor.addEntity.addEntity
  have first : Built _ := @Built.setPredecessor _ _ ⟨1⟩ (some ⟨0⟩) _ blank rfl
  have second : Built _ := @Built.setPredecessor _ _ ⟨2⟩ (some ⟨0⟩) _ first rfl
  exact @Built.setPredecessor _ _ ⟨2⟩ (some ⟨1⟩) _ second rfl

/-- All links are in order, but the index has lost one of them. -/
theorem validate_exact_displaced : displaced.Built ∧
    displaced.validate = .error (.staleSuccessor ⟨0⟩) ∧
    (∃ h, displaced.predecessor h = some ⟨0⟩ ∧ displaced.successor ⟨0⟩ ≠ some h) ∧
    ¬∀ before h, displaced.successor before = some h ↔ displaced.predecessor h = some before := by
  have failed : displaced.validate = .error (.staleSuccessor ⟨0⟩) := by decide
  have named := (validate_exact displaced built_displaced).2 _ failed
  obtain ⟨_, _, _, ⟨⟩, -⟩ | ⟨_, h, ⟨⟩, link, missing⟩ | ⟨_, ⟨⟩, -⟩ := named
  refine ⟨built_displaced, failed, ⟨h, link, missing⟩, fun recorded => ?_⟩
  exact missing ((recorded _ h).2 link)

end ChainGraph

end PlanSearch
