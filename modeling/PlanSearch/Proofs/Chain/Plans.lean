import PlanSearch.Chain.Plan
import PlanSearch.Proofs.Chain.Splice

/-!
# What a plan lists

A plan is made from a list of writes in which a later value replaces an earlier one of the same
entity. Written out case by case, the list names each entity once: the one behind the run, the run
itself, and the one behind the new place. The values are those of the relocation, so that the links
of a plan are the changes of the relocation, in the order of that list.
-/

namespace PlanSearch

namespace ChainGraph

variable {g : ChainGraph} {run : SubChain} {target : Option Handle} {reversing : Bool}
variable {h : Handle} {l : List Handle}

/-! ## The checks -/

/-- A relocation passes all checks. -/
structure Placeable (g : ChainGraph) (run : SubChain) (target : Option Handle) : Prop where
  entity : ∀ h ∈ run.entities, g.kind? h = some .entity
  contiguous : Path g.predecessor run.entities
  destination : ∀ d, target = some d →
    g.contains d ∧ d ∉ run.entities ∧ (g.anchorOf d).isSome

theorem checkMovable_eq_ok : g.checkMovable l = .ok () ↔ ∀ h ∈ l, g.kind? h = some .entity := by
  induction l with
  | nil => simp [checkMovable]
  | cons h rest ih =>
    rw [List.forall_mem_cons, ← ih]
    match kind : g.kind? h with
    | none => simp [checkMovable, kind]
    | some .anchor => simp [checkMovable, kind]
    | some .entity => simp [checkMovable, kind]

theorem checkContiguous_eq_ok : g.checkContiguous l = .ok () ↔ Path g.predecessor l := by
  induction l with
  | nil => simp [checkContiguous]
  | cons a rest ih =>
    cases rest with
    | nil => simp [checkContiguous]
    | cons b rest =>
      rw [Path, List.isChain_cons_cons, ← Path, ← ih]
      by_cases link : g.predecessor b = some a <;> simp [checkContiguous, link]

theorem checkDestination_eq_ok : g.checkDestination run target = .ok () ↔
    ∀ d, target = some d → g.contains d ∧ d ∉ run.entities ∧ (g.anchorOf d).isSome := by
  cases target with
  | none => simp [checkDestination]
  | some d =>
    simp only [Option.some.injEq, forall_eq']
    by_cases known : g.contains d <;> by_cases inside : d ∈ run.entities <;>
      cases top : g.anchorOf d <;>
      simp [checkDestination, SubChain.contains, known, inside, top]

/-- The links of a plan that passed all checks. -/
def plannedLinks (g : ChainGraph) (run : SubChain) (target : Option Handle) (reversing : Bool) :
    List LinkChange :=
  if reversing = false ∧ target = g.predecessor run.first then []
  else (g.writesOf run target reversing).filterMap fun (entity, value) =>
    if g.predecessor entity = value then none else some ⟨entity, g.predecessor entity, value⟩

/-- A plan is made exactly when all checks pass. -/
theorem planMove_eq_ok {plan : SplicePlan} : g.planMove run target reversing = .ok plan ↔
    g.Placeable run target ∧
      plan = ⟨g.predecessor run.first, g.plannedLinks run target reversing⟩ := by
  have checks : g.Placeable run target ↔ g.checkMovable run.entities = .ok () ∧
      g.checkContiguous run.entities = .ok () ∧ g.checkDestination run target = .ok () := by
    rw [checkMovable_eq_ok, checkContiguous_eq_ok, checkDestination_eq_ok]
    exact ⟨fun ⟨a, b, c⟩ => ⟨a, b, c⟩, fun ⟨a, b, c⟩ => ⟨a, b, c⟩⟩
  rw [checks]
  unfold planMove plannedLinks
  cases g.checkMovable run.entities with
  | error e => simp [bind, Except.bind]
  | ok _ =>
    cases g.checkContiguous run.entities with
    | error e => simp [bind, Except.bind]
    | ok _ =>
      cases g.checkDestination run target with
      | error e => simp [bind, Except.bind]
      | ok _ =>
        simp only [bind, Except.bind, pure, Except.pure]
        split <;> simp [eq_comm]

/-! ## The list of writes -/

variable {writes : List (Handle × Option Handle)} {value : Option Handle}

theorem putLink_of_notMem (fresh : h ∉ writes.map Prod.fst) :
    putLink writes h value = writes ++ [(h, value)] := by
  induction writes with
  | nil => rfl
  | cons first rest ih =>
    obtain ⟨e, v⟩ := first
    rw [List.map_cons, List.mem_cons, not_or] at fresh
    rw [putLink, if_neg (Ne.symm fresh.1), ih fresh.2, List.cons_append]

/-- The writes that place a block after the target. -/
def blockWrites (target : Option Handle) (l : List Handle) : List (Handle × Option Handle) :=
  l.map fun h => (h, predecessorIn target l h)

theorem predecessorIn_append_of_mem {front back : List Handle} (member : h ∈ front) :
    predecessorIn target (front ++ back) h = predecessorIn target front h := by
  induction front generalizing target with
  | nil => cases member
  | cons b rest ih =>
    by_cases self : h = b
    · rw [List.cons_append, self, predecessorIn_cons_self, predecessorIn_cons_self]
    · rw [List.cons_append, predecessorIn_cons_of_ne self, predecessorIn_cons_of_ne self,
        ih (List.mem_of_ne_of_mem self member)]

theorem predecessorIn_concat {b : Handle} (fresh : h ∉ l ++ [b]) :
    predecessorIn target (l ++ [b] ++ [h]) h = some b := by
  induction l generalizing target with
  | nil =>
    have other : h ≠ b := by simpa using fresh
    rw [List.nil_append, List.singleton_append, predecessorIn_cons_of_ne other,
      predecessorIn_cons_self]
  | cons c rest ih =>
    rw [List.cons_append, List.mem_cons, not_or] at fresh
    rw [List.cons_append, List.cons_append, predecessorIn_cons_of_ne fresh.1, ih fresh.2]

theorem blockWrites_concat {b : Handle} (fresh : h ∉ l ++ [b]) :
    blockWrites target (l ++ [b] ++ [h]) = blockWrites target (l ++ [b]) ++ [(h, some b)] := by
  unfold blockWrites
  rw [List.map_append, List.map_singleton, predecessorIn_concat fresh]
  congr 1
  refine List.map_congr_left fun x member => ?_
  rw [predecessorIn_append_of_mem member]

@[simp] theorem keys_blockWrites : (blockWrites target l).map Prod.fst = l := by
  simp [blockWrites, Function.comp_def]

/-- Writing a run tail first is writing the opposite block from its head. -/
theorem reversingWrites_eq {b : Handle} {rest : List Handle} (nodup : (b :: rest).Nodup)
    (fresh : ∀ h ∈ b :: rest, h ∉ writes.map Prod.fst) :
    reversingWrites
        (writes ++ [((b :: rest).getLast (List.cons_ne_nil b rest), target)]) (b :: rest) =
      writes ++ blockWrites target (b :: rest).reverse := by
  induction rest generalizing b with
  | nil => simp [reversingWrites, blockWrites, predecessorIn]
  | cons c rest ih =>
    obtain ⟨apart, nodup⟩ := List.nodup_cons.1 nodup
    have inner := ih nodup fun h member => fresh h (List.mem_cons_of_mem b member)
    have unwritten : b ∉ (writes ++ blockWrites target (c :: rest).reverse).map Prod.fst := by
      rw [List.map_append, keys_blockWrites, List.mem_append, List.mem_reverse, not_or]
      exact ⟨fresh b (List.mem_cons_self ..), apart⟩
    rw [List.getLast_cons (List.cons_ne_nil c rest), reversingWrites, inner,
      putLink_of_notMem unwritten, List.append_assoc]
    congr 1
    rw [List.reverse_cons (a := b), List.reverse_cons (a := c), blockWrites_concat]
    rwa [← List.reverse_cons, List.mem_reverse]

/-- The entities of a run that get a new link when it is moved. -/
def relinked (run : SubChain) (reversing : Bool) : List Handle :=
  if reversing then run.entities.reverse else [run.first]

/-- The entities that a plan looks at, in its order. The entity behind an in-place reversal comes
first or last depending on the orientation of the run. -/
def touched (g : ChainGraph) (run : SubChain) (target : Option Handle) (reversing : Bool) :
    List Handle :=
  let behind := (g.successor run.last).toList
  if target = g.predecessor run.first then
    if run.last.index < run.first.index then relinked run reversing ++ behind
    else behind ++ relinked run reversing
  else behind ++ relinked run reversing ++ (target.bind g.successor).toList

theorem mem_run_of_mem_relinked (member : h ∈ relinked run reversing) : h ∈ run.entities := by
  cases reversing
  · rw [List.mem_singleton.1 member]
    exact run.first_mem
  · simpa [relinked] using member

theorem relinked_oriented :
    relinked (run.oriented reversing) reversing = (relinked run reversing).reverse := by
  cases reversing <;> simp [relinked, SubChain.oriented, SubChain.reversed]

/-! ## Values of the relocation -/

section Values

variable {predecessor : Handle → Option Handle} {d x : Handle}

theorem relocated_of_mem (member : h ∈ run.entities) :
    relocated predecessor run target reversing h =
      predecessorIn target (run.oriented reversing).entities h :=
  if_pos (SubChain.mem_oriented.2 member)

theorem Liftable.relocated_of_ne_first (ready : Liftable predecessor run)
    (member : h ∈ run.entities) (other : h ≠ run.first) :
    relocated predecessor run target false h = predecessor h := by
  rw [relocated_of_mem member, ← ready.predecessorIn_eq member]
  obtain ⟨b, rest, rfl⟩ := run.exists_eq_cons
  exact (predecessorIn_cons_of_ne other).trans (predecessorIn_cons_of_ne other).symm

/-- What followed the run moves up, or follows it again after a move in place. -/
theorem Liftable.relocated_behind (ready : Liftable predecessor run)
    (follows : predecessor h = some run.last) :
    relocated predecessor run target reversing h =
      if target.isSome ∧ target = predecessor run.first then some (run.oriented reversing).last
      else predecessor run.first := by
  have outside := ready.notMem_of_link_last follows
  have up : withdrawn predecessor run h = predecessor run.first := by
    rw [withdrawn, if_neg outside, if_pos follows]
  rw [relocated, inserted, if_neg (SubChain.mem_oriented.not.2 outside), up]
  simp only [eq_comm]

/-- What follows the target is not in the run, unless the run is placed there already. -/
theorem Liftable.notMem_of_link (ready : Liftable predecessor run)
    (link : predecessor h = some d) (away : d ∉ run.entities)
    (elsewhere : some d ≠ predecessor run.first) : h ∉ run.entities := by
  intro member
  rw [← ready.predecessorIn_eq member] at link
  rcases predecessorIn_eq_some link with here | here
  · exact elsewhere here.symm
  · exact away here

/-- What followed the target is placed after the block. -/
theorem Liftable.relocated_after (ready : Liftable predecessor run)
    (link : predecessor h = some d) (away : d ∉ run.entities)
    (elsewhere : some d ≠ predecessor run.first) :
    relocated predecessor run (some d) reversing h = some (run.oriented reversing).last := by
  have outside := ready.notMem_of_link link away elsewhere
  have kept := withdrawn_of_notMem outside away link
  rw [relocated, inserted, if_neg (SubChain.mem_oriented.not.2 outside), if_pos ⟨rfl, kept⟩]

/-- All other links stay. -/
theorem relocated_of_notMem (outside : h ∉ run.entities)
    (unfollowing : predecessor h ≠ some run.last)
    (elsewhere : ∀ d, target = some d → predecessor h ≠ some d) :
    relocated predecessor run target reversing h = predecessor h := by
  have kept : withdrawn predecessor run h = predecessor h := by
    rw [withdrawn, if_neg outside, if_neg unfollowing]
  rw [relocated, inserted, if_neg (SubChain.mem_oriented.not.2 outside), kept, if_neg]
  rintro ⟨given, here⟩
  obtain ⟨d, rfl⟩ := Option.isSome_iff_exists.1 given
  exact elsewhere d rfl here

end Values

/-! ## The links of a plan -/

/-- The writes of a run after earlier ones, and the entity of the run that is placed last. -/
def runWrites (writes : List (Handle × Option Handle)) (run : SubChain) (target : Option Handle)
    (reversing : Bool) : List (Handle × Option Handle) × Handle :=
  if reversing then (reversingWrites (putLink writes run.last target) run.entities, run.first)
  else (putLink writes run.first target, run.last)

/-- The entities of the run that get a new link, each with the value of the relocation, are listed
behind the earlier writes. -/
theorem runWrites_eq (predecessor : Handle → Option Handle) (nodup : run.entities.Nodup)
    (fresh : ∀ h ∈ run.entities, h ∉ writes.map Prod.fst) :
    runWrites writes run target reversing = (writes ++ (relinked run reversing).map fun h =>
      (h, relocated predecessor run target reversing h), (run.oriented reversing).last) := by
  cases reversing with
  | false =>
    have first : relocated predecessor run target false run.first = target := relocated_first
    rw [runWrites, if_neg Bool.false_ne_true, putLink_of_notMem (fresh run.first run.first_mem),
      relinked, if_neg Bool.false_ne_true, List.map_singleton, first]
    rfl
  | true =>
    have values : (relinked run true).map (fun h =>
        (h, relocated predecessor run target true h)) =
          blockWrites target run.entities.reverse := by
      refine List.map_congr_left fun h member => ?_
      rw [relocated_of_mem (mem_run_of_mem_relinked member)]
      rfl
    rw [runWrites, if_pos rfl, values, putLink_of_notMem (fresh run.last run.last_mem)]
    obtain ⟨b, rest, rfl⟩ := run.exists_eq_cons
    have last := SubChain.last_reversed ⟨b :: rest, List.cons_ne_nil b rest⟩
    exact Prod.ext (reversingWrites_eq nodup fresh) last.symm

/-- The list of writes in three stages: behind the old place, in the run, behind the new place. -/
theorem writesOf_eq_stages (g : ChainGraph) (run : SubChain) (target : Option Handle)
    (reversing : Bool) :
    g.writesOf run target reversing =
      let place := g.predecessor run.first
      let inner := runWrites ((g.successor run.last).toList.map fun t => (t, place)) run target
        reversing
      let next := if target = place then target.bind fun _ => g.successor run.last
        else target.bind g.successor
      let writes := next.elim inner.1 fun t => putLink inner.1 t (some inner.2)
      if reversing ∧ target = place ∧ (g.successor run.last).isSome ∧
          run.last.index < run.first.index then
        writes.rotateLeft 1
      else writes := by
  unfold writesOf
  cases target with
  | none =>
    simp only [Option.bind_none, ite_self]
    cases g.successor run.last <;> rfl
  | some d =>
    by_cases back : some d = g.predecessor run.first
    · simp only [← back, if_true, Option.bind_some]
      cases g.successor run.last <;> rfl
    · simp only [if_neg back, Option.bind_some]
      cases g.successor run.last <;> cases g.successor d <;> rfl

theorem writesOf_eq_elsewhere (linked : g.Linked) (ready : Liftable g.predecessor run)
    (away : ∀ d, target = some d → d ∉ run.entities)
    (elsewhere : target ≠ g.predecessor run.first) :
    g.writesOf run target reversing = (g.touched run target reversing).map fun h =>
      (h, relocated g.predecessor run target reversing h) := by
  have closing : (g.successor run.last).toList.map (fun t => (t, g.predecessor run.first)) =
      (g.successor run.last).toList.map fun h =>
        (h, relocated g.predecessor run target reversing h) := by
    refine List.map_congr_left fun t behind => ?_
    have follows := (linked.index_exact run.last t).1 (Option.mem_toList.1 behind)
    rw [ready.relocated_behind follows, if_neg fun both => elsewhere both.2]
  have fresh : ∀ h ∈ run.entities, h ∉ ((g.successor run.last).toList.map fun h =>
      (h, relocated g.predecessor run target reversing h)).map Prod.fst := by
    intro h member listed
    have behind : g.successor run.last = some h := by simpa [Function.comp_def] using listed
    exact ready.notMem_of_link_last ((linked.index_exact _ _).1 behind) member
  rw [writesOf_eq_stages, touched, if_neg elsewhere]
  simp only [closing, runWrites_eq g.predecessor ready.nodup fresh, elsewhere, false_and,
    and_false, if_false]
  rw [List.map_append, List.map_append]
  cases recorded : target.bind g.successor with
  | none => simp
  | some t =>
    obtain ⟨d, rfl, there⟩ := Option.bind_eq_some_iff.1 recorded
    have link := (linked.index_exact d t).1 there
    have outside := ready.notMem_of_link link (away d rfl) elsewhere
    have value : relocated g.predecessor run (some d) reversing t =
        some (run.oriented reversing).last := ready.relocated_after link (away d rfl) elsewhere
    have unlisted : g.successor run.last ≠ some t := by
      intro behind
      rw [(linked.index_exact run.last t).1 behind, Option.some.injEq] at link
      exact away d rfl (link ▸ run.last_mem)
    rw [Option.elim_some, putLink_of_notMem]
    · simp [value]
    · rw [← List.map_append, List.map_map]
      simp only [Function.comp_def, List.map_id', List.mem_append, Option.mem_toList, not_or]
      exact ⟨unlisted, fun member => outside (mem_run_of_mem_relinked member)⟩

theorem rotateLeft_cons {α : Type} (a : α) (l : List α) : (a :: l).rotateLeft 1 = l ++ [a] := by
  cases l with
  | nil => rfl
  | cons b rest => simp [List.rotateLeft]

theorem writesOf_eq_inPlace (linked : g.Linked) (ready : Liftable g.predecessor run)
    (inPlace : target = g.predecessor run.first) :
    g.writesOf run target true = (g.touched run target true).map fun h =>
      (h, relocated g.predecessor run target true h) := by
  rw [writesOf_eq_stages, touched, if_pos inPlace]
  simp only [if_pos inPlace]
  cases behind : g.successor run.last with
  | none =>
    have unlisted : ∀ h ∈ run.entities, h ∉ ([] : List (Handle × Option Handle)).map Prod.fst :=
      fun _ _ => List.not_mem_nil
    simp [runWrites_eq g.predecessor ready.nodup unlisted]
  | some t =>
    have follows := (linked.index_exact run.last t).1 behind
    have fresh : ∀ h ∈ run.entities,
        h ∉ ([(t, g.predecessor run.first)] : List (Handle × Option Handle)).map Prod.fst := by
      intro h member listed
      rw [List.mem_singleton.1 listed] at member
      exact ready.notMem_of_link_last follows member
    have writes : runWrites [(t, g.predecessor run.first)] run target true =
        ((t, g.predecessor run.first) :: (relinked run true).map fun h =>
          (h, relocated g.predecessor run target true h), (run.oriented true).last) :=
      runWrites_eq g.predecessor ready.nodup fresh
    -- The entity behind the run is written anew if the run has a place.
    have again (others : List (Handle × Option Handle)) :
        Option.elim (target.bind fun _ => some t) ((t, g.predecessor run.first) :: others)
            (fun t' => putLink ((t, g.predecessor run.first) :: others) t'
              (some (run.oriented true).last)) =
          (t, relocated g.predecessor run target true t) :: others := by
      rw [ready.relocated_behind follows]
      cases target with
      | none => simp
      | some d =>
        rw [if_pos ⟨rfl, inPlace⟩]
        simp [putLink]
    simp only [Option.toList_some, List.map_singleton, writes, again, true_and, Option.isSome_some]
    by_cases backwards : run.last.index < run.first.index
    · -- The entity behind the run was listed first and goes last.
      rw [if_pos ⟨inPlace, backwards⟩, if_pos backwards, rotateLeft_cons]
      simp
    · rw [if_neg fun both => backwards both.2, if_neg backwards]
      simp

/-- The writes of a relocation give every touched entity the value of the relocation. -/
theorem writesOf_eq (linked : g.Linked) (ready : Liftable g.predecessor run)
    (away : ∀ d, target = some d → d ∉ run.entities)
    (moving : reversing = true ∨ target ≠ g.predecessor run.first) :
    g.writesOf run target reversing = (g.touched run target reversing).map fun h =>
      (h, relocated g.predecessor run target reversing h) := by
  by_cases inPlace : target = g.predecessor run.first
  · obtain rfl : reversing = true := moving.resolve_right fun elsewhere => elsewhere inPlace
    exact writesOf_eq_inPlace linked ready inPlace
  · exact writesOf_eq_elsewhere linked ready away inPlace

/-- The changes from one predecessor relation to another among listed entities. -/
def changes (old new : Handle → Option Handle) (l : List Handle) : List LinkChange :=
  l.filterMap fun h => if old h = new h then none else some ⟨h, old h, new h⟩

theorem mem_changes {old new : Handle → Option Handle} {link : LinkChange} :
    link ∈ changes old new l ↔ link.entity ∈ l ∧ link.old = old link.entity ∧
      link.new = new link.entity ∧ link.old ≠ link.new := by
  obtain ⟨entity, before, after⟩ := link
  simp only [changes, List.mem_filterMap]
  constructor
  · rintro ⟨h, member, listed⟩
    split at listed
    · cases listed
    · rename_i differ
      cases listed
      exact ⟨member, rfl, rfl, differ⟩
  · rintro ⟨member, rfl, rfl, differ⟩
    exact ⟨entity, member, if_neg differ⟩

/-- The links of a plan that is not given up at once are the changes of the relocation. -/
theorem plannedLinks_eq_of_moving (linked : g.Linked) (ready : Liftable g.predecessor run)
    (away : ∀ d, target = some d → d ∉ run.entities)
    (moving : reversing = true ∨ target ≠ g.predecessor run.first) :
    g.plannedLinks run target reversing =
      changes g.predecessor (relocated g.predecessor run target reversing)
        (g.touched run target reversing) := by
  have moves : ¬(reversing = false ∧ target = g.predecessor run.first) := by
    rintro ⟨rfl, inPlace⟩
    exact moving.elim Bool.false_ne_true fun elsewhere => elsewhere inPlace
  rw [plannedLinks, if_neg moves, writesOf_eq linked ready away moving, List.filterMap_map]
  rfl

/-- The links of a plan are the changes of the relocation. -/
theorem plannedLinks_eq (linked : g.Linked) (ready : Withdrawable g.predecessor run)
    (away : ∀ d, target = some d → d ∉ run.entities) :
    g.plannedLinks run target reversing =
      changes g.predecessor (relocated g.predecessor run target reversing)
        (g.touched run target reversing) := by
  by_cases inPlace : reversing = false ∧ target = g.predecessor run.first
  · obtain ⟨rfl, rfl⟩ := inPlace
    rw [plannedLinks, if_pos ⟨rfl, rfl⟩, ready.relocated_self linked.unique_successor]
    simp [changes]
  · refine plannedLinks_eq_of_moving linked ready.toLiftable away ?_
    rw [← Bool.not_eq_false]
    exact not_and_or.1 inPlace

theorem mem_touched : h ∈ g.touched run target reversing ↔
    g.successor run.last = some h ∨ h ∈ relinked run reversing ∨
      (target ≠ g.predecessor run.first ∧ target.bind g.successor = some h) := by
  unfold touched
  split
  · rename_i inPlace
    split <;> simp [inPlace, or_comm]
  · rename_i elsewhere
    simp [elsewhere]

/-- A relocation changes nothing but what its plan looks at. -/
theorem relocated_of_notMem_touched (linked : g.Linked) (ready : Liftable g.predecessor run)
    (untouched : h ∉ g.touched run target reversing) :
    relocated g.predecessor run target reversing h = g.predecessor h := by
  rw [mem_touched, not_or, not_or] at untouched
  obtain ⟨behind, inner, next⟩ := untouched
  by_cases member : h ∈ run.entities
  · cases reversing with
    | false => exact ready.relocated_of_ne_first member (by simpa [relinked] using inner)
    | true => exact absurd member (by simpa [relinked] using inner)
  · have unfollowing : g.predecessor h ≠ some run.last :=
      fun link => behind ((linked.index_exact run.last h).2 link)
    refine relocated_of_notMem member unfollowing ?_
    rintro d rfl link
    have there := (linked.index_exact d h).2 link
    by_cases inPlace : some d = g.predecessor run.first
    · rw [linked.unique_successor h run.first d link inPlace.symm] at member
      exact member run.first_mem
    · exact next ⟨inPlace, there⟩

end ChainGraph

end PlanSearch
