import Mathlib.Algebra.BigOperators.Ring.List
import Mathlib.Algebra.Order.BigOperators.Group.List
import Mathlib.Algebra.Order.Ring.Nat
import PlanSearch.Proofs.Chain.Walks
import PlanSearch.Proofs.Move.Undo
import PlanSearch.Proofs.Random.Draws
import PlanSearch.Proofs.Selector.Arranged
import PlanSearch.Proofs.Selector.Bounds
import PlanSearch.Proofs.Selector.Passes

/-!
# All runs of a graph

The runs of a chain are its contiguous parts of admissible length. A pass in order yields those of
all chains, each of them once: what is left of the pass is a list, and every candidate is the head of
what was left before. A random candidate is an entry of the same list, and every entry is that of some
pair of numbers drawn.

A selector of runs reads the chains when a pass begins, or when the step or the phase does, and keeps
what it has read until then. So its passes yield the runs of the solution that was read last.
-/

namespace PlanSearch

namespace SubChains

variable {minimum maximum : ℕ} {chain : List Handle} {chains : List (List Handle)} {run : SubChain}

/-! ## The runs of a chain -/

theorem slice_eq_some {first last : ℕ} : slice chain first last = some run ↔
    first ≤ last ∧ last < chain.length ∧
      run.entities = (chain.drop first).take (last - first + 1) := by
  unfold slice
  split
  · rename_i inside
    have some : (chain.drop first).take (last - first + 1) ≠ [] := by
      simp only [ne_eq, List.take_eq_nil_iff, List.drop_eq_nil_iff]
      omega
    rw [SubChain.ofList, dif_neg some]
    cases run
    simp [inside, Except.toOption, eq_comm]
  · rename_i outside
    simp only [reduceCtorEq, false_iff]
    rintro ⟨ordered, inside, -⟩
    exact outside ⟨ordered, inside⟩

/-- The runs of admissible length in a chain, by start and then by end. -/
def runsOf (minimum maximum : ℕ) (chain : List Handle) : List SubChain :=
  (bounds chain.length minimum maximum).filterMap fun b => slice chain b.1 b.2

/-- Every run lies in the chain and is long enough. -/
theorem infix_of_mem_runsOf (positive : 1 ≤ minimum) (listed : run ∈ runsOf minimum maximum chain) :
    run.entities <:+: chain ∧ minimum ≤ run.length := by
  obtain ⟨⟨first, last⟩, member, found⟩ := List.mem_filterMap.1 listed
  obtain ⟨ordered, inside, entities⟩ := slice_eq_some.1 found
  obtain ⟨-, -, long⟩ := within_of_mem_bounds positive member
  constructor
  · rw [entities]
    exact (List.take_prefix _ _).isInfix.trans (List.drop_suffix _ _).isInfix
  · rw [SubChain.length, entities, List.length_take, List.length_drop]
    dsimp only at ordered inside ⊢
    omega

/-- All listed bounds are bounds of runs. -/
theorem isSome_slice (positive : 1 ≤ minimum) {b : ℕ × ℕ}
    (member : b ∈ bounds chain.length minimum maximum) : (slice chain b.1 b.2).isSome := by
  obtain ⟨first, last⟩ := b
  have inside := within_of_mem_bounds positive member
  have some : (chain.drop first).take (last - first + 1) ≠ [] := by
    simp only [ne_eq, List.take_eq_nil_iff, List.drop_eq_nil_iff]
    omega
  exact Option.isSome_iff_exists.2 ⟨⟨_, some⟩, slice_eq_some.2 ⟨inside.1, inside.2.1, rfl⟩⟩

theorem map_some_runsOf (positive : 1 ≤ minimum) (maximum : ℕ) (chain : List Handle) :
    (runsOf minimum maximum chain).map some =
      (bounds chain.length minimum maximum).map fun b => slice chain b.1 b.2 := by
  rw [runsOf, List.map_filterMap_some_eq_filter_map_isSome, List.filter_eq_self]
  intro found member
  obtain ⟨b, listed, rfl⟩ := List.mem_map.1 member
  exact isSome_slice positive listed

theorem length_runsOf (positive : 1 ≤ minimum) (maximum : ℕ) (chain : List Handle) :
    (runsOf minimum maximum chain).length = (bounds chain.length minimum maximum).length := by
  have same := congrArg List.length (map_some_runsOf positive maximum chain)
  rwa [List.length_map, List.length_map] at same

theorem runsOf_of_lt (short : chain.length < minimum) : runsOf minimum maximum chain = [] := by
  rw [runsOf, bounds_of_lt short, List.filterMap_nil]

/-- The run with an index is found by its bounds. -/
theorem getElem?_runsOf (positive : 1 ≤ minimum) (ordered : minimum ≤ maximum)
    (word : chain.length ≤ Count.max) (index : ℕ) : (runsOf minimum maximum chain)[index]? =
      (nth chain.length minimum maximum index).bind fun b => slice chain b.1 b.2 := by
  have same := congrArg (·[index]?) (map_some_runsOf positive maximum chain)
  simp only [List.getElem?_map] at same
  rw [nth_eq positive ordered word]
  generalize (runsOf minimum maximum chain)[index]? = run at same ⊢
  generalize (bounds chain.length minimum maximum)[index]? = b at same ⊢
  cases run <;> cases b <;> simp_all

/-- In a chain without repetitions a run has its bounds. -/
theorem slice_inj {b c : ℕ × ℕ} (nodup : chain.Nodup) (found : slice chain b.1 b.2 = some run)
    (found' : slice chain c.1 c.2 = some run) : b = c := by
  obtain ⟨ordered, inside, entities⟩ := slice_eq_some.1 found
  obtain ⟨ordered', inside', entities'⟩ := slice_eq_some.1 found'
  have same := entities.symm.trans entities'
  have head := congrArg List.head? same
  simp only [List.head?_take, Nat.add_eq_zero_iff, one_ne_zero, and_false, if_false,
    List.head?_drop] at head
  have length := congrArg List.length same
  simp only [List.length_take, List.length_drop] at length
  have first : b.1 = c.1 := (List.getElem?_inj (by omega) nodup).1 head
  exact Prod.ext first (by omega)

theorem nodup_runsOf (nodup : chain.Nodup) : (runsOf minimum maximum chain).Nodup :=
  (nodup_bounds _ _ _).filterMap fun _ _ _ found found' => slice_inj nodup found found'

/-! ## What is left of a pass -/

/-- The runs of a chain from a place on. -/
def runsFrom (minimum maximum : ℕ) (chain : List Handle) (p : ℕ × ℕ) : List SubChain :=
  (boundsFrom chain.length minimum maximum p).filterMap fun b => slice chain b.1 b.2

/-- The runs that are left when a place in the first of several chains has been reached. -/
def remaining (minimum maximum : ℕ) (p : ℕ × ℕ) : List (List Handle) → List SubChain
  | [] => []
  | chain :: rest => runsFrom minimum maximum chain p ++ rest.flatMap (runsOf minimum maximum)

theorem runsFrom_start (positive : 1 ≤ minimum) (maximum : ℕ) (chain : List Handle) :
    runsFrom minimum maximum chain (0, minimum - 1) = runsOf minimum maximum chain := by
  rw [runsFrom, boundsFrom_start positive, runsOf]

theorem remaining_start (positive : 1 ≤ minimum) (maximum : ℕ) (chains : List (List Handle)) :
    remaining minimum maximum (0, minimum - 1) chains = chains.flatMap (runsOf minimum maximum) := by
  cases chains with
  | nil => rfl
  | cons chain rest => rw [remaining, runsFrom_start positive, List.flatMap_cons]

/-- The next run is the first one that is left, and then the others are left. -/
theorem nextRun_eq (positive : 1 ≤ minimum) (ordered : minimum ≤ maximum)
    (chains : List (List Handle)) (passed first last : ℕ) :
    ∃ passed' first' last', nextRun minimum maximum chains passed first last =
        ((remaining minimum maximum (first, last) chains).head?, ⟨passed + passed', first', last'⟩) ∧
      remaining minimum maximum (first', last') (chains.drop passed') =
        (remaining minimum maximum (first, last) chains).tail := by
  induction chains generalizing passed first last with
  | nil => exact ⟨0, first, last, rfl, rfl⟩
  | cons chain rest ih =>
    have cursor : inChain chain.length minimum maximum first last =
        (boundsFrom chain.length minimum maximum (first, last)).head? :=
      inChain_eq positive ordered (first, last)
    cases left : boundsFrom chain.length minimum maximum (first, last) with
    | nil =>
      rw [left, List.head?_nil] at cursor
      obtain ⟨passed', first', last', found, others⟩ := ih (passed + 1) 0 (minimum - 1)
      rw [remaining_start positive] at found others
      refine ⟨passed' + 1, first', last', ?_, ?_⟩
      · rw [nextRun, cursor]
        dsimp only
        rw [found, remaining, runsFrom, left, Nat.add_assoc, Nat.add_comm 1]
        rfl
      · rw [List.drop_succ_cons, others, remaining, runsFrom, left]
        rfl
    | cons b others =>
      rw [left, List.head?_cons] at cursor
      have listed : b ∈ bounds chain.length minimum maximum :=
        (mem_boundsFrom.1 (left ▸ List.mem_cons_self ..)).1
      obtain ⟨run, here⟩ := Option.isSome_iff_exists.1 (isSome_slice positive listed)
      refine ⟨0, b.1, b.2 + 1, ?_, ?_⟩
      · rw [nextRun, cursor]
        simp only [here, remaining, runsFrom, left, List.filterMap_cons]
        rfl
      · rw [List.drop_zero, remaining, remaining, runsFrom, runsFrom, tail_boundsFrom left, left]
        simp only [here, List.filterMap_cons]
        rfl

/-- The runs that are left when the chains have been read up to the place. -/
def Reading.left (minimum maximum : ℕ) (st : Reading) : List SubChain :=
  remaining minimum maximum (st.place.first, st.place.last) (st.chains.drop st.place.chain)

/-- The next run is the first one that is left, and the place after it leaves the others. -/
theorem Reading.exists_nextRun (positive : 1 ≤ minimum) (ordered : minimum ≤ maximum)
    (st : Reading) : ∃ place, nextRun minimum maximum (st.chains.drop st.place.chain)
        st.place.chain st.place.first st.place.last = ((st.left minimum maximum).head?, place) ∧
      Reading.left minimum maximum { st with place } = (st.left minimum maximum).tail := by
  obtain ⟨k, i, j, found, others⟩ := nextRun_eq positive ordered
    (st.chains.drop st.place.chain) st.place.chain st.place.first st.place.last
  rw [List.drop_drop] at others
  exact ⟨⟨st.place.chain + k, i, j⟩, found, others⟩

/-! ## The runs of a graph -/

/-- The runs of all chains, by anchor. -/
def runsIn (minimum maximum : ℕ) (g : ChainGraph) : List SubChain :=
  g.anchors.flatMap fun anchor => runsOf minimum maximum (g.trailing anchor)

variable {g : ChainGraph} {h root root' : Handle}

theorem mem_anchors : root ∈ g.anchors ↔ g.kind? root = some .anchor := by
  simp only [ChainGraph.anchors, List.mem_filter, ChainGraph.mem_handles, beq_iff_eq,
    and_iff_right_iff_imp]
  intro anchor
  simp [ChainGraph.contains_iff_kind?_isSome, anchor]

theorem nodup_anchors (g : ChainGraph) : g.anchors.Nodup := g.nodup_handles.filter _

theorem nodup_trailing (valid : g.Valid) (root : Handle) : (g.trailing root).Nodup := by
  have strand := ChainGraph.strand_trailing valid.linked valid.acyclic root
  exact (List.nodup_cons.1 strand.nodup).2

/-- An element belongs to the chain of one anchor. -/
theorem eq_of_mem_trailing (valid : g.Valid) (anchor : g.kind? root = some .anchor)
    (anchor' : g.kind? root' = some .anchor) (member : h ∈ g.trailing root)
    (member' : h ∈ g.trailing root') : root = root' := by
  obtain ⟨top, found, own⟩ := valid.exists_anchorOf_of_mem_trailing member
  obtain ⟨top', found', own'⟩ := valid.exists_anchorOf_of_mem_trailing member'
  obtain rfl := Option.some.inj ((ChainGraph.anchorOf_of_anchor anchor).symm.trans own)
  obtain rfl := Option.some.inj ((ChainGraph.anchorOf_of_anchor anchor').symm.trans own')
  exact Option.some.inj (found.symm.trans found')

/-- A chain has no more elements than its graph. -/
theorem length_trailing_le (g : ChainGraph) (h : Handle) : (g.trailing h).length ≤ g.size := by
  have within (count : ℕ) (h : Handle) : (g.trailingWithin count h).length ≤ count := by
    induction count generalizing h with
    | zero => exact Nat.zero_le _
    | succ count ih =>
      rw [ChainGraph.trailingWithin]
      split
      · exact Nat.zero_le _
      · exact Nat.succ_le_succ (ih _)
  exact within g.size h

theorem nodup_runsIn (positive : 1 ≤ minimum) (valid : g.Valid) :
    (runsIn minimum maximum g).Nodup := by
  refine List.nodup_flatMap.2 ⟨fun root _ => nodup_runsOf (nodup_trailing valid root), ?_⟩
  refine (nodup_anchors g).imp_of_mem fun {root root'} listed listed' other => ?_
  intro run member member'
  have within := (infix_of_mem_runsOf positive member).1.subset run.first_mem
  have within' := (infix_of_mem_runsOf positive member').1.subset run.first_mem
  exact other (eq_of_mem_trailing valid (mem_anchors.1 listed) (mem_anchors.1 listed') within
    within')

/-- The runs of a graph are counted without leaving a word. -/
def RunsFit (minimum maximum : ℕ) (g : ChainGraph) : Prop :=
  (∀ root, g.kind? root = some .anchor → CountFits (g.trailing root).length minimum) ∧
    (runsIn minimum maximum g).length ≤ Count.max

/-- The chains of a graph do not overlap. -/
theorem length_chains_le (valid : g.Valid) :
    (g.anchors.map fun root => (g.trailing root).length).sum ≤ g.size := by
  rw [← List.length_flatMap]
  refine ChainGraph.length_le_size (List.nodup_flatMap.2
    ⟨fun root _ => nodup_trailing valid root, ?_⟩) fun h member => ?_
  · refine (nodup_anchors g).imp_of_mem fun {root root'} listed listed' other h within within' => ?_
    exact other (eq_of_mem_trailing valid (mem_anchors.1 listed) (mem_anchors.1 listed') within
      within')
  · obtain ⟨root, listed, within⟩ := List.mem_flatMap.1 member
    have strand := ChainGraph.strand_trailing valid.linked valid.acyclic root
    refine ChainGraph.contains_of_path strand.path ?_ h (List.mem_cons_of_mem _ within)
    exact ChainGraph.mem_handles.1 (List.mem_of_mem_filter listed)

/-- The runs of a graph are counted if the square of its size is a word. -/
theorem RunsFit.of_size (positive : 1 ≤ minimum) (ordered : minimum ≤ maximum) (valid : g.Valid)
    (small : g.size * (g.size + 1) ≤ Count.max) : RunsFit minimum maximum g := by
  have word : g.size ≤ Count.max := (Nat.le_mul_of_pos_right _ (Nat.succ_pos _)).trans small
  have each : ∀ root ∈ g.anchors, (runsOf minimum maximum (g.trailing root)).length ≤
      (g.trailing root).length * (g.size + 1) := by
    intro root _
    have shorter := length_trailing_le g root
    rw [length_runsOf positive]
    exact (length_bounds_le positive ordered (shorter.trans word)).trans
      (Nat.mul_le_mul_left _ (Nat.succ_le_succ shorter))
  refine ⟨fun root _ => .of_le positive (length_trailing_le g root) small, ?_⟩
  rw [runsIn, List.length_flatMap]
  calc (g.anchors.map fun root => (runsOf minimum maximum (g.trailing root)).length).sum
      ≤ (g.anchors.map fun root => (g.trailing root).length * (g.size + 1)).sum :=
        List.sum_le_sum each
    _ = (g.anchors.map fun root => (g.trailing root).length).sum * (g.size + 1) :=
        List.sum_map_mul_right ..
    _ ≤ g.size * (g.size + 1) := Nat.mul_le_mul_right _ (length_chains_le valid)
    _ ≤ Count.max := small

theorem hingesOn_runsIn (positive : 1 ≤ minimum) (ordered : minimum ≤ maximum) (g : ChainGraph) :
    HingesOn (RunsFit minimum maximum g) (runsIn minimum maximum g).length
      (countAll minimum maximum 0 (g.anchors.map fun anchor => (g.trailing anchor).length)) := by
  have whole : ((g.anchors.map fun anchor => (g.trailing anchor).length).map fun length =>
      (bounds length minimum maximum).length).sum = (runsIn minimum maximum g).length := by
    rw [runsIn, List.length_flatMap, List.map_map]
    exact congrArg List.sum (List.map_congr_left fun anchor _ => (length_runsOf positive ..).symm)
  have hinges := hingesOn_countAll positive ordered (Nat.zero_le _)
    (g.anchors.map fun anchor => (g.trailing anchor).length)
  simp only [Nat.zero_add, whole, List.forall_mem_map, mem_anchors] at hinges
  exact hinges

theorem flatMap_filter_long (minimum maximum : ℕ) (chains : List (List Handle)) :
    (chains.filter fun chain => minimum ≤ chain.length).flatMap (runsOf minimum maximum) =
      chains.flatMap (runsOf minimum maximum) := by
  induction chains with
  | nil => rfl
  | cons chain rest ih =>
    by_cases long : minimum ≤ chain.length
    · simp [long, ih]
    · simp [long, ih, runsOf_of_lt (Nat.lt_of_not_le long)]

/-- Chains that are too short to be read have no runs. -/
theorem flatMap_load (minimum maximum : ℕ) (g : ChainGraph) (st : Reading) :
    (st.load minimum g).chains.flatMap (runsOf minimum maximum) = runsIn minimum maximum g :=
  (flatMap_filter_long minimum maximum _).trans (List.flatMap_map ..)

end SubChains

namespace Selector

open SubChains

variable {M S C : Type} {minimum maximum : ℕ}

/-! ## Draws -/

section

variable (positive : 1 ≤ minimum) (ordered : minimum ≤ maximum) {chains : List (List Handle)}
variable {chain : List Handle} {i : ℕ} {w : World M} {g : Random.Generator}
include positive ordered

end

/-! ## Passes -/

/-- Announces what fills the cache, if there is one, and begins a pass. -/
def begun (sel : Selector M S C) (read set : Setting S) (st : sel.State) : Draw M sel.State := do
  let st ← match sel.cacheType with
    | .justInTime => pure st
    | .step => sel.handle .stepStarted read st
    | .phase => sel.handle .phaseStarted read st
  sel.restart set st

variable {v : ChainedVariable S} {cache : CacheType} {isRandom : Bool}
variable {sel : Selector M S SubChain}

theorem bounded_of_subChains (made : subChains v minimum maximum cache isRandom = .ok sel) :
    1 ≤ minimum ∧ minimum ≤ maximum := by
  unfold subChains at made
  split at made
  · cases made
  split at made
  · cases made
  · omega

theorem size_subChains (made : subChains v minimum maximum cache isRandom = .ok sel) (s : S)
    (st : sel.State) : HingesOn (RunsFit minimum maximum (v.graph s))
      (runsIn minimum maximum (v.graph s)).length (sel.size s st) := by
  obtain ⟨positive, ordered⟩ := bounded_of_subChains made
  rw [subChains, if_neg (by omega), if_neg (by omega)] at made
  obtain rfl := Except.ok.inj made
  exact hingesOn_runsIn positive ordered (v.graph s)

theorem neverEnding_subChains (made : subChains v minimum maximum cache isRandom = .ok sel) :
    sel.neverEnding = isRandom := by
  obtain ⟨positive, ordered⟩ := bounded_of_subChains made
  rw [subChains, if_neg (by omega), if_neg (by omega)] at made
  obtain rfl := Except.ok.inj made
  rfl

/-- A selector supplies a list if it yields the head of what is left, and leaves the tail. -/
theorem Supplies.of_left {sel : Selector M S C} {set : Setting S}
    (Left : List C → sel.State → Prop)
    (draws : ∀ L st, Left L st → ∃ st', (∀ w, sel.next set st w = .ok ((L.head?, st'), w)) ∧
      Left L.tail st') {L : List C} {st : sel.State} (left : Left L st) :
    sel.Supplies set L st := by
  induction L generalizing st with
  | nil =>
    obtain ⟨st', drawn, -⟩ := draws [] st left
    exact ⟨st', drawn⟩
  | cons c rest ih =>
    obtain ⟨st', drawn, left⟩ := draws (c :: rest) st left
    exact ⟨st', drawn, ih left⟩

/-- A selector that reads on from place to place supplies the runs that are left. -/
theorem supplies_left {sel : Selector M S SubChain} {set : Setting S} {L : List SubChain}
    {here : sel.State} (positive : 1 ≤ minimum) (ordered : minimum ≤ maximum)
    (state : Reading → sel.State)
    (next : ∀ (st : Reading) (w : World M), sel.next set (state st) w =
      let found := nextRun minimum maximum (st.chains.drop st.place.chain) st.place.chain
        st.place.first st.place.last
      .ok ((found.1, state { st with place := found.2 }), w))
    (st : Reading) (begun : here = state st) (whole : st.left minimum maximum = L) :
    sel.Supplies set L here := by
  refine Supplies.of_left (fun L here => ∃ st, here = state st ∧ st.left minimum maximum = L) ?_
    ⟨st, begun, whole⟩
  rintro L here ⟨st, rfl, rfl⟩
  obtain ⟨place, found, others⟩ := Reading.exists_nextRun positive ordered st
  refine ⟨state { st with place }, fun w => ?_, _, rfl, others⟩
  rw [next, found]

/-- The chains that were read have the runs of the solution. -/
def Holds (v : ChainedVariable S) (minimum maximum : ℕ) (s : S) (st : Reading) : Prop :=
  st.chains.flatMap (runsOf minimum maximum) = runsIn minimum maximum (v.graph s)

/-- The chains are read, dropped or kept as the cache and the announcement say. -/
def announce (v : ChainedVariable S) (minimum : ℕ) (cache : CacheType) (hook : Hook) (s : S)
    (st : Reading) : Reading :=
  match hook, cache with
  | .phaseStarted, .phase | .stepStarted, .step => Reading.load minimum (v.graph s) st
  | .stepEnded, .step | .phaseEnded, _ => { st with chains := [] }
  | _, _ => st

/-- A filled cache holds the runs of the solution with which it was filled. -/
theorem holds_announce {p p' : Point S} {hook : Hook} {s : S}
    {st : Reading} (known : ∀ s' ∈ cache.filledWith p, Holds v minimum maximum s' st)
    (due : p.after hook s = some p') :
    ∀ s' ∈ cache.filledWith p', Holds v minimum maximum s' (announce v minimum cache hook s st) := by
  intro s' member
  have loaded (same : s' = s) :
      Holds v minimum maximum s' (Reading.load minimum (v.graph s) st) :=
    same ▸ flatMap_load minimum maximum _ st
  cases hook <;> cases p <;> cases due <;> cases cache <;> cases member <;>
    first
    | exact loaded rfl
    | exact known _ rfl

/-- The runs of the solution with which the cache is filled or, without a cache, of the present
one. -/
theorem serves_subChains (shown : Point S → Setting S → Prop)
    (made : subChains v minimum maximum cache false = .ok sel) :
    Nonempty (sel.Serves shown fun p s _ L =>
      (cache.isCached = false → L = runsIn minimum maximum (v.graph s)) ∧
        ∀ s' ∈ cache.filledWith p, L = runsIn minimum maximum (v.graph s')) := by
  obtain ⟨positive, ordered⟩ := bounded_of_subChains made
  rw [subChains, if_neg (by omega), if_neg (by omega)] at made
  obtain rfl := Except.ok.inj made
  refine ⟨{
    Inv := fun p (st : Reading) => ∀ s ∈ cache.filledWith p, Holds v minimum maximum s st
    start := fun _ filled => by cases cache <;> cases filled
    handle := fun {p p' hook set} (st : Reading) known due shows w =>
      ⟨announce v minimum cache hook set.solution st, w.generator, ?_, holds_announce known due⟩
    restart := fun {p set} (st : Reading) known busy shows w => ?_
    next := fun {p set st c st' w w'} known busy shows drawn => ?_ }⟩
  · cases hook <;> cases cache <;> rfl
  · let st' : Reading := { (if cache.isCached then st
      else Reading.load minimum (v.graph set.solution) st) with place := ⟨0, 0, minimum - 1⟩ }
    have uncached (plain : cache.isCached = false) : Holds v minimum maximum set.solution st' := by
      simpa [st', plain, Holds] using flatMap_load minimum maximum (v.graph set.solution) st
    have cached (s : S) (filled : s ∈ cache.filledWith p) : Holds v minimum maximum s st' := by
      have busy : cache.isCached = true := by cases cache <;> first | rfl | cases filled
      simpa [st', busy, Holds] using known s filled
    refine ⟨st', w.generator, st'.chains.flatMap (runsOf minimum maximum), rfl,
      ⟨uncached, cached⟩, cached, ?_⟩
    exact supplies_left positive ordered id (fun _ _ => rfl) st' rfl
      (remaining_start positive maximum _)
  · simp only [Bool.false_eq_true, if_false] at drawn
    cases drawn
    exact known

end Selector

namespace Necklace

end Necklace

end PlanSearch
