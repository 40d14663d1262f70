import Mathlib.Algebra.Order.Field.Rat
import Mathlib.Algebra.Order.BigOperators.Group.List
import Mathlib.Order.Interval.Set.Defs
import Mathlib.Tactic.Linarith
import PlanSearch.Proofs.Selector.Ranges
import PlanSearch.Selector.Roulette

/-!
# Draws by weight

In exact numbers, a selector that draws by weight divides the numbers below the total weight into
intervals, one for each candidate and as wide as its weight. The running totals that the intervals
are found by belong to the kept list whatever the selector was called for, so the place that a drawn
number leads to is always one in the list.
-/

namespace PlanSearch

/-! ## Binary search -/

section Search

variable {α : Type} {p : α → Bool} {items : Array α}

/-- The items that satisfy `p` come first. -/
def Partitioned (p : α → Bool) (items : Array α) : Prop :=
  ∀ i j : Nat, i ≤ j → items[j]?.any p → items[i]?.any p

/-- Halving keeps the end of the items that satisfy `p` within the places that are left. -/
theorem lt_narrow_iff (partitioned : Partitioned p items) {base size : Nat}
    (below : ∀ i < base, items[i]?.any p) (above : ∀ i, base + size ≤ i → ¬items[i]?.any p)
    (i : Nat) : i < narrow p items base size ↔ items[i]?.any p := by
  induction base, size using narrow.induct p items with
  | case1 base size short holds =>
    rw [narrow, if_pos short, if_pos holds]
    constructor
    · intro less
      exact partitioned i base (by omega) holds
    · intro found
      by_contra beyond
      exact above i (by omega) found
  | case2 base size short fails =>
    rw [narrow, if_pos short, if_neg fails]
    constructor
    · exact below i
    · intro found
      by_contra beyond
      exact fails (partitioned base i (by omega) found)
  | case3 base size long holds ih =>
    rw [narrow, if_neg long, if_pos holds]
    refine ih (fun j less => partitioned j _ less.le holds) fun j beyond => ?_
    exact above j (by omega)
  | case4 base size long fails ih =>
    rw [narrow, if_neg long, if_neg fails]
    refine ih below fun j beyond found => ?_
    exact fails (partitioned _ j (by omega) found)

/-- A binary search finds the number of the items that satisfy `p`. -/
theorem lt_partitionPoint_iff (partitioned : Partitioned p items) (i : Nat) :
    i < partitionPoint p items ↔ items[i]?.any p := by
  refine lt_narrow_iff partitioned (fun j less => absurd less (Nat.not_lt_zero j))
    (fun j beyond => ?_) i
  rw [Array.getElem?_eq_none (by omega)]
  exact Bool.false_ne_true

end Search

namespace Selector

/-! ## Intervals -/

section Intervals

variable {weights : List ℚ} {i j : Nat}

/-- Where the interval of a candidate begins: the sum of the weights before it, of which negative
ones count as zero. -/
def reach (weights : List ℚ) (i : Nat) : ℚ := ((weights.take i).map (max · 0)).sum

theorem reach_zero : reach weights 0 = 0 := by simp [reach]

/-- The interval of a candidate is as wide as its weight. -/
theorem reach_succ {w : ℚ} (known : weights[i]? = some w) :
    reach weights (i + 1) = reach weights i + max w 0 := by
  simp [reach, List.take_add_one, known]

theorem reach_cons_succ (w : ℚ) : reach (w :: weights) (i + 1) = max w 0 + reach weights i := by
  simp [reach]

theorem reach_mono (le : i ≤ j) : reach weights i ≤ reach weights j := by
  obtain ⟨k, rfl⟩ := Nat.exists_eq_add_of_le le
  rw [reach, reach, List.take_add, List.map_append, List.sum_append]
  have nonneg : 0 ≤ (((weights.drop i).take k).map (max · 0)).sum := by
    refine List.sum_nonneg fun x member => ?_
    obtain ⟨w, -, rfl⟩ := List.mem_map.1 member
    exact le_max_right w 0
  linarith

theorem runningTotals_cons (total w : ℚ) (rest : List ℚ) :
    runningTotals total (w :: rest) =
      (total + max w 0) :: runningTotals (total + max w 0) rest := by
  have share : (if (Scale.ofCount 0 : ℚ) < w then w else Scale.ofCount 0) = max w 0 := by
    change (if (0 : ℚ) < w then w else 0) = max w 0
    split
    · rename_i positive
      exact (max_eq_left positive.le).symm
    · rename_i negative
      exact (max_eq_right (not_lt.1 negative)).symm
  rw [runningTotals, share]

theorem length_runningTotals (total : ℚ) (weights : List ℚ) :
    (runningTotals total weights).length = weights.length := by
  induction weights generalizing total with
  | nil => rfl
  | cons w rest ih => rw [runningTotals_cons, List.length_cons, List.length_cons, ih]

theorem getElem?_runningTotals (total : ℚ) (weights : List ℚ) (i : Nat) :
    (runningTotals total weights)[i]? =
      if i < weights.length then some (total + reach weights (i + 1)) else none := by
  induction weights generalizing total i with
  | nil => rfl
  | cons w rest ih =>
    rw [runningTotals_cons]
    cases i with
    | zero => simp [reach]
    | succ i =>
      rw [List.getElem?_cons_succ, ih, reach_cons_succ, List.length_cons]
      simp only [Nat.add_lt_add_iff_right, add_assoc]

theorem totalWeight_runningTotals (weights : List ℚ) :
    totalWeight (runningTotals 0 weights).toArray = reach weights weights.length := by
  have same : (runningTotals 0 weights).length = weights.length := length_runningTotals 0 weights
  rw [totalWeight, List.back?_toArray, List.getLast?_eq_getElem?, getElem?_runningTotals, same]
  cases weights with
  | nil => rfl
  | cons w rest => simp

/-- The running totals up to a drawn number are those of the intervals that end there or before. -/
theorem lt_placeOf_iff (weights : List ℚ) (drawn : ℚ) (i : Nat) :
    i < placeOf (runningTotals 0 weights).toArray drawn ↔
      i < weights.length ∧ reach weights (i + 1) ≤ drawn := by
  have ends (k : Nat) : (runningTotals 0 weights).toArray[k]?.any (fun total => decide (total ≤ drawn)) ↔
      k < weights.length ∧ reach weights (k + 1) ≤ drawn := by
    rw [List.getElem?_toArray, getElem?_runningTotals]
    split
    · simp [*]
    · simp [*]
  rw [← ends]
  refine lt_partitionPoint_iff (fun k l le => ?_) i
  rw [ends, ends]
  rintro ⟨inside, below⟩
  exact ⟨by omega, (reach_mono (by omega)).trans below⟩

/-- The draw lies in the interval of the candidate at a place. -/
def InInterval (weights : List ℚ) (drawn : ℚ) (i : Nat) : Prop :=
  reach weights i ≤ drawn ∧ drawn < reach weights (i + 1)

/-- Places without a candidate have no interval. -/
theorem InInterval.lt_length {drawn : ℚ} (lies : InInterval weights drawn i) : i < weights.length := by
  by_contra beyond
  have same : reach weights (i + 1) = reach weights i := by
    simp only [reach, List.take_of_length_le (not_lt.1 beyond),
      List.take_of_length_le (Nat.le_succ_of_le (not_lt.1 beyond))]
  exact absurd (lies.1.trans_lt lies.2) (same ▸ lt_irrefl _)

/-- The place that a drawn number leads to is that of the interval in which it lies. -/
theorem placeOf_eq_iff {drawn : ℚ} (nonneg : 0 ≤ drawn) (below : drawn < reach weights weights.length) :
    placeOf (runningTotals 0 weights).toArray drawn = i ↔ InInterval weights drawn i := by
  have passed := lt_placeOf_iff weights drawn
  generalize placeOf (runningTotals 0 weights).toArray drawn = place at passed
  have inside : place < weights.length := by
    by_contra beyond
    cases empty : weights.length with
    | zero => exact absurd (empty ▸ below) (reach_zero.symm ▸ not_lt.2 nonneg)
    | succ n => exact absurd (empty ▸ below) (not_lt.2 ((passed n).1 (by omega)).2)
  constructor
  · rintro rfl
    constructor
    · cases place with
      | zero => exact reach_zero.symm ▸ nonneg
      | succ n => exact ((passed n).1 n.lt_succ_self).2
    · by_contra beyond
      exact lt_irrefl place ((passed place).2 ⟨inside, not_lt.1 beyond⟩)
  · intro lies
    apply le_antisymm
    · by_contra past
      exact absurd lies.2 (not_lt.2 ((passed i).1 (not_le.1 past)).2)
    · by_contra before
      have reached := (reach_mono (not_le.1 before)).trans lies.1
      exact lt_irrefl place ((passed place).2 ⟨inside, reached⟩)

/-- The draws that lead to a place are as many as its candidate weighs. -/
theorem setOf_placeOf_eq {w : ℚ} (known : weights[i]? = some w) :
    {drawn | 0 ≤ drawn ∧ drawn < reach weights weights.length ∧
        placeOf (runningTotals 0 weights).toArray drawn = i} =
      Set.Ico (reach weights i) (reach weights i + max w 0) := by
  have inside : i < weights.length := (List.getElem?_eq_some_iff.1 known).1
  ext drawn
  rw [Set.mem_ofPred_eq, Set.mem_Ico, ← reach_succ known]
  constructor
  · rintro ⟨nonneg, below, leads⟩
    exact (placeOf_eq_iff nonneg below).1 leads
  · intro lies
    have nonneg : 0 ≤ drawn := reach_zero.symm.trans_le ((reach_mono (Nat.zero_le i)).trans lies.1)
    have below := lies.2.trans_le (reach_mono inside)
    exact ⟨nonneg, below, (placeOf_eq_iff nonneg below).2 lies⟩

end Intervals

/-! ## Lists and their totals -/

variable {M S C α : Type} {sel child : Selector M S C}

end Selector

/-- The solution that the list of a cache is of, after an announcement about another one. -/
def CacheType.keptAfter {S : Type} (cache : CacheType) (hook : Hook) (s : S) (kept : Option S) :
    Option S :=
  match hook, cache with
  | .phaseStarted, .phase | .stepStarted, .step => some s
  | .stepEnded, .step | .phaseEnded, _ => none
  | _, _ => kept

/-- In a search a list is made and dropped where the search stands. -/
theorem CacheType.filledWith_after {S : Type} (cache : CacheType) {hook : Hook} {s : S}
    {p p' : Point S} (due : p.after hook s = some p') :
    cache.filledWith p' = cache.keptAfter hook s (cache.filledWith p) := by
  cases hook <;> cases p <;> cases due <;> cases cache <;> rfl

theorem CacheType.filledWith_idle {S : Type} (cache : CacheType) :
    cache.filledWith (.idle : Point S) = none := by
  cases cache <;> rfl

namespace Selector

variable {M S C α : Type} {sel child : Selector M S C}

/-- A state to which some calls lead, whatever their order, with the solution that a list of its cache
is of, if there is one. -/
inductive CalledWith (sel : Selector M S C) : Option S → sel.State → Prop
  | start : CalledWith sel none sel.start
  | announced {kept : Option S} {st st' : sel.State} {hook : Hook} {set : Setting S} {w w' : World M}
    (before : CalledWith sel kept st) (ran : sel.handle hook set st w = .ok (st', w')) :
    CalledWith sel (sel.cacheType.keptAfter hook set.solution kept) st'
  | restarted {kept : Option S} {st st' : sel.State} {set : Setting S} {w w' : World M}
    (before : CalledWith sel kept st) (ran : sel.restart set st w = .ok (st', w')) : CalledWith sel kept st'
  | drawn {kept : Option S} {st st' : sel.State} {set : Setting S} {c : Option C} {w w' : World M}
    (before : CalledWith sel kept st) (ran : sel.next set st w = .ok ((c, st'), w')) :
    CalledWith sel kept st'

/-- The calls of a search are some calls. -/
theorem Reached.calledWith {shown : Point S → Setting S → Prop} {p : Point S} {inPass : Bool}
    {st : sel.State} (reached : sel.Reached shown p inPass st) :
    sel.CalledWith (sel.cacheType.filledWith p) st := by
  induction reached with
  | start => exact sel.cacheType.filledWith_idle ▸ .start
  | announced _ due _ ran ih => exact sel.cacheType.filledWith_after due ▸ .announced ih ran
  | restarted _ _ ran ih => exact .restarted ih ran
  | drawn _ _ ran ih => exact .drawn ih ran

section Weighted

variable [Scale α] {wheel : Wheel α} {cache : CacheType} {weight : S → C → Except Fault α}
variable {kept : Option S}

/-- The running totals are those of the kept list about the solution that it is of. Without a list
there are none. -/
structure Weighing.Aligned (weight : S → C → Except Fault α) (kept : Option S)
    (st : Weighing child α) : Prop where
  dropped : kept = none → st.kept.filled = false ∧ st.kept.items = #[] ∧ st.totals = #[]
  filled : ∀ s ∈ kept, st.kept.filled = true ∧ totalsOf (weight s) st.kept.items = .ok st.totals

theorem Weighing.aligned_some {s : S} {st : Weighing child α} (filled : st.kept.filled = true)
    (made : totalsOf (weight s) st.kept.items = .ok st.totals) : st.Aligned weight (some s) :=
  ⟨nofun, fun _ member => Option.some.inj member ▸ ⟨filled, made⟩⟩

theorem Weighing.aligned_none {st : Weighing child α} (unfilled : st.kept.filled = false)
    (items : st.kept.items = #[]) (totals : st.totals = #[]) : st.Aligned weight none :=
  ⟨fun _ => ⟨unfilled, items, totals⟩, nofun⟩

/-- Whatever is announced, the totals are made, kept and dropped with the list. -/
theorem Weighing.Aligned.handle {st st' : Weighing child α} {hook : Hook} {set : Setting S}
    {w w' : World M} (aligned : st.Aligned weight kept)
    (ran : (child.weighted wheel cache weight).handle hook set st w = .ok (st', w')) :
    st'.Aligned weight (cache.keptAfter hook set.solution kept) := by
  obtain ⟨list, w₁, handled, ran⟩ := exists_of_draw_bind ran
  obtain ⟨inner, w₂, -, handled⟩ := exists_of_draw_bind handled
  have weighed (list : Kept child C) (w₁ : World M)
      (made : ((do return { kept := list, totals := ← Draw.lift (totalsOf (weight set.solution) list.items) }) :
        Draw M (Weighing child α)) w₁ = .ok (st', w'))
      (filled : list.filled = true) : st'.Aligned weight (some set.solution) := by
    obtain ⟨totals, w₃, lifted, made⟩ := exists_of_draw_bind made
    cases made
    exact aligned_some filled (lift_eq_ok.1 lifted).1
  cases hook <;> cases cache <;> first
    | exact weighed list w₁ ran (filled_of_fill handled)
    | cases handled
      cases ran
      exact aligned_none rfl rfl rfl
    | cases handled
      cases ran
      exact ⟨aligned.dropped, aligned.filled⟩
    | cases handled
      cases ran
      refine ⟨fun none => ?_, fun s member => ?_⟩
      · obtain ⟨unfilled, items, -⟩ := aligned.dropped none
        exact ⟨unfilled, items, if_neg (by simp [unfilled])⟩
      · obtain ⟨filled, made⟩ := aligned.filled s member
        exact ⟨filled, made.trans (congrArg _ (if_pos filled).symm)⟩

/-- A draw yields a candidate of the list. -/
theorem mem_of_next_weighted {set : Setting S} {st st' : Weighing child α} {c : Option C}
    {w w' : World M}
    (ran : (child.weighted wheel cache weight).next set st w = .ok ((c, st'), w')) :
    st' = st ∧ w'.memory = w.memory ∧ ∀ x ∈ c, x ∈ st.kept.items := by
  simp only [weighted] at ran
  split at ran
  · cases ran
    exact ⟨rfl, rfl, nofun⟩
  · obtain ⟨drawn, w₁, generated, ran⟩ := exists_of_draw_bind ran
    cases ran
    exact ⟨rfl, (exists_of_generate generated).2, fun x found => Array.mem_of_getElem? found⟩

/-- The totals belong to the list after any calls. -/
theorem Weighing.aligned_of_calledWith {st : (child.weighted wheel cache weight).State}
    (called : (child.weighted wheel cache weight).CalledWith kept st) :
    Weighing.Aligned weight kept st := by
  induction called with
  | start => exact aligned_none rfl rfl rfl
  | announced _ ran ih => exact ih.handle ran
  | restarted _ ran ih =>
    cases ran
    exact ih
  | drawn _ ran ih =>
    obtain ⟨rfl, -⟩ := mem_of_next_weighted ran
    exact ih

end Weighted

/-! ## Possible passes -/

section Passes

variable {O : Type} {shown : Point S → Setting S → Prop} {view : M → O} [Scale α]
variable {wheel : Wheel α} {cache : CacheType} {weight : S → C → Except Fault α}

/-- In a step there is a list. -/
theorem Weighing.Aligned.size {first now : S} {st : Weighing child α} (cached : cache.isCached)
    (aligned : st.Aligned weight (cache.filledWith (.step first now))) :
    (child.weighted wheel cache weight).size now st = .ok st.kept.items.size := by
  obtain ⟨s, filled⟩ := cache.exists_filledWith cached first now
  exact if_pos (aligned.filled s filled).1

/-- Any candidates of the list, as often as they are drawn. -/
def rangesWeighted (cached : cache.isCached) :
    (child.weighted wheel cache weight).Ranges shown view where
  Inv p st := Weighing.Aligned weight (cache.filledWith p) st
  can _ (st : Weighing child α) _ cs := cs ⊆ st.kept.items.toList
  During _ (st : Weighing child α) _ cs := cs ⊆ st.kept.items.toList
  can_of_during _ during := during
  sized aligned := Weighing.Aligned.size cached aligned ▸ .ok _
  start := by
    rw [cache.filledWith_idle]
    exact Weighing.aligned_none rfl rfl rfl
  handle aligned due _ ran := by
    rw [cache.filledWith_after due]
    exact Weighing.Aligned.handle aligned ran
  restart aligned ran := by
    cases ran
    exact ⟨aligned, ⟨rfl, rfl, rfl⟩, List.nil_subset _⟩
  next aligned ran := by
    obtain ⟨rfl, memory, member⟩ := mem_of_next_weighted ran
    refine ⟨aligned, ⟨rfl, rfl, congrArg view memory⟩, fun cs during => ?_⟩
    refine List.append_subset.2 ⟨during, fun x found => ?_⟩
    simpa using member x (by simpa using found)

variable (shown view) in
theorem suits_probability {weight : S → C → Except Fault Float} {made : Selector M S C}
    (built : child.probability cache weight = .ok made) :
    ∃ ranges : made.Ranges shown view, ranges.Suits False False := by
  obtain ⟨_, checked, built⟩ := andThen_eq_ok.1 built
  have cached := isCached_of_checkCacheable checked
  obtain rfl := Except.ok.inj built
  refine ⟨rangesWeighted cached, fun aligned => ⟨_, Weighing.Aligned.size cached aligned⟩, ?_, ?_,
    False.elim, False.elim⟩
  · intro first set st c st' k w w' aligned ran size
    obtain ⟨-, -, member⟩ := mem_of_next_weighted ran
    cases (Weighing.Aligned.size cached aligned).symm.trans size
    exact Array.size_pos_of_mem (member c rfl)
  · intro first now st k aligned size
    cases (Weighing.Aligned.size cached aligned).symm.trans size
    exact ⟨fun _ => st.kept.items.toList, fun _ => by simp, fun _ _ can => can⟩

end Passes

/-! ## Exact draws -/

section Exact

variable {wheel : Wheel ℚ} {cache : CacheType} {weight : S → C → Except Fault ℚ}

/-- The totals of some candidates are the ends of the intervals of their weights. -/
theorem exists_weights {candidates : Array C} {totals : Array ℚ} {f : C → Except Fault ℚ}
    (made : totalsOf f candidates = .ok totals) :
    ∃ weights, List.Forall₂ (fun c w => f c = .ok w) candidates.toList weights ∧
      totals = (runningTotals 0 weights).toArray := by
  obtain ⟨weights, mapped, same⟩ := bind_eq_ok.1 made
  cases same
  exact ⟨weights, mapM_eq_ok_iff.1 mapped, rfl⟩

/-- Without a positive total there is no draw. -/
theorem next_weighted_of_zero {st : Weighing child ℚ} (zero : totalWeight st.totals = 0)
    (set : Setting S) (w : World M) :
    (child.weighted wheel cache weight).next set st w = .ok ((none, st), w) := by
  have nothing : totalWeight st.totals ≤ Scale.ofCount 0 := zero.le
  simp only [weighted, if_pos nothing]
  rfl

theorem next_weighted_of_drawn {st : Weighing child ℚ} (positive : 0 < totalWeight st.totals)
    (set : Setting S) {w : World M} {drawn : ℚ} {g : Random.Generator}
    (draw : wheel.below (totalWeight st.totals) w.generator = .ok (drawn, g)) :
    (child.weighted wheel cache weight).next set st w =
      .ok ((st.kept.items[placeOf st.totals drawn]?, st), ⟨g, w.memory⟩) := by
  have something : ¬totalWeight st.totals ≤ Scale.ofCount 0 := not_le.2 positive
  simp only [weighted, if_neg something]
  rw [draw_bind]
  simp only [Draw.generate, draw]
  rfl

/-- After any calls, whatever their order, a number that is drawn below the total weight leads to the
one candidate of the kept list in whose interval it lies, and as many numbers lead to a candidate as
it weighs. Where nothing is kept or nothing weighs anything, nothing is drawn. -/
theorem draws_by_weight {kept : Option S} {st : (child.weighted wheel cache weight).State}
    (called : (child.weighted wheel cache weight).CalledWith kept st) :
    (kept = none → ∀ set w,
      (child.weighted wheel cache weight).next set st w = .ok ((none, st), w)) ∧
    ∀ s ∈ kept, ∃ weights : List ℚ,
      List.Forall₂ (fun c w => weight s c = .ok w) st.kept.items.toList weights ∧
      (reach weights weights.length = 0 → ∀ set w,
        (child.weighted wheel cache weight).next set st w = .ok ((none, st), w)) ∧
      (∀ set w drawn g, wheel.below (reach weights weights.length) w.generator = .ok (drawn, g) →
        0 ≤ drawn → drawn < reach weights weights.length →
        ∃ i < st.kept.items.size, (∀ j, InInterval weights drawn j ↔ j = i) ∧
          (child.weighted wheel cache weight).next set st w =
            .ok ((st.kept.items[i]?, st), ⟨g, w.memory⟩)) ∧
      ∀ i w, weights[i]? = some w →
        {drawn | 0 ≤ drawn ∧ drawn < reach weights weights.length ∧
            placeOf st.totals drawn = i} =
          Set.Ico (reach weights i) (reach weights i + max w 0) := by
  have aligned := Weighing.aligned_of_calledWith called
  constructor
  · intro none set w
    have empty := (aligned.dropped none).2.2
    exact next_weighted_of_zero (by rw [empty]; rfl) set w
  · intro s member
    obtain ⟨weights, weighs, totals⟩ := exists_weights (aligned.filled s member).2
    have total : totalWeight st.totals = reach weights weights.length :=
      totals ▸ totalWeight_runningTotals weights
    refine ⟨weights, weighs, fun zero => next_weighted_of_zero (total.trans zero), ?_, ?_⟩
    · intro set w drawn g draw nonneg below
      have leads (j : Nat) : placeOf st.totals drawn = j ↔ InInterval weights drawn j :=
        totals ▸ placeOf_eq_iff nonneg below
      have inside : placeOf st.totals drawn < weights.length := ((leads _).1 rfl).lt_length
      rw [← total] at draw below
      refine ⟨placeOf st.totals drawn, ?_, fun j => ?_, ?_⟩
      · rwa [← weighs.length_eq, Array.length_toList] at inside
      · rw [← leads, eq_comm]
      · exact next_weighted_of_drawn (nonneg.trans_lt below) set draw
    · intro i w known
      exact totals ▸ setOf_placeOf_eq known

/-- A wheel that always stops at one. -/
def stuckWheel : Wheel ℚ where
  below _ g := .ok (1, g)
  describe _ := ""

/-- Four numbers. -/
def fourNumbers : Selector Unit Unit Int := source (fun _ => #[1, 0, 3, -4]) false

/-- Drawn by its own value, zero is not drawn at one, but three is. -/
theorem draws_three :
    ∃ st, (fourNumbers.weighted stuckWheel .phase fun _ c => .ok c).CalledWith (some ()) st ∧
      ∀ w, (fourNumbers.weighted stuckWheel .phase fun _ c => .ok c).next ⟨(), 5⟩ st w =
        .ok ((some 3, st), w) := by
  let st : Weighing fourNumbers ℚ := ⟨⟨(4 : Nat), #[1, 0, 3, -4], true, 0⟩, #[1, 1, 4, 4]⟩
  have filled (w) : (fourNumbers.weighted stuckWheel .phase fun _ c => .ok c).handle .phaseStarted
      ⟨(), 5⟩ { kept := { child := fourNumbers.start } } w = .ok (st, w) := by
    with_unfolding_all rfl
  have called : (fourNumbers.weighted stuckWheel .phase fun _ c => .ok c).CalledWith (some ()) st :=
    .announced .start (filled ⟨.ofSeed 0, ()⟩)
  refine ⟨st, called, fun w => ?_⟩
  obtain ⟨weights, weighs, -, leads, -⟩ := (draws_by_weight called).2 () rfl
  obtain rfl : weights = [1, 0, 3, -4] := by
    rcases weighs with _ | ⟨⟨⟩, _ | ⟨⟨⟩, _ | ⟨⟨⟩, _ | ⟨⟨⟩, ⟨⟩⟩⟩⟩⟩
    norm_num
  obtain ⟨i, -, only, next⟩ := leads ⟨(), 5⟩ w 1 w.generator rfl (by norm_num) (by norm_num [reach])
  obtain rfl : 2 = i := (only 2).1 ⟨by norm_num [reach], by norm_num [reach]⟩
  exact next

end Exact

end Selector

end PlanSearch
