import Mathlib.Data.List.Chain
import Mathlib.Data.List.Perm.Subperm
import Mathlib.Logic.Relation
import PlanSearch.Chain.Validity
import PlanSearch.Proofs.Chain.Links

/-!
# Paths along links

A number of links leads from an element to one other element or to none. A way along as many links
as the graph has elements comes back to one of them, and what lies behind a way that comes back is
reached without the detour too. The first anchor on a way is therefore fewer links away than the graph
has elements, and the bounded walk towards it always arrives, whether the graph is valid or not.

A path lists elements so that each is placed right after the one before it. Where no links form a
cycle, a path visits no element twice and is no longer than the graph has elements, so that the walk
away from the anchor is not cut short either. This makes the check of the law of chains exact.
-/

namespace PlanSearch

namespace ChainGraph

/-- The element that the given number of links leads to. -/
def ancestor (g : ChainGraph) : Nat → Handle → Option Handle
  | 0, h => some h
  | k + 1, h => (g.predecessor h).bind (g.ancestor k)

/-- Every element but the first is placed right after the one listed before it. -/
abbrev Path (predecessor : Handle → Option Handle) (l : List Handle) : Prop :=
  l.IsChain fun before h => predecessor h = some before

/-- No element comes before itself. -/
def Acyclic (g : ChainGraph) : Prop :=
  ∀ h, ¬Relation.TransGen (fun before h => g.predecessor h = some before) h h

variable {g : ChainGraph} {h root before : Handle} {l : List Handle} {i j k count : Nat}

theorem Valid.linked (valid : g.Valid) : g.Linked :=
  ⟨valid.anchor_free, valid.unique_successor, valid.index_exact⟩

/-! ## Following links -/

@[simp] theorem ancestor_one (g : ChainGraph) (h : Handle) : g.ancestor 1 h = g.predecessor h := by
  simp [ancestor]

theorem ancestor_add (g : ChainGraph) (j k : Nat) (h : Handle) :
    g.ancestor (j + k) h = (g.ancestor j h).bind (g.ancestor k) := by
  induction j generalizing h with
  | zero => simp [ancestor]
  | succ j ih =>
    rw [Nat.succ_add, ancestor, ancestor, Option.bind_assoc]
    exact congrArg (g.predecessor h).bind (funext ih)

theorem ancestor_succ_right (g : ChainGraph) (k : Nat) (h : Handle) :
    g.ancestor (k + 1) h = (g.ancestor k h).bind g.predecessor := by
  rw [ancestor_add]
  exact congrArg (g.ancestor k h).bind (funext g.ancestor_one)

theorem ancestor_of_link (link : g.predecessor h = some before) (k : Nat) :
    g.ancestor (k + 1) h = g.ancestor k before := by
  rw [ancestor, link, Option.bind_some]

/-- Links lead on from every element on the way. -/
theorem exists_ancestor_of_lt (reached : g.ancestor k h = some root) (earlier : j < k) :
    ∃ x, g.ancestor j h = some x ∧ (g.predecessor x).isSome := by
  obtain ⟨m, rfl⟩ := Nat.exists_eq_add_of_lt earlier
  rw [Nat.add_assoc, ancestor_add] at reached
  obtain ⟨x, here, onwards⟩ := Option.bind_eq_some_iff.1 reached
  obtain ⟨before, link, -⟩ := Option.bind_eq_some_iff.1 onwards
  exact ⟨x, here, by simp [link]⟩

theorem leads_iff_ancestor : g.Leads h root ↔ ∃ k, g.ancestor k h = some root := by
  constructor
  · intro leads
    induction leads with
    | refl => exact ⟨0, rfl⟩
    | step link _ ih =>
      obtain ⟨k, reached⟩ := ih
      exact ⟨k + 1, (ancestor_of_link link k).trans reached⟩
  · rintro ⟨k, reached⟩
    induction k generalizing h with
    | zero =>
      cases reached
      exact .refl _
    | succ k ih =>
      obtain ⟨before, link, onwards⟩ := Option.bind_eq_some_iff.1 reached
      exact .step link (ih onwards)

/-- A way that ends does so at an element that is placed after nothing. -/
theorem exists_last (lost : g.ancestor k h = none) :
    ∃ j top, g.ancestor j h = some top ∧ g.predecessor top = none := by
  induction k generalizing h with
  | zero => cases lost
  | succ k ih =>
    cases link : g.predecessor h with
    | none => exact ⟨0, h, rfl, link⟩
    | some before =>
      rw [ancestor_of_link link] at lost
      obtain ⟨j, top, reached, free⟩ := ih lost
      exact ⟨j + 1, top, (ancestor_of_link link j).trans reached, free⟩

/-! ## Coming back -/

theorem mem_handles : h ∈ g.handles ↔ g.contains h := by
  simp only [handles, size, contains, List.mem_map, List.mem_range, decide_eq_true_eq]
  constructor
  · rintro ⟨i, below, rfl⟩
    exact below
  · intro below
    exact ⟨h.index, below, rfl⟩

theorem nodup_handles (g : ChainGraph) : g.handles.Nodup :=
  List.nodup_range.map fun i j same => by cases same; rfl

theorem length_le_size (nodup : l.Nodup) (known : ∀ h ∈ l, g.contains h) : l.length ≤ g.size := by
  have within : l ⊆ g.handles := fun h member => mem_handles.2 (known h member)
  have shorter := (List.subperm_of_subset nodup within).length_le
  simpa [handles] using shorter

/-- A way along as many links as there are elements visits one of them twice. -/
theorem exists_revisit (long : g.size ≤ k)
    (known : ∀ j ≤ k, ∃ x, g.ancestor j h = some x ∧ g.contains x) :
    ∃ i j x, i < j ∧ j ≤ k ∧ g.ancestor i h = some x ∧ g.ancestor j h = some x := by
  by_contra never
  push Not at never
  have apart (i j : Nat) (within : j ≤ k) (earlier : i < j) :
      (g.ancestor i h).getD h ≠ (g.ancestor j h).getD h := by
    intro same
    obtain ⟨x, here, -⟩ := known i (by omega)
    obtain ⟨y, there, -⟩ := known j within
    simp only [here, there, Option.getD_some] at same
    exact never i j x earlier within here (same ▸ there)
  let visited := (List.range (k + 1)).map fun j => (g.ancestor j h).getD h
  have nodup : visited.Nodup := by
    refine List.nodup_range.map_on fun i inRange j inRange' same => ?_
    have within := Nat.le_of_lt_succ (List.mem_range.1 inRange)
    have within' := Nat.le_of_lt_succ (List.mem_range.1 inRange')
    rcases Nat.lt_trichotomy i j with earlier | rfl | later
    · exact absurd same (apart i j within' earlier)
    · rfl
    · exact absurd same.symm (apart j i within later)
  have short : visited.length ≤ g.size := by
    refine length_le_size nodup fun x member => ?_
    obtain ⟨j, inRange, rfl⟩ := List.mem_map.1 member
    obtain ⟨x, here, contained⟩ := known j (Nat.le_of_lt_succ (List.mem_range.1 inRange))
    rwa [here]
  simp only [visited, List.length_map, List.length_range] at short
  omega

/-! ## Leading to an anchor -/

theorem Leads.snoc (leads : g.Leads h before) (link : g.predecessor before = some root) :
    g.Leads h root := by
  induction leads with
  | refl => exact .step link (.refl root)
  | step first _ ih => exact .step first (ih link)

theorem leads_of_path (path : Path g.predecessor (root :: l)) (member : h ∈ root :: l) :
    g.Leads h root := by
  induction l generalizing root with
  | nil =>
    rw [List.mem_singleton.1 member]
    exact .refl root
  | cons next rest ih =>
    obtain ⟨link, onwards⟩ := List.isChain_cons_cons.1 path
    rcases List.mem_cons.1 member with rfl | later
    · exact .refl h
    · exact (ih onwards later).snoc link

/-- Of two elements on a way that ends at the second, the first one leads to it. -/
theorem Leads.of_leads (near : g.Leads h before) (far : g.Leads h root)
    (top : g.predecessor root = none) : g.Leads before root := by
  induction near with
  | refl => exact far
  | step link _ ih =>
    cases far with
    | refl =>
      rw [top] at link
      cases link
    | step link' onwards =>
      rw [link, Option.some.injEq] at link'
      exact ih (link' ▸ onwards)

/-- An entity that leads to an anchor is placed after something. -/
theorem Leads.isSome_predecessor (leads : g.Leads h root) (entity : g.kind? h = some .entity)
    (anchor : g.kind? root = some .anchor) : (g.predecessor h).isSome := by
  cases leads with
  | refl =>
    rw [entity] at anchor
    cases anchor
  | step link _ => simp [link]

/-- What leads to an element without a predecessor is on no cycle. -/
theorem Leads.not_cyclic (leads : g.Leads h root) (top : g.predecessor root = none) :
    ¬Relation.TransGen (fun before h => g.predecessor h = some before) h h := by
  induction leads with
  | refl =>
    intro cycle
    obtain ⟨last, _, link⟩ := Relation.TransGen.tail'_iff.1 cycle
    simp [top] at link
  | step first _ ih =>
    intro cycle
    obtain ⟨last, steps, link⟩ := Relation.TransGen.tail'_iff.1 cycle
    obtain rfl := Option.some.inj (first.symm.trans link)
    exact ih top (.head' first steps)

theorem Valid.acyclic (valid : g.Valid) : g.Acyclic := by
  intro h cycle
  obtain ⟨last, _, link⟩ := Relation.TransGen.tail'_iff.1 cycle
  obtain ⟨root, anchor, leads⟩ := valid.anchored h (by simp [link])
  exact leads.not_cyclic (valid.anchor_free root anchor) cycle

/-- A path repeats nothing, unless links form a cycle. -/
theorem Acyclic.nodup (acyclic : g.Acyclic) (path : Path g.predecessor l) : l.Nodup := by
  have later : l.IsChain (Relation.TransGen fun before h => g.predecessor h = some before) :=
    path.imp fun _ _ link => .single link
  refine later.pairwise.imp ?_
  rintro a b steps rfl
  exact acyclic a steps

/-! ## Walking to the anchor -/

/-- An anchor is the first one on the way from an element, so many links away. -/
structure NearestAnchor (g : ChainGraph) (k : Nat) (h root : Handle) : Prop where
  anchor : g.kind? root = some .anchor
  reached : g.ancestor k h = some root
  first : ∀ j < k, ∀ x, g.ancestor j h = some x → g.kind? x ≠ some .anchor

theorem nearestAnchor_zero : g.NearestAnchor 0 h root ↔ h = root ∧ g.kind? h = some .anchor := by
  constructor
  · rintro ⟨anchor, ⟨⟩, -⟩
    exact ⟨rfl, anchor⟩
  · rintro ⟨rfl, anchor⟩
    exact ⟨anchor, rfl, fun j before => absurd before (Nat.not_lt_zero j)⟩

theorem nearestAnchor_succ : g.NearestAnchor (k + 1) h root ↔ g.kind? h ≠ some .anchor ∧
    ∃ before, g.predecessor h = some before ∧ g.NearestAnchor k before root := by
  constructor
  · rintro ⟨anchor, reached, first⟩
    obtain ⟨before, link, onwards⟩ := Option.bind_eq_some_iff.1 reached
    have other := first 0 (Nat.succ_pos k) h rfl
    refine ⟨other, before, link, anchor, onwards, fun j earlier x here => ?_⟩
    exact first (j + 1) (Nat.succ_lt_succ earlier) x ((ancestor_of_link link j).trans here)
  · rintro ⟨other, before, link, anchor, onwards, first⟩
    refine ⟨anchor, (ancestor_of_link link k).trans onwards, fun j earlier x here => ?_⟩
    cases j with
    | zero =>
      cases here
      exact other
    | succ j =>
      rw [ancestor_of_link link] at here
      exact first j (Nat.lt_of_succ_lt_succ earlier) x here

theorem anchorWithin_succ (g : ChainGraph) (count : Nat) (h : Handle) :
    g.anchorWithin (count + 1) h = if g.kind? h = some .anchor then some h
      else (g.predecessor h).bind (g.anchorWithin count) := by
  rw [anchorWithin]
  unfold kind? predecessor
  cases g.node? h with
  | none => rfl
  | some node => cases kind : node.kind <;> simp [kind]

/-- The walk finds the first anchor on the way among as many elements as it may visit. -/
theorem anchorWithin_eq_some_iff :
    g.anchorWithin count h = some root ↔ ∃ k < count, g.NearestAnchor k h root := by
  induction count generalizing h with
  | zero => simp [anchorWithin]
  | succ count ih =>
    rw [anchorWithin_succ]
    split
    · rename_i anchor
      constructor
      · rintro ⟨⟩
        exact ⟨0, Nat.succ_pos count, nearestAnchor_zero.2 ⟨rfl, anchor⟩⟩
      · rintro ⟨k, -, nearest⟩
        cases k with
        | zero => rw [(nearestAnchor_zero.1 nearest).1]
        | succ k => exact absurd anchor (nearestAnchor_succ.1 nearest).1
    · rename_i other
      rw [Option.bind_eq_some_iff]
      constructor
      · rintro ⟨before, link, found⟩
        obtain ⟨k, short, nearest⟩ := ih.1 found
        exact ⟨k + 1, Nat.succ_lt_succ short, nearestAnchor_succ.2 ⟨other, before, link, nearest⟩⟩
      · rintro ⟨k, short, nearest⟩
        cases k with
        | zero => exact absurd (nearestAnchor_zero.1 nearest).2 other
        | succ k =>
          obtain ⟨-, before, link, onwards⟩ := nearestAnchor_succ.1 nearest
          exact ⟨before, link, ih.2 ⟨k, Nat.lt_of_succ_lt_succ short, onwards⟩⟩

/-- The first anchor is fewer links away than the graph has elements. If an element were visited
twice before, the anchor would also be reached on the way without the detour, and so earlier. -/
theorem NearestAnchor.lt_size (nearest : g.NearestAnchor k h root) : k < g.size := by
  by_contra long
  have known : ∀ j ≤ k, ∃ x, g.ancestor j h = some x ∧ g.contains x := by
    intro j within
    rcases Nat.lt_or_eq_of_le within with earlier | rfl
    · obtain ⟨x, here, placed⟩ := exists_ancestor_of_lt nearest.reached earlier
      obtain ⟨before, link⟩ := Option.isSome_iff_exists.1 placed
      exact ⟨x, here, contains_iff_kind?_isSome.2 (kind?_isSome_of_predecessor link)⟩
    · exact ⟨root, nearest.reached, contains_iff_kind?_isSome.2 (by simp [nearest.anchor])⟩
  obtain ⟨i, j, x, earlier, within, here, there⟩ := exists_revisit (Nat.le_of_not_lt long) known
  obtain ⟨m, rfl⟩ := Nat.exists_eq_add_of_le within
  have shorter : g.ancestor (i + m) h = some root := by
    rw [ancestor_add, here, ← there, ← ancestor_add, nearest.reached]
  exact nearest.first (i + m) (by omega) root shorter nearest.anchor

/-- A walk that may visit as many elements as there are is not cut off. -/
theorem anchorWithin_eq_some_iff_of_le (enough : g.size ≤ count) :
    g.anchorWithin count h = some root ↔ ∃ k, g.NearestAnchor k h root := by
  rw [anchorWithin_eq_some_iff]
  constructor
  · rintro ⟨k, -, nearest⟩
    exact ⟨k, nearest⟩
  · rintro ⟨k, nearest⟩
    exact ⟨k, Nat.lt_of_lt_of_le nearest.lt_size enough, nearest⟩

theorem anchorOf_eq_some_iff_nearestAnchor :
    g.anchorOf h = some root ↔ ∃ k, g.NearestAnchor k h root :=
  anchorWithin_eq_some_iff_of_le (Nat.le_succ g.size)

/-- An anchor is its own. -/
theorem anchorOf_of_anchor (anchor : g.kind? h = some .anchor) : g.anchorOf h = some h :=
  anchorOf_eq_some_iff_nearestAnchor.2 ⟨0, nearestAnchor_zero.2 ⟨rfl, anchor⟩⟩

theorem anchorWithin_eq_anchorOf (enough : g.size ≤ count) (h : Handle) :
    g.anchorWithin count h = g.anchorOf h := by
  refine Option.ext fun root => ?_
  rw [anchorWithin_eq_some_iff_of_le enough, anchorOf_eq_some_iff_nearestAnchor]

theorem leads_of_anchorWithin (found : g.anchorWithin count h = some root) :
    g.kind? root = some .anchor ∧ g.Leads h root := by
  obtain ⟨k, -, nearest⟩ := anchorWithin_eq_some_iff.1 found
  exact ⟨nearest.anchor, leads_iff_ancestor.2 ⟨k, nearest.reached⟩⟩

/-- What leads to an anchor exists. -/
theorem Leads.contains (leads : g.Leads h root) (anchor : g.kind? root = some .anchor) :
    g.contains h := by
  rw [contains_iff_kind?_isSome]
  cases leads with
  | refl => simp [anchor]
  | step link _ => exact kind?_isSome_of_predecessor link

/-- The walk towards the anchor finds the anchor that an element leads to, and only that. -/
theorem anchorOf_eq_some_iff
    (free : ∀ h, g.kind? h = some .anchor → g.predecessor h = none) :
    g.anchorOf h = some root ↔ g.kind? root = some .anchor ∧ g.Leads h root := by
  rw [anchorOf_eq_some_iff_nearestAnchor, leads_iff_ancestor]
  constructor
  · rintro ⟨k, nearest⟩
    exact ⟨nearest.anchor, k, nearest.reached⟩
  · rintro ⟨anchor, k, reached⟩
    refine ⟨k, anchor, reached, fun j earlier x here other => ?_⟩
    obtain ⟨y, there, placed⟩ := exists_ancestor_of_lt reached earlier
    obtain rfl := Option.some.inj (here.symm.trans there)
    simp [free x other] at placed

/-! ## The check of the law -/

theorem anchor_free_of_handles
    (free : ∀ h ∈ g.handles, g.kind? h = some .anchor → g.predecessor h = none) (h : Handle)
    (anchor : g.kind? h = some .anchor) : g.predecessor h = none :=
  free h (mem_handles.2 (contains_iff_kind?_isSome.2 (by simp [anchor]))) anchor

/-- The links of some elements as pairs of an element and what is placed after it. -/
def linksOf (g : ChainGraph) (hs : List Handle) : List (Handle × Handle) :=
  hs.filterMap fun h => (g.predecessor h).map fun before => (before, h)

theorem mem_linksOf {hs : List Handle} {pair : Handle × Handle} :
    pair ∈ g.linksOf hs ↔ pair.2 ∈ hs ∧ g.predecessor pair.2 = some pair.1 := by
  obtain ⟨before, h⟩ := pair
  simp only [linksOf, List.mem_filterMap, Option.map_eq_some_iff, Prod.mk.injEq]
  constructor
  · rintro ⟨_, member, _, link, rfl, rfl⟩
    exact ⟨member, link⟩
  · rintro ⟨member, link⟩
    exact ⟨h, member, before, link, rfl, rfl⟩

/-- The links are collected when no anchor has one and no two have the same element in front. -/
theorem collectLinks_eq_ok {hs : List Handle} {seen links : List (Handle × Handle)}
    (distinct : (seen.map Prod.fst).Nodup) :
    g.collectLinks seen hs = .ok links ↔
      (∀ h ∈ hs, g.kind? h = some .anchor → g.predecessor h = none) ∧
        ((seen ++ g.linksOf hs).map Prod.fst).Nodup ∧ links = seen ++ g.linksOf hs := by
  induction hs generalizing seen with
  | nil => simp [collectLinks, linksOf, distinct, eq_comm]
  | cons h rest ih =>
    cases link : g.predecessor h with
    | none => simp [collectLinks, link, ih distinct, linksOf]
    | some before =>
      have split : seen ++ g.linksOf (h :: rest) =
          (seen ++ [(before, h)]) ++ g.linksOf rest := by
        simp [linksOf, link]
      rw [split, collectLinks, link]
      dsimp only
      by_cases anchor : g.isAnchor h
      · simp only [anchor, if_true, reduceCtorEq, false_iff, not_and]
        intro free
        rw [free h (by simp) (by simpa [isAnchor] using anchor)] at link
        cases link
      rw [if_neg anchor]
      split
      · rename_i double
        simp only [reduceCtorEq, false_iff, not_and]
        rintro - nodup
        obtain ⟨⟨b, h'⟩, member, same⟩ := List.any_eq_true.1 double
        obtain rfl := of_decide_eq_true same
        rw [List.map_append, List.map_append, List.nodup_append] at nodup
        have apart := (List.nodup_append.1 nodup.1).2.2
        exact absurd rfl (apart b (List.mem_map_of_mem member) b (by simp))
      · rename_i single
        have fresh : ((seen ++ [(before, h)]).map Prod.fst).Nodup := by
          rw [List.map_append, List.nodup_append]
          refine ⟨distinct, by simp, ?_⟩
          intro b member b' last same
          obtain ⟨pair, found, rfl⟩ := List.mem_map.1 member
          simp only [List.map_cons, List.map_nil, List.mem_singleton] at last
          exact single (List.any_eq_true.2 ⟨pair, found, by simp [same, last]⟩)
        have free : g.kind? h ≠ some .anchor := by simpa [isAnchor] using anchor
        rw [ih fresh, List.forall_mem_cons]
        simp only [free, false_implies, true_and]

theorem checkLinks_eq_ok {links : List (Handle × Handle)} :
    g.checkLinks links = .ok () ↔
      ∀ pair ∈ links, g.successor pair.1 = some pair.2 ∧ (g.anchorOf pair.2).isSome := by
  induction links with
  | nil => simp [checkLinks]
  | cons pair rest ih =>
    obtain ⟨before, h⟩ := pair
    simp only [checkLinks, List.forall_mem_cons, ← ih]
    by_cases recorded : g.successor before = some h
    · cases found : g.anchorOf h <;> simp [recorded]
    · simp [recorded]

theorem mem_linksOf_handles {pair : Handle × Handle} :
    pair ∈ g.linksOf g.handles ↔ g.predecessor pair.2 = some pair.1 := by
  rw [mem_linksOf, and_iff_right_iff_imp]
  intro link
  exact mem_handles.2 (contains_iff_kind?_isSome.2 (kind?_isSome_of_predecessor link))

theorem collectLinks_handles_eq_ok {links : List (Handle × Handle)} :
    g.collectLinks [] g.handles = .ok links ↔
      (∀ h ∈ g.handles, g.kind? h = some .anchor → g.predecessor h = none) ∧
        ((g.linksOf g.handles).map Prod.fst).Nodup ∧ links = g.linksOf g.handles :=
  collectLinks_eq_ok List.nodup_nil

/-- The conditions under which the check passes. -/
theorem validate_eq_ok : g.validate = .ok () ↔
    (∀ h ∈ g.handles, g.kind? h = some .anchor → g.predecessor h = none) ∧
      ((g.linksOf g.handles).map Prod.fst).Nodup ∧
      (∀ pair ∈ g.linksOf g.handles,
        g.successor pair.1 = some pair.2 ∧ (g.anchorOf pair.2).isSome) ∧
      ∀ b ∈ g.handles, (g.successor b).isSome → ∃ pair ∈ g.linksOf g.handles, pair.1 = b := by
  unfold validate
  cases first : g.collectLinks [] g.handles with
  | error e =>
    constructor
    · intro passed
      cases passed
    · rintro ⟨free, distinct, -⟩
      rw [collectLinks_handles_eq_ok.2 ⟨free, distinct, rfl⟩] at first
      cases first
  | ok links =>
    obtain ⟨free, distinct, rfl⟩ := collectLinks_handles_eq_ok.1 first
    simp only [bind, Except.bind, distinct, ← checkLinks_eq_ok, true_and]
    rw [and_iff_right free]
    cases checked : g.checkLinks (g.linksOf g.handles) with
    | error e => simp
    | ok _ =>
      have searched := List.find?_eq_none (l := g.handles) (p := fun b =>
        (g.successor b).isSome && !(g.linksOf g.handles).any fun pair => pair.1 = b)
      cases found : g.handles.find? fun b =>
          (g.successor b).isSome && !(g.linksOf g.handles).any fun pair => pair.1 = b with
      | none => simpa [found] using searched
      | some stale =>
        rw [found] at searched
        simpa using searched

/-- The check passes exactly the graphs that obey the law of chains. -/
theorem validate_eq_ok_iff : g.validate = .ok () ↔ g.Valid := by
  rw [validate_eq_ok]
  constructor
  · rintro ⟨free, distinct, checked, covered⟩
    refine ⟨anchor_free_of_handles free, ?_, ?_, ?_⟩
    · intro h₁ h₂ before link₁ link₂
      have member₁ : (before, h₁) ∈ g.linksOf g.handles := mem_linksOf_handles.2 link₁
      have member₂ : (before, h₂) ∈ g.linksOf g.handles := mem_linksOf_handles.2 link₂
      exact (Prod.mk.inj (List.inj_on_of_nodup_map distinct member₁ member₂ rfl)).2
    · intro before h
      constructor
      · intro recorded
        obtain ⟨pair, member, rfl⟩ :=
          covered before (mem_handles.2 (contains_of_successor recorded)) (by simp [recorded])
        obtain rfl := Option.some.inj (recorded.symm.trans (checked pair member).1)
        exact mem_linksOf_handles.1 member
      · intro link
        exact (checked (before, h) (mem_linksOf_handles.2 link)).1
    · intro h placed
      obtain ⟨before, link⟩ := Option.isSome_iff_exists.1 placed
      obtain ⟨root, found⟩ :=
        Option.isSome_iff_exists.1 (checked (before, h) (mem_linksOf_handles.2 link)).2
      exact ⟨root, leads_of_anchorWithin found⟩
  · intro valid
    refine ⟨fun h _ => valid.anchor_free h, ?_, ?_, ?_⟩
    · have pairs : (g.linksOf g.handles).Nodup := by
        refine g.nodup_handles.filterMap ?_
        rintro h h' pair here there
        obtain ⟨_, _, rfl⟩ := Option.map_eq_some_iff.1 here
        obtain ⟨_, _, same⟩ := Option.map_eq_some_iff.1 there
        exact (Prod.mk.inj same).2.symm
      refine pairs.map_on ?_
      rintro ⟨before, h₁⟩ member₁ ⟨_, h₂⟩ member₂ rfl
      rw [valid.unique_successor h₁ h₂ before (mem_linksOf_handles.1 member₁)
        (mem_linksOf_handles.1 member₂)]
    · rintro ⟨before, h⟩ member
      have link := mem_linksOf_handles.1 member
      obtain ⟨root, anchor, leads⟩ := valid.anchored h (by simp [link])
      exact ⟨(valid.index_exact before h).2 link,
        by simp [(anchorOf_eq_some_iff valid.anchor_free).2 ⟨anchor, leads⟩]⟩
    · intro before _ recorded
      obtain ⟨h, recorded⟩ := Option.isSome_iff_exists.1 recorded
      exact ⟨(before, h), mem_linksOf_handles.2 ((valid.index_exact before h).1 recorded), rfl⟩

/-! ## What is placed after an element -/

/-- The list names, in order and each once, the first element and all whose paths lead to it. -/
structure Strand (predecessor : Handle → Option Handle) (l : List Handle) : Prop where
  path : Path predecessor l
  nodup : l.Nodup
  closed : ∀ z ∈ l, ∀ y, predecessor y = some z → y ∈ l

theorem path_trailingWithin (linked : g.Linked) (count : Nat) (h : Handle) :
    Path g.predecessor (h :: g.trailingWithin count h) := by
  induction count generalizing h with
  | zero => exact .singleton h
  | succ count ih =>
    unfold trailingWithin
    cases recorded : g.successor h with
    | none => exact .singleton h
    | some next => exact .cons_cons ((linked.index_exact h next).1 recorded) (ih next)

/-- A walk that is not cut off ends where the index ends. -/
theorem successor_getLast_trailingWithin
    (short : (g.trailingWithin count h).length < count) :
    g.successor ((h :: g.trailingWithin count h).getLast (List.cons_ne_nil _ _)) = none := by
  induction count generalizing h with
  | zero => cases short
  | succ count ih =>
    cases recorded : g.successor h with
    | none => simp [trailingWithin, recorded]
    | some next =>
      simp only [trailingWithin, recorded, List.length_cons] at short ⊢
      rw [List.getLast_cons (List.cons_ne_nil _ _)]
      exact ih (Nat.lt_of_succ_lt_succ short)

theorem trailingWithin_of_path (linked : g.Linked) (path : Path g.predecessor (h :: l))
    (ended : ∀ y, g.predecessor y ≠ some ((h :: l).getLast (List.cons_ne_nil h l)))
    (enough : l.length ≤ count) : g.trailingWithin count h = l := by
  induction l generalizing h count with
  | nil =>
    cases count with
    | zero => rfl
    | succ count =>
      cases recorded : g.successor h with
      | none => simp [trailingWithin, recorded]
      | some next => exact absurd ((linked.index_exact h next).1 recorded) (ended next)
  | cons next rest ih =>
    obtain ⟨link, onwards⟩ := List.isChain_cons_cons.1 path
    obtain ⟨count, rfl⟩ := Nat.exists_eq_succ_of_ne_zero (Nat.ne_zero_of_lt enough)
    rw [List.getLast_cons (List.cons_ne_nil next rest)] at ended
    rw [trailingWithin, (linked.index_exact h next).2 link]
    simp only [ih onwards ended (Nat.le_of_succ_le_succ enough)]

theorem closed_of_path
    (unique : ∀ h₁ h₂ before, g.predecessor h₁ = some before → g.predecessor h₂ = some before →
      h₁ = h₂)
    (path : Path g.predecessor (h :: l))
    (ended : ∀ y, g.predecessor y ≠ some ((h :: l).getLast (List.cons_ne_nil h l))) :
    ∀ z ∈ h :: l, ∀ y, g.predecessor y = some z → y ∈ h :: l := by
  induction l generalizing h with
  | nil =>
    intro z here y link
    rw [List.mem_singleton.1 here] at link
    exact absurd link (ended y)
  | cons next rest ih =>
    obtain ⟨first, onwards⟩ := List.isChain_cons_cons.1 path
    rw [List.getLast_cons (List.cons_ne_nil next rest)] at ended
    intro z here y link
    rcases List.mem_cons.1 here with rfl | later
    · rw [unique y next z link first]
      simp
    · exact List.mem_cons_of_mem h (ih onwards ended z later y link)

theorem contains_of_path (path : Path g.predecessor (root :: l)) (known : g.contains root) :
    ∀ h ∈ root :: l, g.contains h := by
  intro h member
  cases leads_of_path path member with
  | refl => exact known
  | step link _ => exact contains_iff_kind?_isSome.2 (kind?_isSome_of_predecessor link)

/-- In a graph without cycles a walk along the index that may list as many elements as there are is
not cut off. -/
theorem strand_trailingWithin (linked : g.Linked) (acyclic : g.Acyclic)
    (enough : g.size ≤ count) (h : Handle) :
    Strand g.predecessor (h :: g.trailingWithin count h) := by
  have path := path_trailingWithin linked count h
  have nodup := acyclic.nodup path
  refine ⟨path, nodup, closed_of_path linked.unique_successor path ?_⟩
  intro y link
  have recorded := (linked.index_exact _ y).2 link
  by_cases short : (g.trailingWithin count h).length < count
  · rw [successor_getLast_trailingWithin short] at recorded
    cases recorded
  -- Otherwise the walk has listed more elements than there are.
  have known : g.contains h := by
    cases walked : g.trailingWithin count h with
    | nil =>
      simp only [walked, List.getLast_singleton] at link
      exact linked.contains_of_predecessor link
    | cons next rest =>
      rw [walked] at path
      exact linked.contains_of_predecessor (List.isChain_cons_cons.1 path).1
  have more := length_le_size nodup (contains_of_path path known)
  rw [List.length_cons] at more
  omega

theorem strand_trailing (linked : g.Linked) (acyclic : g.Acyclic) (h : Handle) :
    Strand g.predecessor (h :: g.trailing h) :=
  strand_trailingWithin linked acyclic (Nat.le_refl g.size) h

/-- Nothing follows the last element of a strand from an element without a predecessor. -/
theorem Strand.ended {predecessor : Handle → Option Handle}
    (strand : Strand predecessor (root :: l)) (top : predecessor root = none) :
    ∀ y, predecessor y ≠ some ((root :: l).getLast (List.cons_ne_nil root l)) := by
  intro y link
  have member := strand.closed _ (List.getLast_mem _) y link
  obtain ⟨front, back, split⟩ := List.append_of_mem member
  rcases List.eq_nil_or_concat front with rfl | ⟨init, x, rfl⟩
  · obtain ⟨rfl, rfl⟩ := List.cons.inj split
    simp [top] at link
  · rw [List.concat_eq_append, List.append_assoc] at split
    have path : Path predecessor (init ++ ([x] ++ y :: back)) := split ▸ strand.path
    have nodup : (init ++ ([x] ++ y :: back)).Nodup := split ▸ strand.nodup
    have previous : predecessor y = some x := path.right_of_append.rel
    have last := Option.some.inj (previous.symm.trans link)
    have final : (root :: l).getLast? = some ((y :: back).getLast (List.cons_ne_nil y back)) := by
      rw [split, List.getLast?_append, List.getLast?_append, List.getLast?_eq_some_getLast]
      rfl
    rw [List.getLast?_eq_some_getLast (List.cons_ne_nil root l), Option.some.injEq] at final
    rw [final] at last
    have apart := (List.nodup_append.1 (List.nodup_append.1 nodup).2.1).2.2
    exact apart x (by simp) _ (List.getLast_mem (List.cons_ne_nil y back)) last

/-- A strand from an element without a predecessor is what the walk along the index lists. -/
theorem trailing_of_strand (linked : g.Linked) (strand : Strand g.predecessor (root :: l))
    (top : g.predecessor root = none) (known : g.contains root) : g.trailing root = l := by
  refine trailingWithin_of_path linked strand.path (strand.ended top) ?_
  have most := length_le_size strand.nodup (contains_of_path strand.path known)
  rw [List.length_cons] at most
  omega

end ChainGraph

end PlanSearch
