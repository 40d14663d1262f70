import PlanSearch.Proofs.Selector.Faults
import PlanSearch.Proofs.Selector.RangesMoves

/-!
# Sizes in trees of selectors

The sizes of sources are put together along a tree of selectors. Products never leave the range of a
word: the largest word stands for those that are too large. The sum of a union can leave it, and so
can ten times the size of a child that a filter looks at. These are the only places: everywhere else
all sizes and calls are in range, whatever the sources report.
-/

namespace PlanSearch

variable {M S : Type}

theorem Count.saturated_eq {n : Nat} (small : n ≤ Count.max) : Count.saturated n = n :=
  Nat.min_eq_left small

namespace Selector

theorem hingesOn_totalSize (sizes : List Nat) :
    HingesOn (sizes.sum ≤ Count.max) sizes.sum (totalSize 0 sizes) := by
  refine ⟨fun small => totalSize_eq_ok.2 ⟨(Nat.zero_add _).symm, .inr small⟩, fun large => ?_⟩
  cases summed : totalSize 0 sizes with
  | error e => exact congrArg Except.error (overflows_totalSize 0 sizes e summed)
  | ok k =>
    obtain ⟨rfl, rfl | small⟩ := totalSize_eq_ok.1 summed
    · exact (large (Nat.zero_le _)).elim
    · exact (large ((Nat.zero_add sizes.sum) ▸ small)).elim

/-! ## Trees -/

/-- A selector that a tree begins with. In every state it reports a size that fits a word, and its
own calls do not leave the range of a word. -/
structure Source (M S C : Type) where
  sel : Selector M S C
  count : S → sel.State → Nat
  size : ∀ s st, sel.size s st = .ok (count s st)
  small : ∀ s st, count s st ≤ Count.max
  breaks : ∀ s, sel.BreaksWith (· ≠ .overflow) s

/-- The numbers below a count. -/
def Source.indices (count : S → UInt64) (isRandom : Bool) : Source M S Nat where
  sel := Selector.indices (fun s => (count s).toNat) isRandom
  count s _ := (count s).toNat
  size _ _ := rfl
  small s _ := Nat.le_of_lt_succ (count s).toNat_lt
  breaks _ := breaksWith_indices _ isRandom

mutual

/-- Selectors over sources, by how they are put together. -/
inductive Tree (M S : Type) : Type → Type 1
  | source {C : Type} (leaf : Source M S C) : Tree M S C
  | recording {C : Type} (child : Tree M S C) (recorder : Recorder M C) : Tree M S C
  | limited {C : Type} (child : Tree M S C) (limit : Nat) : Tree M S C
  | filtering {C : Type} (child : Tree M S C) (accepts : S → C → Bool) : Tree M S C
  | union {C : Type} (children : Forest M S C) (isRandom : Bool) : Tree M S C
  | changes {E V : Type} (entities : Tree M S E) (values : Tree M S V) (isRandom : Bool)
    (move : E → V → Move S) (name : String) : Tree M S (Move S)
  | subChainChanges (v : ChainedVariable S) (runs : Tree M S SubChain) (values : Tree M S Handle)
    (reversingToo isRandom : Bool) : Tree M S (Move S)

/-- The children of a union. -/
inductive Forest (M S : Type) : Type → Type 1
  | nil {C : Type} : Forest M S C
  | cons {C : Type} (first : Tree M S C) (rest : Forest M S C) : Forest M S C

end

mutual

/-- The selector that the tree stands for. -/
def Tree.sel : {C : Type} → Tree M S C → Selector M S C
  | _, .source leaf => leaf.sel
  | _, .recording child recorder => child.sel.recording recorder
  | _, .limited child limit => child.sel.limited limit
  | _, .filtering child accepts => child.sel.filtering accepts
  | _, .union children isRandom => Selector.union children.sels isRandom
  | _, .changes entities values isRandom move name =>
    Selector.changes entities.sel values.sel isRandom move name
  | _, .subChainChanges v runs values reversingToo isRandom =>
    Selector.subChainChanges v runs.sel values.sel reversingToo isRandom

def Forest.sels : {C : Type} → Forest M S C → List (Selector M S C)
  | _, .nil => []
  | _, .cons first rest => first.sel :: rest.sels

end

mutual

/-- The number of candidates that the sources promise, with the largest word in place of sums and
products that are too large. -/
def Tree.count (s : S) : {C : Type} → (t : Tree M S C) → t.sel.State → Nat
  | _, .source leaf, st => leaf.count s st
  | _, .recording child _, st => child.count s st
  | _, .limited child limit, st => min (child.count s st.1) limit
  | _, .filtering child _, st => child.count s st
  | _, .union children _, st => Count.saturated (children.counts s st.2).sum
  | _, .changes entities values _ _ _, st =>
    pairCount (entities.count s st.entities) (values.count s st.values)
  | _, .subChainChanges _ runs values reversingToo _, st =>
    let pairs := pairCount (runs.count s st.1.entities) (values.count s st.1.values)
    if reversingToo then Count.saturated (pairs * 2) else pairs

def Forest.counts (s : S) : {C : Type} → (f : Forest M S C) → States f.sels → List Nat
  | _, .nil, _ => []
  | _, .cons first rest, sts => first.count s sts.1 :: rest.counts s sts.2

end

mutual

/-- No sum of a union is too large. -/
def Tree.Fits (s : S) : {C : Type} → (t : Tree M S C) → t.sel.State → Prop
  | _, .source _, _ => True
  | _, .recording child _, st => child.Fits s st
  | _, .limited child _, st => child.Fits s st.1
  | _, .filtering child _, st => child.Fits s st
  | _, .union children _, st =>
    children.Fit s st.2 ∧ (children.counts s st.2).sum ≤ Count.max
  | _, .changes entities values _ _ _, st =>
    entities.Fits s st.entities ∧ values.Fits s st.values
  | _, .subChainChanges _ runs values _ _, st =>
    runs.Fits s st.1.entities ∧ values.Fits s st.1.values

def Forest.Fit (s : S) : {C : Type} → (f : Forest M S C) → States f.sels → Prop
  | _, .nil, _ => True
  | _, .cons first rest, sts => first.Fits s sts.1 ∧ rest.Fit s sts.2

end

/-- A draw looks at a number that is too large: a union in random order at the sum of its children,
or a filter over candidates that never end at ten times their number. -/
def Tree.Strained (s : S) : {C : Type} → (t : Tree M S C) → t.sel.State → Prop
  | _, .union children true, st => ¬(Tree.union children true).Fits s st
  | _, .filtering child _, st =>
    child.sel.neverEnding = true ∧ ¬(child.Fits s st ∧ child.count s st * 10 ≤ Count.max)
  | _, _, _ => False

mutual

/-- The tree and all that it is put together from. -/
def Tree.nodes : {C : Type} → Tree M S C → List (Σ B, Tree M S B)
  | _, .source leaf => [⟨_, .source leaf⟩]
  | _, .recording child recorder => ⟨_, .recording child recorder⟩ :: child.nodes
  | _, .limited child limit => ⟨_, .limited child limit⟩ :: child.nodes
  | _, .filtering child accepts => ⟨_, .filtering child accepts⟩ :: child.nodes
  | _, .union children isRandom => ⟨_, .union children isRandom⟩ :: children.nodes
  | _, .changes entities values isRandom move name =>
    ⟨_, .changes entities values isRandom move name⟩ :: (entities.nodes ++ values.nodes)
  | _, .subChainChanges v runs values reversingToo isRandom =>
    ⟨_, .subChainChanges v runs values reversingToo isRandom⟩ :: (runs.nodes ++ values.nodes)

def Forest.nodes : {C : Type} → Forest M S C → List (Σ B, Tree M S B)
  | _, .nil => []
  | _, .cons first rest => first.nodes ++ rest.nodes

end

variable {s : S}

/-- What passes from the parts of a tree to the tree holds of all trees. -/
theorem Tree.induction {P : (C : Type) → Tree M S C → Prop} {Q : (C : Type) → Forest M S C → Prop}
    (source : ∀ {C} leaf, P C (.source leaf))
    (recording : ∀ {C} child recorder, P C child → P C (.recording child recorder))
    (limited : ∀ {C} child limit, P C child → P C (.limited child limit))
    (filtering : ∀ {C} child accepts, P C child → P C (.filtering child accepts))
    (union : ∀ {C} children isRandom, Q C children → P C (.union children isRandom))
    (changes : ∀ {E V} entities values isRandom move name, P E entities → P V values →
      P (Move S) (.changes entities values isRandom move name))
    (subChainChanges : ∀ v runs values reversingToo isRandom, P SubChain runs → P Handle values →
      P (Move S) (.subChainChanges v runs values reversingToo isRandom))
    (nil : ∀ {C}, Q C .nil)
    (cons : ∀ {C} first rest, P C first → Q C rest → Q C (.cons first rest)) :
    (∀ C t, P C t) ∧ ∀ C f, Q C f :=
  ⟨fun _ => @Tree.rec M S (fun C t => P C t) (fun C f => Q C f) source recording limited filtering
      union changes subChainChanges nil cons _,
    fun _ => @Forest.rec M S (fun C t => P C t) (fun C f => Q C f) source recording limited
      filtering union changes subChainChanges nil cons _⟩

/-! ## Sizes -/

/-- Whatever the sources report, the number fits a word. -/
theorem Tree.count_le {C : Type} (t : Tree M S C) (st : t.sel.State) : t.count s st ≤ Count.max := by
  refine (Tree.induction (P := fun _ t => ∀ st, t.count s st ≤ Count.max) (Q := fun _ _ => True)
    ?source ?recording ?limited ?filtering ?union ?changes ?subChainChanges trivial
    fun _ _ _ _ => trivial).1 C t st
  case source =>
    intro _ leaf
    exact leaf.small s
  case recording | filtering =>
    intro _ _ _ known
    exact known
  case limited =>
    intro _ _ _ known st
    exact (Nat.min_le_left ..).trans (known st.1)
  case union =>
    intro _ _ _ _ _
    exact Count.saturated_le_max _
  case changes =>
    intro _ _ _ _ _ _ _ _ _ _
    exact Count.saturated_le_max _
  case subChainChanges =>
    intro _ _ _ reversingToo _ _ _ _
    cases reversingToo <;> exact Count.saturated_le_max _

variable (s) in
/-- The size is the number that the sources promise, unless the sum of a union is too large. -/
theorem hingesOn_size_and_sizes :
    (∀ (C : Type) (t : Tree M S C) st,
      HingesOn (t.Fits s st) (t.count s st) (t.sel.size s st)) ∧
    ∀ (C : Type) (f : Forest M S C) sts,
      HingesOn (f.Fit s sts) (f.counts s sts) (States.sizes s f.sels sts) := by
  refine Tree.induction ?source ?recording ?limited ?filtering ?union ?changes ?subChainChanges
    ?nil ?cons
  case source =>
    intro _ leaf st
    exact .of_eq (leaf.size s st)
  case recording | filtering =>
    intro _ _ _ known
    exact known
  case limited =>
    intro _ _ limit known st
    exact (known st.1).map fun k => min k limit
  case union =>
    intro _ children _ known st
    have summed := (known st.2).bind (hingesOn_totalSize (children.counts s st.2))
    refine ⟨fun fits => ?_, summed.2⟩
    -- A sum that fits is not cut off.
    rw [Tree.count, Count.saturated_eq fits.2]
    exact summed.1 fits
  case changes =>
    intro _ _ _ _ _ _ _ knownE knownV st
    exact (knownE st.entities).bind ((knownV st.values).map (pairCount _))
  case subChainChanges =>
    intro _ _ _ reversingToo _ knownR knownV st
    exact (knownR st.1.entities).bind ((knownV st.1.values).map fun n =>
      let pairs := pairCount _ n
      if reversingToo then Count.saturated (pairs * 2) else pairs)
  case nil =>
    intro _ _
    exact .of_eq rfl
  case cons =>
    intro _ _ _ knownF knownR sts
    exact (knownF sts.1).bind ((knownR sts.2).map (List.cons _))

theorem Tree.hingesOn_size {C : Type} (t : Tree M S C) (st : t.sel.State) :
    HingesOn (t.Fits s st) (t.count s st) (t.sel.size s st) :=
  (hingesOn_size_and_sizes s).1 C t st

theorem Forest.hingesOn_sizes {C : Type} (f : Forest M S C) (sts : States f.sels) :
    HingesOn (f.Fit s sts) (f.counts s sts) (States.sizes s f.sels sts) :=
  (hingesOn_size_and_sizes s).2 C f sts

/-! ## Numbers that are looked at -/

/-- Where a number that is looked at is too large, the draw breaks off at once. -/
theorem Tree.Strained.next_eq {C : Type} {t : Tree M S C} {st : t.sel.State}
    (strained : t.Strained s st) (n : Nat) (w : World M) :
    t.sel.next ⟨s, n⟩ st w = .error .overflow := by
  cases t with
  | filtering child accepts =>
    obtain ⟨endless, large⟩ := strained
    have tenfold := HingesOn.bind (k := fun k => Count.checked (k * 10)) (child.hingesOn_size st)
      (.checked (child.count s st * 10))
    exact next_filtering_error accepts endless ⟨s, n⟩ st (tenfold.2 large) w
  | union children isRandom =>
    cases isRandom with
    | true =>
      have size := ((Tree.union children true).hingesOn_size st).2 strained
      exact next_union_error ⟨s, n⟩ size w
    | false => exact strained.elim
  | source | recording | limited | changes | subChainChanges => exact strained.elim

theorem Tree.fits_of_not_strained {C : Type} {children : Forest M S C}
    {st : (Tree.union children true).sel.State}
    (calm : ¬(Tree.union children true).Strained s st) :
    children.Fit s st.2 ∧ (children.counts s st.2).sum ≤ Count.max :=
  Classical.not_not.1 calm

/-- A tree is one of its nodes. -/
theorem Tree.mem_nodes {C : Type} (t : Tree M S C) : (⟨C, t⟩ : Σ B, Tree M S B) ∈ t.nodes := by
  cases t <;> exact List.mem_cons_self ..

/-- Where nothing that is looked at is too large, no draw comes upon a number that is. A node needs
to know this of its children only, so it is shown for all nodes at once. -/
theorem Tree.breaks_of_calm {C : Type} (t : Tree M S C)
    (calm : ∀ node ∈ t.nodes, ∀ st, ¬node.2.Strained s st) :
    ∀ node ∈ t.nodes, node.2.sel.BreaksWith (· ≠ .overflow) s := by
  refine (Tree.induction
    (P := fun _ t => (∀ node ∈ t.nodes, ∀ st, ¬node.2.Strained s st) →
      ∀ node ∈ t.nodes, node.2.sel.BreaksWith (· ≠ .overflow) s)
    (Q := fun _ f => (∀ node ∈ f.nodes, ∀ st, ¬node.2.Strained s st) →
      (∀ node ∈ f.nodes, node.2.sel.BreaksWith (· ≠ .overflow) s) ∧
        ∀ sel ∈ f.sels, sel.BreaksWith (· ≠ .overflow) s)
    ?source ?recording ?limited ?filtering ?union ?changes ?subChainChanges ?nil ?cons).1 C t calm
  case source =>
    intro _ leaf _
    exact List.forall_mem_singleton.2 (leaf.breaks s)
  case recording =>
    intro _ child recorder known calm
    have inner := known (List.forall_mem_cons.1 calm).2
    exact List.forall_mem_cons.2 ⟨breaksWith_recording (inner _ child.mem_nodes) recorder, inner⟩
  case limited =>
    intro _ child limit known calm
    have inner := known (List.forall_mem_cons.1 calm).2
    exact List.forall_mem_cons.2 ⟨breaksWith_limited (inner _ child.mem_nodes) limit, inner⟩
  case filtering =>
    intro _ child accepts known calm
    obtain ⟨here, calm⟩ := List.forall_mem_cons.1 calm
    have inner := known calm
    refine List.forall_mem_cons.2 ⟨breaksWith_filtering (inner _ child.mem_nodes) nofun accepts
      fun endless st => ?_, inner⟩
    obtain ⟨fits, small⟩ := Classical.not_not.1 fun large => here st ⟨endless, large⟩
    exact ⟨_, (child.hingesOn_size st).1 fits, small⟩
  case union =>
    intro _ children isRandom known calm
    obtain ⟨here, calm⟩ := List.forall_mem_cons.1 calm
    obtain ⟨inner, each⟩ := known calm
    refine List.forall_mem_cons.2 ⟨breaksWith_union each isRandom fun random sts => ?_, inner⟩
    subst random
    obtain ⟨fit, small⟩ := fits_of_not_strained (here (0, sts))
    exact ⟨_, (children.hingesOn_sizes sts).1 fit, (hingesOn_totalSize _).1 small⟩
  case changes =>
    intro _ _ entities values isRandom move name knownE knownV calm
    obtain ⟨calmE, calmV⟩ := List.forall_mem_append.1 (List.forall_mem_cons.1 calm).2
    have innerE := knownE calmE
    have innerV := knownV calmV
    exact List.forall_mem_cons.2 ⟨breaksWith_changes (innerE _ entities.mem_nodes)
      (innerV _ values.mem_nodes) nofun isRandom move name, List.forall_mem_append.2 ⟨innerE, innerV⟩⟩
  case subChainChanges =>
    intro v runs values reversingToo isRandom knownR knownV calm
    obtain ⟨calmR, calmV⟩ := List.forall_mem_append.1 (List.forall_mem_cons.1 calm).2
    have innerR := knownR calmR
    have innerV := knownV calmV
    exact List.forall_mem_cons.2 ⟨breaksWith_subChainChanges (innerR _ runs.mem_nodes)
      (innerV _ values.mem_nodes) nofun v reversingToo isRandom,
      List.forall_mem_append.2 ⟨innerR, innerV⟩⟩
  case nil =>
    intro _ _
    exact ⟨List.forall_mem_nil _, List.forall_mem_nil _⟩
  case cons =>
    intro _ first rest knownF knownR calm
    obtain ⟨calmF, calmR⟩ := List.forall_mem_append.1 calm
    have innerF := knownF calmF
    obtain ⟨innerR, each⟩ := knownR calmR
    exact ⟨List.forall_mem_append.2 ⟨innerF, innerR⟩,
      List.forall_mem_cons.2 ⟨innerF _ first.mem_nodes, each⟩⟩

/-! ## Picks and refusals -/

/-- A candidate of the child with the given index or, if it has none, of the first other child that
has one. -/
def Forest.askFirst {C : Type} (children : Forest M S C) (i : Nat) (set : Setting S)
    (st : (Tree.union children true).sel.State) :
    Draw M (Option C × (Tree.union children true).sel.State) := do
  let (c, sts) ← States.nextAmong set children.sels
    (i :: (List.range children.sels.length).filter (· != i)) st.2
  return (c, st.1, sts)

/-- A union that can sum up its children picks one of those that have candidates. -/
theorem Forest.next_eq_askFirst {C : Type} {children : Forest M S C}
    {st : (Tree.union children true).sel.State} (calm : ¬(Tree.union children true).Strained s st)
    {counts : List Nat} (known : children.counts s st.2 = counts) (n : Nat) (w : World M) :
    counts.sum = 0 ∧ (Tree.union children true).sel.next ⟨s, n⟩ st w = .ok ((none, st), w) ∨
      ∃ r g k, w.generator.below counts.sum = .ok (r, g) ∧
        counts[childAt counts r]? = some k ∧ 0 < k ∧
        (Tree.union children true).sel.next ⟨s, n⟩ st w =
          children.askFirst (childAt counts r) ⟨s, n⟩ st { w with generator := g } := by
  subst known
  obtain ⟨fit, small⟩ := Tree.fits_of_not_strained calm
  have sized := (children.hingesOn_sizes st.2).1 fit
  have summed := (hingesOn_totalSize (children.counts s st.2)).1 small
  by_cases empty : (children.counts s st.2).sum = 0
  · exact .inl ⟨empty, congrFun (next_union_empty ⟨s, n⟩ sized summed empty) w⟩
  · obtain ⟨⟨r, g⟩, drawn⟩ := Random.Generator.below_eq empty w.generator
    obtain ⟨k, picked, positive⟩ := exists_of_childAt (Random.Generator.lt_of_below drawn)
    refine .inr ⟨r, g, k, drawn, picked, positive, ?_⟩
    have picks := congrFun (next_union_picks ⟨s, n⟩ sized summed empty) w
    refine picks.trans (draw_bind_eq ?_)
    rw [Draw.below, Draw.generate, drawn]

/-- So many refusals in a row count as the end of candidates that never end. -/
def Tree.refusals {C : Type} (child : Tree M S C) (s : S) (st : child.sel.State) : Nat :=
  max (child.count s st * 10) 1

theorem Tree.next_filtering_calm {C : Type} {child : Tree M S C} {accepts : S → C → Bool}
    (endless : child.sel.neverEnding = true) {st : child.sel.State}
    (calm : ¬(Tree.filtering child accepts).Strained s st) (n : Nat) :
    (Tree.filtering child accepts).sel.next ⟨s, n⟩ st =
      child.sel.nextAccepted accepts ⟨s, n⟩ (some (child.refusals s st)) n 0 st := by
  obtain ⟨fits, small⟩ := Classical.not_not.1 fun large => calm ⟨endless, large⟩
  exact next_filtering_endless accepts endless ⟨s, n⟩ st ((child.hingesOn_size st).1 fits) small

/-- Whatever the sources of a tree report, its size is the number that they promise, which fits a
word, unless the sum of a union is too large. A draw breaks off at once where it looks at a number
that is too large. If no draw from the tree or from within it looks at one, then none comes upon one.
A union in random order that does not picks one of the children that have candidates. A filter over
candidates that never end that does not gives up after ten times as many refusals as there are
candidates. -/
theorem Tree.overflow_where_strained {C : Type} (t : Tree M S C) (s : S) :
    (∀ st, t.count s st ≤ Count.max ∧
      HingesOn (t.Fits s st) (t.count s st) (t.sel.size s st)) ∧
    (∀ st, t.Strained s st → ∀ n w, t.sel.next ⟨s, n⟩ st w = .error .overflow) ∧
    ((∀ node ∈ t.nodes, ∀ st, ¬node.2.Strained s st) →
      ∀ node ∈ t.nodes, ∀ n st w, node.2.sel.next ⟨s, n⟩ st w ≠ .error .overflow) ∧
    (∀ (children : Forest M S C) st counts, ¬(Tree.union children true).Strained s st →
      children.counts s st.2 = counts → ∀ n w,
        counts.sum = 0 ∧ (Tree.union children true).sel.next ⟨s, n⟩ st w = .ok ((none, st), w) ∨
        ∃ r g k, w.generator.below counts.sum = .ok (r, g) ∧
          counts[childAt counts r]? = some k ∧ 0 < k ∧
          (Tree.union children true).sel.next ⟨s, n⟩ st w =
            children.askFirst (childAt counts r) ⟨s, n⟩ st { w with generator := g }) ∧
    ∀ (child : Tree M S C) accepts st, child.sel.neverEnding = true →
      ¬(Tree.filtering child accepts).Strained s st → ∀ n w,
        (∀ c st' w', (Tree.filtering child accepts).sel.next ⟨s, n⟩ st w = .ok ((c, st'), w') →
          c = none ∧ Refused child.sel accepts ⟨s, n⟩ st w (child.refusals s st) st' w' ∨
          ∃ k < child.refusals s st, ∃ st₁ w₁, Refused child.sel accepts ⟨s, n⟩ st w k st₁ w₁ ∧
            child.sel.next ⟨s, n⟩ st₁ w₁ = .ok ((c, st'), w') ∧ ∀ x ∈ c, accepts s x = true) ∧
        (child.refusals s st ≤ n → ∀ e,
          (Tree.filtering child accepts).sel.next ⟨s, n⟩ st w = .error e →
          ∃ k < child.refusals s st, ∃ st₁ w₁, Refused child.sel accepts ⟨s, n⟩ st w k st₁ w₁ ∧
            child.sel.next ⟨s, n⟩ st₁ w₁ = .error e) := by
  refine ⟨fun st => ⟨t.count_le st, t.hingesOn_size st⟩, fun _ strained => strained.next_eq,
    fun calm node member n st w failed => ?_, fun _ _ _ calm known => Forest.next_eq_askFirst calm known,
    fun child accepts st endless calm n w => ?_⟩
  · exact (t.breaks_of_calm calm node member).next n st w _ failed rfl
  · rw [next_filtering_calm endless calm]
    have positive : 0 < child.refusals s st := Nat.lt_of_lt_of_le Nat.one_pos (Nat.le_max_right ..)
    exact ⟨fun c st' w' ran => Refused.start.of_nextAccepted positive ran,
      fun enough e failed => Refused.start.of_nextAccepted_error positive (by omega) failed⟩

namespace Tree

/-- Draws of the numbers below a count. -/
def draws (count : UInt64) : Tree Unit Unit Nat := .source (.indices (fun _ => count) true)

/-- Draws from two ranges of numbers. -/
def drawsOfBoth (m n : UInt64) : Forest Unit Unit Nat := .cons (draws m) (.cons (draws n) .nil)

variable {m n : UInt64}

theorem fits_drawsOfBoth (st : (union (drawsOfBoth m n) true).sel.State) :
    (union (drawsOfBoth m n) true).Fits () st ↔ m.toNat + n.toNat ≤ Count.max :=
  ⟨fun fits => fits.2, fun small => ⟨⟨trivial, trivial, trivial⟩, small⟩⟩

theorem strained_filtering_draws {accepts : Unit → Nat → Bool}
    (st : (filtering (draws m) accepts).sel.State) :
    (filtering (draws m) accepts).Strained () st ↔ Count.max < m.toNat * 10 :=
  ⟨fun strained => Nat.lt_of_not_le fun fits => strained.2 ⟨trivial, fits⟩,
    fun large => ⟨rfl, fun fits => Nat.not_le_of_lt large fits.2⟩⟩

/-- Two halves of all words are one word too many, and ten times one half is too large as well. Of
none and two numbers, the two are picked. If both are refused, twenty draws are enough. -/
theorem overflow_where_strained_halves :
    (∀ st, (union (drawsOfBoth 0x8000000000000000 0x8000000000000000) true).sel.size () st =
      .error .overflow) ∧
    (∀ st n w, (union (drawsOfBoth 0x8000000000000000 0x8000000000000000) true).sel.next
      ⟨(), n⟩ st w = .error .overflow) ∧
    (∀ st n w, (filtering (draws 0x8000000000000000) fun _ _ => true).sel.next ⟨(), n⟩ st w =
      .error .overflow) ∧
    (∀ st n w, ∃ w₁, (union (drawsOfBoth 0 2) true).sel.next ⟨(), n⟩ st w =
      Forest.askFirst _ 1 ⟨(), n⟩ st w₁) ∧
    (∀ st n w, (filtering (draws 2) fun _ _ => false).sel.next ⟨(), n⟩ st w ≠ .error .overflow) ∧
    ∀ st n w, 20 ≤ n → ∃ st' w',
      (filtering (draws 2) fun _ _ => false).sel.next ⟨(), n⟩ st w = .ok ((none, st'), w') := by
  obtain ⟨sizes, strains, -, picks, -⟩ :=
    overflow_where_strained (union (drawsOfBoth 0x8000000000000000 0x8000000000000000) true) ()
  obtain ⟨-, strains', -, -, -⟩ :=
    overflow_where_strained (filtering (draws 0x8000000000000000) fun _ _ => true) ()
  obtain ⟨-, -, inRange, -, givesUp⟩ :=
    overflow_where_strained (filtering (draws 2) fun _ _ => false) ()
  have sum (st) : ¬(union (drawsOfBoth 0x8000000000000000 0x8000000000000000) true).Fits () st :=
    (fits_drawsOfBoth st).not.2 (by decide)
  have calm (st) : ¬(filtering (draws 2) fun _ _ => false).Strained () st :=
    (strained_filtering_draws st).not.2 (by decide)
  refine ⟨fun st => (sizes st).2.2 (sum st), fun st => strains st (sum st),
    fun st => strains' st ((strained_filtering_draws st).2 (by decide)), fun st n w => ?_,
    fun st n w => ?_, fun st n w enough => ?_⟩
  · have small := (fits_drawsOfBoth (m := 0) (n := 2) st).2 (by decide)
    rcases picks (drawsOfBoth 0 2) st [0, 2] (Classical.not_not.2 small) rfl n w with
      ⟨empty, -⟩ | ⟨r, g, k, drawn, -, -, asked⟩
    · cases empty
    · have second : childAt [0, 2] r = 1 := by
        have below : r < 2 := Random.Generator.lt_of_below drawn
        simp [childAt, below]
      rw [second] at asked
      exact ⟨_, asked⟩
  · exact inRange (List.forall_mem_cons.2 ⟨calm, List.forall_mem_singleton.2 fun _ => id⟩)
      ⟨_, filtering (draws 2) fun _ _ => false⟩ (mem_nodes _) n st w
  · obtain ⟨ends, fails⟩ := givesUp (draws 2) (fun _ _ => false) st rfl (calm st) n w
    cases ran : (filtering (draws 2) fun _ _ => false).sel.next ⟨(), n⟩ st w with
    | ok r =>
      obtain ⟨⟨c, st'⟩, w'⟩ := r
      rcases ends c st' w' ran with ⟨rfl, -⟩ | ⟨_, -, _, _, -, -, accepted⟩
      · exact ⟨_, _, rfl⟩
      · cases c with
        | none => exact ⟨_, _, rfl⟩
        | some x => cases accepted x rfl
    | error e =>
      obtain ⟨_, -, st₁, w₁, -, failed⟩ := fails enough e ran
      have never : (draws 2).sel.BreaksWith (fun _ => False) () := breaksWith_indices _ true
      exact (never.next n st₁ w₁ e failed).elim

end Tree

end Selector

end PlanSearch
