import PlanSearch.Proofs.Lockstep.Gait
import PlanSearch.Proofs.Selector.Bounds
import PlanSearch.Proofs.Selector.Sorted
import PlanSearch.Selector.Roulette

/-!
# Gaits of selectors of entities, values and runs
-/

namespace PlanSearch

open Assembly

namespace Selector

variable {S C : Type} {Same : S → S → Prop} {faults : Fault → Prop} {good : C → Prop}
variable {range : Nat → Prop} {own : Set Slot} {cyc : Prop}

/-! ## Candidates from the solution -/

/-- The candidates of the solution are the same if the solutions show the same ones. -/
def sourceGait (items : S → Array C) (isRandom : Bool)
    (sees : ∀ s s', Same s s' → items s = items s') (areGood : ∀ s, ∀ c ∈ items s, good c) :
    (source items isRandom : Selector Memory S C).Gait Same good range faults ∅ cyc where
  Rel bond i j := bond.IsPlaced → i = j
  start _ _ := rfl
  idle _ _ placed := placed.elim
  loose _ placed := placed.elim
  size _ same _ := by
    change Except.ok _ = Except.ok _ ∧ Breaks faults (.ok _)
    dsimp only
    rw [sees _ _ same]
    exact ⟨rfl, .ok _⟩
  handle n leads _ related _ := by
    rw [Hook.leaves_empty]
    exact .pure fun placed => related (leads.placed placed)
  restart n _ _ _ _ := .pure fun _ => rfl
  next {bond bond' s s' i j K} n begins same related _ := by
    obtain rfl : i = j := related begins.placed
    have yields (k : Nat) : ∀ c ∈ (items s')[k]?, good c := fun c here =>
      areGood s' c (Array.mem_of_getElem? here)
    simp only [source, enumerated, sees s s' same]
    split
    · split
      · exact .pure ⟨rfl, fun _ => rfl, by rintro _ ⟨⟩⟩
      · rename_i filled
        refine (Together.below filled).bind fun x y drawn => ?_
        obtain rfl : x = y := drawn
        exact .pure ⟨rfl, fun _ => rfl, yields x⟩
    · split <;> rename_i found
      · exact .pure ⟨rfl, fun _ => rfl, by rintro _ ⟨⟩⟩
      · exact .pure ⟨rfl, fun _ => rfl, found ▸ yields i⟩

theorem steady_source (items : S → Array C) {isRandom : Bool} (random : isRandom = true)
    (sees : ∀ s s', Same s s' → items s = items s') (areGood : ∀ s, ∀ c ∈ items s, good c) :
    (sourceGait items isRandom sees areGood :
      (source items isRandom).Gait _ _ range faults _ cyc).Steady := by
  subst random
  intro s s' i j K n same _ _
  simp only [source, enumerated, sees s s' same, if_true]
  split
  · exact .pure ⟨rfl, False.elim, by rintro _ ⟨⟩⟩
  · rename_i filled
    refine (Together.below filled).bind fun x y drawn => ?_
    obtain rfl : x = y := drawn
    exact .pure ⟨rfl, False.elim, fun c here => areGood s' c (Array.mem_of_getElem? here)⟩

/-! ## Kept lists -/

/-- What is done with a kept list is the same about solutions of the same looks, nothing but allowed
faults comes of it, and no candidate is added. -/
structure Arrangement.Even (how : Arrangement Memory S C C) (Same : S → S → Prop)
    (range : Nat → Prop) (faults : Fault → Prop) : Prop where
  sees : ∀ s s', Same s s' → how.arrange s = how.arrange s'
  arrange : ∀ s candidates, Breaks faults (how.arrange s candidates)
  among : ∀ {s candidates items}, how.arrange s candidates = .ok items → ∀ c ∈ items, c ∈ candidates
  shuffle : ∀ {K : Set Slot} items, Together range faults K K (how.shuffle items)
    (how.shuffle items) fun x y => x = y ∧ ∀ c ∈ x, c ∈ items
  pick : ∀ {K : Set Slot} items cursor, Together range faults K K (how.pick items cursor)
    (how.pick items cursor) fun x y => x = y ∧ ∀ c ∈ x, c ∈ items

variable {child : Selector Memory S C}

/-- How the states of a selector over a kept list are bound. The list is dropped when a phase
ends. -/
structure KeptTied (gait : child.Gait Same good range faults own cyc) (bond : Bond)
    (a b : Kept child C) : Prop where
  child : gait.Rel bond.inner a.child b.child
  items : a.items = b.items
  filled : a.filled = b.filled
  areGood : ∀ c ∈ a.items, good c
  dropped : bond.IsIdle → a.items = #[] ∧ a.filled = false
  cursor : bond.IsPlaced → a.cursor = b.cursor

section Keeping

variable {how : Arrangement Memory S C C} {bond bond' : Bond} {s s' : S}
variable {gait : child.Gait Same good range faults own cyc} {a b : Kept child C} {K : Set Slot}

theorem forall_mem_nothing : ∀ c ∈ (#[] : Array C), good c :=
  fun c member => absurd member (Array.not_mem_empty c)

/-- Lists that are made of the same candidates are the same. -/
theorem KeptTied.fill (even : how.Even Same range faults) (exhausted : faults .exhausted) (n : Nat)
    (begins : bond.Begins cyc bond') (same : Same s s') (sub : own ⊆ K)
    (tied : KeptTied gait bond a b) :
    Together range faults K K (a.fill how ⟨s, n⟩) (b.fill how ⟨s', n⟩) (KeptTied gait bond) := by
  unfold Kept.fill
  have related := tied.child
  rw [begins.inner_self] at related
  refine (gait.pass exhausted n begins same sub related).bind fun x y passed => ?_
  obtain ⟨found, c⟩ := x
  obtain ⟨found', d⟩ := y
  obtain ⟨rfl, related, areGood⟩ : found = found' ∧ gait.Rel bond c d ∧ ∀ c ∈ found, good c := passed
  dsimp only
  rw [← even.sees s s' same]
  refine (Together.lift (even.arrange s found)).bind fun x y ⟨arranged, made⟩ => ?_
  obtain rfl : x = y := arranged
  refine .pure ⟨?_, rfl, rfl, fun c member => areGood c (even.among made c member), fun idle => ?_,
    tied.cursor⟩
  · rw [begins.inner_self]
    exact related
  · cases begins <;> cases idle

theorem KeptTied.drop (tied : KeptTied gait bond a b) : KeptTied gait bond a.drop b.drop :=
  ⟨tied.child, rfl, rfl, forall_mem_nothing, fun _ => ⟨rfl, rfl⟩, tied.cursor⟩

/-- Picks that are the same leave the states bound as they were. -/
theorem KeptTied.next {cache : CacheType} {n : Nat} (tied : KeptTied gait bond a b)
    (even : how.Even Same range faults)
    (picks : how.pick b.items b.cursor = how.pick a.items a.cursor) :
    Together range faults K K ((child.keeping cache how).next ⟨s, n⟩ a)
      ((child.keeping cache how).next ⟨s', n⟩ b)
      fun x y => x.1 = y.1 ∧ KeptTied gait bond x.2 y.2 ∧ ∀ c ∈ x.1, good c := by
  change Together range faults K K (how.pick a.items a.cursor >>= _)
    (how.pick b.items b.cursor >>= _) _
  rw [picks]
  refine (even.pick a.items a.cursor).bind fun x y same => ?_
  obtain ⟨rfl, among⟩ := same
  have isGood : ∀ c ∈ x, good c := fun c here => tied.areGood c (among c here)
  cases x with
  | none => exact .pure ⟨rfl, tied, isGood⟩
  | some c =>
    exact .pure ⟨rfl, ⟨tied.child, tied.items, tied.filled, tied.areGood, tied.dropped,
      fun placed => congrArg Nat.succ (tied.cursor placed)⟩, isGood⟩

/-- A kept list is the same if the candidates that it is made of are. -/
def keepingGait (gait : child.Gait Same good range faults own cyc) (cache : CacheType)
    (even : how.Even Same range faults) (exhausted : faults .exhausted) :
    (child.keeping cache how).Gait Same good range faults own cyc where
  Rel := KeptTied gait
  start new := ⟨gait.start (Bond.inner_new new), rfl, rfl, forall_mem_nothing,
    fun _ => ⟨rfl, rfl⟩, fun _ => rfl⟩
  idle h h' := by
    refine ⟨gait.idle h.child h'.child, ?_, ?_, h.areGood, fun _ => h.dropped trivial, False.elim⟩
    · rw [(h.dropped trivial).1, ← h'.items, (h'.dropped trivial).1]
    · rw [(h.dropped trivial).2, ← h'.filled, (h'.dropped trivial).2]
  loose h := ⟨h.child, h.items, h.filled, h.areGood, False.elim, False.elim⟩
  size {bond s s' a b} busy same tied := by
    change (if a.filled then Except.ok a.items.size else child.size s a.child) =
        (if b.filled then Except.ok b.items.size else child.size s' b.child) ∧
      Breaks faults (if a.filled then Except.ok a.items.size else child.size s a.child)
    obtain ⟨size, breaks⟩ := gait.size (Bond.not_isIdle_inner busy) same tied.child
    rw [← tied.filled, ← tied.items, ← size]
    refine ⟨rfl, ?_⟩
    split
    · exact .ok _
    · exact breaks
  handle {bond bond' s s' a b K hook} n leads same tied sub := by
    have related := tied.child
    rw [leads.inner.1] at related
    refine (gait.handle n leads same related sub).bind fun x y related => ?_
    rw [← leads.inner.2] at related
    by_cases ended : hook = .phaseEnded
    · subst ended
      exact .pure ⟨related, rfl, rfl, forall_mem_nothing, fun _ => ⟨rfl, rfl⟩, fun placed =>
        tied.cursor (leads.placed placed)⟩
    · rw [Hook.leaves, if_neg ended]
      obtain ⟨bond'', begins⟩ := leads.begins ended
      have kept : KeptTied gait bond' { a with child := x } { b with child := y } :=
        ⟨related, tied.items, tied.filled, tied.areGood,
          fun idle => absurd (leads.phaseEnded idle) ended,
          fun placed => tied.cursor (leads.placed placed)⟩
      have filled := kept.fill even exhausted n begins same (sub ended)
      have dropped := kept.drop
      cases hook <;> cases cache <;>
        first | exact filled | exact .pure dropped | exact .pure kept
  restart {bond bond' s s' a b K} n begins same tied sub := by
    change Together range faults K K (do
        let items ← how.shuffle a.items
        return { a with items, cursor := 0 }) (do
        let items ← how.shuffle b.items
        return { b with items, cursor := 0 }) _
    rw [← tied.items]
    refine (even.shuffle a.items).bind fun x y ⟨shuffled, among⟩ => ?_
    obtain rfl : x = y := shuffled
    refine .pure ⟨?_, rfl, tied.filled, fun c member => tied.areGood c (among c member),
      fun idle => absurd idle begins.not_isIdle, fun _ => rfl⟩
    rw [begins.inner, ← begins.inner_self]
    exact tied.child
  next {bond bond' s s' a b K} n begins same tied sub := by
    exact tied.next even (by rw [tied.items, tied.cursor begins.placed])

/-- Picks that do not depend on the place in a pass are the same all the time. -/
theorem steady_keeping (cache : CacheType) (even : how.Even Same range faults)
    (exhausted : faults .exhausted) (free : ∀ items i j, how.pick items i = how.pick items j) :
    (keepingGait gait cache even exhausted).Steady := by
  intro s s' a b K n same tied sub
  exact KeptTied.next tied even (tied.items ▸ free ..)

end Keeping

/-! ## Orders -/

/-- Below a total weight a number can be drawn, or there is nothing to draw. -/
def Drawable (faults : Fault → Prop) (total : Float) : Prop :=
  total ≤ 0.0 ∨ ∀ g : Random.Generator, Breaks faults (g.belowFloat total)

theorem even_asTheyCome (cache : CacheType) (isRandom : Bool) :
    (Arrangement.asTheyCome cache isRandom : Arrangement Memory S C C).Even Same range faults := by
  refine ⟨fun _ _ _ => rfl, fun _ _ => .ok _, fun made => ?_, fun _ => .pure ⟨rfl, fun _ => id⟩,
    fun {K} items cursor => ?_⟩
  · cases made
    exact fun _ => id
  have listed (k : Nat) : ∀ c ∈ items[k]?, c ∈ items := fun _ => Array.mem_of_getElem?
  cases isRandom with
  | false => exact .pure ⟨rfl, listed cursor⟩
  | true =>
    change Together range faults K K (if items.isEmpty then pure none else _)
      (if items.isEmpty then pure none else _) _
    split
    · exact .pure ⟨rfl, by rintro _ ⟨⟩⟩
    · rename_i filled
      refine (Together.below (by simpa using filled)).bind fun x y drawn => ?_
      obtain rfl : x = y := drawn
      exact .pure ⟨rfl, listed x⟩

section Orders

variable (gait : child.Gait Same good range faults own cyc) (exhausted : faults .exhausted)
variable {cache : CacheType} {sel : Selector Memory S C}
include gait exhausted

theorem gait_caching {isRandom : Bool} (made : child.caching cache isRandom = .ok sel) :
    ∃ gait : sel.Gait Same good range faults own cyc, isRandom = true → gait.Steady := by
  obtain ⟨-, -, made⟩ := andThen_eq_ok.1 made
  obtain rfl := Except.ok.inj made
  refine ⟨keepingGait gait cache (even_asTheyCome cache isRandom) exhausted, fun random => ?_⟩
  subst random
  exact steady_keeping cache _ exhausted fun _ _ _ => rfl

theorem gait_shuffling (made : child.shuffling cache = .ok sel) :
    Nonempty (sel.Gait Same good range faults own cyc) := by
  obtain ⟨-, -, made⟩ := andThen_eq_ok.1 made
  obtain rfl := Except.ok.inj made
  refine ⟨keepingGait gait cache ⟨fun _ _ _ => rfl, fun _ _ => .ok _, fun made => ?_,
    fun items => ?_, fun items cursor => .pure ⟨rfl, fun _ => Array.mem_of_getElem?⟩⟩ exhausted⟩
  · cases made
    exact fun _ => id
  · refine (Together.generate fun g => ?_).mono fun x y ⟨same, g, g', shuffled⟩ =>
      ⟨same, fun c here => ?_⟩
    · obtain ⟨r, shuffled⟩ := g.shuffle_eq items
      rw [shuffled]
      exact .ok r
    · exact (Random.Generator.perm_of_shuffle shuffled).mem_iff.1 here

theorem gait_sorting {key : S → C → Except Fault Float} {direction : SortDirection}
    (sees : ∀ s s', Same s s' → key s = key s') (breaks : ∀ s c, Breaks faults (key s c))
    (made : child.sorting cache key direction = .ok sel) :
    Nonempty (sel.Gait Same good range faults own cyc) := by
  obtain ⟨-, -, made⟩ := andThen_eq_ok.1 made
  obtain rfl := Except.ok.inj made
  refine ⟨keepingGait gait cache ⟨fun s s' same => ?_, fun s candidates => ?_,
    fun {s candidates items} made c here => ?_, fun _ => .pure ⟨rfl, fun _ => id⟩,
    fun items cursor => .pure ⟨rfl, fun _ => Array.mem_of_getElem?⟩⟩ exhausted⟩
  · dsimp only
    rw [sees s s' same]
  · exact (Breaks.mapM fun c _ => (breaks s c).bind fun _ _ => .ok _).bind fun _ _ => .ok _
  · obtain ⟨keyed, measured, made⟩ := bind_eq_ok.1 made
    cases made
    have sorted := (perm_sortByKey direction keyed).map Prod.snd
    rw [map_snd_keyed measured] at sorted
    exact Array.mem_toList_iff.1 (sorted.mem_iff.1 (List.mem_toArray.1 here))

end Orders

/-! ## Weights -/

/-- How the states of a selector that draws by weight are bound. The totals are dropped with the list
that they belong to. A place in a pass means nothing to the list. -/
structure WeighingTied (gait : child.Gait Same good range faults own cyc) (bond : Bond)
    (a b : Weighing child Float) : Prop where
  kept : KeptTied gait bond.inner a.kept b.kept
  totals : a.totals = b.totals
  drawable : S → Drawable faults (totalWeight a.totals)
  dropped : bond.IsIdle → a.totals = #[]

section Weighted

variable (gait : child.Gait Same good range faults own cyc) (exhausted : faults .exhausted)
variable (cache : CacheType) {weight : S → C → Except Fault Float}

/-- The list that candidates are drawn from. -/
def keptGait : (child.keeping cache (.asTheyCome cache false)).Gait Same good range faults own cyc :=
  keepingGait gait cache (even_asTheyCome cache false) exhausted

variable {gait cache} in
/-- A draw depends on nothing but the list and its totals. -/
theorem WeighingTied.next {bond : Bond} {s s' : S} {a b : Weighing child Float} {K : Set Slot} (n : Nat)
    (tied : WeighingTied gait bond a b) :
    Together range faults K K ((child.weighted .floats cache weight).next ⟨s, n⟩ a)
      ((child.weighted .floats cache weight).next ⟨s', n⟩ b)
      fun x y => x.1 = y.1 ∧ WeighingTied gait bond x.2 y.2 ∧ ∀ c ∈ x.1, good c := by
  simp only [weighted]
  rw [← tied.totals, ← tied.kept.items]
  split
  · exact .pure ⟨rfl, tied, by rintro _ ⟨⟩⟩
  · rename_i positive
    refine (Together.generate fun g => (tied.drawable s).resolve_left positive g).bind
      fun x y ⟨drawn, _⟩ => ?_
    obtain rfl : x = y := drawn
    exact .pure ⟨rfl, tied, fun c here => tied.kept.areGood c (Array.mem_of_getElem? here)⟩

variable (sees : ∀ s s', Same s s' → weight s = weight s')
variable (breaks : ∀ s c, Breaks faults (weight s c))
variable (drawable : ∀ s candidates totals, totalsOf (weight s) candidates = .ok totals →
  Drawable faults (totalWeight totals))

/-- Totals are the same if the candidates are and weigh the same. -/
def weightedGait : (child.weighted .floats cache weight).Gait Same good range faults own cyc where
  Rel := WeighingTied gait
  start new := ⟨(keptGait gait exhausted cache).start (Bond.inner_new new), rfl,
    fun s => drawable s #[] #[] rfl, fun _ => rfl⟩
  idle h h' := by
    refine ⟨(keptGait gait exhausted cache).idle h.kept h'.kept, ?_, h.drawable,
      fun _ => h.dropped trivial⟩
    rw [h.dropped trivial, ← h'.totals, h'.dropped trivial]
  loose h := ⟨h.kept, h.totals, h.drawable, False.elim⟩
  size busy same tied :=
    (keptGait gait exhausted cache).size (Bond.not_isIdle_inner busy) same tied.kept
  handle {bond bond' s s' a b K hook} n leads same tied sub := by
    have kept := tied.kept
    rw [leads.inner.1] at kept
    refine ((keptGait gait exhausted cache).handle n leads same kept sub).bind
      fun x y (kept : KeptTied gait bond' x y) => ?_
    rw [← leads.inner.2] at kept
    have none : S → Drawable faults (totalWeight #[]) := fun s => drawable s #[] #[] rfl
    by_cases ended : hook = .phaseEnded
    · subst ended
      exact .pure ⟨kept, rfl, none, fun _ => rfl⟩
    · have busy (idle : bond'.IsIdle) : False := ended (leads.phaseEnded idle)
      have unchanged : WeighingTied gait bond' { a with kept := x } { b with kept := y } :=
        ⟨kept, tied.totals, tied.drawable, fun idle => (busy idle).elim⟩
      have weighed {L : Set Slot} : Together range faults L L (do
          return { kept := x, totals := ← Draw.lift (totalsOf (weight s) x.items) }) (do
          return { kept := y, totals := ← Draw.lift (totalsOf (weight s') y.items) })
          (WeighingTied gait bond') := by
        rw [← kept.items, ← sees s s' same]
        refine (Together.lift ?_).bind fun t u ⟨totals, made⟩ => ?_
        · exact (Breaks.mapM fun c _ => breaks s c).bind fun _ _ => .ok _
        · exact .pure ⟨kept, totals, fun _ => drawable s x.items t made, fun idle => (busy idle).elim⟩
      have stepEnded : WeighingTied gait bond'
          { kept := x, totals := if x.filled then a.totals else #[] }
          { kept := y, totals := if y.filled then b.totals else #[] } := by
        rw [← kept.filled, ← tied.totals]
        refine ⟨kept, rfl, ?_, fun idle => (busy idle).elim⟩
        dsimp only
        split
        · exact tied.drawable
        · exact none
      cases hook <;> cases cache <;>
        first | exact absurd rfl ended | exact weighed | exact .pure stepEnded | exact .pure unchanged
  restart {bond bond' s s' a b K} n begins same tied sub := by
    have kept := tied.kept
    rw [begins.inner_self, ← begins.inner] at kept
    exact .pure ⟨kept, tied.totals, tied.drawable, fun idle => absurd idle begins.not_isIdle⟩
  next n _ _ tied _ := tied.next n

include gait exhausted sees breaks drawable

variable {cache} in
/-- Candidates are drawn by weight all the time, whatever was drawn before in a pass. -/
theorem gait_probability {sel : Selector Memory S C} (made : child.probability cache weight = .ok sel) :
    ∃ gait : sel.Gait Same good range faults own cyc, gait.Steady := by
  obtain ⟨-, -, made⟩ := andThen_eq_ok.1 made
  obtain rfl := Except.ok.inj made
  exact ⟨weightedGait gait exhausted cache sees breaks drawable, fun n _ tied _ => tied.next n⟩

end Weighted

/-! ## Runs

The chains that were read are the same, and there are none between phases. -/

section Runs

open SubChains

theorem together_drawRun {K : Set Slot} (overflow : faults .overflow) (minimum maximum : Nat)
    (chains : List (List Handle)) :
    Together range faults K K (drawRun minimum maximum chains) (drawRun minimum maximum chains)
      (· = ·) := by
  unfold drawRun
  split
  · exact .pure rfl
  · rename_i filled
    have some : chains.length ≠ 0 := by simpa using filled
    refine (Together.below some).bind fun x y drawn => ?_
    obtain rfl : x = y := drawn
    have counted (length : Nat) : Breaks faults (count length minimum maximum) := fun e large =>
      overflows_count _ _ _ e large ▸ overflow
    refine (Together.lift (counted _)).bind fun total y ⟨found, _⟩ => ?_
    obtain rfl : total = y := found
    split
    · exact .pure rfl
    · rename_i positive
      refine (Together.below positive).bind fun x y drawn => ?_
      obtain rfl : x = y := drawn
      exact .pure rfl

/-- How the states of a selector of runs are bound. -/
structure ReadTied (bond : Bond) (a b : Reading) : Prop where
  chains : a.chains = b.chains
  dropped : bond.IsIdle → a.chains = []
  place : bond.IsPlaced → a.place = b.place

variable {v : ChainedVariable S} {minimum maximum : Nat} {cache : CacheType} {isRandom : Bool}
variable {sel : Selector Memory S SubChain}

variable (faults range cyc) in
theorem gait_subChains (overflow : faults .overflow)
    (sees : ∀ s s', Same s s' → v.graph s = v.graph s')
    (made : subChains v minimum maximum cache isRandom = .ok sel) :
    Nonempty (sel.Gait Same (fun _ => True) range faults ∅ cyc) := by
  unfold subChains at made
  split at made
  · cases made
  split at made
  · cases made
  obtain rfl := Except.ok.inj made
  refine ⟨{
    Rel := ReadTied
    start := fun _ => ⟨rfl, fun _ => rfl, fun _ => rfl⟩
    idle := fun h h' => ⟨?_, h.dropped, False.elim⟩
    loose := fun h => ⟨h.chains, False.elim, False.elim⟩
    size := fun {bond s s' a b} _ same _ => ?_
    handle := fun {bond bond' s s' a b K hook} n leads same tied sub => ?_
    restart := fun {bond bond' s s' a b K} n begins same tied sub => ?_
    next := fun {bond bond' s s' a b K} n begins same tied sub => ?_ }⟩
  · rw [h.dropped trivial, ← h'.chains, h'.dropped trivial]
  · dsimp only
    rw [sees s s' same]
    exact ⟨rfl, fun e large => overflows_countAll _ _ _ _ e large ▸ overflow⟩
  · rw [Hook.leaves_empty]
    dsimp only
    rw [sees s s' same]
    have kept (busy : hook ≠ .phaseEnded) : ReadTied bond' a b :=
      ⟨tied.chains, fun idle => absurd (leads.phaseEnded idle) busy,
        fun placed => tied.place (leads.placed placed)⟩
    have loaded (busy : hook ≠ .phaseEnded) : ReadTied bond' (a.load minimum (v.graph s'))
        (b.load minimum (v.graph s')) :=
      ⟨rfl, fun idle => absurd (leads.phaseEnded idle) busy,
        fun placed => tied.place (leads.placed placed)⟩
    have dropped : ReadTied bond' { a with chains := [] } { b with chains := [] } :=
      ⟨rfl, fun _ => rfl, fun placed => tied.place (leads.placed placed)⟩
    cases hook <;> cases cache <;>
      first
        | exact .pure dropped
        | exact .pure (kept (by decide))
        | exact .pure (loaded (by decide))
  · dsimp only
    rw [sees s s' same]
    split
    · exact .pure ⟨tied.chains, fun idle => absurd idle begins.not_isIdle, fun _ => rfl⟩
    · exact .pure ⟨rfl, fun idle => absurd idle begins.not_isIdle, fun _ => rfl⟩
  · dsimp only
    rw [← tied.chains, ← tied.place begins.placed]
    split
    · refine (together_drawRun overflow minimum maximum a.chains).bind fun x y drawn => ?_
      obtain rfl : x = y := drawn
      exact .pure ⟨rfl, tied, fun _ _ => trivial⟩
    · exact .pure ⟨rfl, ⟨rfl, fun idle => absurd idle begins.not_isIdle, fun _ => rfl⟩,
        fun _ _ => trivial⟩

end Runs

end Selector

end PlanSearch
