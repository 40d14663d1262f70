import PlanSearch.Proofs.Lockstep.Gait
import PlanSearch.Selector.Change
import PlanSearch.Selector.Union

/-!
# Gaits of selectors of moves

Moves that are drawn at random begin a pass for their entities only. The values go on from where
they are, whatever phase or run that was in, so that the moves are the same only if the values are
drawn anew, or if all states are the same.
-/

namespace PlanSearch

namespace Selector

open Assembly

variable {S C : Type} {Same : S → S → Prop} {faults : Fault → Prop} {good : C → Prop}
variable {range : Nat → Prop} {own others K : Set Slot} {cyc : Prop}

/-! ## Entities and values -/

section Pairs

variable {E V : Type} {entities : Selector Memory S E} {values : Selector Memory S V}
variable {goodE : E → Prop} {goodV : V → Prop} {ownE ownV : Set Slot}

/-- How the states of a pair of selectors are bound. What is in use is not looked at. -/
structure PairTied (gaitE : entities.Gait Same goodE range faults ownE cyc)
    (gaitV : values.Gait Same goodV range faults ownV cyc) (bond : Bond)
    (a b : Pairing entities values) : Prop where
  entities : gaitE.Rel bond a.entities b.entities
  values : gaitV.Rel bond.inner a.values b.values

variable {gaitE : entities.Gait Same goodE range faults ownE cyc}
variable {gaitV : values.Gait Same goodV range faults ownV cyc} {bond bond' : Bond} {s s' : S}
variable {a b : Pairing entities values}

namespace PairTied

theorem start (new : bond = .same ∨ bond.IsIdle) :
    PairTied gaitE gaitV bond ⟨entities.start, values.start, none⟩
      ⟨entities.start, values.start, none⟩ :=
  ⟨gaitE.start new, gaitV.start (Bond.inner_new new)⟩

theorem idle {a' b' : Pairing entities values} (h : PairTied gaitE gaitV (.pace .idle) a b)
    (h' : PairTied gaitE gaitV (.pace .idle) a' b') : PairTied gaitE gaitV (.pace .idle) a b' :=
  ⟨gaitE.idle h.entities h'.entities, gaitV.idle h.values h'.values⟩

theorem loose (h : PairTied gaitE gaitV (.pace .tight) a b) :
    PairTied gaitE gaitV (.pace .loose) a b := ⟨gaitE.loose h.entities, h.values⟩

theorem size (busy : ¬bond.IsIdle) (same : Same s s') (tied : PairTied gaitE gaitV bond a b)
    (total : Nat → Nat → Nat) :
    (do return total (← entities.size s a.entities) (← values.size s a.values) : Except Fault Nat) =
        (do return total (← entities.size s' b.entities) (← values.size s' b.values)) ∧
      Breaks faults
        (do return total (← entities.size s a.entities) (← values.size s a.values)) := by
  obtain ⟨sizeE, breaksE⟩ := gaitE.size busy same tied.entities
  obtain ⟨sizeV, breaksV⟩ := gaitV.size (Bond.not_isIdle_inner busy) same tied.values
  rw [← sizeE, ← sizeV]
  exact ⟨rfl, breaksE.bind fun _ _ => breaksV.bind fun _ _ => .ok _⟩

theorem handle {hook : Hook} (n : Nat) (leads : hook.Leads cyc bond bond') (same : Same s s')
    (tied : PairTied gaitE gaitV bond a b) (sub : hook ≠ .phaseEnded → ownE ∪ ownV ⊆ K) :
    Together range faults K (hook.leaves (ownE ∪ ownV) K) (a.handle hook ⟨s, n⟩)
      (b.handle hook ⟨s', n⟩) (PairTied gaitE gaitV bond') := by
  have values := tied.values
  rw [leads.inner.1] at values
  rw [← Hook.leaves_union]
  refine (gaitE.handle n leads same tied.entities fun busy =>
    Set.subset_union_left.trans (sub busy)).bind fun x y related => ?_
  refine (gaitV.handle n leads same values fun busy => ?_).bind fun x y values => ?_
  · rw [Hook.leaves, if_neg busy]
    exact Set.subset_union_right.trans (sub busy)
  · rw [← leads.inner.2] at values
    exact .pure ⟨related, values⟩

theorem restart (n : Nat) (begins : bond.Begins cyc bond') (same : Same s s')
    (tied : PairTied gaitE gaitV bond a b) (sub : ownE ∪ ownV ⊆ K) :
    Together range faults K K (a.restart ⟨s, n⟩) (b.restart ⟨s', n⟩)
      (PairTied gaitE gaitV bond') := by
  refine (gaitE.restart n begins same tied.entities (Set.subset_union_left.trans sub)).bind
    fun x y related => .pure ⟨related, ?_⟩
  rw [begins.inner, ← begins.inner_self]
  exact tied.values

/-- The pairs that are drawn are the same. -/
theorem drawPair (anew : cyc → gaitV.Anew) (n : Nat) (begins : bond.Begins cyc bond')
    (same : Same s s') (tied : PairTied gaitE gaitV bond' a b) (sub : ownE ∪ ownV ⊆ K) :
    Together range faults K K (a.drawPair ⟨s, n⟩) (b.drawPair ⟨s', n⟩)
      fun x y => x.1 = y.1 ∧ PairTied gaitE gaitV bond' x.2 y.2 ∧ ∀ pair ∈ x.1, goodE pair.1 := by
  refine (gaitE.nextOrRestart n begins same (Set.subset_union_left.trans sub) tied.entities).bind
    fun x y ⟨entity, related, isGood⟩ => ?_
  obtain ⟨e, x⟩ := x
  obtain ⟨f, y⟩ := y
  obtain rfl : e = f := entity
  cases e with
  | none => exact .pure ⟨rfl, ⟨related, tied.values⟩, by rintro _ ⟨⟩⟩
  | some e =>
    refine (Gait.Anew.nextOrRestart anew n begins same (Set.subset_union_right.trans sub)
      tied.values).bind fun x' y' ⟨value, values⟩ => ?_
    obtain ⟨v, x'⟩ := x'
    obtain ⟨w, y'⟩ := y'
    obtain rfl : v = w := value
    refine .pure ⟨rfl, ⟨related, values⟩, fun pair found => ?_⟩
    obtain ⟨v, -, rfl⟩ := Option.map_eq_some_iff.1 found
    exact isGood e rfl

end PairTied

variable (gaitE gaitV) {move : E → V → Move S} {goodMove : Move S → Prop}

/-- Changes are the same if their entities and values are. -/
def changesGait (anew : cyc → gaitV.Anew) (isGood : ∀ e v, goodE e → goodMove (move e v))
    (name : String) :
    (changes entities values true move name).Gait Same goodMove range faults (ownE ∪ ownV) cyc where
  Rel := PairTied gaitE gaitV
  start := .start
  idle := .idle
  loose := .loose
  size busy same tied := tied.size busy same pairCount
  handle n leads same tied sub := tied.handle n leads same sub
  restart n begins same tied sub := tied.restart n begins same sub
  next n begins same tied sub := by
    refine (tied.drawPair anew n begins same sub).bind fun x y ⟨pair, tied, entity⟩ => ?_
    obtain ⟨pair, a⟩ := x
    obtain ⟨_, b⟩ := y
    obtain rfl := pair
    refine .pure ⟨rfl, tied, fun c found => ?_⟩
    obtain ⟨⟨e, v⟩, known, rfl⟩ := Option.map_eq_some_iff.1 found
    exact isGood e v (entity (e, v) known)

end Pairs

section Parts

variable {v : ChainedVariable S} {runs : Selector Memory S SubChain}
variable {values : Selector Memory S Handle} {ownE ownV : Set Slot} {goodMove : Move S → Prop}
variable {goodE : SubChain → Prop} {goodV : Handle → Prop}
variable (gaitE : runs.Gait Same goodE range faults ownE cyc)
variable (gaitV : values.Gait Same goodV range faults ownV cyc)

/-- Relocations of runs are the same if the runs and the targets are. -/
def subChainChangesGait (anew : cyc → gaitV.Anew)
    (isGood : ∀ run target reversing, goodMove (partMove v run target reversing))
    (reversingToo : Bool) :
    (subChainChanges v runs values reversingToo true).Gait Same goodMove range faults (ownE ∪ ownV)
      cyc where
  Rel bond a b := PairTied gaitE gaitV bond a.1 b.1
  start := .start
  idle := .idle
  loose := .loose
  size busy same tied := tied.size busy same fun rs vs =>
    if reversingToo then Count.saturated (pairCount rs vs * 2) else pairCount rs vs
  handle n leads same tied sub := (tied.handle n leads same sub).bind fun _ _ tied => .pure tied
  restart n begins same tied sub := (tied.restart n begins same sub).bind fun _ _ tied => .pure tied
  next {bond bond' s s' a b K} n begins same tied sub := by
    refine (tied.drawPair anew n begins same sub).bind fun x y ⟨pair, tied, _⟩ => ?_
    obtain ⟨pair, x⟩ := x
    obtain ⟨_, y⟩ := y
    obtain rfl := pair
    cases pair with
    | none => exact .pure ⟨rfl, tied, by rintro _ ⟨⟩⟩
    | some pair =>
      obtain ⟨run, target⟩ := pair
      have made (reversing : Bool) : Together range faults K K
          (pure (some (partMove v run target reversing), x, a.2))
          (pure (some (partMove v run target reversing), y, b.2))
          fun x y => x.1 = y.1 ∧ PairTied gaitE gaitV bond' x.2.1 y.2.1 ∧
            ∀ c ∈ x.1, goodMove c := by
        refine .pure ⟨rfl, tied, ?_⟩
        rintro _ ⟨⟩
        exact isGood run target reversing
      dsimp only
      split
      · refine (Together.generate fun g => .ok _).bind fun x y ⟨drawn, _⟩ => ?_
        obtain rfl : x = y := drawn
        exact made x
      · exact made false

end Parts

/-! ## Several selectors -/

/-- Gaits of several selectors. -/
inductive Gaits (Same : S → S → Prop) (good : C → Prop) (range : Nat → Prop)
    (faults : Fault → Prop) (cyc : Prop) :
    List (Selector Memory S C) → Set Slot → Type 1
  | nil : Gaits Same good range faults cyc [] ∅
  | cons {own others : Set Slot} {child : Selector Memory S C}
    {children : List (Selector Memory S C)} (gait : child.Gait Same good range faults own cyc)
    (rest : Gaits Same good range faults cyc children others) :
    Gaits Same good range faults cyc (child :: children) (own ∪ others)

namespace Gaits

variable {children : List (Selector Memory S C)} {bond bond' : Bond} {s s' : S}
variable {a b : States children}

/-- The states of every selector are bound. -/
def Rel : {children : List (Selector Memory S C)} → {own : Set Slot} →
    Gaits Same good range faults cyc children own → Bond → States children → States children → Prop
  | _, _, .nil, _, _, _ => True
  | _, _, .cons gait rest, bond, (a, as), (b, bs) => gait.Rel bond a b ∧ rest.Rel bond as bs

variable (gaits : Gaits Same good range faults cyc children own)

theorem start (new : bond = .same ∨ bond.IsIdle) :
    gaits.Rel bond (States.start children) (States.start children) := by
  induction gaits with
  | nil => trivial
  | cons gait rest ih => exact ⟨gait.start new, ih⟩

theorem idle {a' b' : States children} (h : gaits.Rel (.pace .idle) a b)
    (h' : gaits.Rel (.pace .idle) a' b') : gaits.Rel (.pace .idle) a b' := by
  induction gaits with
  | nil => trivial
  | cons gait rest ih => exact ⟨gait.idle h.1 h'.1, ih h.2 h'.2⟩

theorem loose (h : gaits.Rel (.pace .tight) a b) : gaits.Rel (.pace .loose) a b := by
  induction gaits with
  | nil => trivial
  | cons gait rest ih => exact ⟨gait.loose h.1, ih h.2⟩

theorem sizes (busy : ¬bond.IsIdle) (same : Same s s') (related : gaits.Rel bond a b) :
    States.sizes s children a = States.sizes s' children b ∧
      Breaks faults (States.sizes s children a) := by
  induction gaits with
  | nil => exact ⟨rfl, .ok _⟩
  | cons gait rest ih =>
    obtain ⟨size, breaks⟩ := gait.size busy same related.1
    obtain ⟨sizes, others⟩ := ih related.2
    refine ⟨?_, breaks.bind fun _ _ => others.bind fun _ _ => .ok _⟩
    obtain ⟨a, as⟩ := a
    obtain ⟨b, bs⟩ := b
    rw [States.sizes, States.sizes, size, sizes]

theorem handle {hook : Hook} (n : Nat) (leads : hook.Leads cyc bond bond') (same : Same s s')
    (related : gaits.Rel bond a b) (sub : hook ≠ .phaseEnded → own ⊆ K) :
    Together range faults K (hook.leaves own K)
      (States.mapM (fun child => child.handle hook ⟨s, n⟩) children a)
      (States.mapM (fun child => child.handle hook ⟨s', n⟩) children b) (gaits.Rel bond') := by
  induction gaits generalizing K with
  | nil =>
    rw [Hook.leaves_empty]
    exact .pure trivial
  | cons gait rest ih =>
    rw [← Hook.leaves_union]
    refine (gait.handle n leads same related.1 fun busy =>
      Set.subset_union_left.trans (sub busy)).bind fun x y first => ?_
    refine (ih related.2 fun busy => ?_).bind fun xs ys others => .pure ⟨first, others⟩
    rw [Hook.leaves, if_neg busy]
    exact Set.subset_union_right.trans (sub busy)

theorem restart (n : Nat) (begins : bond.Begins cyc bond') (same : Same s s')
    (related : gaits.Rel bond a b) (sub : own ⊆ K) :
    Together range faults K K (States.mapM (fun child => child.restart ⟨s, n⟩) children a)
      (States.mapM (fun child => child.restart ⟨s', n⟩) children b) (gaits.Rel bond') := by
  induction gaits with
  | nil => exact .pure trivial
  | cons gait rest ih =>
    refine (gait.restart n begins same related.1 (Set.subset_union_left.trans sub)).bind
      fun x y first => ?_
    exact (ih related.2 (Set.subset_union_right.trans sub)).bind
      fun xs ys others => .pure ⟨first, others⟩

theorem visit (n : Nat) (begins : bond.Begins cyc bond') (same : Same s s')
    (related : gaits.Rel bond' a b) (sub : own ⊆ K) (i : Nat) :
    Together range faults K K
      (States.visit (fun child st => child.nextOrRestart ⟨s, n⟩ st) children i a)
      (States.visit (fun child st => child.nextOrRestart ⟨s', n⟩ st) children i b)
      fun x y => x.1 = y.1 ∧ gaits.Rel bond' x.2 y.2 ∧ ∀ c ∈ x.1.join, good c := by
  induction gaits generalizing i with
  | nil => exact .pure ⟨rfl, trivial, by rintro _ ⟨⟩⟩
  | cons gait rest ih =>
    cases i with
    | zero =>
      refine (gait.nextOrRestart n begins same (Set.subset_union_left.trans sub) related.1).bind
        fun x y ⟨candidate, first, isGood⟩ => ?_
      exact .pure ⟨congrArg some candidate, ⟨first, related.2⟩, isGood⟩
    | succ i =>
      exact (ih related.2 (Set.subset_union_right.trans sub) i).bind
        fun x y ⟨candidate, others, isGood⟩ => .pure ⟨candidate, ⟨related.1, others⟩, isGood⟩

theorem nextAmong (n : Nat) (begins : bond.Begins cyc bond') (same : Same s s')
    (related : gaits.Rel bond' a b) (sub : own ⊆ K) (order : List Nat) :
    Together range faults K K (States.nextAmong ⟨s, n⟩ children order a)
      (States.nextAmong ⟨s', n⟩ children order b)
      fun x y => x.1 = y.1 ∧ gaits.Rel bond' x.2 y.2 ∧ ∀ c ∈ x.1, good c := by
  induction order generalizing a b with
  | nil => exact .pure ⟨rfl, related, by rintro _ ⟨⟩⟩
  | cons i order ih =>
    have first : Together range faults K K (States.nextAt ⟨s, n⟩ children i a)
        (States.nextAt ⟨s', n⟩ children i b)
        fun x y => x.1 = y.1 ∧ gaits.Rel bond' x.2 y.2 ∧ ∀ c ∈ x.1, good c :=
      (gaits.visit n begins same related sub i).bind fun x y ⟨candidate, related, isGood⟩ =>
        .pure ⟨congrArg Option.join candidate, related, isGood⟩
    refine first.bind fun x y ⟨candidate, related, isGood⟩ => ?_
    obtain ⟨c, a⟩ := x
    obtain ⟨d, b⟩ := y
    obtain rfl : c = d := candidate
    cases c with
    | some c => exact .pure ⟨rfl, related, isGood⟩
    | none => exact ih related

end Gaits

theorem overflows_totalSize (total : Nat) (sizes : List Nat) : Overflows (totalSize total sizes) := by
  induction sizes generalizing total with
  | nil => exact .ok total
  | cons size rest ih => exact (overflows_checked _).bind fun total _ => ih total

/-- The candidates of a union are the same if those of its children are. -/
def unionGait {children : List (Selector Memory S C)}
    (gaits : Gaits Same good range faults cyc children own) (overflow : faults .overflow) :
    (union children true).Gait Same good range faults own cyc where
  Rel bond a b := gaits.Rel bond a.2 b.2
  start := gaits.start
  idle := gaits.idle
  loose := gaits.loose
  size busy same related := by
    obtain ⟨sizes, breaks⟩ := gaits.sizes busy same related
    have large (sizes : List Nat) : Breaks faults (totalSize 0 sizes) := fun e large =>
      overflows_totalSize 0 sizes e large ▸ overflow
    refine ⟨?_, breaks.bind fun sizes _ => large sizes⟩
    change (do totalSize 0 (← States.sizes _ children _) : Except Fault Nat) = _
    rw [sizes]
    rfl
  handle n leads same related sub :=
    (gaits.handle n leads same related sub).bind fun _ _ related => .pure related
  restart n begins same related sub :=
    (gaits.restart n begins same related sub).bind fun _ _ related => .pure related
  next {bond bond' s s' a b K} n begins same related sub := by
    obtain ⟨sizes, breaks⟩ := gaits.sizes begins.not_isIdle same related
    simp only [union, if_true]
    rw [← sizes]
    refine (Together.lift breaks).bind fun sizes sizes' ⟨found, _⟩ => ?_
    obtain rfl : sizes = sizes' := found
    have large : Breaks faults (totalSize 0 sizes) := fun e large =>
      overflows_totalSize 0 sizes e large ▸ overflow
    refine (Together.lift large).bind fun total total' ⟨found, _⟩ => ?_
    obtain rfl : total = total' := found
    split
    · exact .pure ⟨rfl, related, by rintro _ ⟨⟩⟩
    · rename_i positive
      refine (Together.below positive).bind fun x y drawn => ?_
      obtain rfl : x = y := drawn
      refine (gaits.nextAmong n begins same related sub _).bind
        fun x y ⟨candidate, related, isGood⟩ => ?_
      exact .pure ⟨candidate, related, isGood⟩

end Selector

end PlanSearch
