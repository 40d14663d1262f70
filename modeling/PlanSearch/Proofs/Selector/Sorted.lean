import Mathlib.Tactic.Choose
import PlanSearch.Proofs.Fault
import PlanSearch.Proofs.Random.Draws
import PlanSearch.Selector.Cached

/-!
# Sorted and shuffled lists

What it means that a list is another one in the order of keys, whatever algorithm has sorted it: it
has the same elements, no key comes after a later one, and elements whose keys are the same stand as
they stood before.
-/

namespace PlanSearch

/-- A list is another one in an order; elements that are equal in that order have kept theirs. -/
structure SortedAs {C : Type} (le : C → C → Prop) (before after : List C) : Prop where
  perm : after.Perm before
  ordered : after.Pairwise le
  stable : ∀ kept : List C, kept.Pairwise le → kept.Sublist before → kept.Sublist after

/-- Of two keys that are there the first does not come after the second. -/
def InOrder {C : Type} (key : C → Except Fault Float) (a b : C) : Prop :=
  ∃ x y, key a = .ok x ∧ key b = .ok y ∧ Decimal.notAfter x y = true

/-- Of two keys that are there the first does not come after the second in a direction. -/
def InDirection {C : Type} (direction : SortDirection) (key : C → Except Fault Float) (a b : C) :
    Prop :=
  match direction with
  | .ascending => InOrder key a b
  | .descending => InOrder key b a

variable {C : Type}

/-- A merge sort that compares keys sorts by them. -/
theorem sortedAs_mergeSort (rank : C → Int) (le : C → C → Prop) (l : List C)
    (same : ∀ a ∈ l, ∀ b ∈ l, (le a b ↔ rank a ≤ rank b)) :
    SortedAs le l (l.mergeSort fun a b => decide (rank a ≤ rank b)) := by
  have trans (a b c : C) : decide (rank a ≤ rank b) → decide (rank b ≤ rank c) →
      decide (rank a ≤ rank c) := by
    simp only [decide_eq_true_eq]
    exact Int.le_trans
  have total (a b : C) : decide (rank a ≤ rank b) || decide (rank b ≤ rank a) := by
    simp only [Bool.or_eq_true, decide_eq_true_eq]
    exact Int.le_total _ _
  have perm := l.mergeSort_perm fun a b => decide (rank a ≤ rank b)
  refine ⟨perm, ?_, fun kept ordered sub => ?_⟩
  · refine (List.pairwise_mergeSort trans total l).imp_of_mem fun {a b} first second h => ?_
    exact (same a (perm.mem_iff.1 first) b (perm.mem_iff.1 second)).2 (of_decide_eq_true h)
  · refine List.sublist_mergeSort trans total (ordered.imp_of_mem fun {a b} first second h => ?_) sub
    exact decide_eq_true ((same a (sub.subset first) b (sub.subset second)).1 h)

/-- Elements that are equal in the order stand as they stood before. -/
theorem SortedAs.filter_eq {le : C → C → Prop} {before after : List C}
    (sorted : SortedAs le before after) {p : C → Bool}
    (equal : ∀ a b, p a = true → p b = true → le a b) : after.filter p = before.filter p := by
  have ordered : (before.filter p).Pairwise le :=
    List.pairwise_of_forall_mem_list fun a first b second =>
      equal a b (List.mem_filter.1 first).2 (List.mem_filter.1 second).2
  have kept := (sorted.stable _ ordered List.filter_sublist).filter p
  simp only [List.filter_filter, Bool.and_self] at kept
  exact (kept.eq_of_length (sorted.perm.filter p).length_eq.symm).symm

/-- The pairs of a key and a candidate keep the candidates. -/
theorem map_snd_keyed {key : C → Except Fault Float} {l : List C} {keyed : List (Float × C)}
    (made : (l.mapM fun c => do return (← key c, c)) = .ok keyed) : keyed.map Prod.snd = l := by
  have each := mapM_eq_ok_iff.1 made
  clear made
  induction each with
  | nil => rfl
  | cons first _ ih =>
    obtain ⟨x, -, same⟩ := bind_eq_ok.1 first
    cases same
    rw [List.map_cons, ih]

theorem perm_sortByKey (direction : SortDirection) (keyed : List (Float × C)) :
    (Selector.sortByKey direction keyed).Perm keyed := by
  cases direction <;> exact List.mergeSort_perm ..

section Keys

variable {key : C → Except Fault Float} {l : List C} (total : ∀ c ∈ l, ∃ x, key c = .ok x)
include total

/-- Where all keys are there, they are the values of a function. -/
theorem exists_keys : ∃ k : C → Float,
    (∀ a ∈ l, ∀ b ∈ l, (InOrder key a b ↔ Decimal.rank (k a) ≤ Decimal.rank (k b))) ∧
    (l.mapM fun c => do return (← key c, c)) = .ok (l.map fun c => (k c, c)) := by
  have somewhere (c : C) : ∃ x, c ∈ l → key c = .ok x := by
    by_cases member : c ∈ l
    · obtain ⟨x, known⟩ := total c member
      exact ⟨x, fun _ => known⟩
    · exact ⟨0, fun h => absurd h member⟩
  choose k known using somewhere
  refine ⟨k, fun a first b second => ?_, ?_⟩
  · constructor
    · rintro ⟨x, y, left, right, h⟩
      obtain rfl := Except.ok.inj ((known a first).symm.trans left)
      obtain rfl := Except.ok.inj ((known b second).symm.trans right)
      exact of_decide_eq_true h
    · exact fun h => ⟨k a, k b, known a first, known b second, decide_eq_true h⟩
  · clear total
    induction l with
    | nil => rfl
    | cons c rest ih =>
      rw [List.mapM_cons, ih fun c member => known c (List.mem_cons_of_mem _ member),
        known c List.mem_cons_self]
      rfl

/-- Pairs of keys and elements that are sorted by their keys lead to sorted elements. -/
theorem exists_sorted (direction : SortDirection) :
    ∃ keyed, (l.mapM fun c => do return (← key c, c)) = .ok keyed ∧
      SortedAs (InDirection direction key) l
        ((Selector.sortByKey direction keyed).map Prod.snd) := by
  obtain ⟨k, order, keyed⟩ := exists_keys total
  refine ⟨_, keyed, ?_⟩
  cases direction with
  | ascending =>
    have sorted := sortedAs_mergeSort (fun c => Decimal.rank (k c)) (InOrder key) l order
    have pairs := List.map_mergeSort (l := l) (f := fun c => (k c, c))
      (r := fun a b => decide (Decimal.rank (k a) ≤ Decimal.rank (k b)))
      (s := fun a b => Decimal.notAfter a.1 b.1) fun a _ b _ => rfl
    rw [Selector.sortByKey, ← pairs, List.map_map]
    change SortedAs _ l (List.map id _)
    rw [List.map_id]
    exact sorted
  | descending =>
    have sorted := sortedAs_mergeSort (fun c => -Decimal.rank (k c)) (InDirection .descending key) l
      fun a first b second => (order b second a first).trans Int.neg_le_neg_iff.symm
    have pairs := List.map_mergeSort (l := l) (f := fun c => (k c, c))
      (r := fun a b => decide (-Decimal.rank (k a) ≤ -Decimal.rank (k b)))
      (s := fun a b => Decimal.notAfter b.1 a.1) fun a _ b _ => by
        simp only [Int.neg_le_neg_iff]
        rfl
    rw [Selector.sortByKey, ← pairs, List.map_map]
    change SortedAs _ l (List.map id _)
    rw [List.map_id]
    exact sorted

end Keys

namespace Random

theorem perm_swapIfInBounds (items : Array C) (i j : Nat) :
    (items.swapIfInBounds i j).Perm items := by
  unfold Array.swapIfInBounds
  split
  · split
    · exact Array.swap_perm ..
    · exact .refl _
  · exact .refl _

theorem Shuffle.perm_of_exchange {count i : Nat} {chunk : Chunk} {items items' : Array C}
    {g g' : Generator} (made : exchange count i chunk items g = .ok (items', g')) :
    items'.Perm items := by
  induction count generalizing i chunk items g with
  | zero =>
    cases made
    exact .refl _
  | succ count ih =>
    obtain ⟨⟨j, chunk', g₁⟩, next⟩ := chunk.next_eq g
    rw [exchange, next] at made
    exact (ih made).trans (perm_swapIfInBounds items i j)

/-- A list that is shuffled is rearranged. -/
theorem Generator.perm_of_shuffle {items items' : Array C} {g g' : Generator}
    (made : g.shuffle items = .ok (items', g')) : items'.Perm items := by
  unfold shuffle at made
  split at made
  · cases made
    exact .refl _
  · exact Shuffle.perm_of_exchange made

end Random

end PlanSearch
