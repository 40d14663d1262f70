import Mathlib.Data.Prod.Lex
import PlanSearch.Problem

/-!
# The order of scores

Scores of one shape are totally ordered. Solutions are ranked first by whether they are initialized
and then by their score, so that the worst initialized solution ranks above every other one.
-/

namespace PlanSearch

namespace Score

variable {sh : Shape}

theorem compareLevels_eq (as bs : List Int64) :
    compareLevels as bs = List.compareLex compare as bs := by
  induction as generalizing bs with
  | nil => cases bs <;> rfl
  | cons a as ih =>
    cases bs with
    | nil => rfl
    | cons b bs => rw [compareLevels, ih, List.compareLex_cons_cons]

theorem compare_eq (a b : Score sh) :
    compare a b = List.compareLex compare a.toList b.toList := compareLevels_eq ..

instance : Std.TransOrd (Score sh) where
  eq_swap := by
    intro a b
    have swapped : List.compareLex compare a.toList b.toList =
        (List.compareLex compare b.toList a.toList).swap := Std.OrientedCmp.eq_swap
    rw [compare_eq, compare_eq, swapped]
  isLE_trans := by
    intro a b c first second
    rw [compare_eq] at first second ⊢
    exact Std.TransCmp.isLE_trans first second

instance : Std.LawfulEqOrd (Score sh) where
  compare_self := by
    intro a
    rw [compare_eq]
    exact Std.ReflCmp.compare_self
  eq_of_compare := by
    intro a b same
    rw [compare_eq] at same
    exact ext_toList (Std.LawfulEqCmp.eq_of_compare same)

instance : Std.LawfulLTOrd (Score sh) where
  eq_lt_iff_lt := Iff.rfl

/-- Of two scores the one that is greater on the first level on which they differ is the greater
one. -/
instance : LinearOrder (Score sh) where
  le_refl a := Std.ReflOrd.isLE_rfl
  le_trans _ _ _ := Std.TransOrd.isLE_trans
  lt_iff_le_not_ge a b := by
    change compare a b = .lt ↔ (compare a b).isLE = true ∧ ¬(compare b a).isLE = true
    rw [Std.OrientedOrd.eq_swap (a := b)]
    cases compare a b <;> decide
  le_antisymm a b below above := by
    refine Std.LawfulEqOrd.eq_of_compare ?_
    change (compare a b).isLE = true at below
    change (compare b a).isLE = true at above
    rw [Std.OrientedOrd.eq_swap (a := b)] at above
    revert below above
    cases compare a b <;> decide
  le_total a b := by
    change (compare a b).isLE = true ∨ (compare b a).isLE = true
    rw [Std.OrientedOrd.eq_swap (a := b)]
    cases compare a b <;> decide
  toDecidableLE := inferInstance
  toDecidableLT := inferInstance
  toDecidableEq := inferInstance
  compare_eq_compareOfLessAndEq a b := Std.LawfulLTCmp.eq_compareOfLessAndEq a b

/-- Levels are compared as lists are: the first ones that differ decide. -/
theorem isLE_compareLex_iff (as bs : List Int64) :
    (List.compareLex compare as bs).isLE = true ↔ as ≤ bs := by
  induction as generalizing bs with
  | nil => cases bs <;> simp [List.compareLex_nil_nil, List.compareLex_nil_cons]
  | cons a as ih =>
    cases bs with
    | nil => simp [List.compareLex_cons_nil]
    | cons b bs =>
      rw [List.compareLex_cons_cons, Ordering.isLE_then_iff_and, List.cons_le_cons_iff, ih]
      cases order : compare a b with
      | lt =>
        have below : a < b := Std.compare_eq_lt.1 order
        simp [below]
      | eq =>
        obtain rfl := Std.LawfulEqOrd.eq_of_compare order
        simp [Int64.lt_irrefl]
      | gt =>
        have above : b < a := Std.compare_eq_gt.1 order
        simp [Int64.lt_asymm above, (Int64.ne_of_lt above).symm]

theorem toList_le_iff {a b : Score sh} : a.toList ≤ b.toList ↔ a ≤ b := by
  rw [← isLE_compareLex_iff, ← compare_eq]
  rfl

end Score

namespace Problem

variable {S : Type} {sh : Shape}

/-- The rank of a solution with the given score. -/
def rank (p : Problem S sh) (s : S) (x : Score sh) : Bool ×ₗ Score sh := toLex (p.isInitialized s, x)

end Problem

end PlanSearch
