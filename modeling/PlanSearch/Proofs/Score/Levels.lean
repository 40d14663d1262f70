import Mathlib.Algebra.Order.Group.Defs
import Mathlib.Algebra.Order.Group.Int
import Mathlib.Algebra.Order.Group.PiLex
import Mathlib.Algebra.Ring.Int.Defs
import Mathlib.Data.List.Forall2
import Mathlib.Order.Fin.Basic
import PlanSearch.Acceptor.Annealing
import PlanSearch.Proofs.Fault
import PlanSearch.Proofs.Score.Order

/-!
# Levels as whole numbers

The levels of a score stand for whole numbers, which are ordered like the score and added,
subtracted and negated one by one. As long as the results fit into 64 bits, what holds for whole
numbers in lexicographic order therefore holds for scores.
-/

namespace PlanSearch

theorem vector_mapM_eq_ok_iff {ε α β : Type} {n : Nat} {f : α → Except ε β} {v : Vector α n}
    {w : Vector β n} : v.mapM f = .ok w ↔ ∀ i : Fin n, f v[i] = .ok w[i] := by
  have listed : v.mapM f = .ok w ↔ v.toList.mapM f = .ok w.toList := by
    have same := toArray_mapM f v
    cases whole : v.mapM f with
    | error e => cases l : v.toList.mapM f <;> simp_all
    | ok u =>
      cases l : v.toList.mapM f with
      | error e => simp_all
      | ok bs =>
        rw [whole, l] at same
        have same : u.toArray = bs.toArray := Except.ok.inj same
        rw [Except.ok.injEq, Except.ok.injEq, ← Vector.toArray_inj, same, Vector.toList,
          ← Array.toList_inj]
  rw [listed, mapM_eq_ok_iff, List.forall₂_iff_get]
  simp [Fin.forall_iff]

/-- The number lies in the range of a level. -/
def Level.Fits (n : ℤ) : Prop := -2 ^ 63 ≤ n ∧ n < 2 ^ 63

instance (n : ℤ) : Decidable (Level.Fits n) := inferInstanceAs (Decidable (_ ∧ _))

theorem Level.checked_eq_ok_iff {n : ℤ} {x : Int64} : Level.checked n = .ok x ↔ x.toInt = n := by
  have low : Int64.minValue.toInt = -2 ^ 63 := by decide
  have high : Int64.maxValue.toInt = 2 ^ 63 - 1 := by decide
  have above := x.le_toInt
  have below := x.toInt_lt
  rw [Level.checked, low, high]
  split
  · rename_i within
    have exactly : (Int64.ofInt n).toInt = n := Int64.toInt_ofInt_of_le within.1 (by omega)
    rw [Except.ok.injEq, ← Int64.toInt_inj, exactly, eq_comm]
  · simp only [reduceCtorEq, false_iff]
    omega

namespace Score

variable {sh : Shape} {a b c d : Score sh}

/-! ## Arithmetic -/

/-- The levels as whole numbers, in lexicographic order. -/
def whole (s : Score sh) : Lex (Fin sh.levelCount → ℤ) := toLex fun i => s.levels[i].toInt

/-- Every number lies in the range of a level. -/
def Fit (v : Lex (Fin sh.levelCount → ℤ)) : Prop := ∀ i, Level.Fits (v i)

instance (v : Lex (Fin sh.levelCount → ℤ)) : Decidable (Fit v) :=
  @Nat.decidableForallFin _ _ fun i => inferInstanceAs (Decidable (Level.Fits (v i)))

theorem exists_whole {v : Lex (Fin sh.levelCount → ℤ)} (fit : Fit v) :
    ∃ d : Score sh, d.whole = v := by
  refine ⟨⟨Vector.ofFn fun i => Int64.ofInt (v i)⟩, funext fun i => ?_⟩
  have exactly := Int64.toInt_ofInt_of_le (fit i).1 (fit i).2
  simpa [whole] using exactly

theorem map_mk_eq_ok_iff {x : Except Fault (Vector Int64 sh.levelCount)} :
    x.map Score.mk = .ok c ↔ x = .ok c.levels := by
  cases c
  cases x <;> simp [Except.map]

theorem zipLevels_eq_ok_iff {f : Int64 → Int64 → Except Fault Int64} :
    zipLevels f a b = .ok c ↔
      ∀ i : Fin sh.levelCount, f a.levels[i] b.levels[i] = .ok c.levels[i] := by
  rw [zipLevels, map_mk_eq_ok_iff, vector_mapM_eq_ok_iff]
  simp

theorem mapLevels_eq_ok_iff {f : Int64 → Except Fault Int64} :
    mapLevels f a = .ok c ↔ ∀ i : Fin sh.levelCount, f a.levels[i] = .ok c.levels[i] := by
  rw [mapLevels, map_mk_eq_ok_iff, vector_mapM_eq_ok_iff]

theorem add_eq_ok_iff : a.add b = .ok c ↔ c.whole = a.whole + b.whole := by
  simp only [add, zipLevels_eq_ok_iff, Level.checked_eq_ok_iff]
  exact funext_iff.symm

theorem sub_eq_ok_iff : a.sub b = .ok c ↔ c.whole = a.whole - b.whole := by
  simp only [sub, zipLevels_eq_ok_iff, Level.checked_eq_ok_iff]
  exact funext_iff.symm

theorem neg_eq_ok_iff : a.neg = .ok c ↔ c.whole = -a.whole := by
  simp only [neg, mapLevels_eq_ok_iff, Level.checked_eq_ok_iff]
  exact funext_iff.symm

/-! ## Order -/

/-- The first level that differs decides. -/
theorem lt_iff_exists : a < b ↔ ∃ (i : Nat) (_ : i < sh.levelCount),
    (∀ (j : Nat) (_ : j < i), a.levels[j] = b.levels[j]) ∧ a.levels[i] < b.levels[i] := by
  rw [← not_le, ← toList_le_iff, List.not_le, List.lt_iff_exists]
  simp [toList]

theorem whole_lt_whole : a.whole < b.whole ↔ a < b := by
  rw [lt_iff_exists]
  constructor
  · rintro ⟨i, ties, less⟩
    refine ⟨i, i.isLt, fun j before => ?_, Int64.lt_iff_toInt_lt.2 less⟩
    exact Int64.toInt_inj.1 (ties ⟨j, before.trans i.isLt⟩ before)
  · rintro ⟨i, known, ties, less⟩
    refine ⟨⟨i, known⟩, fun j before => ?_, Int64.lt_iff_toInt_lt.1 less⟩
    exact Int64.toInt_inj.2 (ties j before)

/-- The first level that is not zero. -/
def leading? (s : Score sh) : Option Int64 := s.toList.find? fun x => decide (x ≠ 0)

theorem whole_pos_iff : 0 < d.whole ↔ ∃ x, d.leading? = some x ∧ 0 < x := by
  simp only [leading?, List.find?_eq_some_iff_getElem]
  have zero (i : Nat) (h : i < sh.levelCount) : d.levels[i] = 0 ↔ 0 = d.levels[i].toInt := by
    rw [← Int64.toInt_inj, eq_comm]
    rfl
  constructor
  · rintro ⟨i, ties, less⟩
    have positive : 0 < d.levels[i] := Int64.lt_iff_toInt_lt.2 less
    refine ⟨d.levels[i], ⟨?_, i, by simp, by simp [toList], fun j before => ?_⟩, positive⟩
    · exact decide_eq_true (Int64.ne_of_lt positive).symm
    · have known := before.trans i.isLt
      simpa [toList] using (zero j known).2 (ties ⟨j, known⟩ before)
  · rintro ⟨x, ⟨-, i, known, rfl, before⟩, positive⟩
    have within : i < sh.levelCount := by simpa using known
    have positive : 0 < d.levels[i] := by simpa [toList] using positive
    refine ⟨⟨i, within⟩, fun j first => (zero j j.isLt).1 ?_, ?_⟩
    · simpa [toList] using before j first
    · exact Int64.lt_iff_toInt_lt.1 positive

/-- A score is less than another one if the first level that is not zero in their difference is
positive. -/
theorem lt_iff_leading (subtracted : b.sub a = .ok d) :
    a < b ↔ ∃ x, d.leading? = some x ∧ 0 < x := by
  rw [← whole_lt_whole, ← whole_pos_iff, sub_eq_ok_iff.1 subtracted, sub_pos]

theorem add_le_iff {x y : Score sh} (added : a.add c = .ok x) (added' : b.add c = .ok y) :
    x ≤ y ↔ a ≤ b := by
  rw [← not_lt, ← not_lt, ← whole_lt_whole, ← whole_lt_whole, add_eq_ok_iff.1 added,
    add_eq_ok_iff.1 added', add_lt_add_iff_right]

theorem neg_lt_iff {x y : Score sh} (negated : a.neg = .ok x) (negated' : b.neg = .ok y) :
    y < x ↔ a < b := by
  rw [← whole_lt_whole, ← whole_lt_whole, neg_eq_ok_iff.1 negated, neg_eq_ok_iff.1 negated',
    neg_lt_neg_iff]

/-- Levels that come first count first, and others only break ties. -/
theorem compareLevels_append {as bs cs ds : List Int64} (same : as.length = bs.length) :
    compareLevels (as ++ cs) (bs ++ ds) =
      (compareLevels as bs).then (compareLevels cs ds) := by
  induction as generalizing bs with
  | nil =>
    obtain rfl := List.length_eq_zero_iff.1 same.symm
    rfl
  | cons a as ih =>
    cases bs with
    | nil => cases same
    | cons b bs =>
      rw [List.cons_append, List.cons_append, compareLevels, compareLevels, ih (Nat.succ.inj same),
        Ordering.then_assoc]

theorem compare_eq_then (a b : Score sh) : compare a b =
    (compareLevels a.hardLevels b.hardLevels).then (compareLevels a.softLevels b.softLevels) := by
  rw [← compareLevels_append (by simp [hardLevels])]
  simp only [hardLevels, softLevels, List.take_append_drop]
  rfl

end Score

/-! ## Annealing -/

namespace Annealing

variable {sh : Shape} {annealing : Annealing sh}

/-- Annealing as it is made, and as phases and steps leave it. -/
inductive Reached : Annealing sh → Prop
  | made {temperature : Score sh} {annealing : Annealing sh}
      (made : ofTemperature temperature = .ok annealing) : Reached annealing
  | phase {annealing : Annealing sh} (reached : Reached annealing) : Reached annealing.phaseStarted
  | step {annealing : Annealing sh} (reached : Reached annealing) (gradient : Float) :
      Reached (annealing.stepStarted gradient)

/-- Every level has a temperature. -/
theorem Reached.lengths (reached : annealing.Reached) :
    annealing.starting.length = sh.levelCount ∧ annealing.temperatures.length = sh.levelCount := by
  induction reached with
  | made made =>
    obtain ⟨-, -, starting, same⟩ := ofTemperature_eq_ok.1 made
    rw [same, starting, List.length_map, Score.length_toList]
    exact ⟨rfl, rfl⟩
  | phase _ ih => exact ⟨ih.1, ih.1⟩
  | step _ gradient ih => exact ⟨ih.1, (List.length_map _).trans ih.1⟩

/-- Some level is worse in a worse score, and the chance of the move goes by it. -/
theorem Reached.exists_worsening (reached : annealing.Reached) {lastStep move d : Score sh}
    (worse : move < lastStep) (subtracted : lastStep.sub move = .ok d) :
    annealing.chance lastStep move = .ok (chanceOf Float.exp d.toList annealing.temperatures) ∧
      ∃ pair ∈ d.toList.zip annealing.temperatures, 0 < pair.1 := by
  constructor
  · rw [chance, if_pos worse, subtracted]
    rfl
  · obtain ⟨x, leads, positive⟩ := (Score.lt_iff_leading subtracted).1 worse
    have member : x ∈ d.toList := List.mem_of_find?_eq_some leads
    have paired : (d.toList.zip annealing.temperatures).map Prod.fst = d.toList :=
      List.map_fst_zip (by rw [Score.length_toList, reached.lengths.2])
    rw [← paired] at member
    obtain ⟨pair, there, rfl⟩ := List.mem_map.1 member
    exact ⟨pair, there, positive⟩

end Annealing

namespace Score

variable {sh : Shape}

/-- Scores are totally ordered by the first level on which they differ, and level by level
arithmetic that stays in range respects that order: a score is greater than another one exactly if
the first level of their difference that is not zero is positive. So annealing has some level on
which a worse move is worse. -/
theorem order_levelwise (a b c : Score sh) :
    (compare a b = (compareLevels a.hardLevels b.hardLevels).then
      (compareLevels a.softLevels b.softLevels)) ∧
    a.hardLevels ++ a.softLevels = a.toList ∧
    (a < b ↔ ∃ (i : Nat) (_ : i < sh.levelCount),
      (∀ (j : Nat) (_ : j < i), a.levels[j] = b.levels[j]) ∧ a.levels[i] < b.levels[i]) ∧
    (compare a b = .lt ↔ a < b) ∧ (compare a b = .eq ↔ a = b) ∧ (compare a b = .gt ↔ b < a) ∧
    (a ≤ b ↔ a < b ∨ a = b) ∧ (a < b → b < c → a < c) ∧
    (Fit (b.whole - a.whole) → ∃ d, b.sub a = .ok d ∧ d.whole = b.whole - a.whole ∧
      (a < b ↔ ∃ x, d.leading? = some x ∧ 0 < x) ∧
      ∀ annealing : Annealing sh, annealing.Reached → a < b →
        annealing.chance b a =
          .ok (Annealing.chanceOf Float.exp d.toList annealing.temperatures) ∧
        ∃ pair ∈ d.toList.zip annealing.temperatures, 0 < pair.1) ∧
    (Fit (a.whole + c.whole) → Fit (b.whole + c.whole) →
      ∃ x y, a.add c = .ok x ∧ x.whole = a.whole + c.whole ∧
        b.add c = .ok y ∧ y.whole = b.whole + c.whole ∧ (a ≤ b → x ≤ y)) ∧
    (Fit (-a.whole) → Fit (-b.whole) →
      ∃ x y, a.neg = .ok x ∧ x.whole = -a.whole ∧ b.neg = .ok y ∧ y.whole = -b.whole ∧
        (a < b ↔ y < x)) := by
  refine ⟨compare_eq_then a b, List.take_append_drop .., lt_iff_exists, Std.compare_eq_lt,
    Std.LawfulEqOrd.compare_eq_iff_eq, Std.compare_eq_gt, le_iff_lt_or_eq, lt_trans, ?_, ?_, ?_⟩
  · intro fit
    obtain ⟨d, exactly⟩ := exists_whole fit
    have subtracted := sub_eq_ok_iff.2 exactly
    exact ⟨d, subtracted, exactly, lt_iff_leading subtracted,
      fun annealing reached worse => reached.exists_worsening worse subtracted⟩
  · intro fit fit'
    obtain ⟨x, exactly⟩ := exists_whole fit
    obtain ⟨y, exactly'⟩ := exists_whole fit'
    have added := add_eq_ok_iff.2 exactly
    have added' := add_eq_ok_iff.2 exactly'
    exact ⟨x, y, added, exactly, added', exactly', (add_le_iff added added').2⟩
  · intro fit fit'
    obtain ⟨x, exactly⟩ := exists_whole fit
    obtain ⟨y, exactly'⟩ := exists_whole fit'
    have negated := neg_eq_ok_iff.2 exactly
    have negated' := neg_eq_ok_iff.2 exactly'
    exact ⟨x, y, negated, exactly, negated', exactly', (neg_lt_iff negated negated').symm⟩

/-- The last level decides between scores that are equal on the levels before it. -/
theorem order_levelwise_ofTies : ∃ (a b c d : Score (.bendable 1 2)) (annealing : Annealing _),
    a = ofList [3, 5, -7] ∧ b = ofList [3, 5, 4] ∧ c = ofList [-2, 0, 9] ∧ a < b ∧
      b.sub a = .ok d ∧ (∃ x, d.leading? = some x ∧ 0 < x) ∧
      Annealing.ofTemperature (ofList [0, 2, 10] : Score (.bendable 1 2)) = .ok annealing ∧
      (∃ pair ∈ d.toList.zip annealing.temperatures, 0 < pair.1) ∧
      (∃ x y, a.add c = .ok x ∧ b.add c = .ok y ∧ x ≤ y) ∧
      ∃ x y, a.neg = .ok x ∧ b.neg = .ok y ∧ y < x := by
  obtain ⟨-, -, -, -, -, -, -, -, difference, sums, negatives⟩ := order_levelwise
    (ofList [3, 5, -7] : Score (.bendable 1 2)) (ofList [3, 5, 4]) (ofList [-2, 0, 9])
  have less : (ofList [3, 5, -7] : Score (.bendable 1 2)) < ofList [3, 5, 4] := by decide
  obtain ⟨d, subtracted, -, leads, worsens⟩ := difference (by decide)
  obtain ⟨annealing, made⟩ : ∃ annealing,
      Annealing.ofTemperature (ofList [0, 2, 10] : Score (.bendable 1 2)) = .ok annealing :=
    ⟨_, rfl⟩
  obtain ⟨x, y, added, -, added', -, mono⟩ := sums (by decide) (by decide)
  obtain ⟨u, v, negated, -, negated', -, anti⟩ := negatives (by decide) (by decide)
  exact ⟨_, _, _, d, annealing, rfl, rfl, rfl, less, subtracted, leads.1 less, made,
    (worsens annealing (.made made) less).2, ⟨x, y, added, added', mono less.le⟩,
    u, v, negated, negated', anti.1 less⟩

end Score

end PlanSearch
