import PlanSearch.Proofs.Score.Levels

/-!
# Hard and soft levels in arrays of their own

A score may keep its hard levels in one array and its soft ones in another, and do everything to the
one array and then to the other. That makes no difference: a single array of all levels, in which
the hard ones come first, is compared alike, and every operation on the two arrays is the one on
their levels in a row, with the same faults.
-/

namespace PlanSearch

/-- The number of levels that are objectives. -/
def Shape.softCount : Shape → Nat
  | simple => 1
  | hardSoft => 1
  | bendable _ soft => soft

theorem Shape.hardCount_add_softCount (sh : Shape) :
    sh.hardCount + sh.softCount = sh.levelCount := by
  cases sh <;> rfl

/-- Levels in two arrays. -/
structure SplitScore (hard soft : Nat) where
  hard : Vector Int64 hard
  soft : Vector Int64 soft
  deriving DecidableEq

namespace SplitScore

section Operations

variable {h k : Nat}

/-- The soft levels only break ties. -/
instance : Ord (SplitScore h k) where
  compare a b := (Score.compareLevels a.hard.toList b.hard.toList).then
    (Score.compareLevels a.soft.toList b.soft.toList)

def zero : SplitScore h k := ⟨.replicate h 0, .replicate k 0⟩

/-- No hard level is negative. -/
def isFeasible (s : SplitScore h k) : Bool := s.hard.toList.all fun n => decide (0 ≤ n)

/-- Applies a function to every level of both arrays. -/
def mapLevels (f : Int64 → Except Fault Int64) (s : SplitScore h k) :
    Except Fault (SplitScore h k) := do
  return ⟨← s.hard.mapM f, ← s.soft.mapM f⟩

/-- Applies a function to the pairs of levels of both arrays. -/
def zipLevels (f : Int64 → Int64 → Except Fault Int64) (a b : SplitScore h k) :
    Except Fault (SplitScore h k) := do
  return ⟨← (a.hard.zip b.hard).mapM fun (x, y) => f x y,
    ← (a.soft.zip b.soft).mapM fun (x, y) => f x y⟩

def add (a b : SplitScore h k) : Except Fault (SplitScore h k) :=
  zipLevels (fun x y => Level.checked (x.toInt + y.toInt)) a b

def sub (a b : SplitScore h k) : Except Fault (SplitScore h k) :=
  zipLevels (fun x y => Level.checked (x.toInt - y.toInt)) a b

def neg (s : SplitScore h k) : Except Fault (SplitScore h k) :=
  mapLevels (fun x => Level.checked (-x.toInt)) s

def abs (s : SplitScore h k) : Except Fault (SplitScore h k) :=
  mapLevels (fun x => Level.checked x.toInt.natAbs) s

/-- Applies a function that does not fail to every level of both arrays. -/
def map (f : Int64 → Int64) (s : SplitScore h k) : SplitScore h k := ⟨s.hard.map f, s.soft.map f⟩

def multiply (s : SplitScore h k) (factor : Float) : SplitScore h k :=
  s.map fun x => Level.ofFloat (x.toFloat * factor)

def divide (s : SplitScore h k) (divisor : Float) : SplitScore h k :=
  s.map fun x => Level.ofFloat (x.toFloat / divisor)

end Operations

variable {sh : Shape}

/-- All levels in one array. -/
def joined (s : SplitScore sh.hardCount sh.softCount) : Score sh :=
  ⟨(s.hard ++ s.soft).cast sh.hardCount_add_softCount⟩

theorem toList_joined (s : SplitScore sh.hardCount sh.softCount) :
    s.joined.toList = s.hard.toList ++ s.soft.toList :=
  Vector.toList_append

/-- Every score is made of its hard and its soft levels, and of no others. -/
theorem bijective_joined :
    Function.Bijective (joined : SplitScore sh.hardCount sh.softCount → Score sh) := by
  constructor
  · intro a b same
    have listed := congrArg Score.toList same
    rw [toList_joined, toList_joined] at listed
    obtain ⟨hard, soft⟩ := List.append_inj listed (by simp)
    cases a
    cases b
    rw [SplitScore.mk.injEq]
    exact ⟨Vector.toList_inj.1 hard, Vector.toList_inj.1 soft⟩
  · intro s
    have total := sh.hardCount_add_softCount
    have hard : (s.toList.take sh.hardCount).length = sh.hardCount := by simp; omega
    have soft : (s.toList.drop sh.hardCount).length = sh.softCount := by simp; omega
    refine ⟨⟨⟨(s.toList.take sh.hardCount).toArray, hard⟩,
      ⟨(s.toList.drop sh.hardCount).toArray, soft⟩⟩, Score.ext_toList ?_⟩
    rw [toList_joined]
    exact List.take_append_drop ..

/-- The hard levels decide, and then the soft ones. -/
theorem compare_joined (a b : SplitScore sh.hardCount sh.softCount) :
    compare a.joined b.joined = compare a b := by
  change Score.compareLevels a.joined.toList b.joined.toList = _
  rw [toList_joined, toList_joined, Score.compareLevels_append (by simp)]
  rfl

theorem joined_zero : (zero : SplitScore sh.hardCount sh.softCount).joined = Score.zero := by
  refine Score.ext_toList ?_
  rw [toList_joined]
  simp [zero, Score.zero, Score.toList, sh.hardCount_add_softCount]

/-- The hard levels have to be met. Only a simple score has none, and there it is its one level. -/
theorem isFeasible_joined (s : SplitScore sh.hardCount sh.softCount) (some_ : sh ≠ .simple) :
    s.joined.isFeasible = s.isFeasible := by
  have counts : sh.feasibleCount = s.hard.toList.length := by
    rw [Vector.length_toList]
    cases sh with
    | simple => exact absurd rfl some_
    | hardSoft => rfl
    | bendable => rfl
  rw [Score.isFeasible, toList_joined, counts, List.take_left, isFeasible]

/-! ## Arithmetic -/

theorem eq_of_map_toList {x y : Except Fault (Score sh)}
    (same : x.map Score.toList = y.map Score.toList) : x = y := by
  cases x <;> cases y <;> simp_all [Except.map]
  exact Score.ext_toList same

theorem map_toList_mapM {n : Nat} {α : Type} (f : α → Except Fault Int64) (v : Vector α n) :
    (v.mapM f).map Vector.toList = v.toList.mapM f := by
  have same := toArray_mapM f v
  cases whole : v.mapM f <;> cases listed : v.toList.mapM f <;> simp_all [Except.map, Vector.toList]

/-- What one pass over all levels makes is what a pass over the hard levels and then one over the
soft levels make. -/
theorem mk_eq_map_joined {whole : Except Fault (Vector Int64 sh.levelCount)}
    {hard : Except Fault (Vector Int64 sh.hardCount)}
    {soft : Except Fault (Vector Int64 sh.softCount)}
    (same : whole.map Vector.toList = do
      return (← hard.map Vector.toList) ++ (← soft.map Vector.toList)) :
    whole.map Score.mk = Except.map joined (do return ⟨← hard, ← soft⟩) := by
  refine eq_of_map_toList ?_
  cases whole with
  | error e =>
    cases hard with
    | error e' =>
      obtain rfl : e = e' := Except.error.inj same
      rfl
    | ok hard =>
      cases soft with
      | error e' =>
        obtain rfl : e = e' := Except.error.inj same
        rfl
      | ok soft => cases same
  | ok levels =>
    cases hard with
    | error e => cases same
    | ok hard =>
      cases soft with
      | error e => cases same
      | ok soft =>
        have listed : levels.toList = hard.toList ++ soft.toList := Except.ok.inj same
        exact congrArg Except.ok (listed.trans (toList_joined ⟨hard, soft⟩).symm)

/-- What is done to each array is done to all levels in a row. -/
theorem mapLevels_joined (f : Int64 → Except Fault Int64)
    (s : SplitScore sh.hardCount sh.softCount) :
    s.joined.mapLevels f = (s.mapLevels f).map joined := by
  refine mk_eq_map_joined ?_
  rw [map_toList_mapM, map_toList_mapM, map_toList_mapM, ← List.mapM_append, ← toList_joined]
  rfl

theorem zipLevels_joined (f : Int64 → Int64 → Except Fault Int64)
    (a b : SplitScore sh.hardCount sh.softCount) :
    a.joined.zipLevels f b.joined = (a.zipLevels f b).map joined := by
  refine mk_eq_map_joined ?_
  rw [map_toList_mapM, map_toList_mapM, map_toList_mapM, ← List.mapM_append, Vector.toList_zip,
    Vector.toList_zip, Vector.toList_zip, ← List.zip_append (by simp), ← toList_joined,
    ← toList_joined]
  rfl

theorem add_joined (a b : SplitScore sh.hardCount sh.softCount) :
    a.joined.add b.joined = (a.add b).map joined := zipLevels_joined ..

theorem sub_joined (a b : SplitScore sh.hardCount sh.softCount) :
    a.joined.sub b.joined = (a.sub b).map joined := zipLevels_joined ..

theorem neg_joined (s : SplitScore sh.hardCount sh.softCount) :
    s.joined.neg = s.neg.map joined := mapLevels_joined ..

theorem abs_joined (s : SplitScore sh.hardCount sh.softCount) :
    s.joined.abs = s.abs.map joined := mapLevels_joined ..

theorem map_joined (f : Int64 → Int64) (s : SplitScore sh.hardCount sh.softCount) :
    ⟨s.joined.levels.map f⟩ = (s.map f).joined := by
  refine Score.ext_toList ?_
  rw [toList_joined, map, Vector.toList_map, Vector.toList_map, ← List.map_append, ← toList_joined]
  exact Vector.toList_map

theorem multiply_joined (s : SplitScore sh.hardCount sh.softCount) (factor : Float) :
    s.joined.multiply factor = (s.multiply factor).joined := map_joined ..

theorem divide_joined (s : SplitScore sh.hardCount sh.softCount) (divisor : Float) :
    s.joined.divide divisor = (s.divide divisor).joined := map_joined ..

end SplitScore

end PlanSearch
