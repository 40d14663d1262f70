import PlanSearch.Text.Integer
import PlanSearch.Text.Layout

/-!
# Scores

A score is a fixed number of 64-bit levels, most important first. Its shape says how many levels
there are, which of them have to be met for a solution to count as feasible, and how the score is
written. Scores are compared level by level: one point on a level outweighs any number of points on
the levels after it.
-/

namespace PlanSearch

/-- How the levels of a score are divided. -/
inductive Shape where
  /-- One level. -/
  | simple
  /-- A hard level and a soft one. -/
  | hardSoft
  /-- The given numbers of hard and of soft levels. -/
  | bendable (hard soft : Nat)
  deriving DecidableEq, Repr

/-- The role of a level. -/
inductive LevelRole where
  /-- Has to be met for the solution to be feasible. -/
  | hard
  /-- An objective. -/
  | soft
  deriving DecidableEq, Repr

namespace Shape

/-- The number of levels. -/
def levelCount : Shape → Nat
  | simple => 1
  | hardSoft => 2
  | bendable hard soft => hard + soft

/-- The number of hard levels; the only level of a simple score is an objective. -/
def hardCount : Shape → Nat
  | simple => 0
  | hardSoft => 1
  | bendable hard _ => hard

/-- The number of leading levels that are not negative in a feasible score. A simple score is
feasible when its only level is not negative. -/
def feasibleCount : Shape → Nat
  | simple => 1
  | hardSoft => 1
  | bendable hard _ => hard

/-- The role of the level at an index. -/
def role? (sh : Shape) (index : Nat) : Option LevelRole :=
  if index < sh.hardCount then some .hard
  else if index < sh.levelCount then some .soft
  else none

/-- The kind of score in words. -/
def kind : Shape → String
  | simple => "SimpleScore"
  | hardSoft => "HardSoftScore"
  | bendable .. => "BendableScore"

end Shape

/-- The levels of a score, most important first. -/
structure Score (sh : Shape) where
  levels : Vector Int64 sh.levelCount
  deriving DecidableEq

namespace Score

variable {sh : Shape}

/-- The levels as a list. -/
def toList (s : Score sh) : List Int64 := s.levels.toList

/-- The score with the given levels. Missing levels are zero and surplus ones are ignored. -/
def ofList (levels : List Int64) : Score sh :=
  ⟨Vector.ofFn fun i => levels.getD i 0⟩

/-- The score that is zero on every level. -/
def zero : Score sh := ⟨Vector.replicate _ 0⟩

instance : Inhabited (Score sh) := ⟨zero⟩

/-- A score of one level. -/
def ofLevel (n : Int64) : Score .simple := ⟨#v[n]⟩

/-- A hard and a soft level. -/
def ofHardSoft (hard soft : Int64) : Score .hardSoft := ⟨#v[hard, soft]⟩

/-- The hard levels. -/
def hardLevels (s : Score sh) : List Int64 := s.toList.take sh.hardCount

/-- The soft levels. -/
def softLevels (s : Score sh) : List Int64 := s.toList.drop sh.hardCount

/-- No level that has to be met is negative. -/
def isFeasible (s : Score sh) : Bool :=
  (s.toList.take sh.feasibleCount).all fun n => decide (0 ≤ n)

@[simp]
theorem length_toList (s : Score sh) : s.toList.length = sh.levelCount := by
  simp [toList]

theorem toList_ofList (levels : List Int64) (h : levels.length = sh.levelCount) :
    (ofList levels : Score sh).toList = levels := by
  apply List.ext_getElem
  · simp [h]
  · intro i h₁ h₂
    simp [toList, ofList, h₂]

theorem ext_toList {a b : Score sh} (h : a.toList = b.toList) : a = b := by
  cases a
  cases b
  simpa [toList, Vector.toList_inj] using h

/-! ## Order -/

/-- The first levels that differ decide. -/
def compareLevels : List Int64 → List Int64 → Ordering
  | [], [] => .eq
  | [], _ :: _ => .lt
  | _ :: _, [] => .gt
  | a :: as, b :: bs => (compare a b).then (compareLevels as bs)

instance : Ord (Score sh) := ⟨fun a b => compareLevels a.toList b.toList⟩

instance : LT (Score sh) := ltOfOrd

instance : LE (Score sh) := leOfOrd

/-- The better of two scores. -/
def better (a b : Score sh) : Score sh := if a < b then b else a

/-! ## Descriptions -/

private def levelText (n : Int64) : String := String.ofList (Text.writeInt64 n)

/-- The score with the name of its kind. -/
def describe (s : Score sh) : String :=
  let list (levels : List Int64) := Text.bracketed (levels.map levelText)
  Text.applied sh.kind <| match sh with
    | .simple | .hardSoft => s.toList.map levelText
    | .bendable .. => [list s.hardLevels, list s.softLevels]

end Score

end PlanSearch
