import PlanSearch.Fault
import PlanSearch.Score.Basic

/-!
# Arithmetic on scores

All operations work level by level. A level that leaves the 64-bit range is a fault, except where a
float is rounded back to a level: that conversion saturates.
-/

namespace PlanSearch

namespace Level

/-- An integer as a level. -/
def checked (n : Int) : Except Fault Int64 :=
  if Int64.minValue.toInt ≤ n ∧ n ≤ Int64.maxValue.toInt then .ok (Int64.ofInt n)
  else .error .overflow

/-- A float rounded to the nearest level, halves away from zero. -/
def ofFloat (x : Float) : Int64 := x.round.toInt64

end Level

namespace Score

variable {sh : Shape}

/-- Applies a function to every level. -/
def mapLevels (f : Int64 → Except Fault Int64) (s : Score sh) : Except Fault (Score sh) :=
  (s.levels.mapM f).map Score.mk

/-- Applies a function to the pairs of levels. -/
def zipLevels (f : Int64 → Int64 → Except Fault Int64) (a b : Score sh) :
    Except Fault (Score sh) :=
  ((a.levels.zip b.levels).mapM fun (x, y) => f x y).map Score.mk

def add (a b : Score sh) : Except Fault (Score sh) :=
  zipLevels (fun x y => Level.checked (x.toInt + y.toInt)) a b

def sub (a b : Score sh) : Except Fault (Score sh) :=
  zipLevels (fun x y => Level.checked (x.toInt - y.toInt)) a b

def neg (s : Score sh) : Except Fault (Score sh) :=
  mapLevels (fun x => Level.checked (-x.toInt)) s

def abs (s : Score sh) : Except Fault (Score sh) :=
  mapLevels (fun x => Level.checked x.toInt.natAbs) s

/-- Every level times a float, rounded. -/
def multiply (s : Score sh) (factor : Float) : Score sh :=
  ⟨s.levels.map fun x => Level.ofFloat (x.toFloat * factor)⟩

/-- Every level divided by a float, rounded. -/
def divide (s : Score sh) (divisor : Float) : Score sh :=
  ⟨s.levels.map fun x => Level.ofFloat (x.toFloat / divisor)⟩

end Score

end PlanSearch
