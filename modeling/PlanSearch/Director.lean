import PlanSearch.Move.Apply
import PlanSearch.Problem

/-!
# The working solution and its score

A director holds the solution that the search works on. It calculates the score of that solution at
most once between two changes, stores it in the solution, and counts the calculations. A score can
only be asked for while all notification brackets are closed.
-/

namespace PlanSearch

/-- The working solution and what is known about its score. -/
structure Director (S : Type) (sh : Shape) where
  solution : S
  /-- The solution may have changed since the score was calculated. -/
  dirty : Bool := true
  cached : Option (Score sh) := none
  /-- The number of open brackets. -/
  openBrackets : Nat := 0
  calculations : Nat := 0

namespace Director

variable {S : Type} {sh : Shape}

/-- All brackets are closed. -/
def isBalanced (d : Director S sh) : Bool := d.openBrackets == 0

/-- Takes note of a notification. Closing a bracket that was not opened is passed over. -/
def notify (d : Director S sh) (n : Notification) : Director S sh :=
  if n.isBefore then { d with openBrackets := d.openBrackets + 1, dirty := true }
  else { d with openBrackets := d.openBrackets - 1 }

/-- Writes to the solution; the write need not change anything. -/
def write (d : Director S sh) (f : S → S) : Director S sh :=
  { d with solution := f d.solution, dirty := true }

/-- The score of the working solution. -/
def calculate (p : Problem S sh) (d : Director S sh) :
    Except Fault (Score sh × Director S sh) :=
  if d.openBrackets ≠ 0 then .error .broken
  else match d.dirty, d.cached with
    | false, some score => .ok (score, d)
    | _, _ => do
      let score ← p.calculate d.solution
      return (score, { d with
        solution := p.withScore d.solution (some score)
        cached := some score
        dirty := false
        calculations := d.calculations + 1 })

/-- Applies a move to the working solution. -/
def applyMove (d : Director S sh) (m : Move S) :
    Director S sh × List Notification × Except ChainError (Move S) :=
  let a := m.apply d.solution
  let d := a.notifications.foldl notify { d with solution := a.solution }
  (d, a.notifications, a.result)

/-- The state of the director without the solution. -/
def describe (d : Director S sh) : String :=
  Text.record "SimpleScoreDirector"
    [("score_dirty", Text.truth d.dirty),
     ("cached_score", Text.optional (d.cached.map Score.describe)),
     ("open_notifications", toString d.openBrackets),
     ("calculation_count", toString d.calculations)]

end Director

/-- A director together with the notifications that went through it. -/
structure RecordingDirector (S : Type) (sh : Shape) where
  inner : Director S sh
  log : List Notification := []

namespace RecordingDirector

variable {S : Type} {sh : Shape}

def notify (d : RecordingDirector S sh) (n : Notification) : RecordingDirector S sh :=
  { inner := d.inner.notify n, log := d.log ++ [n] }

def write (d : RecordingDirector S sh) (f : S → S) : RecordingDirector S sh :=
  { d with inner := d.inner.write f }

def calculate (p : Problem S sh) (d : RecordingDirector S sh) :
    Except Fault (Score sh × RecordingDirector S sh) := do
  let (score, inner) ← d.inner.calculate p
  return (score, { d with inner })

def applyMove (d : RecordingDirector S sh) (m : Move S) :
    RecordingDirector S sh × Except ChainError (Move S) :=
  let (inner, notes, result) := d.inner.applyMove m
  ({ inner, log := d.log ++ notes }, result)

/-- The log, and the director with an empty one. -/
def takeLog (d : RecordingDirector S sh) : List Notification × RecordingDirector S sh :=
  (d.log, { d with log := [] })

/-- The entities of the brackets that were opened, in order. -/
def changedEntities (d : RecordingDirector S sh) : List PlanningRef :=
  (d.log.filter Notification.isBefore).map Notification.subject

/-- The log consists of closed brackets, each about one entity. -/
def isBalanced (d : RecordingDirector S sh) : Bool := Notification.isBalanced d.log

end RecordingDirector

end PlanSearch
