import PlanSearch.Score.Arithmetic

/-!
# Planning problems

What the search has to know about a kind of solution: where its score is stored, whether every
planning variable has a value, and how good it is.
-/

namespace PlanSearch

/-- A kind of solution together with its measure of quality. -/
structure Problem (S : Type) (sh : Shape) where
  /-- The score that was stored in the solution last. -/
  score : S → Option (Score sh)
  /-- The solution with another stored score. -/
  withScore : S → Option (Score sh) → S
  /-- Every planning variable has a value. -/
  isInitialized : S → Bool
  /-- The score that a solution deserves. -/
  calculate : S → Except Fault (Score sh)

namespace Problem

variable {S : Type} {sh : Shape}

/-- Storing a score shows nowhere but in the stored score. -/
structure Lawful (p : Problem S sh) : Prop where
  score_withScore : ∀ s x, p.score (p.withScore s x) = x
  withScore_withScore : ∀ s x y, p.withScore (p.withScore s x) y = p.withScore s y
  withScore_score : ∀ s, p.withScore s (p.score s) = s
  isInitialized_withScore : ∀ s x, p.isInitialized (p.withScore s x) = p.isInitialized s
  calculate_withScore : ∀ s x, p.calculate (p.withScore s x) = p.calculate s

end Problem

end PlanSearch
