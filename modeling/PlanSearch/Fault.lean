/-!
# Computations that stop without an answer

Every function of this library is total, so the ways in which a computation can end without a
value are values themselves. A `Fault` is never a refused request (those have error types of
their own, next to the operation that refuses); it says that an internal limit or a stated
precondition was broken.
-/

namespace PlanSearch

/-- The reasons for which a computation stops without an answer. -/
inductive Fault where
  /-- A number left the range of its 64-bit type, or a duration its own range. -/
  | overflow
  /-- A precondition that callers promise did not hold. -/
  | broken
  /-- The given number of iterations did not suffice. -/
  | exhausted
  deriving DecidableEq, Repr, Inhabited

/-- Runs a check and goes on with its value. Unlike the monadic bind, the two results may live in
different universes, which is what the construction of selectors needs. -/
def andThen {ε : Type} {α : Type u} {β : Type v} (check : Except ε α)
    (continue_ : α → Except ε β) : Except ε β :=
  match check with
  | .error e => .error e
  | .ok a => continue_ a

/-! ## Counts that fit a 64-bit word -/

namespace Count

/-- The largest count a 64-bit word holds. -/
def max : Nat := 0xFFFFFFFFFFFFFFFF

/-- A count, unless it is too large for a word. -/
def checked (n : Nat) : Except Fault Nat :=
  if n ≤ max then .ok n else .error .overflow

/-- A count, with the largest one in place of those that are too large. -/
def saturated (n : Nat) : Nat := min n max

theorem checked_eq_ok_iff {n m : Nat} : checked n = .ok m ↔ n = m ∧ n ≤ max := by
  unfold checked
  split <;> simp <;> omega

theorem saturated_le_max (n : Nat) : saturated n ≤ max := Nat.min_le_right ..

end Count

end PlanSearch
