import PlanSearch.Random.Generator

/-!
# Random rearrangement

Every element in turn is exchanged with one at or before it. Several of the small indices this
needs are split off one uniform draw: a draw below `m * (m + 1) * …` holds an index below each of
the factors.
-/

namespace PlanSearch.Random

namespace Shuffle

/-- The largest product `m * (m + 1) * …` that 32 bits hold, and how many factors it has.
The first argument bounds the number of factors; no product has more than 13. -/
def chunkBound : Nat → Nat → Nat → Nat → Nat × Nat
  | 0, m, product, current => (product, current - m)
  | fuel + 1, m, product, current =>
    if product * current < 0x100000000 then chunkBound fuel m (product * current) (current + 1)
    else (product, current - m)

/-- What is left of a draw that holds several indices. -/
structure Chunk where
  /-- How many indices were produced. -/
  produced : Nat := 0
  rest : Nat := 0
  /-- How many indices the rest still holds. -/
  remaining : Nat := 1

/-- The next index, which lies in `0 … produced`. -/
def Chunk.next (c : Chunk) (g : Generator) : Except Fault (Nat × Chunk × Generator) := do
  let bound := c.produced + 1
  let (rest, remaining, g) ←
    if 0 < c.remaining then pure (c.rest, c.remaining - 1, g)
    else
      let (product, count) := chunkBound 32 bound bound (bound + 1)
      let (drawn, g) ← g.below product
      pure (drawn, count - 1, g)
  if remaining = 0 then return (rest, ⟨bound, rest, 0⟩, g)
  else return (rest % bound, ⟨bound, rest / bound, remaining⟩, g)

/-- Exchanges the elements from index `i` on, `count` of them. -/
def exchange {α : Type} : Nat → Nat → Chunk → Array α → Generator →
    Except Fault (Array α × Generator)
  | 0, _, _, items, g => .ok (items, g)
  | count + 1, i, chunk, items, g => do
    let (j, chunk, g) ← chunk.next g
    exchange count (i + 1) chunk (items.swapIfInBounds i j) g

end Shuffle

/-- The items in a uniformly drawn order. Nothing is drawn for fewer than two. -/
def Generator.shuffle {α : Type} (items : Array α) (g : Generator) :
    Except Fault (Array α × Generator) :=
  if items.size ≤ 1 then .ok (items, g)
  else Shuffle.exchange items.size 0 {} items g

end PlanSearch.Random
