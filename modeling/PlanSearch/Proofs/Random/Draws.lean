import PlanSearch.Nearby.Distribution
import PlanSearch.Random.Shuffle

/-!
# Draws that succeed

A draw below a positive bound yields a number below it, and everything that is drawn by means of such
draws asks for positive bounds only.
-/

namespace PlanSearch.Random

theorem Generator.below_eq {bound : Nat} (positive : bound ≠ 0) (g : Generator) :
    ∃ r, g.below bound = .ok r := by
  unfold below
  rw [if_neg positive]
  dsimp only
  split <;> split <;> exact ⟨_, rfl⟩

section Below

variable {modulus bound first : Nat} (small : first < modulus)
include small

/-- The high half of a word times the bound lies below the bound. -/
theorem high_lt (positive : bound ≠ 0) : first * bound / modulus < bound :=
  Nat.div_lt_of_lt_mul (Nat.mul_lt_mul_of_pos_right small (Nat.pos_of_ne_zero positive))

/-- Where the low half asks for a second word, there is room for a carry. -/
theorem succ_high_lt (positive : bound ≠ 0) (low : modulus - bound < first * bound % modulus) :
    first * bound / modulus + 1 < bound := by
  obtain ⟨b, rfl⟩ := Nat.exists_eq_succ_of_ne_zero positive
  rw [Nat.succ_eq_add_one] at low ⊢
  refine Nat.lt_of_not_le fun more => ?_
  have split := Nat.div_add_mod (first * (b + 1)) modulus
  have whole : (first + 1) * (b + 1) ≤ modulus * (b + 1) := Nat.mul_le_mul_right _ small
  have part : modulus * b ≤ modulus * (first * (b + 1) / modulus) :=
    Nat.mul_le_mul_left _ (by omega)
  rw [Nat.add_mul, Nat.one_mul, Nat.mul_succ modulus] at whole
  omega

/-- A draw with a second word for the carry stays below the bound. -/
theorem lt_of_corrected {carry : Prop} [Decidable carry] {g g' g'' : Generator} {n : Nat}
    (positive : bound ≠ 0) (drawn :
      (if modulus - bound < first * bound % modulus then
        .ok (if carry then first * bound / modulus + 1 else first * bound / modulus, g')
      else .ok (first * bound / modulus, g) : Except Fault (Nat × Generator)) = .ok (n, g'')) :
    n < bound := by
  have high := high_lt small positive
  split at drawn
  · rename_i low
    have room := succ_high_lt small positive low
    obtain ⟨rfl, -⟩ := Prod.mk.inj (Except.ok.inj drawn)
    split
    · exact room
    · exact high
  · obtain ⟨rfl, -⟩ := Prod.mk.inj (Except.ok.inj drawn)
    exact high

end Below

/-- What is drawn below a bound lies below it. -/
theorem Generator.lt_of_below {bound n : Nat} {g g' : Generator}
    (drawn : g.below bound = .ok (n, g')) : n < bound := by
  unfold below at drawn
  split at drawn
  · cases drawn
  · rename_i positive
    dsimp only at drawn
    cases wide : decide (0x100000000 ≤ bound) with
    | true =>
      have small : g.nextLong.1.toNat < 0x10000000000000000 := UInt64.toNat_lt _
      simp only [wide, if_true] at drawn
      exact lt_of_corrected small positive drawn
    | false =>
      have small : g.nextWord.1.toNat < 0x100000000 := UInt32.toNat_lt _
      simp only [wide, Bool.false_eq_true, if_false] at drawn
      exact lt_of_corrected small positive drawn

namespace Shuffle

theorem chunkBound_ne_zero (fuel m product current : Nat) (positive : product ≠ 0)
    (later : current ≠ 0) : (chunkBound fuel m product current).1 ≠ 0 := by
  induction fuel generalizing product current with
  | zero => exact positive
  | succ fuel ih =>
    rw [chunkBound]
    split
    · exact ih _ _ (Nat.mul_ne_zero positive later) (Nat.succ_ne_zero _)
    · exact positive

theorem Chunk.next_eq (c : Chunk) (g : Generator) : ∃ r, c.next g = .ok r := by
  obtain ⟨⟨drawn, g'⟩, succeeds⟩ := g.below_eq <| chunkBound_ne_zero 32 (c.produced + 1)
    (c.produced + 1) (c.produced + 1 + 1) (Nat.succ_ne_zero _) (Nat.succ_ne_zero _)
  unfold Chunk.next
  dsimp only
  split
  · dsimp only [pure_bind, Except.pure, Except.bind, bind, pure]
    split <;> exact ⟨_, rfl⟩
  · rw [succeeds]
    dsimp only [pure_bind, Except.pure, Except.bind, bind, pure]
    split <;> exact ⟨_, rfl⟩

theorem exchange_eq {α : Type} (count i : Nat) (chunk : Chunk) (items : Array α) (g : Generator) :
    ∃ r, exchange count i chunk items g = .ok r := by
  induction count generalizing i chunk items g with
  | zero => exact ⟨_, rfl⟩
  | succ count ih =>
    obtain ⟨⟨j, chunk', g'⟩, next⟩ := chunk.next_eq g
    rw [exchange, next]
    exact ih _ _ _ _

end Shuffle

theorem Generator.shuffle_eq {α : Type} (items : Array α) (g : Generator) :
    ∃ r, g.shuffle items = .ok r := by
  unfold shuffle
  split
  · exact ⟨_, rfl⟩
  · exact Shuffle.exchange_eq _ _ _ _ _

end PlanSearch.Random

namespace PlanSearch.Nearby.Distribution

theorem draw_eq (d : Distribution) (bound : Nat) (g : Random.Generator) :
    ∃ r, d.draw bound g = .ok r := by
  unfold draw
  split
  · exact ⟨_, rfl⟩
  · rename_i positive
    cases d with
    | block sizeMinimum sizeMaximum sizeRatio uniformProbability =>
      have some : (block sizeMinimum sizeMaximum sizeRatio uniformProbability).size bound ≠ 0 :=
        Nat.ne_of_gt (Nat.le_max_right ..)
      dsimp only
      split
      · split
        · exact Random.Generator.below_eq positive _
        · exact Random.Generator.below_eq some _
      · exact Random.Generator.below_eq some _
    | _ => exact ⟨_, rfl⟩

end PlanSearch.Nearby.Distribution
