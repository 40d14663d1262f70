import Mathlib.Algebra.Ring.Int.Defs
import Mathlib.Algebra.Ring.Nat
import PlanSearch.Scale

/-!
# The total order and the numeric one

The total order on floats tells all of them apart, and it refines the numeric order: a float that is
less than another one comes before it. The two orders part only where the numeric one has nothing to
say, between the two zeros and about numbers that are none.
-/

namespace PlanSearch.Decimal

open Float.Model (UnpackedFloat)
open Float.Model.Format (binary64)
open Float.Model.UnpackedFloat

theorem rank_injective : Function.Injective rank := by
  intro x y same
  have bits : x.toBits = y.toBits := by
    refine UInt64.toNat_inj.1 ?_
    have := x.toBits.toNat_lt
    have := y.toBits.toNat_lt
    unfold rank at same
    dsimp only at same
    split at same <;> split at same <;> omega
  obtain ⟨⟨x, _⟩⟩ := x
  obtain ⟨⟨y, _⟩⟩ := y
  obtain rfl : x = y := bits
  rfl

/-! ## The parts of a word -/

theorem unpackExponent_toNat (b : BitVec 64) :
    (@unpackExponent binary64 b).toNat = b.toNat / 2 ^ 52 % 2 ^ 11 := by
  simp [unpackExponent, BitVec.extractLsb_toNat, Nat.shiftRight_eq_div_pow]

theorem unpackMantissa_toNat (b : BitVec 64) :
    (@unpackMantissa binary64 b).toNat = b.toNat % 2 ^ 52 := by
  simp [unpackMantissa, BitVec.extractLsb_toNat]

theorem unpackSign_toNat (b : BitVec 64) :
    (@unpackSign binary64 b).toNat = b.toNat / 2 ^ 63 := by
  have bit : b.toNat / 2 ^ 63 < 2 := by omega
  change (b.extractLsb 63 63).toNat = _
  rw [BitVec.extractLsb_toNat, Nat.shiftRight_eq_div_pow]
  exact Nat.mod_eq_of_lt bit

/-! ## Places in the numeric order -/

/-- A whole number for every number, in their order. The two zeros have the same one. -/
def place : UnpackedFloat → Int
  | .infinity s => s.apply (2047 * 2 ^ 52)
  | .notANumber | .zero _ => 0
  | .finite s mantissa exponent _ => s.apply ((exponent + 1074) * 2 ^ 52 + mantissa)

/-- The mantissa is as long as it can be, unless the exponent is the least one. -/
def IsNormal : UnpackedFloat → Prop
  | .finite _ mantissa exponent _ => -1074 ≤ exponent ∧ exponent ≤ 971 ∧ mantissa < 2 ^ 53 ∧
      (-1074 < exponent → 2 ^ 52 ≤ mantissa)
  | _ => True

theorem append_toNat (m : BitVec 52) : (1#1 ++ m).toNat = 2 ^ 52 + m.toNat := by
  rw [BitVec.toNat_append, ← Nat.shiftLeft_add_eq_or_of_lt m.isLt]
  rfl

theorem apply_zero (s : Sign) : s.apply 0 = 0 := by cases s <;> rfl

/-- What a word says: its sign, and the place of the number without it. -/
theorem place_unpack (b : BitVec 64) (number : unpack binary64 b ≠ .notANumber) :
    IsNormal (unpack binary64 b) ∧ place (unpack binary64 b) =
      (Sign.ofBitVec (@unpackSign binary64 b)).apply (b.toNat % 2 ^ 63 : Nat) := by
  have exponent := unpackExponent_toNat b
  have mantissa := unpackMantissa_toNat b
  have short : (@unpackMantissa binary64 b).toNat < 2 ^ 52 := BitVec.isLt _
  have bias : (binary64.exponentBias : Int) = 1023 := rfl
  unfold unpack at number ⊢
  dsimp only at number ⊢
  by_cases all : @unpackExponent binary64 b = -1#11
  · have all' : (@unpackExponent binary64 b).toNat = 2047 := congrArg BitVec.toNat all
    rw [if_pos all] at number ⊢
    by_cases none : @unpackMantissa binary64 b = 0#52
    · have none' : (@unpackMantissa binary64 b).toNat = 0 := congrArg BitVec.toNat none
      rw [if_pos none]
      refine ⟨trivial, congrArg (Sign.apply _) ?_⟩
      omega
    · exact absurd (if_neg none) number
  have some : (@unpackExponent binary64 b).toNat ≠ 2047 := fun same =>
    all (BitVec.eq_of_toNat_eq same)
  rw [if_neg all]
  by_cases least : @unpackExponent binary64 b = 0#11
  · have least' : (@unpackExponent binary64 b).toNat = 0 := congrArg BitVec.toNat least
    rw [if_pos least]
    by_cases none : @unpackMantissa binary64 b = 0#52
    · have none' : (@unpackMantissa binary64 b).toNat = 0 := congrArg BitVec.toNat none
      have zero : b.toNat % 2 ^ 63 = 0 := by omega
      rw [dif_pos none, zero]
      exact ⟨trivial, (apply_zero _).symm⟩
    · rw [dif_neg none]
      refine ⟨?_, congrArg (Sign.apply _) ?_⟩
      · unfold IsNormal
        omega
      · omega
  · have more : (@unpackExponent binary64 b).toNat ≠ 0 := fun same =>
      least (BitVec.eq_of_toNat_eq same)
    have long := append_toNat (@unpackMantissa binary64 b)
    rw [if_neg least]
    refine ⟨?_, congrArg (Sign.apply _) ?_⟩
    · unfold IsNormal
      omega
    · omega

/-- Of two numbers with the same sign the one with the greater exponent is the greater one, as its
mantissa is as long as it can be. -/
theorem magnitude_lt {e f : Int} {m n : Nat} (least : -1074 ≤ e) (short : m < 2 ^ 53)
    (long : -1074 < f → 2 ^ 52 ≤ n) (less : (compare e f).then (compare m n) = .lt) :
    (e + 1074) * 2 ^ 52 + m < (f + 1074) * 2 ^ 52 + n := by
  rcases Ordering.then_eq_lt.1 less with lower | ⟨same, lower⟩
  · have lower := Int.compare_eq_lt.1 lower
    have long := long (by omega)
    omega
  · have same := Int.compare_eq_eq.1 same
    have lower := Nat.compare_eq_lt.1 lower
    omega

/-- A finite number other than zero lies between zero and infinity. -/
theorem magnitude_bounds {s : Sign} {m : Nat} {e : Int} {positive : 0 < m}
    (normal : IsNormal (.finite s m e positive)) :
    0 < (e + 1074) * 2 ^ 52 + m ∧ (e + 1074) * 2 ^ 52 + m < 2047 * 2 ^ 52 := by
  obtain ⟨least, most, short, -⟩ := normal
  omega

/-- A number that is less than another one has a lower place. -/
theorem place_lt_place {u v : UnpackedFloat} (left : IsNormal u) (right : IsNormal v)
    (less : u.compare v = some .lt) : place u < place v := by
  -- Numbers of different kinds are compared by their signs alone.
  cases u with
  | notANumber => cases less
  | infinity s =>
    cases v with
    | notANumber => cases s <;> cases less
    | infinity t =>
      cases s <;> cases t <;> cases less
      decide
    | zero t =>
      cases s <;> cases less
      exact Int.neg_neg_of_pos (by decide)
    | finite t m e positive =>
      have bounds := magnitude_bounds right
      cases s <;> cases t <;> cases less
      all_goals
        dsimp only [place, Sign.apply]
        omega
  | zero s =>
    cases v with
    | notANumber => cases less
    | infinity t =>
      cases t <;> cases less
      exact (by decide : (0 : Int) < 2047 * 2 ^ 52)
    | zero t => cases less
    | finite t m e positive =>
      have bounds := magnitude_bounds right
      cases t <;> cases less
      exact bounds.1
  | finite s m e positive =>
    have bounds := magnitude_bounds left
    cases v with
    | notANumber => cases s <;> cases less
    | infinity t =>
      cases s <;> cases t <;> cases less
      all_goals
        dsimp only [place, Sign.apply]
        omega
    | zero t =>
      cases s <;> cases less
      exact Int.neg_neg_of_pos bounds.1
    | finite t n f positive' =>
      have bounds' := magnitude_bounds right
      obtain ⟨least, -, short, long⟩ := left
      obtain ⟨least', -, short', long'⟩ := right
      cases s <;> cases t
      · have less : ((compare e f).then (compare m n)).swap = .lt := Option.some.inj less
        rw [Ordering.swap_then, Int.compare_swap, Nat.compare_swap] at less
        have higher := magnitude_lt least' short' long less
        dsimp only [place, Sign.apply]
        omega
      · dsimp only [place, Sign.apply]
        omega
      · cases less
      · exact magnitude_lt least short long' (Option.some.inj less)

/-! ## The total order -/

/-- The rank of a word is its place, where negative words come one earlier. -/
theorem rank_eq (x : Float) (number : x.toModel.unpack ≠ .notANumber) :
    (0 ≤ rank x ∧ rank x = place x.toModel.unpack) ∨
      (rank x < 0 ∧ rank x = place x.toModel.unpack - 1) := by
  have sign := unpackSign_toNat x.toModel.toBits.toBitVec
  have small := x.toBits.toNat_lt
  have word : x.toModel.toBits.toBitVec.toNat = x.toBits.toNat := rfl
  rw [Float.Model.unpack, (place_unpack _ number).2, word, Sign.ofBitVec]
  rw [word] at sign
  unfold rank
  dsimp only
  by_cases positive : @unpackSign binary64 x.toModel.toBits.toBitVec = 0#1
  · have none : (@unpackSign binary64 x.toModel.toBits.toBitVec).toNat = 0 :=
      congrArg BitVec.toNat positive
    have low : x.toBits.toNat < 0x8000000000000000 := by omega
    rw [if_pos positive, if_pos low, Sign.apply]
    exact .inl (by omega)
  · have other : (@unpackSign binary64 x.toModel.toBits.toBitVec).toNat ≠ 0 := fun same =>
      positive (BitVec.eq_of_toNat_eq same)
    have high : ¬x.toBits.toNat < 0x8000000000000000 := by omega
    rw [if_neg positive, if_neg high, Sign.apply]
    exact .inr (by omega)

/-- A float that is less than another one comes before it. -/
theorem rank_lt_rank {x y : Float} (less : x < y) : rank x < rank y := by
  have compared : x.toModel.unpack.compare y.toModel.unpack = some .lt :=
    beq_iff_eq.1 (of_decide_eq_true (less : x.lt y = true))
  have left : x.toModel.unpack ≠ .notANumber := by
    intro none
    rw [none] at compared
    cases compared
  have right : y.toModel.unpack ≠ .notANumber := by
    intro none
    rw [none] at compared
    cases known : x.toModel.unpack with
    | infinity s => rw [known] at compared; cases s <;> cases compared
    | finite s m e positive => rw [known] at compared; cases s <;> cases compared
    | _ => rw [known] at compared; cases compared
  have places : place x.toModel.unpack < place y.toModel.unpack :=
    place_lt_place (place_unpack _ left).1 (place_unpack _ right).1 compared
  rcases rank_eq x left with first | first <;> rcases rank_eq y right with second | second <;> omega

theorem not_lt_of_notAfter {x y : Float} (before : notAfter x y = true) : ¬y < x := fun less =>
  Int.not_lt.2 (of_decide_eq_true before) (rank_lt_rank less)

end PlanSearch.Decimal
