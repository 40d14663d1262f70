/-!
# Numbers of two kinds

A search computes shares and weights in floating-point numbers. The definitions leave open in which
numbers they compute, so that fractions can show what floating-point numbers stand for.

Floats are sorted by a total order: their numeric order, with negative zero before zero, and with
what is no number at the end. By the sign bit alone, one half of what is no number would stand before
all numbers; but the bits of a float do not keep that sign.
-/

namespace PlanSearch

/-- Numbers in which shares and weights are computed. -/
class Scale (α : Type) extends Add α, Sub α, Mul α, Div α, LT α, LE α where
  decLt : DecidableLT α
  decLe : DecidableLE α
  ofLevel : Int64 → α
  ofCount : Nat → α

instance decidableLtOfScale {α : Type} [Scale α] : DecidableLT α := Scale.decLt

instance decidableLeOfScale {α : Type} [Scale α] : DecidableLE α := Scale.decLe

instance : Scale Float where
  decLt := inferInstance
  decLe := inferInstance
  ofLevel := Int64.toFloat
  ofCount := Float.ofNat

instance : Scale Rat where
  decLt := inferInstance
  decLe := inferInstance
  ofLevel x := x.toInt
  ofCount n := n

namespace Decimal

/-- The place of a float in the total order. All that is no number has the same bits, without a sign,
and so the last place. -/
def rank (x : Float) : Int :=
  let bits := x.toBits.toNat
  if bits < 0x8000000000000000 then bits else -((bits - 0x8000000000000000 : Nat) : Int) - 1

/-- The first float does not come after the second. -/
def notAfter (x y : Float) : Bool := decide (rank x ≤ rank y)

end Decimal

end PlanSearch
