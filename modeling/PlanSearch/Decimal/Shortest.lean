/-!
# Shortest decimals

The decimal of fewest digits that reads back as a given binary number: of those with that many
digits the nearest one, and of two equally near ones the larger. All comparisons are made on
natural numbers.
-/

namespace PlanSearch.Decimal

/-- A positive number `significand * 2 ^ exponent`, as a 64-bit float holds it. -/
structure Binary where
  significand : Nat
  exponent : Int
  /-- The neighbour below is only half as far away as the one above. -/
  narrowBelow : Bool
  deriving DecidableEq

/-- The magnitude of a finite float; zero has significand zero. -/
def Binary.ofFloat (x : Float) : Binary :=
  let bits := x.toBits.toNat
  let fraction : Nat := bits % 0x10000000000000
  let biased : Nat := bits / 0x10000000000000 % 0x800
  if biased = 0 then ⟨fraction, -1074, false⟩
  else ⟨0x10000000000000 + fraction, (biased : Int) - 1075, fraction == 0 && decide (1 < biased)⟩

/-- A number `digits * 10 ^ exponent`. -/
structure Point where
  digits : Nat
  exponent : Int
  deriving DecidableEq

/-- Compares a decimal with `quarters * 2 ^ (exponent - 2)`. -/
def Point.compareQuarters (p : Point) (quarters : Nat) (exponent : Int) : Ordering :=
  let left := p.digits * Nat.pow 10 p.exponent.toNat * Nat.pow 2 (2 - exponent).toNat
  let right := quarters * Nat.pow 2 (exponent - 2).toNat * Nat.pow 10 (-p.exponent).toNat
  compare left right

/-- The decimal lies among the reals that round to the binary number. The ends of that interval
belong to it when the significand is even. -/
def Point.readsAs (p : Point) (b : Binary) : Bool :=
  let even := b.significand % 2 == 0
  let low := 4 * b.significand - (if b.narrowBelow then 1 else 2)
  let high := 4 * b.significand + 2
  let fromLow := p.compareQuarters low b.exponent
  let toHigh := p.compareQuarters high b.exponent
  (fromLow == .gt || (even && fromLow == .eq)) && (toHigh == .lt || (even && toHigh == .eq))

/-- The binary number in units of `10 ^ exponent`, as a fraction. -/
def Binary.inUnits (b : Binary) (exponent : Int) : Nat × Nat :=
  (b.significand * Nat.pow 2 b.exponent.toNat * Nat.pow 10 (-exponent).toNat,
    Nat.pow 2 (-b.exponent).toNat * Nat.pow 10 exponent.toNat)

/-- The decimal exponent of the leading digit, found from a start that is not too large. -/
def Binary.leadingExponent (b : Binary) : Nat → Int → Int
  | 0, e => e
  | fuel + 1, e =>
    let (num, den) := b.inUnits (e + 1)
    if num < den then e else b.leadingExponent fuel (e + 1)

/-- The decimal exponent of the leading digit, or one less: the position of the leading bit times
the common logarithm of two. -/
def Binary.leadingEstimate (b : Binary) : Int :=
  Int.fdiv (((b.significand.log2 : Int) + b.exponent) * 30103) 100000

/-- The nearer of the two neighbours on the grid of the given unit that read back. -/
def Binary.onGrid (b : Binary) (exponent : Int) : Option Point :=
  let (num, den) := b.inUnits exponent
  let below : Point := ⟨num / den, exponent⟩
  let above : Point := ⟨num / den + 1, exponent⟩
  match below.readsAs b, above.readsAs b with
  | true, true => if 2 * (num % den) < den then some below else some above
  | true, false => some below
  | false, true => some above
  | false, false => none

/-- Drops the zeros at the end of a decimal. -/
def Point.trimZeros : Nat → Point → Point
  | 0, p => p
  | fuel + 1, p =>
    if p.digits % 10 = 0 ∧ p.digits ≠ 0 then trimZeros fuel ⟨p.digits / 10, p.exponent + 1⟩ else p

/-- The shortest decimal that reads back as a positive binary number. Seventeen digits are always
enough; the exact value closes the search all the same. -/
def Binary.shortest (b : Binary) : Point :=
  let lead := b.leadingExponent 4 (b.leadingEstimate - 1)
  let grids := (List.range 17).map fun (k : Nat) => lead - (k : Int)
  match grids.findSome? b.onGrid with
  | some p => p.trimZeros 20
  | none =>
    if 0 ≤ b.exponent then ⟨b.significand * Nat.pow 2 b.exponent.toNat, 0⟩
    else ⟨b.significand * Nat.pow 5 (-b.exponent).toNat, b.exponent⟩

end PlanSearch.Decimal
