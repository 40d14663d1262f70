/-!
# The beta distribution

The distribution function of the beta distribution is the regularised incomplete beta function,
computed here by a continued fraction; its inverse is found by halving an interval.
-/

namespace PlanSearch.Nearby.IncompleteBeta

private def lanczos : List Float :=
  [676.5203681218851, -1259.1392167224028, 771.32342877765313, -176.61502916214059,
   12.507343278686905, -0.13857109526572012, 9.9843695780195716e-6, 1.5056327351493116e-7]

/-- The logarithm of the gamma function at a positive argument, by an approximation with eight
coefficients. Small arguments are moved up by one. -/
def logGamma (x : Float) : Float :=
  let upper (x : Float) : Float :=
    let x := x - 1.0
    let series := (lanczos.foldl
      (fun (acc : Float × Float) c => (acc.1 + c / (x + acc.2), acc.2 + 1.0))
      (0.99999999999980993, 1.0)).1
    let t := x + 7.5
    0.91893853320467274178 + (x + 0.5) * Float.log t - t + Float.log series
  if x < 0.5 then upper (x + 1.0) - Float.log x else upper x

private def tiny : Float := 1e-300

private def awayFromZero (x : Float) : Float := if x.abs < tiny then tiny else x

/-- Two terms of the continued fraction at a time. -/
def fraction (a b x : Float) : Nat → Float → Float → Float → Float → Float
  | 0, _, _, _, h => h
  | count + 1, m, c, d, h =>
    let even := m * (b - m) * x / ((a + 2.0 * m - 1.0) * (a + 2.0 * m))
    let d := 1.0 / awayFromZero (1.0 + even * d)
    let c := awayFromZero (1.0 + even / c)
    let h := h * d * c
    let odd := -(a + m) * (a + b + m) * x / ((a + 2.0 * m) * (a + 2.0 * m + 1.0))
    let d := 1.0 / awayFromZero (1.0 + odd * d)
    let c := awayFromZero (1.0 + odd / c)
    let step := d * c
    let h := h * step
    if (step - 1.0).abs < 1e-15 then h else fraction a b x count (m + 1.0) c d h

/-- The probability of a value of at most `x`, for `x` on the side where the fraction converges
fast. -/
private def lowerSide (a b x : Float) : Float :=
  let front := Float.exp (logGamma (a + b) - logGamma a - logGamma b +
    a * Float.log x + b * Float.log (1.0 - x))
  let d := 1.0 / awayFromZero (1.0 - (a + b) * x / (a + 1.0))
  front * fraction a b x 500 1.0 1.0 d d / a

/-- The probability of a value of at most `x`. -/
def cumulative (a b x : Float) : Float :=
  if x ≤ 0.0 then 0.0
  else if 1.0 ≤ x then 1.0
  else if x < (a + 1.0) / (a + b + 2.0) then lowerSide a b x
  else 1.0 - lowerSide b a (1.0 - x)

/-- Halves an interval that holds the wanted value. -/
def bisect (a b p : Float) : Nat → Float → Float → Float
  | 0, low, high => (low + high) / 2.0
  | count + 1, low, high =>
    let middle := (low + high) / 2.0
    if cumulative a b middle < p then bisect a b p count middle high
    else bisect a b p count low middle

/-- The value that is not exceeded with probability `p`. -/
def inverse (a b p : Float) : Float :=
  if p ≤ 0.0 then 0.0 else if 1.0 ≤ p then 1.0 else bisect a b p 100 0.0 1.0

end PlanSearch.Nearby.IncompleteBeta
