import PlanSearch.Decimal.Shortest

/-!
# Written decimals

How floats appear in texts. A layout says which decimal exponents are written positionally and
whether a whole number keeps a point; the digits are always the shortest that read back.
-/

namespace PlanSearch.Decimal

/-- The choices in writing a float. -/
structure Layout where
  /-- The exponents of the leading digit that are written positionally; all if absent. -/
  positional : Option (Int × Int)
  /-- A whole number is written with `.0`. -/
  keepPoint : Bool

/-- The layout of values in descriptions: very small and very large ones have an exponent. -/
def Layout.described : Layout := ⟨some (-4, 15), true⟩

/-- The layout of values inside sentences: never an exponent, no point in whole numbers. -/
def Layout.plain : Layout := ⟨none, false⟩

private def digitChars (n : Nat) : List Char := Nat.toDigits 10 n

private def positionalChars (keepPoint : Bool) (p : Point) : List Char :=
  let ds := digitChars p.digits
  if 0 ≤ p.exponent then
    ds ++ List.replicate p.exponent.toNat '0' ++ (if keepPoint then ['.', '0'] else [])
  else
    let places := (-p.exponent).toNat
    if places < ds.length then
      ds.take (ds.length - places) ++ '.' :: ds.drop (ds.length - places)
    else '0' :: '.' :: List.replicate (places - ds.length) '0' ++ ds

private def exponentChars (p : Point) : List Char :=
  let ds := digitChars p.digits
  let e := p.exponent + ds.length - 1
  ds.take 1 ++ (if ds.length = 1 then [] else '.' :: ds.drop 1) ++ 'e' :: (toString e).toList

/-- A float as text. -/
def Layout.text (layout : Layout) (x : Float) : String :=
  if x.isNaN then "NaN"
  else
    let sign := if x.toBits.toNat < 0x8000000000000000 then [] else ['-']
    let magnitude :=
      if x.isInf then "inf".toList
      else if x == 0.0 then (if layout.keepPoint then "0.0" else "0").toList
      else
        let p := (Binary.ofFloat x).shortest
        let lead := p.exponent + (digitChars p.digits).length - 1
        let positional := match layout.positional with
          | none => true
          | some (low, high) => decide (low ≤ lead ∧ lead ≤ high)
        if positional then positionalChars layout.keepPoint p else exponentChars p
    String.ofList (sign ++ magnitude)

/-- A float in a description. -/
def describe (x : Float) : String := Layout.described.text x

/-- A float in a sentence. -/
def plain (x : Float) : String := Layout.plain.text x

end PlanSearch.Decimal
