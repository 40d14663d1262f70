import PlanSearch.Fault
import PlanSearch.Random.Cipher

/-!
# Seeded draws

A generator is a key and a position in its keystream. Uniform draws below a bound multiply the
bound into a word and keep the high half; a second word corrects the small bias that is left.
-/

namespace PlanSearch.Random

/-- A keystream and the place up to which it has been used. -/
structure Generator where
  key : Key
  position : Nat
  deriving DecidableEq

namespace Generator

/-- One step of the congruential sequence that expands a seed. -/
def expandStep (state : UInt64) : UInt64 :=
  state * 6364136223846793005 + 11634580027462260723

/-- The word that a state of the expanding sequence stands for. -/
def expandWord (state : UInt64) : UInt32 :=
  let x := (((state >>> 18) ^^^ state) >>> 27).toUInt32
  let by_ := (state >>> 59).toUInt32
  if by_ = 0 then x else (x >>> by_) ||| (x <<< (32 - by_))

/-- The generator that a seed stands for. -/
def ofSeed (seed : UInt64) : Generator :=
  let states := (List.range 8).foldl
    (fun (acc : List UInt64 × UInt64) _ => let s := expandStep acc.2; (acc.1 ++ [s], s)) ([], seed)
  let words := states.1.map expandWord
  { key := Vector.ofFn fun i => words.getD i 0, position := 0 }

/-- The next 32 bits. -/
def nextWord (g : Generator) : UInt32 × Generator :=
  (Cipher.word g.key g.position, { g with position := g.position + 1 })

/-- The next 64 bits; the low half comes first. -/
def nextLong (g : Generator) : UInt64 × Generator :=
  let (low, g) := g.nextWord
  let (high, g) := g.nextWord
  (low.toUInt64 ||| (high.toUInt64 <<< 32), g)

/-- A number in `[0, 1)`, a multiple of `2 ^ -53`. -/
def nextUnit (g : Generator) : Float × Generator :=
  let (w, g) := g.nextLong
  ((w >>> 11).toFloat / 9007199254740992.0, g)

/-- One draw of a word of `2 ^ bits` values, as a number. -/
private def nextBits (wide : Bool) (g : Generator) : Nat × Generator :=
  if wide then let (w, g) := g.nextLong; (w.toNat, g)
  else let (w, g) := g.nextWord; (w.toNat, g)

/-- A uniform number below `bound`. Bounds of up to 32 bits use single words, larger ones pairs of
words. There is nothing to draw below zero. -/
def below (bound : Nat) (g : Generator) : Except Fault (Nat × Generator) :=
  if bound = 0 then .error .broken
  else
    let wide := decide (0x100000000 ≤ bound)
    let modulus := if wide then 0x10000000000000000 else 0x100000000
    let (first, g) := nextBits wide g
    let high := first * bound / modulus
    let low := first * bound % modulus
    if modulus - bound < low then
      let (second, g) := nextBits wide g
      let carry := low + second * bound / modulus
      .ok (if modulus ≤ carry then high + 1 else high, g)
    else .ok (high, g)

/-- A number in `[0, bound)`; the bound has to be positive and finite. -/
def belowFloat (bound : Float) (g : Generator) : Except Fault (Float × Generator) :=
  if !(0.0 < bound) || bound.isInf then .error .broken
  else
    let (w, g) := g.nextLong
    let unit := Float.ofBits ((w >>> 12) ||| 0x3ff0000000000000) - 1.0
    .ok (unit * bound, g)

/-- True with the given probability. Certainty needs no draw. -/
def chance (probability : Float) (g : Generator) : Except Fault (Bool × Generator) :=
  if probability == 1.0 then .ok (true, g)
  else if 0.0 ≤ probability && probability < 1.0 then
    let threshold := (probability * 18446744073709551616.0).toUInt64
    let (w, g) := g.nextLong
    .ok (decide (w < threshold), g)
  else .error .broken

/-- True with probability one half. -/
def coin (g : Generator) : Bool × Generator :=
  let (w, g) := g.nextLong
  (decide (w < 0x8000000000000000), g)

end Generator

end PlanSearch.Random
