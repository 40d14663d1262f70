import PlanSearch.Random.Shuffle
import PlanSearch.Selector.Order
import PlanSearch.Text.Layout

/-!
# Selectors

A selector yields candidates one at a time. It is driven by the search: phases and steps are
announced to it, `restart` begins a pass, and `next` yields a candidate or says that the pass is
over. Between calls it keeps a state of its own. All selectors of a search share one generator and
one memory of recorded candidates, which are threaded through the calls.

A loop inside a selector goes on for at most as many rounds as the setting has patience for; a loop
that needs more ends in `Fault.exhausted`.
-/

namespace PlanSearch

open PlanSearch.Random

/-- What all selectors of a search share and change. -/
structure World (M : Type) where
  generator : Generator
  /-- The candidates remembered for other selectors. -/
  memory : M

/-- A computation that draws random numbers and may use the shared memory. -/
abbrev Draw (M α : Type) := StateT (World M) (Except Fault) α

namespace Draw

variable {M α : Type}

/-- Uses the generator. -/
def generate (f : Generator → Except Fault (α × Generator)) : Draw M α := fun w =>
  match f w.generator with
  | .error e => .error e
  | .ok (a, generator) => .ok (a, { w with generator })

/-- A uniform number below a bound. -/
def below (bound : Nat) : Draw M Nat := generate (·.below bound)

/-- Stops without an answer. -/
def fail (e : Fault) : Draw M α := fun _ => .error e

/-- A value that may be missing for lack of an answer. -/
def lift (x : Except Fault α) : Draw M α := fun w => x.map fun a => (a, w)

end Draw

/-- What a selector looks at. -/
structure Setting (S : Type) where
  solution : S
  /-- The number of rounds after which a loop inside a selector counts as endless. -/
  patience : Nat

/-- What the search announces to a selector. -/
inductive Hook where
  | phaseStarted
  | stepStarted
  | stepEnded
  | phaseEnded
  deriving DecidableEq, Repr

/-- A source of candidates of type `C` about solutions of type `S`. -/
structure Selector (M S C : Type) where
  /-- What is kept between calls. -/
  State : Type
  start : State
  cacheType : CacheType := .justInTime
  /-- A pass has no end of its own. -/
  neverEnding : Bool
  /-- How many candidates a pass can be expected to have. -/
  size : S → State → Except Fault Nat
  handle : Hook → Setting S → State → Draw M State
  restart : Setting S → State → Draw M State
  next : Setting S → State → Draw M (Option C × State)
  /-- The selector in its state, as a text. -/
  describe : State → String

namespace Selector

variable {M S C : Type}

/-- The next candidate; a pass that is over is followed by another one. -/
def nextOrRestart (sel : Selector M S C) (set : Setting S) (st : sel.State) :
    Draw M (Option C × sel.State) := do
  let (candidate, st) ← sel.next set st
  match candidate with
  | some c => return (some c, st)
  | none =>
    let st ← sel.restart set st
    sel.next set st

/-- The candidates that are left in the pass, after those in `acc`; at most as many as the number of
rounds. -/
def drain (sel : Selector M S C) (set : Setting S) :
    Nat → sel.State → Array C → Draw M (Array C × sel.State)
  | 0, _, _ => Draw.fail .exhausted
  | rounds + 1, st, acc => do
    let (candidate, st) ← sel.next set st
    match candidate with
    | none => return (acc, st)
    | some c => sel.drain set rounds st (acc.push c)

/-- At most so many of the next candidates. -/
def take (sel : Selector M S C) (set : Setting S) : Nat → sel.State → Draw M (List C × sel.State)
  | 0, st => return ([], st)
  | n + 1, st => do
    let (candidate, st) ← sel.next set st
    match candidate with
    | none => return ([], st)
    | some c =>
      let (cs, st) ← sel.take set n st
      return (c :: cs, st)

/-- The candidates of a whole pass. -/
def pass (sel : Selector M S C) (set : Setting S) (st : sel.State) :
    Draw M (Array C × sel.State) := do
  let st ← sel.restart set st
  sel.drain set set.patience st #[]

/-! ## Candidates from the solution -/

/-- Reads candidates from the solution by their numbers, those below a count: in their order or by
uniform draws. The state is the number of candidates read in this pass. -/
def enumerated (count : S → Nat) (get : S → Nat → Option C) (isRandom : Bool) :
    Selector M S C where
  State := Nat
  start := 0
  neverEnding := isRandom
  size s _ := .ok (count s)
  handle _ _ cursor := pure cursor
  restart _ _ := pure 0
  next set cursor := do
    if isRandom then
      if count set.solution = 0 then return (none, cursor)
      else return (get set.solution (← Draw.below (count set.solution)), cursor)
    else match get set.solution cursor with
      | none => return (none, cursor)
      | some c => return (some c, cursor + 1)
  describe cursor := Text.record "FromSolutionSelector"
    [("random", Text.truth isRandom), ("cursor", toString cursor)]

/-- The candidates of a list that the solution holds. -/
def source (items : S → Array C) (isRandom : Bool) : Selector M S C :=
  enumerated (fun s => (items s).size) (fun s i => (items s)[i]?) isRandom

theorem source_next (items : S → Array C) (isRandom : Bool) (set : Setting S) (cursor : Nat) :
    (source items isRandom : Selector M S C).next set cursor =
      if isRandom then
        if (items set.solution).isEmpty then pure (none, cursor)
        else do return ((items set.solution)[← Draw.below (items set.solution).size]?, cursor)
      else match (items set.solution)[cursor]? with
        | none => pure (none, cursor)
        | some c => pure (some c, cursor + 1) := by
  cases isRandom with
  | false => rfl
  | true => simp [source, enumerated, Array.isEmpty]

/-- The numbers below a count themselves, which are listed nowhere. -/
def indices (count : S → Nat) (isRandom : Bool) : Selector M S Nat :=
  enumerated count (fun s i => if i < count s then some i else none) isRandom

theorem indices_eq_source (count : S → Nat) (isRandom : Bool) :
    (indices count isRandom : Selector M S Nat) =
      source (fun s => Array.range (count s)) isRandom := by
  unfold indices source
  congr 1
  · funext s
    simp
  · funext s i
    split <;> simp_all

end Selector

end PlanSearch
