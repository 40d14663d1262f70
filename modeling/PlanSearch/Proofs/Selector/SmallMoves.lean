import PlanSearch.Proofs.Selector.Small
import PlanSearch.Proofs.Selector.Trees

/-!
# Moves of small selectors

How many runs the chains of a solution have is bounded by their lengths, the number of pairs by the
numbers of what is paired, and the size of a union by the sum over its children. If these bounds are
words, then all sizes are counted.
-/

namespace PlanSearch.Selector

open SubChains

variable {M S C E V : Type} {inside : S → Prop} {most m n : ℕ} {set : Setting S}

/-! ## Runs of chains -/

section Runs

variable {v : ChainedVariable S} {minimum maximum : ℕ} {cache : CacheType} {isRandom : Bool}

/-- All chains that were read can be counted, and they have at most so many runs. -/
structure Counted (minimum maximum most : ℕ) (st : Reading) : Prop where
  fits : ∀ chain ∈ st.chains, CountFits chain.length minimum
  few : (st.chains.flatMap (runsOf minimum maximum)).length ≤ most

theorem Counted.load {g : ChainGraph} (fits : RunsFit minimum maximum g)
    (few : (runsIn minimum maximum g).length ≤ most) (st : Reading) :
    Counted minimum maximum most (st.load minimum g) := by
  refine ⟨fun chain listed => ?_, ?_⟩
  · obtain ⟨root, anchor, rfl⟩ := List.mem_map.1 (List.mem_of_mem_filter listed)
    exact fits.1 root (mem_anchors.1 anchor)
  · rw [flatMap_load]
    exact few

variable (positive : 1 ≤ minimum) (ordered : minimum ≤ maximum) {st : Reading}
variable (counted : Counted minimum maximum most st)
include positive ordered counted

theorem Counted.drawRun : (drawRun minimum maximum st.chains : Draw M _).Fits fun _ => True := by
  unfold Selector.drawRun
  split
  · exact .pure trivial
  · rename_i some_
    refine (Draw.Fits.below (by simpa using some_)).bind fun i _ => ?_
    have fits : CountFits (st.chains.getD i []).length minimum := by
      rw [List.getD_eq_getElem?_getD]
      cases at_ : st.chains[i]? with
      | none => exact ⟨Nat.zero_le _, fun long => absurd (positive.trans long) (by simp)⟩
      | some chain => exact counted.fits chain (List.mem_of_getElem? at_)
    dsimp only
    rw [(hingesOn_count positive ordered _).1 fits]
    refine (Draw.Fits.lift (.ok _)).bind fun total _ => ?_
    split
    · exact .pure trivial
    · rename_i positive
      exact (Draw.Fits.below positive).bind fun _ _ => .pure trivial

omit counted in
/-- A run leaves fewer runs of the chains that were read. -/
theorem length_left_lt {run : Option SubChain} {place : Place} (found : nextRun minimum maximum
      (st.chains.drop st.place.chain) st.place.chain st.place.first st.place.last = (run, place)) :
    run.isSome → (({ st with place } : SubChains.Reading).left minimum maximum).length <
      (st.left minimum maximum).length := by
  intro some_
  obtain ⟨place', same, others⟩ := st.exists_nextRun positive ordered
  obtain ⟨rfl, rfl⟩ := Prod.mk.inj (same.symm.trans found)
  rw [others, List.length_tail]
  cases left : st.left minimum maximum with
  | nil => simp [left] at some_
  | cons run rest => simp

omit counted in
theorem few_subChains {sel : Selector M S SubChain}
    (made : subChains v minimum maximum cache isRandom = .ok sel)
    (fits : ∀ s, inside s → RunsFit minimum maximum (v.graph s) ∧
      (runsIn minimum maximum (v.graph s)).length ≤ most) : sel.Few inside most := by
  have sized (s : S) (st : sel.State) (within : inside s) : ∃ k ≤ most, sel.size s st = .ok k :=
    ⟨_, (fits s within).2, (size_subChains made s st).1 (fits s within).1⟩
  rw [subChains, if_neg (by omega), if_neg (by omega)] at made
  obtain rfl := Except.ok.inj made
  have load {s : S} (within : inside s) (st : SubChains.Reading) :=
    Counted.load (fits s within).1 (fits s within).2 st
  have empty (st : SubChains.Reading) : Counted minimum maximum most { st with chains := [] } :=
    ⟨List.forall_mem_nil _, Nat.zero_le _⟩
  let begun (s : S) (st : SubChains.Reading) : SubChains.Reading :=
    { (if cache.isCached then st else SubChains.Reading.load minimum (v.graph s) st) with
      place := ⟨0, 0, minimum - 1⟩ }
  have begins {s : S} (within : inside s) {st : SubChains.Reading}
      (counted : Counted minimum maximum most st) : Counted minimum maximum most (begun s st) := by
    dsimp only [begun]
    split
    · exact ⟨counted.fits, counted.few⟩
    · exact ⟨(load within st).fits, (load within st).few⟩
  refine ⟨⟨Counted minimum maximum most, ⟨List.forall_mem_nil _, Nat.zero_le _⟩,
    fun within _ => sized _ _ within,
    fun hook {set} (st : SubChains.Reading) within counted => ?_,
    fun {set} (st : SubChains.Reading) within counted => .pure (begins within counted),
    fun {set} (st : SubChains.Reading) within counted => ?_⟩,
    fun listed => ⟨⟨fun st : SubChains.Reading => (st.left minimum maximum).length,
      fun {set} (st : SubChains.Reading) within counted => .pure ?_,
      fun {set} (st : SubChains.Reading) within counted => ?_⟩⟩⟩
  · have loaded : (pure (SubChains.Reading.load minimum (v.graph set.solution) st) :
        Draw M SubChains.Reading).Fits (Counted minimum maximum most) := .pure (load within st)
    cases hook <;> cases cache <;>
      first
      | exact loaded
      | exact .pure counted
      | exact .pure (empty st)
  · dsimp only
    split
    · exact (counted.drawRun positive ordered).bind fun _ _ => .pure counted
    · exact .pure ⟨counted.fits, counted.few⟩
  · have all : (begun set.solution st).left minimum maximum =
        (begun set.solution st).chains.flatMap (runsOf minimum maximum) :=
      remaining_start positive maximum _
    change ((begun set.solution st).left minimum maximum).length ≤ most
    rw [all]
    exact (begins within counted).few
  · obtain rfl : isRandom = false := listed
    exact .pure (length_left_lt positive ordered rfl)

end Runs

/-! ## Pairs -/

section Pairs

variable {entities : Selector M S E} {values : Selector M S V}
variable (es : entities.Small inside m) (vs : values.Small inside n)

/-- What is known of both selectors. -/
def Pairing.Small (st : Pairing entities values) : Prop :=
  es.Inv st.entities ∧ vs.Inv st.values

namespace Pairing.Small

variable {es vs} (within : inside set.solution) {st : Pairing entities values}

theorem size {s : S} (within : inside s) (known : st.Small es vs) :
    ∃ k l, entities.size s st.entities = .ok k ∧ values.size s st.values = .ok l ∧
      pairCount k l ≤ m * n := by
  obtain ⟨k, few, sized⟩ := es.size within known.1
  obtain ⟨l, few', sized'⟩ := vs.size within known.2
  exact ⟨k, l, sized, sized', (Nat.min_le_left ..).trans (Nat.mul_le_mul few few')⟩

include within

theorem handle (known : st.Small es vs) (hook : Hook) :
    (st.handle hook set).Fits (Small es vs) :=
  (es.handle hook within known.1).bind fun _ first =>
    (vs.handle hook within known.2).bind fun _ second => .pure ⟨first, second⟩

theorem restart (known : st.Small es vs) : (st.restart set).Fits (Small es vs) :=
  (es.restart within known.1).bind fun _ first => .pure ⟨first, known.2⟩

theorem drawPair (known : st.Small es vs) : (st.drawPair set).Fits fun r => Small es vs r.2 := by
  refine (es.nextOrRestart within known.1).bind fun ⟨e, _⟩ first => ?_
  cases e with
  | none => exact .pure ⟨first, known.2⟩
  | some e =>
    exact (vs.nextOrRestart within known.2).bind fun _ second => .pure ⟨first, second⟩

theorem advance (known : st.Small es vs) : (st.advance set).Fits fun r => Small es vs r.2 := by
  unfold Pairing.advance
  split
  · exact .pure known
  · refine (es.next within known.1).bind fun ⟨e, _⟩ first => ?_
    cases e with
    | none => exact .pure ⟨first, known.2⟩
    | some e => exact (vs.restart within known.2).bind fun _ second => .pure ⟨first, second⟩

theorem nextPair (known : st.Small es vs) (rounds : ℕ) :
    (st.nextPair set rounds).Fits fun r => Small es vs r.2 := by
  induction rounds generalizing st with
  | zero => exact .fail nofun
  | succ rounds ih =>
    rw [nextPair_succ]
    refine (known.advance within).bind fun ⟨e, st⟩ known => ?_
    cases e with
    | none => exact .pure known
    | some e =>
      refine (vs.next within known.2).bind fun ⟨x, _⟩ second => ?_
      cases x with
      | some x => exact .pure ⟨known.1, second⟩
      | none => exact ih ⟨known.1, second⟩

end Pairing.Small

def smallChanges (isRandom : Bool) (move : E → V → Move S) (name : String) :
    (changes entities values isRandom move name).Small inside (m * n) where
  Inv := Pairing.Small es vs
  start := ⟨es.start, vs.start⟩
  size within known := by
    obtain ⟨k, l, sized, sized', few⟩ := Pairing.Small.size within known
    simp only [changes, sized, sized']
    exact ⟨_, few, rfl⟩
  handle hook _ _ within known := Pairing.Small.handle within known hook
  restart within known := Pairing.Small.restart within known
  next {set} {st : Pairing entities values} within known := by
    simp only [changes]
    split
    · exact (Pairing.Small.drawPair within known).bind fun _ known => .pure known
    · exact (Pairing.Small.nextPair within known _).bind fun _ known => .pure known

def smallSubChainChanges {v : ChainedVariable S} {runs : Selector M S SubChain}
    {targets : Selector M S Handle} (rs : runs.Small inside m) (vs : targets.Small inside n)
    (reversingToo isRandom : Bool) :
    (subChainChanges v runs targets reversingToo isRandom).Small inside (m * n * 2) where
  Inv (st : Pairing runs targets × Option (Move S)) := st.1.Small rs vs
  start := ⟨rs.start, vs.start⟩
  size within known := by
    obtain ⟨k, l, sized, sized', few⟩ := Pairing.Small.size within known
    simp only [subChainChanges, sized, sized']
    refine ⟨_, ?_, rfl⟩
    split
    · exact (Nat.min_le_left ..).trans (Nat.mul_le_mul_right 2 few)
    · omega
  handle hook _ _ within known :=
    (Pairing.Small.handle within known hook).bind fun _ known => .pure known
  restart within known := (Pairing.Small.restart within known).bind fun _ known => .pure known
  next {set} {st : Pairing runs targets × Option (Move S)} within known := by
    obtain ⟨pairing, pending⟩ := st
    simp only [subChainChanges]
    split
    · refine (Pairing.Small.drawPair within known).bind fun ⟨pair, pairing⟩ known => ?_
      cases pair with
      | none => exact .pure known
      | some pair =>
        dsimp only
        split
        · exact (Draw.Fits.generate fun _ => .ok _).bind fun _ _ => .pure known
        · exact .pure known
    · cases pending with
      | some reverse => exact .pure known
      | none =>
        refine (Pairing.Small.nextPair within known _).bind fun ⟨pair, pairing⟩ known => ?_
        cases pair <;> exact .pure known

end Pairs

/-! ## Unions -/

/-- Several selectors that are small, and the sum of how many candidates they have at most. -/
inductive Smalls (inside : S → Prop) : List (Selector M S C) → ℕ → Type 1
  | nil : Smalls inside [] 0
  | cons {child : Selector M S C} {rest : List (Selector M S C)} {m n : ℕ}
    (small : child.Small inside m) (others : Smalls inside rest n) :
    Smalls inside (child :: rest) (m + n)

namespace Smalls

/-- What is known of the states of all selectors. -/
def Inv : {children : List (Selector M S C)} → {total : ℕ} → Smalls inside children total →
    States children → Prop
  | _, _, .nil, _ => True
  | _, _, .cons small others, (st, sts) => small.Inv st ∧ others.Inv sts

variable {children : List (Selector M S C)} {total : ℕ} (smalls : Smalls inside children total)
variable {sts : States children}

theorem start : smalls.Inv (States.start children) := by
  induction smalls with
  | nil => trivial
  | cons small _ ih => exact ⟨small.start, ih⟩

theorem sizes {s : S} (within : inside s) (inv : smalls.Inv sts) :
    ∃ sizes, States.sizes s children sts = .ok sizes ∧ sizes.sum ≤ total := by
  induction smalls with
  | nil => exact ⟨[], rfl, le_rfl⟩
  | cons small _ ih =>
    obtain ⟨st, sts⟩ := sts
    obtain ⟨k, few, known⟩ := small.size within inv.1
    obtain ⟨ks, others, fewer⟩ := ih inv.2
    rw [States.sizes, known, others]
    exact ⟨k :: ks, rfl, by rw [List.sum_cons]; omega⟩

variable (within : inside set.solution) (inv : smalls.Inv sts)
include within inv

theorem handle (hook : Hook) :
    (States.mapM (fun child => child.handle hook set) children sts).Fits smalls.Inv := by
  induction smalls with
  | nil => exact .pure trivial
  | cons small _ ih =>
    exact (small.handle hook within inv.1).bind fun _ first =>
      (ih inv.2).bind fun _ others => .pure ⟨first, others⟩

theorem restart : (States.mapM (fun child => child.restart set) children sts).Fits smalls.Inv := by
  induction smalls with
  | nil => exact .pure trivial
  | cons small _ ih =>
    exact (small.restart within inv.1).bind fun _ first =>
      (ih inv.2).bind fun _ others => .pure ⟨first, others⟩

theorem nextAt (i : ℕ) : (States.nextAt set children i sts).Fits fun r => smalls.Inv r.2 := by
  have visited : (States.visit (fun child st => child.nextOrRestart set st) children i sts).Fits
      fun r => smalls.Inv r.2 := by
    induction smalls generalizing i with
    | nil => exact .pure trivial
    | cons small _ ih =>
      cases i with
      | zero =>
        exact (small.nextOrRestart within inv.1).bind fun _ first => .pure ⟨first, inv.2⟩
      | succ i => exact (ih inv.2 i).bind fun _ others => .pure ⟨inv.1, others⟩
  exact visited.bind fun _ inv => .pure inv

theorem nextAmong (order : List ℕ) :
    (States.nextAmong set children order sts).Fits fun r => smalls.Inv r.2 := by
  induction order generalizing sts with
  | nil => exact .pure inv
  | cons i rest ih =>
    refine (smalls.nextAt within inv i).bind fun ⟨c, sts⟩ inv => ?_
    cases c with
    | some c => exact .pure inv
    | none => exact ih inv

theorem nextFrom (i : ℕ) :
    (States.nextFrom set children i sts).Fits fun r => smalls.Inv r.2.2 := by
  induction smalls generalizing i with
  | nil => exact .pure trivial
  | cons small _ ih =>
    cases i with
    | succ i => exact (ih inv.2 i).bind fun _ others => .pure ⟨inv.1, others⟩
    | zero =>
      refine (small.next within inv.1).bind fun ⟨c, _⟩ first => ?_
      cases c with
      | some c => exact .pure ⟨first, inv.2⟩
      | none => exact (ih inv.2 0).bind fun _ others => .pure ⟨first, others⟩

end Smalls

def smallUnion {children : List (Selector M S C)} {total : ℕ}
    (smalls : Smalls inside children total) (fits : total ≤ Count.max) (isRandom : Bool) :
    (union children isRandom).Small inside total where
  Inv (st : ℕ × States children) := smalls.Inv st.2
  start := smalls.start
  size within inv := by
    obtain ⟨sizes, known, few⟩ := smalls.sizes within inv
    simp only [union, known]
    exact ⟨_, few, (hingesOn_totalSize sizes).1 (few.trans fits)⟩
  handle hook _ _ within inv := (smalls.handle within inv hook).bind fun _ inv => .pure inv
  restart within inv := (smalls.restart within inv).bind fun _ inv => .pure inv
  next {set} {st : ℕ × States children} within inv := by
    simp only [union]
    split
    · obtain ⟨sizes, known, few⟩ := smalls.sizes within inv
      rw [known, Draw.lift_bind, (hingesOn_totalSize sizes).1 (few.trans fits), Draw.lift_bind]
      split
      · exact .pure inv
      · rename_i some_
        exact (Draw.Fits.below some_).bind fun _ _ =>
          (smalls.nextAmong within inv _).bind fun _ inv => .pure inv
    · exact smalls.nextFrom within inv _

end PlanSearch.Selector
