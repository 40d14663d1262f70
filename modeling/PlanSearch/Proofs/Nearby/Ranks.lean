import PlanSearch.Proofs.Decimal.Order
import PlanSearch.Config.Selector
import PlanSearch.Proofs.Random.Draws
import PlanSearch.Proofs.Selector.Origins

/-!
# Ranks of nearby destinations

A matrix answers every question about an origin and a rank from one ranking of the destinations for
that origin, whatever it was asked before. A distribution with admissible parameters draws a rank
that is there, whatever its floating-point numbers come to, so that a selector that draws ranks
always finds a destination where there is one.
-/

namespace PlanSearch

namespace Nearby

/-- The meter that has a distance for every two candidates. -/
def Meter.of {C : Type} (distance : C → C → Float) : Meter C := fun a b => .ok (distance a b)

namespace Matrix

variable {S C : Type} [DecidableEq C]

/-! ## Rows -/

omit [DecidableEq C] in
theorem rowLength_le (m : Matrix C) : m.rowLength ≤ m.destinations.size := by
  unfold rowLength
  split
  · exact Nat.min_le_right ..
  · exact Nat.le_refl _

section Rows

variable {m : Matrix C} {meter : S → Meter C} {seen : List S} {s : S} {origin : C}

/-- A row that is made anew is the beginning of a ranking. -/
theorem MadeIn.exists_addRow (made : m.MadeIn meter seen) (shown : s ∈ seen) {ranked : List C}
    (measured : ranking m.destinations.toList (meter s) origin = .ok ranked) :
    ∃ m', m.addRow (meter s) origin = .ok m' ∧ m'.MadeIn meter seen ∧
      m'.destinations = m.destinations ∧ m'.limit = m.limit ∧
      m'.row? origin = some (ranked.take m.rowLength).toArray := by
  refine ⟨_, addRow_eq measured, fun row member => ?_, rfl, rfl, List.lookup_cons_self⟩
  rcases List.mem_cons.1 member with rfl | member
  · exact ⟨s, shown, ranked, measured, rfl⟩
  · exact made row (List.mem_filter.1 member).1

/-- What is looked up for an origin is read off the beginning of a ranking for that origin. -/
theorem MadeIn.exists_destination (made : m.MadeIn meter seen) (shown : s ∈ seen)
    (total : ∀ c ∈ m.destinations.toList, ∃ x, meter s origin c = .ok x) (rank : Nat) :
    ∃ m' ranked, m.destination (meter s) origin rank =
        .ok ((ranked.take m.rowLength)[rank]?, m') ∧
      (∃ s ∈ seen, ranking m.destinations.toList (meter s) origin = .ok ranked) ∧
      m'.MadeIn meter seen ∧ m'.destinations = m.destinations ∧ m'.limit = m.limit := by
  cases known : m.row? origin with
  | some row =>
    obtain ⟨s, shown, ranked, measured, whole⟩ := made _ (Ranks.mem_of_row? known)
    obtain rfl : row = (ranked.take m.rowLength).toArray := whole
    exact ⟨m, ranked, destination_of_row known rank, ⟨s, shown, measured⟩, made, rfl, rfl⟩
  | none =>
    obtain ⟨ranked, measured, -⟩ := exists_ranking total
    obtain ⟨m', added, made, same, limit, found⟩ := made.exists_addRow shown measured
    exact ⟨m', ranked, destination_of_addRow known added found rank, ⟨s, shown, measured⟩, made,
      same, limit⟩

end Rows

/-! ## Questions in any order -/

/-- What is asked of a matrix. -/
inductive Call (C : Type) where
  /-- To make the row of an origin. -/
  | add (origin : C)
  /-- To look up the destination of a rank. -/
  | get (origin : C) (rank : Nat)

/-- The matrix after a call. -/
def Call.apply (meter : Meter C) (m : Matrix C) : Call C → Except Fault (Matrix C)
  | .add origin => m.addRow meter origin
  | .get origin rank => return (← m.destination meter origin rank).2

/-- The matrix after several calls. -/
def after (meter : Meter C) (calls : List (Call C)) (m : Matrix C) : Except Fault (Matrix C) :=
  calls.foldlM (Call.apply meter) m

/-- The rows are all beginnings of rankings of the destinations, cut off at the limit. -/
structure Keeps (m : Matrix C) (destinations : List C) (limit : Option Nat) (meter : Meter C) :
    Prop where
  all : m.destinations.toList = destinations
  limit : m.limit = limit
  made : m.MadeIn (fun _ : Unit => meter) [()]

section Calls

variable {m : Matrix C} {destinations : List C} {limit : Option Nat} {meter : Meter C}
variable (total : ∀ origin, ∀ c ∈ destinations, ∃ x, meter origin c = .ok x)
include total

/-- The answer to a question, and the matrix afterwards. -/
theorem Keeps.exists_destination (keeps : m.Keeps destinations limit meter) (origin : C)
    (rank : Nat) {ranked : List C} (measured : ranking destinations meter origin = .ok ranked) :
    ∃ m', m.destination meter origin rank = .ok ((ranked.take m.rowLength)[rank]?, m') ∧
      m'.Keeps destinations limit meter := by
  have defined : ∀ c ∈ m.destinations.toList, ∃ x, meter origin c = .ok x := by
    rw [keeps.all]
    exact total origin
  obtain ⟨m', ranked', found, ⟨_, _, measured'⟩, made, same, cut⟩ :=
    keeps.made.exists_destination (List.mem_singleton_self ()) defined rank
  rw [keeps.all] at measured'
  obtain rfl := Except.ok.inj (measured.symm.trans measured')
  exact ⟨m', found, by rw [same, keeps.all], cut.trans keeps.limit, made⟩

theorem Keeps.exists_apply (keeps : m.Keeps destinations limit meter) (call : Call C) :
    ∃ m', call.apply meter m = .ok m' ∧ m'.Keeps destinations limit meter := by
  cases call with
  | add origin =>
    obtain ⟨ranked, measured, -⟩ := exists_ranking (total origin)
    rw [← keeps.all] at measured
    obtain ⟨m', added, made, same, cut, -⟩ :=
      keeps.made.exists_addRow (List.mem_singleton_self ()) measured
    exact ⟨m', added, by rw [same, keeps.all], cut.trans keeps.limit, made⟩
  | get origin rank =>
    obtain ⟨ranked, measured, -⟩ := exists_ranking (total origin)
    obtain ⟨m', found, keeps⟩ := keeps.exists_destination total origin rank measured
    refine ⟨m', ?_, keeps⟩
    rw [Call.apply, found]
    rfl

theorem Keeps.exists_after (keeps : m.Keeps destinations limit meter) (calls : List (Call C)) :
    ∃ m', after meter calls m = .ok m' ∧ m'.Keeps destinations limit meter := by
  induction calls generalizing m with
  | nil => exact ⟨m, rfl, keeps⟩
  | cons call calls ih =>
    obtain ⟨m₁, applied, keeps⟩ := keeps.exists_apply total call
    obtain ⟨m', ran, keeps⟩ := ih keeps
    refine ⟨m', ?_, keeps⟩
    rw [after, List.foldlM_cons, applied]
    exact ran

end Calls

/-- For every origin there is one list of the destinations, sorted by their distances and stable,
from which all questions are answered, down to the limit and whatever was asked before. Distances
are in their total order, in which a zero with a sign comes before one without and numbers that are
none have places of their own. -/
theorem destination_ranked (destinations : List C) (distance : C → C → Float) :
    ∃ ranked : C → List C,
      (∀ origin,
        SortedAs (fun a b => Decimal.notAfter (distance origin a) (distance origin b) = true)
          destinations (ranked origin) ∧
        (ranked origin).Pairwise (fun a b => ¬distance origin b < distance origin a) ∧
        ∀ x, (ranked origin).filter (fun d => distance origin d = x) =
          destinations.filter (fun d => distance origin d = x)) ∧
      ∀ (limit : Option Nat) (calls : List (Call C)), ∃ m,
        after (.of distance) calls { destinations := destinations.toArray, limit } = .ok m ∧
        m.rowLength = limit.elim destinations.length (min · destinations.length) ∧
        (∀ origin, ∀ row ∈ m.row? origin, row.toList = (ranked origin).take m.rowLength) ∧
        ∀ origin rank, ∃ m',
          m.destination (.of distance) origin rank =
            .ok (if rank < m.rowLength then (ranked origin)[rank]? else none, m') ∧
          (rank < m.rowLength → ∃ d, (ranked origin)[rank]? = some d) := by
  have total (origin : C) : ∀ c ∈ destinations, ∃ x,
      Meter.of distance origin c = .ok x := fun c _ => ⟨_, rfl⟩
  choose ranked measured sorted using fun origin => exists_ranking (total origin)
  have ordered (origin : C) :
      SortedAs (fun a b => Decimal.notAfter (distance origin a) (distance origin b) = true)
        destinations (ranked origin) := by
    have same : InOrder (Meter.of distance origin) =
        fun a b => Decimal.notAfter (distance origin a) (distance origin b) = true := by
      funext a b
      simp [InOrder, Meter.of]
    exact same ▸ sorted origin
  refine ⟨ranked, fun origin => ⟨ordered origin, ?_, fun x => ?_⟩, fun limit calls => ?_⟩
  · exact (ordered origin).ordered.imp Decimal.not_lt_of_notAfter
  · refine (ordered origin).filter_eq fun a b first second => ?_
    rw [of_decide_eq_true first, of_decide_eq_true second]
    exact decide_eq_true (Int.le_refl _)
  have start : ({ destinations := destinations.toArray, limit } : Matrix C).Keeps destinations limit
      (.of distance) := ⟨rfl, rfl, fun row member => absurd member List.not_mem_nil⟩
  obtain ⟨m, ran, keeps⟩ := start.exists_after total calls
  have length : m.rowLength = limit.elim destinations.length (min · destinations.length) := by
    rw [rowLength, keeps.limit, ← keeps.all, Array.length_toList]
    cases limit <;> rfl
  refine ⟨m, ran, length, fun origin row known => ?_, fun origin rank => ?_⟩
  · obtain ⟨_, _, ranked', measured', whole⟩ := keeps.made _ (Ranks.mem_of_row? known)
    rw [keeps.all] at measured'
    obtain rfl := Except.ok.inj ((measured origin).symm.trans measured')
    exact congrArg Array.toList whole
  · obtain ⟨m', found, -⟩ := keeps.exists_destination total origin rank (measured origin)
    refine ⟨m', ?_, fun below => ?_⟩
    · rw [found, List.getElem?_take]
    · have enough : rank < (ranked origin).length := by
        rw [(ordered origin).perm.length_eq]
        cases limit <;> simp at length <;> omega
      exact ⟨_, List.getElem?_eq_getElem enough⟩

end Matrix

/-! ## Draws of ranks -/

/-- What floating-point numbers come to in a draw. -/
structure Numerics where
  /-- A number in `[0, 1)` is drawn. -/
  unit : Random.Generator → Float × Random.Generator
  /-- The share of the ranks below the one that a drawn number stands for. -/
  share : Distribution → Float → Float
  /-- So many ranks times a share, rounded down. -/
  place : Nat → Float → Nat
  /-- A ratio of a count, rounded. -/
  portion : Float → Nat → Nat

namespace Numerics

/-- The numbers of a search. -/
def standard : Numerics where
  unit := Random.Generator.nextUnit
  share := Distribution.share
  place size share :=
    let place := (size.toUInt64.toFloat * share).floor
    if place ≤ 0.0 then 0 else place.toUInt64.toNat
  portion ratio bound := (ratio * bound.toUInt64.toFloat).round.toUInt64.toNat

variable (num : Numerics)

/-- How many of so many ranks can be drawn, uniform draws over all of them aside. -/
def size (d : Distribution) (bound : Nat) : Nat :=
  match d with
  | .linear sizeMaximum | .parabolic sizeMaximum => min sizeMaximum bound
  | .beta .. => bound
  | .block sizeMinimum sizeMaximum sizeRatio _ =>
    max (min (max (num.portion sizeRatio bound) sizeMinimum) (min sizeMaximum bound)) 1

/-- The rank that a drawn number stands for. -/
def rankOf (d : Distribution) (drawn : Float) (bound : Nat) : Nat :=
  if num.size d bound = 0 then 0
  else min (num.place (num.size d bound) (num.share d drawn)) (num.size d bound - 1)

/-- A block is left aside, and the rank is drawn from all of them. -/
def leavesBlock (d : Distribution) (g : Random.Generator) : Bool :=
  match d with
  | .block _ _ _ uniformProbability =>
    0.0 < uniformProbability && (num.unit g).1 < uniformProbability
  | _ => false

/-- Draws one of so many ranks. -/
def draw (d : Distribution) (bound : Nat) (g : Random.Generator) :
    Except Fault (Nat × Random.Generator) :=
  if bound = 0 then .ok (0, g)
  else match d with
    | .block _ _ _ uniformProbability =>
      if 0.0 < uniformProbability then
        let (chance, g) := num.unit g
        if chance < uniformProbability then g.below bound else g.below (num.size d bound)
      else g.below (num.size d bound)
    | _ =>
      let (drawn, g) := num.unit g
      .ok (num.rankOf d drawn bound, g)

theorem size_standard : standard.size = Distribution.size := by
  funext d bound
  cases d <;> rfl

theorem rankOf_standard : standard.rankOf = Distribution.rankOf := by
  funext d drawn bound
  have clamped (size : Nat) (share : Float) :
      min (standard.place size share) (size - 1) = Distribution.rankAt size share := by
    simp only [standard, Distribution.rankAt]
    split
    · rename_i low
      exact (Nat.zero_min _).trans (if_pos low).symm
    · rename_i high
      exact (if_neg high).symm
  rw [rankOf, size_standard, Distribution.rankOf]
  simp only [← clamped]
  rfl

theorem draw_standard : standard.draw = Distribution.draw := by
  funext d bound g
  unfold draw Distribution.draw
  rw [rankOf_standard, size_standard]
  cases d <;> rfl

end Numerics

namespace Distribution

/-- Parameters that were accepted, be they given as they are or in settings that were checked. -/
inductive Admitted (d : Distribution) : Prop where
  | linear {sizeMaximum : Nat} (made : ofLinear sizeMaximum = .ok d)
  | parabolic {sizeMaximum : Nat} (made : ofParabolic sizeMaximum = .ok d)
  | beta {alpha beta : Float} (made : ofBeta alpha beta = .ok d)
  | block {sizeMinimum sizeMaximum : Nat} {sizeRatio uniformProbability : Float}
      (made : ofBlock sizeMinimum sizeMaximum sizeRatio uniformProbability = .ok d)
  | configured {c : Config.NearbySettings} {isRandom : Bool}
      (checked : c.validate isRandom = .ok ()) (made : c.distribution = .ok d)

/-- The number of ranks that the distribution is cut off at. -/
def sizeMaximum? : Distribution → Option Nat
  | .linear sizeMaximum | .parabolic sizeMaximum | .block _ sizeMaximum _ _ => some sizeMaximum
  | .beta .. => none

/-- A size of zero leaves nothing to draw; a block has at least one rank all the same. -/
def Blank (d : Distribution) : Prop := d = .linear 0 ∨ d = .parabolic 0

section Admitted

variable {d : Distribution}

theorem not_blank_of_ofLinear {n : Nat} (made : ofLinear n = .ok d) : ¬d.Blank := by
  cases n with
  | zero => cases made
  | succ n =>
    cases made
    rintro (blank | blank) <;> cases blank

theorem not_blank_of_ofParabolic {n : Nat} (made : ofParabolic n = .ok d) : ¬d.Blank := by
  cases n with
  | zero => cases made
  | succ n =>
    cases made
    rintro (blank | blank) <;> cases blank

theorem not_blank_of_ofBeta {a b : Float} (made : ofBeta a b = .ok d) : ¬d.Blank := by
  unfold ofBeta at made
  split at made
  · cases made
    rintro (blank | blank) <;> cases blank
  · cases made

theorem not_blank_of_ofBlock {a b : Nat} {x y : Float} (made : ofBlock a b x y = .ok d) :
    ¬d.Blank := by
  unfold ofBlock at made
  split at made
  · cases made
  split at made
  · cases made
  split at made
  · cases made
  · cases made
    rintro (blank | blank) <;> cases blank

theorem not_blank_of_settings {c : Config.NearbySettings} (made : c.distribution = .ok d) :
    ¬d.Blank := by
  unfold Config.NearbySettings.distribution at made
  split at made
  · cases made
  · exact not_blank_of_ofLinear (n := Count.max) made
  · exact not_blank_of_ofLinear made
  · exact not_blank_of_ofParabolic made
  · exact not_blank_of_ofBeta made
  · exact not_blank_of_ofBlock made

theorem Admitted.not_blank (admitted : d.Admitted) : ¬d.Blank := by
  cases admitted with
  | linear made => exact not_blank_of_ofLinear made
  | parabolic made => exact not_blank_of_ofParabolic made
  | beta made => exact not_blank_of_ofBeta made
  | block made => exact not_blank_of_ofBlock made
  | configured checked made => exact not_blank_of_settings made

end Admitted

end Distribution

namespace Numerics

variable (num : Numerics) {d : Distribution} {bound : Nat}

theorem size_pos (filled : ¬d.Blank) (some : 0 < bound) : 0 < num.size d bound := by
  cases d with
  | linear n =>
    have : n ≠ 0 := fun none => filled (.inl (none ▸ rfl))
    exact Nat.lt_min.2 ⟨Nat.pos_of_ne_zero this, some⟩
  | parabolic n =>
    have : n ≠ 0 := fun none => filled (.inr (none ▸ rfl))
    exact Nat.lt_min.2 ⟨Nat.pos_of_ne_zero this, some⟩
  | beta a b => exact some
  | block a b x y => exact Nat.le_max_right ..

theorem size_le (some : 0 < bound) : num.size d bound ≤ bound := by
  cases d with
  | linear n => exact Nat.min_le_right ..
  | parabolic n => exact Nat.min_le_right ..
  | beta a b => exact Nat.le_refl _
  | block a b x y =>
    exact Nat.max_le.2 ⟨Nat.le_trans (Nat.min_le_right ..) (Nat.min_le_right ..), some⟩

theorem size_le_sizeMaximum {k : Nat} (most : k ∈ d.sizeMaximum?) (some : 1 ≤ k) :
    num.size d bound ≤ k := by
  cases d with
  | linear n =>
    cases most
    exact Nat.min_le_left ..
  | parabolic n =>
    cases most
    exact Nat.min_le_left ..
  | beta a b => cases most
  | block a n x y =>
    cases most
    exact Nat.max_le.2 ⟨Nat.le_trans (Nat.min_le_right ..) (Nat.min_le_left ..), some⟩

theorem rankOf_lt (drawn : Float) (some : 0 < num.size d bound) :
    num.rankOf d drawn bound < num.size d bound := by
  rw [rankOf, if_neg (Nat.ne_of_gt some)]
  exact Nat.lt_of_le_of_lt (Nat.min_le_right ..) (Nat.sub_lt some Nat.one_pos)

/-- A draw succeeds, and yields one of the ranks: one of those that the size leaves, unless a block
is left aside. -/
theorem exists_draw (filled : ¬d.Blank) (some : 0 < bound) (g : Random.Generator) :
    ∃ rank g', num.draw d bound g = .ok (rank, g') ∧ rank < bound ∧
      (num.leavesBlock d g = false → rank < num.size d bound) := by
  have positive := num.size_pos filled some
  have least := num.size_le (d := d) some
  -- Draws below a bound, which are all that a block makes.
  have below (n : Nat) (g : Random.Generator) (more : 0 < n) :
      ∃ rank g', g.below n = .ok (rank, g') ∧ rank < n := by
    obtain ⟨⟨rank, g'⟩, drawn⟩ := g.below_eq (Nat.ne_of_gt more)
    exact ⟨rank, g', drawn, Random.Generator.lt_of_below drawn⟩
  unfold draw
  rw [if_neg (Nat.ne_of_gt some)]
  cases d with
  | block a b x uniformProbability =>
    dsimp only
    split
    · rename_i sometimes
      split
      · rename_i chosen
        obtain ⟨rank, g', drawn, small⟩ := below bound (num.unit g).2 some
        refine ⟨rank, g', drawn, small, fun inside => ?_⟩
        simp [leavesBlock, sometimes, chosen] at inside
      · obtain ⟨rank, g', drawn, small⟩ := below _ (num.unit g).2 positive
        exact ⟨rank, g', drawn, Nat.lt_of_lt_of_le small least, fun _ => small⟩
    · obtain ⟨rank, g', drawn, small⟩ := below _ g positive
      exact ⟨rank, g', drawn, Nat.lt_of_lt_of_le small least, fun _ => small⟩
  | _ =>
    have small := num.rankOf_lt (num.unit g).1 positive
    exact ⟨_, _, rfl, Nat.lt_of_lt_of_le small least, fun _ => small⟩

end Numerics

end Nearby

/-! ## Selectors that draw ranks -/

theorem Draw.generate_eq {M α : Type} {w : World M} {a : α} {g : Random.Generator}
    {f : Random.Generator → Except Fault (α × Random.Generator)}
    (drawn : f w.generator = .ok (a, g)) :
    Draw.generate f w = .ok (a, { w with generator := g }) := by
  rw [Draw.generate, drawn]

namespace Selector

variable {M S C : Type}

/-- A state to which calls lead in whatever order and whatever happens to the memory in between,
with the solutions for which candidates were drawn in the phase. -/
inductive Called (sel : Selector M S C) : List S → sel.State → Prop
  | start : Called sel [] sel.start
  | announced {seen : List S} {st st' : sel.State} {hook : Hook} {set : Setting S} {w w' : World M}
    (before : Called sel seen st) (ran : sel.handle hook set st w = .ok (st', w')) :
    Called sel (ofPhase hook seen) st'
  | restarted {seen : List S} {st st' : sel.State} {set : Setting S} {w w' : World M}
    (before : Called sel seen st) (ran : sel.restart set st w = .ok (st', w')) :
    Called sel seen st'
  | drawn {seen : List S} {st st' : sel.State} {set : Setting S} {c : Option C} {w w' : World M}
    (before : Called sel seen st) (ran : sel.next set st w = .ok ((c, st'), w')) :
    Called sel (set.solution :: seen) st'

variable [DecidableEq C] {child : Selector M S C} {recorder : Recorder M C}
variable {meter : S → Nearby.Meter C} {distribution : Option Nearby.Distribution}
variable {limit : Option Nat} {seen : List S} {set : Setting S} {w w' : World M}
variable {st st' : (child.byDistance recorder meter distribution limit).State}

theorem NearbyState.MadeIn.begin (made : NearbyState.MadeIn meter seen st)
    (ran : (child.byDistance recorder meter distribution limit).restart set st w = .ok (st', w')) :
    NearbyState.MadeIn meter seen st' := by
  simp only [byDistance] at ran
  split at ran
  · obtain ⟨st₁, w₁, collected, ran⟩ := exists_of_draw_bind ran
    cases ran
    exact (NearbyState.madeIn_collect meter seen collected).1
  · cases ran
    exact made

theorem Called.madeIn
    (called : (child.byDistance recorder meter distribution limit).Called seen st) :
    NearbyState.MadeIn meter seen st := by
  induction called with
  | start => exact nofun
  | announced before ran made => exact (made.handle ran).1
  | restarted before ran made => exact made.begin ran
  | drawn before ran made =>
    exact ((made.mono (List.subset_cons_self ..)).next recorder distribution
      List.mem_cons_self ran).1

/-- Where the rank is one of the row, there is a destination of that rank. -/
theorem NearbyState.MadeIn.exists_of_rank {st : NearbyState child} (made : st.MadeIn meter seen)
    (shown : set.solution ∈ seen) {m : Nearby.Matrix C} (there : st.matrix = some m)
    {origin : C} (total : ∀ c ∈ m.destinations.toList, ∃ x, meter set.solution origin c = .ok x)
    {rank : Nat} (small : rank < m.rowLength) :
    ∃ c st', m.HasRank meter seen origin rank c ∧ ∀ w,
      (st.destination meter set.solution origin rank : Draw M _) w = .ok ((some c, st'), w) := by
  obtain ⟨m', ranked, found, ⟨s, shown, measured⟩, -⟩ :=
    (made m there).exists_destination shown total rank
  have enough : rank < ranked.length := by
    rw [(Nearby.Matrix.perm_of_ranking measured).length_eq, Array.length_toList]
    exact Nat.lt_of_lt_of_le small m.rowLength_le
  rw [List.getElem?_take, if_pos small, List.getElem?_eq_getElem enough] at found
  refine ⟨_, { st with matrix := some m' },
    ⟨small, s, shown, ranked, measured, List.getElem?_eq_getElem enough⟩, fun w => ?_⟩
  have lifted : (Draw.lift (m.destination (meter set.solution) origin rank) : Draw M _) w =
      .ok ((some ranked[rank], m'), w) := by
    rw [Draw.lift, found]
    rfl
  unfold NearbyState.destination
  rw [there]
  exact draw_bind_eq lifted

/-- A rank that was drawn is one of the row, whose destination is found. -/
theorem NearbyState.MadeIn.exists_next {d : Nearby.Distribution} (filled : ¬d.Blank)
    {st : NearbyState child} (made : st.MadeIn meter seen) (shown : set.solution ∈ seen)
    {m : Nearby.Matrix C} (there : st.matrix = some m) (stocked : m.rowLength ≠ 0) {origin : C}
    (recorded : recorder.recorded w.memory = some origin)
    (total : ∀ c ∈ m.destinations.toList, ∃ x, meter set.solution origin c = .ok x) :
    ∃ c st' w' rank, st.next recorder meter (some d) set.solution w = .ok ((some c, st'), w') ∧
      st.sought recorder (some d) w = some (origin, rank) ∧ m.HasRank meter seen origin rank c := by
  obtain ⟨rank, g, drawn, small, -⟩ :=
    Nearby.Numerics.standard.exists_draw filled (Nat.pos_of_ne_zero stocked) w.generator
  rw [Nearby.Numerics.draw_standard] at drawn
  obtain ⟨c, st', ranked, found⟩ := made.exists_of_rank shown there total small
  have generated := Draw.generate_eq drawn
  refine ⟨c, st', { w with generator := g }, rank, ?_,
    sought_of_draw recorded there generated, ranked⟩
  have held : recorder.get w = .ok (some origin, w) := by rw [Recorder.get, recorded]
  unfold NearbyState.next
  dsimp only
  rw [draw_bind_eq held, there]
  dsimp only
  rw [if_neg stocked]
  exact (draw_bind_eq generated).trans (found _)

end Selector

/-- Admitted parameters draw a rank that is there, whatever floating-point numbers come to. It is
one of those that the size leaves, unless a block is left aside. So a selector that draws ranks
yields a destination from the ranking of its origin where there is an origin and something is
ranked. -/
theorem Nearby.Distribution.Admitted.draw_lands {d : Distribution} (admitted : d.Admitted) :
    (∀ (num : Numerics) bound g, 1 ≤ bound → ∃ rank g',
      num.draw d bound g = .ok (rank, g') ∧ rank < bound ∧
      (num.leavesBlock d g = false →
        rank < num.size d bound ∧ ∀ k ∈ d.sizeMaximum?, 1 ≤ k → rank < k)) ∧
    (Numerics.standard.draw d = d.draw ∧ Numerics.standard.size d = d.size) ∧
    ∀ {M S C : Type} [DecidableEq C] (child : Selector M S C) (recorder : Recorder M C)
      (meter : S → Meter C) (limit : Option Nat),
      let near := child.byDistance recorder meter (some d) limit
      ∀ (seen : List S) (st : near.State), near.Called seen st →
      ∀ (m : Matrix C) (set : Setting S) (w : World M) (origin : C),
        Selector.NearbyState.matrix st = some m → m.rowLength ≠ 0 →
        recorder.recorded w.memory = some origin →
        (∀ c ∈ m.destinations.toList, ∃ x, meter set.solution origin c = .ok x) →
        ∃ c st' w' rank, near.next set st w = .ok ((some c, st'), w') ∧
          Selector.NearbyState.sought recorder (some d) st w = some (origin, rank) ∧
          m.HasRank meter (set.solution :: seen) origin rank c := by
  have filled := admitted.not_blank
  refine ⟨fun num bound g some => ?_, ⟨?_, ?_⟩, ?_⟩
  · obtain ⟨rank, g', drawn, small, inside⟩ := num.exists_draw filled some g
    exact ⟨rank, g', drawn, small, fun within => ⟨inside within, fun k most positive =>
      Nat.lt_of_lt_of_le (inside within) (num.size_le_sizeMaximum most positive)⟩⟩
  · rw [Numerics.draw_standard]
  · rw [Numerics.size_standard]
  · intro M S C _ child recorder meter limit near seen st called m set w origin there stocked
      recorded total
    exact (called.madeIn.mono (List.subset_cons_self ..)).exists_next filled List.mem_cons_self
      there stocked recorded total

/-- Blocks of ten to three hundred ranks, for which five destinations are too few. -/
theorem Nearby.Distribution.draw_lands_few :
    let c : Config.NearbySettings :=
      { origin := some "visits", meter := some "roads", blockMinimum := some 10,
        blockMaximum := some 300, blockRatio := some 0.2, blockUniform := some 0.0 }
    let visits : Selector (Option Nat) (Array Nat) Nat := .source (fun s => s) false
    let near (d : Distribution) := visits.byDistance ⟨"visits", id, fun e _ => e⟩
      (fun _ => .of fun _ _ => 1.0) (some d) none
    let set : Setting (Array Nat) := ⟨#[10, 20, 30, 40, 50], 9⟩
    ∃ d, c.validate true = .ok () ∧ c.distribution = .ok d ∧
      (∀ (num : Numerics) g, ∃ rank g', num.draw d 5 g = .ok (rank, g') ∧ rank < 5) ∧
      ∃ st, (near d).Called [] st ∧ ∀ g, ∃ v st' w',
        (near d).next set st ⟨g, some 30⟩ = .ok ((some v, st'), w') := by
  intro c visits near set
  have checked : c.validate true = .ok () := rfl
  have inside : ofBlock 10 300 0.2 0.0 = .ok (.block 10 300 0.2 0.0) := rfl
  have made : c.distribution = .ok (.block 10 300 0.2 0.0) := inside
  obtain ⟨draws, -, lands⟩ := Admitted.draw_lands (.configured checked made)
  refine ⟨_, checked, made, fun num g => ?_, ?_⟩
  · obtain ⟨rank, g', drawn, small, -⟩ := draws num 5 g (by decide)
    exact ⟨rank, g', drawn, small⟩
  · let collected : (near (.block 10 300 0.2 0.0)).State :=
      { child := (5 : Nat), matrix := some ⟨set.solution, none, []⟩ }
    have began (w) : (near (.block 10 300 0.2 0.0)).restart set { child := visits.start } w =
      .ok ({ collected with origin := w.memory }, w) := rfl
    have called := Selector.Called.restarted .start (began ⟨.ofSeed 0, none⟩)
    refine ⟨collected, called, fun g => ?_⟩
    obtain ⟨v, st', w', -, found, -⟩ := lands _ _ _ none [] collected called _ set ⟨g, some 30⟩ 30
      rfl (by decide) rfl fun _ _ => ⟨_, rfl⟩
    exact ⟨v, st', w', found⟩

end PlanSearch
