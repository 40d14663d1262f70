import PlanSearch.Proofs.Selector.Memory
import PlanSearch.Proofs.Selector.Ranges
import PlanSearch.Proofs.Selector.Runs

/-!
# What rankings and runs range over

The rows of a nearby selector hold destinations that were collected when the phase began, each row in
one order. A selector of runs reads its runs when a pass, a step or the phase begins. Its size tells
how many runs there are now.
-/

namespace PlanSearch

namespace Nearby.Matrix

variable {C : Type} [DecidableEq C] {m m' : Matrix C} {meter : Meter C} {origin : C}

/-- The row of an origin: the one that is there, or the one that would be made. -/
def nearest (m : Matrix C) (meter : Meter C) (origin : C) : List C :=
  match m.row? origin with
  | some row => row.toList
  | none => ((ranking m.destinations.toList meter origin).toOption.getD []).take m.rowLength

/-- Making a row changes no row that is there or would be made. -/
theorem nearest_of_ensureRow (ensured : m.ensureRow meter origin = .ok m') :
    m'.row? origin = some (m.nearest meter origin).toArray ∧ m'.destinations = m.destinations ∧
      m'.limit = m.limit ∧ ∀ other, m'.nearest meter other = m.nearest meter other := by
  unfold ensureRow at ensured
  split at ensured
  · rename_i there
    obtain rfl := Except.ok.inj ensured
    obtain ⟨row, known⟩ := Option.isSome_iff_exists.1 there
    exact ⟨by simp [nearest, known], rfl, rfl, fun _ => rfl⟩
  · rename_i missing
    obtain ⟨ranked, made, ensured⟩ := PlanSearch.andThen_eq_ok.1 ensured
    obtain rfl := Except.ok.inj ensured
    have row : m.nearest meter origin = ranked.take m.rowLength := by
      rw [nearest, Option.not_isSome_iff_eq_none.1 missing, made]
      rfl
    have others (other : C) (apart : other ≠ origin) :
        List.lookup other (m.rows.filter fun row => row.1 ≠ origin) = m.row? other := by
      have same := lookup_filter m.rows origin other
      rw [if_neg apart] at same
      simpa [row?, bne, Bool.beq_eq_decide_eq] using same
    refine ⟨?_, rfl, rfl, fun other => ?_⟩
    · rw [row]
      exact List.lookup_cons_self
    · by_cases same : other = origin
      · subst same
        rw [row, nearest, row?, List.lookup_cons_self]
      · rw [nearest, nearest, row?, List.lookup_cons, beq_false_of_ne same]
        dsimp only
        rw [others other same]
        rfl

/-- What is found for an origin and a rank stands there in the row of the origin. -/
theorem nearest_of_destination {rank : Nat} {c : Option C}
    (looked : m.destination meter origin rank = .ok (c, m')) :
    c = (m.nearest meter origin)[rank]? ∧ m'.destinations = m.destinations ∧ m'.limit = m.limit ∧
      ∀ other, m'.nearest meter other = m.nearest meter other := by
  obtain ⟨m₁, ensured, looked⟩ := PlanSearch.andThen_eq_ok.1 looked
  obtain ⟨rfl, rfl⟩ := Prod.mk.inj (Except.ok.inj looked)
  obtain ⟨row, destinations, limit, same⟩ := nearest_of_ensureRow ensured
  refine ⟨?_, destinations, limit, same⟩
  rw [row]
  exact List.getElem?_toArray

section Rows

variable {S : Type} {meter : S → Meter C} {seen : List S} {s : S}

/-- A row holds as many of the destinations as the matrix says, or fewer. -/
theorem MadeIn.nearest (made : m.MadeIn meter seen) (s : S) (origin : C) :
    (m.nearest (meter s) origin).length ≤ m.rowLength ∧
      m.nearest (meter s) origin ⊆ m.destinations.toList := by
  unfold Matrix.nearest
  split
  · rename_i row known
    obtain ⟨s', -, ranked, measured, rfl⟩ := made _ (Ranks.mem_of_row? known)
    exact ⟨List.length_take_le .., fun c member =>
      (perm_of_ranking measured).subset (List.mem_of_mem_take member)⟩
  · cases measured : ranking m.destinations.toList (meter s) origin with
    | error e => exact ⟨by simp [Except.toOption], by simp [Except.toOption]⟩
    | ok ranked =>
      exact ⟨List.length_take_le .., fun c member =>
        (perm_of_ranking measured).subset (List.mem_of_mem_take member)⟩

end Rows

end Nearby.Matrix

namespace Selector

variable {M S C O : Type} {shown : Point S → Setting S → Prop} {view : M → O}

/-! ## Destinations by distance -/

section Nearby

variable [DecidableEq C] {child : Selector M S C} {recorder : Recorder M C}
variable {meter : S → Nearby.Meter C} {distribution : Option Nearby.Distribution}

/-- The destinations have been collected, and all rows hold some of them. -/
def NearbyState.Collected (meter : S → Nearby.Meter C) (st : NearbyState child) : Prop :=
  ∃ m seen, st.matrix = some m ∧ m.limit = none ∧ m.MadeIn meter seen

/-- The row of the origin of a pass. -/
def NearbyState.row (meter : S → Nearby.Meter C) (s : S) (st : NearbyState child)
    (origin : Option C) : List C :=
  (st.matrix.bind fun m => origin.map (m.nearest (meter s))).getD []

/-- All destinations. -/
def NearbyState.destinations (st : NearbyState child) : List C :=
  (st.matrix.map fun m => m.destinations.toList).getD []

section States

variable {st st' : NearbyState child} {set : Setting S} {s : S} {w w' : World M}

omit [DecidableEq C] in
theorem NearbyState.collected_of_collect (meter : S → Nearby.Meter C)
    (ran : st.collect none set w = .ok (st', w')) : st'.Collected meter := by
  obtain ⟨made, -⟩ := madeIn_collect meter [] ran
  obtain ⟨⟨destinations, inner⟩, w₁, -, ran⟩ := exists_of_draw_bind ran
  cases ran
  exact ⟨_, [], rfl, rfl, made _ rfl⟩

variable (known : st.Collected meter)
include known

/-- A row has as many candidates as there are destinations, or fewer. -/
theorem NearbyState.Collected.row (s : S) (origin : Option C) :
    (st.row meter s origin).length ≤ st.destinations.length ∧
      st.row meter s origin ⊆ st.destinations := by
  obtain ⟨m, seen, there, whole, made⟩ := known
  unfold NearbyState.row NearbyState.destinations
  rw [there]
  cases origin with
  | none => exact ⟨Nat.zero_le _, List.nil_subset _⟩
  | some origin =>
    obtain ⟨short, sub⟩ := made.nearest s origin
    rw [Nearby.Matrix.rowLength, whole] at short
    exact ⟨by simpa using short, sub⟩

/-- What is looked up stands in a row, and no row is changed by that. -/
theorem NearbyState.Collected.destination {origin : C} {rank : Nat} {c : Option C}
    (ran : st.destination meter s origin rank w = .ok ((c, st'), w')) :
    w' = w ∧ c = (st.row meter s (some origin))[rank]? ∧ st'.Collected meter ∧
      st'.origin = st.origin ∧ st'.rank = st.rank ∧ st'.destinations = st.destinations ∧
      st'.row meter s = st.row meter s := by
  obtain ⟨m, seen, there, whole, made⟩ := known
  unfold NearbyState.destination at ran
  rw [there] at ran
  obtain ⟨⟨found, m'⟩, w₁, lifted, last⟩ := exists_of_draw_bind ran
  obtain ⟨looked, rfl⟩ := lift_eq_ok.1 lifted
  cases last
  obtain ⟨rfl, destinations, limit, same⟩ := Nearby.Matrix.nearest_of_destination looked
  obtain ⟨made', -⟩ := (made.mono (List.subset_cons_self s seen)).destination List.mem_cons_self
    looked
  refine ⟨rfl, ?_, ⟨m', _, rfl, limit.trans whole, made'⟩, rfl, rfl, ?_, funext fun o => ?_⟩
  · simp [NearbyState.row, there]
  · simp [NearbyState.destinations, there, destinations]
  · cases o <;> simp [NearbyState.row, there, same]

end States

section Calls

variable {st st' : (child.byDistance recorder meter distribution none).State}
variable {set : Setting S} {w w' : World M}

theorem NearbyState.Collected.handle {hook : Hook} {p p' : Point S}
    (known : p.first.isSome → NearbyState.Collected meter st)
    (due : p.after hook set.solution = some p')
    (ran : (child.byDistance recorder meter distribution none).handle hook set st w =
      .ok (st', w')) : p'.first.isSome → NearbyState.Collected meter st' := by
  obtain ⟨inner, w₁, -, ran⟩ := exists_of_draw_bind ran
  cases hook <;> cases p <;> cases due
  · exact fun _ => NearbyState.collected_of_collect meter ran
  · cases ran
    exact known
  · cases ran
    exact known
  · cases ran
    rintro ⟨⟩

theorem NearbyState.Collected.restart (known : NearbyState.Collected meter st)
    (ran : (child.byDistance recorder meter distribution none).restart set st w =
      .ok (st', w')) :
    w' = w ∧ st' = { st with rank := 0, origin := recorder.recorded w.memory } := by
  obtain ⟨m, seen, there, -⟩ := known
  simp only [byDistance, there] at ran
  cases ran
  exact ⟨rfl, rfl⟩

theorem NearbyState.Collected.size (known : NearbyState.Collected meter st) (s : S) :
    (child.byDistance recorder meter distribution none).size s st =
      .ok (NearbyState.destinations st).length := by
  obtain ⟨m, seen, there, whole, -⟩ := known
  simp [byDistance, there, Nearby.Matrix.rowLength, whole, NearbyState.destinations]

variable (recorder) in
/-- The next candidate of a pass is the next one in the row of its origin. -/
theorem NearbyState.Collected.next_listed {st st' : NearbyState child} {c : Option C}
    (known : st.Collected meter)
    (ran : st.next recorder meter none set.solution w = .ok ((c, st'), w')) :
    w' = w ∧ st'.Collected meter ∧ st'.origin = st.origin ∧ st'.destinations = st.destinations ∧
      st'.row meter set.solution = st.row meter set.solution ∧
      (st.row meter set.solution st.origin).take st'.rank =
        (st.row meter set.solution st.origin).take st.rank ++ c.toList := by
  unfold NearbyState.next at ran
  cases begun : st.origin with
  | none =>
    rw [begun] at ran
    cases ran
    exact ⟨rfl, known, begun, rfl, rfl, by simp⟩
  | some origin =>
    rw [begun] at ran
    obtain ⟨⟨found, st₁⟩, w₁, looked, last⟩ := exists_of_draw_bind ran
    obtain ⟨rfl, at_, known₁, origin₁, rank₁, destinations, row⟩ := known.destination looked
    cases found with
    | none =>
      cases last
      exact ⟨rfl, known₁, origin₁.trans begun, destinations, row, by simp [rank₁]⟩
    | some x =>
      cases last
      refine ⟨rfl, known₁, origin₁.trans begun, destinations, row, ?_⟩
      change List.take (st₁.rank + 1) _ = _
      rw [rank₁, List.take_add_one, ← at_]

/-- Whatever is drawn is one of the destinations. -/
theorem NearbyState.Collected.next_drawn {d : Nearby.Distribution} {st st' : NearbyState child}
    {c : Option C} (known : st.Collected meter)
    (ran : st.next recorder meter (some d) set.solution w = .ok ((c, st'), w')) :
    w'.memory = w.memory ∧ st'.Collected meter ∧ st'.destinations = st.destinations ∧
      ∀ x ∈ c, x ∈ st.destinations := by
  obtain ⟨m, seen, there, -⟩ := id known
  obtain ⟨held, w₁, got, rest⟩ := exists_of_draw_bind ran
  cases got
  cases recorded : recorder.recorded w.memory with
  | none =>
    rw [recorded] at rest
    cases rest
    exact ⟨rfl, known, rfl, fun x found => by cases found⟩
  | some origin =>
    rw [recorded, there] at rest
    dsimp only at rest
    split at rest
    · cases rest
      exact ⟨rfl, known, rfl, fun x found => by cases found⟩
    · obtain ⟨rank, w₂, drawn, looked⟩ := exists_of_draw_bind rest
      obtain ⟨rfl, rfl, known', -, -, destinations, -⟩ := known.destination looked
      refine ⟨(exists_of_generate drawn).2, known', destinations, fun x found => ?_⟩
      exact (known.row _ _).2 (List.mem_of_getElem? found)

end Calls

section Ranges

variable (Held : O → Option C → Prop) (sees : ∀ m, Held (view m) (recorder.recorded m))

/-- The destinations from the nearest to the farthest. A pass is one through the row of what was
remembered when it began. -/
def rangesRanked : (child.byDistance recorder meter none none).Ranges shown view where
  Inv p st := p.first.isSome → NearbyState.Collected meter st
  can s st o cs := ∃ origin, Held o origin ∧ cs <+: NearbyState.row meter s st origin
  During s st o cs := Held o (NearbyState.origin st) ∧
    cs = (NearbyState.row meter s st (NearbyState.origin st)).take (NearbyState.rank st)
  can_of_during := by
    rintro first now st o cs - ⟨held, rfl⟩
    exact ⟨_, held, List.take_prefix ..⟩
  sized known := (known rfl).size _ ▸ .ok _
  start := by rintro ⟨⟩
  handle known due _ ran := NearbyState.Collected.handle known due ran
  restart known ran := by
    obtain ⟨rfl, rfl⟩ := NearbyState.Collected.restart (known rfl) ran
    exact ⟨known, ⟨rfl, rfl, rfl⟩, sees _, rfl⟩
  next known ran := by
    obtain ⟨rfl, known', origin, destinations, row, taken⟩ :=
      NearbyState.Collected.next_listed recorder (known rfl) ran
    refine ⟨fun _ => known', ⟨?_, ?_, rfl⟩, ?_⟩
    · simp only [row]
    · rw [known'.size, (known rfl).size, destinations]
    · rintro cs ⟨held, rfl⟩
      rw [origin, row]
      exact ⟨held, taken.symm⟩

/-- Passes with the same origin go through the same row. -/
theorem suits_ranked : (rangesRanked Held sees : Ranges (child.byDistance recorder meter none none)
    shown view).Suits True (∀ o x y, Held o x → Held o y → x = y) where
  told known := ⟨_, (known rfl).size _⟩
  positive {first set st c st' k w w'} known ran size := by
    obtain ⟨rfl, -, -, -, -, taken⟩ :=
      NearbyState.Collected.next_listed recorder (known rfl) ran
    rw [(known rfl).size] at size
    obtain rfl := Except.ok.inj size
    have member : c ∈ NearbyState.row meter set.solution st (NearbyState.origin st) :=
      List.mem_of_mem_take (taken.symm ▸ List.mem_append_right _ (List.mem_singleton_self c))
    exact List.length_pos_of_mem (((known rfl).row _ _).2 member)
  pooled {first now st k} known size := by
    rw [(known rfl).size] at size
    obtain rfl := Except.ok.inj size
    refine ⟨fun _ => NearbyState.destinations st, fun _ => le_rfl, ?_⟩
    rintro o cs ⟨origin, -, sub⟩
    exact fun c member => ((known rfl).row _ _).2 (sub.subset member)
  counted _ {first now st k o cs} known size can := by
    rw [(known rfl).size] at size
    obtain rfl := Except.ok.inj size
    obtain ⟨origin, -, sub⟩ := can
    exact sub.length_le.trans ((known rfl).row _ _).1
  listed tells {first now st k} known size := by
    rw [(known rfl).size] at size
    obtain rfl := Except.ok.inj size
    obtain ⟨list, short, same⟩ := exists_lists tells (NearbyState.row meter now st) fun origin =>
      ((known rfl).row now origin).1
    refine ⟨list, short, ?_⟩
    rintro o cs ⟨origin, held, sub⟩
    rwa [same o origin held]

/-- Drawn destinations. -/
def rangesRankedDrawn (d : Nearby.Distribution) :
    (child.byDistance recorder meter (some d) none).Ranges shown view where
  Inv p st := p.first.isSome → NearbyState.Collected meter st
  can _ st _ cs := cs ⊆ NearbyState.destinations st
  During _ st _ cs := cs ⊆ NearbyState.destinations st
  can_of_during _ during := during
  sized known := (known rfl).size _ ▸ .ok _
  start := by rintro ⟨⟩
  handle known due _ ran := NearbyState.Collected.handle known due ran
  restart known ran := by
    obtain ⟨rfl, rfl⟩ := NearbyState.Collected.restart (known rfl) ran
    exact ⟨known, ⟨rfl, rfl, rfl⟩, List.nil_subset _⟩
  next known ran := by
    obtain ⟨memory, known', destinations, member⟩ := (known rfl).next_drawn ran
    refine ⟨fun _ => known', ⟨?_, ?_, congrArg view memory⟩, fun cs all => ?_⟩
    · simp only [destinations]
    · rw [known'.size, (known rfl).size, destinations]
    · rw [destinations]
      exact List.append_subset.2 ⟨all, fun x found => member x (by simpa using found)⟩

theorem suits_rankedDrawn (d : Nearby.Distribution) :
    (rangesRankedDrawn d : Ranges (child.byDistance recorder meter (some d) none)
      shown view).Suits False False where
  told known := ⟨_, (known rfl).size _⟩
  positive known ran size := by
    rw [(known rfl).size] at size
    obtain rfl := Except.ok.inj size
    obtain ⟨-, -, -, member⟩ := (known rfl).next_drawn ran
    exact List.length_pos_of_mem (member _ rfl)
  pooled known size := by
    rw [(known rfl).size] at size
    obtain rfl := Except.ok.inj size
    exact ⟨fun _ => _, fun _ => le_rfl, fun _ _ can => can⟩
  counted := False.elim
  listed := False.elim

end Ranges

end Nearby

/-! ## Runs of chains -/

section Runs

open SubChains

variable {v : ChainedVariable S} {minimum maximum : Nat} {cache : CacheType} {isRandom : Bool}
variable {sel : Selector M S SubChain}

/-- What is drawn is a run of one of the chains. -/
theorem mem_of_drawRun (positive : 1 ≤ minimum) (ordered : minimum ≤ maximum)
    {chains : List (List Handle)} {run : Option SubChain} {w w' : World M}
    (drawn : drawRun minimum maximum chains w = .ok (run, w')) :
    w'.memory = w.memory ∧ ∀ x ∈ run, x ∈ chains.flatMap (runsOf minimum maximum) := by
  unfold drawRun at drawn
  split at drawn
  · cases drawn
    exact ⟨rfl, fun x found => by cases found⟩
  · obtain ⟨i, w₁, first, rest⟩ := exists_of_draw_bind drawn
    obtain ⟨below, memory⟩ := exists_of_generate first
    have inside := Random.Generator.lt_of_below below
    have here : chains.getD i [] = chains[i] := by
      rw [List.getD_eq_getElem?_getD, List.getElem?_eq_getElem inside, Option.getD_some]
    rw [here] at rest
    obtain ⟨total, w₂, counts, left⟩ := exists_of_draw_bind rest
    obtain ⟨counted, rfl⟩ := lift_eq_ok.1 counts
    split at left
    · cases left
      exact ⟨memory, fun x found => by cases found⟩
    · obtain ⟨j, w₃, second, last⟩ := exists_of_draw_bind left
      cases last
      refine ⟨(exists_of_generate second).2.trans memory, fun x found => ?_⟩
      have fits := ((hingesOn_count positive ordered _).eq_ok_iff.1 counted).1
      have at_ := getElem?_runsOf positive ordered fits.1 j
      exact List.mem_flatMap.2 ⟨_, List.getElem_mem inside, List.mem_of_getElem? (at_.trans found)⟩

/-- A step has at least as many runs as there were when the phase began. -/
def Grows (v : ChainedVariable S) (minimum maximum : Nat) (shown : Point S → Setting S → Prop) :
    Prop :=
  ∀ first set, shown (.step first set.solution) set →
    (runsIn minimum maximum (v.graph first)).length ≤
      (runsIn minimum maximum (v.graph set.solution)).length

/-- The runs that the passes of a step are about. -/
def runsOver (v : ChainedVariable S) (minimum maximum : Nat) (cache : CacheType) (s : S)
    (st : Reading) : List SubChain :=
  if cache.isCached then st.chains.flatMap (runsOf minimum maximum)
  else runsIn minimum maximum (v.graph s)

/-- A filled cache holds runs, and those of a phase are not more than the runs there are now. -/
structure Loaded (v : ChainedVariable S) (minimum maximum : Nat) (cache : CacheType) (p : Point S)
    (st : Reading) : Prop where
  holds : ∀ s ∈ cache.filledWith p, Holds v minimum maximum s st
  grown : cache = .phase → ∀ first now, p = .step first now →
    (runsIn minimum maximum (v.graph first)).length ≤ (runsIn minimum maximum (v.graph now)).length

theorem Loaded.announce (grows : cache = .phase → Grows v minimum maximum shown)
    {p p' : Point S} {hook : Hook} {set : Setting S} {st : Reading}
    (loaded : Loaded v minimum maximum cache p st) (due : p.after hook set.solution = some p')
    (shows : shown p' set) :
    Loaded v minimum maximum cache p' (announce v minimum cache hook set.solution st) where
  holds := holds_announce loaded.holds due
  grown cached first now at_ := by
    subst at_
    cases hook <;> cases p <;> cases due
    exact grows cached _ _ shows

theorem Loaded.length_le {first now : S} {st : Reading}
    (loaded : Loaded v minimum maximum cache (.step first now) st) :
    (runsOver v minimum maximum cache now st).length ≤
      (runsIn minimum maximum (v.graph now)).length := by
  unfold runsOver
  cases cache with
  | justInTime => exact le_rfl
  | step => exact (congrArg List.length (loaded.holds now rfl)).le
  | phase =>
    exact (congrArg List.length (loaded.holds first rfl)).le.trans (loaded.grown rfl first now rfl)

/-- Without a cache the chains are read when a pass begins. -/
def begin_ (v : ChainedVariable S) (minimum : Nat) (cache : CacheType) (s : S) (st : Reading) :
    Reading :=
  { (if cache.isCached then st else Reading.load minimum (v.graph s) st) with
    place := ⟨0, 0, minimum - 1⟩ }

theorem runs_begin (v : ChainedVariable S) (minimum maximum : Nat) (cache : CacheType) (s : S)
    (st : Reading) :
    (begin_ v minimum cache s st).chains.flatMap (runsOf minimum maximum) =
      runsOver v minimum maximum cache s st := by
  unfold begin_ runsOver
  split
  · rfl
  · exact flatMap_load minimum maximum _ st

theorem loaded_start (v : ChainedVariable S) (minimum maximum : Nat) (cache : CacheType) :
    Loaded v minimum maximum cache .idle {} where
  holds s filled := by cases cache <;> cases filled
  grown _ _ _ at_ := by cases at_

/-- Where a pass begins, the runs it is about are known. -/
theorem Loaded.restart {p : Point S} {s : S} {st : Reading}
    (loaded : Loaded v minimum maximum cache p st) :
    Loaded v minimum maximum cache p (begin_ v minimum cache s st) ∧
      runsOver v minimum maximum cache s (begin_ v minimum cache s st) =
        runsOver v minimum maximum cache s st := by
  have same := runs_begin v minimum maximum cache s st
  cases cache with
  | justInTime => exact ⟨⟨by rintro s ⟨⟩, by rintro ⟨⟩⟩, rfl⟩
  | step | phase => exact ⟨⟨loaded.holds, loaded.grown⟩, same⟩

/-- The runs with which a pass can begin that is about the given ones: the first of them in order, or
any by draws. -/
def CanRun (isRandom : Bool) (all runs : List SubChain) : Prop :=
  if isRandom then runs ⊆ all else runs <+: all

/-- The runs that a pass has yielded. In order, what is left follows them. What is drawn comes from
the chains with which the pass began. -/
def HasRun (isRandom : Bool) (minimum maximum : Nat) (all : List SubChain) (st : Reading)
    (runs : List SubChain) : Prop :=
  if isRandom then runs ⊆ all ∧ st.chains.flatMap (runsOf minimum maximum) = all
  else runs ++ st.left minimum maximum = all

section Yielded

variable {all runs : List SubChain} {st : Reading}

theorem HasRun.canRun (has : HasRun isRandom minimum maximum all st runs) :
    CanRun isRandom all runs := by
  cases isRandom with
  | false => exact ⟨_, has⟩
  | true => exact has.1

theorem HasRun.start (positive : 1 ≤ minimum)
    (begins : st.chains.flatMap (runsOf minimum maximum) = all) :
    HasRun isRandom minimum maximum all { st with place := ⟨0, 0, minimum - 1⟩ } [] := by
  cases isRandom with
  | false => exact (remaining_start positive maximum _).trans begins
  | true => exact ⟨List.nil_subset _, begins⟩

/-- In order, the next run is the first one that is left. -/
theorem HasRun.nextRun (positive : 1 ≤ minimum) (ordered : minimum ≤ maximum)
    (has : HasRun false minimum maximum all st runs) {run : Option SubChain} {place : Place}
    (found : SubChains.nextRun minimum maximum (st.chains.drop st.place.chain) st.place.chain
      st.place.first st.place.last = (run, place)) :
    HasRun false minimum maximum all { st with place } (runs ++ run.toList) := by
  obtain ⟨place', known, others⟩ := Reading.exists_nextRun positive ordered st
  obtain ⟨rfl, rfl⟩ := Prod.mk.inj (known.symm.trans found)
  have whole : runs ++ st.left minimum maximum = all := has
  change _ ++ Reading.left minimum maximum _ = _
  rw [← whole, others, List.append_assoc]
  cases st.left minimum maximum <;> rfl

/-- By draws, the next run is one of those with which the pass began. -/
theorem HasRun.drawRun (positive : 1 ≤ minimum) (ordered : minimum ≤ maximum)
    (has : HasRun true minimum maximum all st runs) {run : Option SubChain} {w w' : World M}
    (drawn : Selector.drawRun minimum maximum st.chains w = .ok (run, w')) :
    HasRun true minimum maximum all st (runs ++ run.toList) := by
  obtain ⟨sub, whole⟩ := id has
  obtain ⟨-, member⟩ := mem_of_drawRun positive ordered drawn
  refine ⟨List.append_subset.2 ⟨sub, fun x found => ?_⟩, whole⟩
  exact whole ▸ member x (by simpa using found)

end Yielded

variable (view) in
/-- The runs of one step, in order or drawn. They stay those with which the pass began. -/
theorem ranges_subChains (grows : cache = .phase → Grows v minimum maximum shown)
    (made : subChains v minimum maximum cache isRandom = .ok sel) :
    ∃ ranges : sel.Ranges shown view, ranges.Bounded ∧ (isRandom = false → ranges.Counted) := by
  have size (s : S) (st : sel.State) := size_subChains made s st
  obtain ⟨positive, ordered⟩ := bounded_of_subChains made
  rw [subChains, if_neg (by omega), if_neg (by omega)] at made
  obtain rfl := Except.ok.inj made
  refine ⟨{
    Inv := fun p (st : Reading) => Loaded v minimum maximum cache p st
    can := fun s (st : Reading) _ runs => CanRun isRandom (runsOver v minimum maximum cache s st) runs
    During := fun s (st : Reading) _ runs =>
      HasRun isRandom minimum maximum (runsOver v minimum maximum cache s st) st runs
    can_of_during := fun _ during => during.canRun
    sized := fun {first now} (st : Reading) _ => (size now st).overflows
    start := loaded_start v minimum maximum cache
    handle := fun {p p' hook set} (st st' : Reading) {w w'} known due shows ran => ?_
    restart := fun {first set} (st st' : Reading) {w w'} known ran => ?_
    next := fun {first set} (st : Reading) {c} (st' : Reading) {w w'} known ran => ?_ }, ?_, ?_⟩
  · obtain rfl : st' = announce v minimum cache hook set.solution st := by
      cases hook <;> cases cache <;> cases ran <;> rfl
    exact known.announce grows due shows
  · cases ran
    obtain ⟨known, same⟩ := known.restart (s := set.solution)
    have begins := (runs_begin v minimum maximum cache set.solution st).trans same.symm
    refine ⟨known, ⟨funext fun _ => funext fun runs => ?_, rfl, rfl⟩, HasRun.start positive begins⟩
    exact congrArg (CanRun isRandom · runs) same
  · cases isRandom with
    | false =>
      cases ran
      exact ⟨⟨known.holds, known.grown⟩, ⟨rfl, rfl, rfl⟩,
        fun runs during => during.nextRun positive ordered rfl⟩
    | true =>
      obtain ⟨run, w₁, drawn, ran⟩ := exists_of_draw_bind ran
      cases ran
      exact ⟨known, ⟨rfl, rfl, congrArg view (mem_of_drawRun positive ordered drawn).1⟩,
        fun runs during => during.drawRun positive ordered drawn⟩
  · intro first now st k o runs known sized can
    obtain ⟨-, rfl⟩ := (size now st).eq_ok_iff.1 sized
    have all := Within.of_length known.length_le
    cases isRandom with
    | false => exact all.of_subset (List.IsPrefix.subset can)
    | true => exact all.of_subset can
  · rintro rfl first now st k o runs known sized can
    obtain ⟨-, rfl⟩ := (size now st).eq_ok_iff.1 sized
    exact (List.IsPrefix.length_le can).trans known.length_le

end Runs

end Selector

end PlanSearch
