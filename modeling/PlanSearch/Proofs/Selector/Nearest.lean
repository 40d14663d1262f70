import PlanSearch.Proofs.Fault
import PlanSearch.Proofs.Selector.Passes

/-!
# The passes of nearby selectors

The candidates by their distance from the origin that was remembered when the pass began. They are
collected when the phase begins, and the row of an origin is made when its first candidate is asked
for, so that the passes of a phase only agree with the solution as long as its candidates and their
distances stay as they were.
-/

namespace PlanSearch

namespace Nearby.Matrix

variable {C : Type} {destinations : List C} {meter : Meter C} {origin : C}

/-- A ranking holds every destination once. -/
theorem perm_of_ranking {ranked : List C} (made : ranking destinations meter origin = .ok ranked) :
    ranked.Perm destinations := by
  obtain ⟨pairs, measured, made⟩ := andThen_eq_ok.1 made
  obtain rfl := Except.ok.inj made
  have sorted := (List.mergeSort_perm pairs fun a b => Decimal.notAfter a.1 b.1).map Prod.snd
  rwa [map_snd_keyed measured] at sorted

/-- Destinations whose distances are there are ranked by them. -/
theorem exists_ranking (total : ∀ d ∈ destinations, ∃ x, meter origin d = .ok x) :
    ∃ ranked, ranking destinations meter origin = .ok ranked ∧
      SortedAs (InOrder (meter origin)) destinations ranked := by
  obtain ⟨pairs, measured, sorted⟩ := exists_sorted total .ascending
  refine ⟨_, ?_, sorted⟩
  rw [ranking, measured]
  rfl

section Rows

variable [DecidableEq C] {m m' : Matrix C} {row : List C}

theorem addRow_eq {ranked : List C}
    (made : ranking m.destinations.toList meter origin = .ok ranked) :
    m.addRow meter origin = .ok { m with
      rows := (origin, (ranked.take m.rowLength).toArray) ::
        m.rows.filter fun row => row.1 ≠ origin } := by
  rw [addRow, made]
  rfl

/-- A row that is there is what the destinations are read off. -/
theorem destination_of_row (known : m.row? origin = some row.toArray) (rank : Nat) :
    m.destination meter origin rank = .ok (row[rank]?, m) := by
  unfold Matrix.destination ensureRow
  rw [if_pos (by rw [known]; rfl), ← List.getElem?_toArray]
  change Except.ok ((m.row? origin).bind fun row => row[rank]?, m) = _
  rw [known]
  rfl

/-- A row that is missing is made first. -/
theorem destination_of_addRow (missing : m.row? origin = none)
    (added : m.addRow meter origin = .ok m') (known : m'.row? origin = some row.toArray)
    (rank : Nat) : m.destination meter origin rank = .ok (row[rank]?, m') := by
  unfold Matrix.destination ensureRow
  rw [if_neg (by simp [missing]), added, ← List.getElem?_toArray]
  change Except.ok ((m'.row? origin).bind fun row => row[rank]?, m') = _
  rw [known]
  rfl

end Rows

/-- The matrix is about the destinations, and each of its rows is a whole ranking of them. -/
structure Ranks (m : Matrix C) (destinations : List C) (meter : Meter C) : Prop where
  all : m.destinations.toList = destinations
  whole : m.limit = none
  rows : ∀ row ∈ m.rows, ranking destinations meter row.1 = .ok row.2.toList

namespace Ranks

variable [DecidableEq C] {m m' : Matrix C}

theorem mem_of_row? {row : Array C} (known : m.row? origin = some row) : (origin, row) ∈ m.rows := by
  obtain ⟨before, after, same, -⟩ := List.lookup_eq_some_iff.1 known
  simp [same]

/-- A new row is a whole ranking, too. -/
theorem addRow (ranks : m.Ranks destinations meter) {ranked : List C}
    (made : ranking destinations meter origin = .ok ranked) :
    ∃ m', m.addRow meter origin = .ok m' ∧ m'.Ranks destinations meter ∧
      m'.row? origin = some ranked.toArray := by
  have uncut : ranked.take m.rowLength = ranked := by
    rw [rowLength, ranks.whole, List.take_of_length_le]
    rw [(perm_of_ranking made).length_eq, ← ranks.all]
    exact Nat.le_of_eq Array.length_toList
  refine ⟨{ m with rows := (origin, ranked.toArray) :: m.rows.filter fun row => row.1 ≠ origin },
    ?_, ⟨ranks.all, ranks.whole, fun row member => ?_⟩, ?_⟩
  · rw [addRow_eq (ranks.all ▸ made), uncut]
  · rcases List.mem_cons.1 member with rfl | member
    · exact made
    · exact ranks.rows row (List.mem_filter.1 member).1
  · exact List.lookup_cons_self

/-- The destination of a rank is read off the ranking. -/
theorem destination (ranks : m.Ranks destinations meter) {ranked : List C}
    (made : ranking destinations meter origin = .ok ranked) (rank : Nat) :
    ∃ m', m.destination meter origin rank = .ok (ranked[rank]?, m') ∧
      m'.Ranks destinations meter := by
  cases known : m.row? origin with
  | some row =>
    obtain rfl := Except.ok.inj ((ranks.rows _ (mem_of_row? known)).symm.trans made)
    exact ⟨m, destination_of_row known rank, ranks⟩
  | none =>
    obtain ⟨m', added, ranks, found⟩ := ranks.addRow made
    exact ⟨m', destination_of_addRow known added found rank, ranks⟩

/-- Whatever is asked for, all rows are whole rankings. -/
theorem of_destination (ranks : m.Ranks destinations meter) {rank : Nat} {c : Option C}
    (found : m.destination meter origin rank = .ok (c, m')) : m'.Ranks destinations meter := by
  cases made : ranking destinations meter origin with
  | ok ranked =>
    obtain ⟨m'', known, ranks⟩ := ranks.destination made rank
    obtain ⟨-, rfl⟩ := Prod.mk.inj (Except.ok.inj (known.symm.trans found))
    exact ranks
  | error e =>
    unfold Matrix.destination ensureRow at found
    split at found
    · cases found
      exact ranks
    · rw [Matrix.addRow, ranks.all, made] at found
      cases found

end Ranks

end Nearby.Matrix

namespace Selector

variable {M S C : Type} {child sel : Selector M S C} {shown : Point S → Setting S → Prop}
variable {candidates : S → List C} {meter : S → Nearby.Meter C}

/-- The candidates by their distance from what the recorder holds, or none if it holds nothing. -/
def Nearest (recorder : Recorder M C) (meter : S → Nearby.Meter C) (candidates : S → List C) (s : S)
    (m : M) (L : List C) : Prop :=
  match recorder.recorded m with
  | none => L = []
  | some origin => SortedAs (InOrder (meter s origin)) (candidates s) L

/-- The matrix is there, and about the given destinations. -/
def NearbyState.Ranks (st : NearbyState child) (destinations : List C) (meter : Nearby.Meter C) :
    Prop :=
  ∃ m, st.matrix = some m ∧ m.Ranks destinations meter

section Collect

variable (serves : Serves child shown fun _ s _ L => L = candidates s)
variable (fits : ∀ p set, shown p set → (candidates set.solution).length < set.patience)
include fits

/-- The candidates of the solution are collected. -/
theorem Serves.collect {p : Point S} {set : Setting S} (st : NearbyState child)
    (known : serves.Inv p st.child) (busy : p.first.isSome) (shows : shown p set) (w : World M) :
    ∃ st' g, st.collect none set w = .ok (st', ⟨g, w.memory⟩) ∧ serves.Inv p st'.child ∧
      st'.Ranks (candidates set.solution) (meter set.solution) := by
  obtain ⟨inner, g, L, passed, rfl, known⟩ := serves.pass known busy shows
    (fun _ _ same => same ▸ fits p set shows) w
  refine ⟨{ st with child := inner, matrix := some ⟨(candidates set.solution).toArray, none, []⟩ },
    g, ?_, known, _, rfl, rfl, rfl, by simp⟩
  rw [NearbyState.collect, draw_bind_eq passed]
  rfl

end Collect

section Nearest

variable [DecidableEq C] {recorder : Recorder M C} {s : S} {destinations : List C}

variable (recorder) in
/-- The candidate of the next rank. -/
theorem NearbyState.next_eq (inner : child.State) {m : Nearby.Matrix C} {origin : C}
    (ranks : m.Ranks destinations (meter s)) {ranked : List C}
    (made : Nearby.Matrix.ranking destinations (meter s) origin = .ok ranked) (rank : Nat) :
    ∃ m', m'.Ranks destinations (meter s) ∧ ∀ w,
      NearbyState.next recorder meter none s ⟨inner, some m, some origin, rank⟩ w =
        .ok ((ranked[rank]?, ⟨inner, some m', some origin,
          if ranked[rank]?.isSome then rank + 1 else rank⟩), w) := by
  obtain ⟨m', found, ranks⟩ := ranks.destination made rank
  refine ⟨m', ranks, fun w => ?_⟩
  have drawn : NearbyState.destination meter s origin rank
      (⟨inner, some m, some origin, rank⟩ : NearbyState child) w =
        .ok ((ranked[rank]?, ⟨inner, some m', some origin, rank⟩), w) := by
    have lifted : (Draw.lift (m.destination (meter s) origin rank) : Draw M _) w =
        .ok ((ranked[rank]?, m'), w) := by
      rw [Draw.lift, found]
      rfl
    simp only [NearbyState.destination]
    rw [draw_bind_eq lifted]
    rfl
  simp only [NearbyState.next]
  rw [draw_bind_eq drawn]
  cases ranked[rank]? <;> rfl

variable (recorder) in
/-- Whatever is drawn, the matrix stays about the same destinations. -/
theorem NearbyState.of_next {st st' : NearbyState child} (ranks : st.Ranks destinations (meter s))
    {c : Option C} {w w' : World M}
    (drawn : st.next recorder meter none s w = .ok ((c, st'), w')) :
    st'.Ranks destinations (meter s) ∧ st'.child = st.child := by
  obtain ⟨inner, matrix, origin, rank⟩ := st
  obtain ⟨m, rfl, ranks⟩ := ranks
  cases origin with
  | none =>
    cases drawn
    exact ⟨⟨m, rfl, ranks⟩, rfl⟩
  | some origin =>
    simp only [NearbyState.next] at drawn
    obtain ⟨⟨found, after⟩, w₁, asked, drawn⟩ := exists_of_draw_bind drawn
    simp only [NearbyState.destination] at asked
    obtain ⟨⟨place, m'⟩, w₂, read, asked⟩ := exists_of_draw_bind asked
    cases asked
    have ranks' : m'.Ranks destinations (meter s) := by
      cases looked : m.destination (meter s) origin rank with
      | error e =>
        rw [Draw.lift, looked] at read
        cases read
      | ok r =>
        rw [Draw.lift, looked] at read
        cases read
        exact ranks.of_destination looked
    cases place <;> cases drawn <;> exact ⟨⟨m', rfl, ranks'⟩, rfl⟩

variable (serves : Serves child shown fun _ s _ L => L = candidates s)
variable (fits : ∀ p set, shown p set → (candidates set.solution).length < set.patience)
variable (steady : ∀ p set, shown p set → ∀ first ∈ p.first,
  candidates set.solution = candidates first ∧ meter set.solution = meter first)
variable (total : ∀ s origin, ∀ c ∈ candidates s, ∃ x, meter s origin c = .ok x)

omit [DecidableEq C] in
include steady in
/-- Within a phase it does not matter which of its solutions the matrix is about. -/
theorem NearbyState.ranks_iff {p : Point S} {set : Setting S} (busy : p.first.isSome)
    (shows : shown p set) (st : NearbyState child) :
    (∀ first ∈ p.first, st.Ranks (candidates first) (meter first)) ↔
      st.Ranks (candidates set.solution) (meter set.solution) := by
  obtain ⟨first, begun⟩ := Option.isSome_iff_exists.1 busy
  obtain ⟨sameCandidates, sameMeter⟩ := steady p set shows first begun
  rw [sameCandidates, sameMeter]
  constructor
  · exact fun ranks => ranks first begun
  · intro ranks first' begun'
    obtain rfl := Option.some.inj (begun.symm.trans begun')
    exact ranks

include serves fits steady total

/-- The candidates by their distance from the origin that the recorder holds when the pass
begins. -/
theorem serves_nearby (made : child.nearby recorder meter none none = .ok sel) :
    Nonempty (sel.Serves shown fun _ s m L => Nearest recorder meter candidates s m L) := by
  unfold Selector.nearby byDistance at made
  split at made
  · cases made
  obtain rfl := Except.ok.inj made
  refine ⟨{
    Inv := fun p st => serves.Inv p st.child ∧
      ∀ first ∈ p.first, st.Ranks (candidates first) (meter first)
    start := ⟨serves.start, by simp [Point.first]⟩
    handle := fun {p p' hook set st} known due shows w => ?_
    restart := fun {p set st} known busy shows w => ?_
    next := fun {p set st c st' w w'} known busy shows drawn => ?_ }⟩
  · obtain ⟨inner, g, handled, child⟩ := serves.handle known.1 due shows w
    dsimp only
    rw [draw_bind_eq handled]
    cases hook with
    | phaseStarted =>
      cases p <;> cases due
      obtain ⟨st', g', collected, known, ranks⟩ := Serves.collect serves fits
        { st with child := inner } child rfl shows ⟨g, w.memory⟩
      exact ⟨st', g', collected, known, (NearbyState.ranks_iff steady rfl shows st').2 ranks⟩
    | stepStarted =>
      cases p <;> cases due
      exact ⟨{ st with child := inner }, g, rfl, child, known.2⟩
    | stepEnded =>
      cases p <;> cases due
      exact ⟨{ st with child := inner }, g, rfl, child, known.2⟩
    | phaseEnded =>
      cases p <;> cases due
      exact ⟨_, g, rfl, child, by simp [Point.first]⟩
  · obtain ⟨inner, matrix, before, rank⟩ := st
    obtain ⟨m, there, ranks⟩ := (NearbyState.ranks_iff steady busy shows _).1 known.2
    obtain rfl : matrix = some m := there
    have kept (origin : Option C) : serves.Inv p inner ∧ ∀ first ∈ p.first,
        (⟨inner, some m, origin, 0⟩ : NearbyState child).Ranks (candidates first) (meter first) :=
      ⟨known.1, (NearbyState.ranks_iff steady busy shows _).2 ⟨m, rfl, ranks⟩⟩
    refine ⟨⟨inner, some m, recorder.recorded w.memory, 0⟩, w.generator, ?_⟩
    cases held : recorder.recorded w.memory with
    | none =>
      refine ⟨[], by rw [← held]; rfl, by simp [Nearest, held], kept none, ?_⟩
      exact ⟨_, fun w => rfl⟩
    | some origin =>
      obtain ⟨ranked, made, sorted⟩ := Nearby.Matrix.exists_ranking (total set.solution origin)
      refine ⟨ranked, by rw [← held]; rfl, by simpa [Nearest, held] using sorted, kept _, ?_⟩
      refine Supplies.of_counted (fun n (st : NearbyState child) => ∃ m : Nearby.Matrix C,
        m.Ranks (candidates set.solution) (meter set.solution) ∧
          st = ⟨inner, some m, some origin, n⟩) ?_ ⟨m, ranks, rfl⟩
      rintro n _ ⟨m, ranks, rfl⟩
      obtain ⟨m', ranks, drawn⟩ := NearbyState.next_eq recorder inner ranks made n
      refine ⟨_, drawn, fun more => ⟨m', ranks, ?_⟩⟩
      rw [if_pos more]
  · have ranks := (NearbyState.ranks_iff steady busy shows st).1 known.2
    obtain ⟨ranks, same⟩ := NearbyState.of_next recorder ranks drawn
    exact ⟨same ▸ known.1, (NearbyState.ranks_iff steady busy shows st').2 ranks⟩

end Nearest

end Selector

end PlanSearch
