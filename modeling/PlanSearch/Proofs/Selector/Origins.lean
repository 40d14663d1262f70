import PlanSearch.Proofs.Fault
import PlanSearch.Proofs.Selector.Nearest
import PlanSearch.Proofs.Selector.Traced

/-!
# The origins of nearby values

A selector of moves may rank the values by their distance from the entity, which the entities leave
with a recorder. A ranking in order reads the recorder when a pass over the values begins, and one
of drawn ranks whenever a value is drawn. So a value is near its own entity if the pass begins with
the entity, or if the ranks are drawn. In random order the values of one pass are spread over
several entities, and those in order are all ranked for the entity with which the pass began.
-/

namespace PlanSearch

variable {M S C α β : Type}

/-! ## Who leaves a recorder alone -/

/-- What the recorder holds stays as it is. -/
def Draw.Spares (recorder : Recorder M C) (f : Draw M α) : Prop :=
  ∀ w a w', f w = .ok (a, w') → recorder.recorded w'.memory = recorder.recorded w.memory

namespace Draw.Spares

variable {recorder : Recorder M C}

theorem pure (a : α) : Draw.Spares recorder (Pure.pure a) := by
  rintro w a w' ran
  cases ran
  rfl

theorem bind {f : Draw M α} {k : α → Draw M β} (first : f.Spares recorder)
    (rest : ∀ a, (k a).Spares recorder) : (f >>= k).Spares recorder := by
  intro w b w' ran
  obtain ⟨a, w₁, made, ran⟩ := exists_of_draw_bind ran
  exact (rest a w₁ b w' ran).trans (first w a w₁ made)

theorem generate (f : Random.Generator → Except Fault (α × Random.Generator)) :
    (Draw.generate f).Spares recorder := by
  intro w a w' ran
  unfold Draw.generate at ran
  split at ran
  · cases ran
  · cases ran
    rfl

theorem lift (x : Except Fault α) : (Draw.lift x).Spares recorder := by
  intro w a w' ran
  cases x with
  | error e => cases ran
  | ok x =>
    cases ran
    rfl

theorem fail (e : Fault) : (Draw.fail e : Draw M α).Spares recorder := nofun

theorem get : recorder.get.Spares recorder := by
  rintro w a w' ran
  cases ran
  rfl

end Draw.Spares

namespace Selector

/-- No call of the selector writes to the recorder. -/
structure Spares {C' : Type} (sel : Selector M S C) (recorder : Recorder M C') : Prop where
  handle : ∀ hook set st, (sel.handle hook set st).Spares recorder
  restart : ∀ set st, (sel.restart set st).Spares recorder
  next : ∀ set st, (sel.next set st).Spares recorder

section Spares

variable {C' : Type} {sel : Selector M S C} {recorder : Recorder M C'}

theorem Spares.drain (spares : sel.Spares recorder) (set : Setting S) (rounds : Nat)
    (st : sel.State) (acc : Array C) : (sel.drain set rounds st acc).Spares recorder := by
  induction rounds generalizing st acc with
  | zero => exact .fail _
  | succ rounds ih =>
    refine (spares.next set st).bind fun r => ?_
    obtain ⟨_ | c, st⟩ := r
    · exact .pure _
    · exact ih st _

theorem Spares.pass (spares : sel.Spares recorder) (set : Setting S) (st : sel.State) :
    (sel.pass set st).Spares recorder :=
  (spares.restart set st).bind fun st => spares.drain set _ st _

theorem spares_source (items : S → Array C) (isRandom : Bool) (recorder : Recorder M C') :
    (source items isRandom).Spares recorder where
  handle _ _ _ := .pure _
  restart _ _ := .pure _
  next set cursor := by
    simp only [source, enumerated]
    split
    · split
      · exact .pure _
      · exact (Draw.Spares.generate _).bind fun _ => .pure _
    · split
      · exact .pure _
      · exact .pure _

end Spares

end Selector

/-! ## What a nearby selector looks up -/

namespace Nearby.Matrix

variable [DecidableEq C] {m m' : Matrix C} {meter : S → Meter C} {seen seen' : List S} {s : S}
variable {origin : C} {rank : Nat} {c : C}

/-- The candidate has that rank among the destinations by their distance from the origin, as it was
in one of the solutions. -/
def HasRank (m : Matrix C) (meter : S → Meter C) (seen : List S) (origin : C) (rank : Nat) (c : C) :
    Prop :=
  rank < m.rowLength ∧ ∃ s ∈ seen, ∃ ranked,
    ranking m.destinations.toList (meter s) origin = .ok ranked ∧ ranked[rank]? = some c

/-- Every row was made of the distances from its origin in one of the solutions. -/
def MadeIn (m : Matrix C) (meter : S → Meter C) (seen : List S) : Prop :=
  ∀ row ∈ m.rows, ∃ s ∈ seen, ∃ ranked,
    ranking m.destinations.toList (meter s) row.1 = .ok ranked ∧
      row.2 = (ranked.take m.rowLength).toArray

omit [DecidableEq C] in
theorem MadeIn.mono (made : m.MadeIn meter seen) (more : seen ⊆ seen') : m.MadeIn meter seen' := by
  intro row member
  obtain ⟨s, shown, rest⟩ := made row member
  exact ⟨s, more shown, rest⟩

omit [DecidableEq C] in
theorem MadeIn.hasRank (made : m.MadeIn meter seen) {row : Array C}
    (member : (origin, row) ∈ m.rows) (found : row[rank]? = some c) :
    m.HasRank meter seen origin rank c := by
  obtain ⟨s, shown, ranked, measured, rfl⟩ := made _ member
  rw [List.getElem?_toArray, List.getElem?_take] at found
  split at found
  · exact ⟨‹_›, s, shown, ranked, measured, found⟩
  · cases found

/-- Looking something up adds a row that is made of the distances as they are now. -/
theorem MadeIn.ensureRow (made : m.MadeIn meter seen) (shown : s ∈ seen)
    (ensured : m.ensureRow (meter s) origin = .ok m') :
    m'.MadeIn meter seen ∧ m'.destinations = m.destinations ∧ m'.limit = m.limit := by
  unfold Matrix.ensureRow at ensured
  split at ensured
  · obtain rfl := Except.ok.inj ensured
    exact ⟨made, rfl, rfl⟩
  · unfold addRow at ensured
    obtain ⟨ranked, measured, ensured⟩ := PlanSearch.andThen_eq_ok.1 ensured
    obtain rfl := Except.ok.inj ensured
    refine ⟨fun row member => ?_, rfl, rfl⟩
    rcases List.mem_cons.1 member with rfl | member
    · exact ⟨s, shown, ranked, measured, rfl⟩
    · exact made row (List.mem_filter.1 member).1

/-- What is found for an origin and a rank has that rank for that origin. -/
theorem MadeIn.destination (made : m.MadeIn meter seen) (shown : s ∈ seen) {found : Option C}
    (looked : m.destination (meter s) origin rank = .ok (found, m')) :
    m'.MadeIn meter seen ∧ ∀ c ∈ found, m.HasRank meter seen origin rank c := by
  obtain ⟨m₁, ensured, looked⟩ := PlanSearch.andThen_eq_ok.1 looked
  obtain ⟨rfl, rfl⟩ := Prod.mk.inj (Except.ok.inj looked)
  obtain ⟨made, sameDestinations, sameLimit⟩ := made.ensureRow shown ensured
  refine ⟨made, fun c found => ?_⟩
  obtain ⟨row, known, found⟩ := Option.bind_eq_some_iff.1 found
  have ranked := made.hasRank (Ranks.mem_of_row? known) found
  rwa [HasRank, rowLength, sameDestinations, sameLimit] at ranked

end Nearby.Matrix

namespace Selector

section Nearby

variable [DecidableEq C] {child : Selector M S C} {recorder : Recorder M C}
variable {meter : S → Nearby.Meter C} {distribution : Option Nearby.Distribution}
variable {limit : Option Nat} {seen seen' : List S} {set : Setting S}
variable {st st' : NearbyState child} {w w' : World M}

/-- The origin and the rank of the next candidate: those of the pass, or the recorded origin and a
drawn rank. -/
def NearbyState.sought (recorder : Recorder M C) (distribution : Option Nearby.Distribution)
    (st : NearbyState child) (w : World M) : Option (C × Nat) :=
  match distribution with
  | none => st.origin.map fun origin => (origin, st.rank)
  | some d =>
    match recorder.recorded w.memory, st.matrix with
    | some origin, some m =>
      (d.draw m.rowLength w.generator).toOption.map fun drawn => (origin, drawn.1)
    | _, _ => none

omit [DecidableEq C] in
theorem NearbyState.origin_of_sought {origin : C} {rank : Nat}
    (sought : st.sought recorder none w = some (origin, rank)) : st.origin = some origin := by
  obtain ⟨origin', known, same⟩ := Option.map_eq_some_iff.1 sought
  rw [known, (Prod.mk.inj same).1]

omit [DecidableEq C] in
/-- Drawn ranks are those for what is recorded. -/
theorem NearbyState.recorded_of_sought {d : Nearby.Distribution} {origin : C} {rank : Nat}
    (sought : st.sought recorder (some d) w = some (origin, rank)) :
    recorder.recorded w.memory = some origin := by
  unfold NearbyState.sought at sought
  dsimp only at sought
  split at sought
  · obtain ⟨drawn, -, same⟩ := Option.map_eq_some_iff.1 sought
    rw [‹recorder.recorded w.memory = _›, (Prod.mk.inj same).1]
  · cases sought

/-- Every row was made of the distances in one of the solutions. -/
def NearbyState.MadeIn (meter : S → Nearby.Meter C) (seen : List S) (st : NearbyState child) :
    Prop :=
  ∀ m ∈ st.matrix, m.MadeIn meter seen

omit [DecidableEq C] in
theorem NearbyState.MadeIn.mono (made : st.MadeIn meter seen) (more : seen ⊆ seen') :
    st.MadeIn meter seen' := fun m known => (made m known).mono more

omit [DecidableEq C] in
theorem NearbyState.madeIn_collect (meter : S → Nearby.Meter C) (seen : List S)
    (ran : st.collect limit set w = .ok (st', w')) :
    st'.MadeIn meter seen ∧ st'.origin = st.origin := by
  obtain ⟨⟨destinations, inner⟩, w₁, -, ran⟩ := exists_of_draw_bind ran
  cases ran
  refine ⟨?_, rfl⟩
  rintro m ⟨⟩
  exact fun row member => absurd member List.not_mem_nil

theorem NearbyState.MadeIn.destination (made : st.MadeIn meter seen) (shown : set.solution ∈ seen)
    {origin : C} {rank : Nat} {c : Option C}
    (ran : st.destination meter set.solution origin rank w = .ok ((c, st'), w')) :
    st'.MadeIn meter seen ∧ st'.origin = st.origin ∧
      ∀ v ∈ c, ∃ m, st.matrix = some m ∧ m.HasRank meter seen origin rank v := by
  obtain ⟨inner, matrix, origin', rank'⟩ := st
  cases matrix with
  | none =>
    cases ran
    exact ⟨made, rfl, nofun⟩
  | some m =>
    simp only [NearbyState.destination] at ran
    obtain ⟨⟨found, m'⟩, w₁, looked, ran⟩ := exists_of_draw_bind ran
    cases ran
    cases known : m.destination (meter set.solution) origin rank with
    | error e =>
      rw [Draw.lift, known] at looked
      cases looked
    | ok r =>
      rw [Draw.lift, known] at looked
      cases looked
      obtain ⟨made', ranked⟩ := (made m rfl).destination shown known
      refine ⟨?_, rfl, fun v found => ⟨m, rfl, ranked v found⟩⟩
      rintro _ ⟨⟩
      exact made'

omit [DecidableEq C] in
theorem NearbyState.sought_of_origin (recorder : Recorder M C) {origin : C}
    (known : st.origin = some origin) : st.sought recorder none w = some (origin, st.rank) := by
  rw [sought, known]
  rfl

omit [DecidableEq C] in
theorem NearbyState.sought_of_draw {d : Nearby.Distribution} {origin : C} {m : Nearby.Matrix C}
    {rank : Nat} (known : recorder.recorded w.memory = some origin) (there : st.matrix = some m)
    (drawn : Draw.generate (d.draw m.rowLength) w = .ok (rank, w')) :
    st.sought recorder (some d) w = some (origin, rank) := by
  cases draws : d.draw m.rowLength w.generator with
  | error e =>
    rw [Draw.generate, draws] at drawn
    cases drawn
  | ok r =>
    rw [Draw.generate, draws] at drawn
    cases drawn
    simp only [sought, known, there, draws]
    rfl

/-- The candidate has the rank that is sought, for the origin that is sought. -/
def NearbyState.Finds (recorder : Recorder M C) (meter : S → Nearby.Meter C)
    (distribution : Option Nearby.Distribution) (seen : List S) (st : NearbyState child)
    (w : World M) (v : C) : Prop :=
  ∃ m origin rank, st.matrix = some m ∧ st.sought recorder distribution w = some (origin, rank) ∧
    m.HasRank meter seen origin rank v

theorem NearbyState.MadeIn.next_listed (made : st.MadeIn meter seen) (shown : set.solution ∈ seen)
    {c : Option C} (ran : st.next recorder meter none set.solution w = .ok ((c, st'), w')) :
    st'.MadeIn meter seen ∧ st'.origin = st.origin ∧
      ∀ v ∈ c, st.Finds recorder meter none seen w v := by
  unfold NearbyState.next at ran
  cases known : st.origin with
  | none =>
    rw [known] at ran
    cases ran
    exact ⟨made, known, nofun⟩
  | some origin =>
    rw [known] at ran
    obtain ⟨⟨found, st₁⟩, w₁, looked, ran⟩ := exists_of_draw_bind ran
    obtain ⟨made, same, ranked⟩ := made.destination shown looked
    have finds (v : C) (given : v ∈ found) : st.Finds recorder meter none seen w v := by
      obtain ⟨m, there, ranked⟩ := ranked v given
      exact ⟨m, origin, st.rank, there, sought_of_origin recorder known, ranked⟩
    cases found with
    | none =>
      cases ran
      exact ⟨made, same.trans known, finds⟩
    | some v =>
      cases ran
      exact ⟨made, same.trans known, finds⟩

theorem NearbyState.MadeIn.next_drawn (made : st.MadeIn meter seen) (shown : set.solution ∈ seen)
    {d : Nearby.Distribution} {c : Option C}
    (ran : st.next recorder meter (some d) set.solution w = .ok ((c, st'), w')) :
    st'.MadeIn meter seen ∧ st'.origin = st.origin ∧
      ∀ v ∈ c, st.Finds recorder meter (some d) seen w v := by
  obtain ⟨held, w₁, got, ran⟩ := exists_of_draw_bind ran
  cases got
  cases known : recorder.recorded w.memory with
  | none =>
    rw [known] at ran
    cases ran
    exact ⟨made, rfl, nofun⟩
  | some origin =>
    cases there : st.matrix with
    | none =>
      rw [known, there] at ran
      cases ran
      exact ⟨made, rfl, nofun⟩
    | some m =>
      rw [known, there] at ran
      dsimp only at ran
      split at ran
      · cases ran
        exact ⟨made, rfl, nofun⟩
      · obtain ⟨rank, w₁, drawn, ran⟩ := exists_of_draw_bind ran
        obtain ⟨made, same, ranked⟩ := made.destination shown ran
        refine ⟨made, same, fun v given => ?_⟩
        obtain ⟨m', there', ranked⟩ := ranked v given
        obtain rfl := Option.some.inj (there.symm.trans there')
        exact ⟨m, origin, rank, there, sought_of_draw known there drawn, ranked⟩

variable (recorder distribution) in
/-- The next candidate has the rank that is sought, for the origin that is sought. -/
theorem NearbyState.MadeIn.next (made : st.MadeIn meter seen) (shown : set.solution ∈ seen)
    {c : Option C}
    (ran : st.next recorder meter distribution set.solution w = .ok ((c, st'), w')) :
    st'.MadeIn meter seen ∧ st'.origin = st.origin ∧
      ∀ v ∈ c, st.Finds recorder meter distribution seen w v := by
  cases distribution with
  | none => exact made.next_listed shown ran
  | some d => exact made.next_drawn shown ran

omit [DecidableEq C] in
theorem Spares.collect (spares : child.Spares recorder) (set : Setting S) (st : NearbyState child) :
    (st.collect limit set).Spares recorder := by
  refine (spares.pass set st.child).bind fun r => ?_
  obtain ⟨destinations, inner⟩ := r
  exact .pure _

theorem NearbyState.spares_destination (s : S) (origin : C) (rank : Nat) (st : NearbyState child) :
    (st.destination meter s origin rank : Draw M _).Spares recorder := by
  unfold NearbyState.destination
  split
  · exact .pure _
  · refine (Draw.Spares.lift _).bind fun r => ?_
    obtain ⟨c, m⟩ := r
    exact .pure _

/-- A nearby selector looks at the recorder without writing to it. -/
theorem Spares.byDistance (spares : child.Spares recorder) (meter : S → Nearby.Meter C)
    (distribution : Option Nearby.Distribution) (limit : Option Nat) :
    (child.byDistance recorder meter distribution limit).Spares recorder where
  handle hook set st := by
    refine (spares.handle hook set st.child).bind fun inner => ?_
    cases hook with
    | phaseStarted => exact spares.collect set _
    | _ => exact .pure _
  restart set st := by
    simp only [Selector.byDistance]
    split
    · exact (spares.collect set st).bind fun st => Draw.Spares.get.bind fun origin => .pure _
    · exact (Draw.Spares.pure st).bind fun st => Draw.Spares.get.bind fun origin => .pure _
  next set st := by
    change Draw.Spares recorder (st.next recorder meter distribution set.solution)
    unfold NearbyState.next
    cases distribution with
    | none =>
      dsimp only
      split
      · exact .pure _
      · refine (NearbyState.spares_destination _ _ _ st).bind fun r => ?_
        obtain ⟨c, st⟩ := r
        exact .pure _
    | some d =>
      refine Draw.Spares.get.bind fun held => ?_
      split
      · split
        · exact .pure _
        · exact (Draw.Spares.generate _).bind fun rank => NearbyState.spares_destination _ _ _ st
      · exact .pure _

/-- The solutions that are still of the phase after an announcement. -/
def ofPhase : Hook → List S → List S
  | .phaseStarted, _ | .phaseEnded, _ => []
  | _, seen => seen

variable {st st' : (child.byDistance recorder meter distribution limit).State}

/-- The origin of a pass is kept until the phase ends. -/
theorem NearbyState.MadeIn.handle (made : NearbyState.MadeIn meter seen st) {hook : Hook}
    (ran : (child.byDistance recorder meter distribution limit).handle hook set st w =
      .ok (st', w')) :
    NearbyState.MadeIn meter (ofPhase hook seen) st' ∧
      (hook ≠ .phaseEnded → st'.origin = st.origin) := by
  obtain ⟨inner, w₁, -, ran⟩ := exists_of_draw_bind ran
  cases hook with
  | phaseStarted =>
    obtain ⟨made, same⟩ := NearbyState.madeIn_collect meter [] ran
    exact ⟨made, fun _ => same⟩
  | stepStarted =>
    cases ran
    exact ⟨made, fun _ => rfl⟩
  | stepEnded =>
    cases ran
    exact ⟨made, fun _ => rfl⟩
  | phaseEnded =>
    cases ran
    exact ⟨nofun, fun other => absurd rfl other⟩

/-- When a pass begins, its origin is what the recorder holds. -/
theorem NearbyState.MadeIn.restart (spares : child.Spares recorder)
    (made : NearbyState.MadeIn meter seen st)
    (ran : (child.byDistance recorder meter distribution limit).restart set st w = .ok (st', w')) :
    NearbyState.MadeIn meter seen st' ∧ st'.origin = recorder.recorded w.memory := by
  simp only [byDistance] at ran
  split at ran
  · obtain ⟨st₁, w₁, collected, ran⟩ := exists_of_draw_bind ran
    cases ran
    exact ⟨(NearbyState.madeIn_collect meter seen collected).1, spares.collect _ _ _ _ _ collected⟩
  · cases ran
    exact ⟨made, rfl⟩

end Nearby

/-! ## Entities that are recorded -/

section Recording

variable {entities : Selector M S C} {recorder : Recorder M C} {set : Setting S}
variable {st st' : entities.State} {w w' : World M}

theorem recorded_handle_recording (spares : entities.Spares recorder) {hook : Hook}
    (other : hook ≠ .phaseEnded)
    (ran : (entities.recording recorder).handle hook set st w = .ok (st', w')) :
    recorder.recorded w'.memory = recorder.recorded w.memory := by
  obtain ⟨inner, w₁, handled, ran⟩ := exists_of_draw_bind ran
  cases hook with
  | phaseEnded => exact absurd rfl other
  | _ =>
    cases ran
    exact spares.handle _ _ _ _ _ _ handled

/-- The entity that was drawn is the one that is recorded. -/
theorem recorded_next_recording (lawful : recorder.Lawful) {e : C}
    (ran : (entities.recording recorder).next set st w = .ok ((some e, st'), w')) :
    recorder.recorded w'.memory = some e := by
  obtain ⟨⟨c, inner⟩, w₁, drawn, ran⟩ := exists_of_draw_bind ran
  cases c with
  | none => cases ran
  | some c =>
    cases ran
    exact lawful.recorded_record _ _

theorem recorded_nextOrRestart_recording (lawful : recorder.Lawful) {e : C}
    (ran : (entities.recording recorder).nextOrRestart set st w = .ok ((some e, st'), w')) :
    recorder.recorded w'.memory = some e := by
  obtain ⟨⟨c, st₁⟩, w₁, drawn, ran⟩ := exists_of_draw_bind ran
  cases c with
  | none =>
    obtain ⟨st₂, w₂, -, ran⟩ := exists_of_draw_bind ran
    exact recorded_next_recording lawful ran
  | some c =>
    cases ran
    exact recorded_next_recording lawful drawn

end Recording

/-! ## Pairs of entities and values near them -/

/-- A state to which calls lead in whatever order, if nobody else writes to the recorder in between:
with what the recorder holds, and the solutions for which candidates were drawn in the phase. -/
inductive Undisturbed {C' : Type} (sel : Selector M S C') (recorder : Recorder M C) :
    Option C → List S → sel.State → Prop
  | start (held : Option C) : Undisturbed sel recorder held [] sel.start
  | announced {seen : List S} {st st' : sel.State} {hook : Hook} {set : Setting S} {w w' : World M}
    (before : Undisturbed sel recorder (recorder.recorded w.memory) seen st)
    (ran : sel.handle hook set st w = .ok (st', w')) :
    Undisturbed sel recorder (recorder.recorded w'.memory) (ofPhase hook seen) st'
  | restarted {seen : List S} {st st' : sel.State} {set : Setting S} {w w' : World M}
    (before : Undisturbed sel recorder (recorder.recorded w.memory) seen st)
    (ran : sel.restart set st w = .ok (st', w')) :
    Undisturbed sel recorder (recorder.recorded w'.memory) seen st'
  | drawn {seen : List S} {st st' : sel.State} {set : Setting S} {c : Option C'} {w w' : World M}
    (before : Undisturbed sel recorder (recorder.recorded w.memory) seen st)
    (ran : sel.next set st w = .ok ((c, st'), w')) :
    Undisturbed sel recorder (recorder.recorded w'.memory) (set.solution :: seen) st'

section Pairs

variable [DecidableEq C] {entities child : Selector M S C} {recorder : Recorder M C}
variable {meter : S → Nearby.Meter C} {distribution : Option Nearby.Distribution}
variable {limit : Option Nat} {seen : List S} {set : Setting S} {w w' : World M}
variable {isRandom : Bool}

variable (entities child recorder meter distribution limit) in
/-- Entities that are recorded, with the values by their distance from them. -/
abbrev PairedNear : Type :=
  Pairing (entities.recording recorder) (child.byDistance recorder meter distribution limit)

/-- The rows are made of the distances in the phase. In order, an entity in use is recorded, and its
pass over the values began with it. -/
structure PairedNear.Own (isRandom : Bool) (held : Option C) (seen : List S)
    (st : PairedNear entities child recorder meter distribution limit) : Prop where
  made : NearbyState.MadeIn meter seen st.values
  own : isRandom = false → ∀ e ∈ st.current, held = some e ∧ NearbyState.origin st.values = some e

variable {st st' : PairedNear entities child recorder meter distribution limit}

/-- The value was drawn for the entity: the entity was recorded, the selector of values looked for a
rank of an origin, and the value has that rank among the destinations by their distance from that
origin in a solution of the phase. -/
structure DrawnNear (recorder : Recorder M C) (meter : S → Nearby.Meter C)
    (distribution : Option Nearby.Distribution) (limit : Option Nat) (set : Setting S)
    (seen : List S) (e v origin : C) (rank : Nat) (before : NearbyState child) (w₀ : World M)
    (after : NearbyState child) (w' : World M) : Prop where
  recorded : recorder.recorded w₀.memory = some e
  drawn : (child.byDistance recorder meter distribution limit).next set before w₀ =
    .ok ((some v, after), w')
  sought : before.sought recorder distribution w₀ = some (origin, rank)
  ranked : ∃ m, before.matrix = some m ∧ m.HasRank meter seen origin rank v

section DrawnNear

variable {e v origin : C} {rank : Nat} {before after : NearbyState child} {w₀ : World M}

theorem DrawnNear.origin_eq_of_begun
    (drawn : DrawnNear recorder meter none limit set seen e v origin rank before w₀ after w')
    (begun : before.origin = some e) : origin = e :=
  Option.some.inj ((NearbyState.origin_of_sought drawn.sought).symm.trans begun)

theorem DrawnNear.origin_eq_of_isSome
    (drawn :
      DrawnNear recorder meter distribution limit set seen e v origin rank before w₀ after w')
    (ranks : distribution.isSome) : origin = e := by
  obtain ⟨d, rfl⟩ := Option.isSome_iff_exists.1 ranks
  exact Option.some.inj
    ((NearbyState.recorded_of_sought drawn.sought).symm.trans drawn.recorded)

end DrawnNear

namespace PairedNear

theorem drawnNear_of_next {before after : NearbyState child} (made : before.MadeIn meter seen)
    (shown : set.solution ∈ seen) {e : C} {value : Option C} {w₀ : World M}
    (recorded : recorder.recorded w₀.memory = some e)
    (drawn : (child.byDistance recorder meter distribution limit).next set before w₀ =
      .ok ((value, after), w')) :
    after.MadeIn meter seen ∧ ∀ v ∈ value, ∃ origin rank,
      DrawnNear recorder meter distribution limit set seen e v origin rank before w₀ after w' := by
  obtain ⟨made, -, ranked⟩ := made.next recorder distribution shown drawn
  refine ⟨made, fun v found => ?_⟩
  obtain ⟨m, origin, rank, there, sought, has⟩ := ranked v found
  obtain rfl := Option.mem_def.1 found
  exact ⟨origin, rank, recorded, drawn, sought, m, there, has⟩

variable (lawful : recorder.Lawful) (sparesE : entities.Spares recorder)
variable (sparesV : child.Spares recorder)

include sparesE sparesV in
theorem Own.handle (own : st.Own isRandom (recorder.recorded w.memory) seen) {hook : Hook}
    (ran : st.handle hook set w = .ok (st', w')) :
    st'.Own isRandom (recorder.recorded w'.memory) (ofPhase hook seen) := by
  obtain ⟨es, w₁, handledE, ran⟩ := exists_of_draw_bind ran
  obtain ⟨vs, w₂, handledV, ran⟩ := exists_of_draw_bind ran
  cases ran
  obtain ⟨made, same⟩ := own.made.handle handledV
  refine ⟨made, fun listed e inUse => ?_⟩
  by_cases ended : hook = .phaseEnded
  · rw [if_pos ended] at inUse
    cases inUse
  · rw [if_neg ended] at inUse
    obtain ⟨held, origin⟩ := own.own listed e inUse
    refine ⟨?_, (same ended).trans origin⟩
    rw [(sparesV.byDistance meter distribution limit).handle _ _ _ _ _ _ handledV,
      recorded_handle_recording sparesE ended handledE, held]

theorem Own.restart (own : st.Own isRandom (recorder.recorded w.memory) seen)
    (ran : st.restart set w = .ok (st', w')) :
    st'.Own isRandom (recorder.recorded w'.memory) seen := by
  obtain ⟨es, w₁, -, ran⟩ := exists_of_draw_bind ran
  cases ran
  exact ⟨own.made, fun _ => nofun⟩

include lawful sparesV in
/-- In random order the value is from the pass that was under way, or from one that began with the
entity. -/
theorem Own.drawPair (own : st.Own true (recorder.recorded w.memory) seen)
    (shown : set.solution ∈ seen) {pair : Option (C × C)}
    (ran : st.drawPair set w = .ok ((pair, st'), w')) :
    NearbyState.MadeIn meter seen st'.values ∧ ∀ p ∈ pair, ∃ origin rank before w₀,
      DrawnNear recorder meter distribution limit set seen p.1 p.2 origin rank before w₀
        st'.values w' ∧
        (before = st.values ∨ before.origin = some p.1) := by
  obtain ⟨⟨entity, es⟩, w₁, drawnE, ran⟩ := exists_of_draw_bind ran
  cases entity with
  | none =>
    cases ran
    exact ⟨own.made, nofun⟩
  | some e =>
    have held := recorded_nextOrRestart_recording lawful drawnE
    obtain ⟨⟨value, vs⟩, w₂, drawnV, ran⟩ := exists_of_draw_bind ran
    cases ran
    obtain ⟨⟨first, vs₁⟩, w₂, drawn, drawnV⟩ := exists_of_draw_bind drawnV
    cases first with
    | some v =>
      cases drawnV
      obtain ⟨made, drew⟩ := drawnNear_of_next own.made shown held drawn
      refine ⟨made, ?_⟩
      rintro p ⟨⟩
      obtain ⟨origin, rank, drew⟩ := drew v rfl
      exact ⟨origin, rank, _, _, drew, .inl rfl⟩
    | none =>
      have spares := sparesV.byDistance meter distribution limit
      obtain ⟨vs₂, w₃, restarted, drawnV⟩ := exists_of_draw_bind drawnV
      obtain ⟨made, begun⟩ :=
        (own.made.next recorder distribution shown drawn).1.restart sparesV restarted
      have held₂ := (spares.next _ _ _ _ _ drawn).trans held
      have held₃ := (spares.restart _ _ _ _ _ restarted).trans held₂
      obtain ⟨made, drew⟩ := drawnNear_of_next made shown held₃ drawnV
      refine ⟨made, fun p given => ?_⟩
      obtain ⟨v, found, rfl⟩ := Option.map_eq_some_iff.1 given
      obtain ⟨origin, rank, drew⟩ := drew v found
      exact ⟨origin, rank, _, _, drew, .inr (begun.trans held₂)⟩

include lawful sparesV in
/-- In order the entity in use is recorded, and its pass over the values began with it. -/
theorem Own.advance (own : st.Own false (recorder.recorded w.memory) seen) {entity : Option C}
    (ran : st.advance set w = .ok ((entity, st'), w')) :
    st'.Own false (recorder.recorded w'.memory) seen ∧ st'.current = entity := by
  unfold Pairing.advance at ran
  cases inUse : st.current with
  | some e =>
    rw [inUse] at ran
    cases ran
    exact ⟨own, inUse⟩
  | none =>
    rw [inUse] at ran
    obtain ⟨⟨candidate, es⟩, w₁, drawn, ran⟩ := exists_of_draw_bind ran
    cases candidate with
    | none =>
      cases ran
      exact ⟨⟨own.made, fun _ => nofun⟩, rfl⟩
    | some e =>
      have held := recorded_next_recording lawful drawn
      obtain ⟨vs, w₂, restarted, same⟩ := exists_of_draw_bind ran
      cases same
      obtain ⟨made, begun⟩ := own.made.restart sparesV restarted
      refine ⟨⟨made, ?_⟩, rfl⟩
      rintro - _ ⟨⟩
      have spares := sparesV.byDistance meter distribution limit
      exact ⟨(spares.restart _ _ _ _ _ restarted).trans held, begun.trans held⟩

include lawful sparesV in
/-- In order the value is from a pass that began with the entity. -/
theorem Own.nextPair (own : st.Own false (recorder.recorded w.memory) seen)
    (shown : set.solution ∈ seen) {rounds : Nat} {pair : Option (C × C)}
    (ran : st.nextPair set rounds w = .ok ((pair, st'), w')) :
    st'.Own false (recorder.recorded w'.memory) seen ∧ ∀ p ∈ pair, ∃ origin rank before w₀,
      DrawnNear recorder meter distribution limit set seen p.1 p.2 origin rank before w₀
        st'.values w' ∧ before.origin = some p.1 := by
  induction rounds generalizing st w with
  | zero => cases ran
  | succ rounds ih =>
    rw [Pairing.nextPair_succ] at ran
    obtain ⟨⟨entity, st₁⟩, w₁, advanced, ran⟩ := exists_of_draw_bind ran
    obtain ⟨own, inUse⟩ := own.advance lawful sparesV advanced
    cases entity with
    | none =>
      cases ran
      exact ⟨own, nofun⟩
    | some e =>
      obtain ⟨held, origin⟩ := own.own rfl e inUse
      obtain ⟨⟨value, vs⟩, w₂, drawn, ran⟩ := exists_of_draw_bind ran
      obtain ⟨made, same, -⟩ := own.made.next recorder distribution shown drawn
      have held₂ := ((sparesV.byDistance meter distribution limit).next
        _ _ _ _ _ drawn).trans held
      cases value with
      | none => exact ih ⟨made, fun _ e none => by cases none⟩ ran
      | some v =>
        cases ran
        obtain ⟨-, drew⟩ := drawnNear_of_next own.made shown held
          drawn
        refine ⟨⟨made, fun _ e' inUse' => ?_⟩, ?_⟩
        · obtain rfl := Option.some.inj (inUse.symm.trans inUse')
          exact ⟨held₂, same.trans origin⟩
        · rintro p ⟨⟩
          obtain ⟨o, rank, drew⟩ := drew v rfl
          exact ⟨o, rank, _, _, drew, origin⟩

end PairedNear

/-- The rows and the pass are those of the entity in use, whatever calls come. -/
theorem Undisturbed.own (lawful : recorder.Lawful) (sparesE : entities.Spares recorder)
    (sparesV : child.Spares recorder) {move : C → C → Move S} {name : String} {held : Option C}
    {st : (changes (entities.recording recorder)
      (child.byDistance recorder meter distribution limit) isRandom move name).State}
    (reached : Undisturbed _ recorder held seen st) : PairedNear.Own isRandom held seen st := by
  induction reached with
  | start held => exact ⟨nofun, fun _ => nofun⟩
  | announced before ran ih => exact ih.handle sparesE sparesV ran
  | restarted before ran ih => exact ih.restart ran
  | @drawn seen st st' set c w w' before ran ih =>
    have ih : PairedNear.Own isRandom _ (set.solution :: seen) st :=
      ⟨ih.made.mono (List.subset_cons_self _ _), ih.own⟩
    cases isRandom with
    | true =>
      obtain ⟨⟨pair, st₁⟩, w₁, drawn, ran⟩ := exists_of_draw_bind ran
      cases ran
      exact ⟨(ih.drawPair lawful sparesV List.mem_cons_self drawn).1, nofun⟩
    | false =>
      obtain ⟨⟨pair, st₁⟩, w₁, drawn, ran⟩ := exists_of_draw_bind ran
      cases ran
      exact (ih.nextPair lawful sparesV List.mem_cons_self drawn).1

/-- Every move gives an entity a value that has the rank for which the selector of values looked in
a ranking of the destinations of the phase. The ranking is that of the same entity if the moves are
in order or the ranks are drawn. Otherwise it is that of the entity with which the pass over the
values began, which may have been an earlier one. -/
theorem changes_drawnNear (lawful : recorder.Lawful) (sparesE : entities.Spares recorder)
    (sparesV : child.Spares recorder) (isRandom : Bool) (move : C → C → Move S) (name : String) :
    let near := child.byDistance recorder meter distribution limit
    let moves := changes (entities.recording recorder) near isRandom move name
    ∀ seen st set w m st' w', moves.Undisturbed recorder (recorder.recorded w.memory) seen st →
      moves.next set st w = .ok ((some m, st'), w') →
      ∃ e v origin rank before w₀, m = move e v ∧
        DrawnNear recorder meter distribution limit set (set.solution :: seen) e v origin rank
          before w₀ st'.values w' ∧
        (isRandom = false ∨ distribution.isSome → origin = e) ∧
        (isRandom = true → distribution = none →
          origin = e ∨ before = st.values ∧ NearbyState.origin st.values = some origin) := by
  intro near moves seen st set w m st' w' reached ran
  have own := reached.own lawful sparesE sparesV
  have own : PairedNear.Own isRandom _ (set.solution :: seen) st :=
    ⟨own.made.mono (List.subset_cons_self _ _), own.own⟩
  cases isRandom with
  | true =>
    obtain ⟨⟨pair, st₁⟩, w₁, drawn, ran⟩ := exists_of_draw_bind ran
    cases pair with
    | none => cases ran
    | some p =>
      cases ran
      obtain ⟨-, near⟩ := own.drawPair lawful sparesV List.mem_cons_self drawn
      obtain ⟨origin, rank, before, w₀, near, under⟩ := near p rfl
      refine ⟨p.1, p.2, origin, rank, before, w₀, rfl, near, ?_, ?_⟩
      · exact fun h => near.origin_eq_of_isSome (h.resolve_left nofun)
      · rintro - rfl
        rcases under with rfl | begun
        · exact .inr ⟨rfl, NearbyState.origin_of_sought near.sought⟩
        · exact .inl (near.origin_eq_of_begun begun)
  | false =>
    obtain ⟨⟨pair, st₁⟩, w₁, drawn, ran⟩ := exists_of_draw_bind ran
    cases pair with
    | none => cases ran
    | some p =>
      cases ran
      obtain ⟨-, near⟩ := own.nextPair lawful sparesV List.mem_cons_self drawn
      obtain ⟨origin, rank, before, w₀, near, begun⟩ := near p rfl
      refine ⟨p.1, p.2, origin, rank, before, w₀, rfl, near, fun _ => ?_, nofun⟩
      cases distribution with
      | none => exact near.origin_eq_of_begun begun
      | some d => exact near.origin_eq_of_isSome rfl

end Pairs

/-- A place for one number. -/
def slate : Recorder (Option Nat) Nat := ⟨"here", id, fun c _ => c⟩

theorem lawful_slate : slate.Lawful := ⟨fun _ _ => rfl, fun _ _ _ => rfl⟩

/-- Gives an entity a value. -/
def give (e v : Nat) : Move Unit :=
  .change { name := "", descriptorIndex := 0, get := fun _ _ => none, set := fun s _ _ => s } e
    (some v)

/-- How far numbers are apart. -/
def apart : Unit → Nearby.Meter Nat := fun _ a b => .ok (Float.ofNat ((a - b) + (b - a)))

theorem ranking_apart : Nearby.Matrix.ranking [0, 1] (apart ()) 0 = .ok [0, 1] ∧
    Nearby.Matrix.ranking [0, 1] (apart ()) 1 = .ok [1, 0] := by
  have before : Decimal.notAfter (Float.ofNat 0) (Float.ofNat 1) = true := by decide +kernel
  have after : Decimal.notAfter (Float.ofNat 1) (Float.ofNat 0) = false := by decide +kernel
  have first : [(Float.ofNat 0, 0), (Float.ofNat 1, 1)].mergeSort
      (fun a b => Decimal.notAfter a.1 b.1) = [(Float.ofNat 0, 0), (Float.ofNat 1, 1)] := by
    simp [List.mergeSort, before]
  have second : [(Float.ofNat 1, 0), (Float.ofNat 0, 1)].mergeSort
      (fun a b => Decimal.notAfter a.1 b.1) = [(Float.ofNat 0, 1), (Float.ofNat 1, 0)] := by
    simp [List.mergeSort, after]
  exact ⟨congrArg (fun l : List (Float × Nat) => Except.ok (l.map Prod.snd)) first,
    congrArg (fun l : List (Float × Nat) => Except.ok (l.map Prod.snd)) second⟩

/-- Two numbers in turn. -/
def both : Selector (Option Nat) Unit Nat := source (fun _ => #[0, 1]) false

/-- Two entities in turn, each with a value near it, in random order. -/
def neighbouring : Selector (Option Nat) Unit (Move Unit) :=
  changes (both.recording slate) (both.byDistance slate apart none none) true give ""

/-- The first entity is given the value nearest to it. The pass goes on for the second one, which is
given the value at rank one for the first entity, while the first one is at rank one for it. -/
theorem changes_drawnNear_neighbouring :
    let set : Setting Unit := ⟨(), 5⟩
    ∃ st st' w w', neighbouring.Undisturbed slate (slate.recorded w.memory) [()] st ∧
      neighbouring.next set st w = .ok ((some (give 1 1), st'), w') ∧
      (∃ e v origin rank before w₀, give 1 1 = give e v ∧
        DrawnNear slate apart none none set [(), ()] e v origin rank before w₀ st'.values w') ∧
      (∃ before w₀, DrawnNear slate apart none none set [(), ()] 1 1 0 1 before w₀ st'.values w') ∧
      Nearby.Matrix.ranking [0, 1] (apart ()) 1 = .ok [1, 0] := by
  intro set
  obtain ⟨ranking₀, ranking₁⟩ := ranking_apart
  have spares : both.Spares slate := spares_source _ _ _
  let w (held : Option Nat) : World (Option Nat) := ⟨⟨Vector.replicate 8 0, 0⟩, held⟩
  let inner : both.State := (2 : Nat)
  let near (m : Nearby.Matrix Nat) (rank : Nat) : NearbyState both := ⟨inner, some m, some 0, rank⟩
  let pair (entity : Nat) (values : NearbyState both) : neighbouring.State := ⟨entity, values, none⟩
  have empty : (⟨#[0, 1], none, []⟩ : Nearby.Matrix Nat).Ranks [0, 1] (apart ()) :=
    ⟨rfl, rfl, nofun⟩
  obtain ⟨m, ranks, first⟩ := NearbyState.next_eq slate inner empty ranking₀ 0
  obtain ⟨m', ranks', second⟩ := NearbyState.next_eq slate inner ranks ranking₀ 1
  -- the first value is drawn after a pass has begun, and the second one goes on with that pass
  let fresh : NearbyState both := { child := (0 : Nat) }
  let values := both.byDistance slate apart none none
  have entity₁ : (both.recording slate).nextOrRestart set (0 : Nat) (w none) =
    .ok ((some 0, (1 : Nat)), w (some 0)) := rfl
  have none₁ : values.next set fresh (w (some 0)) = .ok ((none, fresh), w (some 0)) := rfl
  have begun₁ : values.restart set fresh (w (some 0)) =
    .ok (near ⟨#[0, 1], none, []⟩ 0, w (some 0)) := rfl
  have value₁ : values.nextOrRestart set fresh (w (some 0)) =
      .ok ((some 0, near m 1), w (some 0)) :=
    (draw_bind_eq none₁).trans ((draw_bind_eq begun₁).trans (first _))
  have draw₁ : neighbouring.next set neighbouring.start (w none) =
      .ok ((some (give 0 0), pair (1 : Nat) (near m 1)), w (some 0)) :=
    (draw_bind_eq ((draw_bind_eq entity₁).trans ((draw_bind_eq value₁).trans rfl))).trans rfl
  have entity₂ : (both.recording slate).nextOrRestart set (1 : Nat) (w (some 0)) =
    .ok ((some 1, (2 : Nat)), w (some 1)) := rfl
  have value₂ : values.nextOrRestart set (near m 1) (w (some 1)) =
      .ok ((some 1, near m' 2), w (some 1)) := draw_bind_eq (second (w (some 1)))
  have draw₂ : neighbouring.next set (pair 1 (near m 1)) (w (some 0)) =
      .ok ((some (give 1 1), pair (2 : Nat) (near m' 2)), w (some 1)) :=
    (draw_bind_eq ((draw_bind_eq entity₂).trans ((draw_bind_eq value₂).trans rfl))).trans rfl
  have reached : neighbouring.Undisturbed slate (slate.recorded (w (some 0)).memory) [()]
      (pair 1 (near m 1)) := .drawn (.start none) draw₁
  obtain ⟨e, v, origin, rank, before, w₀, same, drawn, -⟩ :=
    changes_drawnNear lawful_slate spares spares true give "" [()] _ set (w (some 0)) _ _ _ reached
      draw₂
  refine ⟨_, _, w (some 0), _, reached, draw₂, ⟨e, v, origin, rank, before, w₀, same, drawn⟩,
    ⟨near m 1, w (some 1), rfl, second _, rfl, m, rfl, ?_, (), List.mem_cons_self, [0, 1], ?_, rfl⟩,
    ranking₁⟩
  · rw [Nearby.Matrix.rowLength, ranks.whole, ← Array.length_toList, ranks.all]
    decide
  · rw [ranks.all]
    exact ranking₀

end Selector

end PlanSearch
